import RegexEquiv.SortedSet
import RegexEquiv.Text.Unprintable
import RegexEquiv.Text.Quoted
import RegexEquiv.Text.Interval
import RegexEquiv.Alphabet
import RegexEquiv.Word
import RegexEquiv.Fault
import RegexEquiv.Token.Basic
import RegexEquiv.Token.Scan
import RegexEquiv.Regex.Basic
import RegexEquiv.Regex.Build
import RegexEquiv.Regex.Parser
import RegexEquiv.Regex.Printer
import RegexEquiv.Alphabet.Inferred
import RegexEquiv.Search
import RegexEquiv.Error
import RegexEquiv.Nfa.Basic
import RegexEquiv.Nfa.Thompson
import RegexEquiv.Dfa.Basic
import RegexEquiv.Dfa.Subset
import RegexEquiv.Dfa.Product
import RegexEquiv.Dfa.Verdict
import RegexEquiv.Compare
import RegexEquiv.Drawing
import RegexEquiv.Text.Colour
import RegexEquiv.CommandLine.Options
import RegexEquiv.CommandLine.Run
import RegexEquiv.Main
import RegexEquiv.Proofs.Search.Queue
import RegexEquiv.Proofs.Search.Reach
import RegexEquiv.Proofs.Word.Order
import RegexEquiv.Proofs.Search.Order
import RegexEquiv.Proofs.Dfa.Run
import RegexEquiv.Proofs.Dfa.Witness
import RegexEquiv.Proofs.Nfa.Path
import RegexEquiv.Proofs.Nfa.Thompson
import RegexEquiv.Proofs.Dfa.Subset
import RegexEquiv.Proofs.Regex.Symbols
import RegexEquiv.Proofs.Dfa.Verdict
import RegexEquiv.Proofs.Compare
import RegexEquiv.Proofs.Regex.Grammar
import RegexEquiv.Proofs.Regex.Reader
import RegexEquiv.Proofs.Regex.Reading
import RegexEquiv.Proofs.Regex.Outcome
import RegexEquiv.Proofs.Token.Spelling
import RegexEquiv.Proofs.Regex.RoundTrip
import RegexEquiv.Proofs.Search.Guard
import RegexEquiv.Proofs.Budget
import RegexEquiv.Proofs.Search.Mirror
import RegexEquiv.Proofs.Symmetry
import RegexEquiv.Proofs.Widening
import RegexEquiv.Proofs.Dfa.Product
import RegexEquiv.Proofs.Dfa.Complement
import RegexEquiv.Proofs.Dfa.Lookup
import RegexEquiv.Proofs.Dfa.WellFormed
import RegexEquiv.Proofs.Dfa.Session
import RegexEquiv.Proofs.Regex.PrintedDepth
import RegexEquiv.Proofs.Search.Count
import RegexEquiv.Proofs.Dfa.Empty
import RegexEquiv.Proofs.Dfa.Materialized
import RegexEquiv.Proofs.Regex.Mentions
import RegexEquiv.Proofs.Alphabet.Inferred
import RegexEquiv.Proofs.Alphabet.Columns
import RegexEquiv.Proofs.CommandLine
import RegexEquiv.Proofs.Dfa.StateSets
import RegexEquiv.Proofs.Dfa.ReachedPairs
import RegexEquiv.Proofs.Dfa.Numbering
import RegexEquiv.Proofs.Dfa.Algebra
import RegexEquiv.Proofs.Nfa.Shape
import RegexEquiv.Proofs.Nfa.Useful
import RegexEquiv.Proofs.Search.Exhaust
import RegexEquiv.Proofs.Nfa.Closure
import RegexEquiv.Proofs.Emptiness
import RegexEquiv.Proofs.Token.Depth
import RegexEquiv.Proofs.Regex.Height
import RegexEquiv.Proofs.Regex.Reprint
import RegexEquiv.Proofs.Token.Step
import RegexEquiv.Proofs.Token.Shift
import RegexEquiv.Proofs.Regex.Grouping
import RegexEquiv.Proofs.Token.Cutting
import RegexEquiv.Proofs.Token.Lexeme
import RegexEquiv.Proofs.Token.Writing
import RegexEquiv.Proofs.Regex.Culprit
import RegexEquiv.Proofs.Text.Code
import RegexEquiv.Proofs.Text.Quoted
import RegexEquiv.Proofs.Drawing.Dot
import RegexEquiv.Proofs.Drawing.Dfa
import RegexEquiv.Proofs.Alphabet.Reserved
import RegexEquiv.Proofs.Drawing.Nfa
