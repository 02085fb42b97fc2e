/-!
# Coloured text

Text for a terminal can be painted: it is put between the control sequence that selects a colour
and the one that resets it. Where colours are off, paint changes nothing.
-/

namespace RegexEquiv.Text

/-- The paints in use. -/
inductive Paint where
  | red
  | green
  | boldRed
deriving DecidableEq, Repr

/-- The parameters that select a paint. -/
def Paint.code : Paint → List Char
  | red => ['3', '1']
  | green => ['3', '2']
  | boldRed => ['1', ';', '3', '1']

/-- Paints a text, if colours are on. -/
def Paint.apply (paint : Paint) (colours : Bool) (text : List Char) : List Char :=
  if colours then
    ['\x1b', '['] ++ paint.code ++ 'm' :: text ++ ['\x1b', '[', '0', 'm']
  else text

end RegexEquiv.Text
