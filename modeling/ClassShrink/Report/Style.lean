/-! # Styled text

Text for a terminal that knows escape sequences. A styled text begins with the
codes of its style and ends with a reset. -/

namespace ClassShrink

inductive Color where
  | red
  | green
  | yellow
  | cyan
  | white
deriving DecidableEq, Repr

def Color.code : Color → String
  | .red => "31"
  | .green => "32"
  | .yellow => "33"
  | .cyan => "36"
  | .white => "37"

structure Style where
  bold : Bool := false
  dimmed : Bool := false
  color? : Option Color := none
deriving DecidableEq, Repr

namespace Style

def codes (style : Style) : List String :=
  (if style.bold then ["1"] else []) ++ (if style.dimmed then ["2"] else []) ++
    (style.color?.map Color.code).toList

def opening (style : Style) : List Char :=
  '\x1b' :: '[' :: (";".intercalate style.codes).toList ++ ['m']

def reset : List Char :=
  ['\x1b', '[', '0', 'm']

/-- Begin the style anew after every reset inside the text. `skip` counts the
characters of a reset that are still to be passed. -/
def resume (opening : List Char) (skip : Nat) : List Char → List Char
  | [] => []
  | head :: tail =>
      match skip with
      | 0 =>
          if reset.isPrefixOf (head :: tail) then head :: resume opening (reset.length - 1) tail
          else head :: resume opening 0 tail
      | 1 => head :: opening ++ resume opening 0 tail
      | skip + 2 => head :: resume opening (skip + 1) tail

def paint (style : Style) (enabled : Bool) (text : String) : String :=
  if enabled then
    String.ofList (style.opening ++ resume style.opening 0 text.toList ++ reset)
  else text

end Style

end ClassShrink
