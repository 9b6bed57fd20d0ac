/-! # Searching in text

Prefix, suffix and substring tests, and cutting at a separator. Each is a
function on the list of characters, so it is reasoned about with the laws of
lists. -/

namespace ClassShrink.Text

/-! ## Tests -/

def isInfixOf {α : Type} [BEq α] (part : List α) : List α → Bool
  | [] => part.isEmpty
  | head :: tail => part.isPrefixOf (head :: tail) || isInfixOf part tail

example : isInfixOf [2, 3] [1, 2, 3, 4] = true := rfl

example : isInfixOf [2, 4] [1, 2, 3, 4] = false := rfl

def beginsWith (text head : String) : Bool :=
  head.toList.isPrefixOf text.toList

def endsWith (text ending : String) : Bool :=
  ending.toList.isSuffixOf text.toList

def holds (text part : String) : Bool :=
  isInfixOf part.toList text.toList

/-! ## Cuts -/

def cutAtFirst (separator : Char) : List Char → Option (List Char × List Char)
  | [] => none
  | head :: tail =>
      if head = separator then some ([], tail)
      else (cutAtFirst separator tail).map fun (before, after) => (head :: before, after)

def cutAtLast (separator : Char) : List Char → Option (List Char × List Char)
  | [] => none
  | head :: tail =>
      match cutAtLast separator tail with
      | some (before, after) => some (head :: before, after)
      | none => if head = separator then some ([], tail) else none

example : cutAtFirst ':' ['a', ':', 'b', ':', 'c'] = some (['a'], ['b', ':', 'c']) := rfl

example : cutAtLast ':' ['a', ':', 'b', ':', 'c'] = some (['a', ':', 'b'], ['c']) := rfl

def pieces (separator : Char) : List Char → List (List Char)
  | [] => [[]]
  | head :: tail =>
      if head = separator then [] :: pieces separator tail
      else
        match pieces separator tail with
        | [] => [[head]]
        | first :: rest => (head :: first) :: rest

example : pieces ',' ['a', ',', ',', 'b'] = [['a'], [], ['b']] := rfl

example : pieces ',' [] = [[]] := rfl

end ClassShrink.Text
