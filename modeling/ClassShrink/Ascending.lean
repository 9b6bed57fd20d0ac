/-! # Ascending lists

Sorting a list and dropping repetitions, so that equal sets of elements give
equal lists. -/

namespace ClassShrink

def dropRepeats {α : Type} [DecidableEq α] : List α → List α
  | [] => []
  | [element] => [element]
  | element :: next :: rest =>
      if element = next then dropRepeats (next :: rest)
      else element :: dropRepeats (next :: rest)

example : dropRepeats [1, 1, 2, 2, 2, 3] = [1, 2, 3] := rfl

def ascending {α : Type} [DecidableEq α] (le : α → α → Bool) (elements : List α) : List α :=
  dropRepeats (elements.mergeSort le)

/-! ## Orders -/

def natLe (left right : Nat) : Bool :=
  decide (left ≤ right)

/-- Texts are ordered by their characters' code points. -/
def textLe (left right : String) : Bool :=
  decide (left ≤ right)

def lexLe {α β : Type} [DecidableEq α] (firstLe : α → α → Bool) (secondLe : β → β → Bool)
    (left right : α × β) : Bool :=
  if left.1 = right.1 then secondLe left.2 right.2 else firstLe left.1 right.1

def pairLe (left right : Nat × Nat) : Bool :=
  decide (left.1 < right.1) || (decide (left.1 = right.1) && decide (left.2 ≤ right.2))

def textPairLe (left right : String × String) : Bool :=
  decide (left.1 < right.1) || (decide (left.1 = right.1) && decide (left.2 ≤ right.2))

end ClassShrink
