import ClassShrink.Ascending
import Mathlib.Data.List.Pairwise
import Mathlib.Data.Prod.Lex
import Mathlib.Data.String.Basic

/-! # Sorted lists

All lists are sorted by comparing keys of a linear order. If the key tells elements
apart, lists of the same elements have one sorted form, and this is strictly ascending
where no element occurs twice or repetitions are dropped. -/

namespace ClassShrink

/-! ## Elements -/

section Elements

variable {α : Type} [DecidableEq α]

@[simp] theorem mem_dropRepeats_iff (elements : List α) (element : α) :
    element ∈ dropRepeats elements ↔ element ∈ elements := by
  induction elements using dropRepeats.induct with
  | case1 => rfl
  | case2 => rfl
  | case3 head rest induction =>
      rw [dropRepeats, if_pos rfl, induction]
      simp
  | case4 head next rest different induction =>
      rw [dropRepeats, if_neg different, List.mem_cons, induction]
      exact List.mem_cons.symm

@[simp] theorem mem_ascending_iff (le : α → α → Bool) (elements : List α) (element : α) :
    element ∈ ascending le elements ↔ element ∈ elements := by
  rw [ascending, mem_dropRepeats_iff, (List.mergeSort_perm elements le).mem_iff]

theorem dropRepeats_eq_self {elements : List α} (distinct : elements.Nodup) :
    dropRepeats elements = elements := by
  induction elements using dropRepeats.induct with
  | case1 => rfl
  | case2 => rfl
  | case3 head rest _ => exact absurd List.mem_cons_self (List.nodup_cons.mp distinct).1
  | case4 head next rest different induction =>
      rw [dropRepeats, if_neg different, induction (List.nodup_cons.mp distinct).2]

theorem ascending_length {elements : List α} (distinct : elements.Nodup) (le : α → α → Bool) :
    (ascending le elements).length = elements.length := by
  have sorted := elements.mergeSort_perm le
  rw [ascending, dropRepeats_eq_self (sorted.nodup_iff.mpr distinct), sorted.length_eq]

end Elements

/-! ## Lists in the order of their keys -/

section Keys

variable {α β : Type} [LinearOrder β] {key : α → β} {elements left right : List α}
  (injective : Function.Injective key)

include injective

theorem eq_of_perm_of_sorted (permuted : left.Perm right)
    (leftSorted : left.Pairwise fun element other => key element ≤ key other)
    (rightSorted : right.Pairwise fun element other => key element ≤ key other) :
    left = right := by
  apply permuted.eq_of_pairwise _ leftSorted rightSorted
  intro element other _ _ below above
  exact injective (le_antisymm below above)

theorem pairwise_lt_of_sorted (distinct : elements.Nodup)
    (sorted : elements.Pairwise fun element other => key element ≤ key other) :
    elements.Pairwise fun element other => key element < key other := by
  refine sorted.imp₂ ?_ distinct
  intro element other below different
  exact lt_of_le_of_ne below (injective.ne different)

theorem dropRepeats_pairwise [DecidableEq α]
    (sorted : elements.Pairwise fun element other => key element ≤ key other) :
    (dropRepeats elements).Pairwise fun element other => key element < key other := by
  induction elements using dropRepeats.induct with
  | case1 => exact .nil
  | case2 => exact List.pairwise_singleton _ _
  | case3 head rest induction =>
      rw [dropRepeats, if_pos rfl]
      exact induction (List.pairwise_cons.mp sorted).2
  | case4 head next rest different induction =>
      rcases List.pairwise_cons.mp sorted with ⟨headLeast, tailSorted⟩
      rw [dropRepeats, if_neg different, List.pairwise_cons]
      refine ⟨fun later member => ?_, induction tailSorted⟩
      rw [mem_dropRepeats_iff] at member
      -- The next element is strictly above the head, and no later one is below it.
      have above : key head < key next :=
        lt_of_le_of_ne (headLeast next List.mem_cons_self) (injective.ne different)
      rcases List.mem_cons.mp member with rfl | inRest
      · exact above
      · exact lt_of_lt_of_le above ((List.pairwise_cons.mp tailSorted).1 later inRest)

end Keys

/-! ## Sorting by keys -/

section Sorting

variable {α β : Type} [LinearOrder β] {key : α → β} {le : α → α → Bool}
  {elements left right : List α}
  (compares : ∀ element other, le element other ↔ key element ≤ key other)

include compares

theorem mergeSort_pairwise (elements : List α) :
    (elements.mergeSort le).Pairwise fun element other => key element ≤ key other := by
  have sorted : (elements.mergeSort le).Pairwise fun element other => le element other := by
    apply List.pairwise_mergeSort
    · intro first second third
      simpa only [compares] using le_trans
    · intro first second
      simpa only [Bool.or_eq_true, compares] using le_total (key first) (key second)
  exact sorted.imp (compares _ _).mp

variable (injective : Function.Injective key)

include injective

theorem mergeSort_eq_of_perm (permuted : left.Perm right) :
    left.mergeSort le = right.mergeSort le := by
  have sortedPermuted : (left.mergeSort le).Perm (right.mergeSort le) :=
    ((left.mergeSort_perm le).trans permuted).trans (right.mergeSort_perm le).symm
  exact eq_of_perm_of_sorted injective sortedPermuted (mergeSort_pairwise compares left)
    (mergeSort_pairwise compares right)

theorem mergeSort_pairwise_lt (distinct : elements.Nodup) :
    (elements.mergeSort le).Pairwise fun element other => key element < key other :=
  pairwise_lt_of_sorted injective ((elements.mergeSort_perm le).nodup_iff.mpr distinct)
    (mergeSort_pairwise compares elements)

theorem ascending_pairwise [DecidableEq α] (elements : List α) :
    (ascending le elements).Pairwise fun element other => key element < key other :=
  dropRepeats_pairwise injective (mergeSort_pairwise compares elements)

end Sorting

/-! ## Numbers, texts and pairs -/

theorem natLe_iff (left right : Nat) : natLe left right ↔ left ≤ right :=
  decide_eq_true_iff

theorem textLe_iff (left right : String) : textLe left right ↔ left ≤ right :=
  decide_eq_true_iff

theorem append_lt_append_iff (front left right : String) :
    front ++ left < front ++ right ↔ left < right := by
  have increasing : StrictMono fun text : String => front ++ text := by
    intro lower upper below
    rw [String.lt_iff_toList_lt] at below ⊢
    rw [String.toList_append, String.toList_append]
    exact List.append_left_lt below
  exact increasing.lt_iff_lt

theorem pairLe_iff (left right : Nat × Nat) : pairLe left right ↔ toLex left ≤ toLex right := by
  simp [pairLe, Prod.Lex.toLex_le_toLex]

theorem textPairLe_iff (left right : String × String) :
    textPairLe left right ↔ toLex left ≤ toLex right := by
  simp [textPairLe, Prod.Lex.toLex_le_toLex]

section Pairs

variable {α β γ δ : Type} [DecidableEq α] [DecidableEq β] [LinearOrder γ] [LinearOrder δ]
  {first : α → γ} {second : β → δ} {firstLe : α → α → Bool} {secondLe : β → β → Bool}
  (firstCompares : ∀ left right, firstLe left right ↔ first left ≤ first right)
  (firstInjective : Function.Injective first)
  (secondCompares : ∀ left right, secondLe left right ↔ second left ≤ second right)
  (secondInjective : Function.Injective second)

include firstCompares firstInjective secondCompares

omit [DecidableEq β] in
theorem lexLe_iff (left right : α × β) :
    lexLe firstLe secondLe left right ↔
      toLex (first left.1, second left.2) ≤ toLex (first right.1, second right.2) := by
  rw [Prod.Lex.toLex_le_toLex, lexLe]
  split
  case isTrue same => simp [same, secondCompares]
  case isFalse different =>
    have unequal := firstInjective.ne different
    rw [firstCompares]
    exact ⟨fun below => .inl (lt_of_le_of_ne below unequal),
      fun below => below.elim le_of_lt fun same => absurd same.1 unequal⟩

include secondInjective

theorem ascending_lexLe_pairwise (pairs : List (α × β)) :
    (ascending (lexLe firstLe secondLe) pairs).Pairwise
      (Prod.Lex (fun left right => first left < first right)
        fun left right => second left < second right) := by
  have injective : Function.Injective fun pair : α × β => toLex (first pair.1, second pair.2) :=
    toLex.injective.comp (firstInjective.prodMap secondInjective)
  have compares := lexLe_iff firstCompares firstInjective secondCompares
  refine (ascending_pairwise compares injective pairs).imp fun below => ?_
  rw [Prod.lex_def]
  refine (Prod.Lex.toLex_lt_toLex.mp below).imp id fun later => ?_
  exact ⟨firstInjective later.1, later.2⟩

end Pairs

end ClassShrink
