import ClassShrink.Text.Blank
import ClassShrink.Text.Search
import Mathlib.Data.List.Infix
import Mathlib.Data.List.TakeWhile

/-! # Parts of texts

Tests on texts say how these are put together. A text that is put together at a
separator, or with blanks around it, is taken apart again in the same way. -/

namespace ClassShrink.Text

/-! ## Tests -/

theorem isInfixOf_iff {α : Type} [BEq α] [LawfulBEq α] (part whole : List α) :
    isInfixOf part whole ↔ part <:+: whole := by
  induction whole with
  | nil => simp [isInfixOf]
  | cons head tail induction =>
      rw [isInfixOf, Bool.or_eq_true, List.isPrefixOf_iff_prefix, induction,
        List.infix_cons_iff]

theorem holds_iff (text part : String) : holds text part ↔ part.toList <:+: text.toList :=
  isInfixOf_iff _ _

theorem beginsWith_iff (text head : String) :
    beginsWith text head ↔ head.toList <+: text.toList :=
  List.isPrefixOf_iff_prefix

theorem endsWith_iff (text ending : String) :
    endsWith text ending ↔ ∃ front, text = front ++ ending := by
  rw [endsWith, List.isSuffixOf_iff_suffix]
  constructor
  · intro suffix
    rcases suffix with ⟨front, divided⟩
    refine ⟨String.ofList front, String.toList_injective ?_⟩
    rw [String.toList_append, String.toList_ofList, divided]
  · intro divided
    rcases divided with ⟨front, rfl⟩
    exact ⟨front.toList, (String.toList_append ..).symm⟩

/-! ## Cuts -/

section Cuts

variable {separator : Char} {before after text : List Char}

theorem cutAtFirst_append (absent : separator ∉ before) (after : List Char) :
    cutAtFirst separator (before ++ separator :: after) = some (before, after) := by
  induction before with
  | nil => simp [cutAtFirst]
  | cons head tail induction =>
      have different : head ≠ separator := (List.ne_of_not_mem_cons absent).symm
      rw [List.cons_append, cutAtFirst, if_neg different,
        induction (List.not_mem_of_not_mem_cons absent)]
      rfl

theorem cutAtFirst_eq_none (absent : separator ∉ text) : cutAtFirst separator text = none := by
  induction text with
  | nil => rfl
  | cons head tail induction =>
      have different : head ≠ separator := (List.ne_of_not_mem_cons absent).symm
      rw [cutAtFirst, if_neg different, induction (List.not_mem_of_not_mem_cons absent)]
      rfl

theorem cutAtLast_eq_none (absent : separator ∉ text) : cutAtLast separator text = none := by
  induction text with
  | nil => rfl
  | cons head tail induction =>
      have different : head ≠ separator := (List.ne_of_not_mem_cons absent).symm
      rw [cutAtLast, induction (List.not_mem_of_not_mem_cons absent)]
      exact if_neg different

theorem cutAtLast_append (absent : separator ∉ after) (before : List Char) :
    cutAtLast separator (before ++ separator :: after) = some (before, after) := by
  induction before with
  | nil => simp [cutAtLast, cutAtLast_eq_none absent]
  | cons head tail induction => rw [List.cons_append, cutAtLast, induction]

theorem eq_append_of_cutAtFirst (cut : cutAtFirst separator text = some (before, after)) :
    text = before ++ separator :: after := by
  by_cases listed : separator ∈ text
  · rcases List.eq_append_cons_of_mem listed with ⟨start, rest, rfl, absent⟩
    rw [cutAtFirst_append absent] at cut
    cases cut
    rfl
  · rw [cutAtFirst_eq_none listed] at cut
    cases cut

theorem eq_append_of_cutAtLast (cut : cutAtLast separator text = some (before, after)) :
    text = before ++ separator :: after := by
  induction text generalizing before with
  | nil => cases cut
  | cons head tail induction =>
      rw [cutAtLast] at cut
      cases inTail : cutAtLast separator tail with
      | some parts =>
          rw [inTail] at cut
          cases cut
          rw [induction inTail, List.cons_append]
      | none =>
          rw [inTail] at cut
          by_cases same : head = separator
          · simp only [if_pos same, Option.some.injEq, Prod.mk.injEq] at cut
            rcases cut with ⟨rfl, rfl⟩
            rw [same, List.nil_append]
          · simp only [if_neg same, reduceCtorEq] at cut

theorem eq_of_first {other rest : List Char} (absent : separator ∉ before)
    (otherAbsent : separator ∉ other)
    (same : before ++ separator :: after = other ++ separator :: rest) :
    before = other ∧ after = rest := by
  have cut := cutAtFirst_append absent after
  rw [same, cutAtFirst_append otherAbsent] at cut
  simpa [eq_comm] using cut

theorem eq_of_last {other rest : List Char} (absent : separator ∉ after)
    (otherAbsent : separator ∉ rest)
    (same : before ++ separator :: after = other ++ separator :: rest) :
    before = other ∧ after = rest := by
  have cut := cutAtLast_append absent before
  rw [same, cutAtLast_append otherAbsent] at cut
  simpa [eq_comm] using cut

theorem pieces_ne_nil (separator : Char) (text : List Char) : pieces separator text ≠ [] := by
  cases text with
  | nil => simp [pieces]
  | cons head tail =>
      rw [pieces]
      by_cases same : head = separator
      · simp [same]
      · cases pieces separator tail <;> simp [same]

theorem exists_pieces_cons {head : Char} (different : head ≠ separator) (tail : List Char) :
    ∃ first rest, pieces separator tail = first :: rest ∧
      pieces separator (head :: tail) = (head :: first) :: rest := by
  rcases List.exists_cons_of_ne_nil (pieces_ne_nil separator tail) with ⟨first, rest, split⟩
  refine ⟨first, rest, split, ?_⟩
  rw [pieces, if_neg different, split]

theorem pieces_eq_splitOn (separator : Char) (text : List Char) :
    pieces separator text = text.splitOn separator := by
  induction text with
  | nil => rw [pieces, List.splitOn_nil]
  | cons head tail induction =>
      rw [List.splitOn_cons_eq_if_modifyHead, ← induction]
      by_cases same : head = separator
      · simp [pieces, same]
      · rcases exists_pieces_cons same tail with ⟨first, rest, split, whole⟩
        simp [whole, split, same]

theorem not_mem_of_mem_pieces {piece : List Char} (listed : piece ∈ pieces separator text) :
    separator ∉ piece := by
  induction text generalizing piece with
  | nil =>
      rw [pieces, List.mem_singleton] at listed
      simp [listed]
  | cons head tail induction =>
      by_cases same : head = separator
      · rw [pieces, if_pos same] at listed
        rcases List.mem_cons.mp listed with rfl | later
        · exact List.not_mem_nil
        · exact induction later
      · rcases exists_pieces_cons same tail with ⟨first, rest, split, whole⟩
        rw [whole] at listed
        rw [split] at induction
        rcases List.mem_cons.mp listed with rfl | later
        · exact List.not_mem_cons_of_ne_of_not_mem (Ne.symm same) (induction List.mem_cons_self)
        · exact induction (List.mem_cons_of_mem _ later)

end Cuts

/-! ## Blanks -/

def Blank (text : String) : Prop :=
  ∀ character ∈ text.toList, isBlank character

structure Bare (text : String) : Prop where
  first : ∀ character ∈ text.toList.head?, isBlank character = false
  last : ∀ character ∈ text.toList.getLast?, isBlank character = false

def Pads (padded text : String) : Prop :=
  ∃ front back, Blank front ∧ Blank back ∧ padded = front ++ text ++ back

theorem Blank.append {front back : String} (frontBlank : Blank front) (backBlank : Blank back) :
    Blank (front ++ back) := by
  intro character listed
  rw [String.toList_append, List.mem_append] at listed
  exact listed.elim (frontBlank character) (backBlank character)

theorem Blank.not_mem {text : String} (blank : Blank text) {character : Char}
    (visible : isBlank character = false) : character ∉ text.toList := by
  intro listed
  rw [blank character listed] at visible
  cases visible

theorem Pads.not_mem {padded text : String} (pads : Pads padded text) {character : Char}
    (visible : isBlank character = false) (absent : character ∉ text.toList) :
    character ∉ padded.toList := by
  rcases pads with ⟨front, back, frontBlank, backBlank, rfl⟩
  simp [frontBlank.not_mem visible, absent, backBlank.not_mem visible]

theorem Pads.mem {padded text : String} (pads : Pads padded text) {character : Char}
    (listed : character ∈ text.toList) : character ∈ padded.toList := by
  rcases pads with ⟨front, back, _, _, rfl⟩
  simp [listed]

theorem Pads.refl (text : String) : Pads text text :=
  ⟨"", "", by simp [Blank], by simp [Blank], by simp⟩

theorem dropWhile_blanks {front text : List Char}
    (blank : ∀ character ∈ front, isBlank character)
    (bare : ∀ character ∈ text.head?, isBlank character = false) :
    (front ++ text).dropWhile isBlank = text := by
  rw [List.dropWhile_append_of_pos blank]
  cases text with
  | nil => rfl
  | cons head tail => rw [List.dropWhile_cons_of_neg (by simpa using bare)]

theorem bare_dropWhile (text : List Char) :
    ∀ character ∈ (text.dropWhile isBlank).head?, isBlank character = false := by
  intro character first
  have stopped := List.head?_dropWhile_not isBlank text
  rw [Option.mem_def.mp first] at stopped
  exact stopped

theorem pads_trim (text : String) : Pads text (trim text) := by
  let middle := text.toList.dropWhile isBlank
  refine ⟨String.ofList (text.toList.takeWhile isBlank),
    String.ofList (middle.reverse.takeWhile isBlank).reverse, ?_, ?_, ?_⟩
  · intro character listed
    rw [String.toList_ofList] at listed
    exact List.mem_takeWhile_imp listed
  · intro character listed
    rw [String.toList_ofList, List.mem_reverse] at listed
    exact List.mem_takeWhile_imp listed
  · apply String.toList_injective
    have trimmed : trimBlanks text.toList ++ (middle.reverse.takeWhile isBlank).reverse =
        middle := by
      rw [trimBlanks, ← List.reverse_append, List.takeWhile_append_dropWhile,
        List.reverse_reverse]
    simp only [trim, String.toList_append, String.toList_ofList, List.append_assoc, trimmed]
    exact List.takeWhile_append_dropWhile.symm

theorem bare_trim (text : String) : Bare (trim text) where
  first := by
    intro character first
    rw [trim, String.toList_ofList] at first
    -- The trimmed text is the beginning of what is left after the blanks in front.
    have beginning : trimBlanks text.toList <+: text.toList.dropWhile isBlank := by
      rw [trimBlanks, ← List.reverse_suffix, List.reverse_reverse]
      exact List.dropWhile_suffix _
    rcases beginning with ⟨rest, joined⟩
    apply bare_dropWhile text.toList
    rw [← joined, Option.mem_def, List.head?_append, Option.mem_def.mp first, Option.some_or]
  last := by
    intro character last
    rw [trim, String.toList_ofList, trimBlanks, List.getLast?_reverse] at last
    exact bare_dropWhile _ character last

theorem Blank.trim_eq {text : String} (blank : Blank text) : trim text = "" := by
  have dropped : text.toList.dropWhile isBlank = [] := List.dropWhile_eq_nil_iff.mpr blank
  rw [trim, trimBlanks, dropped]
  rfl

theorem Pads.trim_eq {padded text : String} (pads : Pads padded text) (bare : Bare text) :
    trim padded = text := by
  rcases pads with ⟨front, back, frontBlank, backBlank, rfl⟩
  -- Around an empty text there is nothing at which the blanks in front would end.
  by_cases empty : text = ""
  · subst empty
    rw [String.append_empty]
    exact (frontBlank.append backBlank).trim_eq
  · have nonempty : text.toList ≠ [] := by simpa using empty
    have firstOfRest : (text.toList ++ back.toList).head? = text.toList.head? :=
      List.head?_append_of_ne_nil _ nonempty
    have withoutFront : (front ++ text ++ back).toList.dropWhile isBlank =
        text.toList ++ back.toList := by
      rw [String.toList_append, String.toList_append, List.append_assoc]
      apply dropWhile_blanks frontBlank
      rw [firstOfRest]
      exact bare.first
    have withoutBack : (text.toList ++ back.toList).reverse.dropWhile isBlank =
        text.toList.reverse := by
      rw [List.reverse_append]
      apply dropWhile_blanks
      · intro character listed
        exact backBlank character (List.mem_reverse.mp listed)
      · rw [List.head?_reverse]
        exact bare.last
    rw [trim, trimBlanks, withoutFront, withoutBack, List.reverse_reverse, String.ofList_toList]

/-- Trimming takes away what padding adds, and nothing else. -/
theorem trim_eq_iff (padded text : String) : trim padded = text ↔ Bare text ∧ Pads padded text := by
  constructor
  · intro trimmed
    subst trimmed
    exact ⟨bare_trim padded, pads_trim padded⟩
  · intro padding
    exact padding.2.trim_eq padding.1

theorem trim_eq_empty_iff (text : String) : trim text = "" ↔ Blank text := by
  constructor
  · intro trimmed
    rcases ((trim_eq_iff text "").mp trimmed).2 with ⟨front, back, frontBlank, backBlank, rfl⟩
    rw [String.append_empty]
    exact frontBlank.append backBlank
  · exact Blank.trim_eq

end ClassShrink.Text
