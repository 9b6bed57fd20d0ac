import ClassShrink.Config.KeepPattern
import ClassShrink.Proofs.TextParts

/-! # The one-line form of keep patterns

A pattern can be written in one line with blanks around its parts and with blank
items in its list of methods. Reading accepts these lines and no others, and gives
the pattern that was written. -/

namespace ClassShrink.KeepPattern

/-! ## Forms -/

/-- A part of a one-line form that ends at a separator: not blank at either end, and
not empty. -/
structure IsPart (separator : Char) (text : String) : Prop where
  nonempty : text ≠ ""
  bare : Text.Bare text
  undivided : separator ∉ text.toList

/-- A pattern that has a one-line form. The class may have commas and a method colons. -/
structure WellFormed (pattern : KeepPattern) : Prop where
  suffix : IsPart ':' pattern.suffix
  methods : ∀ method ∈ pattern.methods, IsPart ',' method

/-- Items that give some methods in their order, with blanks around them and with blank
items between them. -/
inductive Spaces : List String → List String → Prop
  | nil : Spaces [] []
  | blank {item : String} {items methods : List String} :
      Text.Blank item → Spaces items methods → Spaces (item :: items) methods
  | method {item method : String} {items methods : List String} :
      Text.Pads item method → Spaces items methods → Spaces (item :: items) (method :: methods)

/-- The one-line forms of a pattern. Without methods the colon may be left out. -/
inductive Spells (pattern : KeepPattern) : String → Prop
  | listed {suffix : String} {items : List String} :
      Text.Pads suffix pattern.suffix → Spaces items pattern.methods →
      Spells pattern (suffix ++ ":" ++ ",".intercalate items)
  | alone {rule : String} :
      Text.Pads rule pattern.suffix → pattern.methods = [] → Spells pattern rule

/-! ## Items -/

def trimmedItems (items : List String) : List String :=
  (items.map Text.trim).filter fun item => item ≠ ""

theorem trimmedItems_cons (item : String) (items : List String) :
    trimmedItems (item :: items) =
      if Text.trim item = "" then trimmedItems items
      else Text.trim item :: trimmedItems items := by
  by_cases blank : Text.trim item = "" <;> simp [trimmedItems, blank]

theorem spaces_trimmedItems (items : List String) : Spaces items (trimmedItems items) := by
  induction items with
  | nil => exact .nil
  | cons item items induction =>
      rw [trimmedItems_cons]
      by_cases blank : Text.trim item = ""
      · rw [if_pos blank]
        exact .blank ((Text.trim_eq_empty_iff item).mp blank) induction
      · rw [if_neg blank]
        exact .method (Text.pads_trim item) induction

theorem Spaces.trimmedItems_eq {items methods : List String} (spaces : Spaces items methods)
    (parts : ∀ method ∈ methods, method ≠ "" ∧ Text.Bare method) :
    trimmedItems items = methods := by
  induction spaces with
  | nil => rfl
  | blank blank _ induction =>
      rw [trimmedItems_cons, if_pos blank.trim_eq, induction parts]
  | method pads _ induction =>
      rcases parts _ List.mem_cons_self with ⟨nonempty, bare⟩
      rw [trimmedItems_cons, pads.trim_eq bare, if_neg nonempty,
        induction fun method listed => parts method (List.mem_cons_of_mem _ listed)]

theorem Spaces.undivided {items methods : List String} (spaces : Spaces items methods)
    (absent : ∀ method ∈ methods, ',' ∉ method.toList) : ∀ item ∈ items, ',' ∉ item.toList := by
  induction spaces with
  | nil => simp
  | blank blank _ induction =>
      exact List.forall_mem_cons.mpr ⟨blank.not_mem (by decide), induction absent⟩
  | method pads _ induction =>
      rcases List.forall_mem_cons.mp absent with ⟨first, rest⟩
      exact List.forall_mem_cons.mpr ⟨pads.not_mem (by decide) first, induction rest⟩

theorem spaces_self (methods : List String) : Spaces methods methods := by
  induction methods with
  | nil => exact .nil
  | cons method methods induction => exact .method (Text.Pads.refl method) induction

theorem listedItems_intercalate {items : List String}
    (undivided : ∀ item ∈ items, ',' ∉ item.toList) :
    (listedItems (",".intercalate items).toList).map String.ofList = trimmedItems items := by
  cases items with
  | nil => rfl
  | cons item items =>
      have divided : Text.pieces ',' (",".intercalate (item :: items)).toList =
          (item :: items).map String.toList := by
        rw [Text.pieces_eq_splitOn, String.toList_intercalate]
        apply List.splitOn_intercalate
        · simpa using undivided
        · simp
      have trimmed : (item :: items).map Text.trim =
          (((item :: items).map String.toList).map Text.trimBlanks).map String.ofList := by
        rw [List.map_map, List.map_map]
        rfl
      have nonempty : (fun item : String => decide (item ≠ "")) ∘ String.ofList =
          fun item : List Char => !item.isEmpty := by
        funext item
        cases item <;> simp
      rw [trimmedItems, trimmed, List.filter_map, nonempty, listedItems, divided]

theorem exists_items (text : String) :
    ∃ items, text = ",".intercalate items ∧ ∀ item ∈ items, ',' ∉ item.toList := by
  have characters : ((Text.pieces ',' text.toList).map String.ofList).map String.toList =
      Text.pieces ',' text.toList := by
    simp [Function.comp_def]
  refine ⟨(Text.pieces ',' text.toList).map String.ofList, ?_, ?_⟩
  · apply String.toList_injective
    rw [String.toList_intercalate, characters, Text.pieces_eq_splitOn]
    exact (List.intercalate_splitOn ',').symm
  · intro item listed
    apply Text.not_mem_of_mem_pieces
    rw [← characters]
    exact List.mem_map_of_mem listed

theorem isPart_of_mem_trimmedItems {items : List String}
    (undivided : ∀ item ∈ items, ',' ∉ item.toList) {method : String}
    (listed : method ∈ trimmedItems items) : IsPart ',' method := by
  rcases List.mem_filter.mp listed with ⟨trimmed, nonempty⟩
  rcases List.mem_map.mp trimmed with ⟨item, isItem, rfl⟩
  refine ⟨of_decide_eq_true nonempty, Text.bare_trim item, ?_⟩
  intro inside
  exact undivided item isItem ((Text.pads_trim item).mem inside)

/-! ## Rules -/

theorem divide_append {head : String} (absent : ':' ∉ head.toList) (tail : String) :
    divide (head ++ ":" ++ tail).toList = (head.toList, tail.toList) := by
  have joined : (head ++ ":" ++ tail).toList = head.toList ++ ':' :: tail.toList := by simp
  rw [divide, joined, Text.cutAtFirst_append absent]
  rfl

theorem divide_of_absent {rule : String} (absent : ':' ∉ rule.toList) :
    divide rule.toList = (rule.toList, "".toList) := by
  rw [divide, Text.cutAtFirst_eq_none absent]
  rfl

theorem exists_divide (rule : String) :
    ∃ head tail : String, divide rule.toList = (head.toList, tail.toList) ∧
      ':' ∉ head.toList ∧ (rule = head ++ ":" ++ tail ∨ rule = head ∧ tail = "") := by
  by_cases colon : ':' ∈ rule.toList
  · rcases List.eq_append_cons_of_mem colon with ⟨before, after, joined, absent⟩
    have headAbsent : ':' ∉ (String.ofList before).toList := by rwa [String.toList_ofList]
    have whole : rule = String.ofList before ++ ":" ++ String.ofList after := by
      apply String.toList_injective
      rw [joined]
      simp
    refine ⟨String.ofList before, String.ofList after, ?_, headAbsent, .inl whole⟩
    rw [whole]
    exact divide_append headAbsent _
  · exact ⟨rule, "", divide_of_absent colon, colon, .inr ⟨rfl, rfl⟩⟩

theorem takeWhile_eq_divide (rule : String) :
    rule.toList.takeWhile (· ≠ ':') = (divide rule.toList).1 := by
  rcases exists_divide rule with ⟨head, tail, divided, absent, whole⟩
  have before : ∀ character ∈ head.toList, decide (character ≠ ':') := by
    intro character listed
    exact decide_eq_true fun colon => absent (colon ▸ listed)
  rw [divided]
  rcases whole with rfl | ⟨rfl, _⟩
  · rw [String.toList_append, String.toList_append, List.append_assoc,
      List.takeWhile_append_of_pos before]
    simp
  · exact List.takeWhile_eq_self_iff.mpr before

section Divided

variable {rule head tail : String} (divided : divide rule.toList = (head.toList, tail.toList))

include divided

theorem parse?_of_divide :
    parse? rule = if Text.trim head = "" then none
      else some ⟨Text.trim head, (listedItems tail.toList).map String.ofList⟩ := by
  simp [parse?, divided, Text.trim]

theorem parse?_eq_some_iff_of_divide (pattern : KeepPattern) :
    parse? rule = some pattern ↔
      pattern.suffix ≠ "" ∧ Text.trim head = pattern.suffix ∧
        (listedItems tail.toList).map String.ofList = pattern.methods := by
  rw [parse?_of_divide divided]
  constructor
  · intro parsed
    by_cases blank : Text.trim head = ""
    · rw [if_pos blank] at parsed
      cases parsed
    · rw [if_neg blank] at parsed
      cases parsed
      exact ⟨blank, rfl, rfl⟩
  · intro parts
    rcases parts with ⟨nonempty, trimmed, listed⟩
    rw [trimmed, if_neg nonempty, listed]

end Divided

theorem parse?_eq_none_iff (rule : String) :
    parse? rule = none ↔
      ∀ character ∈ rule.toList.takeWhile (· ≠ ':'), Text.isBlank character := by
  rcases exists_divide rule with ⟨head, tail, divided, _, _⟩
  rw [takeWhile_eq_divide, parse?_of_divide divided, divided]
  by_cases blank : Text.trim head = ""
  · rw [if_pos blank]
    exact iff_of_true rfl ((Text.trim_eq_empty_iff head).mp blank)
  · rw [if_neg blank]
    refine iff_of_false (Option.some_ne_none _) ?_
    intro allBlank
    exact blank (Text.Blank.trim_eq allBlank)

theorem WellFormed.parse?_of_spells {pattern : KeepPattern} (formed : pattern.WellFormed)
    {rule : String} (spells : pattern.Spells rule) : parse? rule = some pattern := by
  cases spells with
  | listed pads spaces =>
      have absent := pads.not_mem (by decide) formed.suffix.undivided
      have undivided :=
        spaces.undivided fun method listed => (formed.methods method listed).undivided
      rw [parse?_eq_some_iff_of_divide (divide_append absent _)]
      refine ⟨formed.suffix.nonempty, pads.trim_eq formed.suffix.bare, ?_⟩
      rw [listedItems_intercalate undivided]
      apply spaces.trimmedItems_eq
      intro method listed
      exact ⟨(formed.methods method listed).nonempty, (formed.methods method listed).bare⟩
  | alone pads noMethods =>
      have absent := pads.not_mem (by decide) formed.suffix.undivided
      rw [parse?_eq_some_iff_of_divide (divide_of_absent absent), noMethods]
      exact ⟨formed.suffix.nonempty, pads.trim_eq formed.suffix.bare, rfl⟩

theorem spells_of_parse? {rule : String} {pattern : KeepPattern}
    (parsed : parse? rule = some pattern) : pattern.WellFormed ∧ pattern.Spells rule := by
  rcases exists_divide rule with ⟨head, tail, divided, absent, whole⟩
  rcases exists_items tail with ⟨items, rfl, undivided⟩
  rw [parse?_eq_some_iff_of_divide divided, listedItems_intercalate undivided] at parsed
  rcases parsed with ⟨nonempty, trimmed, listed⟩
  rcases (Text.trim_eq_iff head pattern.suffix).mp trimmed with ⟨bare, pads⟩
  constructor
  · refine ⟨⟨nonempty, bare, fun inside => absent (pads.mem inside)⟩, ?_⟩
    rw [← listed]
    exact fun method => isPart_of_mem_trimmedItems undivided
  · rcases whole with rfl | ⟨rfl, noItems⟩
    · apply Spells.listed pads
      rw [← listed]
      exact spaces_trimmedItems items
    · apply Spells.alone pads
      rw [← listed, ← listedItems_intercalate undivided, noItems]
      rfl

theorem spells_render (pattern : KeepPattern) : pattern.Spells pattern.render :=
  .listed (Text.Pads.refl _) (spaces_self _)

/-- Reading a one-line form inverts writing it. A rule is read as a pattern exactly if the
pattern has a one-line form and the rule is one of its forms, whatever blanks and blank
items that has. Writing what was read and reading it again gives the same pattern. A
rule cannot be read exactly if there is nothing but blanks before its first colon. -/
theorem parse?_inverts_forms (pattern : KeepPattern) (rule : String) :
    (parse? rule = some pattern ↔ pattern.WellFormed ∧ pattern.Spells rule) ∧
    (parse? pattern.render = some pattern ↔ pattern.WellFormed) ∧
    (parse? rule = some pattern → parse? pattern.render = some pattern) ∧
    (parse? rule = none ↔
      ∀ character ∈ rule.toList.takeWhile (· ≠ ':'), Text.isBlank character) := by
  have rendered : pattern.WellFormed → parse? pattern.render = some pattern :=
    fun formed => formed.parse?_of_spells pattern.spells_render
  refine ⟨⟨spells_of_parse?, ?_⟩, ⟨?_, rendered⟩, ?_, parse?_eq_none_iff rule⟩
  · intro form
    exact form.1.parse?_of_spells form.2
  · intro parsed
    exact (spells_of_parse? parsed).1
  · intro parsed
    exact rendered (spells_of_parse? parsed).1

namespace SpacedRule

/-! A rule with blanks of several kinds and with blank items. The comma before the colon
belongs to the class, and the second colon to a method. -/

def rule : String :=
  "\u3000app.Job,Task\t: ,run:fast\u00a0,,\n, stop now ,"

def pattern : KeepPattern :=
  ⟨"app.Job,Task", ["run:fast", "stop now"]⟩

/-- The rule is a form of the pattern, and so is the line without the blanks. Without its
class the rule could not be read. -/
theorem read_and_written :
    parse? rule = some pattern ∧ pattern.WellFormed ∧ pattern.Spells rule ∧
      parse? "app.Job,Task:run:fast,stop now" = some pattern ∧
      parse? "\u3000\t: ,run:fast" = none := by
  have parsed : parse? rule = some pattern := by decide +kernel
  have rendered : pattern.render = "app.Job,Task:run:fast,stop now" := by decide +kernel
  rcases parse?_inverts_forms pattern rule with ⟨forms, _, again, _⟩
  rcases parse?_inverts_forms pattern "\u3000\t: ,run:fast" with ⟨_, _, _, fails⟩
  rcases forms.mp parsed with ⟨formed, spells⟩
  refine ⟨parsed, formed, spells, rendered ▸ again parsed, fails.mpr ?_⟩
  exact List.all_eq_true.mp (by decide +kernel)

end SpacedRule

end ClassShrink.KeepPattern
