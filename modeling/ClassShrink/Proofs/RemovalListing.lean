import ClassShrink.Proofs.Accounting
import ClassShrink.Proofs.MemberKeys
import ClassShrink.Proofs.Tables
import ClassShrink.Report.Listing

/-! # The listing of removals

A report lists what was removed by its text alone. Where points and colons do nothing but
divide the names, the listing has one entry for each class that is removed or lost a
member: without members for a removed class, and with the lost members for any other. -/

namespace ClassShrink

open ProgramGraph (ofProgram)

namespace Listing

variable {removed : List String} {owner label name : String} {labels : List String}

/-! ## Names -/

theorem splitMember?_memberKey {owner name : String} (ownerColon : ':' ∉ owner.toList)
    (namePoint : '.' ∉ name.toList) (nameColon : ':' ∉ name.toList) (descriptor : String) :
    splitMember? (memberKey owner name descriptor) =
      some (owner, name ++ ":" ++ descriptor) := by
  have path : ':' ∉ owner.toList ++ '.' :: name.toList := by simp [ownerColon, nameColon]
  have whole : (memberKey owner name descriptor).toList =
      (owner.toList ++ '.' :: name.toList) ++ ':' :: descriptor.toList := by
    rw [memberKey_toList, List.append_assoc, List.cons_append]
  have rest : String.ofList (name.toList ++ ':' :: descriptor.toList) =
      name ++ ":" ++ descriptor := by
    apply String.toList_injective
    simp
  rw [splitMember?, whole, Text.cutAtFirst_append path, Option.bind_eq_bind, Option.bind_some]
  dsimp only
  rw [Text.cutAtLast_append namePoint, Option.bind_some]
  dsimp only
  rw [rest, String.ofList_toList]

theorem splitMember?_eq_none (absent : ':' ∉ name.toList) : splitMember? name = none := by
  rw [splitMember?, Text.cutAtFirst_eq_none absent]
  rfl

theorem eq_append_of_splitMember? (split : splitMember? name = some (owner, label)) :
    name = owner ++ "." ++ label := by
  rw [splitMember?, Option.bind_eq_bind, Option.bind_eq_some_iff] at split
  rcases split with ⟨⟨qualified, descriptor⟩, first, split⟩
  dsimp only at split
  rw [Option.bind_eq_some_iff] at split
  rcases split with ⟨⟨front, member⟩, last, split⟩
  cases split
  apply String.toList_injective
  rw [Text.eq_append_of_cutAtFirst first, Text.eq_append_of_cutAtLast last]
  simp

/-! ## Entries -/

def wholes (removed : List String) : List String :=
  removed.filter fun name => (splitMember? name).isNone

def labelsOf (removed : List String) (owner : String) : List String :=
  ((removed.filterMap splitMember?).filter fun part => part.1 = owner).map Prod.snd

theorem mem_wholes_iff : name ∈ wholes removed ↔ name ∈ removed ∧ splitMember? name = none := by
  rw [wholes, List.mem_filter, Option.isNone_iff_eq_none]

theorem wholes_cons (name : String) (rest : List String) :
    wholes (name :: rest) =
      if (splitMember? name).isNone then name :: wholes rest else wholes rest :=
  List.filter_cons

theorem mem_labelsOf_iff :
    label ∈ labelsOf removed owner ↔
      ∃ name ∈ removed, splitMember? name = some (owner, label) := by
  simp [labelsOf]

theorem labelsOf_ne_nil_iff :
    labelsOf removed owner ≠ [] ↔ owner ∈ (removed.filterMap splitMember?).map Prod.fst := by
  rw [labelsOf, ne_eq, List.map_eq_nil_iff, List.filter_eq_nil_iff]
  simp

/-! ## Grouping -/

theorem foldl_enter_parts (removed : List String) (grouping : Grouping) :
    (removed.foldl Grouping.enter grouping).parts =
      grouping.parts.pushAll Prod.fst Prod.snd (removed.filterMap splitMember?) := by
  induction removed generalizing grouping with
  | nil => rfl
  | cons name rest induction =>
      rw [List.foldl_cons, induction, Grouping.enter]
      cases split : splitMember? name with
      | none => simp [split]
      | some part => simp [split, Table.pushAll]

theorem foldl_enter_whole_get? (removed : List String) (grouping : Grouping) (owner : String) :
    (removed.foldl Grouping.enter grouping).whole.get? owner =
      if owner ∈ wholes removed then some [] else grouping.whole.get? owner := by
  induction removed generalizing grouping with
  | nil => rfl
  | cons name rest induction =>
      rw [List.foldl_cons, induction, Grouping.enter, wholes_cons]
      cases splitMember? name with
      | some part => rfl
      | none => by_cases inRest : owner ∈ wholes rest <;> simp [inRest]

theorem foldl_enter_whole_nodup (removed : List String) {grouping : Grouping}
    (distinct : grouping.whole.keys.Nodup) :
    (removed.foldl Grouping.enter grouping).whole.keys.Nodup := by
  induction removed generalizing grouping with
  | nil => exact distinct
  | cons name rest induction =>
      rw [List.foldl_cons, Grouping.enter]
      cases splitMember? name with
      | none => exact induction (Table.insert_keys_nodup distinct _ _)
      | some part => exact induction distinct

theorem parts_get?_eq_some_iff :
    (removed.foldl Grouping.enter {}).parts.get? owner = some labels ↔
      labelsOf removed owner ≠ [] ∧ labels = labelsOf removed owner := by
  have filled : ((removed.foldl Grouping.enter {}).parts.get? owner).getD [] =
      labelsOf removed owner := by
    rw [foldl_enter_parts, Table.getD_pushAll]
    rfl
  have entered : owner ∈ (removed.foldl Grouping.enter {}).parts.keys ↔
      labelsOf removed owner ≠ [] := by
    rw [foldl_enter_parts, Table.mem_pushAll_keys, labelsOf_ne_nil_iff]
    exact or_iff_right List.not_mem_nil
  cases held : (removed.foldl Grouping.enter {}).parts.get? owner with
  | none =>
      have absent := Table.get?_eq_none_iff.mp held
      simp [entered.not.mp absent]
  | some values =>
      have present := Table.contains_iff.mp (Option.isSome_of_eq_some held)
      rw [held, Option.getD_some] at filled
      rw [← filled, and_iff_right (filled ▸ entered.mp present), Option.some_inj, eq_comm]

theorem grouped_keys_nodup (removed : List String) :
    (((removed.foldl Grouping.enter {}).parts.filterKeys fun owner =>
      !(removed.foldl Grouping.enter {}).whole.contains owner).extend
        (removed.foldl Grouping.enter {}).whole).keys.Nodup := by
  refine Table.extend_keys_nodup (Table.filterKeys_keys_nodup ?_ _) _
  rw [foldl_enter_parts]
  exact Table.pushAll_keys_nodup _ _ Table.empty_keys_nodup _

def IsListed (removed : List String) (owner : String) : Prop :=
  owner ∈ wholes removed ∨ labelsOf removed owner ≠ []

theorem mem_byClass_iff :
    (owner, labels) ∈ byClass removed ↔
      IsListed removed owner ∧
        labels = if owner ∈ wholes removed then [] else labelsOf removed owner := by
  rw [byClass, List.mem_mergeSort, Table.mem_entries_iff (grouped_keys_nodup removed),
    Table.get?_extend (foldl_enter_whole_nodup removed Table.empty_keys_nodup),
    Table.get?_filterKeys, Table.contains, foldl_enter_whole_get?]
  by_cases isWhole : owner ∈ wholes removed
  · rw [if_pos isWhole, if_pos isWhole, Option.some_or, Option.some_inj, eq_comm]
    exact (and_iff_right (.inl isWhole)).symm
  · simp [isWhole, IsListed, parts_get?_eq_some_iff]

theorem mem_keys_byClass_iff : owner ∈ (byClass removed).map Prod.fst ↔ IsListed removed owner := by
  simp [mem_byClass_iff]

theorem byClass_ascending (removed : List String) :
    ((byClass removed).map Prod.fst).Pairwise (· < ·) := by
  have sorted : (byClass removed).Pairwise fun entry other => entry.1 ≤ other.1 :=
    mergeSort_pairwise (fun entry other => textLe_iff entry.1 other.1) _
  have distinct : ((byClass removed).map Prod.fst).Nodup :=
    ((List.mergeSort_perm _ _).map Prod.fst).nodup_iff.mpr (grouped_keys_nodup removed)
  exact pairwise_lt_of_sorted Function.injective_id distinct (List.pairwise_map.mpr sorted)

/-- Names of one class are in the order of what follows the class in them. -/
theorem labelsOf_ascending (sorted : removed.Pairwise (· < ·)) (owner : String) :
    (labelsOf removed owner).Pairwise (· < ·) := by
  have parts : (removed.filterMap splitMember?).Pairwise fun part other =>
      part.1 ++ "." ++ part.2 < other.1 ++ "." ++ other.2 := by
    rw [List.pairwise_filterMap]
    refine sorted.imp ?_
    intro name other below part split otherPart otherSplit
    rwa [← eq_append_of_splitMember? split, ← eq_append_of_splitMember? otherSplit]
  -- Names of one class begin alike, so only what follows the class can make the difference.
  rw [labelsOf, List.pairwise_map, List.pairwise_filter]
  refine parts.imp ?_
  intro part other below ofOwner otherOfOwner
  rw [of_decide_eq_true ofOwner, of_decide_eq_true otherOfOwner] at below
  exact (append_lt_append_iff _ _ _).mp below

end Listing

/-! ## Removed symbols -/

def Member.label (member : Member) : String :=
  member.name ++ ":" ++ member.descriptor

namespace Outcome

variable (outcome : Outcome) (declaration : ClassDecl)

/-- No class with the name of the declared one is left. -/
def Removes : Prop :=
  ∀ left ∈ outcome.program.classes, left.name ≠ declaration.name

/-- No member with the signature of the declared one is left in its class. -/
def Loses (member : Member) : Prop :=
  ∀ left ∈ outcome.program.classes, left.name = declaration.name →
    ∀ kept ∈ left.members, kept.signature ≠ member.signature

instance : Decidable (outcome.Removes declaration) :=
  inferInstanceAs (Decidable (∀ left ∈ outcome.program.classes, left.name ≠ declaration.name))

instance (member : Member) : Decidable (outcome.Loses declaration member) :=
  inferInstanceAs (Decidable (∀ left ∈ outcome.program.classes, left.name = declaration.name →
    ∀ kept ∈ left.members, kept.signature ≠ member.signature))

end Outcome

/-- A listing by class of what an outcome has left out of a program. -/
structure Listing.Shows (listing : List (String × List String)) (program : Program)
    (outcome : Outcome) : Prop where
  ascending : (listing.map Prod.fst).Pairwise (· < ·)
  /-- The entries are those of the removed classes and of those that lost a member. -/
  mem_keys : ∀ owner, owner ∈ listing.map Prod.fst ↔
    ∃ declaration ∈ program.classes, declaration.name = owner ∧
      (outcome.Removes declaration ∨
        ∃ member ∈ declaration.members, outcome.Loses declaration member)
  removed : ∀ declaration ∈ program.classes, outcome.Removes declaration →
    ∀ labels, (declaration.name, labels) ∈ listing ↔ labels = []
  /-- A class that is left is listed with the members that it lost, once each. -/
  thinned : ∀ declaration ∈ program.classes, ¬outcome.Removes declaration →
    ∀ labels, (declaration.name, labels) ∈ listing →
      labels ≠ [] ∧ labels.Pairwise (· < ·) ∧
      ∀ label, label ∈ labels ↔
        ∃ member ∈ declaration.members, outcome.Loses declaration member ∧ label = member.label

namespace Program.WellNamed

variable {program : Program} (named : program.WellNamed) {declaration : ClassDecl}
  {member : Member}

include named

theorem splitMember?_qualifiedName (isClass : declaration ∈ program.classes)
    (isMember : member ∈ declaration.members) :
    Listing.splitMember? (member.qualifiedName declaration.name) =
      some (declaration.name, member.label) := by
  rcases named.members declaration isClass member isMember with ⟨point, colon⟩
  exact Listing.splitMember?_memberKey (named.classes declaration isClass) point colon _

theorem splitMember?_name (isClass : declaration ∈ program.classes) :
    Listing.splitMember? declaration.name = none :=
  Listing.splitMember?_eq_none (named.classes declaration isClass)

theorem remainder (reached : List Nat) :
    (program.remainder reached).WellNamed where
  classes := by
    intro left isLeft
    rcases (Program.mem_remainder_iff left).mp isLeft with
      ⟨position, declaration, declared, _, rfl⟩
    exact named.classes declaration (List.mem_of_getElem? declared)
  members := by
    intro left isLeft kept isKept
    rcases (Program.mem_remainder_iff left).mp isLeft with
      ⟨position, declaration, declared, _, rfl⟩
    rcases (Program.mem_thinned_iff kept).mp isKept with ⟨index, member, has, _, rfl⟩
    exact named.members declaration (List.mem_of_getElem? declared) member
      (List.mem_of_getElem? has)

end Program.WellNamed

theorem Member.signature_eq_of_label {member other : Member} (colon : ':' ∉ member.name.toList)
    (otherColon : ':' ∉ other.name.toList) (same : member.label = other.label) :
    member.signature = other.signature := by
  have texts : member.name.toList ++ ':' :: member.descriptor.toList =
      other.name.toList ++ ':' :: other.descriptor.toList := by
    simpa [label] using congrArg String.toList same
  rcases Text.eq_of_first colon otherColon texts with ⟨name, descriptor⟩
  rw [signature, signature, String.toList_injective name, String.toList_injective descriptor]

namespace Outcome

variable {outcome : Outcome} {program : Program} {declaration : ClassDecl} {member : Member}

theorem AccountsFor.mem_removed_iff (accounts : outcome.AccountsFor program) (name : String) :
    name ∈ outcome.report.removed ↔
      name ∈ program.symbolNames ∧ name ∉ outcome.program.symbolNames := by
  rw [← accounts.names.mem_iff, List.mem_append]
  constructor
  · intro isRemoved
    exact ⟨.inr isRemoved, fun isLeft => accounts.disjoint isLeft isRemoved⟩
  · intro gone
    exact gone.1.resolve_left gone.2

section Named

variable (named : program.WellNamed) (leftNamed : outcome.program.WellNamed)
  (isClass : declaration ∈ program.classes)

include named leftNamed isClass

theorem removes_iff :
    outcome.Removes declaration ↔ declaration.name ∉ outcome.program.symbolNames := by
  rw [Program.mem_symbolNames_iff]
  constructor
  · intro removes isLeft
    rcases isLeft with ⟨left, leftClass, sameName | ⟨kept, isKept, sameName⟩⟩
    · exact removes left leftClass sameName.symm
    · have split := leftNamed.splitMember?_qualifiedName leftClass isKept
      rw [← sameName, named.splitMember?_name isClass] at split
      cases split
  · intro absent left leftClass sameName
    exact absent ⟨left, leftClass, .inl sameName.symm⟩

theorem loses_iff (isMember : member ∈ declaration.members) :
    outcome.Loses declaration member ↔
      member.qualifiedName declaration.name ∉ outcome.program.symbolNames := by
  have split := named.splitMember?_qualifiedName isClass isMember
  rw [Program.mem_symbolNames_iff]
  constructor
  · intro loses isLeft
    rcases isLeft with ⟨left, leftClass, sameName | ⟨kept, isKept, sameName⟩⟩
    · rw [sameName, leftNamed.splitMember?_name leftClass] at split
      cases split
    · -- Both keys are split alike, which gives back the class and the signature.
      rw [sameName, leftNamed.splitMember?_qualifiedName leftClass isKept, Option.some.injEq,
        Prod.mk.injEq] at split
      rcases split with ⟨sameClass, sameLabel⟩
      apply loses left leftClass sameClass kept isKept
      exact Member.signature_eq_of_label (leftNamed.members left leftClass kept isKept).2
        (named.members declaration isClass member isMember).2 sameLabel
  · intro absent left leftClass sameClass kept isKept sameSignature
    have sameKey : kept.signature.key left.name = member.signature.key declaration.name := by
      rw [sameSignature, sameClass]
    exact absent ⟨left, leftClass, .inr ⟨kept, isKept, sameKey.symm⟩⟩

end Named

end Outcome

/-! ## The listing of an outcome -/

namespace Listing

variable {program : Program} {outcome : Outcome} (distinct : program.symbolNames.Nodup)
  (named : program.WellNamed) (leftNamed : outcome.program.WellNamed)
  (accounts : outcome.AccountsFor program)

include named leftNamed accounts

theorem mem_wholes_iff_removes (owner : String) :
    owner ∈ wholes outcome.report.removed ↔
      ∃ declaration ∈ program.classes, declaration.name = owner ∧ outcome.Removes declaration := by
  rw [mem_wholes_iff, accounts.mem_removed_iff, Program.mem_symbolNames_iff]
  constructor
  · intro whole
    rcases whole with
      ⟨⟨⟨declaration, isClass, rfl | ⟨member, isMember, rfl⟩⟩, notLeft⟩, noMember⟩
    · exact ⟨declaration, isClass, rfl, (Outcome.removes_iff named leftNamed isClass).mpr notLeft⟩
    · rw [named.splitMember?_qualifiedName isClass isMember] at noMember
      cases noMember
  · intro removed
    rcases removed with ⟨declaration, isClass, rfl, removes⟩
    have notLeft := (Outcome.removes_iff named leftNamed isClass).mp removes
    exact ⟨⟨⟨declaration, isClass, .inl rfl⟩, notLeft⟩, named.splitMember?_name isClass⟩

theorem mem_labelsOf_iff_loses (owner label : String) :
    label ∈ labelsOf outcome.report.removed owner ↔
      ∃ declaration ∈ program.classes, declaration.name = owner ∧
        ∃ member ∈ declaration.members, outcome.Loses declaration member ∧
          label = member.label := by
  rw [mem_labelsOf_iff]
  constructor
  · intro listed
    rcases listed with ⟨name, isRemoved, split⟩
    rcases (accounts.mem_removed_iff name).mp isRemoved with ⟨isSymbol, notLeft⟩
    rcases Program.mem_symbolNames_iff.mp isSymbol with
      ⟨declaration, isClass, rfl | ⟨member, isMember, rfl⟩⟩
    · rw [named.splitMember?_name isClass] at split
      cases split
    · rw [named.splitMember?_qualifiedName isClass isMember] at split
      cases split
      have loses := (Outcome.loses_iff named leftNamed isClass isMember).mpr notLeft
      exact ⟨declaration, isClass, rfl, member, isMember, loses, rfl⟩
  · intro lost
    rcases lost with ⟨declaration, isClass, rfl, member, isMember, loses, rfl⟩
    have notLeft := (Outcome.loses_iff named leftNamed isClass isMember).mp loses
    refine ⟨_, ?_, named.splitMember?_qualifiedName isClass isMember⟩
    rw [accounts.mem_removed_iff]
    exact ⟨Program.qualifiedName_mem_symbolNames isClass isMember, notLeft⟩

theorem isListed_iff_concerned (owner : String) :
    IsListed outcome.report.removed owner ↔
      ∃ declaration ∈ program.classes, declaration.name = owner ∧
        (outcome.Removes declaration ∨
          ∃ member ∈ declaration.members, outcome.Loses declaration member) := by
  rw [IsListed, mem_wholes_iff_removes named leftNamed accounts]
  constructor
  · intro concerned
    rcases concerned with ⟨declaration, isClass, sameName, removes⟩ | thinned
    · exact ⟨declaration, isClass, sameName, .inl removes⟩
    · rcases List.exists_mem_of_ne_nil _ thinned with ⟨label, listed⟩
      rcases (mem_labelsOf_iff_loses named leftNamed accounts owner label).mp listed with
        ⟨declaration, isClass, sameName, member, isMember, loses, _⟩
      exact ⟨declaration, isClass, sameName, .inr ⟨member, isMember, loses⟩⟩
  · intro concerned
    rcases concerned with ⟨declaration, isClass, sameName, removes | ⟨member, isMember, loses⟩⟩
    · exact .inl ⟨declaration, isClass, sameName, removes⟩
    · have listed := (mem_labelsOf_iff_loses named leftNamed accounts owner member.label).mpr
        ⟨declaration, isClass, sameName, member, isMember, loses, rfl⟩
      exact .inr (List.ne_nil_of_mem listed)

include distinct

theorem byClass_shows :
    Shows (byClass outcome.report.removed) program outcome where
  ascending := byClass_ascending _
  mem_keys owner := by
    rw [mem_keys_byClass_iff]
    exact isListed_iff_concerned named leftNamed accounts owner
  removed declaration isClass removes labels := by
    have whole := (mem_wholes_iff_removes named leftNamed accounts declaration.name).mpr
      ⟨declaration, isClass, rfl, removes⟩
    rw [mem_byClass_iff, if_pos whole]
    exact and_iff_right (.inl whole)
  thinned declaration isClass isLeft labels entry := by
    have unique : ∀ other ∈ program.classes, other.name = declaration.name →
        other = declaration :=
      fun other otherClass sameName =>
        List.inj_on_of_nodup_map (Program.classNames_nodup distinct) otherClass isClass sameName
    have notWhole : declaration.name ∉ wholes outcome.report.removed := by
      intro whole
      rcases (mem_wholes_iff_removes named leftNamed accounts _).mp whole with
        ⟨other, otherClass, sameName, removes⟩
      exact isLeft (unique other otherClass sameName ▸ removes)
    rw [mem_byClass_iff, if_neg notWhole] at entry
    rcases entry with ⟨listed, rfl⟩
    refine ⟨listed.resolve_left notWhole, labelsOf_ascending accounts.sorted _, ?_⟩
    intro label
    rw [mem_labelsOf_iff_loses named leftNamed accounts]
    constructor
    · intro lost
      rcases lost with ⟨other, otherClass, sameName, lost⟩
      exact unique other otherClass sameName ▸ lost
    · intro lost
      exact ⟨declaration, isClass, rfl, lost⟩

end Listing

/-- The listing of the removals of a sweep has an entry for each class that is removed and
for each that is left and lost a member. A removed class stands for its members, any other
is listed with the members that it lost, in order and once each; so the entries of
removed classes are those without members. The same holds for a pass. -/
theorem Shrink.removals_listed_by_class {program : Program} {graph : ProgramGraph}
    {parallel : Bool} (built : ProgramGraph.build program parallel = .ok graph)
    (named : program.WellNamed) :
    (∀ reached outcome, graph.sweep reached = .ok outcome →
      Listing.Shows (Listing.byClass outcome.report.removed) program outcome) ∧
    ∀ config outcome, run config program = .ok outcome →
      Listing.Shows (Listing.byClass outcome.report.removed) program outcome := by
  rcases ProgramGraph.build_eq_ok_iff.mp built with ⟨distinct, _, rfl⟩
  constructor
  · intro reached outcome swept
    rcases ProgramGraph.sweep_eq_ok distinct swept with ⟨closed, rfl⟩
    exact Listing.byClass_shows distinct named (named.remainder reached)
      (closed.accountsFor distinct 0 [])
  · intro config outcome ran
    rcases exists_pass_of_run ran with ⟨reached, pass⟩
    have leftNamed : outcome.program.WellNamed := by
      rw [pass.program_eq]
      exact named.remainder reached
    exact Listing.byClass_shows distinct named leftNamed pass.accountsFor

namespace NestedNames

/-! A class whose name begins with that of another, which is also how the names of members
begin. A descriptor has a point and a colon. -/

def job : ClassDecl :=
  { name := "app.Job"
    members :=
      [{ kind := .method, name := "stop", descriptor := "(a.b:c)" },
        { kind := .method, name := "run", descriptor := "()" },
        { kind := .field, name := "done", descriptor := "Z" }] }

def step : ClassDecl :=
  { name := "app.Job.Step", members := [{ kind := .method, name := "run", descriptor := "()" }] }

def idle : ClassDecl :=
  { name := "app.Idle" }

def program : Program :=
  ⟨[job, step, idle]⟩

def outcome : Outcome :=
  ⟨program.remainder [0, 2, 6], program.account [0, 2, 6]⟩

/-- The second class is listed as removed and not as a member of the first, which is listed
with the members that it lost. The last class is not listed. -/
theorem removals_listed :
    ∃ graph outcome, ProgramGraph.build program = .ok graph ∧ program.WellNamed ∧
      graph.sweep [0, 2, 6] = .ok outcome ∧
      ("app.Job.Step", []) ∈ Listing.byClass outcome.report.removed ∧
      (∀ labels, ("app.Job", labels) ∈ Listing.byClass outcome.report.removed →
        labels.Pairwise (· < ·) ∧ ∀ label, label ∈ labels ↔
          label = "stop:(a.b:c)" ∨ label = "done:Z") ∧
      "app.Job" ∈ (Listing.byClass outcome.report.removed).map Prod.fst ∧
      "app.Idle" ∉ (Listing.byClass outcome.report.removed).map Prod.fst := by
  have distinct : program.symbolNames.Nodup := by decide +kernel
  have built : ProgramGraph.build program = .ok (ofProgram program) :=
    ProgramGraph.build_eq_ok_iff.mpr ⟨distinct, by decide +kernel, rfl⟩
  have named : program.WellNamed := ⟨by decide +kernel, by decide +kernel⟩
  have intact : (ofProgram program).view.violation? [0, 2, 6] = none := by decide +kernel
  have swept : (ofProgram program).sweep [0, 2, 6] = .ok outcome := by
    rw [ProgramGraph.sweep_eq distinct, intact, outcome]
  have shows := (Shrink.removals_listed_by_class built named).1 [0, 2, 6] outcome swept
  have jobListed : job ∈ program.classes := by decide +kernel
  have stepListed : step ∈ program.classes := by decide +kernel
  have lost : (job.members.filter fun member => outcome.Loses job member).map Member.label =
      ["stop:(a.b:c)", "done:Z"] := by
    decide +kernel
  refine ⟨_, outcome, built, named, swept, ?_, ?_, ?_, ?_⟩
  · exact (shows.removed step stepListed (by decide +kernel) []).mpr rfl
  · intro labels entry
    rcases shows.thinned job jobListed (by decide +kernel) labels entry with
      ⟨_, ascending, mem_iff⟩
    refine ⟨ascending, fun label => ?_⟩
    have listed : label ∈ labels ↔
        label ∈ (job.members.filter fun member => outcome.Loses job member).map Member.label := by
      rw [mem_iff]
      simp [eq_comm, and_assoc]
    rw [listed, lost]
    simp
  · exact (shows.mem_keys "app.Job").mpr (by decide +kernel)
  · exact fun listed => absurd ((shows.mem_keys "app.Idle").mp listed) (by decide +kernel)

end NestedNames

end ClassShrink
