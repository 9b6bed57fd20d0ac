import ClassShrink.Proofs.Roots
import ClassShrink.Proofs.TextParts

/-! # What the text of a key tells

Keep rules look for names in the text of qualified names. Where the points and colons in
a qualified name are only those that divide it, such a search finds a name at its own
place and nowhere else. -/

namespace ClassShrink

open ProgramGraph (ofProgram)

/-! ## Qualified names -/

namespace Text

variable {owner name descriptor method : List Char}

theorem eq_of_infix_key (ownerColon : ':' ∉ owner) (namePoint : '.' ∉ name)
    (nameColon : ':' ∉ name) (descriptorPoint : '.' ∉ descriptor) (methodPoint : '.' ∉ method)
    (methodColon : ':' ∉ method)
    (occurs : '.' :: (method ++ [':']) <:+: owner ++ '.' :: (name ++ ':' :: descriptor)) :
    method = name := by
  rcases occurs with ⟨front, rest, divided⟩
  have headColon : ':' ∉ owner ++ '.' :: name := by simp [ownerColon, nameColon]
  by_cases early : ':' ∈ front
  · -- The first colon would come before the point, and the point stand in the descriptor.
    rcases List.eq_append_cons_of_mem early with ⟨start, more, rfl, startColon⟩
    have whole : start ++ ':' :: (more ++ '.' :: (method ++ ':' :: rest)) =
        (owner ++ '.' :: name) ++ ':' :: descriptor := by
      simpa using divided
    have inDescriptor := (eq_of_first startColon headColon whole).2
    exact absurd (inDescriptor ▸ by simp) descriptorPoint
  · have frontColon : ':' ∉ front ++ '.' :: method := by simp [early, methodColon]
    have whole : (front ++ '.' :: method) ++ ':' :: rest =
        (owner ++ '.' :: name) ++ ':' :: descriptor := by
      simpa using divided
    have sameHead := (eq_of_first frontColon headColon whole).1
    exact (eq_of_last methodPoint namePoint sameHead).2

end Text

theorem memberKey_toList (owner name descriptor : String) :
    (memberKey owner name descriptor).toList =
      owner.toList ++ '.' :: (name.toList ++ ':' :: descriptor.toList) := by
  simp [memberKey]

/-- The names of a program have points and colons only where these divide them: a class
name may have points, the name of a member has neither. -/
structure Program.WellNamed (program : Program) : Prop where
  classes : ∀ declaration ∈ program.classes, ':' ∉ declaration.name.toList
  members : ∀ declaration ∈ program.classes, ∀ member ∈ declaration.members,
    '.' ∉ member.name.toList ∧ ':' ∉ member.name.toList

def Program.PlainDescriptors (program : Program) : Prop :=
  ∀ declaration ∈ program.classes, ∀ member ∈ declaration.members,
    '.' ∉ member.descriptor.toList

namespace Program.WellNamed

variable {program : Program} (named : program.WellNamed) {declaration : ClassDecl}
  {member : Member} (isClass : declaration ∈ program.classes)
  (isMember : member ∈ declaration.members)

include named isClass isMember

theorem holds_qualifiedName_iff (plain : program.PlainDescriptors) {method : String}
    (methodPoint : '.' ∉ method.toList) (methodColon : ':' ∉ method.toList) :
    Text.holds (member.qualifiedName declaration.name) ("." ++ method ++ ":") ↔
      member.name = method := by
  have token : ("." ++ method ++ ":").toList = '.' :: (method.toList ++ [':']) := by simp
  rw [Text.holds_iff, token, Member.qualifiedName, memberKey_toList]
  rcases named.members declaration isClass member isMember with ⟨namePoint, nameColon⟩
  constructor
  · intro occurs
    have same := Text.eq_of_infix_key (named.classes declaration isClass) namePoint nameColon
      (plain declaration isClass member isMember) methodPoint methodColon occurs
    exact String.toList_injective same.symm
  · intro same
    subst same
    exact ⟨declaration.name.toList, member.descriptor.toList, by simp⟩

theorem path_colon : ':' ∉ (declaration.name ++ "." ++ member.name).toList := by
  simp [named.classes declaration isClass, (named.members declaration isClass member isMember).2]

theorem beginsWith_qualifiedName_iff {entry : String} (entryColon : ':' ∉ entry.toList) :
    Text.beginsWith (member.qualifiedName declaration.name) (entry ++ ":") ↔
      entry = declaration.name ++ "." ++ member.name := by
  have pathColon := named.path_colon isClass isMember
  have whole : (member.qualifiedName declaration.name).toList =
      (declaration.name ++ "." ++ member.name).toList ++ ':' :: member.descriptor.toList := by
    simp [Member.qualifiedName, memberKey]
  have head : (entry ++ ":").toList = entry.toList ++ [':'] := by simp
  rw [Text.beginsWith_iff, whole, head]
  constructor
  · intro begins
    rcases begins with ⟨rest, divided⟩
    rw [List.append_assoc] at divided
    exact String.toList_injective (Text.eq_of_first entryColon pathColon divided).1
  · intro same
    subst same
    exact ⟨member.descriptor.toList, by simp⟩

theorem isEntered_iff (entries : List String) :
    KeepRule.isEntered entries (member.qualifiedName declaration.name) ↔
      member.qualifiedName declaration.name ∈ entries ∨
        declaration.name ++ "." ++ member.name ∈ entries := by
  have pathColon := named.path_colon isClass isMember
  rw [KeepRule.isEntered_iff]
  constructor
  · intro entered
    rcases entered with ⟨entry, listed, rfl | ⟨noColon, begins⟩⟩
    · exact .inl listed
    · rw [named.beginsWith_qualifiedName_iff isClass isMember noColon] at begins
      exact .inr (begins ▸ listed)
  · intro listed
    rcases listed with whole | path
    · exact ⟨_, whole, .inl rfl⟩
    · exact ⟨_, path, .inr ⟨pathColon,
        (named.beginsWith_qualifiedName_iff isClass isMember pathColon).mpr rfl⟩⟩

theorem namesMethod_iff (plain : program.PlainDescriptors) {methods : List String}
    (methodsPlain : ∀ method ∈ methods, '.' ∉ method.toList ∧ ':' ∉ method.toList) :
    KeepRule.namesMethod methods (member.qualifiedName declaration.name) ↔
      member.name ∈ methods := by
  rw [KeepRule.namesMethod, List.any_eq_true]
  constructor
  · intro found
    rcases found with ⟨method, listed, occurs⟩
    rcases methodsPlain method listed with ⟨methodPoint, methodColon⟩
    rw [named.holds_qualifiedName_iff isClass isMember plain methodPoint methodColon] at occurs
    exact occurs ▸ listed
  · intro listed
    rcases methodsPlain member.name listed with ⟨methodPoint, methodColon⟩
    exact ⟨member.name, listed,
      (named.holds_qualifiedName_iff isClass isMember plain methodPoint methodColon).mpr rfl⟩

end Program.WellNamed

/-! ## What the rules keep -/

namespace KeepRule

variable {program : Program} (named : program.WellNamed) {position symbol : Nat}
  {declaration : ClassDecl} (declared : program.classes[position]? = some declaration)

include named declared

theorem namePattern_keeps_iff_named (plain : program.PlainDescriptors) (suffix : String)
    {methods : List String}
    (methodsPlain : ∀ method ∈ methods, '.' ∉ method.toList ∧ ':' ∉ method.toList) :
    (namePattern suffix methods).Keeps (ofProgram program).view
        ((ofProgram program).classNode position) symbol ↔
      (∃ front, declaration.name = front ++ suffix) ∧
        ∃ index member, declaration.members[index]? = some member ∧ member.kind = .method ∧
          member.name ∈ methods ∧ symbol = (ofProgram program).memberNode position index := by
  rw [ProgramGraph.classNode_eq declared]
  refine (namePattern_keeps_iff declared ⟨suffix, methods⟩).trans ?_
  refine and_congr (Text.endsWith_iff _ _) ?_
  refine exists_congr fun index => exists_congr fun member => and_congr_right fun has => ?_
  rw [named.namesMethod_iff (List.mem_of_getElem? declared) (List.mem_of_getElem? has) plain
    methodsPlain, ProgramGraph.memberNode_eq declared has]

theorem entryPoints_keeps_iff_named (entries : List String) :
    (entryPoints entries).Keeps (ofProgram program).view
        ((ofProgram program).classNode position) symbol ↔
      (declaration.name ∈ entries ∧ symbol = (ofProgram program).classNode position) ∨
      ∃ index member, declaration.members[index]? = some member ∧
        (member.qualifiedName declaration.name ∈ entries ∨
          declaration.name ++ "." ++ member.name ∈ entries) ∧
        symbol = (ofProgram program).memberNode position index := by
  rw [ProgramGraph.classNode_eq declared]
  refine (entryPoints_keeps_iff declared entries).trans ?_
  refine or_congr_right ?_
  refine exists_congr fun index => exists_congr fun member => and_congr_right fun has => ?_
  rw [named.isEntered_iff (List.mem_of_getElem? declared) (List.mem_of_getElem? has),
    ProgramGraph.memberNode_eq declared has]

end KeepRule

/-- The rules that search in qualified names keep what they would keep if they compared
the parts of names. A name pattern keeps the methods with one of its names on a class
with its suffix. Entry points keep a class by its name, and a member by its qualified
name with or without the descriptor. Neither keeps anything else. -/
theorem KeepRule.textual_rules_match_names {program : Program} {graph : ProgramGraph}
    {parallel : Bool} (built : ProgramGraph.build program parallel = .ok graph)
    (named : program.WellNamed) (plain : program.PlainDescriptors) {position : Nat}
    {declaration : ClassDecl} (declared : program.classes[position]? = some declaration) :
    (∀ (suffix : String) (methods : List String),
      (∀ method ∈ methods, '.' ∉ method.toList ∧ ':' ∉ method.toList) →
      ∃ kept, (namePattern suffix methods).keep graph.view (graph.classNode position) = .ok kept ∧
        ∀ symbol, symbol ∈ kept ↔ (∃ front, declaration.name = front ++ suffix) ∧
          ∃ index member, declaration.members[index]? = some member ∧
            member.kind = .method ∧ member.name ∈ methods ∧
            symbol = graph.memberNode position index) ∧
    ∀ entries : List String,
      ∃ kept, (entryPoints entries).keep graph.view (graph.classNode position) = .ok kept ∧
        (graph.classNode position ∈ kept ↔ declaration.name ∈ entries) ∧
        (∀ index member, declaration.members[index]? = some member →
          (graph.memberNode position index ∈ kept ↔
            member.qualifiedName declaration.name ∈ entries ∨
              declaration.name ++ "." ++ member.name ∈ entries)) ∧
        ∀ symbol ∈ kept, symbol = graph.classNode position ∨
          ∃ index member, declaration.members[index]? = some member ∧
            symbol = graph.memberNode position index := by
  rcases ProgramGraph.build_eq_ok_iff.mp built with ⟨_, _, rfl⟩
  constructor
  · intro suffix methods methodsPlain
    obtain ⟨kept, answered⟩ : ∃ kept, (namePattern suffix methods).keep (ofProgram program).view
        ((ofProgram program).classNode position) = .ok kept := ⟨_, rfl⟩
    refine ⟨kept, answered, fun symbol => ?_⟩
    rw [← keeps_iff_of_ok answered]
    exact namePattern_keeps_iff_named named declared plain suffix methodsPlain
  · intro entries
    obtain ⟨kept, answered⟩ : ∃ kept, (entryPoints entries).keep (ofProgram program).view
        ((ofProgram program).classNode position) = .ok kept := ⟨_, rfl⟩
    refine ⟨kept, answered, ?_, ?_, ?_⟩
    · rw [← keeps_iff_of_ok answered]
      refine (entryPoints_keeps_iff_named named declared entries).trans ?_
      constructor
      · intro keeps
        rcases keeps with ⟨entered, _⟩ | ⟨index, _, has, _, same⟩
        · exact entered
        · rw [ProgramGraph.classNode_eq declared, ProgramGraph.memberNode_eq declared has] at same
          exact absurd same (Program.classNode_ne_memberNode position index)
      · intro entered
        exact .inl ⟨entered, rfl⟩
    · intro index member has
      rw [← keeps_iff_of_ok answered]
      refine (entryPoints_keeps_iff_named named declared entries).trans ?_
      constructor
      · intro keeps
        rcases keeps with ⟨_, same⟩ | ⟨other, partner, otherHas, entered, same⟩
        · rw [ProgramGraph.classNode_eq declared, ProgramGraph.memberNode_eq declared has] at same
          exact absurd same.symm (Program.classNode_ne_memberNode position index)
        · rw [ProgramGraph.memberNode_eq declared has,
            ProgramGraph.memberNode_eq declared otherHas] at same
          obtain rfl := Program.index_eq_of_memberNode_eq same
          obtain rfl : member = partner := Option.some.inj (has.symm.trans otherHas)
          exact entered
      · intro entered
        exact .inr ⟨index, member, has, entered, rfl⟩
    · intro symbol isKept
      rw [← keeps_iff_of_ok answered, entryPoints_keeps_iff_named named declared] at isKept
      rcases isKept with ⟨_, isClass⟩ | ⟨index, member, has, _, isMember⟩
      · exact .inl isClass
      · exact .inr ⟨index, member, has, isMember⟩

namespace RepeatedName

/-! A class with a method and a field of one name, which also occurs after a colon in the
descriptor of the method and at the end of the name of another method. -/

def program : Program :=
  ⟨[{ name := "app.RunTest"
      members :=
        [{ kind := .method, name := "run", descriptor := "(a:run:b)" },
          { kind := .field, name := "run", descriptor := "I" },
          { kind := .method, name := "rerun", descriptor := "()" }] }]⟩

/-- The pattern keeps the method with the name, the entry point keeps both members with
the name, and neither keeps the other method. -/
theorem kept_by_name :
    ∃ graph, ProgramGraph.build program = .ok graph ∧
      program.WellNamed ∧ program.PlainDescriptors ∧
      (∃ kept, (KeepRule.namePattern "Test" ["run"]).keep graph.view (graph.classNode 0) =
          .ok kept ∧
        graph.memberNode 0 0 ∈ kept ∧ graph.memberNode 0 2 ∉ kept) ∧
      ∃ kept, (KeepRule.entryPoints ["app.RunTest.run"]).keep graph.view (graph.classNode 0) =
          .ok kept ∧
        graph.classNode 0 ∉ kept ∧ graph.memberNode 0 1 ∈ kept ∧ graph.memberNode 0 2 ∉ kept := by
  have built : ProgramGraph.build program = .ok (ofProgram program) :=
    ProgramGraph.build_eq_ok_iff.mpr ⟨by decide +kernel, by decide +kernel, rfl⟩
  have named : program.WellNamed := ⟨by decide +kernel, by decide +kernel⟩
  have plain : program.PlainDescriptors := by
    unfold Program.PlainDescriptors
    decide +kernel
  have declared : program.classes[0]? = some program.classes[0] := rfl
  rcases KeepRule.textual_rules_match_names built named plain declared with
    ⟨ofPattern, ofEntries⟩
  rcases ofPattern "Test" ["run"] (by decide +kernel) with ⟨kept, answered, kept_iff⟩
  rcases ofEntries ["app.RunTest.run"] with ⟨entered, entries, isClass, isMember, _⟩
  refine ⟨_, built, named, plain, ⟨kept, answered, ?_, ?_⟩, entered, entries, ?_, ?_, ?_⟩
  · exact (kept_iff _).mpr ⟨⟨"app.Run", rfl⟩, 0, _, rfl, rfl, List.mem_cons_self, rfl⟩
  · intro isKept
    rcases (kept_iff _).mp isKept with ⟨_, index, member, has, _, inMethods, same⟩
    rw [ProgramGraph.memberNode_eq declared rfl, ProgramGraph.memberNode_eq declared has] at same
    obtain rfl := Program.index_eq_of_memberNode_eq same
    cases has
    exact absurd inMethods (by decide +kernel)
  · exact fun isKept => absurd (isClass.mp isKept) (by decide +kernel)
  · exact (isMember 1 _ rfl).mpr (.inr (by decide +kernel))
  · exact fun isKept => absurd ((isMember 2 _ rfl).mp isKept) (by decide +kernel)

end RepeatedName

end ClassShrink
