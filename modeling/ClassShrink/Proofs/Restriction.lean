import ClassShrink.Proofs.Pass

/-! # Restricting a program to names

What a pass leaves and what it reports can be read off the names that it keeps,
without the numbers of the symbols. -/

namespace ClassShrink

open ProgramGraph (ofProgram)

/-! ## Places in a list -/

section Places

variable {α β : Type}

theorem map_fst_filter_zipIdx {elements : List α} {accepts : α × Nat → Bool} {keeps : α → Bool}
    (agree : ∀ element place, elements[place]? = some element →
      accepts (element, place) = keeps element) :
    (elements.zipIdx.filter accepts).map Prod.fst = elements.filter keeps := by
  have same : elements.zipIdx.filter accepts = elements.zipIdx.filter (keeps ∘ Prod.fst) :=
    List.filter_congr fun entry member =>
      agree entry.1 entry.2 (List.mk_mem_zipIdx_iff_getElem?.mp member)
  rw [same, ← List.filter_map, List.zipIdx_map_fst]

theorem map_zipIdx_eq {elements : List α} {placed : α × Nat → β} {read : α → β}
    (agree : ∀ element place, elements[place]? = some element →
      placed (element, place) = read element) :
    elements.zipIdx.map placed = elements.map read := by
  have same : elements.zipIdx.map placed = elements.zipIdx.map (read ∘ Prod.fst) :=
    List.map_congr_left fun entry member =>
      agree entry.1 entry.2 (List.mk_mem_zipIdx_iff_getElem?.mp member)
  rw [same, ← List.map_map, List.zipIdx_map_fst]

end Places

/-! ## Texts -/

theorem length_of_places {texts : List String} {keeps : String → Bool} {places : List Nat}
    (once : places.Nodup)
    (mem_iff : ∀ place, place ∈ places ↔ ∃ text, texts[place]? = some text ∧ keeps text) :
    places.length = texts.countP keeps := by
  let kept := texts.zipIdx.filter (keeps ∘ Prod.fst)
  have keptOnce : (kept.map Prod.snd).Nodup := by
    have all : (texts.zipIdx.map Prod.snd).Nodup := by
      rw [List.zipIdx_map_snd]
      exact List.nodup_range'
    exact all.sublist (List.filter_sublist.map _)
  have permuted : places.Perm (kept.map Prod.snd) := by
    rw [List.perm_ext_iff_of_nodup once keptOnce]
    intro place
    simp [kept, mem_iff, List.mk_mem_zipIdx_iff_getElem?]
  have names : kept.map Prod.fst = texts.filter keeps :=
    map_fst_filter_zipIdx fun _ _ _ => rfl
  rw [permuted.length_eq, List.length_map, List.countP_eq_length_filter, ← names, List.length_map]

/-! ## Restrictions -/

namespace Program

variable (program : Program) (keeps : String → Bool)

def defines (name : String) : Bool :=
  decide (name ∈ program.symbolNames)

@[simp] theorem defines_iff (name : String) :
    program.defines name ↔ name ∈ program.symbolNames :=
  decide_eq_true_iff

def dropsTag (tag : String) : Bool :=
  (program.position? tag).isSome && !keeps tag

def keptTags (tags : List String) : List String :=
  tags.filter fun tag => !program.dropsTag keeps tag

def restrictMember (member : Member) : Member :=
  { member with annotations := program.keptTags keeps member.annotations }

def keptMembers (declaration : ClassDecl) : List Member :=
  declaration.members.filter fun member => keeps (member.qualifiedName declaration.name)

def restrictClass (declaration : ClassDecl) : ClassDecl :=
  { declaration with
    annotations := program.keptTags keeps declaration.annotations
    members := (keptMembers keeps declaration).map (program.restrictMember keeps) }

def keptClasses : List ClassDecl :=
  program.classes.filter fun declaration => keeps declaration.name

/-- The program with only the classes and members whose names are kept, and
without tags that name other classes. -/
def restrict : Program :=
  { classes := (program.keptClasses keeps).map (program.restrictClass keeps) }

def lostClasses : List ClassDecl :=
  program.classes.filter fun declaration => !keeps declaration.name

def lostMembers : List (String × Member) :=
  program.classes.flatMap fun declaration =>
    (declaration.members.filter fun member =>
      !(keeps declaration.name && keeps (member.qualifiedName declaration.name))).map
        fun member => (declaration.name, member)

def lostNames : List String :=
  (program.lostClasses keeps).map (·.name) ++
    (program.lostMembers keeps).map fun (owner, member) => member.qualifiedName owner

def tagsOfKept : List String :=
  (program.keptClasses keeps).flatMap fun declaration =>
    declaration.annotations ++ (keptMembers keeps declaration).flatMap (·.annotations)

def restrictionReport (roots reached : Nat) : SweepReport :=
  let left := program.restrict keeps
  { removedCounts :=
      { classes := (program.lostClasses keeps).length
        methods := (program.lostMembers keeps).countP fun (_, member) => member.kind = .method
        fields := (program.lostMembers keeps).countP fun (_, member) => member.kind = .field }
    retainedCounts := left.counts
    emptyClassesRetained := left.classes.countP fun declaration => declaration.members.isEmpty
    annotationsStripped := (program.tagsOfKept keeps).countP (program.dropsTag keeps)
    roots
    reached
    removed := (program.lostNames keeps).mergeSort textLe }

end Program

/-! ## What a sweep leaves -/

/-- A set of nodes that holds the symbols with kept names. -/
structure KeepsNames (program : Program) (reached : List Nat) (keeps : String → Bool) : Prop where
  distinct : program.symbolNames.Nodup
  symbols : ∀ node name, program.symbolNames[node]? = some name → (node ∈ reached ↔ keeps name)

namespace KeepsNames

variable {program : Program} {reached : List Nat} {keeps : String → Bool}
  (agrees : KeepsNames program reached keeps)
  {position index : Nat} {declaration : ClassDecl} {member : Member}

include agrees

theorem classNode_mem_iff (declared : program.classes[position]? = some declaration) :
    program.classNode position ∈ reached ↔ keeps declaration.name :=
  agrees.symbols _ _ (Program.symbolNames_classNode declared)

theorem memberNode_mem_iff (declared : program.classes[position]? = some declaration)
    (has : declaration.members[index]? = some member) :
    program.memberNode ⟨position, index⟩ ∈ reached ↔
      keeps (member.qualifiedName declaration.name) :=
  agrees.symbols _ _ (Program.symbolNames_memberNode declared has)

theorem namesRemovedClass_eq : program.namesRemovedClass reached = program.dropsTag keeps := by
  funext tag
  unfold Program.namesRemovedClass Program.dropsTag
  cases found : program.position? tag with
  | none => simp
  | some position =>
      rcases (Program.position?_eq_some_iff agrees.distinct tag).mp found with
        ⟨declaration, declared, rfl⟩
      simp [agrees.classNode_mem_iff declared]

theorem liveTags_eq : program.liveTags reached = program.keptTags keeps := by
  funext tags
  rw [Program.liveTags, agrees.namesRemovedClass_eq, Program.keptTags]

theorem thinMember_eq : program.thinMember reached = program.restrictMember keeps := by
  funext member
  rw [Program.thinMember, agrees.liveTags_eq, Program.restrictMember]

theorem reachedMembers_eq (declared : program.classes[position]? = some declaration) :
    program.reachedMembers reached declaration position = Program.keptMembers keeps declaration :=
  map_fst_filter_zipIdx fun member index has => by
    simp [agrees.memberNode_mem_iff declared has]

theorem thinned_eq (declared : program.classes[position]? = some declaration) :
    program.thinned reached declaration position = program.restrictClass keeps declaration := by
  rw [Program.thinned, agrees.liveTags_eq, agrees.thinMember_eq, agrees.reachedMembers_eq declared,
    Program.restrictClass]

theorem reachedClasses_map_eq {β : Type} {placed : ClassDecl × Nat → β} {read : ClassDecl → β}
    (agree : ∀ declaration position, program.classes[position]? = some declaration →
      placed (declaration, position) = read declaration) :
    (program.reachedClasses reached program.classes.zipIdx).map placed =
      (program.keptClasses keeps).map read := by
  have same : (program.reachedClasses reached program.classes.zipIdx).map placed =
      (program.reachedClasses reached program.classes.zipIdx).map (read ∘ Prod.fst) :=
    List.map_congr_left fun entry member => agree entry.1 entry.2
      (List.mk_mem_zipIdx_iff_getElem?.mp (List.mem_filter.mp member).1)
  have kept : (program.reachedClasses reached program.classes.zipIdx).map Prod.fst =
      program.keptClasses keeps :=
    map_fst_filter_zipIdx fun declaration position declared => by
      simp [agrees.classNode_mem_iff declared]
  rw [same, ← List.map_map, kept]

theorem thinnedClasses_eq :
    program.thinnedClasses reached program.classes.zipIdx =
      (program.keptClasses keeps).map (program.restrictClass keeps) := by
  rw [Program.thinnedClasses, agrees.reachedClasses_map_eq fun declaration position declared =>
    agrees.thinned_eq declared]

theorem remainder_eq : program.remainder reached = program.restrict keeps := by
  rw [Program.remainder, agrees.thinnedClasses_eq, Program.restrict]

/-! ## What a sweep reports -/

theorem unreachedClasses_eq :
    program.unreachedClasses reached program.classes.zipIdx = program.lostClasses keeps :=
  map_fst_filter_zipIdx fun declaration position declared => by
    simp [agrees.classNode_mem_iff declared]

theorem removedMembers_eq :
    program.removedMembers reached program.classes.zipIdx = program.lostMembers keeps := by
  rw [Program.removedMembers, Program.lostMembers, List.flatMap_def, List.flatMap_def]
  congr 1
  apply map_zipIdx_eq
  intro declaration position declared
  have unreached : program.unreachedMembers reached declaration position =
      declaration.members.filter fun member => !keeps (member.qualifiedName declaration.name) :=
    map_fst_filter_zipIdx fun member index has => by
      simp [agrees.memberNode_mem_iff declared has]
  simp only [agrees.classNode_mem_iff declared, unreached]
  cases keeps declaration.name <;> simp

theorem retainedTags_eq :
    program.retainedTags reached program.classes.zipIdx = program.tagsOfKept keeps := by
  rw [Program.retainedTags, Program.tagsOfKept, List.flatMap_def, List.flatMap_def,
    agrees.reachedClasses_map_eq]
  intro declaration position declared
  simp only [agrees.reachedMembers_eq declared]

theorem account_eq :
    program.account reached = program.restrictionReport keeps 0 reached.length := by
  simp only [Program.account, Program.tally, Program.removedNames, agrees.thinnedClasses_eq,
    agrees.unreachedClasses_eq, agrees.removedMembers_eq, agrees.retainedTags_eq,
    agrees.namesRemovedClass_eq]
  rfl

end KeepsNames

/-! ## Passes -/

theorem Config.roots_size {config : Config} {program : Program}
    [DecidablePred (config.Selects program)] (distinct : program.symbolNames.Nodup) :
    (config.roots program).size =
      program.symbolNames.countP fun name => config.Selects program name :=
  length_of_places RootSet.compute_nodup fun node => by
    rw [Config.mem_roots_iff distinct]
    simp

namespace Pass

variable {config : Config} {program : Program} {outcome : Outcome} {reached : List Nat}
  (pass : Pass config program outcome reached)

include pass

theorem keepsNames {keeps : String → Bool}
    (kept : ∀ name ∈ program.symbolNames,
      (keeps name ↔ program.Kept (config.Selects program) name)) :
    KeepsNames program reached keeps where
  distinct := pass.distinct
  symbols node name placed := by
    rw [kept name (List.mem_of_getElem? placed)]
    exact pass.mem_reached_iff_kept (ProgramGraph.nodeNames_getElem? placed)

theorem reached_length [DecidablePred (program.Kept (config.Selects program))] :
    reached.length =
      program.nodeNames.countP fun name => program.Kept (config.Selects program) name :=
  length_of_places pass.once fun node => by
    rw [pass.mem_reached_iff]
    simp

end Pass

end ClassShrink
