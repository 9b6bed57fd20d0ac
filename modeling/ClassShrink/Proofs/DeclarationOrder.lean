import ClassShrink.Proofs.Rearrangement
import ClassShrink.Proofs.Restriction
import ClassShrink.Proofs.Sorting

/-! # Independence of declaration order

Passes over programs that differ in the order of declarations succeed or fail
together. They report the same, and what they leave is the same up to that
order. -/

namespace ClassShrink

open ProgramGraph (ofProgram)

/-! ## Kept and lost declarations -/

namespace ClassDecl.Rearranged

variable {declaration other : ClassDecl} (rearranged : declaration.Rearranged other)
  (keeps : String → Bool)

include rearranged

theorem keeps_iff (member partner : Member) (memberRearranged : member.Rearranged partner) :
    keeps (member.qualifiedName declaration.name) ↔ keeps (partner.qualifiedName other.name) := by
  rw [rearranged.name_eq, memberRearranged.qualifiedName_eq]

theorem keptMembers :
    UpToOrder Member.Rearranged (Program.keptMembers keeps declaration)
      (Program.keptMembers keeps other) :=
  rearranged.members.filter (rearranged.keeps_iff keeps)

end ClassDecl.Rearranged

namespace Program.Rearranged

variable {program other : Program} (rearranged : program.Rearranged other)
  (keeps : String → Bool)

include rearranged

theorem keptClasses :
    UpToOrder ClassDecl.Rearranged (program.keptClasses keeps) (other.keptClasses keeps) :=
  UpToOrder.filter (fun _ _ declaration => by rw [declaration.name_eq]) rearranged

theorem lostClasses :
    UpToOrder ClassDecl.Rearranged (program.lostClasses keeps) (other.lostClasses keeps) :=
  UpToOrder.filter (fun _ _ declaration => by rw [declaration.name_eq]) rearranged

theorem lostMembers :
    UpToOrder (fun entry partner => partner.1 = entry.1 ∧ entry.2.Rearranged partner.2)
      (program.lostMembers keeps) (other.lostMembers keeps) := by
  refine UpToOrder.flatMap (fun _ _ declaration => ?_) rearranged
  refine UpToOrder.map (fun _ _ member => ⟨declaration.name_eq, member⟩) ?_
  refine declaration.members.filter fun _ _ member => ?_
  rw [declaration.name_eq, member.qualifiedName_eq]

theorem lostNames : (program.lostNames keeps).Perm (other.lostNames keeps) := by
  apply List.Perm.append
  · exact ((rearranged.lostClasses keeps).map fun _ _ declaration => declaration.name_eq.symm).perm
  · refine UpToOrder.perm ((rearranged.lostMembers keeps).map fun _ _ related => ?_)
    dsimp only
    rw [related.1, related.2.qualifiedName_eq]

theorem tagsOfKept : (program.tagsOfKept keeps).Perm (other.tagsOfKept keeps) := by
  refine UpToOrder.perm ((rearranged.keptClasses keeps).flatMap fun _ _ declaration => ?_)
  refine (UpToOrder.of_perm (.of_eq declaration.annotations_eq.symm)).append ?_
  exact (declaration.keptMembers keeps).flatMap fun _ _ member =>
    .of_perm (.of_eq member.annotations_eq.symm)

theorem counts_eq : other.counts = program.counts := by
  have members : UpToOrder Member.Rearranged program.members other.members :=
    UpToOrder.flatMap (fun _ _ declaration => declaration.members) rearranged
  rw [Program.counts, Program.counts, ← UpToOrder.length_eq rearranged]
  congr 1
  · exact (members.countP_eq fun _ _ member => by rw [member.kind_eq]).symm
  · exact (members.countP_eq fun _ _ member => by rw [member.kind_eq]).symm

theorem emptyClasses_eq :
    (other.classes.countP fun declaration => declaration.members.isEmpty) =
      program.classes.countP fun declaration => declaration.members.isEmpty := by
  refine (UpToOrder.countP_eq (fun _ _ declaration => ?_) rearranged).symm
  rw [List.isEmpty_iff_length_eq_zero, List.isEmpty_iff_length_eq_zero,
    declaration.members.length_eq]

end Program.Rearranged

/-! ## Restrictions -/

namespace Rearrangement

variable {program other : Program} (rearrangement : Rearrangement program other)
  (keeps : String → Bool)

include rearrangement

theorem dropsTag_eq : other.dropsTag keeps = program.dropsTag keeps := by
  funext tag
  rw [Program.dropsTag, Program.dropsTag]
  rcases optionRel_cases (rearrangement.position?_related tag) with
    ⟨absent, otherAbsent⟩ | ⟨_, _, found, otherFound, _⟩
  · rw [absent, otherAbsent]
  · rw [found, otherFound]
    rfl

theorem keptTags_eq : other.keptTags keeps = program.keptTags keeps := by
  funext tags
  rw [Program.keptTags, Program.keptTags, rearrangement.dropsTag_eq]

theorem restrictMember {member partner : Member} (rearranged : member.Rearranged partner) :
    (program.restrictMember keeps member).Rearranged (other.restrictMember keeps partner) := by
  have same : other.restrictMember keeps = program.restrictMember keeps := by
    funext member
    rw [Program.restrictMember, Program.restrictMember, rearrangement.keptTags_eq]
  rw [same]
  exact ⟨congrArg (program.restrictMember keeps) rearranged.1, rearranged.2⟩

theorem restrictClass {declaration partner : ClassDecl}
    (rearranged : declaration.Rearranged partner) :
    (program.restrictClass keeps declaration).Rearranged (other.restrictClass keeps partner) where
  rest := by
    rw [Program.restrictClass, Program.restrictClass, rearrangement.keptTags_eq]
    exact congrArg (fun entry : ClassDecl =>
      { entry with
        annotations := program.keptTags keeps entry.annotations
        members := (Program.keptMembers keeps declaration).map (program.restrictMember keeps) })
      rearranged.rest
  members := (rearranged.keptMembers keeps).map fun _ _ => rearrangement.restrictMember keeps
  initializers := by
    -- Neither the choice of members nor what is left of one tells initializers apart.
    have initializers (program : Program) (declaration : ClassDecl) :
        (program.restrictClass keeps declaration).members.filter Member.isStaticInitializer =
          ((declaration.members.filter Member.isStaticInitializer).filter fun member =>
            keeps (member.qualifiedName declaration.name)).map (program.restrictMember keeps) := by
      rw [List.filter_comm, Program.restrictClass, List.filter_map]
      rfl
    rw [initializers, initializers, List.forall₂_map_left_iff, List.forall₂_map_right_iff]
    refine List.Forall₂.imp (fun _ _ => rearrangement.restrictMember keeps) ?_
    exact List.rel_filter (fun {member partnerMember} => rearranged.keeps_iff keeps member
      partnerMember) rearranged.initializers

theorem restrict : (program.restrict keeps).Rearranged (other.restrict keeps) :=
  (rearrangement.classes.keptClasses keeps).map fun _ _ => rearrangement.restrictClass keeps

theorem restrictionReport_eq (roots reached : Nat) :
    other.restrictionReport keeps roots reached =
      program.restrictionReport keeps roots reached := by
  have classes := rearrangement.classes.lostClasses keeps
  have members := rearrangement.classes.lostMembers keeps
  have left := rearrangement.restrict keeps
  simp only [Program.restrictionReport, ← classes.length_eq, left.counts_eq, left.emptyClasses_eq,
    rearrangement.dropsTag_eq, ← (rearrangement.classes.tagsOfKept keeps).countP_eq,
    ← mergeSort_eq_of_perm textLe_iff Function.injective_id (rearrangement.classes.lostNames keeps)]
  congr 2
  · exact (members.countP_eq fun _ _ related => by rw [related.2.kind_eq]).symm
  · exact (members.countP_eq fun _ _ related => by rw [related.2.kind_eq]).symm

/-! ## Numbers of symbols -/

theorem roots_size_eq (config : Config) :
    (config.roots other).size = (config.roots program).size := by
  classical
  rw [Config.roots_size rearrangement.distinct, Config.roots_size rearrangement.distinctOther]
  refine (rearrangement.classes.symbolNames.countP_congr fun name _ => ?_).symm
  exact decide_eq_decide.mpr ⟨rearrangement.selects, rearrangement.symm.selects⟩

theorem names_perm : program.nodeNames.Perm other.nodeNames := by
  have distinct := ProgramGraph.names_nodup rearrangement.distinct
  have otherDistinct := ProgramGraph.names_nodup rearrangement.distinctOther
  rw [List.perm_ext_iff_of_nodup distinct otherDistinct]
  intro name
  rw [ProgramGraph.mem_names_iff, ProgramGraph.mem_names_iff, rearrangement.mem_symbolNames_iff]
  exact or_congr_right ⟨rearrangement.boundaryNames, rearrangement.symm.boundaryNames⟩

theorem reached_length_eq {config : Config} {outcome otherOutcome : Outcome}
    {reached otherReached : List Nat} (pass : Pass config program outcome reached)
    (otherPass : Pass config other otherOutcome otherReached) :
    otherReached.length = reached.length := by
  classical
  rw [pass.reached_length, otherPass.reached_length]
  refine (rearrangement.names_perm.countP_congr fun name _ => ?_).symm
  exact decide_eq_decide.mpr (rearrangement.kept_iff config name)

end Rearrangement

/-! ## Passes -/

inductive ShrinkError.SameVariant : ShrinkError → ShrinkError → Prop
  | duplicateSymbol (name other : String) :
      SameVariant (.duplicateSymbol name) (.duplicateSymbol other)
  | unresolvedMember (source target otherSource otherTarget : String) :
      SameVariant (.unresolvedMember source target) (.unresolvedMember otherSource otherTarget)
  | danglingEdge (source target otherSource otherTarget : String) :
      SameVariant (.danglingEdge source target) (.danglingEdge otherSource otherTarget)
  | integrityViolation (source target otherSource otherTarget : String) :
      SameVariant (.integrityViolation source target) (.integrityViolation otherSource otherTarget)

theorem Rearrangement.passes_agree {program other : Program}
    (rearrangement : Rearrangement program other) {config : Config}
    {outcome otherOutcome : Outcome} {reached otherReached : List Nat}
    (pass : Pass config program outcome reached)
    (otherPass : Pass config other otherOutcome otherReached) :
    otherOutcome.report = outcome.report ∧
      ∃ keeps, outcome.program = program.restrict keeps ∧
        otherOutcome.program = other.restrict keeps := by
  classical
  let keeps (name : String) : Bool := program.Kept (config.Selects program) name
  have agrees : KeepsNames program reached keeps := pass.keepsNames fun name _ => by simp [keeps]
  have otherAgrees : KeepsNames other otherReached keeps := otherPass.keepsNames fun name _ => by
    simp [keeps, rearrangement.kept_iff config name]
  constructor
  · rw [pass.report_eq, otherPass.report_eq, agrees.account_eq, otherAgrees.account_eq,
      rearrangement.reached_length_eq pass otherPass, rearrangement.roots_size_eq,
      rearrangement.restrictionReport_eq]
  · exact ⟨keeps, pass.program_eq.trans agrees.remainder_eq,
      otherPass.program_eq.trans otherAgrees.remainder_eq⟩

/-- Passes over programs that differ in the order of declarations fail together,
with one kind of error. Otherwise they report the same, and leave of each program
what has the same names, so that what they leave differs in that order only. -/
theorem Shrink.runs_agree_up_to_order {program other : Program}
    (rearranged : program.Rearranged other) (config : Config) :
    (∃ error otherError, run config program = .error error ∧
      run config other = .error otherError ∧ error.SameVariant otherError) ∨
    ∃ outcome otherOutcome, run config program = .ok outcome ∧
      run config other = .ok otherOutcome ∧ otherOutcome.report = outcome.report ∧
      outcome.program.Rearranged otherOutcome.program ∧
      ∃ keeps, outcome.program = program.restrict keeps ∧
        otherOutcome.program = other.restrict keeps := by
  have distinct_iff := rearranged.symbolNames.nodup_iff
  rcases ProgramGraph.build_cases program config.analysis.parallel with
    ⟨repeated, name, failed⟩ | ⟨distinct, unresolved, source, target, failed⟩ |
      ⟨distinct, resolved, _⟩
  · rcases ProgramGraph.build_cases other config.analysis.parallel with
      ⟨_, otherName, otherFailed⟩ | ⟨distinct, _⟩ | ⟨distinct, _⟩
    · exact .inl ⟨_, _, run_eq_error failed, run_eq_error otherFailed,
        .duplicateSymbol _ _⟩
    · exact absurd (distinct_iff.mpr distinct) repeated
    · exact absurd (distinct_iff.mpr distinct) repeated
  · have rearrangement : Rearrangement program other := ⟨distinct, rearranged⟩
    rcases ProgramGraph.build_cases other config.analysis.parallel with
      ⟨repeated, _⟩ | ⟨_, _, otherSource, otherTarget, otherFailed⟩ | ⟨_, resolved, _⟩
    · exact absurd (distinct_iff.mp distinct) repeated
    · exact .inl ⟨_, _, run_eq_error failed, run_eq_error otherFailed,
        .unresolvedMember _ _ _ _⟩
    · exact absurd (rearrangement.symm.resolved resolved) unresolved
  · have rearrangement : Rearrangement program other := ⟨distinct, rearranged⟩
    rcases exists_pass config distinct resolved with ⟨outcome, reached, ran, pass⟩
    rcases exists_pass config (distinct_iff.mp distinct) (rearrangement.resolved resolved) with
      ⟨otherOutcome, otherReached, otherRan, otherPass⟩
    rcases rearrangement.passes_agree pass otherPass with ⟨report, keeps, left, otherLeft⟩
    refine .inr ⟨outcome, otherOutcome, ran, otherRan, report, ?_, keeps, left, otherLeft⟩
    rw [left, otherLeft]
    exact rearrangement.restrict keeps

namespace Callback

/-! The callback with its classes, two methods of one of them and the references
of the entry point in reverse. -/

def reversedMain : ClassDecl :=
  { name := "Main"
    members :=
      [{ kind := .method, name := "main", descriptor := "()", isStatic := true
         references := [{ owner := "Task", name := some "run" }, { owner := "Job" }] }] }

def reversed : Program :=
  ⟨[reversedMain, { name := "Spare" }, jobClass ["Main", "Spare"], baseClass ["stop", "run"]]⟩

theorem mainClass_rearranged : mainClass.Rearranged reversedMain where
  rest := rfl
  members := ⟨reversedMain.members, .cons ⟨rfl, .swap _ _ []⟩ .nil, .refl _⟩
  initializers := .nil

theorem baseClass_rearranged :
    (baseClass ["run", "stop"]).Rearranged (baseClass ["stop", "run"]) where
  rest := rfl
  members := ⟨_, List.forall₂_same.mpr fun _ _ => .refl _, .swap _ _ []⟩
  initializers := .nil

theorem program_rearranged : program.Rearranged reversed := by
  refine ⟨reversed.classes.reverse, ?_, List.reverse_perm _⟩
  exact .cons baseClass_rearranged (.cons (.refl _) (.cons (.refl _)
    (.cons mainClass_rearranged .nil)))

theorem runs_agree_reversed :
    ∃ outcome otherOutcome, Shrink.run config program = .ok outcome ∧
      Shrink.run config reversed = .ok otherOutcome ∧ otherOutcome.report = outcome.report ∧
      outcome.program = left ∧ left.Rearranged otherOutcome.program := by
  rcases run_eq_ok with ⟨outcome, ran, isLeft⟩
  rcases Shrink.runs_agree_up_to_order program_rearranged config with
    ⟨_, _, failed, _⟩ | ⟨same, otherOutcome, sameRan, otherRan, report, rearranged, _⟩
  · rw [ran] at failed
    cases failed
  · rw [ran] at sameRan
    cases sameRan
    exact ⟨outcome, otherOutcome, ran, otherRan, report, isLeft, isLeft ▸ rearranged⟩

end Callback

end ClassShrink
