import ClassShrink.Proofs.Overriding
import ClassShrink.Proofs.Restriction
import ClassShrink.Proofs.VirtualDispatch

/-! # A second pass

A second pass with the same configuration sees a smaller program. What a symbol
mentions it still mentions, so all that is left stays, unless a reason to keep it
went with what was removed: the class that a marker tag names, or all classes
because of which a method overrides another, or the last mention of the library
method that it overrides. -/

namespace ClassShrink

open ProgramGraph (ofProgram)

/-! ## Lost reasons -/

/-- An override pair still arises from the calls on a class that is left, and what
is overridden is still a symbol of the program or used in it. -/
def Program.PairStays (program left : Program) (overrider overridden : String) : Prop :=
  ∃ receiver ∈ left.symbolNames, program.OverridesOn receiver overrider overridden ∧
    (overridden ∈ left.symbolNames ∨ left.UsesName overridden)

/-- A symbol that a pass left has lost a reason to be kept: its tags with a marker
are gone, or it is one of an override pair that does not stay. -/
inductive Config.LosesReason (config : Config) (program left : Program) : String → Prop
  | marker {name : String} : name ∈ left.symbolNames → config.Marks program name →
      ¬config.Marks left name → LosesReason config program left name
  | overrider {receiver overrider overridden : String} : overrider ∈ left.symbolNames →
      program.OverridesOn receiver overrider overridden →
      ¬program.PairStays left overrider overridden → LosesReason config program left overrider
  | overridden {receiver overrider overridden : String} : overridden ∈ left.symbolNames →
      program.OverridesOn receiver overrider overridden →
      ¬program.PairStays left overrider overridden → LosesReason config program left overridden

/-! ## What is left, by name -/

theorem ClassDecl.initializer?_restrictClass {declaration : ClassDecl} {member : Member}
    (first : declaration.initializer? = some member) (program : Program) {keeps : String → Bool}
    (kept : keeps (member.qualifiedName declaration.name)) :
    (program.restrictClass keeps declaration).initializer? =
      some (program.restrictMember keeps member) := by
  rcases List.find?_eq_some_iff_append.mp first with ⟨isFirst, before, after, split, others⟩
  refine List.find?_eq_some_iff_append.mpr ⟨isFirst, (before.filter fun member =>
      keeps (member.qualifiedName declaration.name)).map (program.restrictMember keeps), ?_⟩
  refine ⟨(after.filter fun member => keeps (member.qualifiedName declaration.name)).map
    (program.restrictMember keeps), ?_, ?_⟩
  · simp [Program.restrictClass, Program.keptMembers, split, kept]
  · intro other listed
    rcases List.mem_map.mp listed with ⟨original, kept, rfl⟩
    exact others original (List.mem_filter.mp kept).1

theorem ProgramGraph.SameSymbol.targetName_eq {program left : Program}
    (distinct : program.symbolNames.Nodup) (distinctLeft : left.symbolNames.Nodup)
    {source leftSource : Nat} {target leftTarget : Target}
    (links : program.Links source target) (leftLinks : left.Links leftSource leftTarget)
    (same : (ofProgram program).SameSymbol (ofProgram left) target leftTarget) :
    program.targetName target = left.targetName leftTarget := by
  rcases same with ⟨symbol, isSymbol, isLeftSymbol⟩
  rw [symbol?_eq_some (names_of_links distinct links)] at isSymbol
  rw [symbol?_eq_some (names_of_links distinctLeft leftLinks)] at isLeftSymbol
  exact congrArg Prod.fst (Option.some.inj (isSymbol.trans isLeftSymbol.symm))

namespace Cut

variable {program left : Program} {reached : List Nat} (cut : Cut program left reached)
  {declaration : ClassDecl} {member : Member}

include cut

theorem mem_reached_iff_left {node : Nat} {name : String}
    (placed : program.symbolNames[node]? = some name) :
    node ∈ reached ↔ name ∈ left.symbolNames := by
  rw [cut.eq_remainder]
  apply Program.mem_reached_iff_remainder cut.distinct _ placed
  intro position declaration index member declared has
  exact cut.owner_of_member declared has

theorem keepsNames : KeepsNames program reached left.defines where
  distinct := cut.distinct
  symbols _ _ placed := (cut.mem_reached_iff_left placed).trans (left.defines_iff _).symm

theorem eq_restrict : left = program.restrict left.defines :=
  cut.eq_remainder.trans cut.keepsNames.remainder_eq

theorem class_kept (isClass : declaration ∈ program.classes)
    (isLeft : declaration.name ∈ left.symbolNames) :
    program.restrictClass left.defines declaration ∈ left.classes := by
  have kept : declaration ∈ program.keptClasses left.defines :=
    List.mem_filter.mpr ⟨isClass, (left.defines_iff _).mpr isLeft⟩
  have listed := List.mem_map_of_mem (f := program.restrictClass left.defines) kept
  rwa [show (program.keptClasses left.defines).map (program.restrictClass left.defines) =
    left.classes from congrArg Program.classes cut.eq_restrict.symm] at listed

omit cut in
theorem member_kept (program : Program) (isMember : member ∈ declaration.members)
    (isLeft : member.qualifiedName declaration.name ∈ left.symbolNames) :
    program.restrictMember left.defines member ∈
      (program.restrictClass left.defines declaration).members :=
  List.mem_map_of_mem (List.mem_filter.mpr ⟨isMember, (left.defines_iff _).mpr isLeft⟩)

/-! ## Needs of what is left -/

theorem mentioned_left {source target : String} (mentions : program.Mentions source target)
    (isLeft : source ∈ left.symbolNames) (defined : target ∈ program.symbolNames) :
    target ∈ left.symbolNames := by
  rcases mentions.links cut.distinct with ⟨node, symbol, placed, rfl, links⟩
  rcases links.exists_pending with ⟨kind, traversed, pending⟩
  rcases List.mem_iff_getElem?.mp defined with ⟨other, otherPlaced⟩
  have retained := cut.target_of_pending pending traversed
    ((cut.mem_reached_iff_left placed).mpr isLeft)
  rw [ProgramGraph.node_unique cut.distinct (ProgramGraph.names_of_links cut.distinct links)
    (ProgramGraph.nodeNames_getElem? otherPlaced)] at retained
  exact (cut.mem_reached_iff_left otherPlaced).mp retained

theorem owner_left (isClass : declaration ∈ program.classes)
    (isMember : member ∈ declaration.members)
    (isLeft : member.qualifiedName declaration.name ∈ left.symbolNames) :
    declaration.name ∈ left.symbolNames :=
  cut.mentioned_left (.owner isClass isMember) isLeft (Program.name_mem_symbolNames isClass)

theorem referenceTarget_left (isClass : declaration ∈ program.classes)
    (isMember : member ∈ declaration.members)
    (isLeft : member.qualifiedName declaration.name ∈ left.symbolNames) {reference : Reference}
    (refers : reference ∈ member.references) :
    program.targetName (program.referenceTarget reference) =
      left.targetName (left.referenceTarget reference) := by
  rcases List.mem_iff_getElem?.mp isClass with ⟨position, declared⟩
  rcases List.mem_iff_getElem?.mp isMember with ⟨index, has⟩
  have retained :=
    (cut.mem_reached_iff_left (Program.symbolNames_memberNode declared has)).mpr isLeft
  rcases List.mem_iff_getElem?.mp
    (cut.class_kept isClass (cut.owner_left isClass isMember isLeft)) with
    ⟨leftPosition, leftDeclared⟩
  rcases List.mem_iff_getElem?.mp (member_kept program isMember isLeft) with
    ⟨leftIndex, leftHas⟩
  exact (cut.sameSymbol_referenceTarget declared has retained refers
      ⟨_, Program.reference_edge leftDeclared leftHas refers, rfl⟩).targetName_eq
    cut.distinct cut.distinct_left (.reference declared has refers)
    (.reference leftDeclared leftHas refers)

theorem mentions_left {source target : String} (mentions : program.Mentions source target)
    (isLeft : source ∈ left.symbolNames) : left.Mentions source target := by
  cases mentions with
  | parent isClass parent =>
      exact (Program.Mentions.parent (cut.class_kept isClass isLeft) parent :)
  | owner isClass isMember =>
      have classLeft := cut.class_kept isClass (cut.owner_left isClass isMember isLeft)
      exact (Program.Mentions.owner classLeft (member_kept program isMember isLeft) :)
  | reference isClass isMember refers =>
      have classLeft := cut.class_kept isClass (cut.owner_left isClass isMember isLeft)
      rw [cut.referenceTarget_left isClass isMember isLeft refers]
      exact (Program.Mentions.reference classLeft (member_kept program isMember isLeft) refers :)
  | referenceOwner isClass isMember refers ofMember isTarget named =>
      have classLeft := cut.class_kept isClass (cut.owner_left isClass isMember isLeft)
      have ownerLeft := cut.mentioned_left
        (.referenceOwner isClass isMember refers ofMember isTarget named) isLeft
        (Program.name_mem_symbolNames isTarget)
      exact (Program.Mentions.referenceOwner classLeft (member_kept program isMember isLeft) refers
        ofMember (cut.class_kept isTarget ownerLeft) named :)

theorem initializer_left (isClass : declaration ∈ program.classes)
    (first : declaration.initializer? = some member)
    (isLeft : declaration.name ∈ left.symbolNames)
    (memberLeft : member.qualifiedName declaration.name ∈ left.symbolNames) :
    left.Needs declaration.name (member.qualifiedName declaration.name) := by
  have firstLeft := ClassDecl.initializer?_restrictClass first program
    ((left.defines_iff _).mpr memberLeft)
  exact (Program.Needs.initializer (cut.class_kept isClass isLeft) firstLeft :)

theorem isSupertype_left {lower upper : String} (above : program.IsSupertype lower upper)
    (isLeft : lower ∈ left.symbolNames) : left.IsSupertype lower upper := by
  rcases above with ⟨apart, above⟩
  -- Each class on the way is left because the one below mentions it.
  suffices together : Relation.ReflTransGen left.HasParent lower upper ∧
      ∀ declaration ∈ program.classes, declaration.name = upper → upper ∈ left.symbolNames from
    ⟨apart, together.1⟩
  clear apart
  induction above with
  | refl => exact ⟨.refl, fun _ _ _ => isLeft⟩
  | tail _ parent induction =>
      rcases parent with ⟨declaration, isClass, rfl, parent⟩
      have classLeft := induction.2 declaration isClass rfl
      refine ⟨induction.1.tail ⟨_, cut.class_kept isClass classLeft, rfl, parent⟩, ?_⟩
      rintro upperClass isUpper rfl
      exact cut.mentioned_left (.parent isClass parent) classLeft
        (Program.name_mem_symbolNames isUpper)

theorem runs_left {receiver declaring : String} {signature : Signature}
    (runs : program.Runs receiver signature declaring) (isLeft : receiver ∈ left.symbolNames)
    (methodLeft : signature.key declaring ∈ left.symbolNames) :
    left.Runs receiver signature declaring := by
  rcases runs with ⟨position, declaration, owner, method, declared, rfl, runs, isOwner, rfl⟩
  have isClass := List.mem_of_getElem? declared
  rcases List.mem_iff_getElem?.mp (cut.class_kept isClass isLeft) with ⟨leftPosition, leftDeclared⟩
  have same : program.SameClass left position leftPosition :=
    ⟨declaration, _, declared, leftDeclared, rfl⟩
  have has := (Program.hasVirtual_of_dispatch? cut.distinct runs).2
  have retained : left.Retains program method := by
    rcases has.placed with ⟨sameOwner, isSameOwner, placed⟩
    rw [isOwner] at isSameOwner
    cases isSameOwner
    rw [cut.retains_iff_of_dispatch? runs, cut.mem_reached_iff_left placed]
    exact methodLeft
  rcases cut.dispatch?_of_retained same runs retained with ⟨kept, leftRuns, sameMember⟩
  rcases sameMember.1 with ⟨sameOwner, leftOwner, isSameOwner, isLeftOwner, sameName⟩
  rw [isOwner] at isSameOwner
  cases isSameOwner
  exact ⟨leftPosition, _, leftOwner, kept, leftDeclared, rfl, leftRuns, isLeftOwner, sameName⟩

theorem declaresVirtual_left {owner : String}
    {signature : Signature} (declares : program.DeclaresVirtual owner signature)
    (methodLeft : signature.key owner ∈ left.symbolNames) :
    left.DeclaresVirtual owner signature := by
  rcases declares with ⟨declaration, isClass, rfl, member, isMember, isVirtual, rfl⟩
  exact ⟨_, cut.class_kept isClass (cut.owner_left isClass isMember methodLeft), rfl, _,
    member_kept program isMember methodLeft, isVirtual, rfl⟩

/-- Where the reasons for an override pair are left, so is the pair. -/
theorem overrides_left {overrider overridden : String}
    (stays : program.PairStays left overrider overridden)
    (isLeft : overrider ∈ left.symbolNames) : left.Overrides overrider overridden := by
  rcases stays with ⟨receiver, receiverLeft, overrides, overriddenLeft⟩
  apply Program.OverridesOn.overrides cut.distinct_left
  cases overrides with
  | @method _ upper signature runs above declares apart =>
      have runsLeft := cut.runs_left runs receiverLeft isLeft
      have aboveLeft := cut.isSupertype_left above receiverLeft
      by_cases methodLeft : signature.key upper ∈ left.symbolNames
      · exact .method runsLeft aboveLeft (cut.declaresVirtual_left declares methodLeft) apart
      · exact .library runsLeft aboveLeft (overriddenLeft.resolve_left methodLeft) methodLeft
  | library runs above _ undefined =>
      have undefinedLeft : _ ∉ left.symbolNames :=
        fun isLeft => undefined (cut.symbolNames_sublist.mem isLeft)
      exact .library (cut.runs_left runs receiverLeft isLeft)
        (cut.isSupertype_left above receiverLeft) (overriddenLeft.resolve_left undefinedLeft)
        undefinedLeft

theorem selects_left {config : Config} {name : String} (selects : config.Selects program name)
    (isLeft : name ∈ left.symbolNames) :
    config.Selects left name ∨ config.Marks program name := by
  cases selects with
  | named isClass isMember isMethod inConfig ends names =>
      have classLeft := cut.class_kept isClass (cut.owner_left isClass isMember isLeft)
      exact .inl (Config.Selects.named classLeft (member_kept program isMember isLeft) isMethod
        inConfig ends names :)
  | marked marks => exact .inr marks
  | enteredClass isClass entered =>
      exact .inl (Config.Selects.enteredClass (cut.class_kept isClass isLeft) entered :)
  | enteredMember isClass isMember entered =>
      have classLeft := cut.class_kept isClass (cut.owner_left isClass isMember isLeft)
      exact .inl
        (Config.Selects.enteredMember classLeft (member_kept program isMember isLeft) entered :)

end Cut

theorem Program.Overrides.mem_symbolNames {program : Program}
    (distinct : program.symbolNames.Nodup) {overrider overridden : String}
    (overrides : program.Overrides overrider overridden) : overrider ∈ program.symbolNames := by
  rcases overrides with ⟨⟨node, other⟩, paired, placed, _⟩
  rcases (kinds_of_mem_overridePairs distinct paired).1 with ⟨signature, method, has, rfl⟩
  rcases has.placed with ⟨declaration, _, methodPlaced⟩
  rw [ProgramGraph.nodeNames_getElem? methodPlaced] at placed
  cases placed
  exact List.mem_of_getElem? methodPlaced

/-! ## Keeping again -/

/-- What was kept and is left is kept again, if that holds for what has lost a
reason. -/
theorem Pass.kept_again {config : Config} {program : Program} {outcome : Outcome}
    {reached : List Nat} (pass : Pass config program outcome reached)
    (others : ∀ name, config.LosesReason program outcome.program name →
      outcome.program.Kept (config.Selects outcome.program) name)
    {name : String} (kept : program.Kept (config.Selects program) name)
    (isLeft : name ∈ outcome.program.symbolNames) :
    outcome.program.Kept (config.Selects outcome.program) name := by
  have cut := pass.cut
  have left_of_kept {name : String} (defined : name ∈ program.symbolNames)
      (kept : program.Kept (config.Selects program) name) : name ∈ outcome.program.symbolNames :=
    (pass.mem_symbolNames_iff name).mpr ⟨defined, kept⟩
  induction kept with
  | @selected other selects =>
      rcases cut.selects_left selects isLeft with selectsLeft | marks
      · exact .selected selectsLeft
      · by_cases marksLeft : config.Marks outcome.program other
        · exact .selected (.marked marksLeft)
        · exact others _ (.marker isLeft marks marksLeft)
  | boundary isBoundary =>
      exact absurd (cut.symbolNames_sublist.mem isLeft)
        ((Program.mem_boundaryNames_iff _).mp isBoundary).1
  | @needed source target sourceKept needs induction =>
      cases needs with
      | mentioned mentions =>
          rcases mentions.links cut.distinct with ⟨node, _, placed, _, _⟩
          have sourceLeft := left_of_kept (List.mem_of_getElem? placed) sourceKept
          exact .needed (induction sourceLeft) (.mentioned (cut.mentions_left mentions sourceLeft))
      | initializer isClass first =>
          have sourceLeft := left_of_kept
            (Program.name_mem_symbolNames isClass) sourceKept
          exact .needed (induction sourceLeft)
            (cut.initializer_left isClass first sourceLeft isLeft)
      | overridden overrides =>
          have sourceLeft := left_of_kept (overrides.mem_symbolNames cut.distinct) sourceKept
          by_cases stays : program.PairStays outcome.program source target
          · exact .needed (induction sourceLeft) (.overridden (cut.overrides_left stays sourceLeft))
          · rcases overrides.exists_receiver cut.distinct with ⟨_, overrides⟩
            exact others _ (.overridden isLeft overrides stays)
      | overrider overrides =>
          by_cases stays : program.PairStays outcome.program target source
          · -- What is overridden may be a boundary symbol, which marking starts from.
            refine .needed ?_ (.overrider (cut.overrides_left stays isLeft))
            by_cases sourceLeft : source ∈ outcome.program.symbolNames
            · exact induction sourceLeft
            · rcases stays with ⟨_, _, _, used⟩
              exact .boundary ((Program.mem_boundaryNames_iff_usesName cut.distinct_left).mpr
                ⟨used.resolve_left sourceLeft, sourceLeft⟩)
          · rcases overrides.exists_receiver cut.distinct with ⟨_, overrides⟩
            exact others _ (.overrider isLeft overrides stays)

/-! ## Keeping everything -/

namespace Program

variable {program : Program} {keeps : String → Bool}
  (all : ∀ name ∈ program.symbolNames, keeps name)

include all

theorem keptTags_eq_self (tags : List String) : program.keptTags keeps tags = tags := by
  refine List.filter_eq_self.mpr fun tag _ => ?_
  rw [dropsTag]
  cases found : program.position? tag with
  | none => rfl
  | some position =>
      rcases List.findIdx?_eq_some_iff_getElem.mp found with ⟨within, named, _⟩
      have kept := all _ (name_mem_symbolNames (List.getElem_mem within))
      rw [of_decide_eq_true named] at kept
      simp [kept]

theorem restrictClass_eq_self {declaration : ClassDecl} (isClass : declaration ∈ program.classes) :
    program.restrictClass keeps declaration = declaration := by
  have members : keptMembers keeps declaration = declaration.members := by
    refine List.filter_eq_self.mpr fun member isMember => ?_
    exact all _ (qualifiedName_mem_symbolNames isClass isMember)
  have restricted : program.restrictMember keeps = id := by
    funext member
    rw [restrictMember, keptTags_eq_self all]
    rfl
  rw [restrictClass, keptTags_eq_self all, members, restricted, List.map_id]

theorem restrict_eq_self : program.restrict keeps = program := by
  have classes : program.keptClasses keeps = program.classes :=
    List.filter_eq_self.mpr fun _ isClass => all _ (name_mem_symbolNames isClass)
  have restricted : program.classes.map (program.restrictClass keeps) = program.classes.map id :=
    List.map_congr_left fun _ isClass => restrictClass_eq_self all isClass
  rw [restrict, classes, restricted, List.map_id]

theorem totalRemoved_restrictionReport (roots reached : Nat) :
    (program.restrictionReport keeps roots reached).totalRemoved = 0 := by
  have classes : program.lostClasses keeps = [] :=
    List.filter_eq_nil_iff.mpr fun _ isClass => by
      simp [all _ (name_mem_symbolNames isClass)]
  have members : program.lostMembers keeps = [] := by
    rw [lostMembers, List.flatMap_eq_nil_iff]
    intro declaration isClass
    rw [List.map_eq_nil_iff, List.filter_eq_nil_iff]
    intro member isMember
    simp [all _ (name_mem_symbolNames isClass),
      all _ (qualifiedName_mem_symbolNames isClass isMember)]
  simp [restrictionReport, SweepReport.totalRemoved, classes, members]

end Program

/-- A second pass always succeeds. If it keeps the symbols that have lost a reason in the
first, it removes nothing and leaves the program as it is. -/
theorem Shrink.second_pass_removes_nothing {config : Config} {program : Program}
    {outcome : Outcome} (ran : run config program = .ok outcome) :
    ∃ again, run config outcome.program = .ok again ∧
      ((∀ name, config.LosesReason program outcome.program name →
          name ∈ again.program.symbolNames) →
        again.report.totalRemoved = 0 ∧ again.program = outcome.program) := by
  rcases exists_pass_of_run ran with ⟨reached, pass⟩
  have cut := pass.cut
  rcases exists_pass config cut.distinct_left cut.resolved_left with
    ⟨again, reachedAgain, ranAgain, passAgain⟩
  refine ⟨again, ranAgain, fun others => ?_⟩
  have all (name : String) (isLeft : name ∈ outcome.program.symbolNames) :
      name ∈ again.program.symbolNames := by
    refine (passAgain.mem_symbolNames_iff name).mpr ⟨isLeft, pass.kept_again ?_ ?_ isLeft⟩
    · exact fun other loses => ((passAgain.mem_symbolNames_iff other).mp (others other loses)).2
    · exact ((pass.mem_symbolNames_iff name).mp isLeft).2
  have keepsAll (name : String) (isLeft : name ∈ outcome.program.symbolNames) :
      again.program.defines name := (again.program.defines_iff name).mpr (all name isLeft)
  constructor
  · have account := passAgain.cut.keepsNames.account_eq
    rw [passAgain.report_eq]
    change (outcome.program.account reachedAgain).totalRemoved = 0
    rw [account]
    exact Program.totalRemoved_restrictionReport keepsAll _ _
  · rw [passAgain.cut.eq_restrict]
    exact Program.restrict_eq_self keepsAll

namespace Callback

theorem pairStays {receiver overrider overridden : String}
    (overrides : program.OverridesOn receiver overrider overridden) :
    program.PairStays left overrider overridden := by
  have distinct : program.symbolNames.Nodup := by decide +kernel
  have pairs : (ofProgram program).overridePairs = [(1, 8)] := by decide +kernel
  rcases overrides.overrides distinct with ⟨pair, paired, isOverrider, isOverridden⟩
  rw [pairs, List.mem_singleton] at paired
  cases paired
  have overriderName : program.nodeNames[1]? = some "Base.run:" := by decide +kernel
  have overriddenName : program.nodeNames[8]? = some "Task.run:" := by decide +kernel
  cases overriderName.symm.trans isOverrider
  cases overriddenName.symm.trans isOverridden
  have runs : program.Runs "Job" ⟨"run", ""⟩ "Base" :=
    ⟨1, jobClass ["Main", "Spare"], baseClass ["run", "stop"], ⟨0, 0⟩, rfl, rfl,
      by decide +kernel, rfl, rfl⟩
  have above : program.IsSupertype "Job" "Task" :=
    ⟨by decide, .single ⟨jobClass ["Main", "Spare"], by decide +kernel, rfl, by decide⟩⟩
  have used : program.UsesName "Task.run:" ∧ "Task.run:" ∉ program.symbolNames :=
    (Program.mem_boundaryNames_iff_usesName distinct).mp (by decide +kernel)
  have usedLeft : left.UsesName "Task.run:" ∧ "Task.run:" ∉ left.symbolNames :=
    (Program.mem_boundaryNames_iff_usesName (by decide +kernel)).mp (by decide +kernel)
  exact ⟨"Job", by decide +kernel, .library runs above used.1 used.2, .inr usedLeft.1⟩

theorem not_losesReason (name : String) : ¬config.LosesReason program left name := by
  intro loses
  cases loses with
  | marker _ marks _ =>
      -- The configuration has no markers.
      cases marks with
      | ofClass _ marker _ => cases marker
      | ofMember _ _ marker _ => cases marker
  | overrider _ overrides gone => exact gone (pairStays overrides)
  | overridden _ overrides gone => exact gone (pairStays overrides)

/-- No symbol has lost a reason in the pass over the callback. -/
theorem second_pass_keeps_all :
    ∃ outcome again, Shrink.run config program = .ok outcome ∧
      (∀ name, ¬config.LosesReason program outcome.program name) ∧
      Shrink.run config outcome.program = .ok again ∧
      again.report.totalRemoved = 0 ∧ again.program = outcome.program := by
  rcases run_eq_ok with ⟨outcome, ran, isLeft⟩
  have noneLoses (name : String) : ¬config.LosesReason program outcome.program name := by
    rw [isLeft]
    exact not_losesReason name
  rcases Shrink.second_pass_removes_nothing ran with ⟨again, ranAgain, keepsAll⟩
  have kept := keepsAll fun name loses => absurd loses (noneLoses name)
  exact ⟨outcome, again, ran, noneLoses, ranAgain, kept.1, kept.2⟩

end Callback

/-! ## Passes that do not end at once -/

def Shrink.RemovesMore (config : Config) (program : Program) : Prop :=
  ∃ outcome again, run config program = .ok outcome ∧ run config outcome.program = .ok again ∧
    again.report.totalRemoved ≠ 0 ∧ again.program ≠ outcome.program

instance (config : Config) (program : Program) : Decidable (Shrink.RemovesMore config program) :=
  match first : Shrink.run config program with
  | .error _ => isFalse (by simp [Shrink.RemovesMore, first])
  | .ok outcome =>
      match second : Shrink.run config outcome.program with
      | .error _ => isFalse (by simp [Shrink.RemovesMore, first, second])
      | .ok again =>
          decidable_of_iff (again.report.totalRemoved ≠ 0 ∧ again.program ≠ outcome.program)
            (by simp [Shrink.RemovesMore, first, second])

namespace LostReasons

/-! Three programs with a symbol that has lost its only reason in the first pass,
and that the second removes. -/

def runMethod : Member :=
  { kind := .method, name := "run", descriptor := "" }

/-- The library method is mentioned by a caller only, which nothing keeps. -/
def mentioned : Program :=
  ⟨[{ name := "Job", interfaces := ["Task"], members := [runMethod] },
    { name := "Caller"
      members :=
        [{ kind := .method, name := "main", descriptor := "()", isStatic := true
           references := [{ owner := "Task", name := some "run" }] }] }]⟩

/-- Only a class that nothing keeps inherits the method for the interface. -/
def inherited : Program :=
  ⟨[{ name := "Base", members := [runMethod] },
    { name := "Task", members := [runMethod] },
    { name := "Job", superclass := some "Base", interfaces := ["Task"] }]⟩

/-- The marker is a class of the program, which nothing keeps. -/
def marked : Program :=
  ⟨[{ name := "Keep" }, { name := "Job", annotations := ["Keep"] }]⟩

theorem second_pass_removes_more :
    Shrink.RemovesMore {} mentioned ∧
    Shrink.RemovesMore { entryPoints := ["Task.run"] } inherited ∧
    Shrink.RemovesMore { keepAnnotations := ["Keep"] } marked := by
  decide +kernel

end LostReasons

end ClassShrink
