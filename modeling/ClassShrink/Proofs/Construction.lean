import ClassShrink.Proofs.Layout
import ClassShrink.Proofs.Resolution

/-! # Building a graph

The loops of construction arrive at the graph that is read off the program, whether
the classes are resolved in turn or by workers. -/

namespace ClassShrink

theorem eraseDups_append_singleton {α : Type} [DecidableEq α] (elements : List α) (element : α) :
    (elements ++ [element]).eraseDups =
      elements.eraseDups ++ if element ∈ elements then [] else [element] := by
  rw [List.eraseDups_append]
  by_cases known : element ∈ elements <;> simp [List.removeAll, List.eraseDups_cons, known]

/-! ## Edges -/

namespace Program

variable {program : Program} {edges : List PendingEdge} {edge : PendingEdge} {name : String}

theorem mem_boundaryNamesOf_iff :
    name ∈ program.boundaryNamesOf edges ↔
      name ∉ program.symbolNames ∧ ∃ edge ∈ edges, edge.target = .named name := by
  have names (target : Target) : target.name? = some name ↔ target = .named name := by
    cases target <;> simp [Target.name?]
  simp [boundaryNamesOf, names, and_comm]

theorem mem_namesOf_of_target (listed : edge ∈ edges) (target : edge.target = .named name) :
    name ∈ program.namesOf edges := by
  by_cases defined : name ∈ program.symbolNames
  · exact List.mem_append_left _ defined
  · exact List.mem_append_right _ (mem_boundaryNamesOf_iff.mpr ⟨defined, edge, listed, target⟩)

theorem boundaryNamesOf_append_node {node : Nat} (target : edge.target = .node node) :
    program.boundaryNamesOf (edges ++ [edge]) = program.boundaryNamesOf edges := by
  simp [boundaryNamesOf, target, Target.name?]

theorem boundaryNamesOf_append_named (target : edge.target = .named name) :
    program.boundaryNamesOf (edges ++ [edge]) =
      program.boundaryNamesOf edges ++ if name ∈ program.namesOf edges then [] else [name] := by
  by_cases defined : name ∈ program.symbolNames
  · have known : name ∈ program.namesOf edges := List.mem_append_left _ defined
    simp [boundaryNamesOf, target, Target.name?, defined, known]
  · have known : name ∈ program.namesOf edges ↔
        name ∈ (edges.filterMap fun edge => edge.target.name?).filter fun name =>
          !program.symbolNames.contains name := by
      simp [namesOf, boundaryNamesOf, defined]
    simp only [known]
    rw [boundaryNamesOf, boundaryNamesOf, ← eraseDups_append_singleton]
    simp [target, Target.name?, defined]

end Program

namespace ProgramGraph

variable {program : Program} {edges : List PendingEdge}

theorem settled_grown {edge : PendingEdge} {names : List String}
    (inside : ∀ name, edge.target = .named name → name ∈ names) (further : List String) :
    edge.settled (names ++ further) = edge.settled names := by
  rcases edge with ⟨source, target, kind⟩
  cases target with
  | node node => rfl
  | named name =>
      simp [PendingEdge.settled, Target.place, List.idxOf_append_of_mem (inside name rfl)]

theorem namesOf_append (program : Program) (edges : List PendingEdge) (edge : PendingEdge) :
    ∃ further, program.namesOf (edges ++ [edge]) = program.namesOf edges ++ further := by
  rw [Program.namesOf, Program.namesOf]
  cases target : edge.target with
  | node node => exact ⟨[], by rw [Program.boundaryNamesOf_append_node target, List.append_nil]⟩
  | named name =>
      exact ⟨_, by rw [Program.boundaryNamesOf_append_named target, ← List.append_assoc]⟩

/-- An edge is settled once; later boundary symbols do not move its target. -/
theorem edges_drawn_append (program : Program) (edges : List PendingEdge) (edge : PendingEdge) :
    (drawn program (edges ++ [edge])).edges = (drawn program edges).edges ++
      if edge.settled (program.namesOf (edges ++ [edge])) ∈ (drawn program edges).edges then []
      else [edge.settled (program.namesOf (edges ++ [edge]))] := by
  rcases namesOf_append program edges edge with ⟨further, grown⟩
  have earlier : edges.map (PendingEdge.settled (program.namesOf (edges ++ [edge]))) =
      edges.map (PendingEdge.settled (program.namesOf edges)) := by
    rw [grown]
    refine List.map_congr_left fun other listed => settled_grown (fun name target => ?_) further
    exact Program.mem_namesOf_of_target listed target
  have edges_eq (edges : List PendingEdge) : (drawn program edges).edges =
      (edges.map (PendingEdge.settled (program.namesOf edges))).eraseDups := rfl
  simp only [edges_eq, List.map_append, List.map_singleton, earlier, eraseDups_append_singleton,
    List.mem_eraseDups]

theorem settle_bounded (program : Program) (boundaryNames : List String) (edges : List Edge)
    (name : String) :
    (bounded program boundaryNames edges).settle (.named name) =
      if name ∈ program.symbolNames ++ boundaryNames then
        (bounded program boundaryNames edges, (program.symbolNames ++ boundaryNames).idxOf name)
      else
        (bounded program (boundaryNames ++ [name]) edges,
          (program.symbolNames ++ boundaryNames).length) := by
  rw [settle, find?_bounded]
  by_cases known : name ∈ program.symbolNames ++ boundaryNames
  · rcases Option.isSome_iff_exists.mp (List.isSome_idxOf?.mpr known) with ⟨place, found⟩
    rw [if_pos known, List.idxOf_eq_getD_idxOf?, found]
    rfl
  · have names_eq := names_bounded program boundaryNames edges
    have indexed : (bounded program boundaryNames edges).Indexed := by
      rw [Indexed, names_eq]
      rfl
    have size_eq : (bounded program boundaryNames edges).size =
        (program.symbolNames ++ boundaryNames).length := by
      rw [← names_eq, names, List.length_map, size]
    have fresh : (SymbolNode.boundary name).name ∉ (bounded program boundaryNames edges).names :=
      names_eq ▸ known
    rw [if_neg known, List.idxOf?_eq_none_iff.mpr known]
    dsimp only
    rw [indexed.addNode_eq fresh, size_eq, append, names_eq]
    simp [bounded, List.range_succ]
    rfl

theorem settle_drawn (program : Program) (edges : List PendingEdge) (edge : PendingEdge) :
    (drawn program edges).settle edge.target =
      (bounded program (program.boundaryNamesOf (edges ++ [edge])) (drawn program edges).edges,
        edge.target.place (program.namesOf (edges ++ [edge]))) := by
  cases target : edge.target with
  | node node =>
      rw [Program.boundaryNamesOf_append_node target]
      rfl
  | named name =>
      have settled : (drawn program edges).settle (.named name) = _ :=
        settle_bounded program (program.boundaryNamesOf edges) (drawn program edges).edges name
      rw [settled, Target.place, Program.namesOf, Program.boundaryNamesOf_append_named target]
      by_cases known : name ∈ program.symbolNames ++ program.boundaryNamesOf edges
      · rw [if_pos known, Program.namesOf, if_pos known, List.append_nil]
      · rw [if_neg known, Program.namesOf, if_neg known, ← List.append_assoc,
          List.idxOf_append_of_notMem known]
        simp

theorem addEdge_eq (graph : ProgramGraph) (edge : Edge) :
    graph.addEdge edge =
      { graph with edges := graph.edges ++ if edge ∈ graph.edges then [] else [edge] } := by
  rw [addEdge]
  split
  · rw [List.append_nil]
  · rfl

theorem addPending_drawn (program : Program) (edges : List PendingEdge) (edge : PendingEdge) :
    (drawn program edges).addPending edge = drawn program (edges ++ [edge]) := by
  rw [addPending, settle_drawn]
  refine (addEdge_eq _ _).trans ?_
  exact congrArg (bounded program (program.boundaryNamesOf (edges ++ [edge])))
    (edges_drawn_append program edges edge).symm

theorem foldl_addPending (program : Program) (edges rest : List PendingEdge) :
    rest.foldl addPending (drawn program edges) = drawn program (edges ++ rest) := by
  induction rest generalizing edges with
  | nil => rw [List.append_nil]; rfl
  | cons edge rest induction =>
      rw [List.foldl_cons, addPending_drawn, induction, List.append_assoc]
      rfl

theorem drawn_nil (program : Program) : drawn program [] = laidOut program := by
  simp [drawn, bounded, laidOut, Program.boundaryNamesOf]

/-! ## Overrides -/

theorem foldl_addOverride (graph : ProgramGraph) (pairs : List (Nat × Nat)) :
    pairs.foldl addOverride graph =
      { graph with
        edges := graph.edges ++ pairs.map fun pair => ⟨pair.1, pair.2, .overrides⟩
        overrideIndex := pairs.foldl (fun index pair => index.insert pair.1 pair.2)
          graph.overrideIndex } := by
  induction pairs generalizing graph with
  | nil => simp
  | cons pair rest induction =>
      rw [List.foldl_cons, induction, addOverride]
      simp

theorem addOverrides_drawn (program : Program) :
    (drawn program program.pendingEdges).addOverrides = ofProgram program := by
  rw [addOverrides, foldl_addOverride]
  rfl

/-! ## Construction -/

namespace Resolution

def fault? (program : Program) : Resolution → Option ShrinkError
  | .inTurn => program.firstUnresolved?.map unresolvedFault
  | .byWorkers order => order.findSome? program.faultAt?

def Complete (program : Program) : Resolution → Prop
  | .inTurn => True
  | .byWorkers order => order.Perm program.positions

def ofFlag (program : Program) (parallel : Bool) : Resolution :=
  if parallel then .byWorkers program.positions.reverse else .inTurn

theorem ofFlag_complete (program : Program) (parallel : Bool) :
    (ofFlag program parallel).Complete program := by
  cases parallel with
  | false => trivial
  | true => exact List.reverse_perm _

variable {program : Program} {resolution : Resolution}

theorem Complete.fault?_eq_none_iff (complete : resolution.Complete program) :
    resolution.fault? program = none ↔ program.firstUnresolved? = none := by
  cases resolution with
  | inTurn => exact Option.map_eq_none_iff
  | byWorkers order =>
      rw [← Option.map_eq_none_iff (f := unresolvedFault), ← findSome?_faultAt?, fault?,
        List.findSome?_eq_none_iff, List.findSome?_eq_none_iff]
      exact forall_congr' fun position => by rw [complete.mem_iff]

theorem exists_site {fault : ShrinkError} (first : resolution.fault? program = some fault) :
    ∃ declaration ∈ program.classes, ∃ site,
      program.unresolvedIn? declaration = some site ∧ fault = unresolvedFault site := by
  cases resolution with
  | inTurn =>
      rcases Option.map_eq_some_iff.mp first with ⟨site, found, rfl⟩
      rcases List.exists_of_findSome?_eq_some found with ⟨declaration, isClass, unresolved⟩
      exact ⟨declaration, isClass, site, unresolved, rfl⟩
  | byWorkers order =>
      rcases List.exists_of_findSome?_eq_some first with ⟨position, _, faulty⟩
      rcases Option.map_eq_some_iff.mp faulty with ⟨site, found, rfl⟩
      rcases Option.bind_eq_some_iff.mp found with ⟨declaration, declared, unresolved⟩
      exact ⟨declaration, List.mem_of_getElem? declared, site, unresolved, rfl⟩

end Resolution

section Construct

variable {graph : ProgramGraph} {resolution : Resolution}

theorem construct_eq (complete : resolution.Complete program) :
    construct program resolution =
      refuse (((Program.firstRepeat? [] program.symbolNames).map .duplicateSymbol).or
        (resolution.fault? program)) (ofProgram program) := by
  have resolved : (laidOut program).pendingEdges resolution =
      refuse (resolution.fault? program) program.pendingEdges := by
    cases resolution with
    | inTurn => exact edgesInTurn_laidOut program
    | byWorkers order => exact edgesByWorkers_laidOut complete
  rw [construct, layOut_eq]
  apply refuse_bind
  rw [resolved, refuse_bind_pure, ← drawn_nil, foldl_addPending, List.nil_append,
    addOverrides_drawn]

/-- Construction fails on a name that is given twice, then on a reference that
does not resolve, and on nothing else. -/
theorem construct_cases (complete : resolution.Complete program) :
    (¬program.symbolNames.Nodup ∧
      ∃ name, construct program resolution = .error (.duplicateSymbol name)) ∨
    (program.symbolNames.Nodup ∧ program.firstUnresolved? ≠ none ∧
      ∃ source target, construct program resolution = .error (.unresolvedMember source target)) ∨
    (program.symbolNames.Nodup ∧ program.firstUnresolved? = none ∧
      construct program resolution = .ok (ofProgram program)) := by
  have distinct_iff : Program.firstRepeat? [] program.symbolNames = none ↔
      program.symbolNames.Nodup := by
    simp [Program.firstRepeat?_eq_none_iff]
  rw [construct_eq complete]
  cases repeated : Program.firstRepeat? [] program.symbolNames with
  | some name =>
      refine .inl ⟨?_, name, rfl⟩
      rw [← distinct_iff, repeated]
      exact Option.some_ne_none name
  | none =>
      have distinct := distinct_iff.mp repeated
      cases first : resolution.fault? program with
      | none => exact .inr (.inr ⟨distinct, complete.fault?_eq_none_iff.mp first, rfl⟩)
      | some fault =>
          rcases Resolution.exists_site first with ⟨declaration, _, site, _, rfl⟩
          have unresolved : program.firstUnresolved? ≠ none := fun resolved => by
            rw [complete.fault?_eq_none_iff.mpr resolved] at first
            cases first
          exact .inr (.inl ⟨distinct, unresolved, site.1, site.2, rfl⟩)

theorem build_cases (program : Program) (parallel : Bool) :
    (¬program.symbolNames.Nodup ∧
      ∃ name, build program parallel = .error (.duplicateSymbol name)) ∨
    (program.symbolNames.Nodup ∧ program.firstUnresolved? ≠ none ∧
      ∃ source target, build program parallel = .error (.unresolvedMember source target)) ∨
    (program.symbolNames.Nodup ∧ program.firstUnresolved? = none ∧
      build program parallel = .ok (ofProgram program)) :=
  construct_cases (Resolution.ofFlag_complete program parallel)

theorem construct_eq_ok_iff (complete : resolution.Complete program) :
    construct program resolution = .ok graph ↔
      program.symbolNames.Nodup ∧ program.firstUnresolved? = none ∧ graph = ofProgram program := by
  rcases construct_cases complete with
    ⟨repeated, _, failed⟩ | ⟨_, unresolved, _, _, failed⟩ | ⟨distinct, resolved, built⟩
  · simp [failed, repeated]
  · simp [failed, unresolved]
  · simp [built, distinct, resolved, eq_comm]

theorem build_eq_ok_iff {parallel : Bool} :
    build program parallel = .ok graph ↔
      program.symbolNames.Nodup ∧ program.firstUnresolved? = none ∧ graph = ofProgram program :=
  construct_eq_ok_iff (Resolution.ofFlag_complete program parallel)

/-- The same programs fail either way, if not always with the same error. -/
theorem build_fails_or_sound (program : Program) :
    (∃ error : Bool → ShrinkError, ∀ parallel,
      (error parallel).stage = .graph ∧ build program parallel = .error (error parallel)) ∨
    (program.symbolNames.Nodup ∧ program.firstUnresolved? = none) := by
  by_cases sound : program.symbolNames.Nodup ∧ program.firstUnresolved? = none
  · exact .inr sound
  · have fails : ∀ parallel, ∃ error : ShrinkError,
        error.stage = .graph ∧ build program parallel = .error error := by
      intro parallel
      rcases build_cases program parallel with
        ⟨_, name, failed⟩ | ⟨_, _, source, target, failed⟩ | ⟨distinct, resolved, _⟩
      · exact ⟨_, rfl, failed⟩
      · exact ⟨_, rfl, failed⟩
      · exact absurd ⟨distinct, resolved⟩ sound
    exact .inl (Classical.skolem.mp fails)

end Construct

end ProgramGraph

end ClassShrink
