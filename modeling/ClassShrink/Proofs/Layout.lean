import ClassShrink.Proofs.Blueprint

/-! # Laying out the symbols

The loop that gives the symbols of a program their nodes stops at the first name
that has occurred before, and otherwise arrives at all of them in order. A member
whose key has occurred in its class has a name that has occurred, so the test of the
keys never decides. -/

namespace ClassShrink

/-! ## Repeated names -/

namespace Program

theorem firstRepeat?_eq_none_iff (seen names : List String) :
    firstRepeat? seen names = none ↔ names.Nodup ∧ ∀ name ∈ names, name ∉ seen := by
  induction names generalizing seen with
  | nil => simp [firstRepeat?]
  | cons name rest induction =>
      by_cases repeated : name ∈ seen
      · simp [firstRepeat?, repeated]
      · rw [firstRepeat?, if_neg repeated, induction, List.nodup_cons]
        simp only [List.mem_cons, not_or, forall_eq_or_imp]
        constructor
        · intro fresh
          rcases fresh with ⟨distinct, apart⟩
          exact ⟨⟨fun member => (apart name member).1 rfl, distinct⟩, repeated,
            fun other member => (apart other member).2⟩
        · intro together
          rcases together with ⟨⟨fresh, distinct⟩, _, apart⟩
          exact ⟨distinct, fun other member =>
            ⟨fun equal => fresh (equal ▸ member), apart other member⟩⟩

theorem firstRepeat?_congr {seen other : List String}
    (same : ∀ name, name ∈ seen ↔ name ∈ other) (names : List String) :
    firstRepeat? seen names = firstRepeat? other names := by
  induction names generalizing seen other with
  | nil => rfl
  | cons name rest induction =>
      have restSame : firstRepeat? (name :: seen) rest = firstRepeat? (name :: other) rest :=
        induction fun text => by simp [same]
      simp [firstRepeat?, same, restSame]

theorem firstRepeat?_append (seen left right : List String) :
    firstRepeat? seen (left ++ right) =
      (firstRepeat? seen left).or (firstRepeat? (seen ++ left) right) := by
  induction left generalizing seen with
  | nil => simp [firstRepeat?]
  | cons name rest induction =>
      rw [List.cons_append, firstRepeat?, firstRepeat?]
      split
      · rfl
      · rw [induction]
        have moved : ∀ text, text ∈ name :: seen ++ rest ↔ text ∈ seen ++ name :: rest := by
          intro text
          simp only [List.cons_append, List.mem_cons, List.mem_append]
          exact or_left_comm
        rw [firstRepeat?_congr moved]

end Program

namespace ProgramGraph

variable {graph : ProgramGraph} {name : String} {node : SymbolNode}

/-! ## Further nodes -/

def Indexed (graph : ProgramGraph) : Prop :=
  graph.nameIndex = ⟨graph.names.zipIdx⟩

def append (graph : ProgramGraph) (nodes : List SymbolNode) : ProgramGraph :=
  { graph with
    nodes := graph.nodes ++ nodes
    nameIndex := ⟨(graph.names ++ nodes.map SymbolNode.name).zipIdx⟩ }

@[simp] theorem append_names (graph : ProgramGraph) (nodes : List SymbolNode) :
    (graph.append nodes).names = graph.names ++ nodes.map SymbolNode.name :=
  List.map_append

theorem append_indexed (graph : ProgramGraph) (nodes : List SymbolNode) :
    (graph.append nodes).Indexed := by
  rw [Indexed, append_names]
  rfl

theorem append_append (graph : ProgramGraph) (left right : List SymbolNode) :
    (graph.append left).append right = graph.append (left ++ right) := by
  have names : ((graph.append left).append right).nameIndex =
      (graph.append (left ++ right)).nameIndex := by
    simp [append, ProgramGraph.names]
  simp only [append, ProgramGraph.mk.injEq, List.append_assoc, true_and, and_true] at names ⊢
  exact names

theorem Indexed.append_nil (indexed : graph.Indexed) : graph.append [] = graph := by
  rcases graph with ⟨program, nodes, nameIndex⟩
  simp only [Indexed, append, names, List.append_nil, List.map_nil] at indexed ⊢
  rw [indexed]

theorem Indexed.contains_iff (indexed : graph.Indexed) :
    graph.nameIndex.contains name ↔ name ∈ graph.names := by
  rw [Table.contains_iff, indexed, Table.keys, List.zipIdx_map_fst]

theorem Indexed.addNode_eq (indexed : graph.Indexed) (fresh : node.name ∉ graph.names) :
    graph.addNode node = graph.append [node] := by
  have unknown : node.name ∉ graph.nameIndex.keys := by
    rwa [← Table.contains_iff, indexed.contains_iff]
  have entries : graph.nameIndex.insert node.name graph.size =
      ⟨(graph.names ++ [node.name]).zipIdx⟩ := by
    rw [Table.insert_fresh unknown, indexed, List.zipIdx_append]
    simp [names, size]
  rw [addNode, entries]
  rfl

/-! ## Members -/

/-- The row's names and keys have been entered together. -/
structure Row.Entered (row : Row) (owner : String) : Prop where
  indexed : row.graph.Indexed
  keyed : ∀ signature, row.byKey.contains signature → signature.key owner ∈ row.graph.names

variable {declaration : ClassDecl} {position index : Nat} {row : Row} {member : Member}

def Row.enter (owner : String) (position : Nat) (row : Row) (entry : Member × Nat) : Row where
  graph := row.graph.append [memberSymbol owner position entry]
  byKey := row.byKey.insert entry.1.signature entry.2
  nodes := row.nodes ++ [row.graph.size]

/-- The test of the key makes no difference. -/
theorem Row.Entered.addMember_eq (entered : row.Entered declaration.name) :
    row.addMember declaration position (member, index) =
      if member.qualifiedName declaration.name ∈ row.graph.names then
        .error (.duplicateSymbol (member.qualifiedName declaration.name))
      else .ok (row.enter declaration.name position (member, index)) := by
  have tests : (row.byKey.contains member.signature ||
      row.graph.nameIndex.contains (member.qualifiedName declaration.name)) ↔
        member.qualifiedName declaration.name ∈ row.graph.names := by
    rw [Bool.or_eq_true, entered.indexed.contains_iff]
    exact or_iff_right_of_imp (entered.keyed member.signature)
  rw [addMember]
  by_cases repeated : member.qualifiedName declaration.name ∈ row.graph.names
  · rw [if_pos (tests.mpr repeated), if_pos repeated]
  · rw [if_neg (tests.not.mpr repeated), if_neg repeated, entered.indexed.addNode_eq repeated]
    rfl

theorem Row.Entered.enter (entered : row.Entered declaration.name) (entry : Member × Nat) :
    (row.enter declaration.name position entry).Entered declaration.name where
  indexed := append_indexed _ _
  keyed signature known := by
    rw [Row.enter, append_names]
    rw [Table.contains, Row.enter, Table.get?_insert] at known
    split at known
    next same => exact List.mem_append_right _ (List.mem_singleton.mpr (by rw [same]; rfl))
    · exact List.mem_append_left _ (entered.keyed signature known)

theorem Row.Entered.foldlM_addMember (entered : row.Entered declaration.name)
    (members : List Member) (start : Nat) :
    ((members.zipIdx start).foldlM (Row.addMember declaration position) row).map
        (fun row => (row.graph, row.nodes)) =
      refuse ((Program.firstRepeat? row.graph.names
          (members.map (·.qualifiedName declaration.name))).map .duplicateSymbol)
        (row.graph.append ((members.zipIdx start).map (memberSymbol declaration.name position)),
          row.nodes ++ List.range' row.graph.size members.length) := by
  induction members generalizing row start with
  | nil =>
      simp only [List.zipIdx_nil, List.map_nil, entered.indexed.append_nil, List.length_nil,
        List.range'_zero, List.append_nil]
      rfl
  | cons member rest induction =>
      rw [List.zipIdx_cons, List.foldlM_cons, entered.addMember_eq, List.map_cons,
        Program.firstRepeat?]
      split
      · rfl
      · have moved : ∀ text,
            text ∈ (row.enter declaration.name position (member, start)).graph.names ↔
              text ∈ member.qualifiedName declaration.name :: row.graph.names := by
          intro text
          simp [Row.enter, memberSymbol, or_comm]
        refine (induction (entered.enter (member, start)) (start + 1)).trans ?_
        rw [Program.firstRepeat?_congr moved]
        have sized : (row.enter declaration.name position (member, start)).graph.size =
            row.graph.size + 1 := List.length_append
        rw [sized, Row.enter, append_append, List.append_assoc, List.length_cons,
          List.range'_succ]
        rfl

/-! ## Classes -/

def appendClass (graph : ProgramGraph) (entry : ClassDecl × Nat) : ProgramGraph :=
  { graph.append (nodeBlock entry) with
    classNodes := graph.classNodes ++ [graph.size]
    memberNodes := graph.memberNodes ++
      [List.range' (graph.size + 1) entry.1.members.length] }

theorem Indexed.addClass_eq (indexed : graph.Indexed) :
    graph.addClass (declaration, position) =
      refuse ((Program.firstRepeat? graph.names declaration.symbolNames).map .duplicateSymbol)
        (graph.appendClass (declaration, position)) := by
  rw [addClass, ClassDecl.symbolNames, Program.firstRepeat?]
  by_cases repeated : declaration.name ∈ graph.names
  · rw [if_pos (indexed.contains_iff.mpr repeated), if_pos repeated]
    rfl
  · rw [if_neg (indexed.contains_iff.not.mpr repeated), if_neg repeated]
    let symbol : SymbolNode := ⟨declaration.name, .classDecl, .declaration position⟩
    have entered : Row.Entered { graph := graph.append [symbol] } declaration.name :=
      ⟨append_indexed _ _, fun _ known => absurd known Bool.false_ne_true⟩
    -- All that is made of the row is its graph and its nodes.
    let finish (row : ProgramGraph × List Nat) : ProgramGraph :=
      { row.1 with
        classNodes := row.1.classNodes ++ [graph.size]
        memberNodes := row.1.memberNodes ++ [row.2] }
    have finished (row : Except ShrinkError Row) :
        (row >>= fun row => pure (finish (row.graph, row.nodes))) =
          (row.map fun row => (row.graph, row.nodes)).map finish := by
      cases row <;> rfl
    rw [indexed.addNode_eq repeated]
    refine (finished _).trans ?_
    rw [entered.foldlM_addMember declaration.members 0, refuse_map]
    have moved : ∀ text, text ∈ (graph.append [symbol]).names ↔
        text ∈ declaration.name :: graph.names := by
      intro text
      simp [symbol, or_comm]
    have sized : (graph.append [symbol]).size = graph.size + 1 := List.length_append
    simp only [Program.firstRepeat?_congr moved, append_append, sized]
    rfl

theorem Indexed.foldlM_addClass (indexed : graph.Indexed) (entries : List (ClassDecl × Nat)) :
    entries.foldlM addClass graph =
      refuse ((Program.firstRepeat? graph.names
          (entries.flatMap fun entry => entry.1.symbolNames)).map .duplicateSymbol)
        (entries.foldl appendClass graph) := by
  induction entries generalizing graph with
  | nil => rfl
  | cons entry rest induction =>
      have names : (graph.appendClass entry).names = graph.names ++ entry.1.symbolNames := by
        rw [← nodeBlock_names, ← append_names]
        rfl
      have nextIndexed : (graph.appendClass entry).Indexed := append_indexed graph (nodeBlock entry)
      have further := induction nextIndexed
      rw [names] at further
      rw [List.foldlM_cons, indexed.addClass_eq, List.flatMap_cons, Program.firstRepeat?_append,
        Option.map_or, List.foldl_cons]
      exact refuse_bind _ _ further

/-! ## Programs -/

section Growing

variable (first : List ClassDecl) (declaration : ClassDecl)

theorem classNode_grown {position : Nat} (within : position ≤ first.length) :
    Program.classNode ⟨first ++ [declaration]⟩ position = Program.classNode ⟨first⟩ position := by
  rw [Program.classNode, Program.classNode, List.take_append_of_le_length within]

theorem classNode_length :
    Program.classNode ⟨first⟩ first.length = (Program.symbolNames ⟨first⟩).length := by
  rw [Program.classNode, List.take_length, Program.symbolNames]
  induction first with
  | nil => rfl
  | cons declaration rest induction =>
      rw [List.map_cons, List.foldr_cons, induction, List.flatMap_cons, List.length_append,
        Program.symbolNames_length_block]

theorem classNodes_grown :
    (Program.positions ⟨first ++ [declaration]⟩).map
        (Program.classNode ⟨first ++ [declaration]⟩) =
      (Program.positions ⟨first⟩).map (Program.classNode ⟨first⟩) ++
        [(Program.symbolNames ⟨first⟩).length] := by
  have positions : Program.positions ⟨first ++ [declaration]⟩ =
      Program.positions ⟨first⟩ ++ [first.length] := by
    simp [Program.positions, List.range_succ]
  rw [positions, List.map_append, List.map_singleton, classNode_grown _ _ le_rfl,
    classNode_length]
  congr 1
  refine List.map_congr_left fun position isPosition => ?_
  exact classNode_grown _ _ (List.mem_range.mp isPosition).le

theorem memberRows_grown :
    (first ++ [declaration]).zipIdx.map (memberRow ⟨first ++ [declaration]⟩) =
      first.zipIdx.map (memberRow ⟨first⟩) ++
        [List.range' ((Program.symbolNames ⟨first⟩).length + 1) declaration.members.length] := by
  have row {entry : ClassDecl × Nat} (within : entry.2 ≤ first.length) :
      memberRow ⟨first ++ [declaration]⟩ entry = memberRow ⟨first⟩ entry := by
    simp only [memberRow, Program.memberNode, classNode_grown _ _ within]
  rw [List.zipIdx_append, List.map_append]
  congr 1
  · refine List.map_congr_left fun entry listed => row ?_
    have within := (List.mem_zipIdx listed).2.1
    omega
  · rw [List.zipIdx_singleton, List.map_singleton, row (by simp)]
    simp only [memberRow, Program.memberNode, Nat.zero_add, classNode_length,
      List.range'_eq_map_range]

end Growing

def laidFirst (program : Program) (first : List ClassDecl) : ProgramGraph :=
  { laidOut ⟨first⟩ with program }

theorem appendClass_laidFirst (program : Program) (first : List ClassDecl)
    (declaration : ClassDecl) :
    (laidFirst program first).appendClass (declaration, first.length) =
      laidFirst program (first ++ [declaration]) := by
  have size_eq : (laidFirst program first).size = (Program.symbolNames ⟨first⟩).length :=
    size_laidOut ⟨first⟩
  have names_eq : (laidFirst program first).names = Program.symbolNames ⟨first⟩ :=
    names_laidOut ⟨first⟩
  have nodes_grown : (first ++ [declaration]).zipIdx.flatMap nodeBlock =
      first.zipIdx.flatMap nodeBlock ++ nodeBlock (declaration, first.length) := by
    simp [List.zipIdx_append]
  have names_grown : Program.symbolNames ⟨first ++ [declaration]⟩ =
      Program.symbolNames ⟨first⟩ ++ declaration.symbolNames := by
    simp [Program.symbolNames]
  rw [appendClass, append, size_eq, names_eq, nodeBlock_names, laidFirst, laidFirst, laidOut,
    laidOut, nodes_grown, names_grown, classNodes_grown, memberRows_grown]

theorem foldl_appendClass (program : Program) (first rest : List ClassDecl) :
    (rest.zipIdx first.length).foldl appendClass (laidFirst program first) =
      laidFirst program (first ++ rest) := by
  induction rest generalizing first with
  | nil => rw [List.append_nil]; rfl
  | cons declaration rest induction =>
      rw [List.zipIdx_cons, List.foldl_cons, appendClass_laidFirst]
      have further := induction (first ++ [declaration])
      rwa [List.length_append, List.length_singleton, List.append_assoc] at further

theorem layOut_eq (program : Program) :
    layOut program =
      refuse ((Program.firstRepeat? [] program.symbolNames).map .duplicateSymbol)
        (laidOut program) := by
  have empty : (laidFirst program []).Indexed := rfl
  have laid := empty.foldlM_addClass program.classes.zipIdx
  have all : program.classes.zipIdx.foldl appendClass (laidFirst program []) = laidOut program :=
    foldl_appendClass program [] program.classes
  rw [all, flatMap_zipIdx_symbolNames] at laid
  exact laid

end ProgramGraph

end ClassShrink
