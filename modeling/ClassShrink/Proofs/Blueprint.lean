import ClassShrink.Graph.Construction
import ClassShrink.Proofs.Numbering
import ClassShrink.Proofs.Tables

/-! # The graph of a program, without loops

What construction arrives at, read off the program: the nodes are the symbols in
order and then one boundary symbol for each name that is used and not defined, in
the order of first use. -/

namespace ClassShrink

/-! ## Faults first -/

/-- A value, unless there is a fault. -/
def refuse {ε α : Type} (fault? : Option ε) (value : α) : Except ε α :=
  match fault? with
  | some fault => .error fault
  | none => .ok value

section Refuse

variable {ε α β : Type}

@[simp] theorem refuse_none (value : α) : (refuse none value : Except ε α) = .ok value := rfl

@[simp] theorem refuse_some (fault : ε) (value : α) : refuse (some fault) value = .error fault :=
  rfl

theorem refuse_map (fault? : Option ε) (value : α) (change : α → β) :
    (refuse fault? value).map change = refuse fault? (change value) := by
  cases fault? <;> rfl

theorem refuse_bind_pure (fault? : Option ε) (value : α) (change : α → β) :
    (refuse fault? value >>= fun value => pure (change value)) = refuse fault? (change value) := by
  cases fault? <;> rfl

theorem refuse_bind (fault? : Option ε) (value : α) {step : α → Except ε β}
    {later? : Option ε} {result : β} (steps : step value = refuse later? result) :
    (refuse fault? value >>= step) = refuse (fault?.or later?) result := by
  cases fault? with
  | none => exact steps
  | some fault => rfl

theorem mapM_refuse {step : α → Except ε β} {fault? : α → Option ε} {result : α → β}
    {elements : List α} (steps : ∀ element ∈ elements,
      step element = refuse (fault? element) (result element)) :
    elements.mapM step = refuse (elements.findSome? fault?) (elements.map result) := by
  induction elements with
  | nil => rfl
  | cons element rest induction =>
      rw [List.mapM_cons, steps element List.mem_cons_self, List.findSome?_cons]
      have restSteps := induction fun other isOther => steps other (List.mem_cons_of_mem _ isOther)
      cases fault? element with
      | some fault => rfl
      | none =>
          rw [refuse_none, restSteps]
          cases rest.findSome? fault? <;> rfl

/-- A loop that appends what each element gives stops at the first fault. -/
theorem foldlM_append_refuse {step : α → Except ε (List β)} {fault? : α → Option ε}
    {result : α → List β}
    (steps : ∀ element, step element = refuse (fault? element) (result element))
    (elements : List α) (gathered : List β) :
    elements.foldlM (fun gathered element => do return gathered ++ (← step element)) gathered =
      refuse (elements.findSome? fault?) (gathered ++ elements.flatMap result) := by
  induction elements generalizing gathered with
  | nil =>
      rw [List.flatMap_nil, List.append_nil]
      rfl
  | cons element rest induction =>
      rw [List.foldlM_cons, steps, List.findSome?_cons]
      cases fault? element with
      | some fault => rfl
      | none =>
          rw [List.flatMap_cons, ← List.append_assoc]
          exact induction _

end Refuse

/-! ## Edges -/

namespace Target

def name? : Target → Option String
  | .node _ => none
  | .named name => some name

def place (names : List String) : Target → Nat
  | .node number => number
  | .named name => names.idxOf name

end Target

def PendingEdge.settled (names : List String) (edge : PendingEdge) : Edge :=
  ⟨edge.source, edge.target.place names, edge.kind⟩

namespace Program

def classTarget (program : Program) (name : String) : Target :=
  match program.position? name with
  | some position => .node (program.classNode position)
  | none => .named name

def referenceTarget (program : Program) (reference : Reference) : Target :=
  match reference.signature?, program.position? reference.owner with
  | none, _ => program.classTarget reference.owner
  | some _, none => .named reference.qualifiedName
  | some signature, some owner =>
      match program.lookup owner signature with
      | .found declaration => .node (program.memberNode declaration)
      | .maybeInherited | .missing => .named reference.qualifiedName

def annotationEdges (program : Program) (source : Nat) (tags : List String) : List PendingEdge :=
  (program.defined tags).map fun position =>
    ⟨source, .node (program.classNode position), .annotatedBy⟩

def referenceEdges (program : Program) (source : Nat) (reference : Reference) :
    List PendingEdge :=
  let owners := if reference.name.isSome then program.defined [reference.owner] else []
  ⟨source, program.referenceTarget reference, .references⟩ ::
    owners.map fun position => ⟨source, .node (program.classNode position), .references⟩

def memberEdges (program : Program) (position : Nat) (member : Member) (index : Nat) :
    List PendingEdge :=
  let source := program.memberNode ⟨position, index⟩
  ⟨source, .node (program.classNode position), .references⟩ ::
    program.annotationEdges source member.annotations ++
    member.references.flatMap (program.referenceEdges source)

def classEdges (program : Program) (declaration : ClassDecl) (position : Nat) :
    List PendingEdge :=
  let source := program.classNode position
  declaration.superclass.toList.map (fun name =>
      ⟨source, program.classTarget name, .extendsClass⟩) ++
    declaration.interfaces.map (fun name =>
      ⟨source, program.classTarget name, .implementsInterface⟩) ++
    program.annotationEdges source declaration.annotations ++
    declaration.members.zipIdx.flatMap fun (member, index) =>
      program.memberEdges position member index

def pendingEdges (program : Program) : List PendingEdge :=
  program.classes.zipIdx.flatMap fun (declaration, position) =>
    program.classEdges declaration position

/-! ## Boundary symbols -/

def boundaryNamesOf (program : Program) (edges : List PendingEdge) : List String :=
  let used := edges.filterMap fun edge => edge.target.name?
  (used.filter fun name => !program.symbolNames.contains name).eraseDups

def namesOf (program : Program) (edges : List PendingEdge) : List String :=
  program.symbolNames ++ program.boundaryNamesOf edges

def boundaryNames (program : Program) : List String :=
  program.boundaryNamesOf program.pendingEdges

def nodeNames (program : Program) : List String :=
  program.namesOf program.pendingEdges

/-! ## Faults -/

def firstRepeat? (seen : List String) : List String → Option String
  | [] => none
  | name :: rest => if name ∈ seen then some name else firstRepeat? (name :: seen) rest

/-- Whether a reference asks for a member that its owner cannot have. -/
def isUnresolved (program : Program) (reference : Reference) : Bool :=
  match reference.signature?, program.position? reference.owner with
  | some signature, some owner => program.lookup owner signature = .missing
  | _, _ => false

def unresolvedIn? (program : Program) (declaration : ClassDecl) : Option (String × String) :=
  declaration.members.findSome? fun member =>
    (member.references.find? program.isUnresolved).map fun reference =>
      (member.qualifiedName declaration.name, reference.qualifiedName)

def firstUnresolved? (program : Program) : Option (String × String) :=
  program.classes.findSome? program.unresolvedIn?

end Program

/-! ## Graphs -/

namespace ProgramGraph

def memberSymbol (owner : String) (position : Nat) (entry : Member × Nat) : SymbolNode :=
  ⟨entry.1.qualifiedName owner, entry.1.kind.symbolKind, .member position entry.2⟩

def nodeBlock (entry : ClassDecl × Nat) : List SymbolNode :=
  ⟨entry.1.name, .classDecl, .declaration entry.2⟩ ::
    entry.1.members.zipIdx.map (memberSymbol entry.1.name entry.2)

def memberRow (program : Program) (entry : ClassDecl × Nat) : List Nat :=
  (List.range entry.1.members.length).map fun index => program.memberNode ⟨entry.2, index⟩

def laidOut (program : Program) : ProgramGraph where
  program
  nodes := program.classes.zipIdx.flatMap nodeBlock
  nameIndex := ⟨program.symbolNames.zipIdx⟩
  classNodes := program.positions.map program.classNode
  memberNodes := program.classes.zipIdx.map (memberRow program)

def bounded (program : Program) (boundaryNames : List String) (edges : List Edge) :
    ProgramGraph :=
  { laidOut program with
    nodes := (laidOut program).nodes ++ boundaryNames.map .boundary
    nameIndex := ⟨(program.symbolNames ++ boundaryNames).zipIdx⟩
    edges
    boundaries := (List.range boundaryNames.length).map (program.symbolNames.length + ·) }

def drawn (program : Program) (edges : List PendingEdge) : ProgramGraph :=
  bounded program (program.boundaryNamesOf edges)
    (edges.map (PendingEdge.settled (program.namesOf edges))).eraseDups

/-- The graph of a program whose names are distinct and whose references
resolve. -/
def ofProgram (program : Program) : ProgramGraph :=
  let graph := drawn program program.pendingEdges
  { graph with
    edges := graph.edges ++ graph.overridePairs.map fun pair => ⟨pair.1, pair.2, .overrides⟩
    overrideIndex := .ofPairs graph.overridePairs }

/-! ## Tables -/

variable {program : Program} {position index : Nat} {declaration : ClassDecl} {member : Member}

theorem nodeBlock_length (entry : ClassDecl × Nat) :
    (nodeBlock entry).length = entry.1.members.length + 1 := by
  simp [nodeBlock]

theorem memberSymbol_names (owner : String) (position start : Nat) (members : List Member) :
    ((members.zipIdx start).map (memberSymbol owner position)).map SymbolNode.name =
      members.map (·.qualifiedName owner) := by
  conv_rhs => rw [← List.zipIdx_map_fst start members, List.map_map]
  rw [List.map_map]
  rfl

theorem nodeBlock_names (entry : ClassDecl × Nat) :
    (nodeBlock entry).map SymbolNode.name = entry.1.symbolNames := by
  rw [nodeBlock, List.map_cons, memberSymbol_names, ClassDecl.symbolNames]

theorem flatMap_zipIdx_symbolNames (program : Program) :
    program.classes.zipIdx.flatMap (fun entry => entry.1.symbolNames) = program.symbolNames := by
  conv_rhs => rw [Program.symbolNames, ← List.zipIdx_map_fst 0 program.classes, List.flatMap_map]

theorem names_laidOut (program : Program) : (laidOut program).names = program.symbolNames := by
  simp only [names, laidOut, List.map_flatMap, nodeBlock_names, flatMap_zipIdx_symbolNames]

theorem names_bounded (program : Program) (boundaryNames : List String) (edges : List Edge) :
    (bounded program boundaryNames edges).names = program.symbolNames ++ boundaryNames := by
  have boundaries : (boundaryNames.map SymbolNode.boundary).map SymbolNode.name =
      boundaryNames := by
    rw [List.map_map]
    exact List.map_id _
  have split : (bounded program boundaryNames edges).names = (laidOut program).names ++
      (boundaryNames.map SymbolNode.boundary).map SymbolNode.name := List.map_append
  rw [split, names_laidOut, boundaries]

@[simp] theorem names_ofProgram (program : Program) :
    (ofProgram program).names = program.nodeNames :=
  names_bounded program program.boundaryNames []

theorem size_laidOut (program : Program) : (laidOut program).size = program.symbolNames.length := by
  rw [← names_laidOut, names, List.length_map, size]

@[simp] theorem size_ofProgram (program : Program) :
    (ofProgram program).size = program.nodeNames.length := by
  rw [← names_ofProgram, names, List.length_map, size]

theorem find?_bounded (program : Program) (boundaryNames : List String) (edges : List Edge)
    (name : String) : (bounded program boundaryNames edges).find? name =
      (program.symbolNames ++ boundaryNames).idxOf? name := by
  have placed := Table.get?_zipIdx (program.symbolNames ++ boundaryNames) name 0
  simpa [find?, bounded] using placed

@[simp] theorem find?_ofProgram (program : Program) (name : String) :
    (ofProgram program).find? name = program.nodeNames.idxOf? name :=
  find?_bounded program program.boundaryNames [] name

theorem classNode_laidOut (declared : program.classes[position]? = some declaration) :
    (laidOut program).classNode position = program.classNode position := by
  have within := (List.getElem?_eq_some_iff.mp declared).1
  simp [classNode, laidOut, Program.positions, within]

theorem memberNodesAt_laidOut (declared : program.classes[position]? = some declaration) :
    (laidOut program).memberNodesAt position = memberRow program (declaration, position) := by
  simp [memberNodesAt, laidOut, declared]

theorem memberNode_laidOut (declared : program.classes[position]? = some declaration)
    (has : declaration.members[index]? = some member) :
    (laidOut program).memberNode position index = program.memberNode ⟨position, index⟩ := by
  have within := (List.getElem?_eq_some_iff.mp has).1
  rw [memberNode, memberNodesAt_laidOut declared]
  simp [memberRow, within]

theorem classNode_eq (declared : program.classes[position]? = some declaration) :
    (ofProgram program).classNode position = program.classNode position :=
  classNode_laidOut declared

theorem memberNodesAt_eq (declared : program.classes[position]? = some declaration) :
    (ofProgram program).memberNodesAt position = memberRow program (declaration, position) :=
  memberNodesAt_laidOut declared

theorem memberNode_eq (declared : program.classes[position]? = some declaration)
    (has : declaration.members[index]? = some member) :
    (ofProgram program).memberNode position index = program.memberNode ⟨position, index⟩ :=
  memberNode_laidOut declared has

/-! ## Nodes -/

theorem nodes_block (declared : program.classes[position]? = some declaration) {offset : Nat}
    {node : SymbolNode} (listed : (nodeBlock (declaration, position))[offset]? = some node) :
    (ofProgram program).nodes[program.classNode position + offset]? = some node := by
  have block : (program.classes.zipIdx.flatMap nodeBlock)[program.classNode position + offset]? =
      some node := blocks_getElem? nodeBlock_length declared listed
  have split : (ofProgram program).nodes = program.classes.zipIdx.flatMap nodeBlock ++
      program.boundaryNames.map .boundary := rfl
  rw [split, List.getElem?_append_left (List.getElem?_eq_some_iff.mp block).1]
  exact block

theorem node_classNode (declared : program.classes[position]? = some declaration) :
    (ofProgram program).node (program.classNode position) =
      ⟨declaration.name, .classDecl, .declaration position⟩ := by
  have first : (nodeBlock (declaration, position))[0]? =
      some ⟨declaration.name, .classDecl, .declaration position⟩ := rfl
  have placed : (ofProgram program).nodes[program.classNode position]? =
      some ⟨declaration.name, .classDecl, .declaration position⟩ := nodes_block declared first
  rw [node, placed]
  rfl

theorem node_memberNode (declared : program.classes[position]? = some declaration)
    (has : declaration.members[index]? = some member) :
    (ofProgram program).node (program.memberNode ⟨position, index⟩) =
      ⟨member.qualifiedName declaration.name, member.kind.symbolKind,
        .member position index⟩ := by
  have later : (nodeBlock (declaration, position))[index + 1]? =
      some ⟨member.qualifiedName declaration.name, member.kind.symbolKind,
        .member position index⟩ := by
    simp [nodeBlock, memberSymbol, has]
  rw [node, Program.memberNode_eq, nodes_block declared later]
  rfl

theorem node_boundary {offset : Nat} {name : String}
    (used : program.boundaryNames[offset]? = some name) :
    (ofProgram program).node (program.symbolNames.length + offset) = .boundary name := by
  have split : (ofProgram program).nodes = (laidOut program).nodes ++
      program.boundaryNames.map .boundary := rfl
  have length : (laidOut program).nodes.length = program.symbolNames.length :=
    size_laidOut program
  rw [node, split, List.getElem?_append_right (by omega), length, Nat.add_sub_cancel_left,
    List.getElem?_map, used]
  rfl

theorem boundaries_ofProgram (program : Program) : (ofProgram program).boundaries =
    (List.range program.boundaryNames.length).map (program.symbolNames.length + ·) := rfl

@[simp] theorem boundary?_ofProgram (program : Program) (name : String) :
    (ofProgram program).boundary? name =
      (program.boundaryNames.idxOf? name).map (program.symbolNames.length + ·) := by
  have entries : (ofProgram program).boundaries.map
      (fun node => (((ofProgram program).node node).name, node)) =
        program.boundaryNames.zipIdx program.symbolNames.length := by
    apply List.ext_getElem?
    intro offset
    cases used : program.boundaryNames[offset]? with
    | none =>
        have beyond := List.getElem?_eq_none_iff.mp used
        simp [boundaries_ofProgram, beyond]
    | some name =>
        have within := (List.getElem?_eq_some_iff.mp used).1
        have numbered : (ofProgram program).boundaries[offset]? =
            some (program.symbolNames.length + offset) := by
          simp [boundaries_ofProgram, within]
        rw [List.getElem?_map, numbered, Option.map_some, node_boundary used,
          List.getElem?_zipIdx, used]
        rfl
  rw [boundary?, entries]
  exact Table.get?_zipIdx _ _ _

end ProgramGraph

end ClassShrink
