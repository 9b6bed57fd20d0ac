/-! # Symbols and their relations

A symbol of a program is a class, a method or a field. A boundary symbol stands
for something that the program names but does not define. -/

namespace ClassShrink

/-! ## Kinds of symbols -/

inductive SymbolKind where
  | classDecl
  | method
  | field
  | boundary
deriving DecidableEq, Repr

namespace SymbolKind

def all : List SymbolKind :=
  [.classDecl, .method, .field, .boundary]

def name : SymbolKind → String
  | .classDecl => "class"
  | .method => "method"
  | .field => "field"
  | .boundary => "boundary"

/-- The word for a kind in front of a symbol's name. -/
def label : SymbolKind → String
  | .boundary => "external"
  | kind => kind.name

def ofName? (name : String) : Option SymbolKind :=
  all.find? fun kind => kind.name = name

def isMember : SymbolKind → Bool
  | .method | .field => true
  | .classDecl | .boundary => false

end SymbolKind

/-! ## Kinds of edges -/

/-- How one symbol relates to another. `references` covers calls, accesses, uses
of a type, and the relation of a member to its class. -/
inductive EdgeKind where
  | references
  | extendsClass
  | implementsInterface
  | overrides
  | annotatedBy
deriving DecidableEq, Repr

namespace EdgeKind

def all : List EdgeKind :=
  [.references, .extendsClass, .implementsInterface, .overrides, .annotatedBy]

def name : EdgeKind → String
  | .references => "references"
  | .extendsClass => "extends"
  | .implementsInterface => "implements"
  | .overrides => "overrides"
  | .annotatedBy => "annotated-by"

def ofName? (name : String) : Option EdgeKind :=
  all.find? fun kind => kind.name = name

/-- Whether marking follows such an edge. Overriding is followed in both
directions by other means, and an annotation keeps nothing alive. -/
def isTraversed : EdgeKind → Bool
  | .references | .extendsClass | .implementsInterface => true
  | .overrides | .annotatedBy => false

end EdgeKind

end ClassShrink
