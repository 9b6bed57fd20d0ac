import ClassShrink.Json.Value

/-! # Programs

A program is a list of classes with their methods and fields. What a member's
code refers to is listed with the member. Payloads are opaque: they are carried
along and never looked into. -/

namespace ClassShrink

/-! ## Names -/

def memberKey (owner name descriptor : String) : String :=
  owner ++ "." ++ name ++ ":" ++ descriptor

/-- What tells the members of one class apart. -/
structure Signature where
  name : String
  descriptor : String
deriving DecidableEq, Repr

def Signature.key (signature : Signature) (owner : String) : String :=
  memberKey owner signature.name signature.descriptor

def staticInitializerName : String :=
  "<clinit>"

def constructorName : String :=
  "<init>"

/-! ## References -/

structure Reference where
  owner : String
  name : Option String := none
  descriptor : Option String := none
deriving DecidableEq, Repr

namespace Reference

/-- The signature that a member reference asks for; a missing descriptor is the
empty one. A class reference has none. -/
def signature? (reference : Reference) : Option Signature :=
  reference.name.map fun name => ⟨name, reference.descriptor.getD ""⟩

def qualifiedName (reference : Reference) : String :=
  match reference.signature? with
  | some signature => signature.key reference.owner
  | none => reference.owner

end Reference

/-! ## Members -/

inductive MemberKind where
  | method
  | field
deriving DecidableEq, Repr

namespace MemberKind

def name : MemberKind → String
  | .method => "method"
  | .field => "field"

def ofName? (name : String) : Option MemberKind :=
  [MemberKind.method, .field].find? fun kind => kind.name = name

end MemberKind

inductive Visibility where
  | publicAccess
  | protectedAccess
  | packageAccess
  | privateAccess
deriving DecidableEq, Repr

namespace Visibility

def name : Visibility → String
  | .publicAccess => "public"
  | .protectedAccess => "protected"
  | .packageAccess => "package"
  | .privateAccess => "private"

def ofName? (name : String) : Option Visibility :=
  if name = "package-private" then some .packageAccess
  else
    [Visibility.publicAccess, .protectedAccess, .packageAccess, .privateAccess].find?
      fun visibility => visibility.name = name

end Visibility

structure Member where
  kind : MemberKind
  name : String
  descriptor : String
  visibility : Visibility := .publicAccess
  isStatic : Bool := false
  annotations : List String := []
  references : List Reference := []
  payload : Option Json := none
deriving DecidableEq, Repr

namespace Member

def signature (member : Member) : Signature :=
  ⟨member.name, member.descriptor⟩

def qualifiedName (member : Member) (owner : String) : String :=
  memberKey owner member.name member.descriptor

/-- Whether calls of this member choose among the classes' implementations. -/
def isVirtual (member : Member) : Bool :=
  member.kind = .method && !member.isStatic && member.visibility ≠ .privateAccess &&
    member.name ≠ constructorName && member.name ≠ staticInitializerName

end Member

/-! ## Classes and programs -/

/-- A class or an interface. -/
structure ClassDecl where
  name : String
  superclass : Option String := none
  interfaces : List String := []
  annotations : List String := []
  members : List Member := []
  payload : Option Json := none
deriving DecidableEq, Repr

namespace ClassDecl

def findMember? (declaration : ClassDecl) (signature : Signature) : Option Member :=
  declaration.members.find? fun member => member.signature = signature

def hasMemberNamed (declaration : ClassDecl) (name : String) : Bool :=
  declaration.members.any fun member => member.name = name

def symbolNames (declaration : ClassDecl) : List String :=
  declaration.name :: declaration.members.map (·.qualifiedName declaration.name)

end ClassDecl

structure Program where
  classes : List ClassDecl := []
deriving DecidableEq, Repr

structure Counts where
  classes : Nat
  methods : Nat
  fields : Nat
deriving DecidableEq, Repr

namespace Program

def findClass? (program : Program) (name : String) : Option ClassDecl :=
  program.classes.find? fun declaration => declaration.name = name

def members (program : Program) : List Member :=
  program.classes.flatMap (·.members)

def counts (program : Program) : Counts :=
  { classes := program.classes.length
    methods := program.members.countP fun member => member.kind = .method
    fields := program.members.countP fun member => member.kind = .field }

def symbolNames (program : Program) : List String :=
  program.classes.flatMap (·.symbolNames)

end Program

end ClassShrink
