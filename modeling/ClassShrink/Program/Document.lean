import ClassShrink.Program.Basic
import ClassShrink.Json.Document
import ClassShrink.Json.Record

/-! # Programs as JSON

Reading accepts each record as an object or as an array of its fields, with
defaults for what is left out. Writing gives objects, and leaves out what is
empty. -/

namespace ClassShrink

/-! ## Reading -/

/-- The deepest nesting that a kept value may have, counted from the root of
the document. -/
def nestingLimit : Nat :=
  127

def payload? (outer : Nat) : Json → Option (Option Json) :=
  Json.nullable? fun value =>
    if outer + value.depth ≤ nestingLimit then value.settle? else none

namespace Reference

def fieldNames : List String :=
  ["owner", "name", "descriptor"]

def ofJson? (value : Json) : Option Reference := do
  let fields ← value.fields? fieldNames
  let owner ← Record.required? Json.text? "owner" fields
  let name ← Record.optional? (Json.nullable? Json.text?) none "name" fields
  let descriptor ← Record.optional? (Json.nullable? Json.text?) none "descriptor" fields
  some { owner, name, descriptor }

end Reference

namespace MemberKind

def ofJson? (value : Json) : Option MemberKind :=
  value.choice?.bind ofName?

end MemberKind

namespace Visibility

def ofJson? (value : Json) : Option Visibility :=
  value.choice?.bind ofName?

end Visibility

namespace Member

def fieldNames : List String :=
  ["kind", "name", "descriptor", "visibility", "static", "annotations", "references", "payload"]

def ofJson? (value : Json) : Option Member := do
  let fields ← value.fields? fieldNames
  let kind ← Record.required? MemberKind.ofJson? "kind" fields
  let name ← Record.required? Json.text? "name" fields
  let descriptor ← Record.required? Json.text? "descriptor" fields
  let visibility ← Record.optional? Visibility.ofJson? .publicAccess "visibility" fields
  let isStatic ← Record.optional? Json.flag? false "static" fields
  let annotations ← Record.optional? Json.dialect.texts? [] "annotations" fields
  let references ← Record.optional? (Json.dialect.list? Reference.ofJson?) [] "references" fields
  let payload ← Record.optional? (payload? 5) none "payload" fields
  some { kind, name, descriptor, visibility, isStatic, annotations, references, payload }

end Member

namespace ClassDecl

def fieldNames : List String :=
  ["name", "superclass", "interfaces", "annotations", "members", "payload"]

def ofJson? (value : Json) : Option ClassDecl := do
  let fields ← value.fields? fieldNames
  let name ← Record.required? Json.text? "name" fields
  let superclass ← Record.optional? (Json.nullable? Json.text?) none "superclass" fields
  let interfaces ← Record.optional? Json.dialect.texts? [] "interfaces" fields
  let annotations ← Record.optional? Json.dialect.texts? [] "annotations" fields
  let members ← Record.optional? (Json.dialect.list? Member.ofJson?) [] "members" fields
  let payload ← Record.optional? (payload? 3) none "payload" fields
  some { name, superclass, interfaces, annotations, members, payload }

end ClassDecl

namespace Program

def ofJson? (value : Json) : Option Program := do
  let fields ← value.fields? ["classes"]
  let classes ← Record.optional? (Json.dialect.list? ClassDecl.ofJson?) [] "classes" fields
  some { classes }

def parse? (text : String) : Option Program :=
  (Json.parse? text).bind ofJson?

end Program

/-! ## Writing -/

def optionalField (key : String) : Option Json → List (String × Json)
  | some value => [(key, value)]
  | none => []

def nonemptyField (key : String) (items : List Json) : List (String × Json) :=
  if items.isEmpty then [] else [(key, .array items)]

namespace Reference

def toJson (reference : Reference) : Json :=
  .object <|
    [("owner", .string reference.owner)] ++
      optionalField "name" (reference.name.map .string) ++
      optionalField "descriptor" (reference.descriptor.map .string)

end Reference

namespace Member

def toJson (member : Member) : Json :=
  .object <|
    [("kind", .string member.kind.name),
      ("name", .string member.name),
      ("descriptor", .string member.descriptor),
      ("visibility", .string member.visibility.name),
      ("static", .bool member.isStatic)] ++
      nonemptyField "annotations" (member.annotations.map .string) ++
      nonemptyField "references" (member.references.map Reference.toJson) ++
      optionalField "payload" member.payload

end Member

namespace ClassDecl

def toJson (declaration : ClassDecl) : Json :=
  .object <|
    [("name", .string declaration.name)] ++
      optionalField "superclass" (declaration.superclass.map .string) ++
      nonemptyField "interfaces" (declaration.interfaces.map .string) ++
      nonemptyField "annotations" (declaration.annotations.map .string) ++
      [("members", .array (declaration.members.map Member.toJson))] ++
      optionalField "payload" declaration.payload

end ClassDecl

namespace Program

def toJson (program : Program) : Json :=
  .object [("classes", .array (program.classes.map ClassDecl.toJson))]

end Program

end ClassShrink
