import ClassShrink.Record

/-! # YAML values

A document is a tree of scalars, sequences and mappings. A scalar is text, and
keeps whether it was written without quotes, because only a plain scalar can
stand for anything but its text. -/

namespace ClassShrink

inductive Yaml where
  | scalar (text : String) (plain : Bool)
  | sequence (items : List Yaml)
  | mapping (entries : List (Yaml × Yaml))
deriving Repr

namespace Yaml

def absent : Yaml :=
  .scalar "" true

/-! ## Records -/

def text? : Yaml → Option String
  | .scalar text _ => some text
  | _ => none

def flag? : Yaml → Option Bool
  | .scalar text true =>
      if text ∈ ["true", "True", "TRUE"] then some true
      else if text ∈ ["false", "False", "FALSE"] then some false
      else none
  | _ => none

def items? : Yaml → Option (List Yaml)
  | .sequence items => some items
  | .scalar "" true => some []
  | _ => none

/-- A record is a mapping whose keys are all scalars; nothing written is a
record without fields. -/
def fields? (known : List String) : Yaml → Option (List (String × Yaml))
  | .mapping entries => do
      let named ← entries.mapM fun (key, value) => key.text?.map fun name => (name, value)
      Record.select? known named
  | .scalar "" true => some []
  | _ => none

def dialect : Dialect Yaml :=
  { text?, flag?, items?, choice? := text?, fields? }

end Yaml

end ClassShrink
