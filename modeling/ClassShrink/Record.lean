/-! # Reading records

A record is written as named fields, and in some formats also as a bare list of
its values. A `Dialect` tells how one format presents texts, flags, lists and
records; what a record means is then read once for all formats. -/

namespace ClassShrink

/-- How the values of one format are taken apart. `fields?` answers the values
of the known fields of a record by name, and nothing if the value is not a
record or gives a known field twice. -/
structure Dialect (α : Type) where
  text? : α → Option String
  flag? : α → Option Bool
  items? : α → Option (List α)
  choice? : α → Option String
  fields? : List String → α → Option (List (String × α))

namespace Record

variable {α β : Type}

def select? (known : List String) (entries : List (String × α)) : Option (List (String × α)) :=
  let selected := entries.filter fun entry => known.contains entry.1
  if (selected.map Prod.fst).Nodup then some selected else none

example : select? ["a", "b"] [("b", 1), ("c", 2), ("c", 3)] = some [("b", 1)] := by decide

example : select? ["a", "b"] [("b", 1), ("b", 2)] = none := by decide

def required? (read : α → Option β) (name : String) (fields : List (String × α)) : Option β :=
  (fields.lookup name).bind read

def optional? (read : α → Option β) (absent : β) (name : String)
    (fields : List (String × α)) : Option β :=
  match fields.lookup name with
  | none => some absent
  | some value => read value

end Record

namespace Dialect

variable {α : Type}

def list? {β : Type} (dialect : Dialect α) (read : α → Option β) (value : α) : Option (List β) :=
  (dialect.items? value).bind (·.mapM read)

def texts? (dialect : Dialect α) (value : α) : Option (List String) :=
  dialect.list? dialect.text? value

end Dialect

end ClassShrink
