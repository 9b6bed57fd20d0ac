import ClassShrink.Record

/-! # TOML values

The values that a configuration is written with. Numbers, dates and times are
checked for their form and not kept, since no configuration holds one. -/

namespace ClassShrink

namespace Toml

/-- How a table came about. A table that is only named on the way to another may
still get a header of its own; one made by dotted keys takes more dotted keys;
an inline table is complete. -/
inductive TableForm where
  | headed
  | implied
  | dotted
  | inline
deriving DecidableEq, Repr

end Toml

inductive Toml where
  | text (value : String)
  | flag (value : Bool)
  | number
  | moment
  | array (items : List Toml)
  | table (form : Toml.TableForm) (fields : List (String × Toml))
  /-- An array of tables, the newest first. -/
  | tables (elements : List (List (String × Toml)))
deriving Repr

namespace Toml

/-! ## Tables under construction -/

/-- Change the table at the end of a path of keys. Tables on the way are made
where they are missing. A value on the way is an obstacle, and so is, for dotted
keys, a table with a header. In an array of tables the newest is meant. -/
def changeAt? (dotted : Bool) (change : TableForm → List (String × Toml) →
    Option (List (String × Toml))) :
    List String → TableForm → List (String × Toml) → Option (List (String × Toml))
  | [], form, fields => change form fields
  | key :: path, _, fields =>
      match fields.lookup key with
      | none =>
          let form := if dotted then TableForm.dotted else .implied
          (changeAt? dotted change path form []).map fun inner =>
            fields ++ [(key, .table form inner)]
      | some (.table form inner) =>
          if form = .inline ∨ (dotted ∧ form = .headed) then none
          else (changeAt? dotted change path form inner).map fun inner =>
            fields.map fun field => if field.1 = key then (key, .table form inner) else field
      | some (.tables (newest :: older)) =>
          (changeAt? dotted change path .headed newest).map fun inner =>
            fields.map fun field =>
              if field.1 = key then (key, .tables (inner :: older)) else field
      | some _ => none

/-- Give a key a value. The key must be free, and a table made by dotted keys
takes no plain key, nor the other way round. -/
def assign? (path : List String) (key : String) (value : Toml) (form : TableForm)
    (fields : List (String × Toml)) : Option (List (String × Toml)) :=
  changeAt? true (fun form fields =>
    if path.isEmpty = decide (form = .dotted) then none
    else if (fields.lookup key).isSome then none
    else some (fields ++ [(key, value)])) path form fields

/-- Open the table of a header. It must be new, or named so far only on the way
to other tables. -/
def openTable? (path : List String) (key : String) (root : List (String × Toml)) :
    Option (List (String × Toml)) :=
  changeAt? false (fun _ fields =>
    match fields.lookup key with
    | none => some (fields ++ [(key, .table .headed [])])
    | some (.table .implied inner) =>
        some ((fields.filter fun field => field.1 ≠ key) ++ [(key, .table .headed inner)])
    | some _ => none) path .headed root

def addTable? (path : List String) (key : String) (root : List (String × Toml)) :
    Option (List (String × Toml)) :=
  changeAt? false (fun _ fields =>
    match fields.lookup key with
    | none => some (fields ++ [(key, .tables [[]])])
    | some (.tables elements) =>
        some (fields.map fun field =>
          if field.1 = key then (key, .tables ([] :: elements)) else field)
    | some _ => none) path .headed root

/-! ## Records -/

def text? : Toml → Option String
  | .text value => some value
  | _ => none

def flag? : Toml → Option Bool
  | .flag value => some value
  | _ => none

def items? : Toml → Option (List Toml)
  | .array items => some items
  | .tables elements => some (elements.reverse.map (.table .headed))
  | _ => none

/-- A choice is its name, or a table with that name as its only key and nothing
in it. -/
def choice? : Toml → Option String
  | .text value => some value
  | .table _ [(key, .table _ [])] => some key
  | .table _ [(key, .array [])] => some key
  | _ => none

/-- A record is a table, or an array of its values; surplus values are ignored.
A date or time counts as a record without any of the known fields. -/
def fields? (known : List String) (value : Toml) : Option (List (String × Toml)) :=
  match value with
  | .table _ fields => Record.select? known fields
  | .moment => some []
  | other => other.items?.map known.zip

def dialect : Dialect Toml :=
  { text?, flag?, items?, choice?, fields? }

end Toml

end ClassShrink
