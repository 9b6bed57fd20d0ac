/-! # Tables

Finite maps, as lists of entries in the order in which their keys came. -/

namespace ClassShrink

structure Table (κ ν : Type) where
  entries : List (κ × ν) := []
deriving DecidableEq, Repr

namespace Table

variable {κ ν : Type} [DecidableEq κ]

def get? (table : Table κ ν) (key : κ) : Option ν :=
  table.entries.lookup key

def contains (table : Table κ ν) (key : κ) : Bool :=
  (table.get? key).isSome

def setEntry (key : κ) (value : ν) : List (κ × ν) → List (κ × ν)
  | [] => [(key, value)]
  | entry :: rest =>
      if entry.1 = key then (key, value) :: rest else entry :: setEntry key value rest

def insert (table : Table κ ν) (key : κ) (value : ν) : Table κ ν :=
  ⟨setEntry key value table.entries⟩

def push (table : Table κ (List ν)) (key : κ) (value : ν) : Table κ (List ν) :=
  table.insert key ((table.get? key).getD [] ++ [value])

def mapValues (table : Table κ ν) (change : ν → ν) : Table κ ν :=
  ⟨table.entries.map fun entry => (entry.1, change entry.2)⟩

def filterKeys (table : Table κ ν) (keeps : κ → Bool) : Table κ ν :=
  ⟨table.entries.filter fun entry => keeps entry.1⟩

def extend (table other : Table κ ν) : Table κ ν :=
  other.entries.foldl (fun table entry => table.insert entry.1 entry.2) table

end Table

end ClassShrink
