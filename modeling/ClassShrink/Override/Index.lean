import ClassShrink.Ascending
import ClassShrink.Table

/-! # Override indexes

Which methods override which, seen from either side. A pair is recorded on both
sides when it is inserted; until the index is normalized, its lists have the order
of insertion and repetitions. -/

namespace ClassShrink

structure OverrideIndex where
  /-- What each method overrides. -/
  upward : Table Nat (List Nat) := {}
  /-- What overrides each method. -/
  downward : Table Nat (List Nat) := {}
deriving DecidableEq, Repr

namespace OverrideIndex

def insert (index : OverrideIndex) (overrider overridden : Nat) : OverrideIndex :=
  { upward := index.upward.push overrider overridden
    downward := index.downward.push overridden overrider }

def overrides (index : OverrideIndex) (method : Nat) : List Nat :=
  (index.upward.get? method).getD []

def overriddenBy (index : OverrideIndex) (method : Nat) : List Nat :=
  (index.downward.get? method).getD []

def size (index : OverrideIndex) : Nat :=
  (index.upward.entries.flatMap Prod.snd).length

def isEmpty (index : OverrideIndex) : Bool :=
  index.upward.entries.isEmpty

def normalize (index : OverrideIndex) : OverrideIndex :=
  { upward := index.upward.mapValues (ascending natLe)
    downward := index.downward.mapValues (ascending natLe) }

end OverrideIndex

end ClassShrink
