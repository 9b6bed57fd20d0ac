import ClassShrink.Ascending
import ClassShrink.Table
import ClassShrink.Text.Search

/-! # Listings by class

Removed symbols are listed by class. A removed class stands for its members as
well; a class that is only thinned is followed by the members it lost. -/

namespace ClassShrink.Listing

/-- Divide the qualified name of a member into its class and the rest, at the
last point before the first colon. A name without these is that of a class. -/
def splitMember? (name : String) : Option (String × String) := do
  let (qualified, descriptor) ← Text.cutAtFirst ':' name.toList
  let (owner, member) ← Text.cutAtLast '.' qualified
  some (String.ofList owner, String.ofList (member ++ ':' :: descriptor))

structure Grouping where
  whole : Table String (List String) := {}
  parts : Table String (List String) := {}
deriving DecidableEq, Repr

def Grouping.enter (grouping : Grouping) (name : String) : Grouping :=
  match splitMember? name with
  | some (owner, member) => { grouping with parts := grouping.parts.push owner member }
  | none => { grouping with whole := grouping.whole.insert name [] }

/-- The classes concerned, in ascending order, each with the members to list. A
class that is removed itself has none. -/
def byClass (removed : List String) : List (String × List String) :=
  let grouping := removed.foldl Grouping.enter {}
  let thinned := grouping.parts.filterKeys fun owner => !grouping.whole.contains owner
  (thinned.extend grouping.whole).entries.mergeSort fun left right => textLe left.1 right.1

end ClassShrink.Listing
