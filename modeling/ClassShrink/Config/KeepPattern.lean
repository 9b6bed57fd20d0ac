import ClassShrink.Text.Blank
import ClassShrink.Text.Search

/-! # Keep patterns

Which methods of which classes are kept by name, and the one-line form of such a
pattern: a class, and after a colon the methods, divided by commas. -/

namespace ClassShrink

/-- Keep the named methods on classes whose name ends with the suffix. -/
structure KeepPattern where
  suffix : String
  methods : List String := []
deriving DecidableEq, Repr

namespace KeepPattern

def divide (rule : List Char) : List Char × List Char :=
  (Text.cutAtFirst ':' rule).getD (rule, [])

def listedItems (characters : List Char) : List (List Char) :=
  ((Text.pieces ',' characters).map Text.trimBlanks).filter fun item => !item.isEmpty

def parse? (rule : String) : Option KeepPattern :=
  let (suffix, methods) := divide rule.toList
  let suffix := Text.trimBlanks suffix
  if suffix.isEmpty then none
  else some
    { suffix := String.ofList suffix
      methods := (listedItems methods).map String.ofList }

def refusal (rule : String) : String :=
  s!"Invalid keep rule '{rule}': expected CLASS:method1,method2"

def render (pattern : KeepPattern) : String :=
  pattern.suffix ++ ":" ++ ",".intercalate pattern.methods

end KeepPattern

end ClassShrink
