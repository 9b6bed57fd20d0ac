import ClassShrink.Config.Basic
import ClassShrink.Graph.View
import ClassShrink.Text.Search

/-! # Keep rules

A keep rule looks at one class of a graph and answers the symbols of the class
that must stay in any case, or why it cannot tell. -/

namespace ClassShrink

structure KeepRule where
  name : String
  keep : SymbolGraph → Nat → Except String (List Nat)
  note? : SymbolGraph → (classNode symbol : Nat) → Option String := fun _ _ _ => none

namespace KeepRule

/-! ## By name -/

/-- Whether a qualified method name has one of the names between a point and a
colon, anywhere in its text. -/
def namesMethod (methods : List String) (qualifiedName : String) : Bool :=
  methods.any fun method => Text.holds qualifiedName ("." ++ method ++ ":")

def namePattern (suffix : String) (methods : List String) : KeepRule :=
  { name := "keep " ++ suffix ++ " \x7b" ++ ", ".intercalate methods ++ "\x7d"
    keep := fun graph node =>
      .ok <|
        if Text.endsWith (graph.name node) suffix then
          (graph.methods node).filter fun method => namesMethod methods (graph.name method)
        else []
    note? := fun graph _ symbol => some ("Kept by name pattern: " ++ graph.name symbol) }

/-! ## By annotation -/

/-- Whether a tag carries a marker: it is the marker or ends with a point and
the marker, after an at sign at its start is left out. -/
def carriesMarker (marker tag : String) : Bool :=
  let tag :=
    match tag.toList with
    | '@' :: rest => String.ofList rest
    | _ => tag
  tag = marker || Text.endsWith tag ("." ++ marker)

def markedBy (marker : String) : KeepRule :=
  { name := "keep @" ++ marker
    keep := fun graph node =>
      .ok <| (node :: graph.members node).filter fun symbol =>
        (graph.annotations symbol).any (carriesMarker marker)
    note? := fun graph _ symbol =>
      some ("Kept by annotation @" ++ marker ++ ": " ++ graph.name symbol) }

/-! ## By entry point -/

/-- Whether a member is among the entries: as itself, or by an entry without a
colon that names all its overloads. -/
def isEntered (entries : List String) (qualifiedName : String) : Bool :=
  entries.contains qualifiedName ||
    entries.any fun entry =>
      !entry.toList.contains ':' && Text.beginsWith qualifiedName (entry ++ ":")

/-- Keep what is called from outside the program: classes by name, members by
qualified name, or all members with one name. -/
def entryPoints (entries : List String) : KeepRule :=
  { name := s!"entry points ({entries.eraseDups.length})"
    keep := fun graph node =>
      .ok <|
        (if entries.contains (graph.name node) then [node] else []) ++
          (graph.members node).filter fun member => isEntered entries (graph.name member)
    note? := fun graph node symbol =>
      if symbol = node then some ("Entry point class: " ++ graph.name symbol)
      else some ("Entry point: " ++ graph.name symbol) }

/-! ## With failures -/

def failing (name suffix message : String) : KeepRule :=
  { name
    keep := fun graph node =>
      if Text.endsWith (graph.name node) suffix then .error message else .ok [node] }

/-! ## From a configuration -/

def ofConfig (config : Config) : List KeepRule :=
  config.keep.map (fun pattern => namePattern pattern.suffix pattern.methods) ++
    config.keepAnnotations.map markedBy ++
    (if config.entryPoints.isEmpty then [] else [entryPoints config.entryPoints])

end KeepRule

end ClassShrink
