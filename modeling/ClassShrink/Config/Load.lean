import ClassShrink.Config.Document
import ClassShrink.FileTree
import ClassShrink.Toml.Document
import ClassShrink.Yaml.Document

/-! # Configuration files

A configuration file is YAML or TOML, as the extension of its name tells; under
any other name either will do. Without a file of one's own, the first of a few
usual names in a directory is taken. -/

namespace ClassShrink

inductive ConfigError where
  | unreadable (path : String)
  | notYaml
  | notToml
  | neither
deriving DecidableEq, Repr

def ConfigError.message : ConfigError → String
  | .unreadable path => "Failed to read config file: " ++ path
  | .notYaml => "Failed to parse YAML config"
  | .notToml => "Failed to parse TOML config"
  | .neither => "Failed to parse config file"

namespace Config

/-- Anchors, aliases, tags and block scalars are not supported: a text with one of them
is refused like one that is not YAML at all. -/
def ofYaml? (text : String) : Option Config :=
  (Yaml.parse? text).bind (read? Yaml.dialect)

def ofToml? (text : String) : Option Config :=
  (Toml.parse? text).bind (read? Toml.dialect)

/-- What follows the last point of a path's file name. A point at the start of
the name does not count. -/
def extension? (path : String) : Option String :=
  (FileTree.fileName? path).bind fun name =>
    match Text.cutAtLast '.' name.toList with
    | none | some ([], _) => none
    | some (_, after) => some (String.ofList after)

def ofText (path text : String) : Except ConfigError Config :=
  let orElse (error : ConfigError) : Option Config → Except ConfigError Config
    | some config => .ok config
    | none => .error error
  match extension? path with
  | some "yml" | some "yaml" => orElse .notYaml (ofYaml? text)
  | some "toml" => orElse .notToml (ofToml? text)
  | _ => orElse .neither ((ofYaml? text).or (ofToml? text))

def load (tree : FileTree) (path : String) : Except ConfigError Config :=
  match tree.read path with
  | .ok text => ofText path text
  | .error _ => .error (.unreadable path)

def usualNames : List String :=
  [".deadsweep.yml", ".deadsweep.yaml", ".deadsweep.toml",
    "deadsweep.yml", "deadsweep.yaml", "deadsweep.toml"]

def loadUsual (tree : FileTree) (directory : String) : Except ConfigError Config :=
  let paths := usualNames.map (FileTree.join directory)
  match paths.find? tree.contains with
  | some path => load tree path
  | none => .ok {}

end Config

end ClassShrink
