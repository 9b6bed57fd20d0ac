import ClassShrink.Text.Search

/-! # File trees

Files and directories by the parts of their paths. A path is relative to a home
directory unless it begins with a stroke, and each of its parts but the last must
be a directory. Writing makes or replaces a file and never makes a directory. -/

namespace ClassShrink

inductive FileError where
  | notFound
  | notDirectory
  | isDirectory
  | nameTooLong
  | zeroCharacter
deriving DecidableEq, Repr

def FileError.message : FileError → String
  | .notFound => "No such file or directory (os error 2)"
  | .notDirectory => "Not a directory (os error 20)"
  | .isDirectory => "Is a directory (os error 21)"
  | .nameTooLong => "File name too long (os error 36)"
  | .zeroCharacter => "file name contained an unexpected NUL byte"

/-- Files with their texts, and directories, each by the parts of its path. A
first part that is empty stands for the root of absolute paths. -/
structure FileTree where
  files : List (List String × String) := []
  directories : List (List String) := []
  home : List String := []
deriving DecidableEq, Repr

namespace FileTree

/-! ## Paths -/

def pathParts (path : String) : List String :=
  (Text.pieces '/' path.toList).map String.ofList

def pathText (parts : List String) : String :=
  "/".intercalate parts

/-- The parts of a path without empty parts and single points at its end, which
mean nothing there. The first part always stays. -/
def meantParts (path : String) : List String :=
  let parts := pathParts path
  let kept := parts.reverse.dropWhile fun part => part = "" || part = "."
  if kept.isEmpty then parts.take 1 else kept.reverse

def fileName? (path : String) : Option String :=
  (meantParts path).getLast?.filter fun name => name ≠ "" ∧ name ≠ "." ∧ name ≠ ".."

def parent (path : String) : String :=
  match (meantParts path).dropLast with
  | [] => ""
  | parts =>
      if parts.all (· = "") then "/" else pathText (meantParts (pathText parts))

def join (directory name : String) : String :=
  if directory = "" ∨ Text.endsWith directory "/" then directory ++ name
  else directory ++ "/" ++ name

def properBeginnings (parts : List String) : List (List String) :=
  (List.range parts.length).map (parts.take ·)

def ofFiles (files : List (String × String)) : FileTree :=
  let files := files.map fun (path, text) =>
    ((pathParts path).filter fun part => part ≠ "" ∧ part ≠ ".", text)
  { files, directories := [] :: files.flatMap fun (parts, _) => properBeginnings parts }

/-! ## Walking -/

inductive Place where
  | file (parts : List String) (text : String)
  | directory (parts : List String)
  | absent (parts : List String)
deriving DecidableEq, Repr

/-- The directory above a directory. The root lies in itself, and what lies above
the home directory of relative paths is known by nothing but its height. -/
def above (directory : List String) : List String :=
  if directory = [""] then directory
  else if directory.all (· = "..") then ".." :: directory
  else directory.dropLast

def longestName : Nat :=
  255

def longestPath : Nat :=
  4095

/-- What stands under a name in a directory. A name may also be empty or a
single point, for the directory itself, or two points, for the one above. -/
def enter (tree : FileTree) (directory : List String) (name : String) : Except FileError Place :=
  if name = "" ∨ name = "." then .ok (.directory directory)
  else if name = ".." then .ok (.directory (above directory))
  else if longestName < name.utf8ByteSize then .error .nameTooLong
  else
    let parts := directory ++ [name]
    if parts ∈ tree.directories then .ok (.directory parts)
    else
      match tree.files.lookup parts with
      | some text => .ok (.file parts text)
      | none => .ok (.absent parts)

def walk (tree : FileTree) (directory : List String) : List String → Except FileError Place
  | [] => .ok (.directory directory)
  | [name] => tree.enter directory name
  | name :: rest =>
      match tree.enter directory name with
      | .error error => .error error
      | .ok (.directory next) => tree.walk next rest
      | .ok (.file _ _) => .error .notDirectory
      | .ok (.absent _) => .error .notFound

/-- The directory that a path starts in, and the parts to go from there. There is
always a root, and nothing at the empty path. -/
def start (tree : FileTree) (path : String) : Except FileError (List String × List String) :=
  if '\x00' ∈ path.toList then .error .zeroCharacter
  else if longestPath < path.utf8ByteSize then .error .nameTooLong
  else
    match pathParts path with
    | [""] => .error .notFound
    | "" :: rest => .ok ([""], rest)
    | parts => .ok (tree.home, parts)

def locate (tree : FileTree) (path : String) : Except FileError Place :=
  match tree.start path with
  | .ok (directory, parts) => tree.walk directory parts
  | .error error => .error error

/-! ## Reading and writing -/

def contains (tree : FileTree) (path : String) : Bool :=
  match tree.locate path with
  | .ok (.file _ _) | .ok (.directory _) => true
  | .ok (.absent _) | .error _ => false

def read (tree : FileTree) (path : String) : Except FileError String :=
  match tree.locate path with
  | .ok (.file _ text) => .ok text
  | .ok (.directory _) => .error .isDirectory
  | .ok (.absent _) => .error .notFound
  | .error error => .error error

def put (tree : FileTree) (parts : List String) (text : String) : FileTree :=
  { tree with files := (tree.files.filter fun file => file.1 ≠ parts) ++ [(parts, text)] }

/-- Make or replace the file at a path. A path that ends with a stroke names a
directory, whether there is one or not. -/
def write (tree : FileTree) (path : String) (text : String) : Except FileError FileTree :=
  match tree.start path with
  | .error error => .error error
  | .ok (directory, parts) =>
      let named := (parts.reverse.dropWhile (· = "")).reverse
      if named.length < parts.length then
        match tree.walk directory named.dropLast with
        | .ok (.directory _) => .error .isDirectory
        | .ok (.file _ _) => .error .notDirectory
        | .ok (.absent _) => .error .notFound
        | .error error => .error error
      else
        match tree.walk directory parts with
        | .ok (.file parts _) | .ok (.absent parts) => .ok (tree.put parts text)
        | .ok (.directory _) => .error .isDirectory
        | .error error => .error error

def changedSince (tree earlier : FileTree) : List (String × String) :=
  (tree.files.filter fun (parts, text) => earlier.files.lookup parts ≠ some text).map
    fun (parts, text) => (pathText parts, text)

end FileTree

end ClassShrink
