import ClassShrink.Text.Search
import ClassShrink.Toml.Number
import ClassShrink.Toml.Token

/-! # TOML documents

A document is a sequence of lines: headers of tables, and keys with values. -/

namespace ClassShrink.Toml

/-- Values within values and keys of many parts are refused from this depth on. -/
def depthLimit : Nat :=
  80

/-! ## Keys -/

inductive KeyPiece where
  | part (name : String)
  | point
deriving DecidableEq, Repr

def isBareCharacter (character : Char) : Bool :=
  character.isAlphanum || character == '_' || character == '-'

def wordPieces? (word : List Char) : Option (List KeyPiece) :=
  let parts := Text.pieces '.' word
  if parts.all fun part => part.all isBareCharacter then
    let pieces := parts.map fun part =>
      if part.isEmpty then [] else [KeyPiece.part (String.ofList part)]
    some (List.intercalate [.point] pieces)
  else none

def keyParts? : List KeyPiece → Option (List String)
  | [.part name] => some [name]
  | .part name :: .point :: rest => (keyParts? rest).map (name :: ·)
  | _ => none

def keyPieces? : List Token → Option (List KeyPiece × List Token)
  | .word word :: rest => do
      let pieces ← wordPieces? word
      let (more, rest) ← keyPieces? rest
      some (pieces ++ more, rest)
  | .text name :: rest => do
      let (more, rest) ← keyPieces? rest
      some (.part name :: more, rest)
  | rest => some ([], rest)

def key? (tokens : List Token) : Option (List String × List Token) := do
  let (pieces, rest) ← keyPieces? tokens
  let parts ← keyParts? pieces
  if parts.length < depthLimit then some (parts, rest) else none

/-! ## Values

Each call takes one from `fuel`. Between two calls at least one token is taken,
or else a value is begun, so twice the number of tokens is enough. `depth` counts
the arrays and inline tables around a value. -/

def wordValue? (word : List Char) : Option Toml :=
  if word = ['t', 'r', 'u', 'e'] then some (.flag true)
  else if word = ['f', 'a', 'l', 's', 'e'] then some (.flag false)
  else if isInteger word || isFloat word then some .number
  else if isMoment word then some .moment
  else none

def skipNewlines : List Token → List Token
  | .newline :: rest => skipNewlines rest
  | rest => rest

mutual

def value? : (fuel depth : Nat) → List Token → Option (Toml × List Token)
  | 0, _, _ => none
  | _ + 1, _, .text content :: rest => some (.text content, rest)
  | _ + 1, _, .longText content :: rest => some (.text content, rest)
  | _ + 1, _, .word word :: rest => (wordValue? word).map fun value => (value, rest)
  | fuel + 1, depth, .openBracket _ :: rest =>
      if depth + 1 < depthLimit then elements? fuel (depth + 1) [] (skipNewlines rest) else none
  | fuel + 1, depth, .openBrace :: rest =>
      if depth + 1 < depthLimit then
        match rest with
        | .closeBrace :: rest => some (.table .inline [], rest)
        | rest => pairs? fuel (depth + 1) [] rest
      else none
  | _ + 1, _, _ => none

/-- The items of an array after those already read, which are given last first.
Newlines may stand anywhere between them, and a comma after the last. -/
def elements? : (fuel depth : Nat) → List Toml → List Token → Option (Toml × List Token)
  | 0, _, _, _ => none
  | _ + 1, _, items, .closeBracket _ :: rest => some (.array items.reverse, rest)
  | fuel + 1, depth, items, tokens => do
      let (item, rest) ← value? fuel depth tokens
      match skipNewlines rest with
      | .comma :: rest => elements? fuel depth (item :: items) (skipNewlines rest)
      | .closeBracket _ :: rest => some (.array (item :: items).reverse, rest)
      | _ => none

def pairs? :
    (fuel depth : Nat) → List (String × Toml) → List Token → Option (Toml × List Token)
  | 0, _, _, _ => none
  | fuel + 1, depth, fields, tokens => do
      let (parts, rest) ← key? tokens
      match rest with
      | .equals :: rest =>
          let (value, rest) ← value? fuel depth rest
          let fields ← assign? parts.dropLast (parts.getLastD "") value .inline fields
          match rest with
          | .comma :: rest => pairs? fuel depth fields rest
          | .closeBrace :: rest => some (.table .inline fields, rest)
          | _ => none
      | _ => none

end

/-! ## Lines -/

/-- A document so far: its root, and the path of the header that holds. -/
structure Reading where
  root : List (String × Toml) := []
  header : List String := []

def Reading.open? (reading : Reading) (isArray : Bool) (parts : List String) : Option Reading :=
  let add := if isArray then addTable? else openTable?
  (add parts.dropLast (parts.getLastD "") reading.root).map fun root =>
    { root, header := parts }

def Reading.assign? (reading : Reading) (parts : List String) (value : Toml) : Option Reading :=
  (changeAt? false (fun form fields =>
    Toml.assign? parts.dropLast (parts.getLastD "") value form fields)
      reading.header .headed reading.root).map fun root => { reading with root }

def lines? : (fuel : Nat) → Reading → List Token → Option Reading
  | _, reading, [] => some reading
  | 0, _, _ => none
  | fuel + 1, reading, .newline :: rest => lines? fuel reading rest
  | fuel + 1, reading, tokens => do
      let (reading, rest) ←
        match tokens with
        | .openBracket _ :: .openBracket true :: rest => do
            let (parts, rest) ← key? rest
            match rest with
            | .closeBracket _ :: .closeBracket true :: rest =>
                (reading.open? true parts).map fun reading => (reading, rest)
            | _ => none
        | .openBracket _ :: rest => do
            let (parts, rest) ← key? rest
            match rest with
            | .closeBracket _ :: rest =>
                (reading.open? false parts).map fun reading => (reading, rest)
            | _ => none
        | tokens => do
            let (parts, rest) ← key? tokens
            match rest with
            | .equals :: rest =>
                let (value, rest) ← value? (2 * rest.length + 1) 0 rest
                (reading.assign? parts value).map fun reading => (reading, rest)
            | _ => none
      match rest with
      | [] => some reading
      | .newline :: rest => lines? fuel reading rest
      | _ => none

def parse? (source : String) : Option Toml := do
  let tokens ← Token.scan? source
  let reading ← lines? tokens.length {} tokens
  some (.table .headed reading.root)

end ClassShrink.Toml
