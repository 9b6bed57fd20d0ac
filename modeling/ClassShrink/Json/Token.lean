import ClassShrink.Json.Value
import ClassShrink.Text.CodePoint

/-! # Tokens of a JSON text

The scanner goes over the characters once. Its state says what it is in the
middle of: nothing, a bare word, or a quoted text. -/

namespace ClassShrink.Json

inductive Token where
  | beginObject
  | endObject
  | beginArray
  | endArray
  | colon
  | comma
  | scalar (value : Json)
  | text (value : Option String)
deriving Repr

namespace Token

/-! ## Quoted texts

A `\u` escape gives one unit of sixteen bits. Two units make one character if
they are the halves of a surrogate pair; a half without its other half makes the
whole text unusable. -/

/-- A quoted text being read, its characters last first. `pending` is the first
half of a surrogate pair that waits for the second. -/
structure Quoted where
  characters : List Char := []
  pending : Option Nat := none
  sound : Bool := true

namespace Quoted

def dropPending (quoted : Quoted) : Quoted :=
  if quoted.pending.isSome then { quoted with pending := none, sound := false } else quoted

def push (quoted : Quoted) (character : Char) : Quoted :=
  let quoted := quoted.dropPending
  { quoted with characters := character :: quoted.characters }

def pushUnit (quoted : Quoted) (unit : Nat) : Quoted :=
  let isHigh := 0xD800 ≤ unit && unit < 0xDC00
  let isLow := 0xDC00 ≤ unit && unit < 0xE000
  match quoted.pending with
  | some high =>
      if isLow then
        let code := 0x10000 + (high - 0xD800) * 0x400 + (unit - 0xDC00)
        { quoted with
          characters := Char.ofNat code :: quoted.characters
          pending := none }
      else { quoted with pending := none, sound := false }
  | none =>
      if isHigh then { quoted with pending := some unit }
      else if isLow then { quoted with sound := false }
      else { quoted with characters := Char.ofNat unit :: quoted.characters }

def value (quoted : Quoted) : Option String :=
  let quoted := quoted.dropPending
  if quoted.sound then some (String.ofList quoted.characters.reverse) else none

end Quoted

/-! ## Scanning -/

inductive Mode where
  | between
  | word (characters : List Char)
  | quoted (content : Quoted)
  | escape (content : Quoted)
  | unit (content : Quoted) (remaining : Nat) (value : Nat)

structure Scan where
  mode : Mode := .between
  /-- The finished tokens, last first. -/
  tokens : List Token := []

def isSpace (character : Char) : Bool :=
  character == ' ' || character == '\t' || character == '\n' || character == '\r'

def isWordCharacter (character : Char) : Bool :=
  character.isAlphanum || character == '-' || character == '+' || character == '.'

def wordValue? (word : List Char) : Option Json :=
  if word = ['t', 'r', 'u', 'e'] then some (.bool true)
  else if word = ['f', 'a', 'l', 's', 'e'] then some (.bool false)
  else if word = ['n', 'u', 'l', 'l'] then some .null
  else
    (Numeral.ofChars? word).map fun numeral =>
      match numeral.value? with
      | some value => .number value
      | none => .unusable

def simpleEscape? : Char → Option Char
  | '"' => some '"'
  | '\\' => some '\\'
  | '/' => some '/'
  | 'b' => some '\x08'
  | 'f' => some '\x0c'
  | 'n' => some '\n'
  | 'r' => some '\r'
  | 't' => some '\t'
  | _ => none

def emit (scan : Scan) (token : Token) : Scan :=
  { mode := .between, tokens := token :: scan.tokens }

def begin? (scan : Scan) (character : Char) : Option Scan :=
  match character with
  | '\x7b' => some (emit scan .beginObject)
  | '\x7d' => some (emit scan .endObject)
  | '[' => some (emit scan .beginArray)
  | ']' => some (emit scan .endArray)
  | ':' => some (emit scan .colon)
  | ',' => some (emit scan .comma)
  | '"' => some { scan with mode := .quoted {} }
  | other =>
      if isSpace other then some { scan with mode := .between }
      else if isWordCharacter other then some { scan with mode := .word [other] }
      else none

def finishWord? (scan : Scan) (characters : List Char) : Option Scan :=
  (wordValue? characters.reverse).map fun value => emit scan (.scalar value)

def step? (scan : Scan) (character : Char) : Option Scan :=
  match scan.mode with
  | .between => begin? scan character
  | .word characters =>
      if isWordCharacter character then
        some { scan with mode := .word (character :: characters) }
      else do
        let scan ← finishWord? scan characters
        begin? scan character
  | .quoted content =>
      if character = '"' then some (emit scan (.text content.value))
      else if character = '\\' then some { scan with mode := .escape content }
      else if character.toNat < 0x20 then none
      else some { scan with mode := .quoted (content.push character) }
  | .escape content =>
      if character = 'u' then some { scan with mode := .unit content 4 0 }
      else (simpleEscape? character).map fun meant =>
        { scan with mode := .quoted (content.push meant) }
  | .unit content remaining value => do
      let digit ← Text.hexValue? character
      let value := value * 16 + digit
      if remaining ≤ 1 then some { scan with mode := .quoted (content.pushUnit value) }
      else some { scan with mode := .unit content (remaining - 1) value }

def scan? (text : String) : Option (List Token) := do
  let scan ← text.toList.foldlM step? {}
  match scan.mode with
  | .between => some scan.tokens.reverse
  | .word characters => (finishWord? scan characters).map (·.tokens.reverse)
  | _ => none

end Token

end ClassShrink.Json
