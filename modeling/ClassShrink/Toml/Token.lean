import ClassShrink.Text.CodePoint
import ClassShrink.Toml.Date
import ClassShrink.Toml.Value

/-! # Tokens of a TOML text

The scanner goes over the characters once. A word is a run of letters, digits
and the signs that occur in bare keys, numbers, dates and points between keys. -/

namespace ClassShrink.Toml

/-- `glued` tells that nothing stands between a token and the one before it. A
long text is one in three quotes, which may go over several lines and is no
key. -/
inductive Token where
  | newline
  | equals
  | comma
  | openBracket (glued : Bool)
  | closeBracket (glued : Bool)
  | openBrace
  | closeBrace
  | word (characters : List Char)
  | text (value : String)
  | longText (value : String)
deriving DecidableEq, Repr

namespace Token

/-! ## State -/

/-- The quotes around a text: double ones allow escapes, and three of them
several lines. -/
structure Quotes where
  mark : Char
  long : Bool
deriving DecidableEq, Repr

/-- Characters of a text are kept last first. -/
inductive Mode where
  | between (glued : Bool)
  | comment
  | word (characters : List Char)
  | dated (characters : List Char)
  | opening (mark : Char) (count : Nat)
  /-- In a text, after a number of quotes that may belong to it or end it. -/
  | inside (quotes : Quotes) (characters : List Char) (marks : Nat)
  | escape (quotes : Quotes) (characters : List Char)
  | unit (quotes : Quotes) (characters : List Char) (remaining value : Nat)
  /-- After a backslash at the end of a line, which joins the line to what
  follows the blanks and line breaks; `broken` tells that one break was read. -/
  | joining (characters : List Char) (broken : Bool)
deriving DecidableEq, Repr

structure Scan where
  mode : Mode := .between false
  tokens : List Token := []
deriving DecidableEq, Repr

/-! ## Characters -/

def isWordCharacter (character : Char) : Bool :=
  character.isAlphanum || character == '_' || character == '-' || character == '+' ||
    character == '.' || character == ':'

def isControl (character : Char) : Bool :=
  (character.toNat < 0x20 && character != '\t') || character.toNat == 0x7F

def isBlank (character : Char) : Bool :=
  character == ' ' || character == '\t'

def escape? : Char → Option Char
  | 'b' => some '\x08'
  | 't' => some '\t'
  | 'n' => some '\n'
  | 'f' => some '\x0c'
  | 'r' => some '\r'
  | '"' => some '"'
  | '\\' => some '\\'
  | _ => none

/-! ## Steps -/

private def emitToken (scan : Scan) (token : Token) : Scan :=
  { mode := .between true, tokens := token :: scan.tokens }

def begin? (scan : Scan) (glued : Bool) (character : Char) : Option Scan :=
  match character with
  | ' ' | '\t' => some { scan with mode := .between false }
  | '\n' => some { mode := .between false, tokens := .newline :: scan.tokens }
  | '#' => some { scan with mode := .comment }
  | '=' => some (emitToken scan .equals)
  | ',' => some (emitToken scan .comma)
  | '[' => some (emitToken scan (.openBracket glued))
  | ']' => some (emitToken scan (.closeBracket glued))
  | '\x7b' => some (emitToken scan .openBrace)
  | '\x7d' => some (emitToken scan .closeBrace)
  | '"' | '\'' => some { scan with mode := .opening character 1 }
  | other =>
      if isWordCharacter other then some { scan with mode := .word [other] } else none

def finishWord (scan : Scan) (characters : List Char) : Scan :=
  emitToken scan (.word characters.reverse)

def finishText (scan : Scan) (quotes : Quotes) (characters : List Char) : Scan :=
  let value := String.ofList characters.reverse
  emitToken scan (if quotes.long then .longText value else .text value)

/-- End a long text whose last quotes are those that end it and perhaps one or
two before them. -/
def finishMarks (scan : Scan) (quotes : Quotes) (characters : List Char) (marks : Nat) : Scan :=
  finishText scan quotes (List.replicate (marks - 3) quotes.mark ++ characters)

def inside? (scan : Scan) (quotes : Quotes) (characters : List Char) (marks : Nat)
    (character : Char) : Option Scan :=
  if character = quotes.mark then
    if !quotes.long then some (finishText scan quotes characters)
    else if marks = 4 then some (finishMarks scan quotes characters 5)
    else some { scan with mode := .inside quotes characters (marks + 1) }
  else if 3 ≤ marks then begin? (finishMarks scan quotes characters marks) true character
  else
    let characters := List.replicate marks quotes.mark ++ characters
    if character = '\\' ∧ quotes.mark = '"' then
      some { scan with mode := .escape quotes characters }
    else if isControl character ∧ ¬(character = '\n' ∧ quotes.long) then none
    else some { scan with mode := .inside quotes (character :: characters) 0 }

def step? (scan : Scan) (character : Char) : Option Scan :=
  match scan.mode with
  | .between glued => begin? scan glued character
  | .comment =>
      if character = '\n' then some { mode := .between false, tokens := .newline :: scan.tokens }
      else if isControl character then none
      else some scan
  | .word characters =>
      if isWordCharacter character then
        some { scan with mode := .word (character :: characters) }
      else if character = ' ' ∧ isDate characters.reverse then
        some { scan with mode := .dated characters }
      else begin? (finishWord scan characters) true character
  | .dated characters =>
      if character.isDigit then some { scan with mode := .word (character :: ' ' :: characters) }
      else begin? (finishWord scan characters) false character
  | .opening mark 1 =>
      if character = mark then some { scan with mode := .opening mark 2 }
      else inside? scan ⟨mark, false⟩ [] 0 character
  | .opening mark 2 =>
      if character = mark then some { scan with mode := .opening mark 3 }
      else begin? (finishText scan ⟨mark, false⟩ []) true character
  | .opening mark _ =>
      -- A line break right after the opening quotes is left out.
      if character = '\n' then some { scan with mode := .inside ⟨mark, true⟩ [] 0 }
      else inside? scan ⟨mark, true⟩ [] 0 character
  | .inside quotes characters marks => inside? scan quotes characters marks character
  | .escape quotes characters =>
      if character = 'u' then some { scan with mode := .unit quotes characters 4 0 }
      else if character = 'U' then some { scan with mode := .unit quotes characters 8 0 }
      else if quotes.long ∧ (isBlank character ∨ character = '\n') then
        some { scan with mode := .joining characters (character == '\n') }
      else (escape? character).map fun meant =>
        { scan with mode := .inside quotes (meant :: characters) 0 }
  | .unit quotes characters remaining value => do
      let digit ← Text.hexValue? character
      let value := value * 16 + digit
      if remaining ≤ 1 then
        let meant ← Text.ofCode? value
        some { scan with mode := .inside quotes (meant :: characters) 0 }
      else some { scan with mode := .unit quotes characters (remaining - 1) value }
  | .joining characters broken =>
      if isBlank character ∨ character = '\n' then
        some { scan with mode := .joining characters (broken || character == '\n') }
      else if broken then inside? scan ⟨'"', true⟩ characters 0 character
      else none

/-! ## Texts -/

def joinBreaks : List Char → List Char
  | '\r' :: '\n' :: rest => '\n' :: joinBreaks rest
  | character :: rest => character :: joinBreaks rest
  | [] => []

def finish? (scan : Scan) : Option (List Token) :=
  match scan.mode with
  | .between _ | .comment => some scan.tokens.reverse
  | .word characters | .dated characters => some (finishWord scan characters).tokens.reverse
  | .opening mark 2 => some (finishText scan ⟨mark, false⟩ []).tokens.reverse
  | .inside quotes characters marks =>
      if 3 ≤ marks then some (finishMarks scan quotes characters marks).tokens.reverse else none
  | _ => none

def scan? (text : String) : Option (List Token) := do
  let scan ← (joinBreaks (Text.withoutMark text.toList)).foldlM step? {}
  finish? scan

end Token

end ClassShrink.Toml
