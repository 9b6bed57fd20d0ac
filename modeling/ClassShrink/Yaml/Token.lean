import ClassShrink.Text.CodePoint
import ClassShrink.Yaml.Scalar
import ClassShrink.Yaml.Value

/-! # Tokens of a YAML text

The scanner goes over the lines, and over the characters of each line. In block
style the columns decide where collections begin and end, so the tokens include
marks for that. A key is recognised only at the colon after it; its marks then
go in front of what was read since.

Anchors, aliases, tags and block scalars are not supported, and of the
directives only that of the version. -/

namespace ClassShrink.Yaml

inductive Token where
  | version
  | documentStart
  | documentEnd
  | blockSequence
  | blockMapping
  | blockEnd
  | entry
  | key
  | value
  | openSequence
  | closeSequence
  | openMapping
  | closeMapping
  | comma
  | scalar (text : String) (plain : Bool)
deriving DecidableEq, Repr

namespace Token

/-! ## State -/

/-- Something that a colon after it makes a key: where it begins, and how many
tokens come before it. It is required to be a key if it begins in the column of
the innermost block collection. -/
structure Candidate where
  position : Nat
  line : Nat
  column : Nat
  offset : Nat
  required : Bool
deriving DecidableEq, Repr

inductive Mode where
  | between
  | comment
  | directive (characters : List Char)
  | plain (scalar : Scalar)
  | single (scalar : Scalar)
  /-- A quote has been read that ends the scalar unless another follows. -/
  | singleQuote (scalar : Scalar)
  | double (scalar : Scalar)
  | escape (scalar : Scalar)
  | code (scalar : Scalar) (remaining total : Nat)
deriving DecidableEq, Repr

structure Scan where
  mode : Mode := .between
  tokens : List Token := []
  count : Nat := 0
  line : Nat := 0
  column : Nat := 0
  offset : Nat := 0
  /-- The columns of the open block collections, innermost first. -/
  indents : List Nat := []
  candidate : Option Candidate := none
  /-- The candidates outside of each open bracket, innermost first. -/
  outer : List (Option Candidate) := []
  keyAllowed : Bool := true
deriving DecidableEq, Repr

namespace Scan

def inFlow (scan : Scan) : Bool :=
  !scan.outer.isEmpty

def leastColumn (scan : Scan) : Nat :=
  match scan.indents with
  | [] => 0
  | indent :: _ => indent + 1

def emit (scan : Scan) (token : Token) : Scan :=
  { scan with tokens := token :: scan.tokens, count := scan.count + 1 }

def insertAt (scan : Scan) (position : Nat) (token : Token) : Scan :=
  let later := scan.count - position
  { scan with
    tokens := scan.tokens.take later ++ token :: scan.tokens.drop later
    count := scan.count + 1 }

def indentAt (scan : Scan) (position column : Nat) (token : Token) : Scan :=
  if !scan.inFlow && scan.leastColumn ≤ column then
    { scan.insertAt position token with indents := column :: scan.indents }
  else scan

def dedent (scan : Scan) (column? : Option Nat) : Scan :=
  if scan.inFlow then scan
  else
    let stays (indent : Nat) : Bool :=
      match column? with
      | some column => indent ≤ column
      | none => false
    let closed := scan.indents.takeWhile fun indent => !stays indent
    { scan with
      indents := scan.indents.drop closed.length
      tokens := closed.map (fun _ => .blockEnd) ++ scan.tokens
      count := scan.count + closed.length }

def dropCandidate? (scan : Scan) : Option Scan :=
  if scan.candidate.any (·.required) then none else some { scan with candidate := none }

def noteCandidate? (scan : Scan) : Option Scan :=
  if scan.keyAllowed then
    scan.dropCandidate?.map fun scan =>
      { scan with
        candidate := some
          { position := scan.count
            line := scan.line
            column := scan.column
            offset := scan.offset
            required := !scan.inFlow && scan.indents.head? = some scan.column } }
  else some scan

/-- A key stands on one line and is at most 1024 bytes long. -/
def key? (scan : Scan) : Option Candidate :=
  scan.candidate.filter fun candidate =>
    candidate.line = scan.line && scan.offset ≤ candidate.offset + 1024

/-! ## Indicators -/

def openBracket? (scan : Scan) (token : Token) : Option Scan :=
  scan.noteCandidate?.map fun scan =>
    { scan.emit token with
      outer := scan.candidate :: scan.outer
      candidate := none
      keyAllowed := true }

def closeBracket? (scan : Scan) (token : Token) : Option Scan :=
  scan.dropCandidate?.map fun scan =>
    { scan.emit token with
      candidate := scan.outer.head?.join
      outer := scan.outer.drop 1
      keyAllowed := false }

def comma? (scan : Scan) : Option Scan :=
  scan.dropCandidate?.map fun scan => { scan.emit .comma with keyAllowed := true }

def entry? (scan : Scan) : Option Scan :=
  if scan.inFlow || scan.keyAllowed then
    (scan.indentAt scan.count scan.column .blockSequence).dropCandidate?.map fun scan =>
      { scan.emit .entry with keyAllowed := true }
  else none

def announce? (scan : Scan) : Option Scan :=
  if scan.inFlow || scan.keyAllowed then
    (scan.indentAt scan.count scan.column .blockMapping).dropCandidate?.map fun scan =>
      { scan.emit .key with keyAllowed := !scan.inFlow }
  else none

/-- A colon, which makes a key of what was read before it on its line. -/
def value? (scan : Scan) : Option Scan :=
  match scan.key? with
  | some candidate =>
      let scan := scan.insertAt candidate.position .key
      let scan := scan.indentAt candidate.position candidate.column .blockMapping
      some { scan.emit .value with candidate := none, keyAllowed := false }
  | none =>
      if scan.inFlow || scan.keyAllowed then
        (scan.indentAt scan.count scan.column .blockMapping).dropCandidate?.map fun scan =>
          { scan.emit .value with keyAllowed := !scan.inFlow }
      else none

/-! ## Directives -/

def versionNumber? (characters : List Char) : Option (Nat × List Char) :=
  let digits := characters.takeWhile Char.isDigit
  if digits.isEmpty ∨ 9 < digits.length then none
  else
    some (digits.foldl (fun total digit => total * 10 + (digit.toNat - '0'.toNat)) 0,
      characters.drop digits.length)

def isBlank (character : Char) : Bool :=
  character == ' ' || character == '\t'

def endsWord (next : Option Char) : Bool :=
  next.all isBlank

def isVersion : List Char → Bool
  | 'Y' :: 'A' :: 'M' :: 'L' :: rest =>
      endsWord rest.head? &&
        match versionNumber? (rest.dropWhile isBlank) with
        | some (1, '.' :: rest) =>
            match versionNumber? rest with
            | some (minor, rest) =>
                (minor = 1 || minor = 2) && (rest.dropWhile isBlank).head?.all (· = '#')
            | none => false
        | _ => false
  | _ => false

example : isVersion ['Y', 'A', 'M', 'L', ' ', '1', '.', '2', ' ', '#'] = true := by decide

def directive? (scan : Scan) : Option Scan :=
  (scan.dedent none).dropCandidate?.map fun scan =>
    { scan with mode := .directive [], keyAllowed := false }

def finishDirective? (scan : Scan) (characters : List Char) : Option Scan :=
  if isVersion characters.reverse then some { scan.emit .version with mode := .between }
  else none

/-! ## Characters -/

def isFlowIndicator (character : Char) : Bool :=
  character == ',' || character == '[' || character == ']' || character == '\x7b' ||
    character == '\x7d'

/-- The characters that begin no scalar in any style that is supported. -/
def isReserved (character : Char) : Bool :=
  ['&', '*', '!', '|', '>', '%', '@', '\x60'].contains character

def beginScalar? (scan : Scan) (mode : Mode) : Option Scan :=
  scan.noteCandidate?.map fun scan => { scan with mode, keyAllowed := false }

def finishScalar (scan : Scan) (text : String) (plain : Bool) : Scan :=
  { scan.emit (.scalar text plain) with mode := .between }

def finishPlain (scan : Scan) (scalar : Scalar) : Scan :=
  let scan := scan.finishScalar scalar.openText true
  if scalar.atLineStart then { scan with keyAllowed := true } else scan

/-- Read a character between tokens. A tab is a blank only where no key may
begin, and a mark of the byte order only where a line begins. -/
def between? (scan : Scan) (character : Char) (next : Option Char) : Option Scan :=
  if character = ' ' then some scan
  else if character = '\ufeff' && scan.column = 0 then some scan
  else if character = '\t' then
    if scan.inFlow || !scan.keyAllowed then some scan else none
  else if character = '#' then some { scan with mode := .comment }
  else if character = '%' && scan.column = 0 then scan.directive?
  else
    let scan := scan.dedent (some scan.column)
    match character with
    | '[' => scan.openBracket? .openSequence
    | '\x7b' => scan.openBracket? .openMapping
    | ']' => scan.closeBracket? .closeSequence
    | '\x7d' => scan.closeBracket? .closeMapping
    | ',' => scan.comma?
    | '\'' => scan.beginScalar? (.single {})
    | '"' => scan.beginScalar? (.double {})
    | _ =>
        if character = '-' && endsWord next then scan.entry?
        else if character = '?' && (scan.inFlow || endsWord next) then scan.announce?
        else if character = ':' && (scan.inFlow || endsWord next) then scan.value?
        else if isReserved character then none
        else scan.beginScalar? (.plain (({} : Scalar).push character))

def afterPlain? (scan : Scan) (scalar : Scalar) (character : Char) (next : Option Char) :
    Option Scan :=
  (scan.finishPlain scalar).between? character next

def plain? (scan : Scan) (scalar : Scalar) (character : Char) (next : Option Char) :
    Option Scan :=
  if isBlank character then
    if character = '\t' && scalar.atLineStart && scan.column < scan.leastColumn then none
    else some { scan with mode := .plain (scalar.pushBlank character) }
  else if scalar.atLineStart && !scan.inFlow && scan.column < scan.leastColumn then
    scan.afterPlain? scalar character next
  else if character = '#' && (scalar.atLineStart || !scalar.blanks.isEmpty) then
    scan.afterPlain? scalar character next
  else if scan.inFlow && character = ':' &&
      next.any fun following => isFlowIndicator following || following == '?' then none
  else if (character = ':' && endsWord next) || (scan.inFlow && isFlowIndicator character) then
    scan.afterPlain? scalar character next
  else some { scan with mode := .plain (scalar.push character) }

def step? (scan : Scan) (character : Char) (next : Option Char) : Option Scan :=
  match scan.mode with
  | .between => scan.between? character next
  | .comment => some scan
  | .directive characters => some { scan with mode := .directive (character :: characters) }
  | .plain reading => scan.plain? reading character next
  | .single reading =>
      if character = '\'' then some { scan with mode := .singleQuote reading }
      else if isBlank character then
        some { scan with mode := .single (reading.pushBlank character) }
      else some { scan with mode := .single (reading.push character) }
  | .singleQuote reading =>
      if character = '\'' then some { scan with mode := .single (reading.push character) }
      else (scan.finishScalar reading.closedText false).between? character next
  | .double reading =>
      if character = '"' then some (scan.finishScalar reading.closedText false)
      else if character = '\\' then some { scan with mode := .escape reading.close }
      else if isBlank character then
        some { scan with mode := .double (reading.pushBlank character) }
      else some { scan with mode := .double (reading.push character) }
  | .escape reading =>
      match codeLength? character with
      | some length => some { scan with mode := .code reading length 0 }
      | none => (escape? character).map fun meant =>
          { scan with mode := .double (reading.push meant) }
  | .code reading remaining total => do
      let digit ← Text.hexValue? character
      let total := total * 16 + digit
      if remaining ≤ 1 then
        let meant ← Text.ofCode? total
        some { scan with mode := .double (reading.push meant) }
      else some { scan with mode := .code reading (remaining - 1) total }

/-! ## Lines -/

def characters? (scan : Scan) : List Char → Option Scan
  | [] => some scan
  | character :: rest => do
      let scan ← scan.step? character rest.head?
      characters?
        { scan with column := scan.column + 1, offset := scan.offset + character.utf8Size } rest

def marker? : List Char → Option Token
  | '-' :: '-' :: '-' :: rest => if endsWord rest.head? then some .documentStart else none
  | '.' :: '.' :: '.' :: rest => if endsWord rest.head? then some .documentEnd else none
  | _ => none

def mark? (scan : Scan) (token : Token) : Option Scan :=
  let marked (scan : Scan) : Option Scan :=
    (scan.dedent none).dropCandidate?.map fun scan =>
      { scan.emit token with
        keyAllowed := false
        column := scan.column + 3
        offset := scan.offset + 3 }
  match scan.mode with
  | .between | .comment => marked scan
  | .plain reading => marked (scan.finishPlain reading)
  | _ => none

def line? (scan : Scan) (characters : List Char) : Option Scan :=
  match marker? characters with
  | some token => do
      let scan ← scan.mark? token
      scan.characters? (characters.drop 3)
  | none => scan.characters? characters

/-- Go on to the next line. Outside of brackets a key may begin there, but not
right after a directive, whose break is part of it. -/
def break? (scan : Scan) (lineBreak : Char) : Option Scan :=
  let next (scan : Scan) : Scan :=
    { scan with line := scan.line + 1, column := 0, offset := scan.offset + lineBreak.utf8Size }
  let between (scan : Scan) : Scan :=
    { scan with mode := .between, keyAllowed := scan.keyAllowed || !scan.inFlow }
  match scan.mode with
  | .between | .comment => some (next (between scan))
  | .directive characters => (scan.finishDirective? characters).map next
  | .plain reading => some (next { scan with mode := .plain (reading.pushBreak lineBreak) })
  | .single reading => some (next { scan with mode := .single (reading.pushBreak lineBreak) })
  | .singleQuote reading => some (next (between (scan.finishScalar reading.closedText false)))
  | .double reading => some (next { scan with mode := .double (reading.pushBreak lineBreak) })
  | .escape reading => some (next { scan with mode := .double reading.pushEscapedBreak })
  | .code _ _ _ => none

def lines? (scan : Scan) : List (List Char × Option Char) → Option Scan
  | [] => some scan
  | (line, lineBreak?) :: rest => do
      let scan ← scan.line? line
      let scan ←
        match lineBreak? with
        | some lineBreak => scan.break? lineBreak
        | none => some scan
      scan.lines? rest

def finish? (scan : Scan) : Option (List Token) :=
  let finished (scan : Scan) : Option (List Token) :=
    (scan.dedent none).dropCandidate?.map fun scan => scan.tokens.reverse
  match scan.mode with
  | .between | .comment => finished scan
  | .directive characters => (scan.finishDirective? characters).bind finished
  | .plain reading => finished (scan.finishPlain reading)
  | .singleQuote reading => finished (scan.finishScalar reading.closedText false)
  | _ => none

end Scan

/-! ## Texts -/

def isPrintable (character : Char) : Bool :=
  let code := character.toNat
  character == '\t' || character == '\n' || character == '\r' ||
    (0x20 ≤ code && code ≤ 0x7E) || code == 0x85 || (0xA0 ≤ code && code ≤ 0xFFFD) ||
    0x10000 ≤ code

def joinBreaks : List Char → List Char
  | '\r' :: '\n' :: rest => '\n' :: joinBreaks rest
  | character :: rest =>
      (if character = '\r' ∨ character = '\u0085' then '\n' else character) :: joinBreaks rest
  | [] => []

def isBreak (character : Char) : Bool :=
  character == '\n' || character == '\u2028' || character == '\u2029'

def lines : List Char → List (List Char × Option Char)
  | [] => [([], none)]
  | character :: rest =>
      if isBreak character then ([], some character) :: lines rest
      else
        match lines rest with
        | [] => [([character], none)]
        | (first, lineBreak?) :: others => (character :: first, lineBreak?) :: others

example : lines ['a', '\n', 'b', '\u2028'] =
    [(['a'], some '\n'), (['b'], some '\u2028'), ([], none)] := by
  decide

def scan? (text : String) : Option (List Token) := do
  let characters := text.toList
  if characters.all isPrintable then
    let scan ← ({} : Scan).lines? (lines (joinBreaks characters))
    scan.finish?
  else none

end Token

end ClassShrink.Yaml
