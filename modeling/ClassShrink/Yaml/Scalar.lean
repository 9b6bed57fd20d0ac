/-! # Scalars over several lines

A scalar may go on over a line break. The break and the blanks around it then
stand for one space, and each further break for itself. Only a line feed is
replaced by a space; a separator of lines or paragraphs always stands for
itself. -/

namespace ClassShrink.Yaml

/-- A scalar being read, its characters last first. `blanks` are those since the
last character, which count only if another follows on the same line. -/
structure Scalar where
  characters : List Char := []
  blanks : List Char := []
  breaks : List Char := []
  /-- Whether the first of them was escaped, and so does not count. -/
  escapedBreak : Bool := false
deriving DecidableEq, Repr

namespace Scalar

def atLineStart (scalar : Scalar) : Bool :=
  scalar.escapedBreak || !scalar.breaks.isEmpty

def gap (scalar : Scalar) : List Char :=
  if scalar.escapedBreak then scalar.breaks
  else if scalar.breaks.isEmpty then scalar.blanks
  else if scalar.breaks = ['\n'] then [' ']
  else if scalar.breaks.getLast? = some '\n' then scalar.breaks.dropLast
  else scalar.breaks

def close (scalar : Scalar) : Scalar :=
  { characters := scalar.gap ++ scalar.characters }

def push (scalar : Scalar) (character : Char) : Scalar :=
  { characters := character :: scalar.close.characters }

def pushBlank (scalar : Scalar) (blank : Char) : Scalar :=
  if scalar.atLineStart then scalar else { scalar with blanks := blank :: scalar.blanks }

def pushBreak (scalar : Scalar) (lineBreak : Char) : Scalar :=
  { scalar with blanks := [], breaks := lineBreak :: scalar.breaks }

/-- A break after a backslash, which only sets aside the blanks that follow. -/
def pushEscapedBreak (scalar : Scalar) : Scalar :=
  { scalar with escapedBreak := true }

def closedText (scalar : Scalar) : String :=
  String.ofList scalar.close.characters.reverse

def openText (scalar : Scalar) : String :=
  String.ofList scalar.characters.reverse

example : (((({} : Scalar).push 'a').pushBreak '\n').push 'b').openText = "a b" := rfl

example : ((((({} : Scalar).push 'a').pushBreak '\n').pushBreak '\n').push 'b').openText =
    "a\nb" := rfl

example : (((({} : Scalar).push 'a').pushBreak '\u2028').push 'b').openText = "a\u2028b" := rfl

end Scalar

/-! ## Escapes -/

def escape? : Char → Option Char
  | '0' => some '\x00'
  | 'a' => some '\x07'
  | 'b' => some '\x08'
  | 't' | '\t' => some '\t'
  | 'n' => some '\n'
  | 'v' => some '\x0b'
  | 'f' => some '\x0c'
  | 'r' => some '\r'
  | 'e' => some '\x1b'
  | ' ' => some ' '
  | '"' => some '"'
  | '/' => some '/'
  | '\\' => some '\\'
  | 'N' => some '\u0085'
  | '_' => some '\u00a0'
  | 'L' => some '\u2028'
  | 'P' => some '\u2029'
  | _ => none

def codeLength? : Char → Option Nat
  | 'x' => some 2
  | 'u' => some 4
  | 'U' => some 8
  | _ => none

end ClassShrink.Yaml
