/-! # Dates and times of TOML

Dates, times of day, and both together with or without an offset. They are
checked for their form and range and not kept. -/

namespace ClassShrink.Toml

/-! ## Parts

Each reads something at the front and answers what follows it. -/

def isLeapYear (year : Nat) : Bool :=
  year % 4 = 0 && (year % 100 ≠ 0 || year % 400 = 0)

def daysInMonth (year month : Nat) : Nat :=
  if month = 2 then if isLeapYear year then 29 else 28
  else if month ∈ [4, 6, 9, 11] then 30
  else 31

def twoDigits? (least most : Nat) : List Char → Option (Nat × List Char)
  | tens :: units :: rest =>
      let value := (tens.toNat - '0'.toNat) * 10 + (units.toNat - '0'.toNat)
      if tens.isDigit && units.isDigit && least ≤ value && value ≤ most then some (value, rest)
      else none
  | _ => none

def sign? (sign : Char) : List Char → Option (List Char)
  | [] => none
  | head :: rest => if head = sign then some rest else none

def date? (characters : List Char) : Option (List Char) := do
  let (century, rest) ← twoDigits? 0 99 characters
  let (year, rest) ← twoDigits? 0 99 rest
  let rest ← sign? '-' rest
  let (month, rest) ← twoDigits? 1 12 rest
  let rest ← sign? '-' rest
  let (_, rest) ← twoDigits? 1 (daysInMonth (century * 100 + year) month) rest
  some rest

/-- A time of day as in `07:32:00` or `07:32:00.5`. A minute may have a leap
second. -/
def time? (characters : List Char) : Option (List Char) := do
  let (_, rest) ← twoDigits? 0 23 characters
  let rest ← sign? ':' rest
  let (_, rest) ← twoDigits? 0 59 rest
  let rest ← sign? ':' rest
  let (_, rest) ← twoDigits? 0 60 rest
  match rest with
  | '.' :: fraction =>
      let digits := fraction.takeWhile Char.isDigit
      if digits.isEmpty then none else some (fraction.drop digits.length)
  | rest => some rest

def offset? : List Char → Option (List Char)
  | [] => none
  | head :: rest =>
      if head = 'Z' ∨ head = 'z' then some rest
      else if head = '+' ∨ head = '-' then do
        let (_, rest) ← twoDigits? 0 23 rest
        let rest ← sign? ':' rest
        let (_, rest) ← twoDigits? 0 59 rest
        some rest
      else none

/-! ## Whole values -/

def isDate (characters : List Char) : Bool :=
  date? characters = some []

def isTime (offset : Bool) (characters : List Char) : Bool :=
  match time? characters with
  | none => false
  | some [] => true
  | some rest => offset && offset? rest = some []

/-- A date, a time of day, or both with a letter or a blank between them. Only
both together may have an offset. -/
def isMoment (characters : List Char) : Bool :=
  match date? characters with
  | none => isTime false characters
  | some [] => true
  | some (between :: rest) =>
      (between = 'T' || between = 't' || between = ' ') && isTime true rest

example : isMoment "1979-05-27T00:32:00.999999-07:00".toList = true := by decide +kernel

example : isMoment "1979-02-29".toList = false := by decide +kernel

end ClassShrink.Toml
