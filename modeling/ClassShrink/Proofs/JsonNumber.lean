import ClassShrink.Json.Layout
import ClassShrink.Json.Token
import Mathlib.Data.List.TakeWhile

/-! # Numbers as words

Every number of a document is a double or an integer in the range of 64-bit words,
and every such integer is written as a word that denotes it. -/

namespace ClassShrink.Json

namespace Number

def InRange : Number → Prop
  | .integer value => -0x8000000000000000 ≤ value ∧ value < 0x10000000000000000
  | .double _ => True

def ReadsBack (number : Number) : Prop :=
  Token.wordValue? (writeNumber number).toList = some (.number number)

end Number

namespace Numeral

/-! ## Digits -/

theorem gather_lt {significand : Nat} (fits : significand < 0x10000000000000000)
    (digits : List Char) : (gather significand digits).1 < 0x10000000000000000 := by
  induction digits generalizing significand with
  | nil => exact fits
  | cons digit rest induction =>
      rw [gather]
      split
      case isTrue nextFits => exact induction nextFits
      case isFalse => exact fits

theorem le_ofDigitChars (start : Nat) (digits : List Char) :
    start ≤ Nat.ofDigitChars 10 digits start := by
  rw [Nat.ofDigitChars_eq_ofDigitChars_zero]
  have scaled : 1 * start ≤ 10 ^ digits.length * start :=
    Nat.mul_le_mul_right start (Nat.one_le_pow _ _ (by decide))
  omega

theorem gather_eq {significand : Nat} {digits : List Char}
    (fits : Nat.ofDigitChars 10 digits significand < 0x10000000000000000) :
    gather significand digits = (Nat.ofDigitChars 10 digits significand, []) := by
  induction digits generalizing significand with
  | nil => rfl
  | cons digit rest induction =>
      have next : 10 * significand + (digit.toNat - '0'.toNat) =
          significand * 10 + digitValue digit := by
        rw [Nat.mul_comm]
        rfl
      rw [Nat.ofDigitChars_cons, next] at fits ⊢
      rw [gather]
      have nextFits : significand * 10 + digitValue digit < Nat.pow 2 64 :=
        Nat.lt_of_le_of_lt (le_ofDigitChars _ rest) fits
      rw [if_pos nextFits]
      exact induction fits

theorem gather_toDigits {value : Nat} (fits : value < 0x10000000000000000) :
    gather 0 (Nat.toDigits 10 value) = (value, []) := by
  rw [gather_eq] <;> rw [Nat.ofDigitChars_ten_toDigits]
  exact fits

theorem digits?_toDigits (value : Nat) :
    digits? (Nat.toDigits 10 value) = some (Nat.toDigits 10 value, []) := by
  have all : ∀ digit ∈ Nat.toDigits 10 value, digit.isDigit = true := fun digit member =>
    Nat.isDigit_of_mem_toDigits (by decide) (by decide) member
  have taken : (Nat.toDigits 10 value).takeWhile Char.isDigit = Nat.toDigits 10 value :=
    List.takeWhile_eq_self_iff.mpr all
  have left : (Nat.toDigits 10 value).dropWhile Char.isDigit = [] :=
    List.dropWhile_eq_nil_iff.mpr all
  simp only [digits?, taken, left]
  rw [if_neg (by simp [Nat.toDigits_ne_nil])]

theorem head?_toDigits {value : Nat} (positive : 0 < value) :
    (Nat.toDigits 10 value).head? ≠ some '0' := by
  induction value using Nat.strongRecOn with
  | ind value induction =>
      rw [Nat.toDigits_eq_if (by decide)]
      split
      case isTrue small =>
        intro isZero
        have zero := Nat.digitChar_eq_zero.mp (Option.some.inj isZero)
        omega
      case isFalse large =>
        cases first : (Nat.toDigits 10 (value / 10)).head? with
        | none => exact absurd (List.head?_eq_none_iff.mp first) Nat.toDigits_ne_nil
        | some digit =>
            rw [List.head?_append, first, Option.some_or, ← first]
            exact induction (value / 10) (by omega) (by omega)

theorem noSurplusZero (value : Nat) :
    ¬((Nat.toDigits 10 value).length ≠ 1 ∧ (Nat.toDigits 10 value).head? = some '0') := by
  intro surplus
  cases value with
  | zero => exact surplus.1 rfl
  | succ lower => exact head?_toDigits (Nat.succ_pos lower) surplus.2

/-! ## Numerals -/

def afterWhole? (negative : Bool) (whole : List Char) : List Char → Option Numeral
  | '.' :: rest => do
      let (fraction, rest) ← digits? rest
      let exponent ← exponent? rest
      some ⟨negative, whole, some fraction, exponent⟩
  | rest => do
      let exponent ← exponent? rest
      some ⟨negative, whole, none, exponent⟩

def unsigned? (negative : Bool) (characters : List Char) : Option Numeral := do
  let (whole, rest) ← digits? characters
  if whole.length ≠ 1 ∧ whole.head? = some '0' then none
  else afterWhole? negative whole rest

theorem ofChars?_minus (characters : List Char) :
    ofChars? ('-' :: characters) = unsigned? true characters := by
  unfold ofChars? unsigned?
  simp only
  cases digits? characters with
  | none => rfl
  | some found =>
      simp only [Option.bind_eq_bind, Option.bind_some]
      split <;> rfl

theorem ofChars?_of_ne_minus {characters : List Char} (plain : ∀ rest, characters ≠ '-' :: rest) :
    ofChars? characters = unsigned? false characters := by
  unfold ofChars? unsigned?
  split
  case h_1 negative rest divides =>
    split at divides
    case h_1 rest => exact absurd rfl (plain rest)
    case h_2 =>
      cases divides
      cases digits? characters with
      | none => rfl
      | some found =>
          simp only [Option.bind_eq_bind, Option.bind_some]
          split <;> rfl

theorem unsigned?_toDigits (negative : Bool) (value : Nat) :
    unsigned? negative (Nat.toDigits 10 value) =
      some ⟨negative, Nat.toDigits 10 value, none, none⟩ := by
  rw [unsigned?, digits?_toDigits]
  exact if_neg (noSurplusZero value)

theorem toDigits_ne_minus (value : Nat) (rest : List Char) :
    Nat.toDigits 10 value ≠ '-' :: rest := by
  intro equal
  have isDigit : '-'.isDigit = true :=
    Nat.isDigit_of_mem_toDigits (by decide) (by decide) (equal ▸ List.mem_cons_self)
  cases isDigit

/-! ## Values -/

theorem value?_toDigits {value : Nat} (fits : value < 0x10000000000000000) :
    value? ⟨false, Nat.toDigits 10 value, none, none⟩ = some (.integer value) := by
  simp [value?, gather_toDigits fits]

theorem value?_minus_toDigits {value : Nat} (positive : 0 < value)
    (fits : value ≤ 0x8000000000000000) :
    value? ⟨true, Nat.toDigits 10 value, none, none⟩ = some (.integer (-value)) := by
  have small : value < 0x10000000000000000 := by omega
  have nonzero : value ≠ 0 := by omega
  have isExact : (value != 0 && decide (value ≤ Nat.pow 2 63)) = true :=
    Bool.and_eq_true_iff.mpr ⟨bne_iff_ne.mpr nonzero, decide_eq_true fits⟩
  simp only [value?, gather_toDigits small, List.isEmpty_nil, Bool.true_and, Bool.not_true,
    Bool.false_or, isExact, if_true]

theorem inRange_of_double? {numeral : Numeral} {significand : Nat} {exponent : Int}
    {number : Number} (answers : double? numeral significand exponent = some number) :
    number.InRange := by
  rcases Option.map_eq_some_iff.mp answers with ⟨_, _, rfl⟩
  trivial

theorem inRange_of_value? {numeral : Numeral} {number : Number}
    (answers : numeral.value? = some number) : number.InRange := by
  have fits : (gather 0 numeral.whole).1 < 0x10000000000000000 :=
    gather_lt (by decide) numeral.whole
  simp only [value?] at answers
  split at answers
  · split at answers
    case isTrue exact =>
      cases answers
      cases negative : numeral.negative with
      | false =>
          change -0x8000000000000000 ≤ ((gather 0 numeral.whole).1 : Int) ∧ _ < 0x10000000000000000
          omega
      | true =>
          have small : (gather 0 numeral.whole).1 ≤ 0x8000000000000000 := by
            simp only [negative, Bool.and_eq_true, Bool.or_eq_true, Bool.not_true,
              decide_eq_true_eq, Bool.false_eq_true, false_or] at exact
            exact exact.2.2
          change -0x8000000000000000 ≤ (-(gather 0 numeral.whole).1 : Int) ∧ _ < 0x10000000000000000
          omega
    case isFalse => exact inRange_of_double? answers
  · exact inRange_of_double? answers

/-! ## Characters -/

theorem digits?_eq_some {characters digits rest : List Char}
    (answers : digits? characters = some (digits, rest)) :
    characters = digits ++ rest ∧ digits ≠ [] ∧ ∀ digit ∈ digits, digit.isDigit = true := by
  simp only [digits?] at answers
  split at answers
  · cases answers
  case isFalse nonempty =>
    cases answers
    refine ⟨(List.takeWhile_append_dropWhile).symm, ?_, fun _ => List.mem_takeWhile_imp⟩
    simpa using nonempty

theorem isWordCharacter_of_isDigit {character : Char} (isDigit : character.isDigit = true) :
    Token.isWordCharacter character = true := by
  simp [Token.isWordCharacter, Char.isAlphanum, isDigit]

theorem wordCharacters_of_digits {digits : List Char}
    (allDigits : ∀ digit ∈ digits, digit.isDigit = true) :
    ∀ character ∈ digits, Token.isWordCharacter character = true :=
  fun character member => isWordCharacter_of_isDigit (allDigits character member)

theorem wordCharacters_of_exponent? {characters : List Char} {exponent : Option (Bool × List Char)}
    (answers : exponent? characters = some exponent) :
    ∀ character ∈ characters, Token.isWordCharacter character = true := by
  cases characters with
  | nil => simp
  | cons mark rest =>
      simp only [exponent?] at answers
      split at answers
      case isTrue isMark =>
        split at answers
        case h_1 digits found =>
          rcases digits?_eq_some found with ⟨whole, _, allDigits⟩
          rw [List.append_nil] at whole
          rw [List.forall_mem_cons]
          constructor
          · rcases isMark with rfl | rfl <;> decide
          · have digitsAreWord := wordCharacters_of_digits allDigits
            split at whole <;> subst whole
            · exact List.forall_mem_cons.mpr ⟨by decide, digitsAreWord⟩
            · exact List.forall_mem_cons.mpr ⟨by decide, digitsAreWord⟩
            · exact digitsAreWord
        case h_2 => cases answers
      case isFalse => cases answers

theorem wordCharacters_of_unsigned? {negative : Bool} {characters : List Char} {numeral : Numeral}
    (answers : unsigned? negative characters = some numeral) :
    characters ≠ [] ∧ ∀ character ∈ characters, Token.isWordCharacter character = true := by
  simp only [unsigned?, Option.bind_eq_bind, Option.bind_eq_some_iff] at answers
  rcases answers with ⟨⟨whole, rest⟩, found, answers⟩
  rcases digits?_eq_some found with ⟨rfl, nonempty, allDigits⟩
  refine ⟨by simp [nonempty], ?_⟩
  rw [List.forall_mem_append]
  refine ⟨wordCharacters_of_digits allDigits, ?_⟩
  simp only at answers
  split at answers
  · cases answers
  · unfold afterWhole? at answers
    split at answers
    case h_1 rest =>
      simp only [Option.bind_eq_bind, Option.bind_eq_some_iff] at answers
      rcases answers with ⟨⟨fraction, rest⟩, found, exponent, read, _⟩
      rcases digits?_eq_some found with ⟨rfl, _, fractionDigits⟩
      rw [List.forall_mem_cons, List.forall_mem_append]
      exact ⟨by decide, wordCharacters_of_digits fractionDigits, wordCharacters_of_exponent? read⟩
    case h_2 rest _ =>
      simp only [Option.bind_eq_bind, Option.bind_eq_some_iff] at answers
      rcases answers with ⟨exponent, read, _⟩
      exact wordCharacters_of_exponent? read

theorem wordCharacters_of_ofChars? {characters : List Char} {numeral : Numeral}
    (answers : ofChars? characters = some numeral) :
    characters ≠ [] ∧ ∀ character ∈ characters, Token.isWordCharacter character = true := by
  cases characters with
  | nil => cases answers
  | cons first rest =>
      refine ⟨List.cons_ne_nil _ _, ?_⟩
      by_cases isMinus : first = '-'
      · subst isMinus
        rw [ofChars?_minus] at answers
        exact List.forall_mem_cons.mpr ⟨by decide, (wordCharacters_of_unsigned? answers).2⟩
      · rw [ofChars?_of_ne_minus (by simp [isMinus])] at answers
        exact (wordCharacters_of_unsigned? answers).2

end Numeral

/-! ## Words -/

theorem Token.wordCharacters_of_wordValue? {word : List Char} {value : Json}
    (answers : wordValue? word = some value) :
    word ≠ [] ∧ ∀ character ∈ word, isWordCharacter character = true := by
  unfold wordValue? at answers
  split at answers
  case isTrue isTrue =>
    subst isTrue
    exact ⟨nofun, List.all_eq_true.mp rfl⟩
  split at answers
  case isTrue isFalse =>
    subst isFalse
    exact ⟨nofun, List.all_eq_true.mp rfl⟩
  split at answers
  case isTrue isNull =>
    subst isNull
    exact ⟨nofun, List.all_eq_true.mp rfl⟩
  case isFalse =>
    rcases Option.map_eq_some_iff.mp answers with ⟨numeral, read, _⟩
    exact Numeral.wordCharacters_of_ofChars? read

theorem Token.inRange_of_wordValue? {word : List Char} {number : Number}
    (answers : wordValue? word = some (.number number)) : number.InRange := by
  unfold wordValue? at answers
  split at answers
  · cases answers
  split at answers
  · cases answers
  split at answers
  · cases answers
  · rcases Option.map_eq_some_iff.mp answers with ⟨numeral, _, denotes⟩
    split at denotes
    case h_1 value found =>
      cases denotes
      exact Numeral.inRange_of_value? found
    case h_2 => cases denotes

theorem Token.wordValue?_numeral {word : List Char} {numeral : Numeral} {number : Number}
    (read : Numeral.ofChars? word = some numeral) (denotes : numeral.value? = some number) :
    wordValue? word = some (.number number) := by
  have other {literal : List Char} (refused : Numeral.ofChars? literal = none) :
      word ≠ literal := by
    intro same
    rw [same, refused] at read
    cases read
  rw [wordValue?, if_neg (other (by decide)), if_neg (other (by decide)),
    if_neg (other (by decide)), read, Option.map_some, denotes]

theorem Number.readsBack_integer {value : Int} (inRange : InRange (.integer value)) :
    ReadsBack (.integer value) := by
  rcases inRange with ⟨least, most⟩
  cases value with
  | ofNat magnitude =>
      have written : (writeNumber (.integer (.ofNat magnitude))).toList =
          Nat.toDigits 10 magnitude := Nat.toList_repr
      have fits : magnitude < 0x10000000000000000 := by
        rw [Int.ofNat_eq_natCast] at most
        omega
      rw [ReadsBack, written]
      apply Token.wordValue?_numeral _ (Numeral.value?_toDigits fits)
      rw [Numeral.ofChars?_of_ne_minus (Numeral.toDigits_ne_minus magnitude)]
      exact Numeral.unsigned?_toDigits false magnitude
  | negSucc lower =>
      have written : (writeNumber (.integer (.negSucc lower))).toList =
          '-' :: Nat.toDigits 10 (lower + 1) := by
        rw [← Nat.toList_repr]
        exact String.toList_append
      have fits : lower + 1 ≤ 0x8000000000000000 := by omega
      rw [ReadsBack, written]
      apply Token.wordValue?_numeral _ (Numeral.value?_minus_toDigits (Nat.succ_pos lower) fits)
      rw [Numeral.ofChars?_minus]
      exact Numeral.unsigned?_toDigits true (lower + 1)

end ClassShrink.Json
