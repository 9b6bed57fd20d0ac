import ClassShrink.Json.Document
import ClassShrink.Proofs.JsonNumber
import ClassShrink.Proofs.Settled

/-! # Documents read back

The text of a value divides into the tokens of the value, and these make up the
value again. This holds of every value without unusable parts whose numbers are
written as words that denote them. -/

namespace ClassShrink.Json

namespace Token

def Scanned (start : Scan) (text : String) (final : Scan) : Prop :=
  text.toList.foldlM step? start = some final

theorem Scanned.append {start middle final : Scan} {text more : String}
    (first : Scanned start text middle) (second : Scanned middle more final) :
    Scanned start (text ++ more) final := by
  rw [Scanned, String.toList_append, List.foldlM_append, first]
  exact second

/-! ## Words -/

/-- The scanner has read some tokens, up to a word that any character which cannot
go on with it will end. -/
inductive Ready (tokens : List Token) : Scan → Prop
  | between : Ready tokens ⟨.between, tokens⟩
  | word {characters : List Char} {earlier : List Token} :
      finishWord? ⟨.word characters, earlier⟩ characters = some ⟨.between, tokens⟩ →
        Ready tokens ⟨.word characters, earlier⟩

theorem Ready.step {tokens : List Token} {scan : Scan} (ready : Ready tokens scan)
    {character : Char} (ends : isWordCharacter character = false) :
    step? scan character = begin? ⟨.between, tokens⟩ character := by
  cases ready with
  | between => rfl
  | word finishes =>
      simp only [step?, ends, finishes]
      rfl

theorem begin?_word (tokens : List Token) {character : Char}
    (isWord : isWordCharacter character = true) :
    begin? ⟨.between, tokens⟩ character = some ⟨.word [character], tokens⟩ := by
  have notSpace : isSpace character = false := by
    cases isSpace : isSpace character with
    | false => rfl
    | true =>
        simp only [Token.isSpace, Bool.or_eq_true, beq_iff_eq] at isSpace
        rcases isSpace with ((rfl | rfl) | rfl) | rfl <;> cases isWord
  unfold begin?
  split
  case h_8 => simp [notSpace, isWord]
  all_goals cases isWord

theorem foldlM_word {tokens : List Token} {word read : List Char}
    (allWord : ∀ character ∈ word, isWordCharacter character = true) :
    word.foldlM step? ⟨.word read, tokens⟩ = some ⟨.word (word.reverse ++ read), tokens⟩ := by
  induction word generalizing read with
  | nil => rfl
  | cons character rest induction =>
      rw [List.forall_mem_cons] at allWord
      have step : step? ⟨.word read, tokens⟩ character =
          some ⟨.word (character :: read), tokens⟩ := by
        simp [step?, allWord.1]
      rw [List.foldlM_cons, step]
      simpa using induction allWord.2

theorem scan_word {tokens : List Token} {word : String} {value : Json}
    (denotes : wordValue? word.toList = some value) :
    ∃ scan, Scanned ⟨.between, tokens⟩ word scan ∧ Ready (.scalar value :: tokens) scan := by
  rcases wordCharacters_of_wordValue? denotes with ⟨nonempty, allWord⟩
  unfold Scanned
  cases characters : word.toList with
  | nil => exact absurd characters nonempty
  | cons first rest =>
      rw [characters] at denotes allWord
      rw [List.forall_mem_cons] at allWord
      refine ⟨⟨.word (rest.reverse ++ [first]), tokens⟩, ?_, .word ?_⟩
      · rw [List.foldlM_cons]
        change (begin? ⟨.between, tokens⟩ first).bind _ = _
        rw [begin?_word tokens allWord.1]
        exact foldlM_word allWord.2
      · simp [finishWord?, denotes, emit]

/-! ## Quoted texts -/

theorem hexValue?_hexDigit : ∀ value < 16, Text.hexValue? (hexDigit value) = some value := by
  decide

theorem pushUnit_control {character : Char} (isControl : character.toNat < 0x20)
    (read : List Char) :
    Quoted.pushUnit ⟨read, none, true⟩ character.toNat = ⟨character :: read, none, true⟩ := by
  have notHigh : ¬0xD800 ≤ character.toNat := by omega
  have notLow : ¬0xDC00 ≤ character.toNat := by omega
  simp [Quoted.pushUnit, notHigh, notLow]

theorem scan_escape (tokens : List Token) (read : List Char) (character : Char) :
    (escape character).foldlM step? ⟨.quoted ⟨read, none, true⟩, tokens⟩ =
      some ⟨.quoted ⟨character :: read, none, true⟩, tokens⟩ := by
  unfold escape
  split
  case isTrue isQuote => subst isQuote; rfl
  split
  case isTrue isBackslash => subst isBackslash; rfl
  split
  case isTrue isSpecial => subst isSpecial; rfl
  split
  case isTrue isSpecial => subst isSpecial; rfl
  split
  case isTrue isSpecial => subst isSpecial; rfl
  split
  case isTrue isSpecial => subst isSpecial; rfl
  split
  case isTrue isSpecial => subst isSpecial; rfl
  split
  case isTrue isControl =>
    -- The two zeros of `\u00xx` are read by computation, the digits by their values.
    have high := hexValue?_hexDigit (character.toNat / 16) (by omega)
    have low := hexValue?_hexDigit (character.toNat % 16) (by omega)
    have whole : character.toNat / 16 * 16 + character.toNat % 16 = character.toNat := by omega
    change [hexDigit (character.toNat / 16), hexDigit (character.toNat % 16)].foldlM step?
      ⟨.unit ⟨read, none, true⟩ 2 0, tokens⟩ = _
    simp [step?, high, low, whole, pushUnit_control isControl]
  case isFalse notQuote notBackslash _ _ _ _ _ notControl =>
    simp [step?, notQuote, notBackslash, notControl, Quoted.push, Quoted.dropPending]

theorem scan_characters (tokens : List Token) (read characters : List Char) :
    (characters.flatMap escape).foldlM step? ⟨.quoted ⟨read, none, true⟩, tokens⟩ =
      some ⟨.quoted ⟨characters.reverse ++ read, none, true⟩, tokens⟩ := by
  induction characters generalizing read with
  | nil => rfl
  | cons character rest induction =>
      rw [List.flatMap_cons, List.foldlM_append, scan_escape]
      change (rest.flatMap escape).foldlM step?
        ⟨.quoted ⟨character :: read, none, true⟩, tokens⟩ = _
      rw [induction, List.reverse_cons, List.append_assoc]
      rfl

theorem scan_quote (tokens : List Token) (text : String) :
    Scanned ⟨.between, tokens⟩ (quote text) ⟨.between, .text (some text) :: tokens⟩ := by
  have shape : (quote text).toList = '"' :: (text.toList.flatMap escape ++ ['"']) := by
    simp [quote]
  rw [Scanned, shape, List.foldlM_cons]
  change (text.toList.flatMap escape ++ ['"']).foldlM step? ⟨.quoted ⟨[], none, true⟩, tokens⟩ = _
  rw [List.foldlM_append, scan_characters]
  simp [step?, emit, Quoted.value, Quoted.dropPending]

/-! ## Blanks and punctuation -/

namespace Ready

variable {tokens : List Token} {scan : Scan} (ready : Ready tokens scan)

include ready

theorem scan_margin (level : Nat) : Scanned scan (margin level) ⟨.between, tokens⟩ := by
  have shape : (margin level).toList = '\n' :: List.replicate (2 * level) ' ' := by
    simp [margin]
  have blanks (count : Nat) : (List.replicate count ' ').foldlM step? ⟨.between, tokens⟩ =
      some ⟨.between, tokens⟩ := by
    induction count with
    | zero => rfl
    | succ count induction => exact induction
  rw [Scanned, shape, List.foldlM_cons, ready.step rfl]
  exact blanks (2 * level)

theorem scan_mark {mark : Char} {token : Token} {text : String} (isMark : text.toList = [mark])
    (ends : isWordCharacter mark = false)
    (begins : begin? ⟨.between, tokens⟩ mark = some (emit ⟨.between, tokens⟩ token)) :
    Scanned scan text ⟨.between, token :: tokens⟩ := by
  rw [Scanned, isMark, List.foldlM_cons, ready.step ends, begins]
  rfl

end Ready

end Token

/-! ## Values -/

mutual

def tokens : Json → List Token
  | .string value => [.text (some value)]
  | .array items => .beginArray :: itemTokens items ++ [.endArray]
  | .object fields => .beginObject :: fieldTokens fields ++ [.endObject]
  | other => [.scalar other]

def itemTokens : List Json → List Token
  | [] => []
  | [item] => item.tokens
  | item :: rest => item.tokens ++ .comma :: itemTokens rest

def fieldTokens : List (String × Json) → List Token
  | [] => []
  | [(key, value)] => .text (some key) :: .colon :: value.tokens
  | (key, value) :: rest =>
      .text (some key) :: .colon :: value.tokens ++ .comma :: fieldTokens rest

end

/-- Whether a value itself, apart from its parts, is written as what it is. -/
def Writable : Json → Prop
  | .number value => value.ReadsBack
  | .unusable => False
  | _ => True

open Token (Ready Scanned)

/-- The text of a value is scanned as its tokens, at any indentation and after any
tokens. -/
def Scans (value : Json) : Prop :=
  ∀ level read, ∃ scan, Scanned ⟨.between, read⟩ (prettyAt level value) scan ∧
    Ready (value.tokens.reverse ++ read) scan

theorem scan_items {items : List Json} (nonempty : items ≠ [])
    (scans : ∀ item ∈ items, item.Scans) (level : Nat) (read : List Token) :
    ∃ scan, Scanned ⟨.between, read⟩ (prettyItems level items) scan ∧
      Ready ((itemTokens items).reverse ++ read) scan := by
  induction items generalizing read with
  | nil => exact absurd rfl nonempty
  | cons item rest induction =>
      -- A number is not ended by its text, but by the comma or the margin after it.
      rw [List.forall_mem_cons] at scans
      rcases scans.1 level read with ⟨scan, scanned, ready⟩
      have first := (Ready.between.scan_margin level).append scanned
      cases rest with
      | nil => exact ⟨scan, first, ready⟩
      | cons next rest =>
          rcases induction (List.cons_ne_nil _ _) scans.2 (.comma :: (item.tokens.reverse ++ read))
            with ⟨final, others, finished⟩
          refine ⟨final, (first.append (ready.scan_mark rfl rfl rfl)).append others, ?_⟩
          simpa [itemTokens] using finished

theorem scan_fields {fields : List (String × Json)} (nonempty : fields ≠ [])
    (scans : ∀ field ∈ fields, field.2.Scans) (level : Nat) (read : List Token) :
    ∃ scan, Scanned ⟨.between, read⟩ (prettyFields level fields) scan ∧
      Ready ((fieldTokens fields).reverse ++ read) scan := by
  induction fields generalizing read with
  | nil => exact absurd rfl nonempty
  | cons field rest induction =>
      rcases field with ⟨key, value⟩
      rw [List.forall_mem_cons] at scans
      have colon (tokens : List Token) :
          Scanned ⟨.between, tokens⟩ ": " ⟨.between, .colon :: tokens⟩ := rfl
      rcases scans.1 level (.colon :: .text (some key) :: read) with ⟨scan, scanned, ready⟩
      have first := (((Ready.between.scan_margin level).append (Token.scan_quote read key)).append
        (colon _)).append scanned
      cases rest with
      | nil =>
          refine ⟨scan, first, ?_⟩
          simpa [fieldTokens] using ready
      | cons next rest =>
          rcases induction (List.cons_ne_nil _ _) scans.2
            (.comma :: (value.tokens.reverse ++ .colon :: .text (some key) :: read))
            with ⟨final, others, finished⟩
          refine ⟨final, (first.append (ready.scan_mark rfl rfl rfl)).append others, ?_⟩
          simpa [fieldTokens] using finished

theorem scans_of_writable {value : Json} (writable : value.Every Writable) : value.Scans := by
  induction value using partsInduction with
  | null =>
      intro level read
      simp only [prettyAt, tokens]
      exact Token.scan_word (by decide)
  | bool value =>
      intro level read
      simp only [prettyAt, tokens]
      cases value <;> exact Token.scan_word (by decide)
  | number value =>
      intro level read
      simp only [prettyAt, tokens]
      exact Token.scan_word (writable _ (.self _))
  | string value =>
      intro level read
      simp only [prettyAt, tokens]
      exact ⟨_, Token.scan_quote read value, .between⟩
  | unusable => exact absurd (writable _ (.self _)) id
  | array items induction =>
      rw [every_array] at writable
      intro level read
      have opens : Scanned ⟨.between, read⟩ "[" ⟨.between, .beginArray :: read⟩ := rfl
      cases items with
      | nil =>
          simp only [prettyAt, tokens, itemTokens]
          exact ⟨_, rfl, .between⟩
      | cons item rest =>
          rcases scan_items (List.cons_ne_nil item rest)
            (fun part member => induction part member (writable.2 part member)) (level + 1)
            (.beginArray :: read) with ⟨scan, scanned, ready⟩
          simp only [prettyAt, tokens]
          refine ⟨_, ((opens.append scanned).append (ready.scan_margin level)).append
            (Ready.between.scan_mark rfl rfl rfl), ?_⟩
          simpa using Ready.between
  | object fields induction =>
      rw [every_object] at writable
      intro level read
      have opens : Scanned ⟨.between, read⟩ "\x7b" ⟨.between, .beginObject :: read⟩ := rfl
      cases fields with
      | nil =>
          simp only [prettyAt, tokens, fieldTokens]
          exact ⟨_, rfl, .between⟩
      | cons field rest =>
          rcases scan_fields (List.cons_ne_nil field rest)
            (fun part member => induction part member (writable.2 part member)) (level + 1)
            (.beginObject :: read) with ⟨scan, scanned, ready⟩
          simp only [prettyAt, tokens]
          refine ⟨_, ((opens.append scanned).append (ready.scan_margin level)).append
            (Ready.between.scan_mark rfl rfl rfl), ?_⟩
          simpa using Ready.between

theorem scan?_pretty {value : Json} (writable : value.Every Writable) :
    Token.scan? value.pretty = some value.tokens := by
  rcases scans_of_writable writable 0 [] with ⟨scan, scanned, ready⟩
  rw [List.append_nil] at ready
  have folded : value.pretty.toList.foldlM Token.step? {} = some scan := scanned
  rw [Token.scan?, folded]
  cases ready with
  | between => exact congrArg some (List.reverse_reverse _)
  | word finishes =>
      simp only [Option.bind_eq_bind, Option.bind_some, finishes]
      exact congrArg some (List.reverse_reverse _)

/-! ## Reading -/

namespace Document

variable {expectation : Expectation} {frames : List Frame} {result : Option Json}

def AwaitsValue (expectation : Expectation) : Prop :=
  expectation = .value ∨ expectation = .valueOrEnd

def AwaitsKey (expectation : Expectation) : Prop :=
  expectation = .key ∨ expectation = .keyOrEnd

theorem step?_of_awaitsValue (awaits : AwaitsValue expectation) {token : Token}
    (noEnd : token ≠ .endArray) :
    step? ⟨frames, expectation, result⟩ token = beginValue ⟨frames, expectation, result⟩ token := by
  cases awaits with
  | inl isValue => subst isValue; rfl
  | inr isValue =>
      subst isValue
      cases token with
      | endArray => exact absurd rfl noEnd
      | _ => rfl

theorem step?_of_awaitsKey (awaits : AwaitsKey expectation) (key : Option String) :
    step? ⟨frames, expectation, result⟩ (.text key) =
      beginField ⟨frames, expectation, result⟩ (.text key) := by
  cases awaits with
  | inl isKey => subst isKey; rfl
  | inr isKey => subst isKey; rfl

theorem place_congr (other : Expectation) (value : Json) :
    place ⟨frames, expectation, result⟩ value = place ⟨frames, other, result⟩ value := by
  cases frames with
  | nil => rfl
  | cons frame rest => cases frame <;> rfl

/-- The tokens of a value put the value where it is due. -/
def Reads (value : Json) : Prop :=
  ∀ frames expectation result, AwaitsValue expectation →
    value.tokens.foldlM step? ⟨frames, expectation, result⟩ =
      place ⟨frames, expectation, result⟩ value

theorem read_items {items : List Json} (nonempty : items ≠ [])
    (reads : ∀ item ∈ items, Reads item) (awaits : AwaitsValue expectation) (before : List Json) :
    (itemTokens items).foldlM step? ⟨.array before :: frames, expectation, result⟩ =
      some ⟨.array (items.reverse ++ before) :: frames, .commaOrEnd, result⟩ := by
  induction items generalizing before expectation with
  | nil => exact absurd rfl nonempty
  | cons item rest induction =>
      rw [List.forall_mem_cons] at reads
      have first := reads.1 (.array before :: frames) expectation result awaits
      cases rest with
      | nil => exact first
      | cons next rest =>
          have shape : itemTokens (item :: next :: rest) =
              item.tokens ++ .comma :: itemTokens (next :: rest) := by
            simp [itemTokens]
          rw [shape, List.foldlM_append, first]
          change (itemTokens (next :: rest)).foldlM step?
            ⟨.array (item :: before) :: frames, .value, result⟩ = _
          rw [induction (List.cons_ne_nil _ _) reads.2 (.inl rfl)]
          simp

theorem read_field {value : Json} (reads : Reads value) (awaits : AwaitsKey expectation)
    (before : List (String × Json)) (key : String) (more : List Token) :
    (.text (some key) :: .colon :: (value.tokens ++ more)).foldlM step?
        ⟨.object before true :: frames, expectation, result⟩ =
      more.foldlM step? ⟨.object ((key, value) :: before) true :: frames, .commaOrEnd, result⟩ := by
  rw [List.foldlM_cons, step?_of_awaitsKey awaits]
  change (value.tokens ++ more).foldlM step?
    ⟨.field before true (some key) :: frames, .value, result⟩ = _
  rw [List.foldlM_append, reads _ _ _ (.inl rfl)]
  rfl

theorem read_fields {fields : List (String × Json)} (nonempty : fields ≠ [])
    (reads : ∀ field ∈ fields, Reads field.2) (awaits : AwaitsKey expectation)
    (before : List (String × Json)) :
    (fieldTokens fields).foldlM step? ⟨.object before true :: frames, expectation, result⟩ =
      some ⟨.object (fields.reverse ++ before) true :: frames, .commaOrEnd, result⟩ := by
  induction fields generalizing before expectation with
  | nil => exact absurd rfl nonempty
  | cons field rest induction =>
      rcases field with ⟨key, value⟩
      rw [List.forall_mem_cons] at reads
      cases rest with
      | nil =>
          have shape : fieldTokens [(key, value)] =
              .text (some key) :: .colon :: (value.tokens ++ []) := by
            simp [fieldTokens]
          rw [shape, read_field reads.1 awaits]
          rfl
      | cons next rest =>
          have shape : fieldTokens ((key, value) :: next :: rest) =
              .text (some key) :: .colon ::
                (value.tokens ++ .comma :: fieldTokens (next :: rest)) := by
            simp [fieldTokens]
          rw [shape, read_field reads.1 awaits]
          change (fieldTokens (next :: rest)).foldlM step?
            ⟨.object ((key, value) :: before) true :: frames, .key, result⟩ = _
          rw [induction (List.cons_ne_nil _ _) reads.2 (.inl rfl)]
          simp

theorem read_one (reading : Reading) (token : Token) :
    [token].foldlM step? reading = step? reading token := by
  rw [List.foldlM_cons]
  exact bind_pure (step? reading token)

theorem reads_scalar {value : Json} (shape : value.tokens = [.scalar value]) : Reads value := by
  intro frames expectation result awaits
  rw [shape, read_one]
  exact step?_of_awaitsValue awaits nofun

theorem reads_string (value : String) : Reads (.string value) := by
  intro frames expectation result awaits
  rw [tokens, read_one]
  exact step?_of_awaitsValue awaits nofun

theorem reads_array {items : List Json} (reads : ∀ item ∈ items, Reads item) :
    Reads (.array items) := by
  intro frames expectation result awaits
  have opens : step? ⟨frames, expectation, result⟩ .beginArray =
      some ⟨.array [] :: frames, .valueOrEnd, result⟩ :=
    step?_of_awaitsValue awaits nofun
  simp only [tokens, List.cons_append, List.foldlM_cons, opens]
  change (itemTokens items ++ [Token.endArray]).foldlM step?
    ⟨.array [] :: frames, .valueOrEnd, result⟩ = _
  cases items with
  | nil =>
      -- The end comes where a first item may come too.
      rw [itemTokens, List.nil_append, read_one]
      exact place_congr _ _
  | cons item rest =>
      rw [List.foldlM_append, read_items (List.cons_ne_nil _ _) reads (.inr rfl), List.append_nil]
      change [Token.endArray].foldlM step?
        ⟨.array (item :: rest).reverse :: frames, .commaOrEnd, result⟩ = _
      rw [read_one]
      simp only [step?, close, List.reverse_reverse]
      exact place_congr _ _

theorem reads_object {fields : List (String × Json)} (reads : ∀ field ∈ fields, Reads field.2) :
    Reads (.object fields) := by
  intro frames expectation result awaits
  have opens : step? ⟨frames, expectation, result⟩ .beginObject =
      some ⟨.object [] true :: frames, .keyOrEnd, result⟩ :=
    step?_of_awaitsValue awaits nofun
  simp only [tokens, List.cons_append, List.foldlM_cons, opens]
  change (fieldTokens fields ++ [Token.endObject]).foldlM step?
    ⟨.object [] true :: frames, .keyOrEnd, result⟩ = _
  cases fields with
  | nil =>
      rw [fieldTokens, List.nil_append, read_one]
      exact place_congr _ _
  | cons field rest =>
      rw [List.foldlM_append, read_fields (List.cons_ne_nil _ _) reads (.inr rfl), List.append_nil]
      change [Token.endObject].foldlM step?
        ⟨.object (field :: rest).reverse true :: frames, .commaOrEnd, result⟩ = _
      rw [read_one]
      simp only [step?, close, List.reverse_reverse]
      exact place_congr _ _

theorem reads_all (value : Json) : Reads value := by
  induction value using partsInduction with
  | null => exact reads_scalar (by simp only [tokens])
  | bool => exact reads_scalar (by simp only [tokens])
  | number => exact reads_scalar (by simp only [tokens])
  | string value => exact reads_string value
  | array items induction => exact reads_array induction
  | object fields induction => exact reads_object induction
  | unusable => exact reads_scalar (by simp only [tokens])

end Document

theorem parse?_pretty {value : Json} (writable : value.Every Writable) :
    parse? value.pretty = some value := by
  have read : value.tokens.foldlM Document.step? {} = some ⟨[], .nothing, some value⟩ :=
    Document.reads_all value [] .value none (.inl rfl)
  simp only [parse?, scan?_pretty writable, read, Option.bind_eq_bind, Option.bind_some]

end ClassShrink.Json
