import ClassShrink.Yaml.Token

/-! # YAML documents

A document is one node. Each kind of collection has its own marks, and nothing
between two marks is an empty scalar. -/

namespace ClassShrink.Yaml

def nodeFollows (ends : List Token) : List Token → Bool
  | [] => false
  | token :: _ => !ends.contains token

/-! ## Nodes

Each call takes one from `fuel`. A token is taken at least at every fourth call,
so four times the number of tokens is enough. -/

mutual

/-- A node, and what follows it. `block` allows block collections, and
`indentless` a sequence that stands no further in than its key. -/
def node? : (fuel : Nat) → (block indentless : Bool) → List Token → Option (Yaml × List Token)
  | 0, _, _, _ => none
  | _ + 1, _, _, .scalar text plain :: rest => some (.scalar text plain, rest)
  | fuel + 1, _, _, .openSequence :: rest => flowItems? fuel [] rest
  | fuel + 1, _, _, .openMapping :: rest => flowEntries? fuel [] rest
  | fuel + 1, true, _, .blockSequence :: rest => blockItems? fuel [] rest
  | fuel + 1, true, _, .blockMapping :: rest => blockEntries? fuel [] rest
  | fuel + 1, _, true, .entry :: rest => indentlessItems? fuel [] (.entry :: rest)
  | _ + 1, _, _, _ => none

def optionalNode? : (fuel : Nat) → (block indentless : Bool) → (ends : List Token) →
    List Token → Option (Yaml × List Token)
  | 0, _, _, _, _ => none
  | fuel + 1, block, indentless, ends, tokens =>
      if nodeFollows ends tokens then node? fuel block indentless tokens
      else some (absent, tokens)

def blockItems? : (fuel : Nat) → List Yaml → List Token → Option (Yaml × List Token)
  | fuel + 1, items, .entry :: rest => do
      let (item, rest) ← optionalNode? fuel true false [.entry, .blockEnd] rest
      blockItems? fuel (item :: items) rest
  | _ + 1, items, .blockEnd :: rest => some (.sequence items.reverse, rest)
  | _, _, _ => none

/-- The items of a sequence that stands no further in than its key. It ends
where no dash follows. -/
def indentlessItems? : (fuel : Nat) → List Yaml → List Token → Option (Yaml × List Token)
  | 0, _, _ => none
  | fuel + 1, items, .entry :: rest => do
      let (item, rest) ← optionalNode? fuel true false [.entry, .key, .value, .blockEnd] rest
      indentlessItems? fuel (item :: items) rest
  | _ + 1, items, rest => some (.sequence items.reverse, rest)

def blockEntries? : (fuel : Nat) → List (Yaml × Yaml) → List Token → Option (Yaml × List Token)
  | fuel + 1, entries, .key :: rest => do
      let (key, rest) ← optionalNode? fuel true true [.key, .value, .blockEnd] rest
      match rest with
      | .value :: rest =>
          let (value, rest) ← optionalNode? fuel true true [.key, .value, .blockEnd] rest
          blockEntries? fuel ((key, value) :: entries) rest
      | rest => blockEntries? fuel ((key, absent) :: entries) rest
  | _ + 1, entries, .blockEnd :: rest => some (.mapping entries.reverse, rest)
  | _, _, _ => none

/-- The items of a sequence in brackets. A single pair among them is a mapping of
its own, and a comma may follow the last item. A question mark without a key
stands for a pair together with the one mark after it. -/
def flowItems? : (fuel : Nat) → List Yaml → List Token → Option (Yaml × List Token)
  | 0, _, _ => none
  | _ + 1, items, .closeSequence :: rest => some (.sequence items.reverse, rest)
  | fuel + 1, items, .key :: rest => do
      let (key, rest) ←
        if nodeFollows [.value, .comma, .closeSequence] rest then node? fuel false false rest
        else some (absent, rest.drop 1)
      match rest with
      | .value :: rest =>
          let (value, rest) ← optionalNode? fuel false false [.comma, .closeSequence] rest
          flowItemsAfter? fuel (.mapping [(key, value)] :: items) rest
      | rest => flowItemsAfter? fuel (.mapping [(key, absent)] :: items) rest
  | fuel + 1, items, tokens => do
      let (item, rest) ← node? fuel false false tokens
      flowItemsAfter? fuel (item :: items) rest

def flowItemsAfter? : (fuel : Nat) → List Yaml → List Token → Option (Yaml × List Token)
  | fuel + 1, items, .comma :: rest => flowItems? fuel items rest
  | _ + 1, items, .closeSequence :: rest => some (.sequence items.reverse, rest)
  | _, _, _ => none

def flowEntries? : (fuel : Nat) → List (Yaml × Yaml) → List Token → Option (Yaml × List Token)
  | 0, _, _ => none
  | _ + 1, entries, .closeMapping :: rest => some (.mapping entries.reverse, rest)
  | fuel + 1, entries, .key :: rest => do
      let (key, rest) ← optionalNode? fuel false false [.value, .comma, .closeMapping] rest
      match rest with
      | .value :: rest =>
          let (value, rest) ← optionalNode? fuel false false [.comma, .closeMapping] rest
          flowEntriesAfter? fuel ((key, value) :: entries) rest
      | rest => flowEntriesAfter? fuel ((key, absent) :: entries) rest
  | fuel + 1, entries, tokens => do
      let (key, rest) ← node? fuel false false tokens
      flowEntriesAfter? fuel ((key, absent) :: entries) rest

def flowEntriesAfter? :
    (fuel : Nat) → List (Yaml × Yaml) → List Token → Option (Yaml × List Token)
  | fuel + 1, entries, .comma :: rest => flowEntries? fuel entries rest
  | _ + 1, entries, .closeMapping :: rest => some (.mapping entries.reverse, rest)
  | _, _, _ => none

end

/-! ## Documents -/

/-- The root node. After the mark of a document it may be left out, and before
that mark the version may be given. -/
def root? (tokens : List Token) : Option (Yaml × List Token) :=
  let fuel := 4 * tokens.length + 4
  match tokens with
  | [] => some (absent, [])
  | .documentStart :: rest | .version :: .documentStart :: rest =>
      optionalNode? fuel true false [.version, .documentStart, .documentEnd] rest
  | tokens => node? fuel true false tokens

def parse? (text : String) : Option Yaml := do
  let tokens ← Token.scan? text
  let (root, rest) ← root? tokens
  if rest.all (· = .documentEnd) then some root else none

end ClassShrink.Yaml
