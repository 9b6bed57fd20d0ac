import ClassShrink.Override.Index
import ClassShrink.Proofs.Sorting
import Mathlib.Data.List.Nodup

/-! # Tables and override indexes

What a table holds after each of its operations. An override index is filled pair by
pair; it holds, for each side of a pair, the other sides in ascending order. -/

namespace ClassShrink

namespace Table

variable {κ ν : Type} [DecidableEq κ] {table : Table κ ν} {key : κ} {value : ν}

def keys (table : Table κ ν) : List κ :=
  table.entries.map Prod.fst

/-! ## Lookup -/

@[simp] theorem get?_empty (key : κ) : ({} : Table κ ν).get? key = none := rfl

omit [DecidableEq κ] in
theorem empty_keys_nodup : ({} : Table κ ν).keys.Nodup := List.nodup_nil

theorem get?_cons (entry : κ × ν) (rest : List (κ × ν)) (key : κ) :
    (⟨entry :: rest⟩ : Table κ ν).get? key =
      if key = entry.1 then some entry.2 else (⟨rest⟩ : Table κ ν).get? key := by
  rcases entry with ⟨first, value⟩
  by_cases same : key = first
  · simp [get?, same]
  · simp [get?, List.lookup_cons, same, beq_false_of_ne same]

theorem get?_eq_none_iff : table.get? key = none ↔ key ∉ table.keys := by
  rcases table with ⟨entries⟩
  induction entries with
  | nil => simp [keys]
  | cons entry rest induction =>
      by_cases same : key = entry.1
      · simp [get?_cons, same, keys]
      · rw [get?_cons, if_neg same, induction]
        simp [keys, same]

theorem contains_iff : table.contains key ↔ key ∈ table.keys := by
  rw [contains, Option.isSome_iff_ne_none, ne_eq, get?_eq_none_iff, not_not]

theorem mem_entries_iff (distinct : table.keys.Nodup) :
    (key, value) ∈ table.entries ↔ table.get? key = some value := by
  rcases table with ⟨entries⟩
  induction entries with
  | nil => simp
  | cons entry rest induction =>
      rcases List.nodup_cons.mp distinct with ⟨fresh, restDistinct⟩
      rw [List.mem_cons, get?_cons, induction restDistinct]
      by_cases same : key = entry.1
      · have absent : (⟨rest⟩ : Table κ ν).get? key = none :=
          get?_eq_none_iff.mpr (same ▸ fresh)
        simp [same ▸ absent, same, Prod.ext_iff, eq_comm]
      · simp [same, Prod.ext_iff]

theorem get?_zipIdx (elements : List κ) (key : κ) (start : Nat) :
    (⟨elements.zipIdx start⟩ : Table κ Nat).get? key =
      (elements.idxOf? key).map (start + ·) := by
  induction elements generalizing start with
  | nil => rfl
  | cons element rest induction =>
      rw [List.zipIdx_cons, get?_cons, induction, List.idxOf?_cons]
      by_cases same : key = element
      · simp [same]
      · have different : (element == key) = false := beq_false_of_ne (Ne.symm same)
        cases rest.idxOf? key with
        | none => simp [same, different]
        | some place => simp [same, different, Nat.add_assoc, Nat.add_comm 1]

/-! ## Updates -/

@[simp] theorem get?_insert (table : Table κ ν) (key other : κ) (value : ν) :
    (table.insert key value).get? other = if other = key then some value else table.get? other := by
  rcases table with ⟨entries⟩
  rw [insert]
  induction entries with
  | nil => rw [setEntry, get?_cons]
  | cons entry rest induction =>
      by_cases same : entry.1 = key
      · rw [setEntry, if_pos same, get?_cons, get?_cons, same]
        split <;> rfl
      · rw [setEntry, if_neg same, get?_cons, get?_cons, induction]
        by_cases isKey : other = key
        · rw [if_neg (isKey ▸ Ne.symm same), if_pos isKey, if_pos isKey]
        · rw [if_neg isKey, if_neg isKey]

theorem insert_fresh (fresh : key ∉ table.keys) :
    table.insert key value = ⟨table.entries ++ [(key, value)]⟩ := by
  rcases table with ⟨entries⟩
  rw [insert, Table.mk.injEq]
  induction entries with
  | nil => rfl
  | cons entry rest induction =>
      rcases not_or.mp (List.mem_cons.not.mp fresh) with ⟨different, restFresh⟩
      rw [setEntry, if_neg (Ne.symm different), induction restFresh, List.cons_append]

theorem insert_keys (table : Table κ ν) (key : κ) (value : ν) :
    (table.insert key value).keys =
      if key ∈ table.keys then table.keys else table.keys ++ [key] := by
  by_cases known : key ∈ table.keys
  · rw [if_pos known]
    rcases table with ⟨entries⟩
    rw [insert, keys, keys] at *
    induction entries with
    | nil => simp at known
    | cons entry rest induction =>
        by_cases same : entry.1 = key
        · simp [setEntry, same]
        · have inRest : key ∈ rest.map Prod.fst := by
            rcases List.mem_cons.mp known with isFirst | inRest
            · exact absurd isFirst.symm same
            · exact inRest
          rw [setEntry, if_neg same, List.map_cons, List.map_cons, induction inRest]
  · rw [if_neg known, insert_fresh known]
    simp [keys]

theorem insert_keys_nodup (distinct : table.keys.Nodup) (key : κ) (value : ν) :
    (table.insert key value).keys.Nodup := by
  rw [insert_keys]
  split
  · exact distinct
  next fresh =>
    refine List.nodup_append.mpr ⟨distinct, by simp, ?_⟩
    rintro known isKnown other isKey rfl
    exact fresh (List.mem_singleton.mp isKey ▸ isKnown)

@[simp] theorem get?_mapValues (table : Table κ ν) (change : ν → ν) (key : κ) :
    (table.mapValues change).get? key = (table.get? key).map change := by
  rcases table with ⟨entries⟩
  rw [mapValues]
  induction entries with
  | nil => rfl
  | cons entry rest induction =>
      rw [List.map_cons, get?_cons, get?_cons, induction]
      split <;> rfl

omit [DecidableEq κ] in
@[simp] theorem mapValues_keys (table : Table κ ν) (change : ν → ν) :
    (table.mapValues change).keys = table.keys := by
  rw [mapValues, keys, keys, List.map_map]
  rfl

@[simp] theorem get?_filterKeys (table : Table κ ν) (keeps : κ → Bool) (key : κ) :
    (table.filterKeys keeps).get? key = if keeps key then table.get? key else none := by
  rcases table with ⟨entries⟩
  rw [filterKeys]
  induction entries with
  | nil => simp
  | cons entry rest induction =>
      rw [get?_cons, List.filter_cons]
      by_cases same : key = entry.1
      · by_cases kept : keeps entry.1
        · simp [get?_cons, same, kept]
        · rw [if_neg kept, induction]
          simp [same, kept]
      · rw [if_neg same, ← induction]
        split
        · rw [get?_cons, if_neg same]
        · rfl

omit [DecidableEq κ] in
theorem filterKeys_keys_nodup (distinct : table.keys.Nodup) (keeps : κ → Bool) :
    (table.filterKeys keeps).keys.Nodup :=
  distinct.sublist (List.filter_sublist.map Prod.fst)

theorem extend_keys_nodup (distinct : table.keys.Nodup) (other : Table κ ν) :
    (table.extend other).keys.Nodup := by
  rw [extend]
  induction other.entries generalizing table with
  | nil => exact distinct
  | cons entry rest induction => exact induction (insert_keys_nodup distinct _ _)

theorem get?_extend {other : Table κ ν} (distinct : other.keys.Nodup) (table : Table κ ν)
    (key : κ) : (table.extend other).get? key = (other.get? key).or (table.get? key) := by
  rcases other with ⟨entries⟩
  rw [extend]
  induction entries generalizing table with
  | nil => rfl
  | cons entry rest induction =>
      rcases List.nodup_cons.mp distinct with ⟨fresh, restDistinct⟩
      rw [List.foldl_cons, induction _ restDistinct, get?_insert, get?_cons]
      by_cases same : key = entry.1
      · have absent : (⟨rest⟩ : Table κ ν).get? key = none :=
          get?_eq_none_iff.mpr (same ▸ fresh)
        rw [absent, if_pos same, if_pos same]
        rfl
      · rw [if_neg same, if_neg same]

/-! ## Lists of values -/

variable {table : Table κ (List ν)}

theorem getD_push (table : Table κ (List ν)) (key other : κ) (value : ν) :
    ((table.push key value).get? other).getD [] =
      (table.get? other).getD [] ++ if key = other then [value] else [] := by
  rw [push, get?_insert]
  by_cases same : other = key
  · simp [same]
  · simp [same, Ne.symm same]

theorem push_keys_nodup (distinct : table.keys.Nodup) (key : κ) (value : ν) :
    (table.push key value).keys.Nodup :=
  insert_keys_nodup distinct _ _

def valueCount (table : Table κ (List ν)) : Nat :=
  (table.entries.flatMap Prod.snd).length

theorem valueCount_push (table : Table κ (List ν)) (key : κ) (value : ν) :
    (table.push key value).valueCount = table.valueCount + 1 := by
  rcases table with ⟨entries⟩
  rw [push, insert]
  induction entries with
  | nil => rfl
  | cons entry rest induction =>
      rw [get?_cons]
      by_cases same : key = entry.1
      · simp only [valueCount, setEntry, same, if_true, List.flatMap_cons, Option.getD_some,
          List.length_append, List.length_singleton]
        omega
      · have pushed := induction
        simp only [valueCount] at pushed ⊢
        simp only [setEntry, if_neg same, if_neg (Ne.symm same), List.flatMap_cons,
          List.length_append, pushed]
        omega

omit [DecidableEq κ] in
theorem valueCount_mapValues {change : List ν → List ν}
    (sameLength : ∀ entry ∈ table.entries, (change entry.2).length = entry.2.length) :
    (table.mapValues change).valueCount = table.valueCount := by
  rw [valueCount, valueCount, mapValues, List.flatMap_map, List.length_flatMap,
    List.length_flatMap]
  exact congrArg List.sum (List.map_congr_left sameLength)

/-! ## Filling a table -/

section Filling

variable {α : Type} (key : α → κ) (value : α → ν)

def pushAll (table : Table κ (List ν)) (elements : List α) : Table κ (List ν) :=
  elements.foldl (fun table element => table.push (key element) (value element)) table

theorem getD_pushAll (table : Table κ (List ν)) (elements : List α) (other : κ) :
    ((table.pushAll key value elements).get? other).getD [] =
      (table.get? other).getD [] ++
        (elements.filter fun element => key element = other).map value := by
  rw [pushAll]
  induction elements generalizing table with
  | nil => simp
  | cons element rest induction =>
      rw [List.foldl_cons, induction, getD_push, List.filter_cons]
      by_cases same : key element = other <;> simp [same]

theorem pushAll_keys_nodup (distinct : table.keys.Nodup) (elements : List α) :
    (table.pushAll key value elements).keys.Nodup := by
  rw [pushAll]
  induction elements generalizing table with
  | nil => exact distinct
  | cons element rest induction => exact induction (push_keys_nodup distinct _ _)

theorem mem_pushAll_keys (table : Table κ (List ν)) (elements : List α) (other : κ) :
    other ∈ (table.pushAll key value elements).keys ↔
      other ∈ table.keys ∨ other ∈ elements.map key := by
  rw [pushAll]
  induction elements generalizing table with
  | nil => simp
  | cons element rest induction =>
      rw [List.foldl_cons, induction, push, insert_keys, List.map_cons, List.mem_cons]
      split
      next known =>
        constructor
        · rintro (inTable | inRest)
          · exact .inl inTable
          · exact .inr (.inr inRest)
        · rintro (inTable | rfl | inRest)
          · exact .inl inTable
          · exact .inl known
          · exact .inr inRest
      · rw [List.mem_append, List.mem_singleton, or_assoc]

/-- A table that is filled holds under each key the values of that key. -/
theorem eq_of_mem_pushAll {elements : List α} {entry : κ × List ν}
    (listed : entry ∈ (({} : Table κ (List ν)).pushAll key value elements).entries) :
    entry.2 = (elements.filter fun element => key element = entry.1).map value := by
  have distinct := pushAll_keys_nodup key value empty_keys_nodup elements
  have held := (mem_entries_iff distinct).mp listed
  have filled := getD_pushAll key value {} elements entry.1
  rw [held] at filled
  exact filled

theorem valueCount_pushAll (table : Table κ (List ν)) (elements : List α) :
    (table.pushAll key value elements).valueCount = table.valueCount + elements.length := by
  rw [pushAll]
  induction elements generalizing table with
  | nil => rfl
  | cons element rest induction =>
      rw [List.foldl_cons, induction, valueCount_push, List.length_cons]
      omega

end Filling

end Table

/-! ## Override indexes -/

namespace OverrideIndex

variable {pairs : List (Nat × Nat)} {overrider overridden : Nat}

def ofPairs (pairs : List (Nat × Nat)) : OverrideIndex :=
  (pairs.foldl (fun index pair => OverrideIndex.insert index pair.1 pair.2) {}).normalize

theorem foldl_insert (pairs : List (Nat × Nat)) (index : OverrideIndex) :
    pairs.foldl (fun index pair => index.insert pair.1 pair.2) index =
      { upward := index.upward.pushAll Prod.fst Prod.snd pairs
        downward := index.downward.pushAll Prod.snd Prod.fst pairs } := by
  induction pairs generalizing index with
  | nil => rfl
  | cons pair rest induction =>
      rw [List.foldl_cons, induction]
      rfl

theorem ofPairs_eq (pairs : List (Nat × Nat)) :
    ofPairs pairs =
      { upward := (({} : Table Nat (List Nat)).pushAll Prod.fst Prod.snd pairs).mapValues
          (ascending natLe)
        downward := (({} : Table Nat (List Nat)).pushAll Prod.snd Prod.fst pairs).mapValues
          (ascending natLe) } := by
  rw [ofPairs, foldl_insert]
  rfl

theorem getD_map_ascending (list? : Option (List Nat)) :
    (list?.map (ascending natLe)).getD [] = ascending natLe (list?.getD []) := by
  cases list? with
  | none => simp [ascending, dropRepeats]
  | some list => rfl

theorem overrides_ofPairs (pairs : List (Nat × Nat)) (method : Nat) :
    (ofPairs pairs).overrides method =
      ascending natLe ((pairs.filter fun pair => pair.1 = method).map Prod.snd) := by
  rw [overrides, ofPairs_eq, Table.get?_mapValues, getD_map_ascending, Table.getD_pushAll]
  rfl

theorem overriddenBy_ofPairs (pairs : List (Nat × Nat)) (method : Nat) :
    (ofPairs pairs).overriddenBy method =
      ascending natLe ((pairs.filter fun pair => pair.2 = method).map Prod.fst) := by
  rw [overriddenBy, ofPairs_eq, Table.get?_mapValues, getD_map_ascending, Table.getD_pushAll]
  rfl

@[simp] theorem mem_overrides_ofPairs :
    overridden ∈ (ofPairs pairs).overrides overrider ↔ (overrider, overridden) ∈ pairs := by
  simp [overrides_ofPairs]

@[simp] theorem mem_overriddenBy_ofPairs :
    overrider ∈ (ofPairs pairs).overriddenBy overridden ↔ (overrider, overridden) ∈ pairs := by
  simp [overriddenBy_ofPairs]

theorem overrides_ofPairs_pairwise (pairs : List (Nat × Nat)) (method : Nat) :
    ((ofPairs pairs).overrides method).Pairwise (· < ·) := by
  rw [overrides_ofPairs]
  exact ascending_pairwise natLe_iff Function.injective_id _

theorem overriddenBy_ofPairs_pairwise (pairs : List (Nat × Nat)) (method : Nat) :
    ((ofPairs pairs).overriddenBy method).Pairwise (· < ·) := by
  rw [overriddenBy_ofPairs]
  exact ascending_pairwise natLe_iff Function.injective_id _

/-- No pair is lost by sorting if none was inserted twice. -/
theorem size_ofPairs (distinct : pairs.Nodup) : (ofPairs pairs).size = pairs.length := by
  have sameLength : ∀ entry ∈ (({} : Table Nat (List Nat)).pushAll Prod.fst Prod.snd pairs).entries,
      (ascending natLe entry.2).length = entry.2.length := by
    intro entry listed
    apply ascending_length
    rw [Table.eq_of_mem_pushAll _ _ listed]
    refine List.Nodup.map_on ?_ (distinct.filter _)
    rintro ⟨left, value⟩ leftListed ⟨right, other⟩ rightListed rfl
    simp only [List.mem_filter, decide_eq_true_eq] at leftListed rightListed
    rw [leftListed.2, rightListed.2]
  rw [ofPairs_eq]
  exact (Table.valueCount_mapValues sameLength).trans
    ((Table.valueCount_pushAll _ _ _ _).trans (Nat.zero_add _))

theorem isEmpty_ofPairs : (ofPairs pairs).isEmpty ↔ pairs = [] := by
  have keys (method : Nat) :
      method ∈ (ofPairs pairs).upward.keys ↔ method ∈ pairs.map Prod.fst := by
    rw [ofPairs_eq, Table.mapValues_keys, Table.mem_pushAll_keys]
    simp [Table.keys]
  rw [isEmpty, List.isEmpty_iff]
  cases pairs with
  | nil => exact iff_of_true rfl rfl
  | cons pair rest =>
      refine iff_of_false (fun empty => ?_) (List.cons_ne_nil pair rest)
      have held := (keys pair.1).mpr List.mem_cons_self
      rw [Table.keys, empty] at held
      exact List.not_mem_nil held

end OverrideIndex

end ClassShrink
