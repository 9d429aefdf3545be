import Mathlib.Data.List.Nodup

set_option autoImplicit false

namespace Codec.Lib

open List

-- Pairs of key and value in the order in which the keys came; a key that is
-- there already keeps its place.
section Assoc

variable {κ ν : Type} [DecidableEq κ]

def putEntry (key : κ) (value : ν) : List (κ × ν) → List (κ × ν)
  | [] => [(key, value)]
  | entry :: rest => if entry.1 = key then (key, value) :: rest else entry :: putEntry key value rest

def dropEntry (key : κ) (entries : List (κ × ν)) : List (κ × ν) := entries.eraseP fun entry => entry.1 = key

theorem put_new (key : κ) (value : ν) (entries : List (κ × ν)) (absent : key ∉ entries.map Prod.fst) :
    putEntry key value entries = entries ++ [(key, value)] := by
  induction entries with
  | nil => rfl
  | cons entry rest ih =>
    rw [map_cons, mem_cons, not_or] at absent
    rw [putEntry, if_neg (Ne.symm absent.1), ih absent.2]
    rfl

theorem put_mem (key : κ) (value : ν) (entries : List (κ × ν)) (entry : κ × ν) (there : entry ∈ putEntry key value entries) :
    entry = (key, value) ∨ entry ∈ entries := by
  induction entries with
  | nil => exact .inl (mem_singleton.mp there)
  | cons first rest ih =>
    rw [putEntry] at there
    split at there
    · rcases mem_cons.mp there with new | old
      · exact .inl new
      · exact .inr (mem_cons_of_mem _ old)
    · rcases mem_cons.mp there with same | later
      · exact .inr (same ▸ mem_cons_self)
      · exact (ih later).imp_right (mem_cons_of_mem _)

theorem drop_distinct (key : κ) (entries : List (κ × ν)) (distinct : (entries.map Prod.fst).Nodup) :
    ((dropEntry key entries).map Prod.fst).Nodup :=
  Nodup.sublist (eraseP_sublist.map _) distinct

theorem puts_mem (pairs entries : List (κ × ν)) (entry : κ × ν)
    (there : entry ∈ pairs.foldl (fun entries pair => putEntry pair.1 pair.2 entries) entries) : entry ∈ entries ∨ entry ∈ pairs := by
  induction pairs generalizing entries with
  | nil => exact .inl there
  | cons pair rest ih =>
    rcases ih _ there with old | new
    · rcases put_mem _ _ _ _ old with same | older
      · exact .inr (same ▸ mem_cons_self)
      · exact .inl older
    · exact .inr (mem_cons_of_mem _ new)

theorem put_all (pairs entries : List (κ × ν)) (distinct : ((entries ++ pairs).map Prod.fst).Nodup) :
    pairs.foldl (fun entries pair => putEntry pair.1 pair.2 entries) entries = entries ++ pairs := by
  induction pairs generalizing entries with
  | nil => rw [foldl_nil, append_nil]
  | cons pair rest ih =>
    have absent : pair.1 ∉ entries.map _ := fun there => by
      rw [map_append, nodup_append] at distinct
      exact distinct.2.2 _ there _ mem_cons_self rfl
    rw [foldl_cons, put_new _ _ _ absent, ih]
    · rw [append_assoc]
      rfl
    · rwa [append_assoc]

variable [BEq κ] [LawfulBEq κ]

theorem lookup_entry (entry : κ × ν) (rest : List (κ × ν)) (wanted : κ) :
    (entry :: rest).lookup wanted = if wanted = entry.1 then some entry.2 else rest.lookup wanted := by
  rw [lookup_cons]
  by_cases same : wanted = entry.1
  · simp [same]
  · simp [same, beq_false_of_ne same]

theorem lookup_mem (entries : List (κ × ν)) (distinct : (entries.map Prod.fst).Nodup) (key : κ) (value : ν) :
    entries.lookup key = some value ↔ (key, value) ∈ entries := by
  induction entries with
  | nil => simp
  | cons entry rest ih =>
    obtain ⟨first, later⟩ := nodup_cons.mp distinct
    rw [lookup_entry, mem_cons]
    by_cases same : key = entry.1
    · have absent : (key, value) ∉ rest := fun there => first (same ▸ mem_map_of_mem (f := Prod.fst) there)
      rw [if_pos same, Option.some_inj, or_iff_left absent, Prod.ext_iff]
      exact ⟨fun equal => ⟨same, equal.symm⟩, fun equal => equal.2.symm⟩
    · have other : (key, value) ≠ entry := fun equal => same (congrArg Prod.fst equal)
      rw [if_neg same, ih later, or_iff_right other]

theorem lookup_absent (entries : List (κ × ν)) (key : κ) : entries.lookup key = none ↔ key ∉ entries.map Prod.fst := by
  induction entries with
  | nil => simp
  | cons entry rest ih =>
    rw [lookup_entry, map_cons, mem_cons, not_or]
    by_cases same : key = entry.1
    · simp [same]
    · rw [if_neg same, ih]
      exact ⟨fun absent => ⟨same, absent⟩, fun absent => absent.2⟩

theorem lookup_put (key : κ) (value : ν) (entries : List (κ × ν)) (wanted : κ) :
    (putEntry key value entries).lookup wanted = if wanted = key then some value else entries.lookup wanted := by
  induction entries with
  | nil => rw [putEntry, lookup_entry]
  | cons entry rest ih =>
    rw [putEntry]
    by_cases here : entry.1 = key
    · rw [if_pos here, lookup_entry, lookup_entry, here]
      split <;> rfl
    · rw [if_neg here, lookup_entry, lookup_entry, ih]
      by_cases same : wanted = entry.1
      · rw [if_pos same, if_pos same, if_neg (same ▸ here)]
      · rw [if_neg same, if_neg same]

theorem put_keys (key : κ) (value : ν) (entries : List (κ × ν)) : (putEntry key value entries).map Prod.fst =
      if key ∈ entries.map Prod.fst then entries.map Prod.fst else entries.map Prod.fst ++ [key] := by
  induction entries with
  | nil => rfl
  | cons entry rest ih =>
    rw [putEntry, map_cons]
    by_cases here : entry.1 = key
    · rw [if_pos here, if_pos (here ▸ mem_cons_self), map_cons, here]
    · have alike : (key ∈ entry.1 :: rest.map Prod.fst) = (key ∈ rest.map Prod.fst) := by
        rw [mem_cons, or_iff_right (Ne.symm here)]
      rw [if_neg here, map_cons, ih]
      simp only [alike]
      split <;> rfl

theorem put_distinct (key : κ) (value : ν) (entries : List (κ × ν)) (distinct : (entries.map Prod.fst).Nodup) :
    ((putEntry key value entries).map Prod.fst).Nodup := by
  rw [put_keys]
  split
  · exact distinct
  · rename_i absent
    rw [nodup_append]
    exact ⟨distinct, nodup_singleton _, fun old there new same => by
      rw [mem_singleton.mp same]
      exact ne_of_mem_of_not_mem there absent⟩

theorem lookup_filter (keep : κ → Bool) (entries : List (κ × ν)) (wanted : κ) :
    (entries.filter fun entry => keep entry.1).lookup wanted = if keep wanted then entries.lookup wanted else none := by
  induction entries with
  | nil => simp
  | cons entry rest ih =>
    rw [filter_cons]
    by_cases same : wanted = entry.1
    · by_cases kept : keep entry.1 = true
      · rw [if_pos kept, lookup_entry, lookup_entry, if_pos same, if_pos same, same, if_pos kept]
      · rw [if_neg kept, ih, same, if_neg kept, if_neg kept]
    · by_cases kept : keep entry.1 = true
      · rw [if_pos kept, lookup_entry, lookup_entry, if_neg same, if_neg same, ih]
      · rw [if_neg kept, ih, lookup_entry, if_neg same]

theorem put_same (key : κ) (value : ν) (entries : List (κ × ν)) (there : entries.lookup key = some value) :
    putEntry key value entries = entries := by
  induction entries with
  | nil => exact nomatch there
  | cons entry rest ih =>
    rw [lookup_entry] at there
    rw [putEntry]
    by_cases here : entry.1 = key
    · rw [if_pos here.symm] at there
      rw [if_pos here, ← here, ← Option.some.inj there]
    · rw [if_neg (Ne.symm here)] at there
      rw [if_neg here, ih there]

theorem lookup_puts (pairs entries : List (κ × ν)) (distinct : (pairs.map Prod.fst).Nodup) (wanted : κ) :
    (pairs.foldl (fun entries pair => putEntry pair.1 pair.2 entries) entries).lookup wanted =
      (pairs.lookup wanted).or (entries.lookup wanted) := by
  induction pairs generalizing entries with
  | nil => rfl
  | cons pair rest ih =>
    obtain ⟨first, later⟩ := nodup_cons.mp distinct
    rw [foldl_cons, ih _ later, lookup_put, lookup_entry]
    by_cases same : wanted = pair.1
    · rw [if_pos same, if_pos same, same, (lookup_absent rest _).mpr first]
      rfl
    · rw [if_neg same, if_neg same]

theorem drop_absent (key : κ) (entries : List (κ × ν)) (absent : entries.lookup key = none) : dropEntry key entries = entries := by
  have none_there := (lookup_absent _ key).mp absent
  refine eraseP_of_forall_not fun entry there same => none_there ?_
  rw [← of_decide_eq_true same]
  exact mem_map_of_mem there

theorem lookup_drop (key : κ) (entries : List (κ × ν)) (distinct : (entries.map Prod.fst).Nodup) (wanted : κ) :
    (dropEntry key entries).lookup wanted = if wanted = key then none else entries.lookup wanted := by
  induction entries with
  | nil => exact (ite_self _).symm
  | cons entry rest ih =>
    obtain ⟨first, later⟩ := nodup_cons.mp distinct
    rw [dropEntry, eraseP_cons, lookup_entry]
    by_cases here : entry.1 = key
    · rw [decide_eq_true here, cond_true]
      by_cases same : wanted = key
      · rw [if_pos same, same, ← here]
        exact (lookup_absent rest _).mpr first
      · rw [if_neg same, if_neg (here ▸ same)]
    · rw [decide_eq_false here, cond_false, lookup_entry]
      by_cases same : wanted = entry.1
      · rw [if_pos same, if_pos same, if_neg (same ▸ here)]
      · rw [if_neg same, if_neg same]
        exact ih later

def lastValue (pairs : List (κ × ν)) (key : κ) : Option ν := pairs.reverse.lookup key

omit [DecidableEq κ] [LawfulBEq κ] in
theorem last_append (first second : List (κ × ν)) (key : κ) :
    lastValue (first ++ second) key = (lastValue second key).or (lastValue first key) := by
  rw [lastValue, reverse_append, lookup_append, lastValue, lastValue]

theorem last_absent (pairs : List (κ × ν)) (key : κ) : lastValue pairs key = none ↔ key ∉ pairs.map Prod.fst := by
  rw [lastValue, lookup_absent, map_reverse, mem_reverse]

theorem last_single (pair : κ × ν) (key : κ) : lastValue [pair] key = if key = pair.1 then some pair.2 else none := by
  rw [lastValue, reverse_singleton, lookup_entry, lookup_nil]

theorem lookup_puts_last (pairs entries : List (κ × ν)) (wanted : κ) :
    (pairs.foldl (fun entries pair => putEntry pair.1 pair.2 entries) entries).lookup wanted =
      (lastValue pairs wanted).or (entries.lookup wanted) := by
  induction pairs generalizing entries with
  | nil => rfl
  | cons pair rest ih =>
    rw [foldl_cons, ih, lookup_put, ← singleton_append, last_append, last_single]
    by_cases same : wanted = pair.1
    · rw [if_pos same, if_pos same, Option.or_assoc]
      rfl
    · rw [if_neg same, if_neg same, Option.or_none]

end Assoc

section Readings

variable {α κ ν : Type} (whole part : α → Option (κ × ν))

theorem last_split [DecidableEq κ] (lines : List α) (key : κ) : key ∉ (lines.filterMap whole).map Prod.fst ∨
      ∃ before line after value, lines = before ++ line :: after ∧ whole line = some (key, value) ∧
        key ∉ (after.filterMap whole).map Prod.fst := by
  induction lines with
  | nil => exact .inl (by simp)
  | cons line rest ih =>
    obtain absent | ⟨before, last, after, value, split, read, none⟩ := ih
    · cases read : whole line with
      | none => exact .inl (by rwa [filterMap_cons_none read])
      | some pair =>
        by_cases same : key = pair.1
        · exact .inr ⟨[], line, rest, pair.2, rfl, by rw [read, same], absent⟩
        · refine .inl ?_
          rw [filterMap_cons_some read, map_cons, mem_cons, not_or]
          exact ⟨same, absent⟩
    · exact .inr ⟨line :: before, last, after, value, congrArg _ split, read, none⟩

variable (refines : ∀ line key value, part line = some (key, value) → ∃ other, whole line = some (key, other))
include refines

theorem part_absent (lines : List α) (key : κ) (absent : key ∉ (lines.filterMap whole).map Prod.fst) :
    key ∉ (lines.filterMap part).map Prod.fst := by
  intro there
  obtain ⟨pair, inside, same⟩ := mem_map.mp there
  obtain ⟨line, among, read⟩ := mem_filterMap.mp inside
  obtain ⟨other, full⟩ := refines line _ _ read
  exact absent (mem_map.mpr ⟨(pair.1, other), mem_filterMap.mpr ⟨line, among, full⟩, same⟩)

variable [DecidableEq κ] [BEq κ] [LawfulBEq κ]

theorem readings_agree (lines : List α) :
    (∀ key, lastValue (lines.filterMap whole) key = lastValue (lines.filterMap part) key) ↔
      ∀ before line after, lines = before ++ line :: after → ∀ key value, whole line = some (key, value) →
        key ∈ (after.filterMap whole).map Prod.fst ∨ part line = some (key, value) ∨
          part line = none ∧ lastValue (before.filterMap part) key = some value := by
  have last (before : List α) (line : α) (after : List α) (key : κ) (value : ν) (read : whole line = some (key, value))
      (absent : key ∉ (after.filterMap whole).map Prod.fst) :
      lastValue ((before ++ line :: after).filterMap whole) key = some value ∧
        lastValue ((before ++ line :: after).filterMap part) key =
          match part line with
          | some pair => some pair.2
          | none => lastValue (before.filterMap part) key := by
    have later := (last_absent _ key).mpr absent
    have unseen := (last_absent _ key).mpr (part_absent _ part refines _ key absent)
    constructor
    · rw [filterMap_append, filterMap_cons_some read, last_append, ← singleton_append, last_append, later,
        last_single, if_pos rfl]
      rfl
    · cases seen : part line with
      | none => rw [filterMap_append, filterMap_cons_none seen, last_append, unseen, Option.none_or]
      | some pair =>
        obtain ⟨other, full⟩ := refines line _ _ seen
        have same : key = pair.1 := by
          rw [read] at full
          exact congrArg Prod.fst (Option.some.inj full)
        rw [filterMap_append, filterMap_cons_some seen, last_append, ← singleton_append, last_append, unseen,
          last_single, if_pos same]
        rfl
  constructor
  · intro agree before line after split key value read
    by_cases later : key ∈ (after.filterMap whole).map Prod.fst
    · exact .inl later
    · obtain ⟨first, second⟩ := last _ line _ key _ read later
      have same := agree key
      rw [split, first, second] at same
      cases seen : part line with
      | none =>
        rw [seen] at same
        exact .inr (.inr ⟨rfl, same.symm⟩)
      | some pair =>
        rw [seen] at same
        obtain ⟨other, full⟩ := refines line _ _ seen
        rw [read] at full
        have named : key = pair.1 := congrArg Prod.fst (Option.some.inj full)
        have valued : value = pair.2 := Option.some.inj same
        exact .inr (.inl (by rw [named, valued]))
  · intro lasts key
    obtain absent | ⟨before, line, after, value, split, read, later⟩ := last_split _ _ key
    · rw [(last_absent _ key).mpr absent, (last_absent _ key).mpr (part_absent _ part refines _ key absent)]
    · obtain ⟨first, second⟩ := last _ line _ key _ read later
      rw [split, first, second]
      obtain there | seen | ⟨none, early⟩ := lasts _ line _ split key _ read
      · exact absurd there later
      · rw [seen]
      · rw [none]
        exact early.symm

end Readings

end Codec.Lib
