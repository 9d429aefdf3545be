import Codec.Wireless.Uci

set_option autoImplicit false

namespace Codec.Wireless

open Codec.Ems Codec.Lib

def reserved : List Str := [uciSectionName, uciSectionType]

def optionOf (value : Str) : Option UciValue := if value = [] then none else some (.string value)

def stringAt (options : List (Str × UciValue)) (key : Str) : Option (Option Str) :=
  match options.lookup key with
  | some (.string text) => some (some text)
  | _ => none

structure Usual (options : List (Str × UciValue)) : Prop where
  distinct : (options.map Prod.fst).Nodup
  filled : ∀ key, options.lookup key ≠ some (.string [])
  free : ∀ key ∈ reserved, options.lookup key = none

local instance lawfulKey : LawfulBEq Str := inferInstance

def writeOptions : Json → List (Str × UciValue) → List (Str × UciValue)
  | [], options => options
  | (_, none) :: rest, options => writeOptions rest options
  | (key, some value) :: rest, options => writeOptions rest (if key ∈ reserved then options else setOption options key value)

def Agrees (obj : Json) (options : List (Str × UciValue)) : Prop :=
  ∀ key value, key ∉ reserved → (key, some value) ∈ obj → options.lookup key = optionOf value

def Loaded (obj : Json) (options : List (Str × UciValue)) : Prop :=
  ∀ key, key ∉ reserved → obj.lookup key = stringAt options key

variable (obj : Json) (options : List (Str × UciValue))

theorem string_at_some (key value : Str) :
    stringAt options key = some (some value) ↔ options.lookup key = some (.string value) := by
  rw [stringAt]
  split
  · rename_i text found
    rw [found, Option.some_inj, Option.some_inj, Option.some_inj, UciValue.string.injEq]
  · rename_i other
    exact ⟨fun found => (nomatch found), fun found => absurd found (other _)⟩

theorem string_at_not_none (key : Str) : stringAt options key ≠ some none := by
  rw [stringAt]
  split <;> exact fun same => nomatch same

section Set

variable (options : List (Str × UciValue)) (distinct : (options.map Prod.fst).Nodup)

include distinct

theorem set_distinct (key value : Str) : ((setOption options key value).map Prod.fst).Nodup := by
  rw [setOption]
  split
  · exact drop_distinct key _ distinct
  · exact put_distinct key _ _ distinct

theorem set_lookup (key value wanted : Str) :
    (setOption options key value).lookup wanted = if wanted = key then optionOf value else options.lookup wanted := by
  rw [setOption, optionOf]
  by_cases empty : value = []
  · rw [if_pos empty, if_pos empty]
    exact lookup_drop key _ distinct _
  · rw [if_neg empty, if_neg empty]
    exact lookup_put key _ _ _

end Set

theorem set_same (key value : Str) (there : options.lookup key = optionOf value) : setOption options key value = options := by
  rw [optionOf] at there
  rw [setOption]
  by_cases empty : value = []
  · rw [if_pos empty] at there
    rw [if_pos empty]
    exact drop_absent key _ there
  · rw [if_neg empty] at there
    rw [if_neg empty]
    exact put_same key _ _ there

theorem write_agree (agrees : Agrees obj options) : writeOptions obj options = options := by
  induction obj with
  | nil => rfl
  | cons entry rest ih =>
    have later : writeOptions rest _ = options :=
      ih fun key value free there => agrees key _ free (List.mem_cons_of_mem _ there)
    obtain ⟨key, value⟩ := entry
    cases value with
    | none => exact later
    | some value =>
      rw [writeOptions]
      by_cases own : key ∈ reserved
      · rw [if_pos own, later]
      · rw [if_neg own, set_same _ key _ (agrees key _ own List.mem_cons_self), later]

theorem write_distinct (distinct : (options.map Prod.fst).Nodup) : ((writeOptions obj options).map Prod.fst).Nodup := by
  induction obj generalizing options with
  | nil => exact distinct
  | cons entry rest ih =>
    obtain ⟨key, value⟩ := entry
    cases value with
    | none => exact ih _ distinct
    | some value =>
      rw [writeOptions]
      by_cases own : key ∈ reserved
      · rw [if_pos own]
        exact ih _ distinct
      · rw [if_neg own]
        exact ih _ (set_distinct _ distinct key _)

theorem write_lookup (keys : (obj.map Prod.fst).Nodup) (distinct : (options.map Prod.fst).Nodup) (wanted : Str) :
    (writeOptions obj options).lookup wanted =
      match obj.lookup wanted with
      | some (some value) => if wanted ∈ reserved then options.lookup wanted else optionOf value
      | _ => options.lookup wanted := by
  induction obj generalizing options with
  | nil => rfl
  | cons entry rest ih =>
    obtain ⟨key, value⟩ := entry
    obtain ⟨first, later⟩ := List.nodup_cons.mp keys
    have absent : rest.lookup key = none := (lookup_absent rest key).mpr first
    rw [lookup_entry]
    cases value with
    | none =>
      rw [writeOptions, ih _ later distinct]
      by_cases same : wanted = key
      · rw [if_pos same, same, absent]
      · rw [if_neg same]
    | some value =>
      rw [writeOptions]
      by_cases own : key ∈ reserved
      · rw [if_pos own, ih _ later distinct]
        by_cases same : wanted = key
        · rw [if_pos same, same, absent]
          exact (if_pos own).symm
        · rw [if_neg same]
      · rw [if_neg own, ih _ later (set_distinct _ distinct key _), set_lookup _ distinct]
        by_cases same : wanted = key
        · rw [if_pos same, if_pos same, same, absent]
          exact (if_neg own).symm
        · rw [if_neg same, if_neg same]

theorem write_usual (keys : (obj.map Prod.fst).Nodup) (usual : Usual options) : Usual (writeOptions obj options) := by
  refine ⟨write_distinct obj _ usual.distinct, fun key => ?_, fun key own => ?_⟩
  · rw [write_lookup obj _ keys usual.distinct]
    split
    · split
      · exact usual.filled key
      · rw [optionOf]
        split
        · exact fun same => nomatch same
        · rename_i filled
          exact fun same => filled (UciValue.string.inj (Option.some.inj same))
    · exact usual.filled key
  · rw [write_lookup obj _ keys usual.distinct]
    split
    · rw [if_pos own]
      exact usual.free key own
    · exact usual.free key own

section Load

theorem load_step (options : List (Str × UciValue)) (obj : Json) (distinct : (options.map Prod.fst).Nodup) (key : Str) :
    (options.foldl loadOption obj).lookup key = (stringAt options key).or (obj.lookup key) := by
  induction options generalizing obj with
  | nil => rfl
  | cons entry rest ih =>
    obtain ⟨name, value⟩ := entry
    obtain ⟨first, later⟩ := List.nodup_cons.mp distinct
    have absent : stringAt rest name = none := by rw [stringAt, (lookup_absent rest name).mpr first]
    have head : stringAt ((name, value) :: rest) key =
        if key = name then (match value with | .string text => some (some text) | .list _ => none) else stringAt rest key := by
      rw [stringAt, lookup_entry]
      by_cases same : key = name
      · rw [if_pos same, if_pos same]
        cases value <;> rfl
      · rw [if_neg same, if_neg same, stringAt]
    rw [List.foldl_cons, ih _ later, head]
    cases value with
    | string text =>
      rw [loadOption, lookup_put]
      by_cases same : key = name
      · rw [if_pos same, if_pos same, same, absent]
        rfl
      · rw [if_neg same, if_neg same]
    | list items =>
      rw [loadOption]
      by_cases same : key = name
      · rw [if_pos same, same, absent]
      · rw [if_neg same]

theorem load_lookup (name : Str) (s : UciSection) (usual : Usual s.options) (key : Str) :
    (emsUciLoadSection name s).lookup key =
      if key = uciSectionName then some (some name) else if key = uciSectionType then some (some s.type) else stringAt s.options key := by
  rw [emsUciLoadSection, load_step _ _ usual.distinct key, lookup_entry, lookup_entry]
  by_cases own : key ∈ reserved
  · have absent : stringAt s.options key = none := by rw [stringAt, usual.free key own]
    rw [absent, Option.none_or]
    split
    · rfl
    · rfl
  · rw [reserved, List.mem_cons, List.mem_singleton, not_or] at own
    rw [if_neg own.1, if_neg own.2, if_neg own.1, if_neg own.2]
    exact Option.or_none

theorem load_loaded (name : Str) (s : UciSection) (usual : Usual s.options) : Loaded (emsUciLoadSection name s) s.options := by
  intro key own
  rw [reserved, List.mem_cons, List.mem_singleton, not_or] at own
  rw [load_lookup name s usual, if_neg own.1, if_neg own.2]

theorem load_distinct (name : Str) (s : UciSection) : ((emsUciLoadSection name s).map Prod.fst).Nodup := by
  have step : ∀ (options : List _) (obj : Json), (obj.map Prod.fst).Nodup →
      ((options.foldl loadOption obj).map Prod.fst).Nodup := by
    intro options
    induction options with
    | nil => exact fun obj distinct => distinct
    | cons entry rest ih =>
      intro obj distinct
      rw [List.foldl_cons]
      obtain ⟨key, value⟩ := entry
      cases value with
      | string text => exact ih _ (put_distinct key _ obj distinct)
      | list items => exact ih _ distinct
  have two : reserved.Nodup := by decide
  exact step _ _ two

end Load

end Codec.Wireless
