import Codec.Wireless.Options

set_option autoImplicit false

namespace Codec.Wireless

open Codec.Ems Codec.Lib

def givenTexts (fields : List (Str × Str)) (root : Json) : List (Str × Str) :=
  fields.filterMap fun field => if jsonText root field.1 = [] then none else some (field.2, jsonText root field.1)

def serverTexts (id : Nat) (jobj : ServerSsid) : List (Str × Str) :=
  givenTexts portalFields ((jobj.lookup (ssidOption id (ascii "portal"))).getD []) ++
    givenTexts radiusFields ((jobj.lookup (ssidOption id (ascii "radius"))).getD [])

def serverPuts (id : Nat) (jobj : ServerSsid) : Json :=
  (serverTexts id jobj).map (fun pair => (pair.1, some pair.2)) ++ [(bwlistKey, none), (httpKey, none)]

def serverKeys : List Str := portalFields.map Prod.snd ++ radiusFields.map Prod.snd ++ [bwlistKey, httpKey]

def ruledKeys : List Str := serverKeys ++ [ssidKey, emsSsidSuffix]

structure Carries (id : Nat) (jobj : ServerSsid) (options : List (Str × UciValue)) : Prop where
  texts : ∀ pair ∈ serverTexts id jobj, options.lookup pair.1 = some (.string pair.2)
  suffix : ∀ root, jobj.lookup (ssidOption id (ascii "iface")) = some root →
    options.lookup emsSsidSuffix = optionOf (jsonText root (ascii "ssid_hz"))

theorem ruled_keys_free : (∀ key ∈ ruledKeys, key ∉ reserved) ∧ emsIfaceId ∉ ruledKeys := by decide

theorem server_keys_distinct : serverKeys.Nodup ∧ ssidKey ∉ serverKeys ∧ emsSsidSuffix ∉ serverKeys := by decide

variable (fields : List (Str × Str))

theorem texts_upt (jssid root : Json) : textsUpt fields jssid root =
      ((givenTexts fields root).map fun pair => (pair.1, some pair.2)).foldl (fun obj pair => putEntry pair.1 pair.2 obj) jssid := by
  induction fields generalizing jssid with
  | nil => rfl
  | cons field rest ih =>
    rw [textsUpt, List.foldl_cons, givenTexts, List.filterMap_cons]
    by_cases empty : jsonText root field.1 = []
    · rw [if_pos empty, if_pos empty]
      exact ih _
    · rw [if_neg empty, if_neg empty]
      exact ih _

theorem given_keys (root : Json) : ((givenTexts fields root).map Prod.fst).Sublist (fields.map Prod.snd) := by
  induction fields with
  | nil => exact List.Sublist.refl _
  | cons field rest ih =>
    rw [givenTexts, List.filterMap_cons]
    by_cases empty : jsonText root field.1 = []
    · rw [if_pos empty]
      exact ih.cons _
    · rw [if_neg empty]
      exact ih.cons_cons _

theorem given_filled (root : Json) (pair : Str × Str) (there : pair ∈ givenTexts fields root) : pair.2 ≠ [] := by
  obtain ⟨field, _, made⟩ := List.mem_filterMap.mp there
  split at made
  · exact nomatch made
  · rename_i filled
    rw [← Option.some.inj made]
    exact filled

section Update

variable (id : Nat) (jobj : ServerSsid)

theorem server_puts_keys : ((serverPuts id jobj).map Prod.fst).Sublist serverKeys := by
  rw [serverPuts, List.map_append, List.map_map, serverTexts, List.map_append]
  exact ((given_keys _ _).append (given_keys _ _)).append (List.Sublist.refl _)

theorem server_puts_distinct : ((serverPuts id jobj).map Prod.fst).Nodup :=
  server_keys_distinct.1.sublist (server_puts_keys id jobj)

theorem server_puts_absent (key : Str) (other : key ∉ serverKeys) : (serverPuts id jobj).lookup key = none :=
  (lookup_absent _ _).mpr fun there => other ((server_puts_keys id jobj).subset there)

theorem server_puts_texts (pair : Str × Str) : (serverPuts id jobj).lookup pair.1 = some (some pair.2) ↔ pair ∈ serverTexts id jobj := by
  rw [lookup_mem _ (server_puts_distinct id jobj), serverPuts, List.mem_append]
  constructor
  · rintro (there | there)
    · obtain ⟨same, found, made⟩ := List.mem_map.mp there
      have equal : same = pair := Prod.ext (Prod.mk.inj made).1 (Option.some.inj (Prod.mk.inj made).2)
      exact equal ▸ found
    · simp at there
  · exact fun there => .inl (List.mem_map_of_mem (f := fun pair : Str × Str => (pair.1, some _)) there)

variable (obj : Json) (options : List (Str × UciValue)) (jssid : Json)

theorem ssid_update_eq : ssidUpdate id jobj jssid = (serverPuts id jobj).foldl (fun obj pair => putEntry pair.1 pair.2 obj)
      (clIfaceCfgUpt jssid (jobj.lookup (ssidOption id (ascii "iface")))) := by
  rw [serverPuts, serverTexts, List.map_append, List.foldl_append, List.foldl_append, ← texts_upt, ← texts_upt]
  rfl

theorem ssid_update_lookup (key : Str) : (ssidUpdate id jobj jssid).lookup key = ((serverPuts id jobj).lookup key).or
      ((clIfaceCfgUpt jssid (jobj.lookup (ssidOption id (ascii "iface")))).lookup key) := by
  rw [ssid_update_eq, lookup_puts _ _ (server_puts_distinct id jobj)]

theorem iface_lookup (root : Option Json) (key : Str) (plain : key ≠ ssidKey) (other : key ≠ emsSsidSuffix) :
    (clIfaceCfgUpt jssid root).lookup key = jssid.lookup key := by
  have suffix (newSuffix : Str) : (clIfaceSsidSuffixUpt jssid newSuffix).lookup key = jssid.lookup key := by
    rw [clIfaceSsidSuffixUpt]
    split
    · rfl
    · dsimp only
      split
      · rfl
      · rw [lookup_put, if_neg plain]
  cases root with
  | none => rfl
  | some root => rw [clIfaceCfgUpt, lookup_put, if_neg other, suffix]

theorem update_other (key : Str) (other : key ∉ ruledKeys) : (ssidUpdate id jobj jssid).lookup key = jssid.lookup key := by
  rw [ruledKeys, List.mem_append, List.mem_cons, List.mem_singleton, not_or, not_or] at other
  rw [ssid_update_lookup, server_puts_absent id jobj key other.1, Option.none_or, iface_lookup _ _ key other.2.1 other.2.2]

theorem puts_distinct (pairs obj : Json) (distinct : (obj.map Prod.fst).Nodup) :
    ((pairs.foldl (fun obj pair => putEntry pair.1 pair.2 obj) obj).map Prod.fst).Nodup := by
  induction pairs generalizing obj with
  | nil => exact distinct
  | cons pair rest ih => exact ih _ (put_distinct _ _ obj distinct)

theorem update_distinct (distinct : (jssid.map Prod.fst).Nodup) : ((ssidUpdate id jobj jssid).map Prod.fst).Nodup := by
  rw [ssid_update_eq]
  refine puts_distinct _ _ ?_
  cases jobj.lookup _ with
  | none => exact distinct
  | some root =>
    rw [clIfaceCfgUpt]
    refine put_distinct _ _ _ ?_
    rw [clIfaceSsidSuffixUpt]
    split
    · exact distinct
    · dsimp only
      split
      · exact distinct
      · exact put_distinct _ _ _ distinct

theorem suffix_settled (loaded : Loaded obj options) (carries : Carries id jobj options)
    (root : Json) (given : jobj.lookup (ssidOption id (ascii "iface")) = some root) :
    clIfaceSsidSuffixUpt obj (jsonText root (ascii "ssid_hz")) = obj := by
  have text : jsonText obj emsSsidSuffix = jsonText root (ascii "ssid_hz") := by
    rw [jsonText, loaded _ (ruled_keys_free.1 _ (by decide)), stringAt, carries.suffix root given, optionOf]
    by_cases empty : jsonText root (ascii "ssid_hz") = []
    · rw [if_pos empty, empty]
      rfl
    · rw [if_neg empty]
      rfl
  rw [clIfaceSsidSuffixUpt]
  split
  · rfl
  · rw [text, if_pos ⟨rfl, .inr rfl⟩]

theorem carry_agrees (keys : (obj.map Prod.fst).Nodup) (usual : Usual options)
    (loaded : Loaded obj options) (carries : Carries id jobj options) : Agrees (ssidUpdate id jobj obj) options := by
  intro key value free there
  have found := (lookup_mem _ (update_distinct id jobj obj keys) key _).mpr there
  rw [ssid_update_lookup] at found
  have old (kept : obj.lookup key = some (some value)) : options.lookup key = optionOf value := by
    rw [loaded key free, string_at_some] at kept
    have filled : value ≠ [] := fun empty => usual.filled key (empty ▸ kept)
    rw [optionOf, if_neg filled, kept]
  cases put : (serverPuts id jobj).lookup key with
  | some given =>
    rw [put] at found
    have same : given = some _ := Option.some.inj found
    have given_here := (server_puts_texts id jobj (key, value)).mp (same ▸ put)
    have filled : value ≠ [] := by
      rcases List.mem_append.mp given_here with portal | radius
      · exact given_filled _ _ _ portal
      · exact given_filled _ _ _ radius
    rw [optionOf, if_neg filled, carries.texts _ given_here]
  | none =>
    rw [put, Option.none_or] at found
    cases root : jobj.lookup _ with
    | none =>
      rw [root] at found
      exact old found
    | some root_ =>
      rw [root, clIfaceCfgUpt] at found
      rw [suffix_settled id jobj obj _ loaded carries _ root, lookup_put] at found
      by_cases here : key = emsSsidSuffix
      · rw [if_pos here] at found
        rw [here, carries.suffix _ root, Option.some.inj (Option.some.inj found)]
      · rw [if_neg here] at found
        exact old found

theorem written_carries (keys : (obj.map Prod.fst).Nodup)
    (distinct : (options.map Prod.fst).Nodup) : Carries id jobj (writeOptions (ssidUpdate id jobj obj) options) := by
  have written := write_lookup _ _ (update_distinct id jobj obj keys) distinct
  constructor
  · intro pair there
    have put := (server_puts_texts id jobj pair).mpr there
    have own : pair.1 ∉ reserved := by
      refine ruled_keys_free.1 _ (List.mem_append_left _ ((server_puts_keys id jobj).subset ?_))
      exact List.mem_map_of_mem (f := Prod.fst) ((lookup_mem _ (server_puts_distinct id jobj) _ _).mp put)
    have filled : pair.2 ≠ [] := by
      rcases List.mem_append.mp there with portal | radius
      · exact given_filled _ _ _ portal
      · exact given_filled _ _ _ radius
    rw [written, ssid_update_lookup, put, Option.some_or]
    dsimp only
    rw [if_neg own, optionOf, if_neg filled]
  · intro root found
    have own : emsSsidSuffix ∉ reserved := ruled_keys_free.1 _ (by decide)
    rw [written, ssid_update_lookup, server_puts_absent id jobj _ server_keys_distinct.2.2, Option.none_or, found, clIfaceCfgUpt,
      lookup_put, if_pos rfl]
    exact if_neg own

theorem iface_old (root : Option Json) (key : Str) :
    (clIfaceCfgUpt jssid root).lookup key = jssid.lookup key ∨ ∃ text, (clIfaceCfgUpt jssid root).lookup key = some (some text) := by
  have suffix (newSuffix : Str) : (clIfaceSsidSuffixUpt jssid newSuffix).lookup key = jssid.lookup key ∨
      ∃ text, (clIfaceSsidSuffixUpt jssid newSuffix).lookup key = some (some text) := by
    rw [clIfaceSsidSuffixUpt]
    split
    · exact .inl rfl
    · dsimp only
      split
      · exact .inl rfl
      · rw [lookup_put]
        split
        · exact .inr ⟨_, rfl⟩
        · exact .inl rfl
  cases root with
  | none => exact .inl rfl
  | some root =>
    rw [clIfaceCfgUpt, lookup_put]
    split
    · exact .inr ⟨_, rfl⟩
    · exact suffix _

theorem strings_again (first second : Json) (options : List (Str × UciValue)) (keys : (first.map Prod.fst).Nodup)
    (distinct : (options.map Prod.fst).Nodup) (texts : ∀ key, first.lookup key ≠ some none)
    (covers : ∀ key text, key ∉ reserved → options.lookup key = some (.string text) → first.lookup key ≠ none)
    (loaded : Loaded second (writeOptions (ssidUpdate id jobj first) options)) (key value : Str) (own : key ∉ reserved)
    (there : (ssidUpdate id jobj second).lookup key = some (some value)) :
    (ssidUpdate id jobj first).lookup key = some (some value) := by
  have carries := written_carries id jobj _ _ keys distinct
  have written := write_lookup _ _ (update_distinct id jobj _ keys) distinct key
  rw [ssid_update_lookup] at there
  cases put : (serverPuts id jobj).lookup key with
  | some given =>
    rw [put] at there
    rw [ssid_update_lookup, put]
    exact there
  | none =>
    rw [put, Option.none_or] at there
    have now : (ssidUpdate id jobj first).lookup key =
        (clIfaceCfgUpt first (jobj.lookup (ssidOption id (ascii "iface")))).lookup key := by
      rw [ssid_update_lookup, put, Option.none_or]
    have back (kept : second.lookup key = some (some value)) : (ssidUpdate id jobj first).lookup key = some (some value) := by
      rw [loaded key own, string_at_some, written] at kept
      cases held : (ssidUpdate id jobj _).lookup key with
      | none =>
        rw [held] at kept
        rw [now] at held
        rcases iface_old _ _ key with same | ⟨text, same⟩
        · exact absurd (same ▸ held) (covers key _ own kept)
        · rw [same] at held
          cases held
      | some text =>
        cases text with
        | none =>
          rw [now] at held
          rcases iface_old _ _ key with same | ⟨text, same⟩
          · exact absurd (same ▸ held) (texts key)
          · rw [same] at held
            cases held
        | some text =>
          rw [held] at kept
          dsimp only at kept
          rw [if_neg own, optionOf] at kept
          split at kept
          · cases kept
          · rw [UciValue.string.inj (Option.some.inj kept)]
    cases root : jobj.lookup _ with
    | none =>
      rw [root] at there
      exact back there
    | some root_ =>
      rw [root, clIfaceCfgUpt, suffix_settled id jobj _ _ loaded carries _ root, lookup_put] at there
      by_cases here : key = emsSsidSuffix
      · rw [if_pos here] at there
        rw [now, root, clIfaceCfgUpt, lookup_put, if_pos here]
        exact there
      · rw [if_neg here] at there
        exact back there

end Update

end Codec.Wireless
