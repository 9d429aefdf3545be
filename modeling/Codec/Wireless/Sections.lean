import Codec.Wireless.Apply

set_option autoImplicit false

namespace Codec.Wireless

open Codec.Ems Codec.Lib
open Codec.Ssid (emsItoa)

theorem write_kept (obj : Json) (options : List (Str × UciValue)) (keys : (obj.map Prod.fst).Nodup) (usual : Usual options) (key : Str)
    (same : obj.lookup key = stringAt options key) : (writeOptions obj options).lookup key = options.lookup key := by
  rw [write_lookup obj _ keys usual.distinct]
  cases held : obj.lookup key with
  | none => rfl
  | some value =>
    cases value with
    | none => rfl
    | some text =>
      rw [same, string_at_some] at held
      have filled : text ≠ [] := fun empty => usual.filled key (empty ▸ held)
      dsimp only
      rw [held, optionOf, if_neg filled, ite_self]

section Old

variable (server : List ServerSsid) (name : Str) (s : UciSection) (usual : Usual s.options)

include usual

theorem applied_usual : Usual (applied server name s).options :=
  write_usual _ _ (touch_distinct _ _ _ (load_distinct name s)) usual

theorem applied_other (key : Str) (other : key ∉ ruledKeys) : (applied server name s).options.lookup key = s.options.lookup key := by
  have keys := touch_distinct 0 server _ (load_distinct name s)
  by_cases own : key ∈ reserved
  · rw [applied, write_lookup _ _ keys usual.distinct]
    split
    · rw [if_pos own]
    · rfl
  · refine write_kept _ _ keys usual key ?_
    rw [touch_lookup _ _ _ _ other, load_loaded name s usual key own]

theorem applied_id : sectionId (applied server name s) = sectionId s := by
  rw [sectionId, sectionId, applied_other _ name s usual _ ruled_keys_free.2]

theorem applied_plain (other : ∀ j < server.length, sectionId s ≠ some ((j + 1 : Nat) : Int)) : applied server name s = s := by
  have obj := touch_other 0 _ _ fun j below => by
    rw [load_id name s usual, Nat.zero_add]
    exact other j below
  rw [applied, obj, write_agree]
  intro key value own there
  have held := (lookup_mem _ (load_distinct name s) key _).mpr there
  rw [load_loaded name s usual key own, string_at_some] at held
  have filled : value ≠ [] := fun empty => usual.filled key (empty ▸ held)
  rw [held, optionOf, if_neg filled]

variable (j : Nat) (jobj : ServerSsid) (given : server[j]? = some jobj) (number : sectionId s = some ((j + 1 : Nat) : Int))

include given number

theorem touched_here : touchFrom 0 server (emsUciLoadSection name s) = ssidUpdate (j + 1) jobj (emsUciLoadSection name s) := by
  have here := touch_at 0 j _ jobj _ given (by rw [load_id name s usual, number, Nat.zero_add])
  rwa [Nat.zero_add] at here

theorem applied_carries : Carries (j + 1) jobj (applied server name s).options := by
  rw [applied, touched_here _ name s usual j jobj given number]
  exact written_carries _ jobj _ _ (load_distinct name s) usual.distinct

theorem applied_settled (carries : Carries (j + 1) jobj s.options) : applied server name s = s := by
  rw [applied, touched_here _ name s usual j jobj given number, write_agree]
  exact carry_agrees _ jobj _ _ (load_distinct name s) usual (load_loaded name s usual) carries

end Old

def made (id : Nat) (jobj : ServerSsid) : UciSection := ⟨none, wifiIface, writeOptions (ssidUpdate id jobj (emsUciCreateSsid id)) []⟩

section New

variable (id : Nat) (jobj : ServerSsid)

theorem usual_empty : Usual [] := ⟨List.nodup_nil, fun _ held => (nomatch held), fun _ _ => rfl⟩

theorem create_distinct : ((emsUciCreateSsid id).map Prod.fst).Nodup := by
  have keys : (emsUciCreateSsid id).map _ = (emsUciCreateSsid 0).map Prod.fst := rfl
  rw [keys]
  decide

theorem create_texts (key : Str) : (emsUciCreateSsid id).lookup key ≠ some none := by
  intro held
  have there := (lookup_mem _ (create_distinct id) key none).mp held
  simp [emsUciCreateSsid] at there

theorem made_usual : Usual (made id jobj).options :=
  write_usual _ _ (update_distinct id jobj _ (create_distinct id)) usual_empty

theorem made_carries : Carries id jobj (made id jobj).options :=
  written_carries id jobj _ _ (create_distinct id) usual_empty.distinct

theorem made_id (small : id < 2 ^ 31) : sectionId (made id jobj) = some (id : Int) := by
  have own : emsIfaceId ∉ reserved := by decide
  have number := create_id id small
  have text : (emsUciCreateSsid id).lookup emsIfaceId = some _ := rfl
  rw [ifaceId, jsonText, text] at number
  change (if emsItoa id = [] then none else some _) = some _ at number
  split at number
  · cases number
  · rename_i filled
    rw [sectionId, made, write_lookup _ _ (update_distinct id jobj _ (create_distinct id)) usual_empty.distinct,
      update_other id jobj _ _ ruled_keys_free.2, text]
    dsimp only
    rw [if_neg own, optionOf, if_neg filled]
    exact number

end New

section After

variable {uci : LibUci} {room : Nat} {server : List ServerSsid} {file : List UciSection}

theorem load_at (count : Nat) (file : List UciSection) (p : Nat) :
    (uciLoadFrom uci count file)[p]? = file[p]?.map fun s => (sectionName uci (count + anonymous (file.take p)) s, s) := by
  induction file generalizing count p with
  | nil => rfl
  | cons s rest ih =>
    cases p with
    | zero => rfl
    | succ p =>
      rw [uciLoadFrom, List.getElem?_cons_succ, List.getElem?_cons_succ, ih, List.take_succ_cons,
        anonymous_cons s (rest.take p), Nat.add_assoc]

def sectionsAfter (uci : LibUci) (server : List ServerSsid) (file : List UciSection) : List UciSection :=
  (packageAfter uci server file).map Prod.snd

theorem sections_after_eq : sectionsAfter uci server file =
    (uciLoad uci file).map (fun entry => applied server entry.1 entry.2) ++
      (newFrom (file.map sectionId) 0 server).map fun obj => ⟨none, wifiIface, writeOptions obj []⟩ := by
  have tail (count : Nat) (news : List Json) :
      (appended uci count news).map Prod.snd = news.map fun obj => (⟨none, wifiIface, writeOptions obj []⟩ : UciSection) := by
    induction news generalizing count with
    | nil => rfl
    | cons obj rest ih => rw [appended, List.map_cons, ih, List.map_cons]
  rw [sectionsAfter, packageAfter, List.map_append, List.map_map, tail]
  rfl

theorem sections_after_mem (s : UciSection) : s ∈ sectionsAfter uci server file ↔
    (∃ entry ∈ uciLoad uci file, s = applied server entry.1 entry.2) ∨
      ∃ j jobj, server[j]? = some jobj ∧ some ((j + 1 : Nat) : Int) ∉ file.map sectionId ∧ s = made (j + 1) jobj := by
  rw [sections_after_eq, List.mem_append, List.mem_map, List.mem_map]
  refine or_congr (exists_congr fun entry => and_congr_right fun _ => eq_comm) ?_
  constructor
  · rintro ⟨obj, there, rfl⟩
    obtain ⟨j, jobj, given, missing, same⟩ := (new_cases _ _ _ _).mp there
    rw [Nat.zero_add] at missing same
    exact ⟨j, jobj, given, missing, by rw [made, same]⟩
  · rintro ⟨j, jobj, given, missing, rfl⟩
    refine ⟨_, (new_cases _ _ _ _).mpr ⟨j, jobj, given, ?_, rfl⟩, ?_⟩
    · rwa [Nat.zero_add]
    · rw [made, Nat.zero_add]

theorem sections_after_old (p : Nat) (below : p < file.length) : ∃ name s, file[p]? = some s ∧ (name, s) ∈ uciLoad uci file ∧
    (packageAfter uci server file)[p]? = some (name, applied server name s) ∧ name = sectionName uci (anonymous (file.take p)) s := by
  have found := @load_at uci 0 file p
  rw [List.getElem?_eq_getElem below, Option.map_some, Nat.zero_add] at found
  refine ⟨_, file[p], List.getElem?_eq_getElem _, List.mem_of_getElem? found, ?_, rfl⟩
  rw [packageAfter, List.getElem?_append_left (by rw [List.length_map, uciLoad, load_length]; exact below), List.getElem?_map, uciLoad, found]
  rfl

theorem sections_after_cases (p : Nat) (w : UciSection) (found : (sectionsAfter uci server file)[p]? = some w) :
    (∃ name s, file[p]? = some s ∧ w = applied server name s) ∨
      ∃ j jobj, server[j]? = some jobj ∧ some ((j + 1 : Nat) : Int) ∉ file.map sectionId ∧ w = made (j + 1) jobj := by
  by_cases below : p < file.length
  · obtain ⟨name, s, here, _, placed, _⟩ := @sections_after_old uci _ file p below
    rw [sectionsAfter, List.getElem?_map, placed] at found
    exact .inl ⟨name, s, here, (Option.some.inj found).symm⟩
  · have length : ((uciLoad uci file).map fun entry => applied server entry.1 entry.2).length = file.length := by
      rw [List.length_map, uciLoad, load_length]
    rw [sections_after_eq, List.getElem?_append_right (by rw [length]; omega)] at found
    obtain ⟨obj, there, same⟩ := List.mem_map.mp (List.mem_of_getElem? found)
    obtain ⟨j, jobj, given, missing, equal⟩ := (new_cases _ _ _ _).mp there
    rw [Nat.zero_add] at missing equal
    exact .inr ⟨j, jobj, given, missing, by rw [made, ← equal, same]⟩

end After

end Codec.Wireless
