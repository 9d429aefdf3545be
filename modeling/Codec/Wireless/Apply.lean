import Codec.Wireless.Write

set_option autoImplicit false

namespace Codec.Wireless

open Codec.Ems List

def sectionId (s : UciSection) : Option Int :=
  match s.options.lookup emsIfaceId with
  | some (.string text) => some (Codec.Fw.emsAtoi text)
  | _ => none

local instance lawfulSection : LawfulBEq (Option Int) := inferInstance

def sectionCount (count : Nat) (file : List UciSection) : Nat :=
  file.length + (List.range count).countP fun j => decide (some ((j + 1 : Nat) : Int) ∉ file.map sectionId)

structure Ordinary (uci : LibUci) (room : Nat) (server : List ServerSsid) (file : List UciSection) : Prop where
  known : Known uci file
  typed : ∀ s ∈ file, s.type ≠ []
  usual : ∀ s ∈ file, Usual s.options
  numbered : Numbered 0 server.length (file.map sectionId)
  plain : ∀ entry ∈ uciLoad uci file, (∀ j < server.length, sectionId entry.2 ≠ some ((j + 1 : Nat) : Int)) →
    Fits uci room (emsUciLoadSection entry.1 entry.2)
  served : ∀ entry ∈ uciLoad uci file, ∀ j jobj, server[j]? = some jobj → sectionId entry.2 = some ((j + 1 : Nat) : Int) →
    Fits uci room (ssidUpdate (j + 1) jobj (emsUciLoadSection entry.1 entry.2))
  created : ∀ j jobj, server[j]? = some jobj → some ((j + 1 : Nat) : Int) ∉ file.map sectionId →
    Fits uci room (ssidUpdate (j + 1) jobj (emsUciCreateSsid (j + 1)))
  small : sectionCount server.length file + server.length + 1 < 2 ^ 31

def applied (server : List ServerSsid) (name : Str) (s : UciSection) : UciSection :=
  { s with options := writeOptions (touchFrom 0 server (emsUciLoadSection name s)) s.options }

def packageAfter (uci : LibUci) (server : List ServerSsid) (file : List UciSection) : Package :=
  (uciLoad uci file).map (fun entry => (entry.1, applied server entry.1 entry.2)) ++
    appended uci (anonymous file) (newFrom (file.map sectionId) 0 server)

section Remove

variable {uci : LibUci}

theorem remove_at (before after : List UciSection) (s : UciSection) (name : Str) (known : Known uci (before ++ s :: after))
    (small : (before ++ s :: after).length + 1 < 2 ^ 31) (belongs : Belongs uci (anonymous before) name s) :
    emsUciRemoveSection uci (before ++ s :: after) name =
      if sectionName uci (anonymous before) s = name then before ++ after else before ++ s :: after := by
  have here : s ∈ before ++ s :: after := mem_append_right _ mem_cons_self
  obtain ⟨left, right⟩ := known_apart _ _ s known
  rw [length_append, length_cons] at small
  have few := anonymous_small before
  have one := anonymous_one s
  have front : name ∉ (uciLoadFrom uci 0 before).map Prod.fst := by
    refine belongs_absent _ known s here _ 0 name belongs _ (load_belongs uci 0 _) ?_ (.inl ?_) (by omega) ?_ ?_
    · intro entry there
      have inside := mem_map_of_mem (f := Prod.snd) there
      rw [load_sections] at inside
      exact mem_append_left _ inside
    · rw [load_sections]
      omega
    · rw [load_length]
      omega
    · intro entry there
      have inside := mem_map_of_mem (f := Prod.snd) there
      rw [load_sections] at inside
      exact left _ inside
  have back : name ∉ (uciLoadFrom uci (anonymous before + anonymous [s]) after).map Prod.fst := by
    refine belongs_absent _ known s here _ _ name belongs _ (load_belongs uci _ _) ?_ (.inr (Nat.le_refl _))
      (by omega) ?_ ?_
    · intro entry there
      have inside := mem_map_of_mem (f := Prod.snd) there
      rw [load_sections] at inside
      exact mem_append_right _ (mem_cons_of_mem _ inside)
    · rw [load_length]
      split at one <;> omega
    · intro entry there
      have inside := mem_map_of_mem (f := Prod.snd) there
      rw [load_sections] at inside
      exact right _ inside
  have whole : name.take (511 - (uciCfgWireless.length + 1)) = name :=
    take_of_length_le (belongs_named _ known _ name s here belongs).2
  have names : (uciLoad uci (before ++ s :: after)).map Prod.fst = (uciLoadFrom uci 0 before).map Prod.fst ++
      sectionName uci (anonymous before) s :: (uciLoadFrom uci (anonymous before + anonymous [s]) after).map Prod.fst := by
    rw [uciLoad, load_append, map_append, Nat.zero_add, uciLoadFrom, map_cons]
  have length : ((uciLoadFrom uci 0 before).map Prod.fst).length = before.length := by rw [length_map, load_length]
  have not_front : ((uciLoadFrom uci 0 before).map Prod.fst).findIdx (fun other => decide (other = name)) = before.length := by
    rw [findIdx_eq_length_of_false, length]
    exact fun other there => decide_eq_false fun same => front (same ▸ there)
  rw [emsUciRemoveSection, whole, names, findIdx_append, not_front, length, if_neg (Nat.lt_irrefl _), findIdx_cons]
  by_cases same : sectionName uci (anonymous before) s = name
  · rw [if_pos same, decide_eq_true same, cond_true, Nat.zero_add, eraseIdx_append_of_length_le (Nat.le_refl _), Nat.sub_self]
    rfl
  · have not_back : ((uciLoadFrom uci (anonymous before + anonymous [s]) after).map Prod.fst).findIdx (fun other => decide (other = name)) =
        after.length := by
      rw [findIdx_eq_length_of_false, length_map, load_length]
      exact fun other there => decide_eq_false fun same => back (same ▸ there)
    rw [if_neg same, decide_eq_false same, cond_false, not_back]
    refine eraseIdx_of_length_le ?_
    rw [length_append, length_cons]
    omega

def StillNamed (uci : LibUci) (pkg : Package) (p : Nat) : Prop :=
  ∀ name s, pkg[p]? = some (name, s) → sectionName uci (anonymous ((pkg.take p).map Prod.snd)) s = name

theorem loop_removes (cfg : List Json) (count : Nat) (pkg : Package) (known : Known uci (pkg.map Prod.snd)) (small : pkg.length + 1 < 2 ^ 31)
    (all : BelongAll uci 0 pkg) (names : cfg.map (fun obj => jsonText obj uciSectionName) = pkg.map Prod.fst) (i : Nat) (below : i ≤ pkg.length)
    (tail : List UciSection) (later : tail.Sublist ((pkg.drop i).map Prod.snd)) :
    ∃ kept : List UciSection, kept.Sublist (((pkg.take i).drop count).map Prod.snd) ∧
      clCfgRemoveSection uci cfg count i ((pkg.take i).map Prod.snd ++ tail) = (pkg.take (min i count)).map Prod.snd ++ kept ++ tail ∧
      ((∀ p, count ≤ p → p < i → StillNamed uci pkg p) → kept = []) := by
  induction i generalizing tail with
  | zero => exact ⟨[], nil_sublist _, by rw [clCfgRemoveSection, Nat.zero_min]; simp, fun _ => rfl⟩
  | succ i ih =>
    have inside : i < pkg.length := below
    obtain ⟨⟨name, s⟩, entry⟩ : ∃ entry, pkg[i] = entry := ⟨_, rfl⟩
    have found : pkg[i]? = some (name, s) := by rw [getElem?_eq_getElem inside, entry]
    have taken : pkg.take (i + 1) = pkg.take i ++ [(name, s)] := by rw [take_add_one, found]; rfl
    have dropped : pkg.drop i = (name, s) :: pkg.drop (i + 1) := by rw [drop_eq_getElem_cons inside, entry]
    rw [clCfgRemoveSection]
    by_cases more : count < i + 1
    · rw [if_pos more]
      have text : jsonText (cfg[i]?.getD []) uciSectionName = name := by
        have same := congrArg (·[i]?) names
        rw [getElem?_map, getElem?_map, found] at same
        cases there : cfg[i]? with
        | none =>
          rw [there] at same
          exact nomatch same
        | some obj =>
          rw [there] at same
          exact Option.some.inj same
      have parts : BelongAll uci 0 (pkg.take i ++ pkg.drop i) := by rwa [take_append_drop]
      rw [dropped, belong_append, Nat.zero_add] at parts
      have belongs : Belongs uci _ name s := parts.2.1
      have rest : ((pkg.take i).map Prod.snd ++ s :: tail).Sublist (pkg.map Prod.snd) := by
        have whole : pkg.map Prod.snd = (pkg.take i).map Prod.snd ++ s :: (pkg.drop (i + 1)).map Prod.snd := by
          rw [← map_cons (f := Prod.snd) (a := (name, s)), ← dropped, ← map_append, take_append_drop]
        rw [whole]
        exact (Sublist.refl _).append (later.cons_cons s)
      have shorter := rest.length_le
      rw [length_map] at shorter
      have removed := remove_at _ tail s name (known.sublist rest) (by omega) belongs
      have file : (pkg.take (i + 1)).map Prod.snd ++ tail = (pkg.take i).map Prod.snd ++ s :: tail := by
        rw [taken, map_append, append_assoc]
        rfl
      have whole : s ∈ pkg.map Prod.snd := mem_map_of_mem (mem_of_getElem? found)
      have filled := (belongs_named _ known _ name s whole belongs).1
      have middle : ((pkg.take (i + 1)).drop count).map Prod.snd = ((pkg.take i).drop count).map Prod.snd ++ [s] := by
        rw [taken, drop_append_of_le_length (by rw [length_take]; omega), map_append]
        rfl
      dsimp only
      rw [text, if_neg filled, file, removed, middle, Nat.min_eq_right (show count ≤ i + 1 by omega)]
      by_cases same : sectionName uci (anonymous ((pkg.take i).map Prod.snd)) s = name
      · rw [if_pos same]
        obtain ⟨kept, sub, result, none⟩ := ih (by omega) tail (by rw [dropped]; exact later.cons s)
        rw [Nat.min_eq_right (show count ≤ i by omega)] at result
        exact ⟨kept, sub.trans (sublist_append_left _ _), result, fun still => none fun p low high => still p low (by omega)⟩
      · rw [if_neg same]
        obtain ⟨kept, sub, result, none⟩ := ih (by omega) (s :: tail) (by rw [dropped]; exact later.cons_cons s)
        rw [Nat.min_eq_right (show count ≤ i by omega)] at result
        refine ⟨kept ++ [s], sub.append (Sublist.refl _), ?_, fun still => absurd (still i (by omega) (by omega) name s found) same⟩
        rw [result]
        simp
    · rw [if_neg more, Nat.min_eq_left (by omega)]
      exact ⟨[], nil_sublist _, by rw [append_nil], fun _ => rfl⟩

end Remove

theorem load_id (name : Str) (s : UciSection) (usual : Usual s.options) : ifaceId (emsUciLoadSection name s) = sectionId s := by
  have own : emsIfaceId ∉ reserved := by decide
  rw [ifaceId, jsonText, load_loaded name s usual _ own, stringAt, sectionId]
  cases held : s.options.lookup _ with
  | none => rfl
  | some value =>
    cases value with
    | list items => rfl
    | string text =>
      have filled : text ≠ [] := fun empty => usual.filled _ (empty ▸ held)
      exact if_neg filled

theorem touch_lookup (i : Nat) (server : List ServerSsid) (obj : Json) (key : Str) (other : key ∉ ruledKeys) :
    (touchFrom i server obj).lookup key = obj.lookup key := by
  induction server generalizing i obj with
  | nil => rfl
  | cons jobj rest ih =>
    rw [touchFrom, ih]
    split
    · exact update_other _ _ _ _ other
    · rfl

theorem touch_distinct (i : Nat) (server : List ServerSsid) (obj : Json) (distinct : (obj.map Prod.fst).Nodup) :
    ((touchFrom i server obj).map Prod.fst).Nodup := by
  induction server generalizing i obj with
  | nil => exact distinct
  | cons jobj rest ih =>
    rw [touchFrom]
    refine ih _ _ ?_
    split
    · exact update_distinct _ _ _ distinct
    · exact distinct

theorem new_cases (ids : List (Option Int)) (i : Nat) (server : List ServerSsid) (obj : Json) :
    obj ∈ newFrom ids i server ↔ ∃ j jobj, server[j]? = some jobj ∧ some ((i + j + 1 : Nat) : Int) ∉ ids ∧
      obj = ssidUpdate (i + j + 1) jobj (emsUciCreateSsid (i + j + 1)) := by
  induction server generalizing i with
  | nil => exact ⟨fun there => (nomatch there), fun ⟨j, jobj, found, _⟩ => (nomatch found)⟩
  | cons first rest ih =>
    have later : obj ∈ newFrom ids (i + 1) rest ↔ ∃ j jobj, (first :: rest)[j + 1]? = some jobj ∧
        some ((i + (j + 1) + 1 : Nat) : Int) ∉ ids ∧ obj = ssidUpdate (i + (j + 1) + 1) jobj (emsUciCreateSsid (i + (j + 1) + 1)) := by
      rw [ih]
      refine exists_congr fun j => exists_congr fun jobj => ?_
      rw [getElem?_cons_succ, show i + 1 + j + 1 = i + (j + 1) + 1 by omega]
    rw [newFrom]
    constructor
    · intro there
      by_cases seen : some ((i + 1 : Nat) : Int) ∈ ids
      · rw [if_pos seen] at there
        obtain ⟨j, jobj, rest_⟩ := later.mp there
        exact ⟨j + 1, jobj, rest_⟩
      · rw [if_neg seen] at there
        rcases mem_cons.mp there with here | there
        · exact ⟨0, first, rfl, seen, here⟩
        · obtain ⟨j, jobj, rest_⟩ := later.mp there
          exact ⟨j + 1, jobj, rest_⟩
    · rintro ⟨j, jobj, found, missing, made⟩
      cases j with
      | zero =>
        have same : first = jobj := Option.some.inj found
        rw [if_neg missing, same]
        exact made ▸ mem_cons_self
      | succ j =>
        have there := later.mpr ⟨j, jobj, found, missing, made⟩
        split
        · exact there
        · exact mem_cons_of_mem _ there

section After

variable {uci : LibUci} {room : Nat} {server : List ServerSsid} {file : List UciSection} (ordinary : Ordinary uci room server file)

theorem known_same {uci : LibUci} {file other : List UciSection} (known : Known uci file)
    (same : other.map UciSection.declared = file.map UciSection.declared) : Known uci other := by
  constructor
  · have listed (list : List _) : list.filterMap UciSection.declared = (list.map UciSection.declared).filterMap id := by
      rw [filterMap_map]
      rfl
    have distinct := known.distinct
    rw [listed] at distinct ⊢
    rwa [same]
  · intro s there name own
    have inside : s.declared ∈ file.map _ := same ▸ mem_map_of_mem there
    obtain ⟨t, here, equal⟩ := mem_map.mp inside
    exact known.proper t here name (equal ▸ own)

theorem anonymous_same (file other : List UciSection) (same : other.map UciSection.declared = file.map UciSection.declared) :
    anonymous other = anonymous file := by
  have counted (list : List _) : anonymous list = (list.map UciSection.declared).countP Option.isNone := by
    rw [countP_map]
    rfl
  rw [counted, counted, same]

theorem load_entry (count : Nat) (file : List UciSection) (entry : Str × UciSection) (there : entry ∈ uciLoadFrom uci count file) : entry.2 ∈ file := by
  have inside := mem_map_of_mem (f := Prod.snd) there
  rwa [load_sections] at inside

theorem belong_map (count : Nat) (pkg : Package) (all : BelongAll uci count pkg) (change : Str → UciSection → UciSection)
    (same : ∀ name s, (change name s).declared = s.declared) :
    BelongAll uci count (pkg.map fun entry => (entry.1, change entry.1 entry.2)) := by
  induction pkg generalizing count with
  | nil => trivial
  | cons entry rest ih =>
    obtain ⟨name, s⟩ := entry
    have counts : anonymous [change name s] = anonymous [s] := by rw [anonymous_one, anonymous_one, same]
    refine ⟨?_, ?_⟩
    · rw [Belongs, same]
      exact all.1
    · rw [counts]
      exact ih _ all.2

theorem new_plain (obj : Json) (there : obj ∈ newFrom (file.map sectionId) 0 server) :
    obj.lookup uciSectionName = none ∧ jsonText obj uciSectionType = wifiIface := by
  obtain ⟨j, jobj, _, _, rfl⟩ := (new_cases _ _ _ _).mp there
  have name : uciSectionName ∉ ruledKeys := by decide
  have type : uciSectionType ∉ ruledKeys := by decide
  constructor
  · rw [update_other _ _ _ _ name]
    rfl
  · rw [jsonText, update_other _ _ _ _ type]
    rfl

theorem new_length (ids : List (Option Int)) (i : Nat) (server : List ServerSsid) :
    (newFrom ids i server).length = (List.range server.length).countP fun j => decide (some ((i + j + 1 : Nat) : Int) ∉ ids) := by
  induction server generalizing i with
  | nil => rfl
  | cons jobj rest ih =>
    have later : (range rest.length).countP ((fun j => decide (some ((i + j + 1 : Nat) : Int) ∉ ids)) ∘ Nat.succ) =
        (newFrom ids (i + 1) rest).length := by
      rw [ih]
      refine countP_congr fun j _ => ?_
      rw [Function.comp_apply, show i + j.succ + 1 = i + 1 + j + 1 by omega]
    rw [newFrom, length_cons, range_succ_eq_map, countP_cons, countP_map, later]
    by_cases seen : some ((i + 1 : Nat) : Int) ∈ ids
    · rw [if_pos seen, if_neg (by simpa using seen)]
      rfl
    · rw [if_neg seen, if_pos (by simpa using seen), length_cons]

theorem known_anonymous_all {uci : LibUci} (file news : List UciSection) (known : Known uci file) (plain : ∀ s ∈ news, s.declared = none) :
    Known uci (file ++ news) := by
  induction news generalizing file with
  | nil => rwa [append_nil]
  | cons s rest ih =>
    have one := known_anonymous file known s (plain s mem_cons_self)
    have all := ih _ one fun t there => plain t (mem_cons_of_mem _ there)
    rwa [append_assoc] at all

theorem appended_plain (uci : LibUci) (count : Nat) (news : List Json) (s : UciSection) :
    s ∈ (appended uci count news).map Prod.snd ↔ ∃ obj ∈ news, s = ⟨none, wifiIface, writeOptions obj []⟩ := by
  induction news generalizing count with
  | nil => exact ⟨fun there => (nomatch there), fun ⟨_, there, _⟩ => (nomatch there)⟩
  | cons obj rest ih =>
    rw [appended, map_cons, mem_cons, ih]
    simp

theorem loaded_sections (usual : ∀ s ∈ file, Usual s.options) (numbered : Numbered 0 server.length (file.map sectionId))
    (few : server.length < 2 ^ 31) : clWirelessCfgUpdate 0 server (emsUciLoadCfg uci file) =
      (uciLoad uci file).map (fun entry => touchFrom 0 server (emsUciLoadSection entry.1 entry.2)) ++ newFrom (file.map sectionId) 0 server := by
  have ids : (emsUciLoadCfg uci file).map ifaceId = file.map sectionId := by
    rw [emsUciLoadCfg, map_map]
    have same := load_sections uci 0 file
    conv_rhs => rw [← same, map_map]
    exact map_congr_left fun entry there => load_id _ _ (usual _ (load_entry 0 file _ there))
  rw [update_eq 0 _ _ (by omega) (by rw [ids, Nat.zero_add]; exact numbered), ids, emsUciLoadCfg, map_map]
  rfl

theorem ordinary_of_fits (known : Known uci file) (typed : ∀ s ∈ file, s.type ≠ []) (usual : ∀ s ∈ file, Usual s.options)
    (numbered : Numbered 0 server.length (file.map sectionId)) (fits : ∀ obj ∈ clWirelessCfgUpdate 0 server (emsUciLoadCfg uci file), Fits uci room obj)
    (small : sectionCount server.length file + server.length + 1 < 2 ^ 31) : Ordinary uci room server file := by
  rw [loaded_sections usual numbered (by omega)] at fits
  have touched (entry : Str × UciSection) (there : entry ∈ uciLoad uci file) := fits _ (mem_append_left _ (mem_map_of_mem there))
  have id (entry : Str × UciSection) (there : entry ∈ uciLoad uci file) := load_id entry.1 _ (usual _ (load_entry 0 file _ there))
  refine ⟨known, typed, usual, numbered, fun entry there plain => ?_, fun entry there j jobj given number => ?_, fun j jobj given missing => ?_, small⟩
  · have same := touch_other 0 server _ fun j below => by rw [id entry there, Nat.zero_add]; exact plain j below
    exact same ▸ touched entry there
  · have here := touch_at 0 j _ _ _ given (by rw [id entry there, number, Nat.zero_add])
    rw [Nat.zero_add] at here
    exact here ▸ touched entry there
  · exact fits _ (mem_append_right _ ((new_cases _ 0 _ _).mpr ⟨j, jobj, given, by rwa [Nat.zero_add], by rw [Nat.zero_add]⟩))

include ordinary

theorem fits_loaded : ∀ obj ∈ (uciLoad uci file).map (fun entry => touchFrom 0 server (emsUciLoadSection entry.1 entry.2)) ++
    newFrom (file.map sectionId) 0 server, Fits uci room obj := by
  intro obj there
  rcases mem_append.mp there with old | new
  · obtain ⟨entry, inside, rfl⟩ := mem_map.mp old
    have id := load_id entry.1 _ (ordinary.usual _ (load_entry 0 file _ inside))
    by_cases plain : ∀ j < server.length, sectionId entry.2 ≠ some ((j + 1 : Nat) : Int)
    · have same := touch_other 0 server _ fun j below => by rw [id, Nat.zero_add]; exact plain j below
      rw [same]
      exact ordinary.plain entry inside plain
    · push Not at plain
      obtain ⟨j, below, number⟩ := plain
      have given : server[j]? = some _ := getElem?_eq_getElem below
      rw [touch_at 0 j _ _ _ given (by rw [id, number, Nat.zero_add]), Nat.zero_add]
      exact ordinary.served entry inside j _ given number
  · obtain ⟨j, jobj, given, missing, rfl⟩ := (new_cases _ 0 _ _).mp new
    rw [Nat.zero_add] at missing ⊢
    exact ordinary.created j jobj given missing

theorem written_after :
    (emsUciUpdateCfg uci room (clWirelessCfgUpdate 0 server (emsUciLoadCfg uci file)) (uciLoad uci file)).2 = packageAfter uci server file ∧
    (emsUciUpdateCfg uci room (clWirelessCfgUpdate 0 server (emsUciLoadCfg uci file)) (uciLoad uci file)).1.map
      (fun obj => jsonText obj uciSectionName) = (packageAfter uci server file).map Prod.fst ∧
    BelongAll uci 0 (packageAfter uci server file) ∧ Known uci ((packageAfter uci server file).map Prod.snd) := by
  have few := new_length (file.map sectionId) 0 server
  simp only [Nat.zero_add] at few
  have small := ordinary.small
  rw [sectionCount, ← few] at small
  have fits := fits_loaded ordinary
  have loaded := load_belongs uci 0 file
  have length := load_length uci 0 file
  have sections := load_sections uci 0 file
  rw [loaded_sections ordinary.usual ordinary.numbered (by omega)]
  have name : uciSectionName ∉ ruledKeys := by decide
  have type : uciSectionType ∉ ruledKeys := by decide
  have distinct : ((uciLoad uci file).map Prod.fst).Nodup := by
    rw [Nodup, pairwise_map, pairwise_iff_getElem]
    intro p q low high less same
    have split_ : uciLoad uci file = (uciLoad uci file).take q ++ ((uciLoad uci file)[q].1, (uciLoad uci file)[q].2) :: (uciLoad uci file).drop (q + 1) := by
      rw [Prod.mk.eta, ← drop_eq_getElem_cons high, take_append_drop]
    have absent := (package_split (uciLoad uci file) (by rw [uciLoad, sections]; exact ordinary.known) (by rw [uciLoad, length]; omega)
      loaded _ _ _ _ split_).1
    refine absent (same ▸ mem_map_of_mem ?_)
    rw [mem_take_iff_getElem]
    exact ⟨p, by omega, rfl⟩
  have named : ∀ entry ∈ uciLoad uci file, jsonText (touchFrom 0 server (emsUciLoadSection entry.1 entry.2)) uciSectionName = entry.1 := by
    intro entry there
    rw [jsonText, touch_lookup _ _ _ _ name, load_lookup _ _ (ordinary.usual _ (load_entry 0 file _ there)), if_pos rfl]
    rfl
  have typed : ∀ entry ∈ uciLoad uci file, jsonText (touchFrom 0 server (emsUciLoadSection entry.1 entry.2)) uciSectionType ≠ [] := by
    intro entry there
    have inside := load_entry 0 file _ there
    have apart : ¬ uciSectionType = uciSectionName := by decide
    rw [jsonText, touch_lookup _ _ _ _ type, load_lookup _ _ (ordinary.usual _ inside), if_neg apart, if_pos rfl]
    exact ordinary.typed _ inside
  have filled : ∀ entry ∈ uciLoad uci file, entry.1 ≠ [] := by
    intro entry there
    obtain ⟨before, after, split_⟩ := append_of_mem there
    exact (package_split (uciLoad uci file) (by rw [uciLoad, sections]; exact ordinary.known) (by rw [uciLoad, length]; omega)
      loaded _ _ _ _ split_).2.2
  have first := @write_loaded uci room (uciLoad uci file) [] _
    (newFrom (file.map sectionId) 0 server) distinct filled named typed
    fun entry there => fits _ (mem_append_left _ (mem_map_of_mem there))
  have declared : (((uciLoad uci file).map fun entry => (entry.1, applied server entry.1 entry.2)).map Prod.snd).map UciSection.declared =
      file.map UciSection.declared := by
    conv_rhs => rw [← sections, map_map]
    rw [map_map, map_map]
    rfl
  have known := known_same ordinary.known declared
  have belong := @belong_map uci 0 (uciLoad uci file) loaded (applied server) fun _ _ => rfl
  have count := anonymous_same file _ declared
  have later := @write_new uci room _
    _ known
    (by rw [length_map, uciLoad, length]; omega) belong (fun obj there => (new_plain obj there).1) (fun obj there => (new_plain obj there).2)
    fun obj there => fits obj (mem_append_right _ there)
  have more := appended_belong _ belong (newFrom (file.map sectionId) 0 server)
  rw [count] at later more
  rw [nil_append, nil_append] at first
  rw [first]
  refine ⟨later.1, ?_, more, ?_⟩
  · rw [map_append, map_map, packageAfter, map_append, map_map]
    refine congrArg₂ _ (map_congr_left fun entry there => named _ there) later.2
  · rw [packageAfter, map_append]
    refine known_anonymous_all _ _ known fun s there => ?_
    obtain ⟨obj, _, made⟩ := (appended_plain _ _ _ _).mp there
    rw [made]

end After

end Codec.Wireless
