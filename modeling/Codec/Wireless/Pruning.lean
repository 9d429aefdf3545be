import Codec.Wireless.Sections
import Mathlib.Data.List.Pairwise

set_option autoImplicit false

namespace Codec.Wireless

open Codec.Ems Codec.Lib List

def Surplus (count : Nat) (s : UciSection) : Prop := s.type = wifiIface ∧ ∀ j < count, sectionId s ≠ some ((j + 1 : Nat) : Int)

structure Aligned (count : Nat) (file : List UciSection) : Prop where
  ifaces : ∀ s ∈ file, ∀ j < count, sectionId s = some ((j + 1 : Nat) : Int) → s.type = wifiIface
  window : ∀ p, (count ≤ p ∧ p + 1 < sectionCount count file) ↔ ∃ s, file[p]? = some s ∧ Surplus count s

structure Pruned (uci : LibUci) (room : Nat) (server : List ServerSsid) (file : List UciSection) : Prop where
  kept : (clProcessRules uci room server file).filter (fun s => decide (s.type ≠ wifiIface)) =
    file.filter fun s => decide (s.type ≠ wifiIface)
  served : ∀ j jobj, server[j]? = some jobj → ∃ r ∈ clProcessRules uci room server file,
    r.type = wifiIface ∧ sectionId r = some ((j + 1 : Nat) : Int) ∧ Carries (j + 1) jobj r.options ∧
      ∀ s ∈ file, sectionId s = some ((j + 1 : Nat) : Int) →
        r.declared = s.declared ∧ ∀ key, key ∉ ruledKeys → r.options.lookup key = s.options.lookup key
  only : ∀ r ∈ clProcessRules uci room server file, r.type = wifiIface → ∃ j < server.length, sectionId r = some ((j + 1 : Nat) : Int)
  stable : clProcessRules uci room server (clProcessRules uci room server file) = clProcessRules uci room server file

section Process

variable {uci : LibUci} {room : Nat} {server : List ServerSsid} {file : List UciSection} (ordinary : Ordinary uci room server file)

theorem sections_after_length : (sectionsAfter uci server file).length = sectionCount server.length file := by
  rw [sections_after_eq, length_append, length_map, length_map, uciLoad, load_length, new_length, sectionCount]
  simp only [Nat.zero_add]

include ordinary

theorem process_eq : ∃ kept : List UciSection,
    kept.Sublist (((sectionsAfter uci server file).take (sectionCount server.length file - 1)).drop server.length) ∧
    clProcessRules uci room server file = (sectionsAfter uci server file).take server.length ++ kept ++
      (sectionsAfter uci server file).drop (max server.length (sectionCount server.length file - 1)) ∧
    ((∀ p, server.length ≤ p → p + 1 < sectionCount server.length file →
      ∃ s, file[p]? = some s ∧ (sectionsAfter uci server file)[p]? = some s) → kept = []) := by
  obtain ⟨result, names, belong, known⟩ := written_after ordinary
  have length := @sections_after_length uci server file
  have count : (emsUciUpdateCfg uci room (clWirelessCfgUpdate 0 server (emsUciLoadCfg uci file)) (uciLoad uci file)).1.length =
      sectionCount server.length file := by
    have same := congrArg List.length names
    rw [length_map, length_map] at same
    rw [same, ← length, sectionsAfter, length_map]
  have pkg_length : (packageAfter uci server file).length = sectionCount server.length file := by
    rw [← length, sectionsAfter, length_map]
  rw [clProcessRules, emsUciWriteCfg]
  rw [result, count]
  by_cases more : server.length < sectionCount server.length file
  · have small := ordinary.small
    obtain ⟨kept, sub, loop, none⟩ := loop_removes _ server.length _ known (by omega) belong names
      _ (by omega) (((packageAfter uci _ file).drop (sectionCount server.length file - 1)).map _)
      (Sublist.refl _)
    rw [← map_append, take_append_drop, Nat.min_eq_right (by omega)] at loop
    rw [if_pos more, Nat.max_eq_right (by omega)]
    refine ⟨kept, ?_, ?_, fun unchanged => none fun p low high => ?_⟩
    · rwa [sectionsAfter, ← map_take, ← map_drop]
    · rw [loop, sectionsAfter, map_take, map_drop]
    · intro name s found
      obtain ⟨t, old, now⟩ := unchanged p low (by omega)
      have below : p < file.length := by
        obtain ⟨below, _⟩ := List.getElem?_eq_some_iff.mp old
        exact below
      obtain ⟨name_, t_, here, _, placed, named⟩ := @sections_after_old uci _ file p below
      have declared : (((packageAfter uci server file).take p).map Prod.snd).map UciSection.declared = (file.take p).map UciSection.declared := by
        refine ext_getElem? fun q => ?_
        rw [getElem?_map, getElem?_map, getElem?_map, getElem?_take, getElem?_take]
        by_cases inside : q < p
        · have low_ : q < file.length := by omega
          obtain ⟨other, t, here, _, placed, _⟩ := @sections_after_old uci _ file q low_
          rw [if_pos inside, if_pos inside, here, placed]
          rfl
        · rw [if_neg inside, if_neg inside]
          rfl
      have same : name_ = name ∧ applied _ _ t_ = s := Prod.mk.inj (Option.some.inj (placed.symm.trans found))
      have equal : t_ = t := Option.some.inj (here.symm.trans old)
      rw [sectionsAfter, getElem?_map, found] at now
      have kept_ : s = t := Option.some.inj now
      rw [anonymous_same _ _ declared, kept_, ← equal, ← named, same.1]
  · have whole : ((packageAfter uci server file).map Prod.snd).length ≤ server.length := by
      rw [length_map]
      omega
    refine ⟨[], nil_sublist _, ?_, fun _ => rfl⟩
    rw [if_neg more, sectionsAfter, take_of_length_le whole, drop_eq_nil_of_le (by omega), append_nil, append_nil]

end Process

theorem mem_ends {α : Type} (list : List α) (k m : Nat) (item : α) :
    item ∈ list.take k ++ list.drop m ↔ ∃ p, (p < k ∨ m ≤ p) ∧ list[p]? = some item := by
  rw [mem_append, mem_iff_getElem?, mem_iff_getElem?]
  constructor
  · rintro (⟨p, found⟩ | ⟨p, found⟩)
    · rw [getElem?_take] at found
      split at found
      · rename_i low
        exact ⟨p, .inl low, found⟩
      · exact nomatch found
    · rw [getElem?_drop] at found
      exact ⟨m + p, .inr (Nat.le_add_right m p), found⟩
  · rintro ⟨p, low | high, found⟩
    · exact .inl ⟨p, by rw [getElem?_take, if_pos low, found]⟩
    · exact .inr ⟨p - m, by rw [getElem?_drop, Nat.add_sub_cancel' high, found]⟩

theorem three_parts {α : Type} (list : List α) (k : Nat) :
    list = list.take k ++ (list.take (list.length - 1)).drop k ++ list.drop (max k (list.length - 1)) := by
  by_cases more : k ≤ list.length - 1
  · rw [Nat.max_eq_right more]
    conv_lhs => rw [← take_append_drop _ list, ← take_append_drop k (list.take _), take_take,
      Nat.min_eq_left more]
  · have empty : (list.take (list.length - 1)).drop k = [] := drop_eq_nil_of_le (by rw [length_take]; omega)
    rw [Nat.max_eq_left (by omega), empty, append_nil, take_append_drop]

section Numbers

variable {server : List ServerSsid} {file : List UciSection}

theorem numbered_unique (count : Nat) (sections : List UciSection) (numbered : Numbered 0 count (sections.map sectionId)) (s t : UciSection)
    (here : s ∈ sections) (there : t ∈ sections) (j : Nat) (below : j < count) (one : sectionId s = some ((j + 1 : Nat) : Int))
    (two : sectionId t = some ((j + 1 : Nat) : Int)) : s = t := by
  by_contra apart
  rw [Numbered, pairwise_map] at numbered
  have symmetric : Std.Symm fun a b : UciSection =>
      ∀ id : Nat, 0 < id → id ≤ count → sectionId a = some _ → sectionId b ≠ some (id : Int) :=
    ⟨fun a b forth id low high second first => forth id low high first second⟩
  exact numbered.forall here there apart _ (by omega) (by omega) one two

theorem new_numbered (ids : List (Option Int)) (i : Nat) (small : i + server.length < 2 ^ 31) :
    Numbered 0 (i + server.length) ((newFrom ids i server).map ifaceId) := by
  induction server generalizing i with
  | nil => exact Pairwise.nil
  | cons jobj rest ih =>
    rw [length_cons] at small
    have later := ih (i + 1) (by omega)
    rw [show i + 1 + rest.length = i + (rest.length + 1) by omega] at later
    rw [newFrom, length_cons]
    split
    · exact later
    · rw [map_cons, update_id, create_id _ (by omega)]
      refine pairwise_cons.mpr ⟨fun number there id _ _ same => ?_, later⟩
      obtain ⟨obj, inside, rfl⟩ := mem_map.mp there
      obtain ⟨j, other, found, _, rfl⟩ := (new_cases _ _ _ _).mp inside
      have below := (List.getElem?_eq_some_iff.mp found).1
      rw [update_id, create_id _ (by omega), ne_eq, Option.some_inj]
      rw [Option.some_inj] at same
      omega

end Numbers

section Process

variable {uci : LibUci} {room : Nat} {server : List ServerSsid} {file : List UciSection} (ordinary : Ordinary uci room server file)

include ordinary

theorem sections_after_ids : (sectionsAfter uci server file).map sectionId =
    file.map sectionId ++ (newFrom (file.map sectionId) 0 server).map ifaceId := by
  have small := ordinary.small
  rw [sections_after_eq, map_append, map_map, map_map]
  congr 1
  · have sections := load_sections uci 0 file
    conv_rhs => rw [← sections, map_map]
    exact map_congr_left fun entry there => applied_id _ _ _ (ordinary.usual _ (load_entry 0 file _ there))
  · refine map_congr_left fun obj there => ?_
    obtain ⟨j, jobj, found, _, rfl⟩ := (new_cases _ _ _ _).mp there
    have below := (List.getElem?_eq_some_iff.mp found).1
    have number := made_id (0 + j + 1) jobj (by omega)
    rw [Function.comp_apply, update_id, create_id _ (by omega)]
    exact number

theorem sections_after_numbered : Numbered 0 server.length ((sectionsAfter uci server file).map sectionId) := by
  have small := ordinary.small
  have news := @new_numbered server (file.map sectionId) 0 (by omega)
  rw [Nat.zero_add] at news
  rw [sections_after_ids ordinary]
  refine pairwise_append.mpr ⟨ordinary.numbered, news, fun number old other new id _ _ same equal => ?_⟩
  obtain ⟨obj, inside, rfl⟩ := mem_map.mp new
  obtain ⟨j, jobj, found, missing, rfl⟩ := (new_cases _ _ _ _).mp inside
  have below := (List.getElem?_eq_some_iff.mp found).1
  rw [update_id, create_id _ (by omega)] at equal
  rw [same, ← equal] at old
  exact missing old

theorem settled (served : ∀ j jobj, server[j]? = some jobj → ∃ r ∈ file, sectionId r = some ((j + 1 : Nat) : Int) ∧
    Carries (j + 1) jobj r.options) :
    clProcessRules uci room server file = file.take server.length ++ file.drop (max server.length (file.length - 1)) := by
  have none_new : newFrom (file.map sectionId) 0 server = [] := by
    refine eq_nil_iff_forall_not_mem.mpr fun obj there => ?_
    obtain ⟨j, jobj, found, missing, _⟩ := (new_cases _ _ _ _).mp there
    obtain ⟨r, inside, number, _⟩ := served j jobj found
    rw [Nat.zero_add, ← number] at missing
    exact missing (mem_map_of_mem inside)
  have same : sectionsAfter uci server file = file := by
    have sections := load_sections uci 0 file
    rw [sections_after_eq, none_new, map_nil, append_nil]
    conv_rhs => rw [← sections]
    refine map_congr_left fun entry there => ?_
    have inside := load_entry 0 file _ there
    by_cases plain : ∀ j < server.length, sectionId entry.2 ≠ some ((j + 1 : Nat) : Int)
    · exact applied_plain _ _ _ (ordinary.usual _ inside) plain
    · push Not at plain
      obtain ⟨j, below, number⟩ := plain
      have found : server[j]? = some _ := getElem?_eq_getElem below
      obtain ⟨r, there, equal, carries⟩ := served j _ found
      have unique := numbered_unique _ file ordinary.numbered r _ there inside j below equal number
      exact applied_settled _ _ _ (ordinary.usual _ inside) j _ found number (unique ▸ carries)
  have length := @sections_after_length uci server file
  obtain ⟨kept, _, result, none⟩ := process_eq ordinary
  rw [same] at result none length
  rw [← length] at result none
  have empty := none fun p _ high => ⟨file[p], getElem?_eq_getElem _, getElem?_eq_getElem _⟩
  rw [result, empty, append_nil]

theorem process_sublist : (clProcessRules uci room server file).Sublist (sectionsAfter uci server file) := by
  obtain ⟨kept, sub, result, _⟩ := process_eq ordinary
  rw [← @sections_after_length uci server file] at sub result
  rw [result]
  conv_rhs => rw [three_parts (sectionsAfter uci _ file) server.length]
  exact ((Sublist.refl _).append sub).append (Sublist.refl _)

end Process

theorem load_name (uci : LibUci) (count : Nat) (file : List UciSection) (name : Str) (s : UciSection)
    (there : (name, s) ∈ uciLoadFrom uci count file) :
    (∀ declared, s.declared = some declared → name = declared) ∧ (s.declared = none → name.length ≤ 15) := by
  obtain ⟨p, found⟩ := mem_iff_getElem?.mp there
  rw [load_at] at found
  obtain ⟨t, _, made⟩ := Option.map_eq_some_iff.mp found
  obtain ⟨named, same⟩ := Prod.mk.inj made
  rw [same, sectionName] at named
  constructor
  · intro declared own
    rw [← named, own]
    rfl
  · intro plain
    rw [← named, plain]
    exact uci.short _ _ _

theorem jsonText_none (obj : Json) (key : Str) (absent : obj.lookup key = none) : jsonText obj key = [] := by
  rw [jsonText, absent]
  rfl

section Again

variable {uci : LibUci} {room : Nat} {server : List ServerSsid} {file : List UciSection} (ordinary : Ordinary uci room server file)

theorem others_after : (sectionsAfter uci server file).filter (fun s => decide (s.type ≠ wifiIface)) =
    ((uciLoad uci file).map fun entry => applied server entry.1 entry.2).filter fun s => decide (s.type ≠ wifiIface) := by
  have news : ((newFrom (file.map sectionId) 0 server).map fun obj => (⟨none, wifiIface, writeOptions obj []⟩ : UciSection)).filter
      (fun s => decide (s.type ≠ wifiIface)) = [] := by
    refine filter_eq_nil_iff.mpr fun s there plain => ?_
    obtain ⟨obj, _, rfl⟩ := mem_map.mp there
    exact of_decide_eq_true plain rfl
  rw [sections_after_eq, filter_append, news, append_nil]

theorem same_types : ((sectionsAfter uci server file).filter (fun s => decide (s.type ≠ wifiIface))).length =
    (file.filter fun s => decide (s.type ≠ wifiIface)).length := by
  have sections := load_sections uci 0 file
  rw [others_after]
  conv_rhs => rw [← sections]
  rw [filter_map, filter_map, length_map, length_map]
  rfl

include ordinary

theorem fits_again (name : Str) (r : UciSection) (usual : Usual r.options) (left : r ∈ sectionsAfter uci server file) (names : (∀ declared, r.declared = some declared → name = declared) ∧
    (r.declared = none → name.length ≤ 15)) : Fits uci room (touchFrom 0 server (emsUciLoadSection name r)) := by
  have small := ordinary.small
  have fits := fits_loaded ordinary
  have own_name : uciSectionName ∉ ruledKeys := by decide
  have text (name : Str) (s : UciSection) (usual : Usual s.options) :
      jsonText (touchFrom 0 server (emsUciLoadSection name s)) uciSectionName = name := by
    rw [jsonText, touch_lookup _ _ _ _ own_name, load_lookup _ _ usual, if_pos rfl]
    rfl
  intro key value own there
  have held := (lookup_mem _ (touch_distinct 0 _ _ (load_distinct name r)) key _).mpr there
  rw [text name r usual]
  rcases (sections_after_mem r).mp left with ⟨⟨old, s⟩, inside, rfl⟩ | ⟨j, jobj, given, missing, rfl⟩
  · have usual_s := ordinary.usual s (load_entry 0 file _ inside)
    have width : max name.length 15 = max old.length 15 := by
      have named := load_name uci 0 file old s inside
      cases declared : s.declared with
      | some declared_ => rw [names.1 _ declared, named.1 _ declared]
      | none =>
        have short := names.2 declared
        have short_ := named.2 declared
        omega
    have again : (touchFrom 0 server (emsUciLoadSection old s)).lookup key = some (some value) := by
      by_cases plain : ∀ j < server.length, sectionId s ≠ some ((j + 1 : Nat) : Int)
      · have same := applied_plain _ old s usual_s plain
        have untouched (name : Str) : touchFrom 0 server (emsUciLoadSection name s) = emsUciLoadSection name s := by
          refine touch_other 0 _ _ fun j below => ?_
          rw [load_id name s usual_s, Nat.zero_add]
          exact plain j below
        rw [same, untouched, load_loaded _ _ usual_s key own] at held
        rw [untouched, load_loaded _ _ usual_s key own, held]
      · push Not at plain
        obtain ⟨j, below, number⟩ := plain
        have given : server[j]? = some _ := getElem?_eq_getElem below
        have here := touched_here _ old s usual_s j _ given number
        rw [touched_here _ name _ usual j _ given (by rw [applied_id _ old s usual_s, number])] at held
        rw [here]
        refine strings_again _ _ _ _ _
          (load_distinct old s) usual_s.distinct ?_ ?_ ?_ key _ own held
        · intro key
          rw [load_lookup old s usual_s]
          split
          · intro same; cases same
          · split
            · intro same; cases same
            · exact string_at_not_none _ _
        · intro key text free there
          rw [load_loaded old s usual_s key free, (string_at_some _ _ _).mpr there]
          intro same; cases same
        · rw [← here]
          exact load_loaded name _ usual
    have was := (lookup_mem _ (touch_distinct 0 _ _ (load_distinct old s)) key _).mp again
    have fit := fits _ (mem_append_left _ (mem_map_of_mem inside)) key _ own was
    rw [text old s usual_s] at fit
    rwa [width]
  · have below := (List.getElem?_eq_some_iff.mp given).1
    rw [touched_here _ name _ usual j jobj given (made_id _ jobj (by omega))] at held
    have again := strings_again _ jobj _ _ [] (create_distinct _)
      nodup_nil (create_texts _) (fun _ _ _ none_there => by cases none_there) (load_loaded name _ usual) key _ own held
    have was := (lookup_mem _ (update_distinct _ _ _ (create_distinct _)) key _).mp again
    have new := (new_cases _ 0 _ _).mpr
      ⟨j, jobj, given, by rwa [Nat.zero_add], by rw [Nat.zero_add]⟩
    have fit := fits _ (mem_append_right _ new) key _ own was
    have empty : jsonText _ _ = [] := (jsonText_none _ _ (new_plain _ new).1)
    have short := names.2 rfl
    rw [empty, length_nil] at fit
    exact ⟨fit.1, by omega⟩

theorem sections_after_usual (r : UciSection) (left : r ∈ sectionsAfter uci server file) : Usual r.options ∧ r.type ≠ [] := by
  have no_type : wifiIface ≠ [] := by decide
  rcases (sections_after_mem r).mp left with ⟨⟨old, s⟩, inside, rfl⟩ | ⟨j, jobj, _, _, rfl⟩
  · have here := load_entry 0 file _ inside
    exact ⟨applied_usual _ old s (ordinary.usual s here), ordinary.typed s here⟩
  · exact ⟨made_usual _ jobj, no_type⟩

theorem ordinary_again (present : ∀ j < server.length, ∃ r ∈ clProcessRules uci room server file, sectionId r = some ((j + 1 : Nat) : Int)) :
    Ordinary uci room server (clProcessRules uci room server file) := by
  have sub := process_sublist ordinary
  have small := ordinary.small
  have numbered : Numbered 0 _ _ := (sections_after_numbered ordinary).sublist (sub.map _)
  have usual : ∀ r ∈ clProcessRules uci room _ file, Usual _ :=
    fun r there => (sections_after_usual ordinary r (sub.subset there)).1
  have none_new : newFrom ((clProcessRules uci room server file).map sectionId) 0 server = [] := by
    refine eq_nil_iff_forall_not_mem.mpr fun obj there => ?_
    obtain ⟨j, jobj, found, missing, _⟩ := (new_cases _ _ _ _).mp there
    obtain ⟨r, inside, number⟩ := present j (List.getElem?_eq_some_iff.mp found).1
    rw [Nat.zero_add, ← number] at missing
    exact missing (mem_map_of_mem inside)
  refine ordinary_of_fits ((written_after ordinary).2.2.2.sublist sub) (fun r there => (sections_after_usual ordinary r (sub.subset there)).2) usual
    numbered (fun obj there => ?_) ?_
  · rw [loaded_sections usual numbered (by omega), none_new, append_nil] at there
    obtain ⟨⟨name, r⟩, inside, rfl⟩ := mem_map.mp there
    have here := load_entry 0 _ _ inside
    exact fits_again ordinary name r (usual r here) (sub.subset here) (load_name uci 0 _ name r inside)
  · have length := sub.length_le
    have few := new_length ((clProcessRules uci room server file).map sectionId) 0 server
    rw [none_new, length_nil] at few
    simp only [Nat.zero_add] at few
    rw [sections_after_length] at length
    rw [sectionCount, ← few]
    omega

theorem second_application (served : ∀ j jobj, server[j]? = some jobj → ∃ r ∈ clProcessRules uci room server file,
    sectionId r = some ((j + 1 : Nat) : Int) ∧ Carries (j + 1) jobj r.options) :
    clProcessRules uci room server (clProcessRules uci room server file) =
      (clProcessRules uci room server file).take server.length ++
        (clProcessRules uci room server file).drop (max server.length ((clProcessRules uci room server file).length - 1)) := by
  refine settled (ordinary_again ordinary fun j below => ?_) served
  obtain ⟨r, there, number, _⟩ := served j _ (getElem?_eq_getElem below)
  exact ⟨r, there, number⟩

theorem other_kept (types : ∀ s ∈ file, ∀ j < server.length, sectionId s = some ((j + 1 : Nat) : Int) → s.type = wifiIface) :
    (sectionsAfter uci server file).filter (fun s => decide (s.type ≠ wifiIface)) = file.filter fun s => decide (s.type ≠ wifiIface) := by
  have sections := load_sections uci 0 file
  rw [others_after]
  conv_rhs => rw [← sections]
  rw [filter_map, filter_map]
  refine map_congr_left fun entry there => ?_
  obtain ⟨inside, other⟩ := mem_filter.mp there
  have here := load_entry 0 file _ inside
  refine applied_plain _ _ _ (ordinary.usual _ here) fun j below number => ?_
  have iface : entry.2.type = wifiIface := types _ here j below number
  exact of_decide_eq_true other iface

end Again

end Codec.Wireless
