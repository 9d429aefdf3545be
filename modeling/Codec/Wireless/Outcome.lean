import Codec.Wireless.Pruning

set_option autoImplicit false

namespace Codec.Wireless

open Codec.Ems Codec.Lib List

section Outcome

variable {uci : LibUci} {room : Nat} {server : List ServerSsid} {file : List UciSection} (ordinary : Ordinary uci room server file)

include ordinary

theorem stable_ends (pruned : Pruned uci room server file) : clProcessRules uci room server file =
    (sectionsAfter uci server file).take server.length ++
      (sectionsAfter uci server file).drop (max server.length (sectionCount server.length file - 1)) := by
  obtain ⟨kept, sub, result, _⟩ := process_eq ordinary
  have count := @sections_after_length uci server file
  have again := second_application ordinary fun j jobj given => by
    obtain ⟨r, there, _, number, carries, _⟩ := pruned.served j jobj given
    exact ⟨r, there, number, carries⟩
  rw [pruned.stable] at again
  have lengths := congrArg length again
  rw [length_append, length_take, length_drop] at lengths
  have within := sub.length_le
  rw [length_drop, length_take] at within
  have total := congrArg length result
  rw [length_append, length_append, length_take, length_drop] at total
  have empty : kept.length = 0 := by omega
  rw [result, length_eq_zero_iff.mp empty, append_nil]

theorem aligned_of_pruned (pruned : Pruned uci room server file) : Aligned server.length file := by
  have ends := stable_ends ordinary pruned
  have count := @sections_after_length uci server file
  have numbered := sections_after_numbered ordinary
  have sub := process_sublist ordinary
  constructor
  · intro s there j below number
    obtain ⟨r, inside, iface, here, _⟩ := pruned.served j _ (getElem?_eq_getElem below)
    obtain ⟨p, at_p⟩ := mem_iff_getElem?.mp there
    obtain ⟨name, t, found, _, placed, _⟩ := @sections_after_old uci _ file p (List.getElem?_eq_some_iff.mp at_p).1
    have same : t = s := Option.some.inj (found.symm.trans at_p)
    have left : applied server name s ∈ sectionsAfter uci server file := by
      rw [sectionsAfter]
      exact mem_map_of_mem (f := Prod.snd) (same ▸ mem_of_getElem? placed)
    have equal := numbered_unique _ _ numbered r _ (sub.subset inside) left j below here
      (by rw [applied_id _ name s (ordinary.usual s there), number])
    rw [equal] at iface
    exact iface
  · intro p
    constructor
    · rintro ⟨low, high⟩
      have inside : p < (sectionsAfter uci server file).length := by omega
      obtain ⟨w, found⟩ : ∃ w, (sectionsAfter uci _ file)[p]? = some w := ⟨_, getElem?_eq_getElem inside⟩
      have middle : w ∈ ((sectionsAfter uci server file).take ((sectionsAfter uci server file).length - 1)).drop server.length := by
        refine mem_iff_getElem?.mpr ⟨p - server.length, ?_⟩
        rw [getElem?_drop, getElem?_take, Nat.add_sub_cancel' low, if_pos (by omega), found]
      have parts := three_parts (sectionsAfter uci server file) server.length
      rw [← count] at ends
      -- No section of another kind is in the window, since none is lost.
      have iface : w.type = wifiIface := by
        by_contra other
        have lost := @same_types uci server file
        rw [parts, filter_append, filter_append, ← pruned.kept, ends, filter_append] at lost
        simp only [length_append] at lost
        have some_there : 0 < (filter (fun s => decide (s.type ≠ wifiIface))
            (((sectionsAfter uci _ file).take _).drop _)).length :=
          length_pos_of_mem (mem_filter.mpr ⟨middle, decide_eq_true other⟩)
        omega
      have unnumbered : ∀ j < server.length, sectionId w ≠ some ((j + 1 : Nat) : Int) := by
        intro j below number
        obtain ⟨r, there, _, here, _⟩ := pruned.served j _ (getElem?_eq_getElem below)
        rw [ends, mem_append] at there
        rw [parts, map_append, map_append, Numbered, pairwise_append] at numbered
        rcases there with front | back
        · have apart := (pairwise_append.mp numbered.1).2.2 _ (mem_map_of_mem front) _ (mem_map_of_mem middle)
          exact apart _ (by omega) (by omega) here number
        · have apart := numbered.2.2 _ (mem_append_right _ (mem_map_of_mem middle)) _ (mem_map_of_mem back)
          exact apart _ (by omega) (by omega) number here
      rcases sections_after_cases p w found with ⟨name, s, old, rfl⟩ | ⟨j, jobj, given, _, rfl⟩
      · refine ⟨s, old, iface, fun j below number => unnumbered j below ?_⟩
        rw [applied_id _ name s (ordinary.usual s (mem_of_getElem? old)), number]
      · have below := (List.getElem?_eq_some_iff.mp given).1
        have small := ordinary.small
        exact absurd (made_id _ jobj (by omega)) (unnumbered j below)
    · rintro ⟨s, old, iface, plain⟩
      by_contra outside
      have below := (List.getElem?_eq_some_iff.mp old).1
      obtain ⟨name, t, found, _, placed, _⟩ := @sections_after_old uci _ file p below
      have same : t = s := Option.some.inj (found.symm.trans old)
      have at_p : (sectionsAfter uci server file)[p]? = some (applied server name s) := by
        rw [sectionsAfter, getElem?_map, placed, same]
        rfl
      have left : applied server name s ∈ clProcessRules uci room server file := by
        rw [ends, mem_ends]
        exact ⟨p, by omega, at_p⟩
      obtain ⟨j, below_, number⟩ := pruned.only _ left iface
      rw [applied_id _ name s (ordinary.usual s (mem_of_getElem? old))] at number
      exact plain j below_ number

theorem pruned_of_aligned (aligned : Aligned server.length file) : Pruned uci room server file := by
  obtain ⟨kept, _, result, none⟩ := process_eq ordinary
  have count := @sections_after_length uci server file
  have old (p : Nat) (s : UciSection) (here : file[p]? = some s) : ∃ name, (sectionsAfter uci server file)[p]? = some (applied server name s) := by
    obtain ⟨name, t, found, _, placed, _⟩ := @sections_after_old uci _ file p (List.getElem?_eq_some_iff.mp here).1
    have same : t = s := Option.some.inj (found.symm.trans here)
    refine ⟨name, ?_⟩
    rw [sectionsAfter, getElem?_map, placed, same]
    rfl
  have window (p : Nat) (low : server.length ≤ p) (high : p + 1 < sectionCount server.length file) :
      ∃ s, file[p]? = some s ∧ (sectionsAfter uci server file)[p]? = some s ∧ Surplus server.length s := by
    obtain ⟨s, here, surplus⟩ := (aligned.window p).mp ⟨low, high⟩
    obtain ⟨name, placed⟩ := old p s here
    rw [applied_plain _ name s (ordinary.usual s (mem_of_getElem? here)) surplus.2] at placed
    exact ⟨s, here, placed, surplus⟩
  have empty := none fun p low high => by
    obtain ⟨s, here, placed, _⟩ := window p low high
    exact ⟨s, here, placed⟩
  rw [empty, append_nil] at result
  have small := ordinary.small
  have served : ∀ j jobj, server[j]? = some jobj → ∃ r ∈ clProcessRules uci room server file,
      r.type = wifiIface ∧ sectionId r = some ((j + 1 : Nat) : Int) ∧ Carries (j + 1) jobj r.options ∧
        ∀ s ∈ file, sectionId s = some ((j + 1 : Nat) : Int) →
          r.declared = s.declared ∧ ∀ key, key ∉ ruledKeys → r.options.lookup key = s.options.lookup key := by
    intro j jobj given
    have below := (List.getElem?_eq_some_iff.mp given).1
    have ends (r : UciSection) (left : r ∈ sectionsAfter uci server file) (number : sectionId r = some ((j + 1 : Nat) : Int)) :
        r ∈ clProcessRules uci room server file := by
      obtain ⟨p, found⟩ := mem_iff_getElem?.mp left
      rw [result, mem_ends]
      refine ⟨p, ?_, found⟩
      by_contra inside
      obtain ⟨s, _, placed, surplus⟩ := window p (by omega) (by omega)
      rw [Option.some.inj (found.symm.trans placed)] at number
      exact surplus.2 j below number
    by_cases present : some ((j + 1 : Nat) : Int) ∈ file.map sectionId
    · obtain ⟨s, there, number⟩ := mem_map.mp present
      obtain ⟨p, here⟩ := mem_iff_getElem?.mp there
      obtain ⟨name, placed⟩ := old p s here
      have usual := ordinary.usual s there
      have id := (applied_id server name s usual).trans number
      refine ⟨_, ends _ (mem_of_getElem? placed) id, aligned.ifaces s there j below number, id,
        applied_carries _ name s usual j jobj given number, fun t inside same => ?_⟩
      rw [numbered_unique _ file ordinary.numbered t s inside there j below same number]
      exact ⟨rfl, fun key other => applied_other _ name s usual key other⟩
    · have id := made_id (j + 1) jobj (by omega)
      refine ⟨made _ jobj, ends _ ((sections_after_mem _).mpr (.inr ⟨j, jobj, given, present, rfl⟩)) id, rfl, id,
        made_carries _ jobj, fun t inside same => absurd (same ▸ mem_map_of_mem inside) present⟩
  refine ⟨?_, served, ?_, ?_⟩
  · rw [← other_kept ordinary aligned.ifaces]
    conv_rhs => rw [three_parts (sectionsAfter uci _ file) server.length]
    have middle : (((sectionsAfter uci server file).take ((sectionsAfter uci server file).length - 1)).drop server.length).filter
        (fun s => decide (s.type ≠ wifiIface)) = [] := by
      refine filter_eq_nil_iff.mpr fun w there other => ?_
      obtain ⟨q, found⟩ := mem_iff_getElem?.mp there
      rw [getElem?_drop, getElem?_take] at found
      split at found
      · obtain ⟨s, _, placed, surplus⟩ := window (server.length + q) (by omega) (by omega)
        rw [Option.some.inj (found.symm.trans placed)] at other
        exact of_decide_eq_true other surplus.1
      · cases found
    rw [result, filter_append, filter_append, filter_append, middle, append_nil, count]
  · intro r left iface
    rw [result, mem_ends] at left
    obtain ⟨p, outside, found⟩ := left
    rcases sections_after_cases p r found with ⟨name, s, here, rfl⟩ | ⟨j, jobj, given, _, rfl⟩
    · by_contra unnumbered
      push Not at unnumbered
      have usual := ordinary.usual s (mem_of_getElem? here)
      obtain ⟨low, high⟩ := (aligned.window p).mpr ⟨s, here, iface, fun j below number =>
        unnumbered j below ((applied_id _ name s usual).trans number)⟩
      omega
    · have below := (List.getElem?_eq_some_iff.mp given).1
      exact ⟨j, below, made_id _ jobj (by omega)⟩
  · have again := second_application ordinary fun j jobj given => by
      obtain ⟨r, there, _, number, carries, _⟩ := served j jobj given
      exact ⟨r, there, number, carries⟩
    have length : (clProcessRules uci room server file).length ≤ server.length + 1 := by
      rw [result, length_append, length_take, length_drop]
      omega
    rw [again, Nat.max_eq_left (by omega), take_append_drop]

theorem pruning_right_iff : Pruned uci room server file ↔ Aligned server.length file :=
  ⟨aligned_of_pruned ordinary, pruned_of_aligned ordinary⟩

end Outcome

-- libuci with names cfg1, cfg2 and so on.
def plainUci : LibUci where
  generated n _ _ := ascii "cfg" ++ digitText (n % 2 ^ 31)
  accepts _ value := value.all fun char => 32 ≤ char || char = 9 || char = 10 || char = 13
  setCut _ _ := none
  numbered m type options n other more small below same := by
    have numbers := digit_text_injective _ _ (List.append_cancel_left same)
    rwa [Nat.mod_eq_of_lt small, Nat.mod_eq_of_lt below] at numbers
  proper n type options empty := absurd (List.append_eq_nil_iff.mp empty).1 (by decide)
  short n type options := by
    have digits := digit_text_short (n % 2 ^ 31) (2 ^ 31 - 1) (by omega)
    have ten : (digitText (2 ^ 31 - 1)).length = 10 := by decide +kernel
    have three : (ascii "cfg").length = 3 := by decide
    rw [List.length_append]
    omega

def sampleDevice : UciSection := ⟨some (ascii "ra0"), ascii "wifi-device", [(ascii "channel", .string (ascii "6"))]⟩

def sampleIface (id : String) : UciSection :=
  ⟨none, wifiIface, [(ssidKey, .string (ascii "net")), (emsIfaceId, .string (ascii id))]⟩

def sampleServer : List ServerSsid :=
  [[(ascii "ssid_1_iface", [(ascii "ssid_hz", some (ascii "-a"))]), (ascii "ssid_1_portal", [(ascii "enable", some (ascii "1"))])]]

def secondSsid : ServerSsid := [(ascii "ssid_2_iface", [(ascii "ssid_hz", some (ascii "-b"))])]

section Check

theorem usual_check (options : List (Str × UciValue)) (distinct : (options.map Prod.fst).Nodup)
    (filled : ∀ option ∈ options, option.2 ≠ .string []) (free : ∀ key ∈ reserved, options.lookup key = none) : Usual options :=
  ⟨distinct, fun key held => filled _ ((lookup_mem _ distinct key _).mp held) rfl, free⟩

theorem numbered_check (low high : Nat) (ids : List (Option Int)) (distinct : ids.Pairwise fun first second => first = none ∨ first ≠ second) :
    Numbered low high ids :=
  distinct.imp fun apart id _ _ one two => by
    rcases apart with none_there | other
    · rw [none_there] at one
      exact nomatch one
    · exact other (one.trans two.symm)

theorem fits_check (uci : LibUci) (room : Nat) (obj : Json) (all : ∀ entry ∈ obj, ∀ value ∈ entry.2, entry.1 ∉ reserved →
    uci.accepts entry.1 value = true ∧
      uciCfgWireless.length + max (jsonText obj uciSectionName).length 15 + entry.1.length + value.length + 3 < room) : Fits uci room obj :=
  fun _ _ own there => all _ there _ rfl own

theorem sample_ordinary (server : List ServerSsid) (ids : List String) (distinct : ((sampleDevice :: ids.map sampleIface).map sectionId).Pairwise
    fun first second => first = none ∨ first ≠ second) (filled : ∀ id ∈ ids, ascii id ≠ [])
    (fits : ∀ obj ∈ clWirelessCfgUpdate 0 server (emsUciLoadCfg plainUci (sampleDevice :: ids.map sampleIface)),
      ∀ entry ∈ obj, ∀ value ∈ entry.2, entry.1 ∉ reserved → plainUci.accepts entry.1 value = true ∧
        uciCfgWireless.length + max (jsonText obj uciSectionName).length 15 + entry.1.length + value.length + 3 < 8192)
    (small : sectionCount server.length (sampleDevice :: ids.map sampleIface) + server.length + 1 < 2 ^ 31) :
    Ordinary plainUci 8192 server (sampleDevice :: ids.map sampleIface) := by
  refine ordinary_of_fits ⟨?_, ?_⟩ ?_ ?_ (numbered_check 0 _ _ distinct) (fun obj there => fits_check _ _ obj (fits obj there)) small
  · have names : (sampleDevice :: ids.map sampleIface).filterMap UciSection.declared = [ascii "ra0"] := by
      rw [filterMap_cons]
      refine congrArg _ (filterMap_eq_nil_iff.mpr fun s there => ?_)
      obtain ⟨id, _, rfl⟩ := mem_map.mp there
      rfl
    rw [names]
    exact nodup_singleton _
  · intro s there name own
    rcases mem_cons.mp there with rfl | inside
    · have same : ascii _ = name := Option.some.inj own
      rw [← same]
      have heads : (ascii "ra0").head? ≠ (ascii "cfg").head? := by decide
      refine ⟨by decide, by decide, fun n type options equal => heads ?_⟩
      rw [equal]
      rfl
    · obtain ⟨id, _, rfl⟩ := mem_map.mp inside
      exact nomatch own
  · intro s there
    rcases mem_cons.mp there with rfl | inside
    · decide
    · obtain ⟨id, _, rfl⟩ := mem_map.mp inside
      have typed : wifiIface ≠ [] := by decide
      exact typed
  · intro s there
    rcases mem_cons.mp there with rfl | inside
    · exact usual_check _ (by decide) (by decide) (by decide)
    · obtain ⟨id, listed, rfl⟩ := mem_map.mp inside
      have keys : [ssidKey, emsIfaceId].Nodup := by decide
      have free : ∀ key ∈ reserved, key ≠ ssidKey ∧ key ≠ emsIfaceId := by decide
      refine usual_check _ keys (fun option there => ?_) fun key own => ?_
      · rcases mem_cons.mp there with rfl | there
        · decide
        · rw [mem_singleton.mp there]
          exact fun empty => filled id listed (UciValue.string.inj empty)
      · obtain ⟨first, second⟩ := free key own
        rw [sampleIface, lookup_entry, lookup_entry, if_neg first, if_neg second]
        rfl

end Check

-- Two SSIDs for a device with three interfaces, the second of which is pruned.
theorem pruning_right_iff_sample : Pruned plainUci 8192 (sampleServer ++ [secondSsid]) (sampleDevice :: ["1", "7", "2"].map sampleIface) ↔
    Aligned (sampleServer ++ [secondSsid]).length (sampleDevice :: ["1", "7", "2"].map sampleIface) :=
  pruning_right_iff (sample_ordinary _ _ (by decide +kernel) (by decide) (by decide +kernel) (by decide +kernel))

-- One SSID for a device with two interfaces: the first interface is deleted and
-- the second one stays.
theorem served_interface_removed : ¬ ∀ (uci : LibUci) (room : Nat) (server : List ServerSsid) (file : List UciSection),
    Ordinary uci room server file → Pruned uci room server file := by
  intro claim
  have ordinary := sample_ordinary sampleServer ["1", "2"] (by decide +kernel) (by decide) (by decide +kernel) (by decide +kernel)
  have aligned := aligned_of_pruned ordinary (claim _ _ _ _ ordinary)
  have count : sectionCount sampleServer.length (sampleDevice :: ["1", "2"].map sampleIface) = 3 := by decide +kernel
  obtain ⟨s, found, surplus⟩ := (aligned.window 1).mp ⟨Nat.le_refl _, by omega⟩
  have same : sampleIface "1" = s := Option.some.inj found
  have number : sectionId (sampleIface "1") = some ((0 + 1 : Nat) : Int) := by decide +kernel
  rw [← same] at surplus
  exact surplus.2 0 Nat.one_pos number

end Codec.Wireless
