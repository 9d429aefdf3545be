import Codec.Ems.Text

set_option autoImplicit false

namespace Codec.Client

open Codec.Ems List

structure Jssid where
  ssid : Option Str
  emsSsidSuffix : Option Str
  deriving DecidableEq, Repr

-- snprintf into ssid[32] or new_ssid[32]
def ssidCopy (text : Str) : Str := text.take 31

def clIfaceSsidSuffixUpt (jssid : Jssid) (newSuffix : Str) : Jssid :=
  match jssid.ssid with
  | none => jssid
  | some jobj =>
    let ssid := ssidCopy jobj
    let ssidSuffix := jssid.emsSsidSuffix.getD []
    if newSuffix.length = ssidSuffix.length ∧ (ssidSuffix.length = 0 ∨ newSuffix = ssidSuffix) then jssid
    else
      let ssid := if 0 < ssidSuffix.length then ((strstr ssidSuffix ssid).map Prod.fst).getD ssid else ssid
      { jssid with ssid := some (ssidCopy (ssid ++ newSuffix)) }

-- With the server's object "wireless", if there is one, and its ssid_hz.
def clIfaceCfgUpt (jssid : Jssid) (root : Option (Option Str)) : Jssid :=
  match root with
  | none => jssid
  | some ssidHz => { clIfaceSsidSuffixUpt jssid (ssidHz.getD []) with emsSsidSuffix := some (ssidHz.getD []) }

def latestSuffix (old : Str) (root : Option (Option Str)) : Str :=
  match root with
  | none => old
  | some ssidHz => ssidHz.getD []

def shownSsid (base suffix : Str) : Str := if suffix = [] then base else (base ++ suffix).take 32

def Shown (base : Str) (updates : List (Option (Option Str))) : Prop :=
  (updates.foldl clIfaceCfgUpt ⟨some base, none⟩).ssid = some (shownSsid base (updates.foldl latestSuffix []))

def SuffixFits (base old new : Str) : Prop :=
  new = old ∨ (base ++ new).length ≤ 31 ∧ (old = [] ∨ ∀ before after, base ++ old = before ++ old ++ after → after = [])

def AllFit (base : Str) : Str → List (Option (Option Str)) → Prop
  | _, [] => True
  | old, root :: rest => SuffixFits base old (latestSuffix old root) ∧ AllFit base (latestSuffix old root) rest

theorem shown_fits (base suffix : Str) (room : suffix = [] ∨ (base ++ suffix).length ≤ 31) : shownSsid base suffix = base ++ suffix := by
  rw [shownSsid]
  split
  · rename_i empty
    rw [empty, append_nil]
  · rename_i some
    have short := room.resolve_left some
    exact take_of_length_le (by omega)

theorem shown_long (base suffix cut : Str) (some : suffix ≠ []) (long : 31 < (base ++ suffix).length) :
    ssidCopy cut ≠ shownSsid base suffix := by
  intro same
  have lengths := congrArg length same
  rw [ssidCopy, shownSsid, if_neg some, length_take, length_take] at lengths
  omega

theorem suffix_changed (base old new : Str) (room : old = [] ∨ (base ++ old).length ≤ 31) (changed : new ≠ old) :
    ssidCopy ((if 0 < old.length then ((strstr old (ssidCopy (base ++ old))).map Prod.fst).getD (ssidCopy (base ++ old))
        else ssidCopy (base ++ old)) ++ new) = shownSsid base new ↔ SuffixFits base old new := by
  rw [SuffixFits, or_iff_right changed]
  by_cases empty : old = []
  · subst empty
    rw [length_nil, if_neg (Nat.lt_irrefl 0), append_nil, and_iff_left (.inl rfl)]
    constructor
    · intro same
      by_contra long
      exact shown_long base new _ changed (by omega) same
    · intro short
      rw [length_append] at short
      rw [shown_fits base new (.inr (by rw [length_append]; omega)), ssidCopy, ssidCopy,
        take_of_length_le (l := base) (by omega), take_of_length_le (by rw [length_append]; omega)]
  · have short := room.resolve_left empty
    have whole : ssidCopy _ = base ++ old := take_of_length_le short
    obtain ⟨before, after, found, bound⟩ := strstr_first old base []
    rw [append_nil] at found
    have split := strstr_eq old _ _ after found
    rw [if_pos (length_pos_iff.mpr empty), whole, found, Option.map_some, Option.getD_some, or_iff_right empty]
    rw [length_append] at short
    constructor
    · intro same
      have fits : (base ++ new).length ≤ 31 := by
        by_contra long
        have some : new ≠ [] := fun none => long (by rw [none, append_nil]; omega)
        exact shown_long base new _ some (by omega) same
      refine ⟨fits, fun front back other => ?_⟩
      have least := strstr_least old _ _ _ _ back found other
      rw [shown_fits base new (.inr fits)] at same
      have lengths := congrArg length same
      have others := congrArg length other
      simp only [ssidCopy, length_take, length_append] at lengths others fits
      exact eq_nil_of_length_eq_zero (by omega)
    · rintro ⟨fits, once⟩
      have ending := once _ _ split
      rw [ending, append_nil] at split
      rw [← append_cancel_right split, shown_fits base new (.inr fits)]
      exact take_of_length_le fits

section Step

variable (base old : Str) (jssid : Jssid) (here : jssid.ssid = some (base ++ old)) (stored : jssid.emsSsidSuffix.getD [] = old)
  (room : old = [] ∨ (base ++ old).length ≤ 31)

include here stored room

theorem suffix_step (root : Option (Option Str)) :
    (clIfaceCfgUpt jssid root).ssid = some (shownSsid base (latestSuffix old root)) ↔ SuffixFits base old (latestSuffix old root) := by
  cases root with
  | none =>
    rw [clIfaceCfgUpt, latestSuffix, here, shown_fits base old room]
    exact iff_of_true rfl (.inl rfl)
  | some ssidHz =>
    rw [clIfaceCfgUpt, latestSuffix, clIfaceSsidSuffixUpt, here]
    simp only [stored]
    by_cases same : ssidHz.getD [] = old
    · have stays : (ssidHz.getD []).length = old.length ∧ (old.length = 0 ∨ ssidHz.getD [] = old) := ⟨by rw [same], .inr same⟩
      rw [if_pos stays, same, shown_fits base old room]
      exact iff_of_true here (.inl rfl)
    · have changes : ¬((ssidHz.getD []).length = old.length ∧ (old.length = 0 ∨ ssidHz.getD [] = old)) := by
        rintro ⟨length, empty | equal⟩
        · exact same ((eq_nil_of_length_eq_zero (length.trans empty)).trans (eq_nil_of_length_eq_zero empty).symm)
        · exact same equal
      rw [if_neg changes, Option.some_inj]
      exact suffix_changed base old _ room same

theorem suffix_kept (root : Option (Option Str)) (fits : SuffixFits base old (latestSuffix old root)) :
    (clIfaceCfgUpt jssid root).ssid = some (base ++ latestSuffix old root) ∧
      (clIfaceCfgUpt jssid root).emsSsidSuffix.getD [] = latestSuffix old root ∧
        (latestSuffix old root = [] ∨ (base ++ latestSuffix old root).length ≤ 31) := by
  have next : latestSuffix old root = [] ∨ (base ++ latestSuffix old root).length ≤ 31 := by
    obtain same | changed := fits
    · rw [same]
      exact room
    · exact .inr changed.1
  refine ⟨?_, ?_, next⟩
  · rw [(suffix_step base old _ here stored room root).mpr fits, shown_fits base _ next]
  · cases root with
    | none => exact stored
    | some ssidHz => rfl

theorem suffix_run (updates : List (Option (Option Str))) :
    (∀ done rest, updates = done ++ rest → (done.foldl clIfaceCfgUpt jssid).ssid = some (shownSsid base (done.foldl latestSuffix old))) ↔
      AllFit base old updates := by
  induction updates generalizing old jssid with
  | nil =>
    refine iff_of_true (fun done rest split => ?_) trivial
    rw [(append_eq_nil_iff.mp split.symm).1, foldl_nil, foldl_nil, here, shown_fits base old room]
  | cons root updates ih =>
    have step := suffix_step base old _ here stored room root
    constructor
    · intro all
      have fits := step.mp (all [root] _ rfl)
      obtain ⟨shown, kept, left⟩ := suffix_kept base old _ here stored room root fits
      exact ⟨fits, (ih _ _ shown kept left).mp fun done rest split => all (root :: done) rest (by rw [split]; rfl)⟩
    · rintro ⟨fits, later⟩ done rest split
      obtain ⟨shown, kept, left⟩ := suffix_kept base old _ here stored room root fits
      cases done with
      | nil => rw [foldl_nil, foldl_nil, here, shown_fits base old room]
      | cons first done =>
        cases split
        exact (ih _ _ shown kept left).mpr later done rest rfl

end Step

theorem ssid_suffix_iff (base : Str) (updates : List (Option (Option Str))) :
    (∀ done rest, updates = done ++ rest → Shown base done) ↔ AllFit base [] updates :=
  suffix_run base [] _ (by rw [append_nil]) rfl (.inl rfl) _

-- Behind a base that ends in the suffix the wrong copy is taken off.
theorem suffix_in_base :
    ([some (some (ascii "5G")), some none].foldl clIfaceCfgUpt ⟨some (ascii "cafe5G"), none⟩).ssid = some (ascii "cafe") ∧
      ¬∀ base updates, Shown base updates := by
  refine ⟨by decide, fun claim => ?_⟩
  have shown := claim (ascii "cafe5G") [some (some (ascii "5G")), some none]
  revert shown
  unfold Shown
  decide

end Codec.Client
