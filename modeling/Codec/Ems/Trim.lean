import Codec.Ems.BufferSim
import Codec.Ems.Conf
import Mathlib.Data.List.DropRight
import Mathlib.Data.List.Infix

set_option autoImplicit false

namespace Codec.Ems

open List

variable (src : Str) (fuel : Nat) (text : Str)

-- The text without its runs of blanks at the two ends.
def strip : Str := (text.dropWhile blank).rdropWhile blank

theorem strip_blank (byte : UInt8) (text : Str) (front : blank byte = true) : strip (byte :: text) = strip text := by
  rw [strip, dropWhile_cons_of_pos front, strip]

theorem strip_concat (byte : UInt8) (filled : ∃ inner ∈ text, blank inner = false) (last : blank byte = true) :
    strip (text ++ [byte]) = strip text := by
  obtain ⟨inner, inside, other⟩ := filled
  have kept : text.dropWhile blank ≠ [] := by
    intro none
    have all := dropWhile_eq_nil_iff.mp none _ inside
    rw [other] at all
    cases all
  rw [strip, dropWhile_append, if_neg (by simpa using kept), rdropWhile_concat_pos _ _ byte last, strip]

theorem strip_tight (first : UInt8) (rest : Str) (front : ¬blank first = true)
    (last : ¬blank ((first :: rest).getLast (List.cons_ne_nil _ _)) = true) : strip (first :: rest) = first :: rest := by
  rw [strip, dropWhile_cons_of_neg front]
  exact rdropWhile_eq_self_iff.mpr fun _ => last

theorem trim_loop_strip (enough : text.length ≤ fuel) (filled : ∃ byte ∈ text, blank byte = false) :
    trimLoop fuel text = strip text := by
  induction fuel, text using trimLoop.induct with
  | case1 fuel first second rest front ih =>
    obtain ⟨byte, inside, other⟩ := filled
    have behind : byte ∈ second :: rest := by
      obtain same | there := mem_cons.mp inside
      · rw [← same, other] at front
        cases front
      · exact there
    rw [trimLoop, if_pos front, ih (by simpa using enough) ⟨byte, behind, other⟩, strip_blank _ _ front]
  | case2 fuel first second rest front last ih =>
    have whole : first :: (second :: rest).dropLast ++ [(second :: rest).getLast (cons_ne_nil _ _)] = first :: second :: rest := by
      rw [cons_append, dropLast_append_getLast]
    have inside : ∃ byte ∈ first :: (second :: rest).dropLast, blank byte = false :=
      ⟨first, mem_cons_self, by simpa using front⟩
    rw [trimLoop, if_neg front, if_pos last, ih (by simpa using enough) inside, ← strip_concat _ _ inside last, whole]
  | case3 fuel first second rest front last =>
    rw [trimLoop, if_neg front, if_neg last, strip_tight _ _ front (by simpa using last)]
  | case4 fuel text other =>
    rw [trimLoop]
    · obtain ⟨byte, inside, kept⟩ := filled
      cases text with
      | nil => cases inside
      | cons first rest =>
        cases rest with
        | nil =>
          rw [mem_singleton.mp inside] at kept
          rw [strip_tight _ [] (by simp [kept]) (by simp [kept])]
        | cons second rest =>
          cases fuel with
          | zero => simp at enough
          | succ fuel => exact (other fuel _ _ rest rfl rfl).elim
    · exact other

theorem strip_filled (filled : ∃ byte ∈ text, blank byte = false) : ∃ byte ∈ strip text, blank byte = false := by
  obtain ⟨byte, inside, other⟩ := filled
  refine ⟨byte, ?_, other⟩
  have front : byte ∈ text.dropWhile blank := by
    rw [← takeWhile_append_dropWhile (p := blank) (l := text)] at inside
    obtain early | late := mem_append.mp inside
    · rw [mem_takeWhile_imp early] at other
      cases other
    · exact late
  rw [← rdropWhile_append_rtakeWhile (p := blank) (l := text.dropWhile _)] at front
  obtain kept | cut := mem_append.mp front
  · exact kept
  · rw [mem_rtakeWhile_imp cut] at other
    cases other

theorem trim_strip (filled : ∃ byte ∈ text, blank byte = false) : emsTrim text = strip text := by
  have solid := strip_filled text filled
  have other : strip text ≠ [32] := by
    intro single
    obtain ⟨byte, inside, kept⟩ := solid
    rw [single] at inside
    rw [mem_singleton.mp inside] at kept
    cases kept
  rw [emsTrim, trim_loop_strip _ text (Nat.le_refl _) filled, if_neg other]

theorem trim_loop_infix : trimLoop fuel text <:+: text := by
  induction fuel, text using trimLoop.induct with
  | case1 fuel first second rest front ih =>
    rw [trimLoop, if_pos front]
    exact ih.trans (suffix_cons _ _).isInfix
  | case2 fuel first second rest front last ih =>
    rw [trimLoop, if_neg front, if_pos last]
    refine ih.trans (IsPrefix.isInfix ?_)
    exact cons_prefix_cons.mpr ⟨rfl, dropLast_prefix _⟩
  | case3 fuel first second rest front last => rw [trimLoop, if_neg front, if_neg last]
  | case4 fuel text other =>
    rw [trimLoop]
    exact other

theorem trim_within : emsTrim text <:+: text := by
  rw [emsTrim]
  split
  · exact nil_infix
  · exact trim_loop_infix _ _

-- What ems_trim returns: src with a text in it, NULL with src emptied, or a
-- store in front of the copy.
inductive Trimmed
  | src (text : Str)
  | null
  | outside
deriving DecidableEq, Repr

def trimEnd (first : Option UInt8) (kept : Str) : Trimmed := if first = some 32 then .null else .src kept

-- ems_trim with ems_strdup's answer; l is an ems_int. Where it is 0 or less, s
-- stays at the first byte and e is in front of it.
def emsTrimReturn (copied : Bool) (src : Str) : Trimmed :=
  if copied = false then .src src
  else
    let l := cint src.length
    if l < 0 then
      if src.head? = some 32 then .null else .outside
    else
      match trimLoop l.toNat (src.take l.toNat) with
      | [] => trimEnd src.head? []
      | [last] => trimEnd (some last) [last]
      | first :: second :: rest => .src (first :: second :: rest)

def TrimRight (copied again : Bool) (src : Str) : Prop :=
  emsTrimReturn copied src = .src (strip src) ∧ ∀ once, emsTrimReturn copied src = .src once → emsTrimReturn again once = .src once

-- As much of the text as l counts.
def counted : Str := src.take (cint src.length).toNat

structure Countable (src : Str) : Prop where
  forward : 0 ≤ cint src.length
  tail : ∀ byte ∈ src.drop (cint src.length).toNat, blank byte = true
  filled : (∃ byte ∈ counted src, blank byte = false) ∨ (counted src = [] ∧ src.head? ≠ some 32)

def Trims (copied : Bool) (src : Str) : Prop := if copied then Countable src else strip src = src

theorem strip_filter : (strip text).filter (fun byte => !blank byte) = text.filter fun byte => !blank byte := by
  have front := congrArg (filter fun byte => !blank byte) (takeWhile_append_dropWhile (p := blank) (l := text))
  have back := congrArg (filter fun byte => !blank byte)
    (rdropWhile_append_rtakeWhile (p := blank) (l := text.dropWhile blank))
  have leading : (text.takeWhile blank).filter (fun byte => !blank byte) = [] :=
    filter_eq_nil_iff.mpr fun byte inside => by simp [mem_takeWhile_imp inside]
  have trailing : ((text.dropWhile blank).rtakeWhile blank).filter (fun byte => !blank byte) = [] :=
    filter_eq_nil_iff.mpr fun byte inside => by simp [mem_rtakeWhile_imp inside]
  rw [filter_append, leading, nil_append] at front
  rw [filter_append, trailing, append_nil] at back
  rw [strip, back, front]

theorem strip_blanks (all : ∀ byte ∈ text, blank byte = true) : strip text = [] := by
  rw [strip, dropWhile_eq_nil_iff.mpr all]
  rfl

theorem strip_tail (text tail : Str) (filled : ∃ byte ∈ text, blank byte = false) (all : ∀ byte ∈ tail, blank byte = true) :
    strip (text ++ tail) = strip text := by
  induction tail using reverseRecOn with
  | nil => rw [append_nil]
  | append_singleton tail last ih =>
    obtain ⟨byte, inside, other⟩ := filled
    rw [← append_assoc, strip_concat _ last ⟨byte, mem_append_left tail inside, other⟩ (all last (by simp))]
    exact ih fun byte there => all byte (mem_append_left _ there)

theorem strip_twice : strip (strip text) = strip text := by
  by_cases filled : ∃ byte ∈ text, blank byte = false
  · have solid := strip_filled text filled
    have front : (strip text).dropWhile blank = strip text := by
      have prefixed : strip text <+: text.dropWhile _ := rdropWhile_prefix _ _
      obtain ⟨rest, whole⟩ := prefixed
      cases stripped : strip text with
      | nil => rfl
      | cons first more =>
        rw [stripped] at whole
        have other := head?_dropWhile_not blank text
        rw [← whole] at other
        exact dropWhile_cons_of_neg (by simpa using other)
    rw [strip, front, strip, rdropWhile_idempotent]
  · have all : ∀ byte ∈ text, blank byte = true := by simpa using filled
    rw [strip_blanks text all]
    rfl

-- The leading run is taken off first, so of blanks alone the last one is left.
theorem trim_loop_blanks (enough : text.length ≤ fuel) (all : ∀ byte ∈ text, blank byte = true) :
    trimLoop fuel text = text.getLast?.toList := by
  induction fuel, text using trimLoop.induct with
  | case1 fuel first second rest front ih =>
    rw [trimLoop, if_pos front, ih (by simpa using enough) fun byte there => all byte (mem_cons_of_mem _ there),
      getLast?_cons_cons]
  | case2 fuel first second rest front last ih => exact absurd (all _ mem_cons_self) front
  | case3 fuel first second rest front last => exact absurd (all _ mem_cons_self) front
  | case4 fuel text other =>
    rw [trimLoop]
    · cases text with
      | nil => rfl
      | cons first rest =>
        cases rest with
        | nil => rfl
        | cons second rest =>
          cases fuel with
          | zero => simp at enough
          | succ fuel => exact (other fuel _ _ rest rfl rfl).elim
    · exact other

theorem strip_not_blank (byte : UInt8) (front : blank byte = true) : strip text ≠ [byte] := by
  intro single
  have none := strip_filter text
  rw [single, filter_singleton, front] at none
  have all : ∀ other ∈ text, blank other = true := by simpa using filter_eq_nil_iff.mp none.symm
  rw [strip_blanks text all] at single
  cases single

theorem strip_tail_iff (text tail : Str) (filled : ∃ byte ∈ text, blank byte = false) :
    strip text = strip (text ++ tail) ↔ ∀ byte ∈ tail, blank byte = true := by
  refine ⟨fun same => ?_, fun all => (strip_tail text tail filled all).symm⟩
  have kept := congrArg (filter fun byte => !blank byte) same
  rw [strip_filter, strip_filter, filter_append, self_eq_append_right] at kept
  simpa using filter_eq_nil_iff.mp kept

theorem return_filled (forward : 0 ≤ cint src.length) (filled : ∃ byte ∈ counted src, blank byte = false) :
    emsTrimReturn true src = .src (strip (counted src)) := by
  have looped := trim_loop_strip _ (counted src) (length_take_le _ _) filled
  have solid := strip_filled _ filled
  simp only [emsTrimReturn, reduceCtorEq, if_false, if_neg (Int.not_lt.mpr forward)]
  rw [← counted, looped]
  match found : strip _ with
  | [] =>
    obtain ⟨byte, inside, -⟩ := solid
    rw [found] at inside
    cases inside
  | [last] =>
    have other : ¬some last = some (32 : UInt8) := by
      intro same
      obtain ⟨byte, inside, kept⟩ := solid
      rw [found, Option.some.inj same, mem_singleton] at inside
      rw [inside] at kept
      cases kept
    exact if_neg other
  | _ :: _ :: _ => rfl

theorem return_blanks (forward : 0 ≤ cint src.length) (all : ∀ byte ∈ counted src, blank byte = true) :
    emsTrimReturn true src =
      match (counted src).getLast? with
      | none => trimEnd src.head? []
      | some last => trimEnd (some last) [last] := by
  have looped := trim_loop_blanks _ (counted src) (length_take_le _ _) all
  simp only [emsTrimReturn, reduceCtorEq, if_false, if_neg (Int.not_lt.mpr forward)]
  rw [← counted, looped]
  cases (counted src).getLast? <;> rfl

theorem return_iff : emsTrimReturn true src = .src (strip src) ↔ Countable src := by
  have whole : counted src ++ src.drop _ = src := take_append_drop _ src
  by_cases forward : 0 ≤ cint src.length
  · by_cases filled : ∃ byte ∈ counted src, blank byte = false
    · have split := strip_tail_iff _ (src.drop (cint src.length).toNat) filled
      rw [whole] at split
      rw [return_filled src forward filled, Trimmed.src.injEq, split]
      exact ⟨fun tail => ⟨forward, tail, .inl filled⟩, fun countable => countable.tail⟩
    · have all : ∀ byte ∈ counted src, blank byte = true := by simpa using filled
      rw [return_blanks src forward all]
      cases last : (counted src).getLast? with
      | some byte =>
        have front := all byte (mem_of_getLast? last)
        refine iff_of_false ?_ fun countable => ?_
        · simp only [trimEnd]
          split
          · exact Trimmed.noConfusion
          · exact fun same => strip_not_blank src byte front (Trimmed.src.inj same).symm
        · obtain inside | ⟨empty, -⟩ := countable.filled
          · exact filled inside
          · rw [empty] at last
            cases last
      | none =>
        have empty := getLast?_eq_none_iff.mp last
        rw [empty, nil_append] at whole
        simp only [trimEnd]
        by_cases space : src.head? = some 32
        · rw [if_pos space]
          refine iff_of_false Trimmed.noConfusion fun countable => ?_
          obtain inside | ⟨-, other⟩ := countable.filled
          · exact filled inside
          · exact other space
        · rw [if_neg space, Trimmed.src.injEq]
          constructor
          · intro same
            have none := strip_filter src
            rw [← same, filter_nil] at none
            refine ⟨forward, ?_, .inr ⟨empty, space⟩⟩
            rw [whole]
            simpa using filter_eq_nil_iff.mp none.symm
          · intro countable
            have tail := countable.tail
            rw [whole] at tail
            exact (strip_blanks src tail).symm
  · refine iff_of_false ?_ fun countable => forward countable.forward
    simp only [emsTrimReturn, reduceCtorEq, if_false, if_pos (Int.not_le.mp forward)]
    split <;> exact Trimmed.noConfusion

theorem countable_short (short : src.length < 2 ^ 31) :
    Countable src ↔ src = [] ∨ ∃ byte ∈ src, blank byte = false := by
  have word : cint _ = src.length := cint_small _ (by omega) (by exact_mod_cast short)
  have all : counted src = src := by rw [counted, word, Int.toNat_natCast, take_length]
  constructor
  · intro countable
    have filled := countable.filled
    rw [all] at filled
    exact filled.elim .inr fun empty => .inl empty.1
  · intro filled
    refine ⟨by omega, by simp [word], ?_⟩
    rw [all]
    obtain empty | inside := filled
    · exact .inr ⟨empty, by simp [empty]⟩
    · exact .inl inside

theorem countable_strip (countable : Countable src) : Countable (strip src) := by
  have split : counted src ++ src.drop _ = src := take_append_drop _ src
  by_cases filled : ∃ byte ∈ counted src, blank byte = false
  · have same := strip_tail _ _ filled countable.tail
    rw [split] at same
    have bound : cint src.length < 2 ^ 31 := by
      have high := Int.bmod_lt (x := src.length) (m := 2 ^ 32) (by decide)
      simpa [cint] using high
    have length : (strip (counted src)).length ≤ (cint src.length).toNat := by
      have inner := ((List.rdropWhile_prefix blank ((counted src).dropWhile _)).length_le).trans
        ((dropWhile_suffix blank).length_le)
      exact inner.trans (length_take_le _ _)
    rw [same, countable_short _ (by omega)]
    exact .inr (strip_filled _ filled)
  · obtain inside | ⟨empty, -⟩ := countable.filled
    · exact absurd inside filled
    · have tail := countable.tail
      rw [empty, nil_append] at split
      rw [split] at tail
      rw [strip_blanks src tail, countable_short [] (by decide)]
      exact .inl rfl

theorem trim_loop_solid (solid : text ≠ []) : trimLoop fuel text ≠ [] := by
  induction fuel, text using trimLoop.induct with
  | case1 fuel first second rest front ih =>
    rw [trimLoop, if_pos front]
    exact ih (cons_ne_nil _ _)
  | case2 fuel first second rest front last ih =>
    rw [trimLoop, if_neg front, if_pos last]
    exact ih (cons_ne_nil _ _)
  | case3 fuel first second rest front last =>
    rw [trimLoop, if_neg front, if_neg last]
    exact cons_ne_nil _ _
  | case4 fuel text other =>
    rw [trimLoop]
    · exact solid
    · exact other

-- The parsers drop what is returned and read on in src.
theorem return_kept (short : src.length < 2 ^ 31) :
    emsTrimReturn true src = .src (emsTrim src) ∨ (emsTrimReturn true src = .null ∧ emsTrim src = []) := by
  have word : cint _ = src.length := cint_small _ (by omega) (by exact_mod_cast short)
  have forward : ¬((src.length : Int) < 0) := by omega
  simp only [emsTrimReturn, reduceCtorEq, if_false, word, Int.toNat_natCast, take_length, emsTrim]
  match looped : trimLoop _ src with
  | [] =>
    have empty : src = [] := by
      by_contra solid
      exact trim_loop_solid _ src solid looped
    rw [empty]
    exact .inl rfl
  | [last] =>
    by_cases space : last = 32
    · rw [space]
      exact .inr ⟨rfl, rfl⟩
    · exact .inl (by simp [trimEnd, space])
  | first :: second :: rest => exact .inl (by simp)

-- Wrong are blanks alone whose last one is no space (it stays), or a space
-- (NULL), a length that an int does not hold, and the text when there is no copy.
theorem trim_right_iff (copied again : Bool) (src : Str) :
    TrimRight copied again src ↔ Trims copied src ∧ (copied = false → Trims again src) := by
  cases copied with
  | false =>
    have first : emsTrimReturn false src = .src (strip src) ↔ Trims false src := by
      rw [show emsTrimReturn _ src = .src src from rfl, Trimmed.src.injEq, eq_comm]
      rfl
    rw [TrimRight, first]
    refine and_congr_right fun stripped => ?_
    simp only [show emsTrimReturn false src = .src src from rfl, Trimmed.src.injEq, forall_eq', true_imp_iff]
    cases again with
    | false => exact iff_of_true rfl stripped
    | true =>
      have second := return_iff src
      rw [show strip src = src from stripped] at second
      exact second
  | true =>
    rw [TrimRight, return_iff]
    refine and_congr_right fun countable => iff_of_true (fun once same => ?_) fun wrong => by cases wrong
    rw [(return_iff src).mpr countable, Trimmed.src.injEq] at same
    rw [← same]
    cases again with
    | false => rfl
    | true =>
      have second := (return_iff _).mpr (countable_strip src countable)
      rwa [strip_twice] at second

theorem tab_stays : ¬ ∀ src, TrimRight true true src := by
  intro right
  have kept : emsTrimReturn true [9] = .src [9] := by decide
  have once := (right [9]).1
  rw [kept] at once
  exact absurd once (by decide)

end Codec.Ems
