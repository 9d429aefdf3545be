import Codec.Ems.Conf
import Mathlib.Data.List.TakeDrop

set_option autoImplicit false

namespace Codec.Ems

open Codec.Lib List

variable (fuel : Nat) (cfg : Config) (text : Str)

def Tidy : Prop := (∀ byte ∈ text.head?, blank byte = false) ∧ ∀ byte ∈ text.getLast?, blank byte = false

def PlainText : Prop := 0 ∉ text ∧ 10 ∉ text ∧ Tidy text

def Config.Plain : Prop := ∀ entry ∈ cfg.entries, (PlainText entry.1 ∧ 61 ∉ entry.1) ∧ PlainText entry.2

def EntryFits (entry : Str × Str) : Prop := entry.1 ≠ [] ∧ entry.1.length + 1 + entry.2.length ≤ 1022

def Config.Fits : Prop := ∀ entry ∈ cfg.entries, EntryFits entry

instance (text : Str) : Decidable (Tidy text) :=
  @instDecidableAnd _ _ (Option.decidableForallMem text.head?) (Option.decidableForallMem text.getLast?)

instance (text : Str) : Decidable (PlainText text) := inferInstanceAs (Decidable (_ ∧ _))

instance (cfg : Config) : Decidable cfg.Plain := List.decidableBAll _ cfg.entries

section Trim

theorem trim_loop_tidy (tidy : Tidy text) (fuel : Nat) : trimLoop fuel text = text := by
  match fuel, text with
  | 0, _ => rw [trimLoop]; exact fun _ _ _ _ same => nomatch same
  | fuel + 1, [] => rfl
  | fuel + 1, [_] => rfl
  | fuel + 1, first :: second :: rest =>
    have front : ¬ blank first = true := by rw [tidy.1 _ rfl]; exact Bool.false_ne_true
    have last : blank ((second :: rest).getLast (cons_ne_nil _ _)) = false := by
      apply tidy.2
      rw [getLast?_cons_cons, getLast?_eq_getLast_of_ne_nil]
      exact rfl
    rw [trimLoop, if_neg front, last]
    rfl

theorem trim_tidy (tidy : Tidy text) : emsTrim text = text := by
  have other : text ≠ [32] := fun same => by
    rw [same] at tidy
    exact absurd (tidy.1 32 rfl) (by decide)
  rw [emsTrim, trim_loop_tidy text tidy, if_neg other]

theorem trim_newline (tidy : Tidy text) (filled : text ≠ []) : emsTrim (text ++ [10]) = text := by
  obtain ⟨first, rest, split⟩ := exists_cons_of_ne_nil filled
  have other : text ≠ [32] := fun same => by
    rw [same] at tidy
    exact absurd (tidy.1 32 rfl) (by decide)
  have front : ¬ blank first = true := by rw [tidy.1 _ (by rw [split]; rfl)]; exact Bool.false_ne_true
  have taken (fuel : Nat) : trimLoop (fuel + 1) (text ++ [10]) = text := by
    rw [split]
    cases rest with
    | nil =>
      rw [cons_append, nil_append, trimLoop, if_neg front]
      cases fuel <;> rfl
    | cons second rest =>
      rw [cons_append, cons_append, trimLoop, if_neg front]
      have last : (second :: (rest ++ [10])).getLast (cons_ne_nil _ _) = 10 := by simp
      have before : (second :: (rest ++ [10])).dropLast = second :: rest := by
        rw [← cons_append]
        exact dropLast_concat
      rw [last, if_pos (by decide), before, trim_loop_tidy]
      rwa [← split]
  rw [emsTrim, length_append, length_singleton, taken, if_neg other]

theorem trim_loop_length : (trimLoop fuel text).length ≤ text.length := by
  induction fuel, text using trimLoop.induct with
  | case1 fuel first second rest front ih =>
    rw [trimLoop, if_pos front]
    exact ih.trans (Nat.le_succ _)
  | case2 fuel first second rest front last ih =>
    rw [trimLoop, if_neg front, if_pos last]
    refine ih.trans ?_
    simp
  | case3 fuel first second rest front last => rw [trimLoop, if_neg front, if_neg last]
  | case4 text fuel other => rw [trimLoop]; exact other

theorem trim_length : (emsTrim text).length ≤ text.length := by
  rw [emsTrim]
  split
  · exact Nat.zero_le _
  · exact trim_loop_length _ _

end Trim

section Lines

theorem fgets_line (line rest : Str) (room : Nat) (single : 10 ∉ line) (fits : line.length < room) :
    fgets room (line ++ 10 :: rest) = (line ++ [10], rest) := by
  induction line generalizing room with
  | nil =>
    obtain ⟨left, same⟩ := Nat.exists_eq_add_of_lt fits
    rw [same]
    rfl
  | cons byte line ih =>
    rw [mem_cons, not_or] at single
    rw [length_cons] at fits
    cases room with
    | zero => cases fits
    | succ room =>
      rw [cons_append, fgets, if_neg (Ne.symm single.1), ih room single.2 (Nat.lt_of_succ_lt_succ fits)]
      rfl

theorem fgets_cut (line rest : Str) (single : 10 ∉ line) : fgets line.length (line ++ rest) = (line, rest) := by
  induction line with
  | nil => cases rest <;> rfl
  | cons byte line ih =>
    rw [mem_cons, not_or] at single
    rw [length_cons, cons_append, fgets, if_neg (Ne.symm single.1), ih single.2]

theorem fgets_length (room : Nat) (file : Str) : (fgets room file).1.length ≤ room := by
  induction room, file using fgets.induct with
  | case1 room rest =>
    rw [fgets, if_pos rfl]
    exact Nat.succ_le_succ (Nat.zero_le _)
  | case2 room byte rest newline ih =>
    rw [fgets, if_neg newline]
    exact Nat.succ_le_succ ih
  | case3 room file other => rw [fgets]; exact Nat.zero_le _; exact other

theorem parse_line (key value : Str) (plain : (PlainText key ∧ 61 ∉ key) ∧ PlainText value) (named : key ≠ [])
    (valued : value ≠ []) : cfgParseLine cfg (key ++ 61 :: value) = cfgSet cfg key value := by
  have cut : (key ++ 61 :: value).span (· ≠ 61) = (key, 61 :: value) := by
    rw [span_eq_takeWhile_dropWhile]
    have before : ∀ byte ∈ key, decide _ = true := fun byte there =>
      decide_eq_true (ne_of_mem_of_not_mem there plain.1.2)
    rw [takeWhile_append_of_pos before, dropWhile_append_of_pos before]
    simp
  rw [cfgParseLine, cut]
  simp only [trim_tidy key plain.1.1.2.2, trim_tidy _ plain.2.2.2, named, valued, or_self, if_false]

theorem parse_line_fits (buf : Str) (short : buf.length ≤ 1022) (fits : cfg.Fits) : (cfgParseLine cfg buf).Fits := by
  have sum := congrArg length (takeWhile_append_dropWhile (p := (decide <| · ≠ (61 : UInt8))) (l := buf))
  rw [length_append] at sum
  rw [cfgParseLine, span_eq_takeWhile_dropWhile]
  split
  · exact fits
  · rename_i left byte right same
    obtain ⟨leftSame, rightSame⟩ := Prod.mk.inj same
    rw [leftSame, rightSame, length_cons] at sum
    have keyShort := trim_length left
    have valueShort := trim_length right
    dsimp only
    split
    · exact fits
    · rename_i neither
      rw [not_or] at neither
      intro entry there
      rw [cfg_set_entries cfg _ _ neither.2] at there
      rcases put_mem _ _ _ _ there with new | old
      · rw [new]
        have size : (emsTrim left).length + 1 + (emsTrim right).length ≤ 1022 := by omega
        exact ⟨neither.1, size⟩
      · exact fits _ old

theorem read_loop_fits (file : Str) (cfg : Config) (fits : cfg.Fits) : (cfgReadLoop fuel file cfg).Fits := by
  induction fuel generalizing file cfg with
  | zero => exact fits
  | succ fuel ih =>
    rw [cfgReadLoop]
    split
    · exact fits
    · apply ih
      split
      · exact fits
      · apply parse_line_fits _ _ _ fits
        have line := fgets_length 1022 file
        have string : (cstr _).length ≤ (fgets 1022 file).1.length := (takeWhile_sublist _).length_le
        exact (trim_length _).trans (string.trans line)

theorem read_step (file line rest text : Str) (cfg : Config) (some : file ≠ []) (read : fgets 1022 file = (line, rest))
    (trimmed : emsTrim (cstr line) = text) (filled : text ≠ []) :
    cfgReadLoop (fuel + 1) file cfg = cfgReadLoop fuel rest (cfgParseLine cfg text) := by
  rw [cfgReadLoop, if_neg some, read]
  simp only [trimmed, if_neg filled]

theorem read_entry (entry : Str × Str) (rest : Str) (cfg : Config)
    (plain : (PlainText entry.1 ∧ 61 ∉ entry.1) ∧ PlainText entry.2) (fits : EntryFits entry) (valued : entry.2 ≠ [])
    (enough : (cfgLine entry ++ rest).length ≤ fuel) :
    ∃ left, rest.length ≤ left ∧ cfgReadLoop fuel (cfgLine entry ++ rest) cfg = cfgReadLoop left rest (cfgSet cfg entry.1 entry.2) := by
  obtain ⟨key, value⟩ := entry
  have named := fits.1
  have size : (key ++ 61 :: value).length ≤ 1022 := by
    have room : key.length + 1 + value.length ≤ 1022 := fits.2
    rw [length_append, length_cons]
    omega
  have line : cfgLine (key, value) = key ++ 61 :: value ++ [10] := by
    rw [cfgLine, if_neg (not_or.mpr ⟨named, valued⟩), take_of_length_le]
    rw [length_append, length_singleton]
    exact Nat.succ_le_succ size
  have single : 10 ∉ key ++ 61 :: value := by
    simp only [mem_append, mem_cons, not_or]
    exact ⟨plain.1.1.2.1, by decide, plain.2.2.1⟩
  have string : 0 ∉ key ++ 61 :: value := by
    simp only [mem_append, mem_cons, not_or]
    exact ⟨plain.1.1.1, by decide, plain.2.1⟩
  have tidy : Tidy (key ++ 61 :: value) := by
    constructor
    · intro byte first
      rw [head?_append_of_ne_nil _ named] at first
      exact plain.1.1.2.2.1 byte first
    · intro byte last
      rw [getLast?_append_of_ne_nil _ (cons_ne_nil _ _), getLast?_cons_of_ne_nil valued] at last
      exact plain.2.2.2.2 byte last
  have filled : key ++ 61 :: value ≠ [] := append_ne_nil_of_left_ne_nil named _
  have parsed := parse_line cfg key _ plain named valued
  rw [line, append_assoc, singleton_append] at enough ⊢
  rw [length_append, length_cons] at enough
  clear line plain fits
  generalize key ++ 61 :: value = text at *
  have some : text ++ 10 :: rest ≠ [] := append_ne_nil_of_left_ne_nil filled _
  by_cases short : text.length < 1022
  · obtain ⟨more, same⟩ := Nat.exists_eq_add_of_lt (show 0 < fuel by omega)
    have terminated : cstr (text ++ [10]) = text ++ [10] := by
      rw [cstr_append _ _ string]
      rfl
    have trimmed : emsTrim (cstr (text ++ [10])) = text := by rw [terminated, trim_newline text tidy filled]
    refine ⟨more, by omega, ?_⟩
    rw [same, Nat.zero_add, read_step more _ _ _ _ cfg some (fgets_line text rest 1022 single short) trimmed filled, parsed]
  · obtain ⟨more, same⟩ := Nat.exists_eq_add_of_lt (show 1 < fuel by omega)
    have cut := fgets_cut text (10 :: rest) single
    rw [show text.length = 1022 by omega] at cut
    have terminated : cstr text = text := by
      have ended := cstr_append text [] string
      rw [append_nil] at ended
      exact ended.trans (append_nil _)
    have trimmed : emsTrim (cstr text) = text := by rw [terminated, trim_tidy text tidy]
    have alone : emsTrim (cstr [10]) = [10] := by decide
    have ignored : cfgParseLine (cfgSet cfg key _) [10] = cfgSet cfg key value := rfl
    refine ⟨more, by omega, ?_⟩
    rw [same, show 1 + more + 1 = more + 1 + 1 by omega, read_step _ _ _ _ _ cfg some cut trimmed filled, parsed,
      read_step more _ [10] rest [10] _ (cons_ne_nil _ _) rfl alone (cons_ne_nil _ _), ignored]

theorem read_entries (entries : List (Str × Str)) (fuel : Nat) (cfg : Config)
    (plain : ∀ entry ∈ entries, (PlainText entry.1 ∧ 61 ∉ entry.1) ∧ PlainText entry.2)
    (fits : ∀ entry ∈ entries, EntryFits entry) (valued : ∀ entry ∈ entries, entry.2 ≠ [])
    (enough : (entries.flatMap cfgLine).length ≤ fuel) : (cfgReadLoop fuel (entries.flatMap cfgLine) cfg).entries =
      entries.foldl (fun entries entry => putEntry entry.1 entry.2 entries) cfg.entries := by
  induction entries generalizing fuel cfg with
  | nil => cases fuel <;> rfl
  | cons entry rest ih =>
    have here := mem_cons_self (a := entry) (l := rest)
    rw [flatMap_cons] at enough ⊢
    obtain ⟨left, more, same⟩ := read_entry fuel _ _ cfg (plain _ here) (fits _ here) (valued _ here) enough
    rw [same, ih left _ (fun other there => plain _ (mem_cons_of_mem _ there))
      (fun other there => fits _ (mem_cons_of_mem _ there))
      (fun other there => valued _ (mem_cons_of_mem _ there)) more, cfg_set_entries _ _ _ (valued _ here)]
    rfl

end Lines

theorem flush_restores (plain : cfg.Plain) (fits : cfg.Fits) : cfgFlush (some (cfgWrite cfg)) cfg = (0, cfg) := by
  have all := read_entries _ _ Config.empty plain fits cfg.valued (Nat.le_refl _)
  rw [put_all _ _ cfg.distinct] at all
  exact congrArg _ (Config.ext all)

theorem flush_fits (file : Option Str) (cfg : Config) : (cfgFlush file cfg).2.Fits := by
  have nothing : Config.empty.Fits := fun _ inside => nomatch inside
  cases file with
  | none => exact nothing
  | some text => exact read_loop_fits _ _ _ nothing

theorem flush_round_trip (cfg : Config) (plain : cfg.Plain) :
    (∀ key, cfgGet (cfgFlush (some (cfgWrite cfg)) cfg).2 key = cfgGet cfg key) ↔ cfg.Fits := by
  constructor
  · intro same entry there
    have found := (cfg_get_mem cfg _ _).mpr there
    rw [← same] at found
    exact flush_fits _ _ _ ((cfg_get_mem _ _ _).mp found)
  · intro fits key
    rw [flush_restores cfg plain fits]

theorem flush_round_trip_sample :
    (∀ key, cfgGet (cfgFlush (some (cfgWrite (cfgSet Config.empty (ascii "user.mac") (ascii "a=b"))))
        (cfgSet Config.empty (ascii "user.mac") (ascii "a=b"))).2 key =
      cfgGet (cfgSet Config.empty (ascii "user.mac") (ascii "a=b")) key) ↔
        (cfgSet Config.empty (ascii "user.mac") (ascii "a=b")).Fits :=
  flush_round_trip _ (by decide)

theorem plain_replicate (count : Nat) : PlainText (List.replicate count 118) := by
  have every : ∀ byte ∈ replicate count (118 : UInt8), byte = 118 := fun byte there => eq_of_mem_replicate there
  refine ⟨fun there => absurd (every 0 there) (by decide), fun there => absurd (every 10 there) (by decide), ?_, ?_⟩
  · intro byte first
    rw [every byte (mem_of_head? first)]
    decide
  · intro byte last
    rw [every byte (mem_of_getLast? last)]
    decide

-- A key of one byte and a value of 1021: the line loses its newline and its
-- last byte is read as a line of its own.
theorem long_line_lost :
    ¬ ∀ cfg : Config, cfg.Plain → ∀ key, cfgGet (cfgFlush (some (cfgWrite cfg)) cfg).2 key = cfgGet cfg key := by
  intro claim
  have value := plain_replicate 1021
  have size : (replicate 1021 (118 : UInt8)).length = 1021 := length_replicate
  generalize replicate 1021 _ = text at value size
  have filled : text ≠ [] := ne_nil_of_length_pos (by omega)
  have plain : (cfgSet Config.empty [107] text).Plain := by
    intro entry there
    rw [cfg_set_entries _ _ _ filled] at there
    rw [mem_singleton.mp there]
    have key : PlainText [107] ∧ 61 ∉ ([107] : Str) := by decide
    exact ⟨key, value⟩
  have found := claim _ plain [107]
  rw [cfg_set_get _ _ _ filled, if_pos rfl] at found
  have short : 1 + 1 + text.length ≤ 1022 := (flush_fits _ _ _ ((cfg_get_mem _ _ _).mp found)).2
  omega

end Codec.Ems
