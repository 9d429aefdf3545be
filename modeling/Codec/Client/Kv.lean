import Codec.Ems.Trim
import Mathlib.Data.List.TakeDrop

set_option autoImplicit false

namespace Codec.Client

open Codec.Ems Codec.Lib List

variable (ctx : Str) (line : Str)

-- EMS_BUFFER_1K, which is buf_size(&buff).
def kvRoom : Nat := 1024

def kvLines : Nat → Str → List Str
  | 0, _ => []
  | fuel + 1, ctx =>
    match ctx.span (· ≠ 10) with
    | (line, []) => [line]
    | (line, _ :: rest) => if rest = [] then [line] else line :: kvLines fuel rest

def kvCopy : Str := if kvRoom < line.length then line.take (kvRoom - 1) else line

-- The line in the cleared buffer, with the memory behind the buffer, trimmed
-- in place: ems_trim writes the text and a NUL behind it.
def kvText (behind : List UInt8) (line : Str) : Str :=
  emsTrim (cstr (kvCopy line ++ List.replicate (kvRoom - (kvCopy line).length) 0 ++ behind))

-- strchr(k, '='); neither of the strlen tests that follow ever fails.
def kvSplit (text : Str) : Option (Str × Str) :=
  match text.span (· ≠ 61) with
  | (_, []) => none
  | (k, _ :: v) => some (k, v)

def kvAdd (obj : List (Str × Str)) (text : Str) : List (Str × Str) :=
  match kvSplit text with
  | none => obj
  | some (k, v) => putEntry k v obj

def kvLoop (behind : Nat → List UInt8) : Nat → List Str → List (Str × Str) → Bool × List (Str × Str)
  | _, [], obj => (true, obj)
  | round, line :: rest, obj =>
    let text := kvText (behind round) line
    let done := kvLoop behind (round + 1) rest (kvAdd obj text)
    (decide (text.length < kvRoom) && done.1, done.2)

-- `behind` is the memory behind the buffer, which may change with every round.
def clKvIntoJson (behind : Nat → List UInt8) (ctx : Str) : Bool × List (Str × Str) :=
  kvLoop behind 0 (kvLines (ctx.length + 1) ctx) []

def kvPair : Option (Str × Str) :=
  (kvSplit (line.dropWhile blank)).map fun pair => (pair.1, pair.2.rdropWhile blank)

def kvRead : Option (Str × Str) := kvPair (kvCopy line)

def kvDocument : List (Str × Str) := (ctx.splitOn 10).filterMap kvPair

def KvRight : Prop :=
  ∀ behind, (clKvIntoJson behind ctx).1 = true ∧
    ∀ key, (clKvIntoJson behind ctx).2.lookup key = lastValue (kvDocument ctx) key

def KvFits : Prop :=
  ∀ before line after, ctx.splitOn 10 = before ++ line :: after → line.length ≠ kvRoom ∧
    ∀ key value, kvPair line = some (key, value) →
      key ∈ (after.filterMap kvPair).map Prod.fst ∨ kvRead line = some (key, value) ∨
        kvRead line = none ∧ lastValue (before.filterMap kvRead) key = some value

section Pairs

theorem kv_split_some (text key value : Str) : kvSplit text = some (key, value) ↔ text = key ++ 61 :: value ∧ 61 ∉ key := by
  have whole := takeWhile_append_dropWhile (p := fun byte : UInt8 => decide (byte ≠ 61)) (l := text)
  rw [kvSplit, span_eq_takeWhile_dropWhile]
  constructor
  · cases back : text.dropWhile fun byte => decide (byte ≠ 61) with
    | nil => exact nofun
    | cons byte rest =>
      intro same
      have stops := head?_dropWhile_not (fun byte : UInt8 => decide (byte ≠ 61)) text
      rw [back] at whole stops
      have mark : byte = 61 := by simpa using stops
      cases same
      rw [mark] at whole
      exact ⟨whole.symm, fun inside => by simpa using mem_takeWhile_imp inside⟩
  · rintro ⟨same, clean⟩
    have all : ∀ byte ∈ key, decide _ = true := fun byte inside => by
      have other : byte ≠ 61 := fun equal => clean (equal ▸ inside)
      exact decide_eq_true other
    rw [same, takeWhile_append_of_pos all, dropWhile_append_of_pos all, takeWhile_cons_of_neg (by simp),
      dropWhile_cons_of_neg (by simp), append_nil]

theorem kv_split_none (text : Str) : kvSplit text = none ↔ 61 ∉ text := by
  constructor
  · intro none inside
    obtain ⟨key, rest, same, clean⟩ := eq_append_cons_of_mem inside
    rw [(kv_split_some text key rest).mpr ⟨same, clean⟩] at none
    cases none
  · intro clean
    cases split : kvSplit text with
    | none => rfl
    | some pair =>
      have same := (kv_split_some text _ _).mp split
      exact absurd (same.1 ▸ mem_append_right _ mem_cons_self) clean

theorem kv_pair_some (line key value : Str) : kvPair line = some (key, value) ↔
      ∃ rest, line.dropWhile blank = key ++ 61 :: rest ∧ 61 ∉ key ∧ value = rest.rdropWhile blank := by
  rw [kvPair, Option.map_eq_some_iff]
  constructor
  · rintro ⟨pair, split, same⟩
    cases same
    have here := (kv_split_some _ _ _).mp split
    exact ⟨pair.2, here.1, here.2, rfl⟩
  · rintro ⟨rest, same, clean, cut⟩
    exact ⟨(key, rest), (kv_split_some _ key rest).mpr ⟨same, clean⟩, by rw [cut]⟩

theorem kv_pair_none : kvPair line = none ↔ 61 ∉ line := by
  have split := takeWhile_append_dropWhile (p := blank) (l := line)
  have front : 61 ∉ line.takeWhile blank := fun inside => absurd (mem_takeWhile_imp inside) (by decide)
  rw [kvPair, Option.map_eq_none_iff, kv_split_none]
  conv => rhs; rw [← split, mem_append, not_or]
  exact (and_iff_right front).symm

theorem drop_marked (front back : Str) : (front ++ 61 :: back).rdropWhile blank = front ++ 61 :: back.rdropWhile blank := by
  induction back using reverseRecOn with
  | nil =>
    rw [rdropWhile_concat_neg _ _ 61 (by decide)]
    rfl
  | append_singleton back byte ih =>
    rw [← cons_append, ← append_assoc, rdropWhile_concat, rdropWhile_concat]
    split
    · exact ih
    · rw [append_assoc, cons_append]

theorem kv_trim : kvSplit (emsTrim line) = kvPair line := by
  cases read : kvPair line with
  | none =>
    have absent := (kv_pair_none line).mp read
    exact (kv_split_none _).mpr fun inside => absent ((trim_within line).subset inside)
  | some pair =>
    obtain ⟨rest, same, clean, value⟩ := (kv_pair_some line _ _).mp read
    have marked : 61 ∈ line := (dropWhile_suffix _).subset (same ▸ mem_append_right _ mem_cons_self)
    rw [trim_strip line ⟨61, marked, by decide⟩, strip, same, drop_marked, ← value]
    exact (kv_split_some _ _ _).mpr ⟨rfl, clean⟩

theorem kv_pair_cut (line key value : Str) (size : Nat) (read : kvPair (line.take size) = some (key, value)) :
    ∃ other, kvPair line = some (key, other) := by
  obtain ⟨rest, same, clean, _⟩ := (kv_pair_some _ key _).mp read
  refine ⟨(rest ++ line.drop size).rdropWhile _, (kv_pair_some line key _).mpr ⟨rest ++ line.drop size, ?_, clean, rfl⟩⟩
  have solid : ((line.take size).dropWhile blank).isEmpty = false := by simp [same]
  conv => lhs; rw [← take_append_drop size line, dropWhile_append, solid, same]
  simp

theorem kv_read_cut (line key value : Str) (read : kvRead line = some (key, value)) : ∃ other, kvPair line = some (key, other) := by
  rw [kvRead, kvCopy] at read
  split at read
  · exact kv_pair_cut line key _ _ read
  · exact ⟨value, read⟩

end Pairs

section Loop

theorem trim_size (text : Str) : (emsTrim text).length ≤ text.length := (trim_within text).length_le

theorem kv_copy_short (other : line.length ≠ kvRoom) : (kvCopy line).length < kvRoom := by
  rw [kvCopy]
  split
  · rw [length_take]
    simp only [kvRoom]
    omega
  · omega

theorem kv_text_short (behind : List UInt8) (line : Str) (clean : 0 ∉ line) (other : line.length ≠ kvRoom) :
    kvText behind line = emsTrim (kvCopy line) := by
  have short := kv_copy_short line other
  have tidy : 0 ∉ kvCopy line := by
    rw [kvCopy]
    split
    · exact fun inside => clean ((List.take_prefix _ line).subset inside)
    · exact clean
  obtain ⟨spare, filled⟩ := Nat.exists_eq_succ_of_ne_zero (Nat.sub_ne_zero_of_lt short)
  rw [kvText, filled, append_assoc, cstr_append _ _ tidy, replicate_succ]
  simp [cstr]

theorem kv_loop_short (behind : Nat → List UInt8) (lines : List Str) (round : Nat) (obj : List (Str × Str))
    (short : ∀ line ∈ lines, 0 ∉ line ∧ line.length ≠ kvRoom) : kvLoop behind round lines obj =
      (true, (lines.filterMap kvRead).foldl (fun obj pair => putEntry pair.1 pair.2 obj) obj) := by
  induction lines generalizing round obj with
  | nil => rfl
  | cons line rest ih =>
    obtain ⟨clean, other⟩ := short line mem_cons_self
    have text := kv_text_short (behind round) line clean other
    have inside : (emsTrim _).length < kvRoom := Nat.lt_of_le_of_lt (trim_size _) (kv_copy_short line other)
    rw [kvLoop, text, ih _ _ fun later there => short _ (mem_cons_of_mem line there), kvAdd, kv_trim,
      ← kvRead, decide_eq_true inside, Bool.true_and]
    cases read : kvRead line with
    | none => rw [filterMap_cons_none read]
    | some pair => rw [filterMap_cons_some read, foldl_cons]

def glued : List UInt8 := List.replicate kvRoom 120

theorem kv_text_full (clean : 0 ∉ line) (full : line.length = kvRoom) : kvRoom ≤ (kvText glued line).length := by
  have copied : kvCopy line = line := by rw [kvCopy, if_neg (by omega)]
  have tidy : 0 ∉ line ++ glued := by
    rw [mem_append, not_or]
    exact ⟨clean, fun inside => absurd (eq_of_mem_replicate inside) (by decide)⟩
  have solid : ∃ byte ∈ line ++ glued, blank byte = false :=
    ⟨120, mem_append_right line (mem_replicate.mpr ⟨by simp only [kvRoom]; omega, rfl⟩), by decide⟩
  have tail : glued <:+ strip (line ++ glued) := by
    have front : glued <:+ (line ++ glued).dropWhile blank := by
      rw [dropWhile_append]
      split
      · rw [glued, kvRoom, replicate_succ, dropWhile_cons_of_neg (by decide)]
      · exact suffix_append _ _
    have last : ((line ++ glued).dropWhile blank).rdropWhile blank = (line ++ glued).dropWhile blank := by
      apply rdropWhile_eq_self_iff.mpr
      intro some
      have filled : glued ≠ [] := ne_nil_of_length_pos (by rw [glued, length_replicate, kvRoom]; omega)
      have letter := eq_of_mem_replicate (getLast_mem filled)
      rw [← front.getLast filled, letter]
      decide
    rw [strip, last]
    exact front
  rw [kvText, copied, full, Nat.sub_self, replicate_zero, append_nil, cstr_clean _ tidy, trim_strip _ solid]
  have long := tail.length_le
  rwa [glued, length_replicate] at long

theorem kv_loop_full (lines : List Str) (line : Str) (there : line ∈ lines) (clean : 0 ∉ line) (full : line.length = kvRoom)
    (round : Nat) (obj : List (Str × Str)) : (kvLoop (fun _ => glued) round lines obj).1 = false := by
  induction lines generalizing round obj with
  | nil => cases there
  | cons first rest ih =>
    rw [kvLoop]
    obtain same | later := mem_cons.mp there
    · have outside := kv_text_full line clean full
      rw [← same, decide_eq_false (Nat.not_lt.mpr outside), Bool.false_and]
    · rw [ih later, Bool.and_false]

theorem kv_lines_split (fuel : Nat) (ctx : Str) (enough : ctx.length < fuel) :
    ctx.splitOn 10 = kvLines fuel ctx ∨ ctx.splitOn 10 = kvLines fuel ctx ++ [[]] := by
  induction fuel generalizing ctx with
  | zero => exact absurd enough (Nat.not_lt_zero _)
  | succ fuel ih =>
    rw [kvLines, span_eq_takeWhile_dropWhile]
    have whole := takeWhile_append_dropWhile (p := fun byte : UInt8 => decide (byte ≠ 10)) (l := ctx)
    have clean : 10 ∉ ctx.takeWhile fun byte => decide (byte ≠ 10) := fun inside => by
      simpa using mem_takeWhile_imp inside
    cases back : ctx.dropWhile fun byte => decide (byte ≠ 10) with
    | nil =>
      rw [back, append_nil] at whole
      rw [whole] at clean ⊢
      exact .inl (splitOn_eq_singleton clean)
    | cons byte rest =>
      have stops := head?_dropWhile_not (fun byte : UInt8 => decide (byte ≠ 10)) ctx
      rw [back] at whole stops
      have mark : byte = 10 := by simpa using stops
      rw [mark] at whole
      have split : ctx.splitOn 10 = (ctx.takeWhile fun byte => decide (byte ≠ 10)) :: rest.splitOn 10 := by
        conv => lhs; rw [← whole]
        exact splitOn_append_cons_self_of_not_mem clean rest
      have size := congrArg length whole
      simp only [length_append, length_cons] at size
      rw [split]
      by_cases last : rest = []
      · simp [last]
      · simp only [if_neg last]
        obtain same | same := ih rest (by omega)
        · exact .inl (by rw [same])
        · exact .inr (by rw [same, cons_append])

theorem kv_lines_pairs (read : Str → Option (Str × Str)) (empty : read [] = none) :
    (kvLines (ctx.length + 1) ctx).filterMap read = (ctx.splitOn 10).filterMap read := by
  obtain same | same := kv_lines_split _ ctx (Nat.lt_succ_self _)
  · rw [same]
  · rw [same, filterMap_append, filterMap_cons_none empty, filterMap_nil, append_nil]

theorem kv_lines_mem (ctx line : Str) (some : line ≠ []) : line ∈ kvLines (ctx.length + 1) ctx ↔ line ∈ ctx.splitOn 10 := by
  obtain same | same := kv_lines_split _ ctx (Nat.lt_succ_self _)
  · rw [same]
  · rw [same, mem_append, mem_singleton, or_iff_left some]

theorem kv_line_inside (ctx line : Str) (there : line ∈ ctx.splitOn 10) : line ⊆ ctx := by
  induction ctx generalizing line with
  | nil =>
    rw [splitOn_nil, mem_singleton] at there
    rw [there]
    exact nil_subset _
  | cons first rest ih =>
    rw [splitOn_cons_eq_if_modifyHead] at there
    split at there
    · obtain same | later := mem_cons.mp there
      · rw [same]
        exact nil_subset _
      · exact fun byte inside => mem_cons_of_mem _ (ih line later inside)
    · cases split : rest.splitOn 10 with
      | nil => exact absurd split (splitOn_ne_nil 10 rest)
      | cons head tail =>
        rw [split, modifyHead_cons] at there
        obtain same | later := mem_cons.mp there
        · rw [same]
          exact cons_subset_cons _ (ih head (split ▸ mem_cons_self))
        · have whole := ih line (split ▸ mem_cons_of_mem head later)
          exact fun byte inside => mem_cons_of_mem _ (whole inside)

end Loop

theorem kv_right_short (clean : 0 ∉ ctx) (right : KvRight ctx) : ∀ line ∈ ctx.splitOn 10, line.length ≠ kvRoom := by
  intro line there full
  have tidy : 0 ∉ line := fun inside => clean (kv_line_inside ctx line there inside)
  have some : line ≠ [] := ne_nil_of_length_pos (by rw [full, kvRoom]; omega)
  have outside := kv_loop_full _ line ((kv_lines_mem ctx line some).mpr there) tidy full 0 []
  rw [← clKvIntoJson, (right fun _ => glued).1] at outside
  cases outside

theorem kv_into_json_iff (ctx : Str) (clean : 0 ∉ ctx) : KvRight ctx ↔ KvFits ctx := by
  have tidy (line : Str) (there : line ∈ ctx.splitOn 10) : 0 ∉ line := fun inside => clean (kv_line_inside ctx line there inside)
  have plain (short : ∀ line ∈ ctx.splitOn 10, line.length ≠ kvRoom) (behind : Nat → List _) :
      clKvIntoJson behind ctx =
        (true, ((ctx.splitOn 10).filterMap kvRead).foldl (fun obj pair => putEntry pair.1 pair.2 obj) []) := by
    rw [clKvIntoJson, kv_loop_short, kv_lines_pairs ctx _ (by decide)]
    intro line there
    by_cases empty : line = []
    · simp [empty, kvRoom]
    · have inside := (kv_lines_mem ctx line empty).mp there
      exact ⟨tidy line inside, short line inside⟩
  have agree := readings_agree _ _ kv_read_cut (ctx.splitOn 10)
  constructor
  · intro right
    have short := kv_right_short ctx clean right
    have lasts := agree.mp fun key => by
      have value := (right fun _ => []).2 key
      rw [plain short, lookup_puts_last, lookup_nil, Option.or_none] at value
      exact value.symm
    intro before line after split
    exact ⟨short line (split ▸ mem_append_right _ mem_cons_self), lasts _ line _ split⟩
  · intro fits behind
    have short : ∀ line ∈ ctx.splitOn 10, line.length ≠ kvRoom := by
      intro line there
      obtain ⟨before, after, split⟩ := append_of_mem there
      exact (fits _ line _ split).1
    rw [plain short]
    refine ⟨rfl, fun key => ?_⟩
    rw [lookup_puts_last, lookup_nil, Option.or_none]
    exact (agree.mpr (fun before line after split => (fits _ line _ split).2) key).symm

theorem kv_fits_short (short : ∀ line ∈ ctx.splitOn 10, line.length < kvRoom) : KvFits ctx := by
  intro before line after split
  have less := short line (split ▸ mem_append_right _ mem_cons_self)
  refine ⟨by omega, fun key value read => .inr (.inl ?_)⟩
  rw [kvRead, kvCopy, if_neg (by omega), read]

theorem kv_into_json_sample : KvRight (ascii "nm_addr=10.0.0.1\r\n nm_port=80\n\nnm_addr=\n") :=
  (kv_into_json_iff _ (by decide)).mpr (kv_fits_short _ (by decide))

theorem full_line_overruns : ¬∀ ctx : Str, 0 ∉ ctx → KvRight ctx := by
  intro claim
  have clean (byte : UInt8) (other : byte ≠ 97) : byte ∉ replicate 1024 _ := fun inside =>
    other (eq_of_mem_replicate inside)
  have short := kv_right_short _ (clean 0 (by decide)) (claim _ (clean 0 (by decide)))
  rw [splitOn_eq_singleton (clean 10 (by decide))] at short
  exact short _ (mem_singleton.mpr rfl) length_replicate

end Codec.Client
