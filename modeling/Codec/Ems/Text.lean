import Codec.Ems.Buffer
import Mathlib.Data.List.TakeWhile

set_option autoImplicit false

namespace Codec.Ems

open List

def ascii (text : String) : Str := text.toList.map fun char => UInt8.ofNat char.toNat

def cstr (mem : List UInt8) : Str := mem.takeWhile fun byte => decide (byte ≠ 0)

-- strstr: what stands before the first occurrence and what behind it.
def strstr (needle : Str) : Str → Option (Str × Str)
  | [] => if needle = [] then some ([], []) else none
  | char :: rest =>
    if needle.isPrefixOf (char :: rest) then some ([], (char :: rest).drop needle.length)
    else (strstr needle rest).map fun found => (char :: found.1, found.2)

-- The loop of ems_string_split: a piece is copied through 512 bytes on the
-- stack, the rest behind the last separator goes into the list whole. Texts
-- are shorter than 2^31, and ems_split_new and str_set do not fail.
def splitLoop (sep : Str) : Nat → Str → List Str
  | 0, _ => []
  | fuel + 1, src =>
    match strstr sep src with
    | some (piece, rest) => piece.take 511 :: splitLoop sep fuel rest
    | none => if src = [] then [] else [src]

def stringSplit (src sep : Str) : List Str := splitLoop sep (src.length + 1) src

theorem cstr_append (text : Str) (mem : List UInt8) (clean : 0 ∉ text) : cstr (text ++ mem) = text ++ cstr mem := by
  apply takeWhile_append_of_pos
  intro byte member
  have other : byte ≠ 0 := fun same => clean (same ▸ member)
  exact decide_eq_true other

theorem cstr_clean (text : Str) (clean : 0 ∉ text) : cstr text = text := by
  have whole := cstr_append text [] clean
  rw [append_nil] at whole
  rw [whole, cstr, takeWhile_nil, append_nil]

theorem zero_not_mem_cstr (mem : List UInt8) : 0 ∉ cstr mem := by
  intro member
  have other := mem_takeWhile_imp member
  simp at other

theorem strstr_cons (needle : Str) (char : UInt8) (rest : Str) : strstr needle (char :: rest) =
      if needle.isPrefixOf (char :: rest) then some ([], (char :: rest).drop needle.length)
      else (strstr needle rest).map fun found => (char :: found.1, found.2) := rfl

theorem strstr_short (needle hay : Str) (short : hay.length < needle.length) : strstr needle hay = none := by
  induction hay with
  | nil =>
    have some : needle ≠ [] := ne_nil_of_length_pos short
    rw [strstr, if_neg some]
  | cons char rest ih =>
    have absent : ¬ needle.isPrefixOf (char :: rest) = true := fun found =>
      absurd (List.isPrefixOf_iff_prefix.mp found).length_le (by omega)
    rw [strstr_cons, if_neg absent, ih (by simp only [length_cons] at short; omega), Option.map_none]

variable (char : UInt8) (sep src : Str) (fuel : Nat) (needle hay before after : Str)

theorem strstr_length (found : strstr needle hay = some (before, after)) :
    hay.length = before.length + needle.length + after.length := by
  induction hay generalizing before with
  | nil =>
    rw [strstr] at found
    split at found
    · rename_i none
      cases found
      rw [none]
      rfl
    · cases found
  | cons char rest ih =>
    rw [strstr_cons] at found
    split at found
    · rename_i here
      have bound := (List.isPrefixOf_iff_prefix.mp here).length_le
      cases found
      rw [length_drop, length_nil]
      omega
    · obtain ⟨⟨inner, tail⟩, later, same⟩ := Option.map_eq_some_iff.mp found
      cases same
      have size : rest.length = inner.length + needle.length + tail.length := ih _ later
      simp only [length_cons]
      omega

theorem is_prefix_of_append (needle hay more : Str) (found : needle.isPrefixOf hay = true) :
    needle.isPrefixOf (hay ++ more) = true :=
  isPrefixOf_iff_prefix.mpr ((List.isPrefixOf_iff_prefix.mp found).trans (prefix_append hay more))

theorem strstr_append (needle hay before more : Str) (found : strstr needle hay = some (before, [])) :
    strstr needle (hay ++ more) = some (before, more) := by
  induction hay generalizing before with
  | nil =>
    rw [strstr] at found
    by_cases empty : needle = []
    · rw [if_pos empty] at found
      cases found
      cases more with
      | nil => rw [append_nil, strstr, if_pos empty]
      | cons char rest => rw [nil_append, strstr_cons, empty]; rfl
    · rw [if_neg empty] at found
      cases found
  | cons char rest ih =>
    rw [cons_append, strstr_cons]
    rw [strstr_cons] at found
    by_cases here : needle.isPrefixOf (char :: rest) = true
    · rw [if_pos here] at found
      have longer := is_prefix_of_append _ _ more here
      have bound := (List.isPrefixOf_iff_prefix.mp here).length_le
      rw [cons_append] at longer
      rw [if_pos longer, ← cons_append, drop_append_of_le_length bound]
      simp only [Option.some.injEq, Prod.mk.injEq] at found ⊢
      exact ⟨found.1, by rw [found.2, nil_append]⟩
    · rw [if_neg here] at found
      obtain ⟨⟨inner, tail⟩, later, same⟩ := Option.map_eq_some_iff.mp found
      cases same
      have shifted := ih _ later
      -- The needle ends inside `rest`, so bytes behind it cannot bring it forward.
      have absent : ¬ needle.isPrefixOf (char :: (rest ++ more)) = true := by
        intro early
        have whole : needle.length ≤ rest.length := by
          by_contra short
          rw [strstr_short _ rest (by omega)] at later
          cases later
        have inside : needle <+: char :: rest := by
          apply prefix_of_prefix_length_le (List.isPrefixOf_iff_prefix.mp early)
          · rw [← cons_append]
            exact prefix_append _ more
          · rw [length_cons]
            omega
        exact here (List.isPrefixOf_iff_prefix.mpr inside)
      rw [if_neg absent, shifted, Option.map_some]

theorem strstr_proper (needle hay before : Str) (found : strstr needle hay = some (before, [])) (part : Str)
    (prefixed : part <+: hay) (short : part.length < hay.length) : strstr needle part = none := by
  induction hay generalizing part before with
  | nil => exact absurd short (Nat.not_lt_zero _)
  | cons char rest ih =>
    rw [strstr_cons] at found
    by_cases here : needle.isPrefixOf (char :: rest) = true
    · rw [if_pos here] at found
      simp only [Option.some.injEq, Prod.mk.injEq] at found
      have all := drop_eq_nil_iff.mp found.2
      exact strstr_short _ part (by omega)
    · rw [if_neg here] at found
      obtain ⟨⟨inner, empty⟩, later, same⟩ := Option.map_eq_some_iff.mp found
      cases same
      cases part with
      | nil =>
        have some : needle ≠ [] := by
          intro empty
          rw [empty] at here
          exact here rfl
        rw [strstr, if_neg some]
      | cons first tail =>
        obtain ⟨same, inside⟩ := cons_prefix_cons.mp prefixed
        have absent : ¬ needle.isPrefixOf _ = true := fun early =>
          here (List.isPrefixOf_iff_prefix.mpr ((List.isPrefixOf_iff_prefix.mp early).trans prefixed))
        rw [strstr_cons, if_neg absent,
          ih _ later tail inside (by simp only [length_cons] at short; omega), Option.map_none]

theorem strstr_eq (found : strstr needle hay = some (before, after)) : hay = before ++ needle ++ after := by
  induction hay generalizing before with
  | nil =>
    rw [strstr] at found
    split at found
    · rename_i empty
      cases found
      rw [empty]
      rfl
    · cases found
  | cons char rest ih =>
    rw [strstr_cons] at found
    split at found
    · rename_i here
      obtain ⟨tail, same⟩ := isPrefixOf_iff_prefix.mp here
      cases found
      rw [← same, drop_left, nil_append]
    · obtain ⟨⟨inner, tail⟩, later, same⟩ := Option.map_eq_some_iff.mp found
      cases same
      rw [ih _ later]
      rfl

theorem strstr_first (needle front back : Str) :
    ∃ before after, strstr needle (front ++ needle ++ back) = some (before, after) ∧ before.length ≤ front.length := by
  induction front with
  | nil =>
    have here : needle.isPrefixOf _ = true := isPrefixOf_iff_prefix.mpr (prefix_append _ back)
    cases same : needle ++ back with
    | nil =>
      have empty : needle = [] := (append_eq_nil_iff.mp same).1
      exact ⟨[], [], by simp [strstr, empty, (append_eq_nil_iff.mp same).2], Nat.le_refl 0⟩
    | cons char rest =>
      rw [same] at here
      refine ⟨[], (char :: rest).drop needle.length, ?_, Nat.le_refl 0⟩
      rw [nil_append, same, strstr_cons, if_pos here]
  | cons char front ih =>
    obtain ⟨before, after, found, bound⟩ := ih
    rw [cons_append, cons_append, strstr_cons, found]
    by_cases here : needle.isPrefixOf (char :: (front ++ needle ++ back)) = true
    · exact ⟨[], _, if_pos here, Nat.zero_le _⟩
    · exact ⟨char :: before, after, if_neg here, Nat.succ_le_succ bound⟩

theorem strstr_least (needle hay before after front back : Str) (found : strstr needle hay = some (before, after))
    (same : hay = front ++ needle ++ back) : before.length ≤ front.length := by
  obtain ⟨first, rest, here, bound⟩ := strstr_first _ _ back
  rw [← same, found] at here
  cases here
  exact bound

theorem strstr_none_iff (needle hay : Str) : strstr needle hay = none ↔ ¬ needle <:+: hay := by
  constructor
  · intro absent inside
    obtain ⟨front, back, same⟩ := inside
    obtain ⟨before, after, found, _⟩ := strstr_first _ _ back
    rw [same, absent] at found
    cases found
  · intro absent
    cases found : strstr _ hay with
    | none => rfl
    | some parts =>
      have same := strstr_eq _ hay _ _ found
      exact absurd ⟨parts.1, parts.2, same.symm⟩ absent

theorem strstr_before (solid : needle ≠ []) (found : strstr needle hay = some (before, after)) : ¬ needle <:+: before := by
  intro inside
  obtain ⟨front, back, same⟩ := inside
  have whole := strstr_eq _ hay _ _ found
  have bound := strstr_least _ hay _ _ front (back ++ needle ++ after) found
    (by rw [whole, ← same]; simp only [append_assoc])
  have size := congrArg length same
  have long := length_pos_of_ne_nil solid
  simp only [length_append] at size
  omega

theorem strstr_here (needle rest : Str) (solid : needle ≠ []) : strstr needle (needle ++ rest) = some ([], rest) := by
  cases needle with
  | nil => exact absurd rfl solid
  | cons char tail =>
    have here : (char :: tail).isPrefixOf _ = true := isPrefixOf_iff_prefix.mpr (prefix_append _ rest)
    rw [cons_append, strstr_cons, ← cons_append, if_pos here, drop_left]

theorem strstr_skip (tail piece hay : Str) (clean : char ∉ piece) : strstr (char :: tail) (piece ++ hay) =
      (strstr (char :: tail) hay).map fun found => (piece ++ found.1, found.2) := by
  induction piece with
  | nil => simp
  | cons first piece ih =>
    have other : ¬ (char :: tail).isPrefixOf (first :: (piece ++ hay)) = true := by
      intro here
      have same := (cons_prefix_cons.mp (List.isPrefixOf_iff_prefix.mp here)).1
      exact clean (same ▸ mem_cons_self)
    rw [cons_append, strstr_cons, if_neg other,
      ih fun member => clean (mem_cons_of_mem _ member), Option.map_map]
    rfl

theorem strstr_absent (tail piece rest : Str) (clean : char ∉ piece) :
    strstr (char :: tail) (piece ++ (char :: tail ++ rest)) = some (piece, rest) := by
  rw [strstr_skip char tail _ _ clean, strstr_here _ rest (cons_ne_nil char tail), Option.map_some,
    append_nil]

theorem strstr_clean (tail hay : Str) (clean : char ∉ hay) : strstr (char :: tail) hay = none :=
  (strstr_none_iff _ hay).mpr fun inside => clean (inside.subset mem_cons_self)

def delimitedLoop (sep : Str) : Nat → Str → List Str
  | 0, _ => []
  | fuel + 1, src =>
    match strstr sep src with
    | some (piece, rest) => piece :: delimitedLoop sep fuel rest
    | none => []

def delimited (src sep : Str) : List Str := delimitedLoop sep (src.length + 1) src

def Rejoins (sep src : Str) (tokens : List Str) : Prop := sep.intercalate tokens = src ∨ sep.intercalate tokens ++ sep = src

theorem split_loop_found (sep src piece rest : Str) (fuel : Nat) (found : strstr sep src = some (piece, rest)) :
    splitLoop sep (fuel + 1) src = piece.take 511 :: splitLoop sep fuel rest ∧
      delimitedLoop sep (fuel + 1) src = piece :: delimitedLoop sep fuel rest := by
  rw [splitLoop, delimitedLoop, found]
  exact ⟨rfl, rfl⟩

theorem split_loop_last (absent : strstr sep src = none) :
    splitLoop sep (fuel + 1) src = (if src = [] then [] else [src]) ∧ delimitedLoop sep (fuel + 1) src = [] := by
  rw [splitLoop, delimitedLoop, absent]
  exact ⟨rfl, rfl⟩

theorem split_loop_nil (solid : sep ≠ []) (enough : src.length < fuel) : splitLoop sep fuel src = [] ↔ src = [] := by
  obtain _ | fuel := fuel
  · exact absurd enough (Nat.not_lt_zero _)
  cases found : strstr sep src with
  | none =>
    rw [(split_loop_last sep src fuel found).1]
    by_cases empty : src = []
    · simp [empty]
    · simp [empty]
  | some parts =>
    have same := strstr_eq sep src _ _ found
    rw [(split_loop_found sep src _ _ fuel found).1]
    simp [same, solid]

theorem split_loop_single (src sep value : Str) (fuel : Nat) (solid : sep ≠ []) (enough : src.length < fuel) :
    splitLoop sep fuel src = [value] ↔ (strstr sep src = none ∧ src ≠ [] ∧ value = src) ∨
        ∃ piece, strstr sep src = some (piece, []) ∧ value = piece.take 511 := by
  obtain _ | fuel := fuel
  · exact absurd enough (Nat.not_lt_zero _)
  cases found : strstr sep src with
  | none =>
    rw [(split_loop_last sep src fuel found).1]
    by_cases empty : src = []
    · simp [empty]
    · simp [empty, eq_comm]
  | some parts =>
    obtain ⟨piece, rest⟩ := parts
    have size := strstr_length sep src _ rest found
    have long := length_pos_of_ne_nil solid
    rw [(split_loop_found sep src _ rest fuel found).1, cons.injEq,
      split_loop_nil sep rest fuel solid (by omega)]
    constructor
    · rintro ⟨same, empty⟩
      exact .inr ⟨piece, by rw [empty], same.symm⟩
    · rintro (⟨absent, _⟩ | ⟨other, same, cut⟩)
      · cases absent
      · cases same
        exact ⟨cut.symm, rfl⟩

theorem rejoins_single (sep token src : Str) : Rejoins sep src [token] ↔ token = src ∨ token ++ sep = src := by
  rw [Rejoins, intercalate_singleton]

theorem rejoins_cons (sep token rest src : Str) (tokens : List Str) (more : tokens ≠ [])
    (same : src = token ++ sep ++ rest) : Rejoins sep src (token :: tokens) ↔ Rejoins sep rest tokens := by
  rw [Rejoins, Rejoins, same, intercalate_cons_of_ne_nil more, append_assoc, append_assoc,
    append_right_inj, append_right_inj]
  simp only [append_assoc, append_right_inj]

theorem split_loop_rejoins (solid : sep ≠ []) (enough : src.length < fuel) :
    Rejoins sep src (splitLoop sep fuel src) ↔ ∀ piece ∈ delimitedLoop sep fuel src, piece.length ≤ 511 := by
  induction fuel generalizing src with
  | zero => exact absurd enough (Nat.not_lt_zero _)
  | succ fuel ih =>
    cases found : strstr sep src with
    | none =>
      obtain ⟨tokens, pieces⟩ := split_loop_last sep src fuel found
      rw [tokens, pieces]
      by_cases empty : src = []
      · simp [empty, Rejoins]
      · simp [empty, Rejoins]
    | some parts =>
      obtain ⟨piece, rest⟩ := parts
      obtain ⟨tokens, pieces⟩ := split_loop_found sep src _ rest fuel found
      have whole := strstr_eq sep src _ rest found
      have long := length_pos_of_ne_nil solid
      have size := congrArg length whole
      simp only [length_append] at size
      have left : rest.length < fuel := by omega
      have later := ih rest left
      rw [tokens, pieces, forall_mem_cons]
      by_cases last : rest = []
      · rw [(split_loop_nil sep rest fuel solid left).mpr last] at later
        have none := later.mp (.inl (by rw [last]; rfl))
        rw [(split_loop_nil sep rest fuel solid left).mpr last, rejoins_single, whole]
        subst last
        constructor
        · rintro (same | same)
          · have cut := congrArg length same
            simp only [length_take, length_append, length_nil] at cut
            omega
          · rw [append_nil, append_left_inj] at same
            have cut := congrArg length same
            rw [length_take] at cut
            exact ⟨by omega, none⟩
        · intro short
          exact .inr (by rw [take_of_length_le short.1, append_nil])
      · have more : splitLoop sep fuel rest ≠ [] := fun empty =>
          last ((split_loop_nil sep rest fuel solid left).mp empty)
        constructor
        · intro joined
          have starts : ∃ tail, src = piece.take 511 ++ sep ++ tail := by
            rw [Rejoins, intercalate_cons_of_ne_nil more] at joined
            obtain same | same := joined
            · exact ⟨_, same.symm⟩
            · exact ⟨_, by rw [← same, append_assoc]⟩
          obtain ⟨tail, same⟩ := starts
          have bound := strstr_least sep src _ rest _ tail found same
          rw [length_take] at bound
          have short : piece.length ≤ 511 := by omega
          rw [take_of_length_le short, rejoins_cons sep _ rest src _ more whole] at joined
          exact ⟨short, later.mp joined⟩
        · intro short
          rw [take_of_length_le short.1, rejoins_cons sep _ rest src _ more whole]
          exact later.mpr short.2

theorem split_loop_clean (solid : sep ≠ []) (token : Str) (member : token ∈ splitLoop sep fuel src) : ¬ sep <:+: token := by
  induction fuel generalizing src with
  | zero => cases member
  | succ fuel ih =>
    cases found : strstr sep src with
    | none =>
      rw [(split_loop_last sep src fuel found).1] at member
      split at member
      · cases member
      · rw [mem_singleton] at member
        rw [member]
        exact (strstr_none_iff sep src).mp found
    | some parts =>
      rw [(split_loop_found sep src _ _ fuel found).1] at member
      obtain first | rest := mem_cons.mp member
      · intro inside
        rw [first] at inside
        exact strstr_before sep src _ _ solid found
          (inside.trans (List.take_prefix 511 _).isInfix)
      · exact ih _ rest

theorem string_split_rejoins (src sep : Str) (solid : sep ≠ []) :
    Rejoins sep src (stringSplit src sep) ↔ ∀ piece ∈ delimited src sep, piece.length ≤ 511 :=
  split_loop_rejoins sep src _ solid (Nat.lt_succ_self _)

theorem delimited_found (src sep piece rest : Str) (found : strstr sep src = some (piece, rest)) :
    piece ∈ delimited src sep := by
  rw [delimited, (split_loop_found sep src _ rest _ found).2]
  exact mem_cons_self

theorem string_split_rejoins_iff (src sep : Str) (solid : sep ≠ []) :
    (Rejoins sep src (stringSplit src sep) ∧ ∀ token ∈ stringSplit src sep, ¬ sep <:+: token) ↔
      ∀ piece ∈ delimited src sep, piece.length ≤ 511 := by
  constructor
  · intro whole
    exact (string_split_rejoins src sep solid).mp whole.1
  · intro short
    exact ⟨(string_split_rejoins src sep solid).mpr short, split_loop_clean sep src _ solid⟩

theorem string_split_rejoins_sample : ascii "," ≠ [] ∧ (∀ piece ∈ delimited (ascii "a,,b,") (ascii ","), piece.length ≤ 511) ∧
      Rejoins (ascii ",") (ascii "a,,b,") (stringSplit (ascii "a,,b,") (ascii ",")) := by
  have short : ∀ piece ∈ delimited (ascii "a,,b,") (ascii ","), piece.length ≤ 511 := by decide
  exact ⟨by decide, short, ((string_split_rejoins_iff _ _ (by decide)).mpr short).1⟩

-- A piece of 512 bytes loses its last one.
theorem long_piece_cut : ¬ Rejoins (ascii ",") (List.replicate 512 97 ++ ([44] ++ []))
      (stringSplit (List.replicate 512 97 ++ ([44] ++ [])) (ascii ",")) := by
  have clean : (44 : UInt8) ∉ replicate 512 97 := fun member =>
    absurd (eq_of_mem_replicate member) (by decide)
  have found := strstr_absent 44 [] _ [] clean
  intro joined
  have short := (string_split_rejoins _ _ (by decide)).mp joined
  have bound := short _ (delimited_found _ _ _ _ found)
  rw [length_replicate] at bound
  omega

end Codec.Ems
