import Codec.Fw.Payload
import Codec.Lib.Loops

set_option autoImplicit false

namespace Codec.Fw

open Codec.Ems Codec.Lib

-- What dns_get_name finds where it looks for the length of a label.
inductive Place where
  | outside
  | root
  | pointer (target : Nat)
  | label (len : Nat)
  deriving DecidableEq, Repr

def placeAt (mem : List UInt8) (pos : Nat) : Place :=
  match mem[pos]? with
  | none => .outside
  | some len =>
    if len = 0 then .root
    else if len &&& 0xc0 ≠ 0 then
      match mem[pos + 1]? with
      | none => .outside
      | some low => .pointer ((len &&& 3).toNat * 256 + low.toNat)
    else .label len.toNat

def hop (mem : List UInt8) (pos : Nat) : Option Nat :=
  match placeAt mem pos with
  | .outside => none
  | .root => none
  | .pointer target => some target
  | .label len => some (pos + 1 + len)

def chars (mem : List UInt8) (pos : Nat) : Nat :=
  match placeAt mem pos with
  | .label len => if placeAt mem (pos + 1 + len) = .root then len else len + 1
  | _ => 0

def written (mem : List UInt8) : Nat → Nat → Nat
  | 0, _ => 0
  | count + 1, pos => chars mem pos + (hop mem pos).elim 0 (written mem count)

def labelAt (mem : List UInt8) (pos len : Nat) : Str := (mem.drop (pos + 1)).take len

def EndsAt (mem : List UInt8) (count pos : Nat) : Prop :=
  ∃ last, visit (hop mem) count pos = some last ∧ placeAt mem last = .root

variable (mem : List UInt8) (start : Nat) (count pos : Nat)

theorem place_root (pos : Nat) : placeAt mem pos = .root ↔ mem[pos]? = some 0 := by
  cases read : mem[pos]? with
  | none => simp [placeAt, read]
  | some len =>
    by_cases zero : len = 0
    · simp [placeAt, read, zero]
    · by_cases pointer : len &&& 0xc0 = 0
      · simp [placeAt, read, zero, pointer]
      · cases low : mem[pos + 1]? <;> simp [placeAt, read, zero, pointer, low]

theorem name_from_place (fuel pos : Nat) : nameFrom mem (fuel + 1) pos =
    match placeAt mem pos with
    | .outside => none
    | .root => some ([], pos + 1)
    | .pointer target => (nameFrom mem fuel target).map fun pointed => (pointed.1, pos + 2)
    | .label len => (nameFrom mem fuel (pos + 1 + len)).map fun rest =>
      (if placeAt mem (pos + 1 + len) = .root then labelAt mem pos len else labelAt mem pos len ++ 46 :: rest.1, rest.2) := by
  rw [nameFrom]
  cases read : mem[pos]? with
  | none => simp [placeAt, read]
  | some len =>
    by_cases zero : len = 0
    · simp [placeAt, read, zero]
    · by_cases pointer : len &&& 0xc0 = 0
      · have place : placeAt mem pos = .label len.toNat := by simp [placeAt, read, zero, pointer]
        rw [place]
        cases next : mem[pos + 1 + len.toNat]? with
        | none =>
          have off : nameFrom mem fuel (pos + 1 + len.toNat) = none := by cases fuel <;> simp [nameFrom, next]
          simp [zero, pointer, next, off]
        | some byte =>
          simp only [place_root, next, Option.some.injEq]
          cases found : nameFrom mem fuel _ <;> simp [zero, pointer, next, labelAt, found]
      · cases low : mem[pos + 1]? with
        | none => simp [placeAt, read, zero, pointer, low]
        | some byte =>
          simp only [placeAt, read, zero, pointer, low, Option.bind_eq_bind, Option.bind_some, if_false, if_true, ne_eq, not_false_eq_true]
          cases nameFrom mem fuel _ <;> rfl

theorem hop_root (pos : Nat) (root : placeAt mem pos = .root) : hop mem pos = none := by simp [hop, root]

theorem ends_stops (ends : EndsAt mem count pos) : Stops (hop mem) count pos := by
  obtain ⟨last, visited, root⟩ := ends
  exact ⟨last, visited, hop_root mem last root⟩

theorem ends_hop (count pos next : Nat) (jump : hop mem pos = some next) :
    EndsAt mem (count + 1) pos ↔ EndsAt mem count next := by
  simp [EndsAt, visit, jump]

theorem written_hop (count pos next : Nat) (jump : hop mem pos = some next) :
    written mem (count + 1) pos = chars mem pos + written mem count next := by
  simp [written, jump]

theorem hop_pointer (pos target : Nat) (place : placeAt mem pos = .pointer target) : hop mem pos = some target := by
  simp [hop, place]

theorem hop_label (pos len : Nat) (place : placeAt mem pos = .label len) : hop mem pos = some (pos + 1 + len) := by
  simp [hop, place]

theorem ends_cases (ends : EndsAt mem (count + 1) pos) :
    (∃ target, placeAt mem pos = .pointer target ∧ EndsAt mem count target) ∨
      ∃ len, placeAt mem pos = .label len ∧ EndsAt mem count (pos + 1 + len) := by
  cases place : placeAt mem pos with
  | outside => simp [EndsAt, visit, hop, place] at ends
  | root => simp [EndsAt, visit, hop, place] at ends
  | pointer target => exact .inl ⟨target, rfl, (ends_hop mem _ pos _ (hop_pointer mem pos _ place)).mp ends⟩
  | label len => exact .inr ⟨len, rfl, (ends_hop mem _ pos _ (hop_label mem pos len place)).mp ends⟩

theorem written_pointer (count pos target : Nat) (place : placeAt mem pos = .pointer target) :
    written mem (count + 1) pos = written mem count target := by
  simp [written_hop mem _ pos _ (hop_pointer mem pos _ _), chars, place]

theorem written_label (count pos len : Nat) (place : placeAt mem pos = .label len) : written mem (count + 1) pos =
      (if placeAt mem (pos + 1 + len) = .root then len else len + 1) + written mem count (pos + 1 + len) := by
  simp [written_hop mem _ pos _ (hop_label mem pos len _), chars, place]

theorem label_length (pos len : Nat) (inside : placeAt mem (pos + 1 + len) ≠ .outside) :
    (labelAt mem pos len).length = len := by
  have bound : pos + 1 + len < mem.length := by
    by_contra past
    have absent : mem[pos + 1 + len]? = none := List.getElem?_eq_none (by omega)
    exact inside (by simp [placeAt, absent])
  simp only [labelAt, List.length_take, List.length_drop]
  omega

theorem name_from_ends (fuel pos : Nat) (text : Str) (behind : Nat) (decoded : nameFrom mem fuel pos = some (text, behind)) :
    ∃ count < fuel, EndsAt mem count pos ∧ text.length = written mem count pos := by
  induction fuel generalizing pos text behind with
  | zero => cases decoded
  | succ fuel ih =>
    rw [name_from_place] at decoded
    cases place : placeAt mem pos with
    | outside => simp [place] at decoded
    | root =>
      simp only [place, Option.some.injEq, Prod.mk.injEq] at decoded
      refine ⟨0, Nat.succ_pos fuel, ⟨pos, rfl, place⟩, ?_⟩
      rw [← decoded.1]
      rfl
    | pointer target =>
      simp only [place, Option.map_eq_some_iff, Prod.exists, Prod.mk.injEq] at decoded
      obtain ⟨inner, after, pointed, same, _⟩ := decoded
      obtain ⟨count, less, ends, length⟩ := ih _ _ _ pointed
      have jump := hop_pointer mem pos _ place
      refine ⟨count + 1, Nat.succ_lt_succ less, (ends_hop mem _ pos _ jump).mpr ends, ?_⟩
      rw [written_pointer mem _ pos _ place, ← same, length]
    | label len =>
      simp only [place, Option.map_eq_some_iff, Prod.exists, Prod.mk.injEq] at decoded
      obtain ⟨inner, after, rest, same, _⟩ := decoded
      obtain ⟨count, less, ends, length⟩ := ih _ _ _ rest
      have jump := hop_label mem pos len place
      have inside : placeAt mem (pos + 1 + len) ≠ .outside := by
        intro outside
        cases fuel with
        | zero => cases rest
        | succ fuel => simp [name_from_place, outside] at rest
      have own := label_length mem pos len inside
      refine ⟨count + 1, Nat.succ_lt_succ less, (ends_hop mem _ pos _ jump).mpr ends, ?_⟩
      rw [written_label mem _ pos len place, ← same]
      by_cases root : placeAt mem (pos + 1 + len) = .root
      · have last : written mem count (pos + 1 + len) = 0 := by
          cases count <;> simp [written, chars, root, hop]
        simp [root, own, last]
      · simp [root, own, length]
        omega

theorem ends_name_from (count pos fuel : Nat) (ends : EndsAt mem count pos) (enough : count < fuel) :
    ∃ text behind, nameFrom mem fuel pos = some (text, behind) := by
  induction count generalizing pos fuel with
  | zero =>
    obtain ⟨last, visited, root⟩ := ends
    cases visited
    cases fuel with
    | zero => exact absurd enough (Nat.lt_irrefl 0)
    | succ fuel => exact ⟨[], pos + 1, by rw [name_from_place, root]⟩
  | succ count ih =>
    cases fuel with
    | zero => exact absurd enough (Nat.not_lt_zero _)
    | succ fuel =>
      have fewer := Nat.lt_of_succ_lt_succ enough
      rw [name_from_place]
      obtain ⟨target, place, rest⟩ | ⟨len, place, rest⟩ := ends_cases mem _ pos ends
      · obtain ⟨text, behind, pointed⟩ := ih _ fuel rest fewer
        exact ⟨text, pos + 2, by simp [place, pointed]⟩
      · obtain ⟨text, behind, decoded⟩ := ih _ fuel rest fewer
        simp only [place, decoded, Option.map_some]
        exact ⟨_, behind, rfl⟩

theorem name_from_more (fuel more pos : Nat) (found : Str × Nat) (decoded : nameFrom mem fuel pos = some found)
    (longer : fuel ≤ more) : nameFrom mem more pos = some found := by
  induction fuel generalizing more pos found with
  | zero => cases decoded
  | succ fuel ih =>
    obtain ⟨extra, same⟩ := Nat.exists_eq_add_of_le longer
    rw [same, Nat.add_right_comm]
    rw [name_from_place] at decoded ⊢
    cases place : placeAt mem pos with
    | outside => simp [place] at decoded
    | root => simpa [place] using decoded
    | pointer target =>
      simp only [place, Option.map_eq_some_iff] at decoded ⊢
      obtain ⟨inner, pointed, same⟩ := decoded
      exact ⟨inner, ih _ _ _ pointed (Nat.le_add_right fuel _), same⟩
    | label len =>
      simp only [place, Option.map_eq_some_iff] at decoded ⊢
      obtain ⟨inner, rest, same⟩ := decoded
      exact ⟨inner, ih _ _ _ rest (Nat.le_add_right fuel _), same⟩

def DecodesInside (mem : List UInt8) (start : Nat) : Prop :=
  ∃ fuel text behind, nameFrom mem fuel start = some (text, behind) ∧ text.length < nameRoom

structure NameLayout (mem : List UInt8) (start : Nat) : Prop where
  inside : ∀ count pos, visit (hop mem) count start = some pos → placeAt mem pos ≠ .outside
  once : ∀ first second pos, visit (hop mem) first start = some pos → visit (hop mem) second start = some pos → first = second
  short : ∀ count, written mem count start < nameRoom

theorem decodes_iff_ends : DecodesInside mem start ↔ ∃ count, EndsAt mem count start ∧ written mem count start < nameRoom := by
  constructor
  · rintro ⟨fuel, text, behind, decoded, short⟩
    obtain ⟨count, _, ends, length⟩ := name_from_ends mem fuel _ text _ decoded
    exact ⟨count, ends, length ▸ short⟩
  · rintro ⟨count, ends, short⟩
    obtain ⟨text, behind, decoded⟩ := ends_name_from mem _ _ _ ends (Nat.lt_succ_self _)
    obtain ⟨other, _, finish, length⟩ := name_from_ends mem _ _ text _ decoded
    have same := stops_unique _ _ _ _ (ends_stops mem _ _ finish) (ends_stops mem _ _ ends)
    exact ⟨count + 1, text, behind, decoded, by rw [length, same]; exact short⟩

theorem written_bound (count later start : Nat) (ends : EndsAt mem count start) :
    written mem later start ≤ written mem count start := by
  induction count generalizing later start with
  | zero =>
    obtain ⟨last, visited, root⟩ := ends
    cases visited
    cases later with
    | zero => exact Nat.le_refl 0
    | succ later => simp [written, chars, root, hop]
  | succ count ih =>
    cases later with
    | zero => exact Nat.zero_le _
    | succ later =>
      cases jump : hop mem start with
      | none => simp [written, jump]
      | some next =>
        rw [written_hop mem _ _ next jump, written_hop mem _ _ next jump]
        exact Nat.add_le_add_left (ih _ next ((ends_hop mem _ _ next jump).mp ends)) _

theorem ends_inside (ends : EndsAt mem count pos) : placeAt mem pos ≠ .outside := by
  intro outside
  have off : hop mem pos = none := by simp [hop, outside]
  obtain ⟨last, visited, root⟩ := ends
  cases count with
  | zero =>
    cases visited
    simp [outside] at root
  | succ count => simp [visit, off] at visited

theorem ends_rest (count later start pos : Nat) (ends : EndsAt mem count start)
    (visited : visit (hop mem) later start = some pos) : EndsAt mem (count - later) pos := by
  obtain ⟨before, _⟩ := stops_rest _ _ _ _ pos (ends_stops mem _ _ ends) visited
  obtain ⟨last, there, root⟩ := ends
  have split := visit_add (hop mem) later (count - later) start
  rw [Nat.add_sub_cancel' before, there, visited, Option.bind_some] at split
  exact ⟨last, split.symm, root⟩

theorem decodes_layout (decodes : DecodesInside mem start) : NameLayout mem start := by
  obtain ⟨count, ends, short⟩ := (decodes_iff_ends mem _).mp decodes
  refine ⟨?_, ?_, ?_⟩
  · intro later pos visited
    exact ends_inside mem _ pos (ends_rest mem _ _ _ pos ends visited)
  · intro first second pos one other
    exact stops_once _ _ _ _ _ pos (ends_stops mem _ _ ends) one other
  · intro later
    exact Nat.lt_of_le_of_lt (written_bound mem _ _ _ ends) short

theorem layout_decodes (layout : NameLayout mem start) : DecodesInside mem start := by
  have bounded (count pos : Nat) (visited : visit (hop mem) count start = some pos) : pos ∈ {pos | pos < mem.length} := by
    have inside := layout.inside _ pos visited
    by_contra past
    have absent : mem[pos]? = none := List.getElem?_eq_none (Nat.le_of_not_lt past)
    exact inside (by simp [placeAt, absent])
  obtain ⟨count, last, visited, stop⟩ :=
    stops_of_once _ _ (Set.finite_lt_nat _) _ bounded layout.once
  refine (decodes_iff_ends mem _).mpr ⟨count, ⟨last, visited, ?_⟩, layout.short _⟩
  have inside := layout.inside _ last visited
  cases place : placeAt mem last with
  | outside => exact absurd place inside
  | root => rfl
  | pointer target => simp [hop, place] at stop
  | label len => simp [hop, place] at stop

theorem dns_get_name_inside_iff (mem : List UInt8) (start : Nat) : DecodesInside mem start ↔ NameLayout mem start :=
  ⟨decodes_layout mem _, layout_decodes mem _⟩

theorem pointer_to_itself : ¬∀ (mem : List UInt8) (start : Nat), start < mem.length → DecodesInside mem start := by
  intro claim
  let mem : List UInt8 := List.replicate 12 0 ++ [0xc0, 12]
  obtain ⟨count, ends, _⟩ := (decodes_iff_ends mem 12).mp (claim mem 12 (by decide))
  have still : visit (hop mem) 1 12 = some 12 := by decide
  exact absurd (stops_once _ _ 0 1 12 12 (ends_stops mem _ 12 ends) rfl still) (by decide)

def targets (mem : List UInt8) : Nat → Nat → List Nat
  | 0, _ => []
  | count + 1, pos =>
    match placeAt mem pos with
    | .outside => []
    | .root => []
    | .pointer target => target :: targets mem count target
    | .label len => targets mem count (pos + 1 + len)

theorem pointer_small (pos target : Nat) (place : placeAt mem pos = .pointer target) : target < 1024 := by
  rw [placeAt] at place
  cases read : mem[pos]? with
  | none => simp [read] at place
  | some len =>
    cases low : mem[pos + 1]? with
    | none =>
      simp only [read, low] at place
      split_ifs at place
    | some byte =>
      simp only [read, low] at place
      split_ifs at place
      simp only [Place.pointer.injEq] at place
      have high : (len &&& 3).toNat ≤ 3 := by
        rw [UInt8.toNat_and]
        exact Nat.and_le_right
      have bound := byte.toNat_lt
      omega

theorem label_positive (pos len : Nat) (place : placeAt mem pos = .label len) : 0 < len := by
  rw [placeAt] at place
  cases read : mem[pos]? with
  | none => simp [read] at place
  | some byte =>
    simp only [read] at place
    split_ifs at place with zero pointer
    · cases low : mem[pos + 1]? <;> simp [low] at place
    · simp only [Place.label.injEq] at place
      have other : byte.toNat ≠ 0 := fun same => zero (UInt8.toNat_inj.mp same)
      omega

theorem turns_bound (ends : EndsAt mem count pos) : count ≤ (targets mem count pos).length + written mem count pos := by
  induction count generalizing pos with
  | zero => exact Nat.zero_le _
  | succ count ih =>
    obtain ⟨target, place, rest⟩ | ⟨len, place, rest⟩ := ends_cases mem _ pos ends
    · have later := ih _ rest
      rw [written_pointer mem _ pos _ place]
      simp only [targets, place, List.length_cons]
      omega
    · have later := ih _ rest
      have positive := label_positive mem pos len place
      rw [written_label mem _ pos len place]
      simp only [targets, place]
      split <;> omega

theorem target_ends (count pos target : Nat) (ends : EndsAt mem count pos)
    (followed : target ∈ targets mem count pos) : target < 1024 ∧ ∃ fewer < count, EndsAt mem fewer target := by
  induction count generalizing pos with
  | zero => simp [targets] at followed
  | succ count ih =>
    obtain ⟨next, place, rest⟩ | ⟨len, place, rest⟩ := ends_cases mem _ pos ends
    · simp only [targets, place, List.mem_cons] at followed
      obtain here | later := followed
      · rw [here]
        exact ⟨pointer_small mem pos next place, count, Nat.lt_succ_self _, rest⟩
      · obtain ⟨small, fewer, less, end_⟩ := ih next rest later
        exact ⟨small, fewer, Nat.lt_succ_of_lt less, end_⟩
    · simp only [targets, place] at followed
      obtain ⟨small, fewer, less, end_⟩ := ih _ rest followed
      exact ⟨small, fewer, Nat.lt_succ_of_lt less, end_⟩

theorem targets_nodup (ends : EndsAt mem count pos) : (targets mem count pos).Nodup := by
  induction count generalizing pos with
  | zero => exact List.nodup_nil
  | succ count ih =>
    obtain ⟨next, place, rest⟩ | ⟨len, place, rest⟩ := ends_cases mem _ pos ends
    · simp only [targets, place, List.nodup_cons]
      refine ⟨?_, ih next rest⟩
      intro again
      obtain ⟨_, fewer, less, end_⟩ := target_ends mem _ next next rest again
      have finish := ends_stops mem _ next rest
      have same := stops_unique _ _ _ next (ends_stops mem _ next end_) finish
      omega
    · simp only [targets, place]
      exact ih _ rest

theorem dns_get_name_limit : ∃ limit, 1536 < limit ∧ dnsGetName mem start = (nameFrom mem limit start).bind fun found =>
      if found.1.length < nameRoom then some (found.1.takeWhile (· ≠ 0), found.2) else none := by
  refine ⟨nameRoom * 1024, by decide, ?_⟩
  unfold dnsGetName
  cases nameFrom mem _ _ with
  | none => simp only [Option.bind_none]
  | some pair => simp only [Option.bind_some]

theorem dns_get_name_some (fuel start : Nat) (text : Str) (behind : Nat)
    (decoded : nameFrom mem fuel start = some (text, behind)) (short : text.length < nameRoom) :
    dnsGetName mem start = some (text.takeWhile (· ≠ 0), behind) := by
  obtain ⟨limit, big, result⟩ := dns_get_name_limit mem _
  obtain ⟨count, less, ends, length⟩ := name_from_ends mem fuel _ text _ decoded
  have turns := turns_bound mem _ _ ends
  have pointers : (targets mem count start).length ≤ (List.range 1024).length := by
    apply (List.subperm_of_subset (targets_nodup mem _ _ ends) ?_).length_le
    intro target followed
    exact List.mem_range.mpr (target_ends mem _ _ _ ends followed).1
  rw [List.length_range] at pointers
  have room : nameRoom = 512 := rfl
  obtain ⟨other, after, enough⟩ := ends_name_from mem _ _ limit ends (by omega)
  have one := name_from_more mem fuel (fuel + limit) _ _ decoded (Nat.le_add_right _ _)
  have two := name_from_more mem _ (fuel + limit) _ _ enough (Nat.le_add_left _ _)
  rw [one] at two
  rw [← Option.some.inj two] at enough
  rw [result, enough, Option.bind_some, if_pos short]

theorem dns_get_name_found (name : Str) (behind : Nat) (found : dnsGetName mem start = some (name, behind)) :
    ∃ fuel text, nameFrom mem fuel start = some (text, behind) ∧ text.length < nameRoom := by
  obtain ⟨limit, _, result⟩ := dns_get_name_limit mem _
  rw [result, Option.bind_eq_some_iff] at found
  obtain ⟨pair, decoded, made⟩ := found
  rw [Option.ite_none_right_eq_some] at made
  obtain ⟨short, same⟩ := made
  cases same
  exact ⟨limit, pair.1, decoded, short⟩

def Reads (mem : List UInt8) (pos : Nat) (text : Str) (behind : Nat) : Prop := ∃ fuel, nameFrom mem fuel pos = some (text, behind)

theorem reads_root (pos : Nat) (text : Str) (behind : Nat) (place : placeAt mem pos = .root) :
    Reads mem pos text behind ↔ text = [] ∧ behind = pos + 1 := by
  constructor
  · rintro ⟨fuel, decoded⟩
    cases fuel with
    | zero => cases decoded
    | succ fuel =>
      simp only [name_from_place, place, Option.some.injEq, Prod.mk.injEq] at decoded
      exact ⟨decoded.1.symm, decoded.2.symm⟩
  · rintro ⟨rfl, rfl⟩
    exact ⟨1, by simp [name_from_place, place]⟩

theorem reads_pointer (pos target : Nat) (text : Str) (behind : Nat) (place : placeAt mem pos = .pointer target) :
    Reads mem pos text behind ↔ behind = pos + 2 ∧ ∃ after, Reads mem target text after := by
  constructor
  · rintro ⟨fuel, decoded⟩
    cases fuel with
    | zero => cases decoded
    | succ fuel =>
      simp only [name_from_place, place, Option.map_eq_some_iff, Prod.exists, Prod.mk.injEq] at decoded
      obtain ⟨inner, after, pointed, rfl, rfl⟩ := decoded
      exact ⟨rfl, after, fuel, pointed⟩
  · rintro ⟨rfl, after, fuel, pointed⟩
    exact ⟨fuel + 1, by simp [name_from_place, place, pointed]⟩

theorem reads_label (pos len : Nat) (text : Str) (behind : Nat) (place : placeAt mem pos = .label len) :
    Reads mem pos text behind ↔ ∃ inner, Reads mem (pos + 1 + len) inner behind ∧
      text = if placeAt mem (pos + 1 + len) = .root then labelAt mem pos len else labelAt mem pos len ++ 46 :: inner := by
  constructor
  · rintro ⟨fuel, decoded⟩
    cases fuel with
    | zero => cases decoded
    | succ fuel =>
      simp only [name_from_place, place, Option.map_eq_some_iff, Prod.exists, Prod.mk.injEq] at decoded
      obtain ⟨inner, after, rest, rfl, rfl⟩ := decoded
      exact ⟨inner, ⟨fuel, rest⟩, rfl⟩
  · rintro ⟨inner, ⟨fuel, rest⟩, rfl⟩
    exact ⟨fuel + 1, by simp only [name_from_place, place, rest, Option.map_some]⟩

end Codec.Fw
