import Codec.Lib.Runs
import Mathlib.Data.List.Nodup

set_option autoImplicit false

namespace Codec.Sniffer

open Codec.Lib List

-- ems_channel; `id` is its address.
structure Channel where
  id : Nat
  channel : Int
deriving DecidableEq, Repr

inductive Cursor where
  | null | sentinel
  | entry (id : Nat)
deriving DecidableEq, Repr

-- The part of an ems_do_capture of type CAPTURE_TYPE_RADIO that rotates:
-- `timer` is channel_timeout, `told` what APCFG was told, the newest first and
-- each with the list of the time. `fault` is a read of a freed channel.
structure Radio where
  lists : List Channel
  cur : Cursor
  timer : Bool
  capturing : Bool
  told : List (Channel × List Channel)
  fault : Bool
deriving DecidableEq, Repr

def nextEntry (lists : List Channel) (id : Nat) : Cursor :=
  match lists.dropWhile fun ch => decide (ch.id ≠ id) with
  | _ :: next :: _ => .entry next.id
  | _ => .sentinel

variable (cap : Radio)

def curChannel : Option Channel :=
  match cap.cur with
  | .entry id => cap.lists.find? fun ch => decide (ch.id = id)
  | .null => cap.lists.head?
  | .sentinel => cap.lists.head?

-- `built` tells whether there is memory for the message to APCFG.
def capChannelUpdateSetNext (built : Bool) : Radio :=
  if cap.lists = [] then cap
  else match curChannel cap with
    | none => { cap with fault := true }
    | some ch => { cap with cur := nextEntry cap.lists ch.id, timer := cap.timer || decide (1 < cap.lists.length),
                            told := if built then (ch, cap.lists) :: cap.told else cap.told }

def capOmitChannelUpdate (channel : Int) : Radio :=
  match cap.lists.find? fun ch => decide (ch.channel = channel) with
  | none => cap
  | some ch => { cap with lists := cap.lists.filter fun other => decide (other.id ≠ ch.id) }

inductive RadioEvent where
  | tick (built : Bool)
  | pause
  | resume (built : Bool)
  | remove (channel : Int)
  | stop
deriving DecidableEq, Repr

-- The first resume is the start of the capture.
def radioStep (event : RadioEvent) : Radio :=
  if cap.fault then cap
  else match event with
    | .tick built => if cap.timer then capChannelUpdateSetNext { cap with timer := false } built else cap
    | .pause => { cap with timer := false, capturing := false }
    | .resume built => if cap.capturing then cap else capChannelUpdateSetNext { cap with capturing := true } built
    | .remove channel => capOmitChannelUpdate cap channel
    | .stop => { cap with lists := [], cur := .null, timer := false, capturing := false }

def radioInit (channels : List Int) : Radio := ⟨channels.zipIdx.map fun one => ⟨one.2, one.1⟩, .null, false, false, [], false⟩

def RotationSafe : RadioEvent → Prop
  | .tick built => built = true
  | .resume built => built = true
  | .remove channel => ∀ ch ∈ cap.lists.find? (fun ch => decide (ch.channel = channel)), cap.cur ≠ .entry ch.id
  | _ => True

instance (cap : Radio) (event : RadioEvent) : Decidable (RotationSafe cap event) := by
  cases event <;> unfold RotationSafe <;> infer_instance

def EachOnce (told : List (Channel × List Channel)) : Prop :=
  ∀ later between earlier ch now before, told = later ++ (ch, now) :: (between ++ (ch, before) :: earlier) →
    ch ∉ between.map Prod.fst → ∀ other ∈ now, other ≠ ch → (between.map Prod.fst).count other = 1

structure Rotates (cap : Radio) : Prop where
  valid : cap.fault = false
  cursor : ∀ id, cap.cur = .entry id → ∃ ch ∈ cap.lists, ch.id = id
  listed : ∀ one ∈ cap.told, one.1 ∈ one.2
  each : EachOnce cap.told

def upcoming (cur : Cursor) (lists : List Channel) : List Channel :=
  match cur with
  | .entry id => (lists.dropWhile fun ch => decide (ch.id ≠ id)) ++ lists.takeWhile fun ch => decide (ch.id ≠ id)
  | .null => lists
  | .sentinel => lists

structure Rotation (cap : Radio) : Prop where
  rotates : Rotates cap
  ids : (cap.lists.map Channel.id).Nodup
  rounds : ∃ count, ((cap.told.map Prod.fst).filter fun ch => decide (ch ∈ cap.lists)) <+:
    (List.replicate count (upcoming cap.cur cap.lists).reverse).flatten

section Rounds

variable {α : Type} [DecidableEq α] (first : α) (rest : List α)

omit [DecidableEq α] in
theorem round_shift (count : Nat) :
    first :: (List.replicate count (rest ++ [first])).flatten = (List.replicate count (first :: rest)).flatten ++ [first] := by
  induction count with
  | zero => rfl
  | succ count ih =>
    have inner : first :: (replicate (count + 1) (rest ++ [first])).flatten =
        first :: rest ++ first :: (replicate count (rest ++ [first])).flatten := by simp [replicate_succ]
    rw [inner, ih, replicate_succ, flatten_cons, append_assoc]

theorem round_between (count : Nat) (between earlier : List α) (absent : first ∉ rest) (fresh : first ∉ between)
    (rounds : first :: (between ++ first :: earlier) <+: (List.replicate count (first :: rest)).flatten) : between = rest := by
  obtain ⟨behind, same⟩ := rounds
  cases count with
  | zero => simp at same
  | succ count =>
    rw [replicate_succ, flatten_cons, cons_append, cons_append, append_assoc, cons_append] at same
    have same := (cons.inj same).2
    cases count with
    | zero =>
      rw [replicate_zero, flatten_nil, append_nil] at same
      exact absurd (same ▸ mem_append_right _ mem_cons_self) absent
    | succ count =>
      rw [replicate_succ, flatten_cons, cons_append] at same
      have passed (items : List α) (none : first ∉ items) : ∀ item ∈ items, decide (item ≠ first) = true :=
        fun item there => decide_eq_true fun equal => none (equal ▸ there)
      have cut := congrArg (takeWhile fun item => decide (item ≠ first)) same
      rw [takeWhile_append_of_pos (passed _ fresh), takeWhile_append_of_pos (passed rest absent),
        takeWhile_cons_of_neg (by simp), takeWhile_cons_of_neg (by simp), append_nil, append_nil] at cut
      exact cut

end Rounds

theorem split_around (before behind : List Channel) (ch : Channel) (ids : ((before ++ ch :: behind).map Channel.id).Nodup) :
    (before ++ ch :: behind).dropWhile (fun other => decide (other.id ≠ ch.id)) = ch :: behind ∧
      (before ++ ch :: behind).takeWhile (fun other => decide (other.id ≠ ch.id)) = before := by
  rw [map_append, nodup_append] at ids
  have passed : ∀ other ∈ before, decide _ = true := fun other there =>
    decide_eq_true (ids.2.2 _ (mem_map_of_mem there) ch.id (by simp))
  rw [dropWhile_append_of_pos passed, takeWhile_append_of_pos passed, dropWhile_cons_of_neg (by simp),
    takeWhile_cons_of_neg (by simp), append_nil]
  exact ⟨rfl, rfl⟩

theorem upcoming_next (before behind : List Channel) (ch : Channel) (ids : ((before ++ ch :: behind).map Channel.id).Nodup) :
    upcoming (nextEntry (before ++ ch :: behind) ch.id) (before ++ ch :: behind) = behind ++ before ++ [ch] := by
  rw [nextEntry, (split_around _ _ ch ids).1]
  cases behind with
  | nil => rfl
  | cons next behind =>
    have apart : before ++ ch :: next :: behind = (before ++ [ch]) ++ next :: behind := by simp
    rw [apart] at ids ⊢
    obtain ⟨drop, take⟩ := split_around _ _ _ ids
    rw [upcoming, drop, take, append_assoc]

theorem next_listed (lists : List Channel) (id other : Nat) (next : nextEntry lists id = .entry other) : ∃ ch ∈ lists, ch.id = other := by
  have part : (lists.dropWhile fun ch => decide (ch.id ≠ id)).Sublist _ := dropWhile_sublist _
  rw [nextEntry] at next
  split at next
  · rename_i first second rest shape
    rw [shape] at part
    exact ⟨second, part.subset (by simp), Cursor.entry.inj next⟩
  · cases next

theorem chosen_split (rotation : Rotation cap) (some : cap.lists ≠ []) :
    ∃ ch before behind, cap.lists = before ++ ch :: behind ∧ upcoming cap.cur cap.lists = ch :: (behind ++ before) ∧
      curChannel cap = .some ch := by
  obtain ⟨head, rest, lists⟩ := exists_cons_of_ne_nil some
  rw [curChannel]
  cases cur : cap.cur with
  | null => exact ⟨head, [], rest, lists, by rw [upcoming, lists, append_nil], by rw [lists]; rfl⟩
  | sentinel => exact ⟨head, [], rest, lists, by rw [upcoming, lists, append_nil], by rw [lists]; rfl⟩
  | entry id =>
    obtain ⟨ch, there, rfl⟩ := rotation.rotates.cursor id cur
    obtain ⟨before, behind, split⟩ := append_of_mem there
    have ids := rotation.ids
    refine ⟨ch, before, behind, split, ?_, ?_⟩
    · rw [split] at ids ⊢
      obtain ⟨drop, take⟩ := split_around _ _ ch ids
      rw [upcoming, drop, take, cons_append]
    · dsimp only
      cases found : cap.lists.find? fun other => decide (other.id = ch.id) with
      | none => simpa using find?_eq_none.mp found ch there
      | some other =>
        have same : other.id = ch.id := by simpa using find?_some found
        rw [inj_on_of_nodup_map ids (mem_of_find?_eq_some found) there same]

theorem each_cons (told : List (Channel × List Channel)) (ch : Channel) (lists : List Channel) (each : EachOnce told)
    (this : ∀ between earlier before, told = between ++ (ch, before) :: earlier → ch ∉ between.map Prod.fst →
      ∀ other ∈ lists, other ≠ ch → (between.map Prod.fst).count other = 1) : EachOnce ((ch, lists) :: told) := by
  intro later between earlier one now before split
  cases later with
  | nil =>
    obtain ⟨same, rest⟩ := cons.inj split
    cases same
    exact this _ _ _ rest
  | cons first later => exact each _ _ _ one now _ (cons.inj split).2

theorem set_next_rotation (rotation : Rotation cap) : Rotation (capChannelUpdateSetNext cap true) ∧
    (cap.lists ≠ [] → ∃ ch ∈ cap.lists, (capChannelUpdateSetNext cap true).told = (ch, cap.lists) :: cap.told) := by
  rw [capChannelUpdateSetNext]
  by_cases none : cap.lists = []
  · rw [if_pos none]
    exact ⟨rotation, fun some => absurd none some⟩
  obtain ⟨ch, before, behind, split, order, chosen⟩ := chosen_split cap rotation none
  have there : ch ∈ cap.lists := split ▸ mem_append_right _ mem_cons_self
  obtain ⟨⟨valid, cursor, listed, each⟩, ids, count, rounds⟩ := rotation
  have absent : ch ∉ (behind ++ before).reverse := by
    have distinct := Nodup.of_map _ ids
    rw [split] at distinct
    simp only [nodup_append, nodup_cons] at distinct
    simp only [mem_reverse, mem_append, not_or]
    exact ⟨distinct.2.1.1, fun inside => distinct.2.2 ch inside ch mem_cons_self rfl⟩
  have shifted : ch :: ((cap.told.map Prod.fst).filter fun ch => decide (ch ∈ cap.lists)) <+:
      (replicate (count + 1) (ch :: (behind ++ before).reverse)).flatten := by
    rw [order, reverse_cons] at rounds
    have grown : ch :: ((cap.told.map _).filter fun ch => decide _) <+: ch :: _ := prefix_cons_inj ch |>.mpr rounds
    rw [round_shift] at grown
    refine grown.trans ?_
    rw [replicate_succ', flatten_append, flatten_singleton]
    exact (prefix_append_right_inj _).mpr ⟨_, rfl⟩
  rw [if_neg none, chosen]
  dsimp only
  refine ⟨⟨⟨valid, fun id next => next_listed _ _ id next, ?_, each_cons _ _ _ each ?_⟩, ids, count + 1, ?_⟩, fun _ => ⟨ch, there, rfl⟩⟩
  · intro one member
    obtain new | old := mem_cons.mp member
    · rw [new]
      exact there
    · exact listed one old
  · intro between earlier prior same fresh other inside apart
    rw [same, map_append, map_cons, filter_append, filter_cons_of_pos (by simpa using there)] at shifted
    have round := round_between ch _ _ _ _ absent (fun inner => fresh (mem_filter.mp inner).1) shifted
    have counted : ((between.map _).filter fun ch => decide _).count _ = (between.map Prod.fst).count _ :=
      count_filter (by simpa using inside)
    rw [← counted, round]
    refine count_eq_one_of_mem (nodup_reverse.mpr ?_) (mem_reverse.mpr ?_)
    · have distinct := Nodup.of_map _ ids
      rw [split] at distinct
      exact (nodup_middle.mp distinct).of_cons.perm perm_append_comm
    · rw [split] at inside
      have around := mem_append.mp inside
      rw [mem_cons] at around
      exact mem_append.mpr (around.elim .inr fun back => Or.inl (back.resolve_left apart))
  · have next := upcoming_next _ _ ch (split ▸ ids)
    rw [← split] at next
    rw [if_pos rfl, map_cons, filter_cons_of_pos (by simpa using there), next, reverse_append]
    exact shifted

theorem upcoming_filter (cur : Cursor) (lists : List Channel) (ids : (lists.map Channel.id).Nodup) (gone : Nat)
    (cursor : ∀ id, cur = .entry id → (∃ ch ∈ lists, ch.id = id) ∧ id ≠ gone) :
    upcoming cur (lists.filter fun ch => decide (ch.id ≠ gone)) = (upcoming cur lists).filter fun ch => decide (ch.id ≠ gone) := by
  cases cur with
  | null => rfl
  | sentinel => rfl
  | entry id =>
    obtain ⟨⟨ch, there, rfl⟩, stays⟩ := cursor id rfl
    obtain ⟨before, behind, split⟩ := append_of_mem there
    have part : (lists.filter fun ch => decide (ch.id ≠ gone)).Sublist _ := filter_sublist
    have fewer := ids.sublist (part.map _)
    rw [split] at ids fewer ⊢
    obtain ⟨drop, take⟩ := split_around _ _ ch ids
    rw [filter_append, filter_cons_of_pos (by simpa using stays)] at fewer ⊢
    obtain ⟨drop', take'⟩ := split_around _ _ ch fewer
    rw [upcoming, upcoming, drop, take, drop', take', filter_append, filter_cons_of_pos (by simpa using stays)]

theorem omit_rotation (channel : Int) (rotation : Rotation cap) (safe : RotationSafe cap (.remove channel)) :
    Rotation (capOmitChannelUpdate cap channel) := by
  rw [capOmitChannelUpdate]
  cases found : cap.lists.find? fun ch => decide (ch.channel = channel) with
  | none => exact rotation
  | some gone =>
    obtain ⟨⟨valid, cursor, listed, each⟩, ids, count, rounds⟩ := rotation
    have spared (id : Nat) (points : cap.cur = .entry id) : (∃ ch ∈ cap.lists, ch.id = id) ∧ id ≠ gone.id :=
      ⟨cursor id points, fun same => safe gone found (same ▸ points)⟩
    refine ⟨⟨valid, fun id points => ?_, listed, each⟩, ids.sublist (filter_sublist.map _), count, ?_⟩
    · obtain ⟨⟨ch, there, same⟩, stays⟩ := spared id points
      exact ⟨ch, mem_filter.mpr ⟨there, by simpa [same] using stays⟩, same⟩
    · have fewer := rounds.filter fun ch => decide (ch.id ≠ gone.id)
      rw [filter_filter, filter_flatten, map_replicate, filter_reverse, ← upcoming_filter _ _ ids _ spared] at fewer
      have both : (fun ch : Channel => decide (ch ∈ cap.lists.filter fun other => decide (other.id ≠ gone.id))) =
          fun ch => decide (ch.id ≠ gone.id) && decide (ch ∈ cap.lists) := by
        funext ch
        simp [mem_filter, Bool.and_comm]
      rw [both]
      exact fewer

theorem rotation_moved (timer capturing : Bool) (rotation : Rotation cap) :
    Rotation { cap with timer := timer, capturing := capturing } :=
  ⟨{ rotation.rotates with }, rotation.ids, rotation.rounds⟩

theorem radio_step_rotation (event : RadioEvent) (rotation : Rotation cap) (safe : RotationSafe cap event) :
    Rotation (radioStep cap event) := by
  rw [radioStep.eq_def, if_neg (by simp [rotation.rotates.valid])]
  cases event with
  | tick built =>
    obtain rfl : built = true := safe
    dsimp only
    split
    · exact (set_next_rotation _ (rotation_moved cap _ _ rotation)).1
    · exact rotation
  | pause => exact rotation_moved cap _ _ rotation
  | resume built =>
    obtain rfl : built = true := safe
    dsimp only
    split
    · exact rotation
    · exact (set_next_rotation _ (rotation_moved cap _ _ rotation)).1
  | remove channel => exact omit_rotation cap _ rotation safe
  | stop => exact ⟨⟨rotation.rotates.valid, nofun, rotation.rotates.listed, rotation.rotates.each⟩, nodup_nil, 0, by simp⟩

theorem channels_rotate (channels : List Int) (events : List RadioEvent) (safe : AllSteps radioStep RotationSafe (radioInit channels) events) :
    let cap := run radioStep (radioInit channels) events
    Rotates cap ∧ (cap.timer = true → cap.lists ≠ [] →
      ∃ ch ∈ cap.lists, (radioStep cap (.tick true)).told = (ch, cap.lists) :: cap.told) := by
  have start : Rotation (radioInit channels) := by
    refine ⟨⟨rfl, nofun, nofun, fun later between earlier ch now before split => ?_⟩, ?_, 0, nil_prefix⟩
    · simp [radioInit] at split
    · have ids : (radioInit channels).lists.map Channel.id = range' 0 channels.length := by
        rw [radioInit, map_map]
        exact zipIdx_map_snd 0 _
      rw [ids]
      exact nodup_range'
  have rotation := run_keeps _ _ _ _ _ start radio_step_rotation safe
  intro cap
  refine ⟨rotation.rotates, fun armed some => ?_⟩
  have valid : ¬ cap.fault = true := by simp [cap, rotation.rotates.valid]
  rw [radioStep.eq_def, if_neg valid]
  dsimp only
  rw [if_pos armed]
  exact (set_next_rotation _ (rotation_moved cap false _ rotation)).2 some

theorem channels_rotate_sample :
    let events : List RadioEvent := [.resume true, .tick true, .remove 1, .tick true, .pause, .resume true, .tick true, .tick true]
    let cap := run radioStep (radioInit [1, 6, 11, 6]) events
    AllSteps radioStep RotationSafe (radioInit [1, 6, 11, 6]) events ∧ Rotates cap ∧ (cap.timer = true → cap.lists ≠ [] →
      ∃ ch ∈ cap.lists, (radioStep cap (.tick true)).told = (ch, cap.lists) :: cap.told) := by
  intro events cap
  have safe : AllSteps radioStep RotationSafe (radioInit [1, 6, 11, 6]) events := by decide
  exact ⟨safe, channels_rotate _ _ safe⟩

-- The answer for channel 6 comes when 1 has been announced again, and 6 is next.
theorem current_channel_removed :
    let cap := run radioStep (radioInit [1, 6]) [.resume true, .tick true, .tick true, .remove 6]
    (cap.cur = .entry 1 ∧ ∀ ch ∈ cap.lists, ch.id ≠ 1) ∧ (radioStep cap (.tick true)).fault = true := by
  decide

end Codec.Sniffer
