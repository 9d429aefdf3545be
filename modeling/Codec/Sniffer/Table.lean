import Codec.Sniffer.Listed

set_option autoImplicit false

namespace Codec.Sniffer

open Codec.Lib List

structure Table (s : Core) : Prop where
  running : s.st = .normal ↔ s.caps ≠ []
  room : s.caps.length ≤ s.maxCaptureNumber
  apart : (s.caps.map Cap.inf).Nodup
  likewise : ∀ cap ∈ s.caps, cap.type = captureTypeRadio ↔ s.type = captureTypeRadio
  answered : ∀ id < s.started, (s.caps.map Cap.id).count id + (stops s).count id = 1

structure TableInv (s : Core) : Prop where
  running : RunningIffListed s
  apart : (s.caps.map Cap.inf).Nodup
  likewise : ∀ cap ∈ s.caps, cap.type = captureTypeRadio ↔ s.type = captureTypeRadio
  answered : ∀ id < s.started, accounts s id = 1
  fresh : ∀ id, s.started ≤ id → accounts s id = 0
  known : s.st = .paused ∨ s.st = .normal
  live : Connected s
  positive : 0 < s.maxCaptureNumber

def Room (s : Core) : Prop := s.caps.length ≤ s.maxCaptureNumber

def TableKept (s : Core) : Prop := s.ctrl = .stopped ∨ (TableInv s ∧ Room s)

variable (t : Core) (s : Core) (id : Nat) (req : Request)

theorem rows_infs : (rows s).map (fun row => row.2.1) = s.caps.map Cap.inf := by
  rw [rows, map_map]
  rfl

theorem inv_ends {s t : Core} (ends : Ends s t) (inv : TableInv s) : TableInv t := by
  have live : Connected t := by
    rw [Connected, ends.ctrl]
    exact inv.live
  refine ⟨ends.running inv.running, ?_, fun cap there => ?_, fun id below => ?_, fun id above => ?_, ?_, live, ends.most ▸ inv.positive⟩
  · rw [← rows_infs]
    refine Nodup.sublist (ends.fewer.map _) ?_
    rw [rows_infs]
    exact inv.apart
  · obtain ⟨old, member, same⟩ := mem_map.mp (ends.fewer.subset (mem_map_of_mem there))
    have type : old.type = cap.type := congrArg (fun row => row.2.2) same
    rw [ends.type, ← type]
    exact inv.likewise old member
  · rw [ends.account inv.live id]
    rw [ends.started] at below
    exact inv.answered id below
  · rw [ends.account inv.live id]
    rw [ends.started] at above
    exact inv.fresh id above
  · rcases ends.st with same | paused
    · rw [same]
      exact inv.known
    · exact .inl paused

theorem room_ends {s t : Core} (ends : Ends s t) (room : Room s) : Room t := by
  have fewer := ends.fewer.length_le
  rw [rows, rows, length_map, length_map] at fewer
  rw [Room, ends.most]
  exact Nat.le_trans fewer room

structure Asked (s t : Core) : Prop where
  caps : t.caps = s.caps
  ctrl : t.ctrl = s.ctrl
  started : t.started = s.started + 1
  most : t.maxCaptureNumber = s.maxCaptureNumber
  told : stops t = stops s

def listed (t : Core) (id : Nat) (req : Request) : Core := { t with caps := t.caps ++ [newCap t id req] }

theorem listed_found (fresh : id ∉ t.caps.map Cap.id) : cap? (listed t id req) id = some (newCap t id req) := by
  have none : (t.caps.find? fun cap => cap.id == id) = none := by
    refine find?_eq_none.mpr fun cap there => ?_
    simp only [beq_iff_eq]
    exact fun same => fresh (same ▸ mem_map_of_mem there)
  show (t.caps ++ [newCap t id req]).find? _ = _
  rw [find?_append, none]
  simp [newCap]

theorem ends_started :
    Ends (listed t id req) (capChangeStatus (listed t id req) id .start fun id s => capStatusIntoStart s id req) :=
  ends_change _ id _ _ fun u => ends_capStatusIntoStart u id req

theorem removeCap_listed (fresh : id ∉ t.caps.map Cap.id) : removeCap id (t.caps ++ [newCap t id req]) = t.caps := by
  generalize t.caps = caps at fresh
  induction caps with
  | nil => simp [removeCap, newCap]
  | cons cap rest ih =>
    have other : cap.id ≠ id := fun same => fresh (mem_cons.mpr (.inl same.symm))
    rw [cons_append, removeCap, if_neg other, ih fun there => fresh (mem_cons_of_mem _ there)]

theorem Asked.room {s t : Core} (asked : Asked s t) (room : Room s) : Room t := by
  rw [Room, asked.caps, asked.most]
  exact room

def noted (s : Core) : Core := { s with started := s.started + 1 }

def turned (s : Core) (req : Request) (st : Status) : Core :=
  sendApcfg { s with started := s.started + 1, type := req.type, st := st, memLeft := s.memTotal }

inductive Started (s : Core) (req : Request) : Core → Prop where
  | answered (errcode : Int) (wrong : errcode ≠ 0) : Started s req (stopAnswer (noted s) (some s.started) req errcode)
  | slept (right : requestError req = 0) (paused : s.st = .paused) (spent : s.memTotal ≤ 0) :
      Started s req (stopAnswer (turned s req .paused) (some s.started) req errNoSpaceLeft)
  | woken (right : requestError req = 0) (paused : s.st = .paused) (left : 0 < s.memTotal) (short : req.malloc = false) :
      Started s req (stopAnswer (turned s req .normal) (some s.started) req errMemoryError)
  | wakes (right : requestError req = 0) (paused : s.st = .paused) (left : 0 < s.memTotal) (made : req.malloc = true) :
      Started s req (captureStartCapturing (turned s req .normal) s.started req)
  | starts (right : requestError req = 0) (running : s.st ≠ .paused) (clear : runningError s req = 0)
      (made : req.malloc = true) : Started s req (captureStartCapturing (noted s) s.started req)

theorem handle_start_started : Started s req (captureHandleMsgStart s req) := by
  unfold captureHandleMsgStart
  by_cases wrong : requestError req ≠ 0
  · rw [if_pos wrong]
    exact .answered _ wrong
  have right : requestError req = 0 := not_not.mp wrong
  rw [if_neg wrong]
  by_cases paused : s.st = .paused
  · rw [if_pos paused]
    unfold captureIntoRunning
    rw [if_neg (show ¬ s.st = .normal from fun running => nomatch running.symm.trans paused)]
    by_cases spent : s.memTotal ≤ 0
    · rw [if_pos spent]
      dsimp only
      rw [if_pos (show errNoSpaceLeft ≠ 0 by decide)]
      unfold captureIntoPaused
      rw [if_neg (show ¬ Status.normal = .paused from nofun)]
      exact .slept right paused spent
    · rw [if_neg spent]
      dsimp only
      rw [if_neg (by simp)]
      cases made : req.malloc with
      | false =>
        rw [if_pos (by simp)]
        exact .woken right paused (by omega) made
      | true =>
        rw [if_neg (by simp)]
        exact .wakes right paused (by omega) made
  · rw [if_neg paused]
    dsimp only
    by_cases busy : runningError { s with started := s.started + 1 } req ≠ 0
    · rw [if_pos busy]
      exact .answered _ busy
    rw [if_neg busy]
    cases made : req.malloc with
    | false =>
      rw [if_pos (by simp)]
      exact .answered _ (by decide)
    | true =>
      rw [if_neg (by simp)]
      exact .starts right paused (not_not.mp busy) made

theorem Ends.kept {s t : Core} (ends : Ends s t) (kept : TableInv s ∧ Room s) : TableKept t :=
  .inr ⟨inv_ends ends kept.1, room_ends ends kept.2⟩

theorem ends_handled : Ends s (handled s) := (Ends.refl s).same rfl rfl rfl rfl rfl rfl rfl rfl

-- A capture on interface 1 for an FTP server, with no limits.
def plainRequest : Request := ⟨2, 0, 0, [1], 0, 0, 0, some ⟨1, ftpHeader ++ [0x61]⟩, true, true, 0⟩

def calm (event : Event) : Happening := ⟨event, [], []⟩

end Codec.Sniffer
