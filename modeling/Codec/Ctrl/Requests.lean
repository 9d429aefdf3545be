import Codec.Ctrl.Serving

set_option autoImplicit false

namespace Codec.Ctrl

open Codec.Ems
open Codec.Http (msgIsWeb)
open Codec.Lib

theorem Live.own {sess : Sess} {front unread : Str} (live : Live sess front unread) : Live sess sess.bufIn.mem unread :=
  ⟨live.opened, live.other, ⟨live.holds.start, live.holds.size, live.holds.content, rfl⟩, live.room⟩

theorem live_not_dead {sess : Sess} {front unread : Str} (live : Live sess front unread) : ¬ Dead sess := by
  rintro (closed | web)
  · rw [live.opened] at closed
    cases closed
  · rw [live.other] at web
    cases web

theorem callback_serves (reqs : List Request) (sess : Sess) (front unread burst future : Str)
    (live : Live sess front unread) (whole : unread ++ burst ++ future = stream reqs) :
    ∃ served rest, Served front (unread ++ burst) future reqs served rest sess.handled (evtCmdCb sess burst) := by
  rw [evtCmdCb, if_pos live.opened]
  exact loop_serves reqs _ sess _ _ _ _ live whole (Nat.lt_succ_self _)

theorem dead_run (sess : Sess) (bursts : List Str) (dead : Dead sess) : (run evtCmdCb sess bursts).handled = sess.handled := by
  induction bursts generalizing sess with
  | nil => rfl
  | cons burst bursts ih =>
    obtain ⟨same, still⟩ := dead_callback sess _ dead
    rw [run_cons, ih _ still, same]

def Recognized (reqs : List Request) (sess : Sess) (burst : Str) : Prop :=
  msgIsWeb (look sess.bufIn.mem (reqs.drop sess.handled.length) (sess.bufIn.content ++ burst)) = false

theorem dead_recognized (reqs : List Request) (sess : Sess) (bursts : List Str) (dead : Dead sess)
    (all : reqs.drop sess.handled.length = []) : AllSteps evtCmdCb (Recognized reqs) sess bursts := by
  induction bursts generalizing sess with
  | nil => trivial
  | cons burst bursts ih =>
    obtain ⟨same, still⟩ := dead_callback sess _ dead
    refine ⟨?_, ih _ still (same ▸ all)⟩
    rw [Recognized, all]
    rfl

theorem all_called (done served rest : List Request) :
    done.map Request.call ++ served.map Request.call = (done ++ (served ++ rest)).map Request.call ↔ rest = [] := by
  rw [← List.map_append]
  constructor
  · intro same
    apply List.eq_nil_of_length_eq_zero
    have lengths := congrArg List.length same
    simp only [List.length_map, List.length_append] at lengths
    omega
  · rintro rfl
    rw [List.append_nil]

section Step

variable {front unread burst future : Str} {reqs done todo served rest : List Request} {sess next : Sess}

theorem recognized_iff (live : Live sess front unread) (split : reqs = done ++ todo)
    (handled : sess.handled = done.map Request.call) :
    Recognized reqs sess burst ↔ ¬ msgIsWeb (look sess.bufIn.mem todo (unread ++ burst)) = true := by
  rw [Recognized, handled, List.length_map, split, List.drop_left' rfl, live.holds.content, Bool.not_eq_true]

theorem called_iff (step : Served front unread future todo served rest sess.handled next) (split : reqs = done ++ todo)
    (handled : sess.handled = done.map Request.call) : next.handled = reqs.map Request.call ↔ rest = [] := by
  rw [step.handled, handled, split, step.split]
  exact all_called done _ rest

theorem fits_iff {before : List (UInt32 × Option Str)} (step : Served front unread future todo served rest before next) :
    (∀ req ∈ todo, req.Fits) ↔ ∀ req ∈ rest, req.Fits := by
  rw [step.split, List.forall_mem_append]
  exact and_iff_right step.fits

theorem dead_step_iff (step : Served front unread future todo served rest sess.handled next) (dead : Dead next) :
    rest = [] ↔ (∀ req ∈ todo, req.Fits) ∧ ¬ msgIsWeb (look front todo unread) = true := by
  constructor
  · intro none
    refine ⟨(fits_iff step).mpr ?_, fun web => (step.mistaken web).1 none⟩
    rw [none]
    exact fun _ there => (nomatch there)
  · rintro ⟨fits, not⟩
    rcases step.goes with ⟨_, _, live, _⟩ | ⟨_, done | web | ⟨req, there, unfit⟩⟩
    · exact absurd dead (live_not_dead live)
    · exact done
    · exact absurd web not
    · exact absurd (fits req there) unfit

end Step

theorem last_callback_iff (reqs done todo : List Request) (last : Str) (sess : Sess) (front unread : Str)
    (live : Live sess front unread) (split : reqs = done ++ todo) (handled : sess.handled = done.map Request.call)
    (whole : unread ++ last = stream todo) : (evtCmdCb sess last).handled = reqs.map Request.call ↔
      (∀ req ∈ todo, req.Fits) ∧ Recognized reqs sess last ∧ KeepsUp todo := by
  obtain ⟨served, rest, step⟩ := callback_serves todo sess _ _ last [] live.own
    (by rw [List.append_nil, whole])
  rw [called_iff step split handled, recognized_iff live split handled]
  by_cases dead : Dead (evtCmdCb sess last)
  · have iff := dead_step_iff step dead
    constructor
    · intro none
      exact ⟨(iff.mp none).1, (iff.mp none).2, step.kept none rfl⟩
    · rintro ⟨fits, not, _⟩
      exact iff.mpr ⟨fits, not⟩
  · obtain ⟨_, _, _, _, last⟩ := step.goes.resolve_right fun both => dead both.1
    constructor
    · intro none
      refine ⟨(fits_iff step).mpr ?_, fun web => dead (step.mistaken web).2, step.kept none rfl⟩
      rw [none]
      exact fun _ there => (nomatch there)
    · rintro ⟨_, _, keeps⟩
      exact last rfl keeps

theorem served_iff (reqs : List Request) (bursts : List Str) (last : Str) (sess : Sess) (done todo : List Request)
    (front unread : Str) (live : Live sess front unread) (split : reqs = done ++ todo)
    (handled : sess.handled = done.map Request.call) (whole : unread ++ (bursts.flatten ++ last) = stream todo) :
    (run evtCmdCb sess (bursts ++ [last])).handled = reqs.map Request.call ↔
      (∀ req ∈ todo, req.Fits) ∧ AllSteps evtCmdCb (Recognized reqs) sess (bursts ++ [last]) ∧
        KeepsUp (reqs.drop (run evtCmdCb sess bursts).handled.length) := by
  induction bursts generalizing sess done todo front unread with
  | nil =>
    have left : reqs.drop sess.handled.length = todo := by rw [handled, List.length_map, split, List.drop_left' rfl]
    rw [List.nil_append, run_nil, run_cons, run_nil, left,
      last_callback_iff reqs done todo last sess _ _ live split handled whole]
    simp only [AllSteps, and_true]
  | cons burst bursts ih =>
    obtain ⟨served, rest, step⟩ := callback_serves todo sess _ _ burst _
      live.own (by rw [← whole, List.flatten_cons, List.append_assoc, List.append_assoc])
    rw [List.cons_append, run_cons, run_cons, AllSteps, recognized_iff live split handled]
    by_cases dead : Dead (evtCmdCb sess burst)
    · have iff := dead_step_iff step dead
      rw [dead_run _ _ dead, dead_run _ _ dead, called_iff step split handled]
      constructor
      · intro none
        have all : reqs.drop (evtCmdCb sess burst).handled.length = [] := by
          rw [(called_iff step split handled).mpr none, List.length_map, List.drop_length]
        refine ⟨(iff.mp none).1, ⟨(iff.mp none).2, dead_recognized _ _ _ dead all⟩, ?_⟩
        rw [all]
        exact keeps_up_nil
      · rintro ⟨fits, ⟨not, _⟩, _⟩
        exact iff.mpr ⟨fits, not⟩
    · obtain ⟨behind, more, next, remaining, _⟩ := step.goes.resolve_right fun both => dead both.1
      have now : (evtCmdCb sess burst).handled = (done ++ served).map Request.call := by
        rw [step.handled, handled, List.map_append]
      have not : ¬ msgIsWeb _ = true := fun web => dead (step.mistaken web).2
      rw [ih _ _ rest _ more next
        (by rw [split, step.split, List.append_assoc]) now remaining, fits_iff step]
      rw [and_iff_right not]

theorem fresh_holds (mem : Str) (size : mem.length = 1024) : Holds (fresh mem) mem [] := ⟨rfl, size, rfl, rfl⟩

theorem accepted_live (memory : Fin 1024 → UInt8) : Live (accepted memory) (List.ofFn memory) [] where
  opened := rfl
  other := rfl
  holds := fresh_holds _ List.length_ofFn
  room := by decide

theorem requests_handled_iff (memory : Fin 1024 → UInt8) (reqs : List Request) (bursts : List Str) (last : Str)
    (whole : bursts.flatten ++ last = stream reqs) :
    (run evtCmdCb (accepted memory) (bursts ++ [last])).handled = reqs.map Request.call ↔
      (∀ req ∈ reqs, req.Fits) ∧ AllSteps evtCmdCb (Recognized reqs) (accepted memory) (bursts ++ [last]) ∧
        KeepsUp (reqs.drop (run evtCmdCb (accepted memory) bursts).handled.length) :=
  served_iff reqs _ last _ [] reqs _ [] (accepted_live _) rfl rfl whole

def several : List Request := [⟨0x47450001, [5, 6], by decide, by decide⟩, ⟨0x47450002, [], by decide, by decide⟩]

theorem requests_handled_several : (∀ req ∈ several, req.Fits) ∧
    AllSteps evtCmdCb (Recognized several) (accepted fun _ => 0) [[0x47, 0x45, 0], [1, 0, 0, 0, 10, 5, 6, 0x47], [0x45, 0, 2, 0, 0, 0, 8]] ∧
      KeepsUp (several.drop (run evtCmdCb (accepted fun _ => 0) [[0x47, 0x45, 0], [1, 0, 0, 0, 10, 5, 6, 0x47]]).handled.length) :=
  (requests_handled_iff _ _ [[0x47, 0x45, 0], [1, 0, 0, 0, 10, 5, 6, 0x47]] _ rfl).mp (by decide +kernel)

def pair (first second : UInt32) : List Request := [⟨first, [], by decide, by decide⟩, ⟨second, [], by decide, by decide⟩]

theorem second_request_waits : (run evtCmdCb (accepted fun _ => 0) [stream (pair 1 2)]).handled ≠ (pair 1 2).map Request.call ∧
      stream (pair 0x01455400 0x47000001) = [1, 0x45, 0x54, 0, 0, 0, 0, 8] ++ [0x47] ++ [0, 0, 1, 0, 0, 0, 8] ∧
      (run evtCmdCb (accepted fun _ => 0) [[1, 0x45, 0x54, 0, 0, 0, 0, 8], [0x47], [0, 0, 1, 0, 0, 0, 8]]).handled ≠
        (pair 0x01455400 0x47000001).map Request.call := by
  decide +kernel

end Codec.Ctrl
