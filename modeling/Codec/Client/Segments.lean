import Codec.Client.Response

set_option autoImplicit false

namespace Codec.Client

open Codec.Ems
open Codec.Lib
open Codec.Tunnel (Ret)

section Runs

variable {α : Type} (parse : Str → Parsed α) (resp : Response) (behind : Nat → List UInt8)

def Settled (done : Ret × Exchange α) : Prop :=
  done.1 = .ok ∧ done.2.phase = .answered ∧ resp.outcome parse = (.answered, done.2.calls) ∨
    done.1 = .err ∧ done.2.calls = [] ∧ resp.outcome parse = (.failed, [])

theorem look_preprocess (sess : Exchange α) (future : Str) (whole : sess.received ++ future = resp.bytes)
    (waiting : sess.phase = .waiting) (none : sess.calls = [])
    (fine : LookFine parse resp (sess.received ++ behind sess.looks) sess.received sess.size) :
    (∃ size, clPreprocess parse behind sess = (.cont, ⟨sess.received, size, sess.looks + 1, .waiting, []⟩) ∧
        sess.received ≠ resp.bytes ∧ (size = sess.size ∧
            (4 < sess.received.length → ¬ FullFine (sess.received ++ behind sess.looks) sess.received sess.size) ∨
          ∃ total ∈ contentLength (sess.received ++ behind sess.looks), (sess.size : Int) ≤ total ∧
            size = increase sess.received sess.size total.toNat)) ∨ Settled parse resp (clPreprocess parse behind sess) := by
  obtain ⟨received, size, looks, phase, calls⟩ := sess
  subst waiting none
  rcases look_filter _ resp _ _ _ size whole fine with
    ⟨more, filter, full⟩ | ⟨more, total, there, large, filter⟩ | ⟨filter, own⟩ | ⟨filter, own, same, decided⟩
  · exact .inl ⟨size, by simp only [clPreprocess, filter], more, .inl ⟨rfl, full⟩⟩
  · exact .inl ⟨_, by simp only [clPreprocess, filter], more, .inr ⟨total, there, large, rfl⟩⟩
  · refine .inr (.inr ⟨by simp only [clPreprocess, filter], by simp only [clPreprocess, filter], ?_⟩)
    rw [Response.outcome, if_pos own]
  · rw [Settled, Response.outcome, if_neg own]
    cases body : parse _ with
    | more => exact absurd body decided
    | done json => exact .inr (.inl (by simp [clPreprocess, filter, same.trans body]))
    | failed => exact .inr (.inr (by simp [clPreprocess, filter, same.trans body]))

omit resp in
theorem round_again (fuel : Nat) (sess : Exchange α) (burst : Str) (short : burst.length < sess.size - sess.received.length) :
    readLoop parse behind (fuel + 1) sess (burst.map .byte) =
      let done := clPreprocess parse behind { sess with received := sess.received ++ burst }
      if done.1 = .cont then (.ok, done.2) else done := by
  rw [readLoop, Http.sock_read_bytes, if_pos short]
  rfl

omit resp in
theorem round_full (fuel : Nat) (sess : Exchange α) (burst : Str) (long : ¬ burst.length < sess.size - sess.received.length)
    (room : sess.received.length < sess.size) : readLoop parse behind (fuel + 1) sess (burst.map .byte) =
      let done := clPreprocess parse behind
        { sess with received := sess.received ++ burst.take (sess.size - sess.received.length) }
      if done.1 = .cont then
        readLoop parse behind fuel done.2 ((burst.drop (sess.size - sess.received.length)).map .byte)
      else done := by
  have some : burst.take (sess.size - sess.received.length) ≠ [] := by
    intro none
    have lengths := congrArg List.length none
    rw [List.length_take, List.length_nil] at lengths
    omega
  rw [readLoop, Http.sock_read_bytes, if_neg long]
  dsimp only
  rw [if_neg fun both => some both.1]
  rfl

omit behind in
theorem settled_not_cont (done : Ret × Exchange α) (settled : Settled parse resp done) : done.1 ≠ .cont := by
  rcases settled with ⟨ret, _⟩ | ⟨ret, _⟩ <;> rw [ret] <;> exact (nomatch ·)

def Underway (sess : Exchange α) (future : Str) : Prop :=
  sess.phase = .waiting ∧ sess.calls = [] ∧ sess.received ++ future = resp.bytes ∧ future ≠ [] ∧
    sess.received.length < sess.size ∧ 4 < sess.size

theorem loop_fine (fuel : Nat) (sess : Exchange α) (burst future : Str) (waiting : sess.phase = .waiting)
    (none : sess.calls = []) (whole : sess.received ++ burst ++ future = resp.bytes)
    (room : sess.received.length < sess.size) (five : 4 < sess.size) (enough : burst.length < fuel)
    (fine : Fine parse resp behind fuel sess.looks sess.size sess.received burst) :
    ((readLoop parse behind fuel sess (burst.map .byte)).1 = .ok ∧
        Underway resp (readLoop parse behind fuel sess (burst.map .byte)).2 future) ∨
      Settled parse resp (readLoop parse behind fuel sess (burst.map .byte)) := by
  induction fuel generalizing sess burst with
  | zero => exact absurd enough (Nat.not_lt_zero _)
  | succ fuel ih =>
    obtain ⟨look, full⟩ := fine
    by_cases short : burst.length < sess.size - sess.received.length
    · rw [List.take_of_length_le (Nat.le_of_lt short)] at look
      rw [round_again _ _ fuel sess _ short]
      rcases look_preprocess _ resp _ { sess with received := sess.received ++ burst } _ whole waiting none
        look with ⟨size, process, more, grown⟩ | settled
      · rw [process, if_pos rfl]
        have larger : sess.size ≤ size := by
          rcases grown with ⟨same, _⟩ | ⟨total, _, _, same⟩
          · exact Nat.le_of_eq same.symm
          · rw [same]
            dsimp only [increase]
            split <;> omega
        refine .inl ⟨rfl, rfl, rfl, whole, ?_, ?_, Nat.lt_of_lt_of_le five larger⟩
        · rintro rfl
          exact more (by rw [← whole, List.append_nil])
        · simp only [List.length_append]
          omega
      · rw [if_neg (settled_not_cont _ resp _ settled)]
        exact .inr settled
    · obtain ⟨filled, later⟩ := full (Nat.not_lt.mp short)
      have size : (sess.received ++ burst.take (sess.size - sess.received.length)).length = sess.size := by
        rw [List.length_append, List.length_take]
        omega
      have split : sess.received ++ burst.take (sess.size - sess.received.length) ++
          (burst.drop (sess.size - sess.received.length) ++ future) = resp.bytes := by
        rw [List.append_assoc, ← List.append_assoc (burst.take _), List.take_append_drop, ← List.append_assoc, whole]
      rw [round_full _ _ fuel sess _ short room]
      rcases look_preprocess _ resp _
        { sess with received := sess.received ++ burst.take _ } _ split waiting none look
        with ⟨grown, process, more, ⟨_, unfit⟩ | ⟨total, there, large, same⟩⟩ | settled
      · exact absurd filled (unfit (by rw [size]; exact five))
      · have next : grown = sess.size + total.toNat := by
          rw [same, increase, size, Nat.sub_self, if_neg (Nat.not_lt_zero _)]
        have positive : (sess.size : Int) ≤ total := large
        rw [process, if_pos rfl]
        apply ih _ _ rfl rfl
        · rw [List.append_assoc, split]
        · dsimp only
          omega
        · dsimp only
          omega
        · rw [List.length_drop]
          omega
        · rw [same]
          exact later _ there large
      · rw [if_neg (settled_not_cont _ resp _ settled)]
        exact .inr settled

def Exchange.standing (sess : Exchange α) : Phase × List α := (sess.phase, sess.calls)

def OnTrack (sess : Exchange α) (future : Str) : Prop :=
  Underway resp sess future ∨ sess.phase ≠ .waiting ∧ sess.standing = resp.outcome parse

theorem callback_steady (sess : Exchange α) (burst future : Str) (track : OnTrack parse resp sess (burst ++ future))
    (steady : Steady parse resp behind sess burst) : OnTrack parse resp (clEvtCb parse behind sess burst) future := by
  rcases track with ⟨waiting, none, whole, _, room, five⟩ | ⟨ended, standing⟩
  · rw [clEvtCb, if_pos waiting]
    rcases loop_fine _ resp _ _ sess _ _ waiting none
      (by rw [List.append_assoc, whole]) room five (Nat.lt_succ_self _) (steady waiting) with
      ⟨ret, next⟩ | ⟨ret, phase, outcome⟩ | ⟨ret, calls, outcome⟩
    · rw [clRecvHandle, if_pos ret]
      exact .inl next
    · rw [clRecvHandle, if_pos ret]
      exact .inr ⟨by rw [phase]; exact (nomatch ·), by rw [Exchange.standing, phase, outcome]⟩
    · rw [clRecvHandle, if_neg (by rw [ret]; exact (nomatch ·))]
      exact .inr ⟨(nomatch ·), by rw [Exchange.standing, calls, outcome]⟩
  · rw [clEvtCb, if_neg ended]
    exact .inr ⟨ended, standing⟩

theorem run_steady (sess : Exchange α) (bursts : List Str) (track : OnTrack parse resp sess bursts.flatten)
    (steady : AllSteps (clEvtCb parse behind) (Steady parse resp behind) sess bursts) :
    OnTrack parse resp (run (clEvtCb parse behind) sess bursts) [] := by
  induction bursts generalizing sess with
  | nil => exact track
  | cons burst bursts ih =>
    rw [run_cons]
    exact ih _ (callback_steady _ resp _ sess _ _ track steady.1) steady.2

theorem response_read (size : Nat) (five : 4 < size) (bursts : List Str) (whole : bursts.flatten = resp.bytes)
    (steady : AllSteps (clEvtCb parse behind) (Steady parse resp behind) (requested α size) bursts) :
    (run (clEvtCb parse behind) (requested α size) bursts).standing = resp.outcome parse := by
  have some : bursts.flatten ≠ [] := by
    intro none
    have long := head_long resp
    have lengths := congrArg List.length (whole.symm.trans none)
    rw [Response.bytes, List.length_append, List.length_nil] at lengths
    omega
  have start : Underway resp (requested α size) _ := ⟨rfl, rfl, whole, some, Nat.lt_trans (Nat.succ_pos 3) five, five⟩
  rcases run_steady _ resp _ _ _ (.inl start) steady with ⟨_, _, _, none, _⟩ | ⟨_, standing⟩
  · exact absurd rfl none
  · exact standing

end Runs

theorem response_cut_anyhow {α : Type} (parse : Str → Parsed α) (resp : Response) (first second : List Str)
    (memory other : Nat → List UInt8) (more extra : Nat) (whole : first.flatten = resp.bytes)
    (same : second.flatten = resp.bytes)
    (steady : AllSteps (clEvtCb parse memory) (Steady parse resp memory) (requested α (4096 + more)) first)
    (calm : AllSteps (clEvtCb parse other) (Steady parse resp other) (requested α (4096 + extra)) second) :
    (run (clEvtCb parse memory) (requested α (4096 + more)) first).standing =
        (run (clEvtCb parse other) (requested α (4096 + extra)) second).standing ∧
      (run (clEvtCb parse memory) (requested α (4096 + more)) first).standing = resp.outcome parse := by
  have one := response_read _ resp _ _ (by omega) _ whole steady
  have two := response_read _ resp _ _ (by omega) _ same calm
  exact ⟨one.trans two.symm, one⟩

def parseOnly (doc text : Str) : Parsed Unit :=
  if doc.isPrefixOf text then .done () else if text.isPrefixOf doc then .more else .failed

def measured : Response where
  head := ascii "HTTP/1.1 200 OK\r\nContent-Length: 2\r\n\r\n"
  body := ascii "\x7b\x7d"
  text := ascii "HTTP/1.1 200 OK\r\nContent-Length: 2"
  starts := by decide
  ends := by decide +kernel
  clean := by decide

def unmeasured : Response where
  head := ascii "HTTP/1.1 200 OK\r\n\r\n"
  body := ascii "\x7b\"result\":0\x7d"
  text := ascii "HTTP/1.1 200 OK"
  starts := by decide
  ends := by decide +kernel
  clean := by decide

theorem response_cut_anyhow_measured :
    (run (clEvtCb (parseOnly (ascii "\x7b\x7d")) fun _ => []) (requested Unit (4096 + 0)) [measured.bytes]).standing =
        (run (clEvtCb (parseOnly (ascii "\x7b\x7d")) fun _ => []) (requested Unit (4096 + 0))
          [measured.bytes.take 20, (measured.bytes.drop 20).take 19, measured.bytes.drop 39]).standing ∧
      (run (clEvtCb (parseOnly (ascii "\x7b\x7d")) fun _ => []) (requested Unit (4096 + 0)) [measured.bytes]).standing =
        measured.outcome (parseOnly (ascii "\x7b\x7d")) :=
  response_cut_anyhow _ _ _
    _ _ _ 0 0
    (by decide +kernel) (by decide +kernel) (by decide +kernel) (by decide +kernel)

theorem cut_ends_exchange :
    (run (clEvtCb (parseOnly unmeasured.body) fun _ => []) (requested Unit 4096) [unmeasured.bytes]).standing =
        (.answered, [()]) ∧ (run (clEvtCb (parseOnly unmeasured.body) fun _ => []) (requested Unit 4096)
        [unmeasured.bytes.take 20, unmeasured.bytes.drop 20]).standing = (.failed, []) ∧
      (run (clEvtCb (parseOnly measured.body) fun _ => []) (requested Unit 4096) [measured.bytes]).standing =
        (.answered, [()]) ∧ (run (clEvtCb (parseOnly measured.body) fun _ => []) (requested Unit 4096)
        [measured.bytes.take 33, measured.bytes.drop 33]).standing = (.failed, []) := by
  decide +kernel

end Codec.Client
