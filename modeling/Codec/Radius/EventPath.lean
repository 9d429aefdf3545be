import Codec.Radius.EventSpec

set_option autoImplicit false

namespace Codec.Radius

open Codec.Ems Codec.Lib

def RepliesOther (env : Env) (dev : Device) (sh : Shared) (usual : UInt8) : Prop :=
  ∃ code, code ≠ usual ∧ Replies env dev sh code

def Allowed (env : Env) (which : Which) (event : DevEvent) (dev : Device) (sh : Shared) (label : Label) : Prop :=
  match dev.st, event with
  | _, .error => label = .drop
  | .auth, .read _ => label = .keep ∨ label = .drop ∨ (label = .accept ∧ env.connect = true ∧ Replies env dev sh pwAccessAccept)
  | .auth, .write _ => label = .keep ∨ label = .send ∨ label = .drop
  | .auth, .timeout => label = .keep ∨ label = .drop
  | .acct, .read _ =>
    label = .keep ∨ label = .abandon ∨ label = .drop ∨
      (label = .settle ∧ ((∃ code, Replies env dev sh code) ∨ dev.disconnectServer > 0)) ∨
      ((label = .leave ∨ label = .revive) ∧ RepliesOther env dev sh pwAccountingResponse)
  | .acct, .write result =>
    label = .keep ∨ label = .send ∨ label = .abandon ∨ label = .drop ∨
      (label = .settle ∧ SendFails dev which result ∧ dev.disconnectServer > 0)
  | .acct, .timeout =>
    label = .keep ∨ label = .abandon ∨ label = .drop ∨
      (label = .settle ∧ dev.retryTimes ≤ 1 ∧ dev.disconnectServer > 0)
  | .normal, .read _ => label = .keep ∨ label = .abandon ∨ label = .drop
  | .normal, .write _ => label = .keep
  | .normal, .timeout => label = .keep ∨ label = .probe ∨ (label = .leave ∧ dev.sessDev = none ∧ env.pingConnect = false)
  | .hb, .read _ => label = .keep ∨ label = .interim ∨ label = .leave
  | .hb, .write result =>
    label = .keep ∨ (label = .send ∧ ¬SendFails dev which result) ∨ (label = .leave ∧ SendFails dev which result)
  | .hb, .timeout => label = .keep ∨ ((label = .interim ∨ label = .leave) ∧ dev.retryTimes ≤ 0)
  | .acctStop, .read _ => label = .keep ∨ label = .drop
  | .acctStop, .write _ => label = .keep ∨ label = .send ∨ label = .drop
  | .acctStop, .timeout => label = .keep ∨ label = .drop
  | _, _ => False

variable (allowed : Label → Prop) (env : Env) (which : Which) (start : Cell) (stream : List Recv) (dev : Device) (sh : Shared)

theorem allowed_not_renew (event : DevEvent) (dev : Device) (sh : Shared) : ¬Allowed env which event dev sh .renew := by
  intro renew
  cases event with
  | error => simp [Allowed] at renew
  | read stream => cases st : dev.st <;> simp [Allowed, st] at renew
  | write result => cases st : dev.st <;> simp [Allowed, st] at renew
  | timeout => cases st : dev.st <;> simp [Allowed, st] at renew

theorem bind_pure_state (handle : Handle Ret) (ret : Ret) (cell : Cell) :
    ((do let _ ← handle; pure ret : Handle Ret) cell).2 = (handle cell).2 := by
  rw [Handler.bind_apply]
  cases run : handle cell with
  | mk outcome reached => cases outcome <;> rfl

theorem recv_then (handle : UInt8 → Handle Ret) (stream : List Recv) (fail : Handle Ret)
    (keeps goal : Cell → Prop) (contract : RecvContract env which handle keeps fun _ => keeps)
    (good : ∀ cell, keeps cell → goal cell) (bad : ∀ cell, keeps cell → goal (fail cell).2) (cell : Cell) (holds : keeps cell) :
    goal ((do
      let ret ← raRecvMsg env which handle stream
      if ret ≠ .ok then fail else pure .ok : Handle Ret) cell).2 := by
  have received := recv_msg_triple env _ _ _ _ contract stream cell holds
  rw [Handler.bind_apply]
  cases run : raRecvMsg env _ _ _ cell with
  | mk outcome reached =>
    rw [run] at received
    cases outcome with
    | fault why => exact good _ received
    | done ret =>
      by_cases failed : ret ≠ .ok
      · simp only [if_pos failed]
        exact bad _ received
      · simp only [if_neg failed]
        exact good _ received

def authPhase (dev : Device) (sh : Shared) (cell : Cell) : Prop :=
  ∀ now, cell.dev = some now →
    (now.st = .auth ∧ now.authOut = dev.authOut ∧ cell.sh.wire = sh.wire) ∨
      (now.st = .acct ∧ ∀ request, now.authOut = some request → request ∉ cell.sh.wire)

theorem auth_read_path (old : dev.st = .auth) (fresh : Fresh ⟨some dev, sh⟩) :
    Path (Allowed env which (.read stream) dev sh) ⟨some dev, sh⟩ (raAuth env which (.read stream) ⟨some dev, sh⟩).2 := by
  have keep : Allowed env which (.read stream) dev sh .keep := by simp [Allowed, old]
  have drop : Allowed env which (.read stream) dev sh .drop := by simp [Allowed, old]
  refine recv_then env _ _ _ _
    (fun cell => Path (Allowed env which (.read stream) dev sh) ⟨some dev, sh⟩ cell ∧ authPhase dev sh cell)
    _ ?_ ?_ ?_ _ ?_
  · refine ⟨?_, ?_, fun _ holds => holds, fun _ holds => holds⟩
    · rintro now after sess ⟨path, phase⟩
      refine ⟨path_snoc _ _ _ _ _ path keep (.keep now _ _ _ (keep_set_session now _ sess)
        (set_session_st now _ sess) (frame_refl _)), ?_⟩
      rintro changed ⟨rfl⟩
      simpa only [set_session_st, set_session_auth_out] using phase now rfl
    · rintro code now after ⟨path, phase⟩ ⟨request, bytes, packet, sent, listed, first⟩ _ rfl
      rcases phase now rfl with ⟨st, same, wire⟩ | ⟨st, unsent⟩
      · have live : now.st ≠ .err := by rw [st]; decide
        by_cases accept : code = pwAccessAccept
        · by_cases connect : env.connect = true
          · obtain ⟨next, final, run, serial, wired, move⟩ := accept_spec env _ now _ connect st
            rw [accept, run]
            have replies : Replies env dev sh _ := ⟨request, bytes, same ▸ packet, wire ▸ sent, listed, first.trans accept⟩
            have listed : Allowed env which (.read stream) dev sh .accept := by simp [Allowed, old, connect, replies]
            refine ⟨path_snoc _ _ _ _ _ path listed move, ?_⟩
            rintro changed ⟨rfl⟩
            refine .inr ⟨?_, ?_⟩
            · cases move with
              | accept _ _ _ _ _ _ new _ _ _ => exact new
            · intro packet' fill onWire
              rw [fill] at serial
              have bound := (path_fresh _ _ _ path fresh).wire _ (wired ▸ onWire)
              exact absurd (Option.some.inj serial) (Nat.ne_of_lt bound)
          · obtain ⟨final, run, move⟩ := accept_lost env _ now _ (by simpa using connect) live
            rw [accept, run]
            exact ⟨path_snoc _ _ _ _ _ path drop move, fun _ found => by simp at found⟩
        · obtain ⟨final, run, move⟩ := reject_spec env _ _ now _ accept live
          rw [run]
          exact ⟨path_snoc _ _ _ _ _ path drop move, fun _ found => by simp at found⟩
      · exact absurd sent (unsent _ packet)
  · exact fun cell holds => holds.1
  · rintro ⟨entry, after⟩ ⟨path, phase⟩
    cases entry with
    | none => exact path
    | some now =>
      have live : now.st ≠ .err := by rcases phase now rfl with ⟨st, _⟩ | ⟨st, _⟩ <;> rw [st] <;> decide
      exact fail_err_path _ _ _ now _ live path drop
  · refine ⟨Relation.ReflTransGen.refl, ?_⟩
    rintro now ⟨rfl⟩
    exact .inl ⟨old, rfl, rfl⟩

structure AcctPhase (env : Env) (dev : Device) (sh : Shared) (now : Device) (after : Shared) : Prop where
  handled : now.st = .acct ∨ now.st = .normal ∨ now.st = .acctStop
  waiting : now.st = .acct → now.disconnectServer = dev.disconnectServer
  stopping : now.st = .acctStop → now.reason = 2
  packet : (now.authOut = dev.authOut ∧ after.wire = sh.wire ∧ now.st ≠ .acctStop) ∨
    RepliesOther env dev sh pwAccountingResponse

theorem acct_replies (now : Device) (after : Shared) (code : UInt8)
    (phase : AcctPhase env dev sh now after) (replies : Replies env now after code) :
    (∃ code, Replies env dev sh code) ∧ (code ≠ pwAccountingResponse → RepliesOther env dev sh pwAccountingResponse) := by
  obtain ⟨request, bytes, packet, sent, listed, first⟩ := replies
  rcases phase.packet with ⟨same, wire, _⟩ | ⟨unusual, strange, reply⟩
  · have original : Replies env dev sh code := ⟨request, bytes, same ▸ packet, wire ▸ sent, listed, first⟩
    exact ⟨⟨code, original⟩, fun unusual => ⟨code, unusual, original⟩⟩
  · exact ⟨⟨unusual, reply⟩, fun _ => ⟨unusual, strange, reply⟩⟩

theorem acct_err_out_state (cell : Cell) : (raAcctErrOut cell).2 = ((do
      let ret ← raRetryConnectServer
      if ret ≠ .ok then raFailAcctStop errNetwork else pure .ok : Handle Ret) cell).2 := by
  unfold raAcctErrOut
  rw [Handler.bind_apply, Handler.bind_apply]
  cases run : raRetryConnectServer cell with
  | mk outcome reached =>
    cases outcome with
    | fault why => rfl
    | done ret =>
      by_cases failed : ret ≠ .ok
      · simp only [if_pos failed]
        exact bind_pure_state _ _ _
      · simp only [if_neg failed]

theorem acct_read_path (old : dev.st = .acct) (sound : Sound dev) :
    Path (Allowed env which (.read stream) dev sh) ⟨some dev, sh⟩ (raAcct env which (.read stream) ⟨some dev, sh⟩).2 := by
  have keep : Allowed env which (.read stream) dev sh .keep := by simp [Allowed, old]
  have drop : Allowed env which (.read stream) dev sh .drop := by simp [Allowed, old]
  have abandon : Allowed env which (.read stream) dev sh .abandon := by simp [Allowed, old]
  have settle : ((∃ code, Replies env dev sh code) ∨ dev.disconnectServer > 0) →
      Allowed env which (.read stream) dev sh .settle := by
    intro cause
    simp [Allowed, old, cause]
  have unusual : RepliesOther env dev sh pwAccountingResponse →
      Allowed env which (.read stream) dev sh .leave ∧ Allowed env which (.read stream) dev sh .revive := by
    intro other
    simp [Allowed, old, other]
  have start : SoundCell ⟨some dev, sh⟩ := by
    intro found same
    cases same
    exact sound
  refine recv_then env _ _ _ _
    (fun cell => Path (Allowed env which (.read stream) dev sh) ⟨some dev, sh⟩ cell ∧
      ∃ now, cell.dev = some now ∧ AcctPhase env dev sh now cell.sh)
    _ ?_ ?_ ?_ _ ?_
  · refine ⟨?_, ?_, fun _ holds => holds, fun _ holds => holds⟩
    · intro now after sess holds
      obtain ⟨path, _, same, phase⟩ := holds
      cases same
      refine ⟨path_snoc _ _ _ _ _ path keep (.keep now _ _ _ (keep_set_session now _ sess)
        (set_session_st now _ sess) (frame_refl _)), _, rfl, ?_⟩
      cases which <;> exact { phase with }
    · intro code now after holds replies cell here
      obtain ⟨path, _, same, phase⟩ := holds
      cases same
      cases here
      obtain ⟨replied, other⟩ := acct_replies env dev sh now _ code phase replies
      have revive : now.st = .acctStop → Allowed env which (.read stream) dev sh .revive ∧ now.reason = 2 := by
        intro stop
        rcases phase.packet with ⟨_, _, active⟩ | seen
        · exact absurd stop active
        · exact ⟨(unusual seen).2, phase.stopping stop⟩
      obtain ⟨next, final, run, further, outcome⟩ := acct_rsp_path _ _ now _ code (path_sound _ _ _ path start now rfl)
        path keep phase.handled (fun _ => settle (.inl replied)) revive (fun strange => (unusual (other strange)).1)
      rw [run]
      refine ⟨further, next, rfl, ?_⟩
      rcases outcome with ⟨usual, st, packet, here⟩ | ⟨strange, st, reason⟩
      · cases here
        refine ⟨.inr (.inl st), fun acct => by simp [st] at acct, fun stop => by simp [st] at stop, ?_⟩
        rcases phase.packet with ⟨same, wire, _⟩ | seen
        · exact .inl ⟨packet.trans same, wire, by simp [st]⟩
        · exact .inr seen
      · exact ⟨.inr (.inr st), fun acct => by simp [st] at acct, fun _ => reason, .inr (other strange)⟩
  · exact fun cell holds => holds.1
  · intro cell holds
    obtain ⟨path, now, same, phase⟩ := holds
    obtain ⟨entry, after⟩ := cell
    cases same
    rw [acct_err_out_state]
    refine retry_connect_path _ _ _ now _ (.inl rfl) path keep abandon drop phase.handled ?_ ?_
    · intro acct more
      exact settle (.inr (phase.waiting acct ▸ more))
    · intro stop
      rcases phase.packet with ⟨_, _, active⟩ | seen
      · exact absurd stop active
      · exact ⟨(unusual seen).2, phase.stopping stop⟩
  · refine ⟨Relation.ReflTransGen.refl, dev, rfl, ⟨.inl old, fun _ => rfl, fun stop => by simp [old] at stop, ?_⟩⟩
    exact .inl ⟨rfl, rfl, by simp [old]⟩

theorem normal_read_path (old : dev.st = .normal) : Path (Allowed env which (.read stream) dev sh) ⟨some dev, sh⟩
      (raNormal env which (.read stream) ⟨some dev, sh⟩).2 := by
  have keep : Allowed env which (.read stream) dev sh .keep := by simp [Allowed, old]
  have drop : Allowed env which (.read stream) dev sh .drop := by simp [Allowed, old]
  have abandon : Allowed env which (.read stream) dev sh .abandon := by simp [Allowed, old]
  refine recv_then env _ _ _ _
    (fun cell => Path (Allowed env which (.read stream) dev sh) ⟨some dev, sh⟩ cell ∧ cell.dev ≠ none)
    _ ?_ ?_ ?_ _ ?_
  · refine ⟨?_, ?_, fun _ holds => holds, fun _ holds => holds⟩
    · intro now after sess holds
      exact ⟨path_snoc _ _ _ _ _ holds.1 keep (.keep now _ _ _ (keep_set_session now _ sess)
        (set_session_st now _ sess) (frame_refl _)), by simp⟩
    · intro code now after holds replies cell here
      cases here
      exact holds
  · exact fun cell holds => holds.1
  · intro cell holds
    obtain ⟨entry, after⟩ := cell
    cases entry with
    | none => exact absurd rfl holds.2
    | some now => exact fail_acct_stop_path _ _ _ now _ (.inl rfl) holds.1 keep abandon drop
  · exact ⟨Relation.ReflTransGen.refl, by simp⟩

theorem acct_stop_read_path (old : dev.st = .acctStop) : Path (Allowed env which (.read stream) dev sh) ⟨some dev, sh⟩
      (raAcctStopped env which (.read stream) ⟨some dev, sh⟩).2 := by
  have keep : Allowed env which (.read stream) dev sh .keep := by simp [Allowed, old]
  have drop : Allowed env which (.read stream) dev sh .drop := by simp [Allowed, old]
  refine recv_then env _ _ _ _
    (fun cell => Path (Allowed env which (.read stream) dev sh) ⟨some dev, sh⟩ cell ∧
      ∀ now, cell.dev = some now → now.st = .acctStop)
    _ ?_ ?_ ?_ _ ?_
  · refine ⟨?_, ?_, fun _ holds => holds, fun _ holds => holds⟩
    · intro now after sess holds
      refine ⟨path_snoc _ _ _ _ _ holds.1 keep (.keep now _ _ _ (keep_set_session now _ sess)
        (set_session_st now _ sess) (frame_refl _)), ?_⟩
      intro changed same
      cases same
      rw [set_session_st]
      exact holds.2 now rfl
    · intro code now after holds replies cell here
      cases here
      have live : now.st ≠ .err := by rw [holds.2 now rfl]; decide
      rw [raAcctStoppedRsp, fail_err_eq 0 now _ live]
      exact ⟨path_snoc _ _ _ _ _ holds.1 drop (drop_move now _ _ rfl rfl), fun _ found => by simp at found⟩
  · exact fun cell holds => holds.1
  · intro cell holds
    obtain ⟨entry, after⟩ := cell
    cases entry with
    | none => exact holds.1
    | some now => exact fail_err_path _ _ _ now _ (by rw [holds.2 now rfl]; decide) holds.1 drop
  · refine ⟨Relation.ReflTransGen.refl, ?_⟩
    intro now same
    cases same
    exact old

-- ra_ping_recv_handle: an echo reply opens the interim update, a second one
-- in the same call finds it open.
structure PingPhase (now : Device) : Prop where
  handled : now.st = .hb ∨ now.st = .acct
  reason : now.st = .acct → now.reason = 3

theorem change_acct_interim (dev prior : Device) (sh : Shared)
    (touch : Touch dev prior) (st : prior.st = dev.st) (reason : prior.reason = 3) (phase : PingPhase dev)
    (path : Path allowed start ⟨some dev, sh⟩) (keep : allowed .keep) (interim : allowed .interim) :
    ∃ next after, changeAcct ⟨some prior, sh⟩ = (.done .ok, ⟨some next, after⟩) ∧
      Path allowed start ⟨some next, after⟩ ∧ PingPhase next := by
  rcases phase.handled with hb | acct
  · have other : prior.st ≠ .acct := by rw [st, hb]; decide
    have same : Touch dev { prior with st := .acct } := { touch with }
    have begins := begins_filled 3 dev _ _ sh (sh.acctFilled _) same reason
      (touch_refl _) rfl rfl rfl rfl
    refine ⟨_, _, change_acct_eq _ sh other, path_snoc _ _ _ _ _ path interim ?_, .inr rfl, fun _ => reason⟩
    exact .interim dev _ sh _ _ hb rfl touch.accepted begins rfl
  · refine ⟨prior, sh, change_acct_same _ sh (st.trans acct), path_snoc _ _ _ _ _ path keep ?_, ?_⟩
    · exact .keep dev _ sh sh ⟨touch, fun _ => reason.trans (phase.reason acct).symm⟩ st (frame_refl sh)
    · exact ⟨.inr (st.trans acct), fun _ => reason⟩

theorem ping_recv_handle_path (phase : PingPhase dev) (path : Path allowed start ⟨some dev, sh⟩) (keep : allowed .keep)
    (interim : allowed .interim) : ∃ ret next after, raPingRecvHandle which ⟨some dev, sh⟩ = (.done ret, ⟨some next, after⟩) ∧
      Path allowed start ⟨some next, after⟩ ∧ PingPhase next := by
  unfold raPingRecvHandle
  simp only [Handler.bind_apply, get_dev_some]
  cases icmpKind _ _ with
  | short => exact ⟨.ok, dev, sh, rfl, path, phase⟩
  | other =>
    refine ⟨.again, _, sh, rfl, path_snoc _ _ _ _ _ path keep (.keep dev _ sh sh (keep_set_session dev _ _)
      (set_session_st dev _ _) (frame_refl sh)), ?_⟩
    cases which <;> exact ⟨phase.handled, phase.reason⟩
  | reply =>
    have interimed := change_acct_interim _ _ dev
      { ({ dev with disconnect := reportRounds sh.ra }.setSession which
          { dev.session which with bufIn := (dev.session which).bufIn.clear }) with reason := 3 } sh
      (by cases which <;> exact ⟨rfl, rfl, rfl, rfl, rfl, rfl⟩) (by cases which <;> rfl) rfl phase path keep interim
    obtain ⟨next, after, run, further, moved⟩ := interimed
    refine ⟨.ok, next, after, ?_, further, moved⟩
    rw [← run]
    cases which <;> rfl

theorem ping_recv_loop_path (base room : Nat) (stream : List Recv)
    (start : Cell) (dev : Device) (sh : Shared) (phase : PingPhase dev) (path : Path allowed start ⟨some dev, sh⟩)
    (keep : allowed .keep) (interim : allowed .interim) :
    ∃ ret next after, raPingRecvLoop which base room stream ⟨some dev, sh⟩ = (.done ret, ⟨some next, after⟩) ∧
      Path allowed start ⟨some next, after⟩ ∧ PingPhase next := by
  induction stream generalizing dev sh with
  | nil => exact ⟨.ok, dev, sh, rfl, path, phase⟩
  | cons first rest ih =>
    cases first with
    | again => exact ⟨.ok, dev, sh, rfl, path, phase⟩
    | failed => exact ⟨.err, dev, sh, rfl, path, phase⟩
    | data bytes =>
      unfold raPingRecvLoop
      by_cases empty : bytes.take room = []
      · rw [if_pos empty]
        exact ⟨.err, dev, sh, rfl, path, phase⟩
      · rw [if_neg empty]
        simp only [Handler.bind_apply, setBufIn, set_dev_some]
        have stored := path_snoc _ _ _ _ _ path keep
          (.keep dev _ sh sh (keep_set_session dev _ { dev.session which with
            bufIn := (((dev.session which).bufIn.poke base (bytes.take room)).seekWr
              (bytes.take room).length .cur).getD ((dev.session which).bufIn.poke base (bytes.take room)) })
            (set_session_st dev which _) (frame_refl sh))
        obtain ⟨ret, next, after, run, further, moved⟩ := ping_recv_handle_path _ _ _ _ sh
          (by cases which <;> exact ⟨phase.handled, phase.reason⟩) stored keep interim
        rw [run]
        exact ih next _ moved further

theorem hb_read_path (old : dev.st = .hb) (sound : Sound dev) :
    Path (Allowed env which (.read stream) dev sh) ⟨some dev, sh⟩ (raPing which (.read stream) ⟨some dev, sh⟩).2 := by
  have keep : Allowed env which (.read stream) dev sh .keep := by simp [Allowed, old]
  have leave : Allowed env which (.read stream) dev sh .leave := by simp [Allowed, old]
  have interim : Allowed env which (.read stream) dev sh .interim := by simp [Allowed, old]
  have start : SoundCell ⟨some dev, sh⟩ := by
    intro found same
    cases same
    exact sound
  obtain ⟨ret, next, after, run, path, phase⟩ := ping_recv_loop_path _ _
    _ _ _ _ dev sh
    ⟨.inl old, fun acct => by simp [old] at acct⟩ Relation.ReflTransGen.refl keep interim
  have received : raPingRecv which stream ⟨some dev, sh⟩ = (.done ret, ⟨some next, after⟩) := run
  simp only [raPing, Handler.bind_apply, received]
  by_cases failed : ret ≠ .ok
  · have active : next.st ≠ .acctStop := by
      rcases phase.handled with st | st <;> rw [st] <;> decide
    obtain ⟨final, last, gone, move⟩ := lost_user_spec 2 next after (path_sound _ _ _ path start next rfl) active
    simp only [if_pos failed, gone]
    exact path_snoc _ _ _ _ _ path leave move
  · simp only [if_neg failed]
    exact path

end Codec.Radius
