import Codec.Radius.Records

set_option autoImplicit false

namespace Codec.Radius

open Codec.Ems Codec.Lib

theorem begins_session (status : Int) (dev now : Device) (sh after : Shared) (request : Request)
    (begins : Begins status dev sh now after request) (begun : dev.sessid ≠ none) : now.sessid = dev.sessid := by
  rw [begins.sessid]
  cases old : dev.sessid with
  | none => exact absurd old begun
  | some session => rfl

theorem opened_next (dev : Device) (sh : Shared) (opened : Opened dev sh) (kind : Int) (later : kind = 2 ∨ kind = 3) :
    Next (records (dev.sessid.getD (sessionText sh.clock)) sh.wire) kind := by
  obtain ⟨session, begun, log⟩ := opened
  rw [begun]
  exact .inr ⟨log, later⟩

theorem opened_begun (dev : Device) (sh : Shared) (opened : Opened dev sh) : dev.sessid ≠ none := by
  obtain ⟨session, begun, _⟩ := opened
  simp [begun]

-- What the Start of a device needs: no record stands under its session id,
-- and no other device holds it.
def Unused (others : List Device) (dev : Device) (sh : Shared) : Prop :=
  records (dev.sessid.getD (sessionText sh.clock)) sh.wire = [] ∧
    (dev.sessid = none → ∀ other ∈ others, other.sessid ≠ some (sessionText sh.clock))

theorem books_move (before behind : List Device) (label : Label) (cell next : Cell) (move : Move label cell next)
    (start : label = .accept → ∀ now, cell.dev = some now → Unused (before ++ behind) now cell.sh)
    (more : label = .interim ∨ label = .leave → ∀ now, cell.dev = some now → Opened now cell.sh)
    (books : Books (before ++ (cell.dev.toList ++ behind)) cell.sh) :
    Books (before ++ (next.dev.toList ++ behind)) next.sh := by
  have base := base_move _ _ _ cell next move books.base
  cases move with
  | keep dev changed sh after same st frame =>
    exact books_quiet _ _ dev _ sh _ _ ⟨same.id, same.ip, same.mac, rfl, same.sessid, same.authOut⟩
      frame (fun acct => st ▸ acct) base books
  | send dev changed sh after same st result =>
    subst result
    exact books_send _ _ dev _ sh same st base books
  | settle dev changed sh after same was new frame =>
    exact books_quiet _ _ dev _ sh _ _ ⟨same.id, same.ip, same.mac, rfl, same.sessid, same.authOut⟩
      frame (fun acct => by simp [new] at acct) base books
  | revive dev changed sh after same was fine new frame =>
    exact books_quiet _ _ dev _ sh _ _ ⟨same.id, same.ip, same.mac, rfl, same.sessid, same.authOut⟩
      frame (fun acct => by simp [new] at acct) base books
  | probe dev changed sh after same was new frame =>
    exact books_quiet _ _ dev _ sh _ _ ⟨same.id, same.ip, same.mac, rfl, same.sessid, same.authOut⟩
      frame (fun acct => by simp [new] at acct) base books
  | abandon dev changed sh after was new accepted same frame =>
    exact books_quiet _ _ dev _ sh _ _ ⟨same.id, same.ip, same.mac, rfl, same.sessid, same.authOut⟩
      frame (fun acct => by simp [new] at acct) base books
  | accept dev changed sh after request was new accepted begins fw =>
    obtain ⟨unused, fresh⟩ := start rfl dev rfl
    exact books_begins _ _ 1 dev _ sh _ _ begins (.inl ⟨unused, rfl⟩) fresh (fun _ => by decide) base books
  | interim dev changed sh after request was new accepted begins fw =>
    have opened := more (.inl rfl) dev rfl
    exact books_begins _ _ 3 dev _ sh _ _ begins (opened_next dev sh opened 3 (.inr rfl))
      (fun unset => absurd unset (opened_begun dev sh opened)) (fun _ => by decide) base books
  | leave dev changed sh after request was new accepted begins fw =>
    have opened := more (.inr rfl) dev rfl
    exact books_begins _ _ 2 dev _ sh _ _ begins (opened_next dev sh opened 2 (.inl rfl))
      (fun unset => absurd unset (opened_begun dev sh opened)) (fun acct => by simp [new] at acct) base books
  | drop dev sh after frame =>
    refine books_entry _ _ dev sh _ base frame.wire ?_ ?_ ?_ books
    · exact fun _ here => nomatch here
    · exact fun _ here => nomatch here
    · exact fun _ here => nomatch here
  | renew dev changed sh after request new same code serial reason fw wire clock nextSerial =>
    refine books_entry _ _ dev sh _ base wire ?_ ?_ ?_ books
    · intro found here session begun
      cases here
      exact .inl (same.sessid.symm.trans begun)
    · intro found here packet fill accounting _
      cases here
      cases Option.some.inj (fill.symm.trans same.authOut)
      exact absurd (code.symm.trans accounting) (by decide)
    · intro found here acct
      cases here
      simp [new] at acct

theorem move_wire (label : Label) (cell next : Cell) (move : Move label cell next) (quiet : label ≠ .send) :
    next.sh.wire = cell.sh.wire := by
  cases move_form label cell next move with
  | quiet _ dev changed sh after fw same frame => exact frame.wire
  | send dev changed sh same => exact absurd rfl quiet
  | begins _ status dev changed sh after request begins => exact begins.wire
  | drop _ dev sh after fw frame => exact frame.wire
  | renew _ dev changed sh after request same serial wire nextSerial => exact wire

theorem move_session (label : Label) (cell next : Cell) (move : Move label cell next) (session : Str)
    (old : ∀ dev, cell.dev = some dev → dev.sessid = some session) (now : Device) (here : next.dev = some now) :
    now.sessid = some session := by
  cases move_form label cell next move with
  | quiet _ dev changed sh after fw same frame =>
    cases here
    exact same.sessid.trans (old dev rfl)
  | send dev changed sh same =>
    cases here
    exact same.sessid.trans (old dev rfl)
  | begins _ status dev changed sh after request begins =>
    cases here
    rw [begins_session status dev now sh _ _ begins (by simp [old dev rfl]), old dev rfl]
  | drop _ dev sh after fw frame => cases here
  | renew _ dev changed sh after request same serial wire nextSerial =>
    cases here
    exact same.sessid.trans (old dev rfl)

def Ready (others : List Device) (env : Env) (which : Which) (event : DevEvent) (dev : Device) (sh : Shared) : Prop :=
  match dev.st, event with
  | .auth, .read _ => env.connect = true → Replies env dev sh pwAccessAccept → Unused others dev sh
  | .normal, .timeout => dev.sessDev = none → env.pingConnect = false → Opened dev sh
  | .hb, .read _ => Opened dev sh
  | .hb, .write result => SendFails dev which result → Opened dev sh
  | .hb, .timeout => dev.retryTimes ≤ 0 → Opened dev sh
  | _, _ => True

def EventReady (w : World) (event : Event) : Prop :=
  match event with
  | .device env id which event => ∀ dev ∈ w.devs, dev.id = id → Ready w.devs env which event dev w.sh
  | _ => True

def Accountable (w : World) (event : Event) : Prop :=
  (∀ dev ∈ w.devs, dev.id ∈ leavers w event → dev.st ≠ .acctStop → Opened dev w.sh) ∧ EventReady w event

theorem allowed_opened (others : List Device) (env : Env) (which : Which) (event : DevEvent) (dev : Device) (sh : Shared) (label : Label)
    (allowed : Allowed env which event dev sh label) (prepares : label = .interim ∨ label = .leave)
    (ready : Ready others env which event dev sh) (acct : dev.st = .acct → Accounting dev sh) :
    Opened dev sh ∧ ¬Allowed env which event dev sh .send := by
  cases event with
  | error =>
    have drop : label = .drop := by simpa [Allowed] using allowed
    simp [drop] at prepares
  | read stream =>
    cases st : dev.st with
    | acct =>
      refine ⟨?_, by simp [Allowed, st]⟩
      simp only [Allowed, st] at allowed
      have other : RepliesOther env dev sh pwAccountingResponse := by
        rcases prepares with rfl | rfl
        · simp at allowed
        · simpa using allowed
      obtain ⟨_, _, request, _, fill, sent, _⟩ := other
      exact (acct st _ fill).2.2 sent
    | hb =>
      simp only [Ready, st] at ready
      exact ⟨ready, by simp [Allowed, st]⟩
    | _ => rcases prepares with rfl | rfl <;> simp [Allowed, st] at allowed
  | write result =>
    cases st : dev.st with
    | hb =>
      simp only [Ready, st] at ready
      have fails : SendFails dev which result := by
        rcases prepares with rfl | rfl
        · simp [Allowed, st] at allowed
        · simpa [Allowed, st] using allowed
      exact ⟨ready fails, by simp [Allowed, st, fails]⟩
    | _ => rcases prepares with rfl | rfl <;> simp [Allowed, st] at allowed
  | timeout =>
    cases st : dev.st with
    | normal =>
      simp only [Ready, st] at ready
      refine ⟨?_, by simp [Allowed, st]⟩
      rcases prepares with rfl | rfl
      · simp [Allowed, st] at allowed
      · have refused : dev.sessDev = none ∧ env.pingConnect = false := by simpa [Allowed, st] using allowed
        exact ready refused.1 refused.2
    | hb =>
      simp only [Ready, st] at ready
      refine ⟨?_, by simp [Allowed, st]⟩
      rcases prepares with rfl | rfl
      · exact ready (by simpa [Allowed, st] using allowed)
      · exact ready (by simpa [Allowed, st] using allowed)
    | _ => rcases prepares with rfl | rfl <;> simp [Allowed, st] at allowed

theorem allowed_accept (others : List Device) (env : Env) (which : Which) (event : DevEvent) (dev : Device)
    (sh : Shared) (allowed : Allowed env which event dev sh .accept) (ready : Ready others env which event dev sh) :
    Unused others dev sh ∧ ¬Allowed env which event dev sh .send := by
  cases event with
  | read stream =>
    cases st : dev.st with
    | auth =>
      simp only [Ready, st] at ready
      have answered : env.connect = true ∧ Replies env dev sh pwAccessAccept := by simpa [Allowed, st] using allowed
      exact ⟨ready answered.1 answered.2, by simp [Allowed, st]⟩
    | _ => simp [Allowed, st] at allowed
  | error => simp [Allowed] at allowed
  | write result => cases st : dev.st <;> simp [Allowed, st] at allowed
  | timeout => cases st : dev.st <;> simp [Allowed, st] at allowed

theorem books_shared (devs : List Device) (sh after : Shared) (wire : after.wire = sh.wire)
    (serial : after.serial = sh.serial) (books : Books devs sh) : Books devs after where
  base := base_shared devs sh _ books.base wire serial
  order _ := wire ▸ books.order _
  apart := books.apart
  pending dev member := pending_wire dev sh _ wire (books.pending dev member)
  acct dev member st := accounting_wire dev sh _ wire (books.acct dev member st)

theorem books_leaves (ids : List Nat) :
    Leaves (fun devs sh => Books devs sh ∧ ∀ dev ∈ devs, dev.id ∈ ids → dev.st ≠ .acctStop → Opened dev sh) ids where
  base _ _ both := both.1.base.sound
  ra devs sh _ both := ⟨books_shared devs sh _ rfl rfl both.1, both.2⟩
  moves before behind label dev sh next kind member move both := by
    have wire : next.sh.wire = sh.wire := move_wire _ _ next move (by rcases kind with rfl | rfl <;> decide)
    refine ⟨books_move _ _ _ _ next move ?_ ?_ both.1, ?_⟩
    · intro accept
      subst accept
      rcases kind with bad | bad <;> cases bad
    · intro prepares now here
      cases here
      rcases prepares with rfl | rfl
      · rcases kind with bad | bad <;> cases bad
      · cases move with
        | leave _ changed _ after request was new accepted begins fw => exact both.2 dev (by simp) member was
    · intro other there listed active
      have kept : ∀ other ∈ before ++ dev :: behind, other.id ∈ ids → other.st ≠ .acctStop → Opened other next.sh := by
        intro other there listed active
        obtain ⟨session, begun, log⟩ := both.2 _ there listed active
        exact ⟨session, begun, wire.symm ▸ log⟩
      rcases (mem_around _ _ _ _).mp there with left | here | right
      · exact kept _ (by simp [left]) listed active
      · rcases kind with rfl | rfl
        · cases move with
          | keep _ changed _ after same st frame =>
            cases here
            obtain ⟨session, begun, log⟩ := kept dev (by simp) member (st ▸ active)
            exact ⟨session, same.sessid.trans begun, log⟩
        · cases move with
          | leave _ changed _ after request was new accepted begins fw =>
            cases here
            exact absurd new active
      · exact kept _ (by simp [right]) listed active

theorem books_preserves : Preserves Accountable Books where
  base _ _ books := books.base
  ra devs sh _ books := books_shared devs sh _ rfl rfl books
  clock w clock _ books := books_shared _ w.sh _ rfl rfl books
  fwStarts devs sh books := books_shared devs sh _ rfl rfl books
  fwStops w _ books := books_shared _ w.sh _ rfl rfl books
  flush devs sh books := books_shared devs sh _ rfl rfl books
  reload w _ _ _ books := books_shared _ w.sh _ rfl rfl books
  leave w event ok books := ⟨_, books_leaves _, ⟨books, ok.1⟩, fun _ _ both => both.1⟩
  renew before behind label dev sh next kind move books := by
    refine books_move _ _ _ _ next move ?_ ?_ books
    · intro accept
      subst accept
      rcases kind with bad | bad <;> cases bad
    · intro prepares
      rcases prepares with rfl | rfl
      · rcases kind with bad | bad <;> cases bad
      · rcases kind with bad | bad <;> cases bad
  join devs sh id name pass ip mac rounds label next books hasIp hasMac kind move := by
    have base := base_join devs sh id name pass ip mac _ _ next books.base hasIp hasMac kind move
    cases move with
    | renew dev changed _ after request new same code serial reason fw wire clock nextSerial =>
      refine ⟨base, fun session => wire ▸ books.order _, ?_, ?_, ?_⟩
      · refine List.pairwise_append.mpr ⟨books.apart, List.pairwise_singleton _ _, fun other _ fresh member => ?_⟩
        cases List.mem_singleton.mp member
        intro session _ begun
        rw [same.sessid] at begun
        cases begun
      · intro other there
        rcases List.mem_append.mp there with old | fresh
        · exact pending_wire _ sh _ wire (books.pending _ old)
        · cases List.mem_singleton.mp fresh
          intro packet fill accounting _
          cases Option.some.inj (fill.symm.trans same.authOut)
          exact absurd (code.symm.trans accounting) (by decide)
      · intro other there acct
        rcases List.mem_append.mp there with old | fresh
        · exact accounting_wire _ sh _ wire (books.acct _ old acct)
        · cases List.mem_singleton.mp fresh
          simp [new] at acct
    | drop dev _ after frame =>
      simp only [Option.toList_none, List.append_nil] at base ⊢
      exact books_shared devs sh _ frame.wire frame.serial books
    | _ => rcases kind with bad | bad <;> cases bad
  device w env id which event dev before behind ok split same books := by
    have member : dev ∈ w.devs := by simp [split]
    have ready := ok.2 dev member same
    refine ⟨fun cell => Books _ _ ∧
      (¬Allowed env which event dev w.sh .send → cell.sh.wire = w.sh.wire) ∧
      ∀ now, cell.dev = some now → (∀ session, dev.sessid = some session → now.sessid = some session) ∧
        (now.st = .auth → now.sessid = dev.sessid ∧ cell.sh.clock = w.sh.clock), ⟨?_, ?_, ?_⟩, fun cell both => both.1, ?_⟩
    · rw [split] at books
      exact books
    · exact fun _ => rfl
    · intro now here
      cases here
      exact ⟨fun _ begun => begun, fun _ => ⟨rfl, rfl⟩⟩
    · intro label cell next kind move both
      obtain ⟨now, wire, device⟩ := both
      refine ⟨books_move _ _ _ cell next move ?_ ?_ now, ?_, ?_⟩
      · intro accept here found
        subst accept
        obtain ⟨⟨unused, fresh⟩, silent⟩ := allowed_accept _ env _ _ dev w.sh kind ready
        have old : here.st = .auth := by
          cases move with
          | accept _ _ _ _ _ was _ _ _ _ =>
            cases found
            exact was
        obtain ⟨kept, clock⟩ := (device here found).2 old
        rw [Unused, kept, clock, wire silent]
        refine ⟨unused, fun unset other member => fresh unset other ?_⟩
        rw [split]
        exact ((List.sublist_cons_self dev behind).append_left before).subset member
      · intro prepares here found
        obtain ⟨⟨session, begun, log⟩, silent⟩ := allowed_opened _ env _ _ dev w.sh _ kind prepares ready
          (books.acct dev member)
        exact ⟨session, (device here found).1 _ begun, (wire silent).symm ▸ log⟩
      · intro silent
        have quiet : label ≠ .send := fun send => silent (send ▸ kind)
        exact (move_wire _ cell next move quiet).trans (wire silent)
      · intro later found
        refine ⟨fun session begun => ?_, fun auth => ?_⟩
        · exact move_session _ cell next move _ (fun prior here => (device _ here).1 _ begun) _ found
        · rcases move_into_auth _ cell next move _ found auth with renewed | ⟨prior, here, st, kept, _, clock⟩
          · subst renewed
            exact absurd kind (allowed_not_renew env _ _ dev w.sh)
          · obtain ⟨same, start⟩ := (device _ here).2 st
            exact ⟨kept.sessid.trans same, clock.trans start⟩

def RecordsInOrder (w : World) : Prop := ∀ session, InOrder (records session w.sh.wire)

theorem accounting_records_in_order (iface : Iface) (events : List Event)
    (steps : AllSteps step Accountable (World.init iface) events) : RecordsInOrder (run step (World.init iface) events) := by
  refine (run_listed _ _ books_preserves _ _ ?_ steps).holds.order
  exact ⟨⟨by simp, by simp, by simp [World.init], by simp⟩, fun session => .inl rfl, by simp, by simp, by simp⟩

theorem accountable_idle (w : World) (event : Event) (nobody : leavers w event = [])
    (fine : EventReady w event) : Accountable w event := by
  refine ⟨fun dev _ leaver => ?_, fine⟩
  rw [nobody] at leaver
  cases leaver

def sessionRun : List Event := loginRun ++ [.device sampleEnv 0 .radius (.write .sent), .logout [117] [105] [109]]

theorem accounting_records_in_order_session : RecordsInOrder (run step (World.init sampleIface) sessionRun) := by
  refine accounting_records_in_order _ _ ((all_steps_append step _ _ _ _).mpr ⟨?_, ?_⟩)
  · refine ⟨accountable_idle _ _ rfl trivial, accountable_idle _ _ rfl trivial,
      accountable_idle _ _ (by decide +kernel) trivial, accountable_idle _ _ rfl ?_, accountable_idle _ _ rfl ?_, trivial⟩
    · intro dev _ _
      cases st : dev.st <;> simp only [Ready, st]
      intro fails
      have sent : ∀ dev ∈ (run step (World.init sampleIface) (sampleRequest.take 3)).devs, dev.st = .auth := by decide +kernel
      exact absurd (sent dev (by assumption)) (by simp [st])
    · intro dev member _
      have waiting : ∀ dev ∈ (run step (World.init sampleIface) sampleRequest).devs,
          dev.st = .auth ∧ dev.sessid = none := by
        decide +kernel
      obtain ⟨st, fresh⟩ := waiting dev member
      simp only [Ready, st]
      intro _ _
      rw [Unused, fresh]
      refine ⟨by decide +kernel, fun _ other there => ?_⟩
      simp [(waiting other there).2]
  · refine ⟨accountable_idle _ _ rfl ?_, ⟨?_, trivial⟩, trivial⟩
    · intro dev member _
      have settled : ∀ dev ∈ (run step (World.init sampleIface) loginRun).devs, dev.st = .acct := by decide +kernel
      simp only [Ready, settled dev member]
    · intro dev member _ _
      have begun : ∀ dev ∈ (step (run step (World.init sampleIface) loginRun)
          (.device sampleEnv 0 .radius (.write .sent))).devs, dev.sessid = some [48, 49] := by decide +kernel
      exact ⟨[48, 49], begun dev member, 0, by decide +kernel⟩

theorem logout_stops_without_start : ¬∀ iface events, RecordsInOrder (run step (World.init iface) events) := by
  intro ordered
  have log := ordered sampleIface [.start, .auth sampleEnv [117] [112] [105] [109], .logout [117] [105] [109],
    .device sampleEnv 0 .radius (.write .sent)] [48, 49]
  have lone : records [48, 49] (run step (World.init sampleIface) [.start, .auth sampleEnv [117] [112] [105] [109],
    .logout [117] [105] [109], .device sampleEnv 0 .radius (.write .sent)]).sh.wire = [2] := by decide +kernel
  rw [lone] at log
  rcases log with empty | ⟨interims, opened⟩ | ⟨front, ⟨interims, opened⟩, closed⟩
  · cases empty
  · simp at opened
  · simp [opened] at closed

end Codec.Radius
