import Codec.Radius.Handlers

set_option autoImplicit false

namespace Codec.Radius

structure Touch (dev next : Device) : Prop where
  id : next.id = dev.id
  ip : next.ip = dev.ip
  mac : next.mac = dev.mac
  accepted : next.accepted = dev.accepted
  sessid : next.sessid = dev.sessid
  authOut : next.authOut = dev.authOut

structure Keep (dev next : Device) : Prop extends Touch dev next where
  reason : dev.st ≠ .acctStop → next.reason = dev.reason

structure Frame (sh after : Shared) (fw : Firewall) : Prop where
  fw : after.fw = fw
  wire : after.wire = sh.wire
  clock : after.clock = sh.clock
  serial : after.serial = sh.serial

structure Begins (status : Int) (dev : Device) (sh : Shared) (next : Device) (after : Shared) (request : Request) :
    Prop where
  id : next.id = dev.id
  ip : next.ip = dev.ip
  mac : next.mac = dev.mac
  authOut : next.authOut = some request
  sessid : next.sessid = some (dev.sessid.getD (sessionText sh.clock))
  reason : next.reason = status
  serial : request.serial = sh.serial
  code : request.code = pwAccountingRequest
  session : request.sessid = some (dev.sessid.getD (sessionText sh.clock))
  statusType : request.statusType = status
  wire : after.wire = sh.wire
  clock : after.clock = if dev.sessid = none then sh.clock + 1 else sh.clock
  nextSerial : after.serial = sh.serial + 1

def Device.fwSet (dev : Device) (fw : Firewall) (set : Bool) : Firewall := fwProcessDeviceFree fw dev.ip dev.mac set

inductive Label where
  | keep | send | settle | revive | probe | accept | interim | leave | abandon | drop | renew
  deriving DecidableEq, Repr

-- Everything a device handler can do, at the points where it may be looked
-- at from outside. Each handler below is a path of such moves.
inductive Move : Label → Cell → Cell → Prop where
  | keep (dev next : Device) (sh after : Shared) (same : Keep dev next) (st : next.st = dev.st)
      (frame : Frame sh after sh.fw) : Move .keep ⟨some dev, sh⟩ ⟨some next, after⟩
  | send (dev next : Device) (sh after : Shared) (same : Keep dev next) (st : next.st = dev.st)
      (result : after = sh.transmit dev.authOut) : Move .send ⟨some dev, sh⟩ ⟨some next, after⟩
  | settle (dev next : Device) (sh after : Shared) (same : Keep dev next) (old : dev.st = .acct)
      (new : next.st = .normal) (frame : Frame sh after sh.fw) : Move .settle ⟨some dev, sh⟩ ⟨some next, after⟩
  | revive (dev next : Device) (sh after : Shared) (same : Keep dev next) (old : dev.st = .acctStop)
      (fine : next.reason = 2) (new : next.st = .normal) (frame : Frame sh after sh.fw) :
      Move .revive ⟨some dev, sh⟩ ⟨some next, after⟩
  | probe (dev next : Device) (sh after : Shared) (same : Keep dev next) (old : dev.st = .normal)
      (new : next.st = .hb) (frame : Frame sh after sh.fw) : Move .probe ⟨some dev, sh⟩ ⟨some next, after⟩
  | accept (dev next : Device) (sh after : Shared) (request : Request) (old : dev.st = .auth)
      (new : next.st = .acct) (accepted : next.accepted = true) (begins : Begins 1 dev sh next after request)
      (fw : after.fw = dev.fwSet sh.fw true) : Move .accept ⟨some dev, sh⟩ ⟨some next, after⟩
  | interim (dev next : Device) (sh after : Shared) (request : Request) (old : dev.st = .hb)
      (new : next.st = .acct) (accepted : next.accepted = dev.accepted)
      (begins : Begins 3 dev sh next after request) (fw : after.fw = sh.fw) :
      Move .interim ⟨some dev, sh⟩ ⟨some next, after⟩
  | leave (dev next : Device) (sh after : Shared) (request : Request) (old : dev.st ≠ .acctStop)
      (new : next.st = .acctStop) (accepted : next.accepted = false)
      (begins : Begins 2 dev sh next after request) (fw : after.fw = dev.fwSet sh.fw false) :
      Move .leave ⟨some dev, sh⟩ ⟨some next, after⟩
  | abandon (dev next : Device) (sh after : Shared) (old : dev.st ≠ .acctStop) (new : next.st = .acctStop)
      (accepted : next.accepted = false) (same : Touch { dev with accepted := false } next)
      (frame : Frame sh after (dev.fwSet sh.fw false)) : Move .abandon ⟨some dev, sh⟩ ⟨some next, after⟩
  | drop (dev : Device) (sh after : Shared) (frame : Frame sh after (dev.fwSet sh.fw false)) :
      Move .drop ⟨some dev, sh⟩ ⟨none, after⟩
  | renew (dev next : Device) (sh after : Shared) (request : Request) (new : next.st = .auth)
      (same : Touch { dev with authOut := some request } next)
      (code : request.code = pwAccessRequest) (serial : request.serial = sh.serial) (reason : next.reason = 0)
      (fw : after.fw = sh.fw) (wire : after.wire = sh.wire) (clock : after.clock = sh.clock)
      (nextSerial : after.serial = sh.serial + 1) : Move .renew ⟨some dev, sh⟩ ⟨some next, after⟩

def Path (allowed : Label → Prop) : Cell → Cell → Prop :=
  Relation.ReflTransGen fun cell next => ∃ label, allowed label ∧ Move label cell next

variable (sh : Shared) (packet : Option Request) (allowed : Label → Prop) (label : Label) (cell next : Cell)

theorem path_one (listed : allowed label) (move : Move label cell next) : Path allowed cell next :=
  Relation.ReflTransGen.single ⟨label, listed, move⟩

theorem path_snoc (cell middle next : Cell) (path : Path allowed cell middle)
    (listed : allowed label) (move : Move label middle next) : Path allowed cell next :=
  Relation.ReflTransGen.tail path ⟨label, listed, move⟩

theorem path_keeps (keeps : Cell → Prop)
    (moves : ∀ label cell next, allowed label → Move label cell next → keeps cell → keeps next)
    (cell next : Cell) (path : Path allowed cell next) (holds : keeps cell) : keeps next := by
  induction path with
  | refl => exact holds
  | tail _ last ih =>
    obtain ⟨label, listed, move⟩ := last
    exact moves _ _ _ listed move ih

theorem touch_refl (dev : Device) : Touch dev dev := ⟨rfl, rfl, rfl, rfl, rfl, rfl⟩

theorem touch_fw_set (dev next : Device) (touch : Touch dev next) (fw : Firewall) (set : Bool) :
    next.fwSet fw set = dev.fwSet fw set := by
  rw [Device.fwSet, Device.fwSet, touch.ip, touch.mac]

theorem keep_refl (dev : Device) : Keep dev dev := ⟨touch_refl dev, fun _ => rfl⟩

theorem frame_refl : Frame sh sh sh.fw := ⟨rfl, rfl, rfl, rfl⟩

structure Sound (dev : Device) : Prop where
  live : dev.st ≠ .err
  begun : dev.st ≠ .stopped ∧ dev.st ≠ .start
  fine : dev.st ≠ .acctStop → dev.reason ≠ errNetwork ∧ dev.reason ≠ errCannotConnect

def SoundCell (cell : Cell) : Prop := ∀ dev, cell.dev = some dev → Sound dev

theorem move_sound (move : Move label cell next) (sound : SoundCell cell) : SoundCell next := by
  intro after found
  cases move with
  | keep dev changed sh _ same st frame =>
    obtain rfl := Option.some.inj found
    have old := sound dev rfl
    exact ⟨st ▸ old.live, st ▸ old.begun, fun active => same.reason (st ▸ active) ▸ old.fine (st ▸ active)⟩
  | send dev changed sh _ same st result =>
    obtain rfl := Option.some.inj found
    have old := sound dev rfl
    exact ⟨st ▸ old.live, st ▸ old.begun, fun active => same.reason (st ▸ active) ▸ old.fine (st ▸ active)⟩
  | settle dev changed sh _ same was new frame =>
    obtain rfl := Option.some.inj found
    have active : dev.st ≠ .acctStop := by rw [was]; decide
    exact ⟨by rw [new]; decide, by rw [new]; decide, fun _ => same.reason active ▸ (sound dev rfl).fine active⟩
  | revive dev changed sh _ same was fine new frame =>
    obtain rfl := Option.some.inj found
    exact ⟨by rw [new]; decide, by rw [new]; decide, fun _ => by rw [fine]; decide⟩
  | probe dev changed sh _ same was new frame =>
    obtain rfl := Option.some.inj found
    have active : dev.st ≠ .acctStop := by rw [was]; decide
    exact ⟨by rw [new]; decide, by rw [new]; decide, fun _ => same.reason active ▸ (sound dev rfl).fine active⟩
  | accept dev changed sh _ request was new accepted begins fw =>
    obtain rfl := Option.some.inj found
    exact ⟨by rw [new]; decide, by rw [new]; decide, fun _ => by rw [begins.reason]; decide⟩
  | interim dev changed sh _ request was new accepted begins fw =>
    obtain rfl := Option.some.inj found
    exact ⟨by rw [new]; decide, by rw [new]; decide, fun _ => by rw [begins.reason]; decide⟩
  | leave dev changed sh _ request was new accepted begins fw =>
    obtain rfl := Option.some.inj found
    exact ⟨by rw [new]; decide, by rw [new]; decide, fun active => absurd new active⟩
  | abandon dev changed sh _ was new accepted same frame =>
    obtain rfl := Option.some.inj found
    exact ⟨by rw [new]; decide, by rw [new]; decide, fun active => absurd new active⟩
  | drop dev sh _ frame => exact absurd found (by simp)
  | renew dev changed sh _ request new same code serial reason fw wire clock nextSerial =>
    obtain rfl := Option.some.inj found
    exact ⟨by rw [new]; decide, by rw [new]; decide, fun _ => by rw [reason]; decide⟩

theorem path_sound (path : Path allowed cell next) (sound : SoundCell cell) : SoundCell next :=
  path_keeps _ _ (fun _ cell next _ move => move_sound _ cell next move) cell next path sound

structure Fresh (cell : Cell) : Prop where
  wire : ∀ request ∈ cell.sh.wire, request.serial < cell.sh.serial
  packet : ∀ dev request, cell.dev = some dev → dev.authOut = some request → request.serial < cell.sh.serial

theorem fresh_begins (status : Int) (dev next : Device) (sh after : Shared) (request : Request)
    (begins : Begins status dev sh next after request) (fresh : Fresh ⟨some dev, sh⟩) : Fresh ⟨some next, after⟩ := by
  refine ⟨?_, ?_⟩
  · intro sent onWire
    have below := fresh.wire sent (begins.wire ▸ onWire)
    simp only [begins.nextSerial] at below ⊢
    exact Nat.lt_succ_of_lt below
  · rintro found packet ⟨rfl⟩ fill
    have same : packet = request := Option.some.inj (fill.symm.trans begins.authOut)
    simp only [same, begins.serial, begins.nextSerial]
    exact Nat.lt_succ_self _

theorem fresh_frame (dev next : Device) (sh after : Shared) (fw : Firewall) (frame : Frame sh after fw)
    (packet : next.authOut = dev.authOut) (fresh : Fresh ⟨some dev, sh⟩) : Fresh ⟨some next, after⟩ := by
  refine ⟨?_, ?_⟩
  · intro sent onWire
    rw [frame.wire] at onWire
    rw [frame.serial]
    exact fresh.wire sent onWire
  · rintro found request ⟨rfl⟩ fill
    rw [frame.serial]
    exact fresh.packet dev _ rfl (packet ▸ fill)

theorem transmit_wire (request : Request)
    (sent : request ∈ (sh.transmit packet).wire) : request ∈ sh.wire ∨ packet = some request := by
  unfold Shared.transmit at sent
  split at sent
  · split at sent
    · exact .inl sent
    · rcases List.mem_append.mp sent with old | new
      · exact .inl old
      · exact .inr (congrArg some (List.mem_singleton.mp new).symm)
  · exact .inl sent

theorem transmit_serial : (sh.transmit packet).serial = sh.serial := by
  unfold Shared.transmit
  split
  · split <;> rfl
  · rfl

theorem transmit_fw : (sh.transmit packet).fw = sh.fw := by
  unfold Shared.transmit
  split
  · split <;> rfl
  · rfl

theorem transmit_clock : (sh.transmit packet).clock = sh.clock := by
  unfold Shared.transmit
  split
  · split <;> rfl
  · rfl

-- The moves by what they do to the identity, the session id and the packet of
-- a device and to the shared state.
inductive Form : Label → Cell → Cell → Prop where
  | quiet (label : Label) (dev next : Device) (sh after : Shared) (fw : Firewall)
      (same : Touch { dev with accepted := next.accepted } next) (frame : Frame sh after fw) :
      Form label ⟨some dev, sh⟩ ⟨some next, after⟩
  | send (dev next : Device) (sh : Shared) (same : Touch dev next) : Form .send ⟨some dev, sh⟩ ⟨some next, sh.transmit dev.authOut⟩
  | begins (label : Label) (status : Int) (dev next : Device) (sh after : Shared) (request : Request)
      (begins : Begins status dev sh next after request) : Form label ⟨some dev, sh⟩ ⟨some next, after⟩
  | drop (label : Label) (dev : Device) (sh after : Shared) (fw : Firewall) (frame : Frame sh after fw) :
      Form label ⟨some dev, sh⟩ ⟨none, after⟩
  | renew (label : Label) (dev next : Device) (sh after : Shared) (request : Request)
      (same : Touch { dev with authOut := some request } next) (serial : request.serial = sh.serial)
      (wire : after.wire = sh.wire) (nextSerial : after.serial = sh.serial + 1) : Form label ⟨some dev, sh⟩ ⟨some next, after⟩

theorem move_form (move : Move label cell next) : Form label cell next := by
  have kept (dev changed : Device) (same : Keep dev changed) : Touch { dev with accepted := changed.accepted } changed :=
    ⟨same.id, same.ip, same.mac, rfl, same.sessid, same.authOut⟩
  cases move with
  | keep dev changed sh after same st frame => exact .quiet _ dev _ sh _ _ (kept dev _ same) frame
  | settle dev changed sh after same was new frame => exact .quiet _ dev _ sh _ _ (kept dev _ same) frame
  | revive dev changed sh after same was fine new frame => exact .quiet _ dev _ sh _ _ (kept dev _ same) frame
  | probe dev changed sh after same was new frame => exact .quiet _ dev _ sh _ _ (kept dev _ same) frame
  | abandon dev changed sh after was new accepted same frame =>
    exact .quiet _ dev _ sh _ _ ⟨same.id, same.ip, same.mac, rfl, same.sessid, same.authOut⟩ frame
  | send dev changed sh after same st result =>
    subst result
    exact .send dev _ sh same.toTouch
  | accept dev changed sh after request was new accepted begins fw => exact .begins _ 1 dev _ sh _ _ begins
  | interim dev changed sh after request was new accepted begins fw => exact .begins _ 3 dev _ sh _ _ begins
  | leave dev changed sh after request was new accepted begins fw => exact .begins _ 2 dev _ sh _ _ begins
  | drop dev sh after frame => exact .drop _ dev sh _ _ frame
  | renew dev changed sh after request new same code serial reason fw wire clock nextSerial =>
    exact .renew _ dev _ sh _ _ same serial wire nextSerial

theorem move_fresh (move : Move label cell next) (fresh : Fresh cell) : Fresh next := by
  cases move_form label cell next move with
  | quiet _ dev changed sh after fw same frame => exact fresh_frame dev _ sh _ _ frame same.authOut fresh
  | send dev changed sh same =>
    refine ⟨?_, ?_⟩
    · intro request onWire
      rw [transmit_serial]
      rcases transmit_wire sh _ _ onWire with old | new
      · exact fresh.wire _ old
      · exact fresh.packet dev _ rfl new
    · rintro found request ⟨rfl⟩ fill
      rw [transmit_serial]
      exact fresh.packet dev _ rfl (same.authOut ▸ fill)
  | begins _ status dev changed sh after request begins => exact fresh_begins status dev _ sh _ _ begins fresh
  | drop _ dev sh after fw frame =>
    refine ⟨?_, ?_⟩
    · intro request onWire
      rw [frame.wire] at onWire
      rw [frame.serial]
      exact fresh.wire _ onWire
    · rintro found request missing
      simp at missing
  | renew _ dev changed sh after request same serial wire nextSerial =>
    refine ⟨?_, ?_⟩
    · intro sent onWire
      have below := fresh.wire sent (wire ▸ onWire)
      simp only [nextSerial] at below ⊢
      exact Nat.lt_succ_of_lt below
    · rintro found packet ⟨rfl⟩ fill
      have equal : packet = request := Option.some.inj (fill.symm.trans same.authOut)
      simp only [equal, serial, nextSerial]
      exact Nat.lt_succ_self _

theorem path_fresh (path : Path allowed cell next) (fresh : Fresh cell) : Fresh next :=
  path_keeps _ _ (fun _ cell next _ move => move_fresh _ cell next move) cell next path fresh

theorem move_serial (move : Move label cell next) : cell.sh.serial ≤ next.sh.serial := by
  cases move_form label cell next move with
  | quiet _ dev changed sh after fw same frame => exact frame.serial.ge
  | send dev changed sh same => exact (transmit_serial sh _).ge
  | begins _ status dev changed sh after request begins => exact begins.nextSerial ▸ Nat.le_succ _
  | drop _ dev sh after fw frame => exact frame.serial.ge
  | renew _ dev changed sh after request same serial wire nextSerial => exact nextSerial ▸ Nat.le_succ _

theorem move_identity (move : Move label cell next) (dev : Device) (still : next.dev = some dev) :
    ∃ prior, cell.dev = some prior ∧ dev.id = prior.id ∧ dev.ip = prior.ip ∧ dev.mac = prior.mac := by
  cases move_form label cell next move with
  | quiet _ prior changed sh after fw same frame =>
    cases still
    exact ⟨prior, rfl, same.id, same.ip, same.mac⟩
  | send prior changed sh same =>
    cases still
    exact ⟨prior, rfl, same.id, same.ip, same.mac⟩
  | begins _ status prior changed sh after request begins =>
    cases still
    exact ⟨prior, rfl, begins.id, begins.ip, begins.mac⟩
  | drop _ prior sh after fw frame => simp at still
  | renew _ prior changed sh after request same serial wire nextSerial =>
    cases still
    exact ⟨prior, rfl, same.id, same.ip, same.mac⟩

theorem move_into_auth (move : Move label cell next) (now : Device) (here : next.dev = some now) (auth : now.st = .auth) :
    label = .renew ∨ ∃ prior, cell.dev = some prior ∧ prior.st = .auth ∧ Keep prior now ∧ next.sh.fw = cell.sh.fw ∧
      next.sh.clock = cell.sh.clock := by
  cases move with
  | keep prior changed sh after same st frame =>
    cases here
    exact .inr ⟨prior, rfl, st.symm.trans auth, same, frame.fw, frame.clock⟩
  | send prior changed sh after same st result =>
    cases here
    exact .inr ⟨prior, rfl, st.symm.trans auth, same, result ▸ transmit_fw sh _, result ▸ transmit_clock sh _⟩
  | renew prior changed sh after request new same code serial reason fw wire clock nextSerial => exact .inl rfl
  | drop prior sh after frame => simp at here
  | settle prior changed sh after same was new frame =>
    cases here
    simp [new] at auth
  | revive prior changed sh after same was fine new frame =>
    cases here
    simp [new] at auth
  | probe prior changed sh after same was new frame =>
    cases here
    simp [new] at auth
  | accept prior changed sh after request was new accepted begins fw =>
    cases here
    simp [new] at auth
  | interim prior changed sh after request was new accepted begins fw =>
    cases here
    simp [new] at auth
  | leave prior changed sh after request was new accepted begins fw =>
    cases here
    simp [new] at auth
  | abandon prior changed sh after was new accepted same frame =>
    cases here
    simp [new] at auth

end Codec.Radius
