import Codec.Lib.Lists
import Codec.Radius.DeviceSpec
import Codec.Radius.Module

set_option autoImplicit false

namespace Codec.Radius

open Codec.Ems Codec.Lib

theorem replace_split (id : Nat) (devs : List Device) (dev : Device) (found : devs.find? (fun dev => dev.id = id) = some dev) :
    ∃ before behind, devs = before ++ dev :: behind ∧
      ∀ entry : Option Device, replaceDev id entry devs = before ++ (entry.toList ++ behind) := by
  induction devs with
  | nil => simp at found
  | cons first rest ih =>
    by_cases same : first.id = id
    · simp only [List.find?_cons, same, decide_true, Option.some.injEq] at found
      subst found
      exact ⟨[], rest, rfl, fun entry => by simp [replaceDev, same]⟩
    · simp only [List.find?_cons, same, decide_false] at found
      obtain ⟨before, behind, split, replaced⟩ := ih found
      refine ⟨first :: before, behind, by rw [split]; rfl, fun entry => ?_⟩
      simp [replaceDev, same, replaced _]

theorem visit_keeps (w : World) (id : Nat) (handle : Handle Ret) (allowed : Label → Prop) (keeps : List Device → Shared → Prop)
    (path : ∀ dev, w.devs.find? (fun dev => dev.id = id) = some dev → Path allowed ⟨some dev, w.sh⟩ (handle ⟨some dev, w.sh⟩).2)
    (moves : ∀ before behind label dev sh next, allowed label → dev.id = id → Move label ⟨some dev, sh⟩ next →
      keeps (before ++ dev :: behind) sh → keeps (before ++ (next.dev.toList ++ behind)) next.sh)
    (holds : keeps w.devs w.sh) : keeps (w.visit id handle).devs (w.visit id handle).sh := by
  unfold World.visit
  cases found : w.devs.find? _ with
  | none => exact holds
  | some dev =>
    obtain ⟨before, behind, split, replaced⟩ := replace_split id _ dev found
    have named : dev.id = id := by simpa using List.find?_some found
    simp only [replaced]
    refine (path_keeps _ (fun cell => keeps (before ++ (cell.dev.toList ++ behind)) _ ∧
      ∀ now, cell.dev = some now → now.id = id) ?_ _ _ (path dev found) ⟨?_, ?_⟩).1
    · intro label cell next listed move now
      obtain ⟨entry, sh⟩ := cell
      cases entry with
      | none => cases move
      | some here =>
        refine ⟨moves _ _ _ here sh next listed (now.2 here rfl) move now.1, ?_⟩
        intro after still
        obtain ⟨prior, same, id, _⟩ := move_identity _ _ next move _ still
        cases same
        exact id.trans (now.2 here rfl)
    · rw [split] at holds
      exact holds
    · intro now same
      cases same
      exact named

def leaving (label : Label) : Prop := label = .keep ∨ label = .leave

def starting (label : Label) : Prop := label = .renew ∨ label = .drop

theorem change_acct_stop_path (dev prior : Device) (sh : Shared) (touch : Touch dev prior) (st : prior.st = dev.st)
    (network : dev.st ≠ .acctStop → prior.reason ≠ errNetwork)
    (connect : dev.st ≠ .acctStop → prior.reason ≠ errCannotConnect) :
    Path leaving ⟨some dev, sh⟩ (changeAcctStop ⟨some prior, sh⟩).2 := by
  by_cases stopping : dev.st = .acctStop
  · rw [change_acct_stop_same _ sh (st.trans stopping)]
    exact path_one _ _ _ _ (.inl rfl)
      (.keep dev _ sh sh ⟨touch, fun active => absurd stopping active⟩ st (frame_refl sh))
  · obtain ⟨next, after, run, move⟩ := change_acct_stop_leaves dev _ sh touch st (st.symm ▸ stopping)
      (network stopping) (connect stopping)
    rw [run]
    exact path_one _ _ _ _ (.inr rfl) move

theorem lost_user_path (cause : Int) (dev : Device) (sh : Shared) (sound : Sound dev) :
    Path leaving ⟨some dev, sh⟩ (raLostUser cause ⟨some dev, sh⟩).2 :=
  change_acct_stop_path dev _ sh ⟨rfl, rfl, rfl, rfl, rfl, rfl⟩ rfl
    (fun active => (sound.fine active).1) (fun active => (sound.fine active).2)

theorem stop_dev_path (dev : Device) (sh : Shared) : Path leaving ⟨some dev, sh⟩ (radiusStopDev ⟨some dev, sh⟩).2 := by
  have touch : Touch dev { dev with err := 7, reason := 7 } := ⟨rfl, rfl, rfl, rfl, rfl, rfl⟩
  unfold radiusStopDev
  simp only [Handler.bind_apply, set_dev_some, get_dev_some]
  by_cases stopping : dev.st = .acctStop
  · rw [if_neg (by simp [stopping])]
    exact path_one _ _ _ _ (.inl rfl)
      (.keep dev _ sh sh ⟨touch, fun active => absurd stopping active⟩ rfl (frame_refl sh))
  · rw [if_pos stopping]
    exact change_acct_stop_path dev _ sh touch rfl (fun _ => show (7 : Int) ≠ errNetwork by decide)
      fun _ => show (7 : Int) ≠ errCannotConnect by decide

def Device.begun (dev : Device) : Device :=
  { (if dev.made then dev else { dev with made := true, sess := raSessionNew }) with st := .start }

def Device.restarted (dev : Device) (sh : Shared) : Device :=
  { ({ dev.begun with sess := { dev.begun.sess with opened := true } }.fill (authRequest dev sh)) with
    retryTimes := sh.ra.retryTimes
    retryTimeout := sh.ra.retryTimeout
    reason := 0
    st := .auth }

theorem change_start_eq (env : Env) (dev : Device) (sh : Shared) (other : dev.st ≠ .start) (connect : env.connect = true) :
    changeStart env ⟨some dev, sh⟩ = (.done .ok, ⟨some (dev.restarted sh), sh.filled⟩) := by
  unfold changeStart enter raStart
  cases made : dev.made <;>
    simp [Handler.bind_apply, other, connect, made, openSession, raFillAuthRequestInfo, raArmRetry, changeAuth, enter,
      Device.restarted, Device.begun, Device.setSession, Device.session, Device.fill, authRequest, Shared.filled]

theorem change_start_lost (env : Env) (dev : Device) (sh : Shared) (other : dev.st ≠ .start) (connect : env.connect = false) :
    changeStart env ⟨some dev, sh⟩ = (.done .ok, ⟨none, sh.dropped { dev.begun with reason := errNetwork }⟩) := by
  have closed := change_err_eq { dev.begun with reason := errNetwork } sh (show Status.start ≠ .err by decide)
  unfold changeStart enter raStart
  rw [Handler.bind_done getDev _ _ _ dev rfl, if_neg other]
  rw [← closed]
  cases made : dev.made <;> simp [Handler.bind_apply, connect, made, Device.begun]

def startLabel (env : Env) : Label := if env.connect then .renew else .drop

theorem start_label_starting (env : Env) : starting (startLabel env) := by
  cases connect : env.connect with
  | true => exact .inl (by simp [startLabel, connect])
  | false => exact .inr (by simp [startLabel, connect])

theorem change_start_move (env : Env) (dev prior : Device) (sh : Shared) (touch : Touch dev prior) (other : prior.st ≠ .start) :
    Move (startLabel env) ⟨some dev, sh⟩ (changeStart env ⟨some prior, sh⟩).2 := by
  have begun : Touch dev prior.begun := by
    unfold Device.begun
    cases prior.made <;> exact { touch with }
  cases connect : env.connect with
  | true =>
    rw [change_start_eq env _ sh other connect, startLabel, connect]
    exact .renew dev _ sh _ _ rfl
      ⟨begun.id, begun.ip, begun.mac, begun.accepted, begun.sessid, rfl⟩ rfl rfl rfl rfl rfl rfl rfl
  | false =>
    rw [change_start_lost env _ sh other connect, startLabel, connect]
    exact drop_move dev _ sh begun.ip begun.mac

structure Base (devs : List Device) (sh : Shared) : Prop where
  sound : ∀ dev ∈ devs, Sound dev
  named : ∀ dev ∈ devs, dev.ip ≠ [] ∧ dev.mac ≠ []
  wire : ∀ request ∈ sh.wire, request.serial < sh.serial
  packet : ∀ dev ∈ devs, ∀ request, dev.authOut = some request → request.serial < sh.serial

theorem base_move (before behind : List Device) (label : Label) (cell next : Cell) (move : Move label cell next)
    (base : Base (before ++ (cell.dev.toList ++ behind)) cell.sh) : Base (before ++ (next.dev.toList ++ behind)) next.sh := by
  have here : ∀ dev, cell.dev = some dev → dev ∈ before ++ (cell.dev.toList ++ behind) :=
    fun dev same => (mem_around _ _ _ dev).mpr (.inr (.inl same))
  have sound := move_sound _ cell next move fun dev same => base.sound dev (here dev same)
  have fresh := move_fresh _ cell next move ⟨base.wire, fun dev request same => base.packet dev (here dev same) _⟩
  have serial := move_serial _ cell next move
  have still : ∀ dev ∈ before ++ (next.dev.toList ++ behind), next.dev = some dev ∨
      dev ∈ before ++ (cell.dev.toList ++ behind) := by
    intro dev member
    rcases (mem_around _ _ _ dev).mp member with old | new | old
    · exact .inr ((mem_around _ _ _ dev).mpr (.inl old))
    · exact .inl new
    · exact .inr ((mem_around _ _ _ dev).mpr (.inr (.inr old)))
  refine ⟨?_, ?_, fresh.wire, ?_⟩
  · intro dev member
    rcases still dev member with new | old
    · exact sound dev new
    · exact base.sound dev old
  · intro dev member
    rcases still dev member with new | old
    · obtain ⟨prior, same, _, ip, mac⟩ := move_identity _ cell next move dev new
      rw [ip, mac]
      exact base.named _ (here _ same)
    · exact base.named dev old
  · intro dev member request packet
    rcases still dev member with new | old
    · exact fresh.packet dev _ new packet
    · exact Nat.lt_of_lt_of_le (base.packet dev old _ packet) serial

theorem base_join (devs : List Device) (sh : Shared) (id : Nat) (name pass ip mac : Str) (rounds : Int) (label : Label)
    (next : Cell) (base : Base devs sh) (hasIp : ip ≠ []) (hasMac : mac ≠ []) (kind : starting label)
    (move : Move label ⟨some (emsDeviceNew id name pass ip mac rounds), sh⟩ next) : Base (devs ++ next.dev.toList) next.sh := by
  cases move with
  | renew dev changed _ after request new same code serial reason fw wire clock nextSerial =>
    refine ⟨?_, ?_, ?_, ?_⟩
    · intro now member
      rcases List.mem_append.mp member with old | fresh
      · exact base.sound now old
      · cases List.mem_singleton.mp fresh
        exact ⟨by rw [new]; decide, by rw [new]; decide, fun _ => by rw [reason]; decide⟩
    · intro now member
      rcases List.mem_append.mp member with old | fresh
      · exact base.named now old
      · cases List.mem_singleton.mp fresh
        rw [same.ip, same.mac]
        exact ⟨hasIp, hasMac⟩
    · intro sent onWire
      rw [wire] at onWire
      rw [nextSerial]
      exact Nat.lt_succ_of_lt (base.wire sent onWire)
    · intro now member packet fill
      rw [nextSerial]
      rcases List.mem_append.mp member with old | fresh
      · exact Nat.lt_succ_of_lt (base.packet now old _ fill)
      · cases List.mem_singleton.mp fresh
        cases Option.some.inj (fill.symm.trans same.authOut)
        rw [serial]
        exact Nat.lt_succ_self _
  | drop dev _ after frame =>
    simp only [Option.toList_none, List.append_nil]
    refine ⟨base.sound, base.named, ?_, ?_⟩
    · intro sent onWire
      rw [frame.wire] at onWire
      rw [frame.serial]
      exact base.wire sent onWire
    · intro now member packet fill
      rw [frame.serial]
      exact base.packet now member _ fill
  | _ => rcases kind with bad | bad <;> cases bad

-- The devices an event sends to st_acct_stop from outside: all of them for a
-- stop or a restart, the one found by ip for a mac change or a logout.
def leavers (w : World) (event : Event) : List Nat :=
  match event with
  | .stop => if w.run then w.devs.map Device.id else []
  | .rulesUpdate | .serverRulesUpdate =>
    if w.run && radiusNeedsRestart w.sh.ra w.iface then w.devs.map Device.id else []
  | .auth _ name pass ip mac =>
    if w.run = true ∧ ¬(name = [] ∨ pass = [] ∨ ip = [] ∨ mac = []) then
      ((radiusFindDev w.devs ip).toList.filter fun dev => dev.mac ≠ mac).map Device.id
    else []
  | .logout name ip mac =>
    if w.run = true ∧ ¬(name = [] ∨ ip = []) then
      ((radiusFindDev w.devs ip).toList.filter fun dev => mac = [] ∨ dev.mac = mac).map Device.id
    else []
  | _ => []

section Visits

variable (keeps : List Device → Shared → Prop) (ids : List Nat)

structure Leaves : Prop where
  base : ∀ devs sh, keeps devs sh → ∀ dev ∈ devs, Sound dev
  ra : ∀ devs sh ra, keeps devs sh → keeps devs { sh with ra := ra }
  moves : ∀ before behind label dev sh next, leaving label → dev.id ∈ ids → Move label ⟨some dev, sh⟩ next →
    keeps (before ++ dev :: behind) sh → keeps (before ++ (next.dev.toList ++ behind)) next.sh

theorem radius_stop_keeps (w : World) (leaves : Leaves keeps ids) (all : ∀ dev ∈ w.devs, dev.id ∈ ids)
    (holds : keeps w.devs w.sh) : keeps (radiusStop w).devs (radiusStop w).sh := by
  have listed : ∀ id ∈ w.devs.map Device.id, id ∈ ids := by
    intro id member
    obtain ⟨dev, here, same⟩ := List.mem_map.mp member
    exact same ▸ all dev here
  unfold radiusStop
  generalize w.devs.map _ = visited at listed
  have first : keeps (w.setRa fun ra => { ra with lasterr := 0 }).devs
      (w.setRa fun ra => { ra with lasterr := 0 }).sh := leaves.ra _ _ _ holds
  generalize (w.setRa fun ra => { ra with lasterr := 0 }) = start at first
  induction visited generalizing start with
  | nil => exact first
  | cons id rest ih =>
    refine ih (fun other member => listed _ (List.mem_cons_of_mem id member)) _ ?_
    refine visit_keeps _ id _ _ _ (fun dev _ => stop_dev_path dev _) ?_ first
    intro before behind label dev sh next kind same
    exact leaves.moves _ _ _ dev sh next kind (same ▸ listed id List.mem_cons_self)

theorem lost_user_keeps (w : World) (id : Nat) (cause : Int) (leaves : Leaves keeps ids) (listed : id ∈ ids)
    (holds : keeps w.devs w.sh) : keeps (w.visit id (raLostUser cause)).devs (w.visit id (raLostUser cause)).sh := by
  refine visit_keeps w id _ leaving _ ?_ ?_ holds
  · intro dev found
    exact lost_user_path _ dev w.sh (leaves.base _ _ holds dev (List.mem_of_find?_eq_some found))
  · intro before behind label dev sh next kind same
    exact leaves.moves _ _ _ dev sh next kind (same ▸ listed)

end Visits

theorem replace_last (id : Nat) (devs : List Device) (last : Device) (entry : Option Device)
    (others : ∀ dev ∈ devs, dev.id ≠ id) (same : last.id = id) : replaceDev id entry (devs ++ [last]) = devs ++ entry.toList ∧
      (devs ++ [last]).find? (fun dev => dev.id = id) = some last := by
  induction devs with
  | nil => simp [replaceDev, same]
  | cons first rest ih =>
    have other : first.id ≠ id := others _ List.mem_cons_self
    obtain ⟨replaced, found⟩ := ih fun dev member => others dev (List.mem_cons_of_mem _ member)
    simp [replaceDev, other, replaced, found]

theorem user_in_eq (w : World) (env : Env) (name pass ip mac : Str) (others : ∀ dev ∈ w.devs, dev.id < w.nextId) :
    ∃ next, Move (startLabel env) ⟨some (emsDeviceNew w.nextId name pass ip mac (reportRounds w.sh.ra)), w.sh⟩ next ∧
      (radiusUserIn w env name pass ip mac).devs = w.devs ++ next.dev.toList ∧
      (radiusUserIn w env name pass ip mac).sh = next.sh := by
  have move := change_start_move env
    _
    (emsDeviceNew w.nextId name pass ip mac (reportRounds w.sh.ra)) w.sh (touch_refl _)
    (show Status.stopped ≠ .start by decide)
  refine ⟨_, move, ?_⟩
  have last := fun entry => replace_last _ _
    (emsDeviceNew _ name pass ip mac (reportRounds w.sh.ra)) entry
    (fun dev member => Nat.ne_of_lt (others dev member)) rfl
  unfold radiusUserIn World.visit
  simp only [(last none).2, (last _).1, and_self]

end Codec.Radius
