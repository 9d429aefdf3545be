import Codec.Radius.Alive
import Codec.Radius.StepSpec

set_option autoImplicit false

namespace Codec.Radius

open Codec.Ems Codec.Lib

variable (w : World)

theorem base_shared (devs : List Device) (sh after : Shared) (base : Base devs sh) (wire : after.wire = sh.wire)
    (serial : after.serial = sh.serial) : Base devs after :=
  ⟨base.sound, base.named, fun _ sent => serial ▸ base.wire _ (wire ▸ sent),
    fun dev member _ packet => serial ▸ base.packet dev member _ packet⟩

theorem base_preserves (ok : World → Event → Prop) : Preserves ok Base where
  base _ _ base := base
  ra devs sh _ base := base_shared devs sh _ base rfl rfl
  clock w _ _ base := base_shared _ w.sh _ base rfl rfl
  fwStarts devs sh base := base_shared devs sh _ base rfl rfl
  fwStops w _ base := base_shared _ w.sh _ base rfl rfl
  flush devs sh base := base_shared devs sh _ base rfl rfl
  reload w _ _ _ base := base_shared _ w.sh _ base rfl rfl
  leave w event _ base := by
    refine ⟨Base, ⟨fun _ _ base => base.sound, fun devs sh _ base => base_shared devs sh _ base rfl rfl, ?_⟩, base,
      fun _ _ base => base⟩
    intro before behind label dev sh next _ _ move base
    exact base_move _ _ _ _ next move base
  renew before behind label _ _ next _ move base := base_move _ _ _ _ next move base
  join devs sh id name pass ip mac rounds label next base hasIp hasMac kind move :=
    base_join devs sh id name pass ip mac _ _ next base hasIp hasMac kind move
  device w env id which event dev before behind _ split _ base := by
    refine ⟨fun cell => Base _ _, ?_, fun _ base => base, ?_⟩
    · rw [split] at base
      exact base
    · intro label cell next _ move base
      exact base_move _ _ _ cell next move base

theorem visit_spares (id : Nat) (handle : Handle Ret)
    (spares : ∀ dev, w.devs.find? (fun dev => dev.id = id) = some dev → Spares (fun cell => cell = ⟨some dev, w.sh⟩) handle)
    (clean : Fault.dangling ∉ w.faults) : Fault.dangling ∉ (w.visit id handle).faults := by
  unfold World.visit
  cases found : w.devs.find? _ with
  | none => exact clean
  | some dev =>
    have ended := spares dev found _ rfl
    cases ran : handle _ with
    | mk outcome reached =>
      rw [ran] at ended
      cases outcome with
      | done ret => simpa [ran, faultOf] using clean
      | fault why =>
        have spins : why = .spinning := ended
        simpa [ran, faultOf, spins] using clean

theorem visit_final (id : Nat) (handle : Handle Ret) (final : Final handle)
    (clean : Fault.dangling ∉ w.faults) : Fault.dangling ∉ (w.visit id handle).faults := by
  refine visit_spares w id _ (fun dev _ => spares_final _ _ final ?_) clean
  intro cell here gone
  rw [here] at gone
  cases gone

theorem radius_stop_clean (clean : Fault.dangling ∉ w.faults) : Fault.dangling ∉ (radiusStop w).faults := by
  unfold radiusStop
  generalize w.devs.map _ = ids
  have first : Fault.dangling ∉ (w.setRa fun ra => { ra with lasterr := 0 }).faults := clean
  generalize (w.setRa fun ra => { ra with lasterr := 0 }) = start at first
  induction ids generalizing start with
  | nil => exact first
  | cons id rest ih => exact ih _ (visit_final _ id _ final_stop_dev first)

theorem rules_update_clean (run : Bool) (clean : Fault.dangling ∉ w.faults) :
    Fault.dangling ∉ (radiusRulesUpdate w run).faults := by
  unfold radiusRulesUpdate
  split
  · exact radius_stop_clean w clean
  · exact clean

theorem cmd_auth_clean (env : Env) (name pass ip mac : Str) (clean : Fault.dangling ∉ w.faults) :
    Fault.dangling ∉ (radiusCmdAuth w env name pass ip mac).faults := by
  have join : ∀ now : World, Fault.dangling ∉ now.faults →
      Fault.dangling ∉ (radiusUserIn now env name pass ip mac).faults :=
    fun _ fine => visit_final _ _ _ (final_change_start env) fine
  unfold radiusCmdAuth
  split
  · exact clean
  · cases radiusFindDev _ ip with
    | none => exact join w clean
    | some dev =>
      simp only
      split
      · exact visit_final w _ _ (final_reauth env name pass) clean
      · exact join _ (visit_final w _ _ (final_lost_user 2) clean)

theorem cmd_logout_clean (name ip mac : Str) (clean : Fault.dangling ∉ w.faults) :
    Fault.dangling ∉ (radiusCmdLogout w name ip mac).faults := by
  unfold radiusCmdLogout
  split
  · exact clean
  · cases radiusFindDev _ ip with
    | none => exact clean
    | some dev =>
      simp only
      split
      · exact visit_final w _ _ (final_lost_user 1) clean
      · exact clean

def Spared (event : Event) : Prop :=
  match event with
  | .device env id _ event => ∀ dev ∈ w.devs, dev.id = id → Survives env event dev w.sh
  | _ => True

theorem device_clean (env : Env) (id : Nat) (which : Which) (event : DevEvent) (base : Base w.devs w.sh)
    (spared : Spared w (.device env id which event)) (clean : Fault.dangling ∉ w.faults) :
    Fault.dangling ∉ (deviceEvent w env id which event).faults := by
  unfold deviceEvent
  cases found : w.devs.find? _ with
  | none => exact clean
  | some dev =>
    simp only
    split
    · exact clean
    · refine visit_spares w id _ (fun now here => ?_) clean
      rw [found] at here
      cases here
      have member := List.mem_of_find?_eq_some found
      have fresh : Fresh ⟨some dev, w.sh⟩ := ⟨base.wire, fun now request same packet => by
        cases same
        exact base.packet dev member _ packet⟩
      have named : dev.id = id := by simpa using List.find?_some found
      exact spares_event env _ _ dev w.sh (base.sound dev member) fresh (spared dev member named)

theorem step_clean (event : Event) (base : Base w.devs w.sh) (spared : Spared w event)
    (clean : Fault.dangling ∉ w.faults) : Fault.dangling ∉ (step w event).faults := by
  unfold step
  by_cases hung : w.hung = true
  · rw [if_pos hung]
    exact clean
  · rw [if_neg hung]
    cases event with
    | start =>
      simp only [raRun, if_true]
      split <;> exact clean
    | stop =>
      simp only [raRun, Bool.false_eq_true, if_false]
      split
      · exact radius_stop_clean w clean
      · exact clean
    | rulesUpdate => exact rules_update_clean w _ clean
    | serverRulesUpdate =>
      simp only
      split
      · exact rules_update_clean w true clean
      · exact clean
    | auth env name pass ip mac =>
      simp only
      split
      · exact cmd_auth_clean w env name pass ip mac clean
      · exact clean
    | logout name ip mac =>
      simp only
      split
      · exact cmd_logout_clean w name ip mac clean
      · exact clean
    | fwReload =>
      simp only [fwRulesReload]
      split <;> exact clean
    | radiusReload =>
      simp only [raProcessReload]
      split
      · exact clean
      · split <;> exact clean
    | device env id which event => exact device_clean w env id _ _ base spared clean
    | configure iface => exact clean
    | fwStart => exact clean
    | fwStop => exact clean
    | fwClear => exact clean
    | settime clock => exact clean

theorem no_step_on_destroyed_device (iface : Iface) (events : List Event)
    (steps : AllSteps step Spared (World.init iface) events) :
    Fault.dangling ∉ (run step (World.init iface) events).faults := by
  have both := run_keeps step _ (fun w => Listed Base w ∧ Fault.dangling ∉ w.faults) _ _
    ⟨⟨⟨by simp [World.init], by simp [World.init], by simp [World.init], by simp [World.init]⟩,
      by simp [World.init]⟩, by simp [World.init]⟩
    (fun w event holds spared => ⟨step_listed _ Base (base_preserves _) w _ holds.1 spared,
      step_clean w _ holds.1.holds spared holds.2⟩) steps
  exact both.2

theorem no_step_on_destroyed_device_login : Fault.dangling ∉ (run step (World.init sampleIface) loginRun).faults := by
  refine no_step_on_destroyed_device _ _ ⟨trivial, trivial, trivial, ?_, ?_, trivial⟩
  · intro dev _ _
    cases dev.st <;> trivial
  · intro dev member _
    have waiting : ∀ dev ∈ (run step (World.init sampleIface) sampleRequest).devs, dev.st = .auth := by decide +kernel
    simp only [Survives, waiting dev member]
    intro code replies
    obtain ⟨request, bytes, _, _, listed, first⟩ := replies
    have packet : bytes = samplePacket _ 0 := (Prod.mk.inj (List.mem_singleton.mp listed)).1
    rw [packet] at first
    exact ⟨first.symm, trivial⟩

-- An Access-Reject frees the device under dev_preprocess, which goes on to
-- move the buffer of its session.
theorem reject_touches_destroyed_device : ¬∀ iface events, Fault.dangling ∉ (run step (World.init iface) events).faults := by
  intro clean
  exact absurd (clean sampleIface (sampleRequest ++ [sampleReply 3 0])) (by decide +kernel)

end Codec.Radius
