import Codec.Radius.ModuleSpec

set_option autoImplicit false

namespace Codec.Radius

open Codec.Ems Codec.Lib

structure Preserves (ok : World → Event → Prop) (keeps : List Device → Shared → Prop) : Prop where
  base : ∀ devs sh, keeps devs sh → Base devs sh
  ra : ∀ devs sh ra, keeps devs sh → keeps devs { sh with ra := ra }
  clock : ∀ w clock, ok w (.settime clock) → keeps w.devs w.sh → keeps w.devs { w.sh with clock := clock }
  fwStarts : ∀ devs sh, keeps devs sh → keeps devs { sh with fw := fwStart sh.fw }
  fwStops : ∀ w, ok w .fwStop → keeps w.devs w.sh → keeps w.devs { w.sh with fw := fwStop w.sh.fw }
  flush : ∀ devs sh, keeps devs sh → keeps devs { sh with fw := fwFlushAuthed sh.fw }
  reload : ∀ w, ok w .radiusReload → w.run = true → w.reloads ≠ 0 → keeps w.devs w.sh →
    keeps w.devs (radiusEvtFwReload w).sh
  leave : ∀ w event, ok w event → keeps w.devs w.sh → ∃ strong, Leaves strong (leavers w event) ∧
    strong w.devs w.sh ∧ ∀ devs sh, strong devs sh → keeps devs sh
  renew : ∀ before behind label dev sh next, starting label → Move label ⟨some dev, sh⟩ next →
    keeps (before ++ dev :: behind) sh → keeps (before ++ (next.dev.toList ++ behind)) next.sh
  join : ∀ devs sh id name pass ip mac rounds label next, keeps devs sh → ip ≠ [] → mac ≠ [] → starting label →
    Move label ⟨some (emsDeviceNew id name pass ip mac rounds), sh⟩ next → keeps (devs ++ next.dev.toList) next.sh
  device : ∀ w env id which event dev before behind, ok w (.device env id which event) →
    w.devs = before ++ dev :: behind → dev.id = id → keeps w.devs w.sh →
    ∃ strong : Cell → Prop, strong ⟨some dev, w.sh⟩ ∧
      (∀ cell, strong cell → keeps (before ++ (cell.dev.toList ++ behind)) cell.sh) ∧
      ∀ label cell next, Allowed env which event dev w.sh label → Move label cell next → strong cell → strong next

structure Listed (keeps : List Device → Shared → Prop) (w : World) : Prop where
  holds : keeps w.devs w.sh
  ids : ∀ dev ∈ w.devs, dev.id < w.nextId

theorem ids_move (before behind : List Device) (label : Label) (dev : Device) (sh : Shared) (next : Cell) (bound : Nat)
    (move : Move label ⟨some dev, sh⟩ next) (ids : ∀ now ∈ before ++ dev :: behind, now.id < bound) :
    ∀ now ∈ before ++ (next.dev.toList ++ behind), now.id < bound := by
  intro now member
  rcases (mem_around _ _ _ now).mp member with old | new | old
  · exact ids now (by simp [old])
  · obtain ⟨prior, same, id, _⟩ := move_identity _ _ next move now new
    cases same
    exact id ▸ ids dev (by simp)
  · exact ids now (by simp [old])

section Steps

variable (ok : World → Event → Prop) (keeps : List Device → Shared → Prop)

theorem leave_listed (preserves : Preserves ok keeps) (w : World) (event : Event) (allowed : ok w event)
    (listed : Listed keeps w) : ∃ strong, Leaves strong (leavers w event) ∧ strong w.devs w.sh ∧
      ∀ devs sh, strong devs sh → keeps devs sh ∧ ∀ dev ∈ devs, dev.id < w.nextId := by
  obtain ⟨strong, leaves, holds, enough⟩ := preserves.leave w _ allowed listed.holds
  refine ⟨fun devs sh => strong devs sh ∧ ∀ dev ∈ devs, dev.id < w.nextId, ⟨?_, ?_, ?_⟩, ⟨holds, listed.ids⟩, ?_⟩
  · exact fun devs sh both => leaves.base devs sh both.1
  · exact fun devs sh ra both => ⟨leaves.ra devs sh ra both.1, both.2⟩
  · intro before behind label dev sh next kind member move both
    exact ⟨leaves.moves _ _ _ dev sh next kind member move both.1,
      ids_move _ _ _ dev sh next _ move both.2⟩
  · exact fun devs sh both => ⟨enough devs sh both.1, both.2⟩

theorem stop_listed (preserves : Preserves ok keeps) (w : World) (event : Event) (allowed : ok w event)
    (all : leavers w event = w.devs.map Device.id) (listed : Listed keeps w) :
    keeps (radiusStop w).devs (radiusStop w).sh ∧ ∀ dev ∈ (radiusStop w).devs, dev.id < w.nextId := by
  obtain ⟨strong, leaves, holds, enough⟩ := leave_listed ok _ preserves w _ allowed listed
  refine enough _ _ (radius_stop_keeps _ _ w leaves ?_ holds)
  intro dev member
  rw [all]
  exact List.mem_map_of_mem member

theorem visit_frame (w : World) (id : Nat) (handle : Handle Ret) :
    (w.visit id handle).nextId = w.nextId ∧ (w.visit id handle).run = w.run ∧
      (w.visit id handle).iface = w.iface ∧ (w.visit id handle).reloads = w.reloads := by
  unfold World.visit
  cases w.devs.find? _ <;> exact ⟨rfl, rfl, rfl, rfl⟩

theorem radius_stop_frame (w : World) : (radiusStop w).nextId = w.nextId := by
  unfold radiusStop
  generalize w.devs.map _ = ids
  have first : (w.setRa fun ra => { ra with lasterr := 0 }).nextId = w.nextId := rfl
  generalize (w.setRa fun ra => { ra with lasterr := 0 }) = start at first
  induction ids generalizing start with
  | nil => exact first
  | cons id rest ih => exact ih _ ((visit_frame _ id _).1.trans first)

section

variable (preserves : Preserves ok keeps)

include preserves

theorem restart_listed (w : World) (event : Event) (run : Bool) (allowed : ok w event)
    (all : (run && radiusNeedsRestart w.sh.ra w.iface) = true → leavers w event = w.devs.map Device.id)
    (listed : Listed keeps w) : Listed keeps (radiusRulesUpdate w run) := by
  unfold radiusRulesUpdate
  split
  · rename_i restart
    obtain ⟨holds, ids⟩ := stop_listed ok _ preserves w _ allowed (all restart) listed
    exact ⟨preserves.ra _ _ _ holds, fun dev member => radius_stop_frame w ▸ ids dev member⟩
  · exact listed

theorem user_in_listed (w : World) (env : Env) (name pass ip mac : Str)
    (hasIp : ip ≠ []) (hasMac : mac ≠ []) (listed : Listed keeps w) : Listed keeps (radiusUserIn w env name pass ip mac) := by
  obtain ⟨next, move, devs, sh⟩ := user_in_eq w env name pass ip mac listed.ids
  have bound : (radiusUserIn w env name pass ip mac).nextId = w.nextId + 1 := (visit_frame _ _ _).1
  refine ⟨?_, ?_⟩
  · rw [devs, sh]
    exact preserves.join _ _ _ _ _ _ _ _ _ _ listed.holds hasIp hasMac (start_label_starting env) move
  · rw [devs, bound]
    intro dev member
    rcases List.mem_append.mp member with old | new
    · exact Nat.lt_succ_of_lt (listed.ids dev old)
    · obtain ⟨prior, same, id, _⟩ := move_identity _ _ next move dev (by simpa using new)
      cases same
      exact id ▸ Nat.lt_succ_self _

theorem auth_listed (w : World) (env : Env) (name pass ip mac : Str)
    (allowed : ok w (.auth env name pass ip mac)) (run : w.run = true) (listed : Listed keeps w) :
    Listed keeps (radiusCmdAuth w env name pass ip mac) := by
  unfold radiusCmdAuth
  by_cases missing : name = [] ∨ pass = [] ∨ ip = [] ∨ mac = []
  · rw [if_pos missing]
    exact listed
  · rw [if_neg missing]
    have complete : ip ≠ [] ∧ mac ≠ [] :=
      ⟨fun empty => missing (.inr (.inr (.inl empty))), fun empty => missing (.inr (.inr (.inr empty)))⟩
    cases found : radiusFindDev _ ip with
    | none => exact user_in_listed ok _ preserves w env name pass ip mac complete.1 complete.2 listed
    | some dev =>
      by_cases same : dev.mac = mac
      · simp only [if_pos same]
        have base := preserves.base _ _ listed.holds
        have visited := visit_keeps w dev.id (radiusReauth env name pass) _
          (fun devs sh => keeps devs sh ∧ ∀ dev ∈ devs, dev.id < w.nextId) (fun now here => by
            exact path_one _ _ _ _ (start_label_starting env) (change_start_move env now
              _ w.sh ⟨rfl, rfl, rfl, rfl, rfl, rfl⟩
              (base.sound now (List.mem_of_find?_eq_some here)).begun.2))
          (fun before behind label now sh next kind _ move both =>
            ⟨preserves.renew _ _ _ now sh next kind move both.1,
              ids_move _ _ _ now sh next _ move both.2⟩) ⟨listed.holds, listed.ids⟩
        exact ⟨visited.1, fun now member => (visit_frame w _ _).1 ▸ visited.2 now member⟩
      · simp only [if_neg same]
        obtain ⟨strong, leaves, holds, enough⟩ := leave_listed ok _ preserves w _ allowed listed
        have visited := enough _ _ (lost_user_keeps _ _ w dev.id 2 leaves
          (by simp [leavers, run, missing, found, same]) holds)
        have gone : Listed _ _ := ⟨visited.1, fun now member => (visit_frame w _ _).1 ▸ visited.2 now member⟩
        exact user_in_listed ok _ preserves _ env name pass ip mac complete.1 complete.2 gone

theorem logout_listed (w : World) (name ip mac : Str)
    (allowed : ok w (.logout name ip mac)) (run : w.run = true) (listed : Listed keeps w) :
    Listed keeps (radiusCmdLogout w name ip mac) := by
  unfold radiusCmdLogout
  by_cases missing : name = [] ∨ ip = []
  · rw [if_pos missing]
    exact listed
  · rw [if_neg missing]
    cases found : radiusFindDev _ ip with
    | none => exact listed
    | some dev =>
      by_cases hit : mac = [] ∨ dev.mac = mac
      · simp only [if_pos hit]
        obtain ⟨strong, leaves, holds, enough⟩ := leave_listed ok _ preserves w _ allowed listed
        have visited := enough _ _ (lost_user_keeps _ _ w dev.id 1 leaves
          (by simp [leavers, run, missing, found, hit]) holds)
        exact ⟨visited.1, fun now member => (visit_frame w _ _).1 ▸ visited.2 now member⟩
      · simp only [if_neg hit]
        exact listed

theorem device_listed (w : World) (env : Env) (id : Nat) (which : Which)
    (event : DevEvent) (allowed : ok w (.device env id which event)) (listed : Listed keeps w) :
    Listed keeps (deviceEvent w env id which event) := by
  unfold deviceEvent
  cases found : w.devs.find? _ with
  | none => exact listed
  | some dev =>
    by_cases absent : which = .ping ∧ dev.sessDev = none
    · simp only [if_pos absent]
      exact listed
    · simp only [if_neg absent]
      have frame := (visit_frame w id (devEvtCb env which event)).1
      have base := preserves.base _ _ listed.holds
      have member := List.mem_of_find?_eq_some found
      obtain ⟨before, behind, split, replaced⟩ := replace_split id _ dev found
      obtain ⟨strong, start, enough, moves⟩ := preserves.device w env id _ _ dev _ _ allowed split
        (by simpa using List.find?_some found) listed.holds
      have path := device_event_path env which event dev w.sh (base.sound dev member)
        ⟨base.wire, fun now request same packet => by
          cases same
          exact base.packet dev member _ packet⟩
      have final := path_keeps _ (fun cell => strong cell ∧
        ∀ now ∈ before ++ (cell.dev.toList ++ behind), now.id < w.nextId) (by
          intro label cell next kind move both
          refine ⟨moves _ cell next kind move both.1, ?_⟩
          obtain ⟨entry, sh⟩ := cell
          cases entry with
          | none => cases move
          | some here => exact ids_move _ _ _ here sh next _ move both.2) _ _ path
        ⟨start, by
          have ids := listed.ids
          rw [split] at ids
          exact ids⟩
      have shape : (w.visit id (devEvtCb env which event)).devs =
          before ++ ((devEvtCb env which event ⟨some dev, w.sh⟩).2.dev.toList ++ behind) ∧
          (w.visit id (devEvtCb env which event)).sh = (devEvtCb env which event ⟨some dev, w.sh⟩).2.sh := by
        unfold World.visit
        simp only [found, replaced, and_self]
      refine ⟨?_, ?_⟩
      · rw [shape.1, shape.2]
        exact enough _ final.1
      · rw [shape.1, frame]
        exact final.2

theorem step_listed (w : World) (event : Event) (listed : Listed keeps w)
    (allowed : ok w event) : Listed keeps (step w event) := by
  unfold step
  by_cases hung : w.hung = true
  · rw [if_pos hung]
    exact listed
  · rw [if_neg hung]
    cases event with
    | start =>
      simp only [raRun, if_true]
      split
      · exact listed
      · exact ⟨preserves.ra _ _ _ listed.holds, listed.ids⟩
    | stop =>
      simp only [raRun, Bool.false_eq_true, if_false]
      split
      · rename_i run
        obtain ⟨holds, ids⟩ := stop_listed ok _ preserves w _ allowed (by simp [leavers, run]) listed
        exact ⟨holds, fun dev member => (radius_stop_frame w).symm ▸ ids dev member⟩
      · exact listed
    | rulesUpdate =>
      exact restart_listed ok _ preserves w _ _ allowed
        (fun restart => by simp only [leavers, restart, if_true]) listed
    | serverRulesUpdate =>
      simp only
      split
      · rename_i run
        exact restart_listed ok _ preserves w _ true allowed
          (fun restart => by simp only [leavers, run, restart, if_true]) listed
      · exact listed
    | configure iface => exact ⟨listed.holds, listed.ids⟩
    | auth env name pass ip mac =>
      simp only
      split
      · rename_i run
        exact auth_listed ok _ preserves w env name pass ip mac allowed run listed
      · exact listed
    | logout name ip mac =>
      simp only
      split
      · rename_i run
        exact logout_listed ok _ preserves w name ip mac allowed run listed
      · exact listed
    | fwStart => exact ⟨preserves.fwStarts _ _ listed.holds, listed.ids⟩
    | fwStop => exact ⟨preserves.fwStops w allowed listed.holds, listed.ids⟩
    | fwClear => exact ⟨preserves.flush _ _ listed.holds, listed.ids⟩
    | fwReload =>
      simp only [fwRulesReload]
      split
      · exact ⟨preserves.flush _ _ listed.holds, listed.ids⟩
      · exact listed
    | radiusReload =>
      simp only [raProcessReload]
      split
      · exact listed
      · rename_i queued
        split
        · rename_i run
          exact ⟨preserves.reload w allowed run queued listed.holds, listed.ids⟩
        · exact ⟨listed.holds, listed.ids⟩
    | device env id which event => exact device_listed ok _ preserves w env id _ _ allowed listed
    | settime clock => exact ⟨preserves.clock w _ allowed listed.holds, listed.ids⟩

theorem run_listed (iface : Iface) (events : List Event)
    (initial : keeps [] (World.init iface).sh) (steps : AllSteps step ok (World.init iface) events) :
    Listed keeps (run step (World.init iface) events) :=
  run_keeps step ok _ _ _ ⟨initial, fun dev member => by simp [World.init] at member⟩
    (step_listed ok _ preserves) steps

end

end Steps

end Codec.Radius
