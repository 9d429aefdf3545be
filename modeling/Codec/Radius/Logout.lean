import Codec.Radius.Dangling

set_option autoImplicit false

namespace Codec.Radius

open Codec.Ems Codec.Lib List

def Apart (left right : Device) : Prop := left.ip = right.ip → left.st = .acctStop ∨ right.st = .acctStop

instance : Std.Symm Apart := ⟨fun _ _ apart ip => (apart ip.symm).symm⟩

structure Single (devs : List Device) : Prop where
  ids : (devs.map Device.id).Nodup
  one : devs.Pairwise Apart

variable (devs : List Device) (w : World) (env : Env) (id : Nat) (handle : Handle Ret)

theorem single_apart (single : Single devs) (left right : Device) (here : left ∈ devs)
    (there : right ∈ devs) (ip : left.ip = right.ip) (active : left.st ≠ .acctStop) : left = right ∨ right.st = .acctStop := by
  by_cases same : left = right
  · exact .inl same
  · rcases single.one.forall here there same ip with stopping | stopping
    · exact absurd stopping active
    · exact .inr stopping

theorem find_id (dev : Device) (ids : (devs.map Device.id).Nodup) (member : dev ∈ devs) :
    devs.find? (fun now => now.id = dev.id) = some dev := by
  induction devs with
  | nil => simp at member
  | cons first rest ih =>
    simp only [map_cons, nodup_cons] at ids
    rcases mem_cons.mp member with same | later
    · simp [same]
    · have other : first.id ≠ dev.id := fun same => ids.1 (same ▸ mem_map_of_mem later)
      simp [other, ih ids.2 later]

theorem single_around (before behind : List Device) (dev : Device) (entry : Option Device)
    (follows : ∀ now, entry = some now → now.id = dev.id ∧ now.ip = dev.ip ∧
      (now.st ≠ .acctStop → dev.st ≠ .acctStop ∨ ∀ other ∈ before ++ behind, other.ip = dev.ip → other.st = .acctStop))
    (single : Single (before ++ dev :: behind)) : Single (before ++ (entry.toList ++ behind)) := by
  refine ⟨?_, pairwise_around _ _ _ dev _ ?_ single.one⟩
  · have ids := single.ids
    cases entry with
    | none =>
      have sub : (before ++ behind).Sublist _ := Sublist.append_left (sublist_cons_self dev _) _
      exact (sub.map _).nodup ids
    | some now => simpa [(follows now rfl).1] using ids
  · intro now here other member apart same
    obtain ⟨_, ip, activates⟩ := follows now here
    by_cases stopping : now.st = .acctStop
    · exact .inl stopping
    · rcases activates stopping with active | others
      · exact .inr ((apart (ip ▸ same)).resolve_left active)
      · exact .inr (others _ member (ip ▸ same.symm))

theorem move_stays_stopping (label : Label) (dev : Device) (sh : Shared) (next : Cell)
    (move : Move label ⟨some dev, sh⟩ next) (calm : label ≠ .revive ∧ label ≠ .renew) (stopping : dev.st = .acctStop)
    (now : Device) (here : next.dev = some now) : now.st = .acctStop := by
  cases move with
  | keep _ changed _ after same st frame =>
    cases here
    exact st.trans stopping
  | send _ changed _ after same st result =>
    cases here
    exact st.trans stopping
  | settle _ changed _ after same was new frame => simp [stopping] at was
  | revive _ changed _ after same was fine new frame => exact absurd rfl calm.1
  | probe _ changed _ after same was new frame => simp [stopping] at was
  | accept _ changed _ after request was new accepted begins fw => simp [stopping] at was
  | interim _ changed _ after request was new accepted begins fw => simp [stopping] at was
  | leave _ changed _ after request was new accepted begins fw => exact absurd stopping was
  | abandon _ changed _ after was new accepted same frame => exact absurd stopping was
  | drop _ _ after frame => cases here
  | renew _ changed _ after request new same code serial reason fw wire clock nextSerial => exact absurd rfl calm.2

structure Follows (dev now : Device) : Prop where
  id : now.id = dev.id
  ip : now.ip = dev.ip
  mac : now.mac = dev.mac

theorem path_follows (allowed : Label → Prop) (dev : Device) (sh : Shared) (next : Cell)
    (path : Path allowed ⟨some dev, sh⟩ next) (now : Device) (here : next.dev = some now) : Follows dev now := by
  refine path_keeps _ (fun cell => ∀ now, cell.dev = some now → Follows dev now) ?_ _ next path ?_ now here
  · intro label cell next _ move holds now here
    obtain ⟨prior, same, id, ip, mac⟩ := move_identity _ cell next move now here
    have follows := holds _ same
    exact ⟨id.trans follows.id, ip.trans follows.ip, mac.trans follows.mac⟩
  · intro now same
    cases same
    exact ⟨rfl, rfl, rfl⟩

theorem path_stays_stopping (allowed : Label → Prop) (dev : Device) (sh : Shared) (next : Cell)
    (path : Path allowed ⟨some dev, sh⟩ next) (calm : ∀ label, allowed label → label ≠ .revive ∧ label ≠ .renew)
    (stopping : dev.st = .acctStop) (now : Device) (here : next.dev = some now) : now.st = .acctStop := by
  refine path_keeps _ (fun cell => ∀ now, cell.dev = some now → now.st = .acctStop) ?_ _ next path ?_ now here
  · intro label cell next kind move holds now here
    obtain ⟨prior, same, _⟩ := move_identity _ cell next move now here
    obtain ⟨entry, after⟩ := cell
    cases same
    exact move_stays_stopping _ _ _ next move (calm _ kind) (holds _ rfl) now here
  · intro now same
    cases same
    exact stopping

theorem leaving_calm (label : Label) (kind : leaving label) : label ≠ .revive ∧ label ≠ .renew := by
  rcases kind with rfl | rfl <;> decide

theorem stopping_calm (which : Which) (event : DevEvent) (dev : Device) (sh : Shared)
    (stopping : dev.st = .acctStop) (label : Label) (allowed : Allowed env which event dev sh label) :
    label ≠ .revive ∧ label ≠ .renew := by
  cases event with
  | error =>
    have drop : label = .drop := by simpa [Allowed] using allowed
    rw [drop]
    decide
  | read stream =>
    simp only [Allowed, stopping] at allowed
    rcases allowed with rfl | rfl <;> decide
  | write result =>
    simp only [Allowed, stopping] at allowed
    rcases allowed with rfl | rfl | rfl <;> decide
  | timeout =>
    simp only [Allowed, stopping] at allowed
    rcases allowed with rfl | rfl <;> decide

theorem single_visit (follows : ∀ dev, dev ∈ w.devs → dev.id = id → ∀ now, (handle ⟨some dev, w.sh⟩).2.dev = some now →
      Follows dev now ∧ (now.st ≠ .acctStop → dev.st ≠ .acctStop ∨ ∀ other ∈ w.devs, other.ip = dev.ip → other.st = .acctStop))
    (single : Single w.devs) : Single (w.visit id handle).devs := by
  unfold World.visit
  cases found : w.devs.find? _ with
  | none => exact single
  | some dev =>
    obtain ⟨before, behind, split, replaced⟩ := replace_split id _ dev found
    have follows := follows dev (mem_of_find?_eq_some found) (by simpa using find?_some found)
    simp only [replaced]
    rw [split] at single
    refine single_around _ _ dev _ (fun now here => ?_) single
    obtain ⟨same, activates⟩ := follows now here
    refine ⟨same.id, same.ip, fun active => (activates active).imp_right fun others other member => ?_⟩
    refine others _ ?_
    rw [split]
    rcases mem_append.mp member with left | right
    · exact mem_append_left _ left
    · exact mem_append_right _ (mem_cons_of_mem dev right)

theorem leaving_single (path : ∀ dev ∈ w.devs, Path leaving ⟨some dev, w.sh⟩ (handle ⟨some dev, w.sh⟩).2)
    (single : Single w.devs) : Single (w.visit id handle).devs := by
  refine single_visit w id _ (fun dev member _ now here => ?_) single
  refine ⟨path_follows _ dev w.sh _ (path dev member) now here, fun active => .inl fun stopping => ?_⟩
  exact active (path_stays_stopping _ dev w.sh _ (path dev member) leaving_calm stopping now here)

theorem radius_stop_single (single : Single w.devs) : Single (radiusStop w).devs := by
  unfold radiusStop
  generalize w.devs.map _ = ids
  have first : Single (w.setRa fun ra => { ra with lasterr := 0 }).devs := single
  generalize (w.setRa fun ra => { ra with lasterr := 0 }) = start at first
  induction ids generalizing start with
  | nil => exact first
  | cons id rest ih => exact ih _ (leaving_single _ id _ (fun dev _ => stop_dev_path dev _) first)

theorem visit_mem (ids : (w.devs.map Device.id).Nodup) (dev : Device) (member : dev ∈ (w.visit id handle).devs) :
    (dev ∈ w.devs ∧ dev.id ≠ id) ∨ ∃ prior ∈ w.devs, prior.id = id ∧ (handle ⟨some prior, w.sh⟩).2.dev = some dev := by
  unfold World.visit at member
  cases found : w.devs.find? _ with
  | none =>
    rw [found] at member
    exact .inl ⟨member, fun same => by simpa [same] using find?_eq_none.mp found dev member⟩
  | some first =>
    obtain ⟨before, behind, split, replaced⟩ := replace_split id _ _ found
    have named : first.id = id := by simpa using find?_some found
    simp only [found, replaced] at member
    rw [split, map_append, map_cons, nodup_append, nodup_cons] at ids
    obtain ⟨_, ⟨later, _⟩, apart⟩ := ids
    rcases (mem_around _ _ _ dev).mp member with left | here | right
    · refine .inl ⟨by simp [split, left], fun same => ?_⟩
      exact apart _ (mem_map_of_mem left) _ mem_cons_self (same.trans named.symm)
    · exact .inr ⟨first, by simp [split], named, here⟩
    · refine .inl ⟨by simp [split, right], fun same => later ?_⟩
      rw [named, ← same]
      exact mem_map_of_mem right

theorem start_gone (cell next : Cell) (move : Move (startLabel env) cell next) (now : Device)
    (here : next.dev = some now) : env.connect = true := by
  cases connect : env.connect with
  | true => rfl
  | false =>
    have drop : startLabel env = .drop := by simp [startLabel, connect]
    rw [drop] at move
    cases move with
    | drop _ _ after frame => cases here

theorem user_in_single (name pass ip mac : Str) (listed : ∀ dev ∈ w.devs, dev.id < w.nextId)
    (clear : env.connect = true → ∀ dev ∈ w.devs, dev.ip = ip → dev.st = .acctStop) (single : Single w.devs) :
    Single (radiusUserIn w env name pass ip mac).devs := by
  obtain ⟨next, move, devs, _⟩ := user_in_eq w env name pass ip mac listed
  rw [devs]
  cases entry : next.dev with
  | none => simpa using single
  | some now =>
    obtain ⟨prior, same, id, place, _⟩ := move_identity _ _ next move now entry
    cases same
    simp only [Option.toList_some]
    refine ⟨?_, ?_⟩
    · rw [map_append, nodup_append]
      refine ⟨single.ids, by simp, fun left there right only => ?_⟩
      obtain ⟨dev, member, named⟩ := mem_map.mp there
      simp only [map_cons, map_nil, mem_singleton] at only
      rw [only, ← named, id]
      exact Nat.ne_of_lt (listed dev member)
    · rw [pairwise_append]
      refine ⟨single.one, pairwise_singleton _ _, fun dev member right only => ?_⟩
      rw [mem_singleton.mp only]
      exact fun same => .inl (clear (start_gone env _ next move now entry) dev member (same.trans place))

def Orderly (w : World) (event : Event) : Prop :=
  match event with
  | .auth env name pass ip mac =>
    w.run = true → ¬(name = [] ∨ pass = [] ∨ ip = [] ∨ mac = []) → env.connect = true →
      ∀ first, radiusFindDev w.devs ip = some first → first.st = .acctStop →
        ∀ dev ∈ w.devs, dev.ip = ip → dev.st = .acctStop
  | .logout name ip mac =>
    w.run = true → ∀ dev ∈ w.devs, dev.ip = ip → dev.mac = mac → dev.st ≠ .acctStop →
      name ≠ [] ∧ ∀ first, radiusFindDev w.devs ip = some first → first.st ≠ .acctStop
  | _ => True

theorem find_dev_some (ip : Str) (first : Device) (found : radiusFindDev devs ip = some first) : first ∈ devs ∧ first.ip = ip :=
  ⟨mem_of_find?_eq_some found, by simpa using find?_some found⟩

theorem auth_single (name pass ip mac : Str) (listed : Listed Base w) (run : w.run = true)
    (orderly : Orderly w (.auth env name pass ip mac)) (single : Single w.devs) :
    Single (radiusCmdAuth w env name pass ip mac).devs := by
  unfold radiusCmdAuth
  by_cases missing : name = [] ∨ pass = [] ∨ ip = [] ∨ mac = []
  · rw [if_pos missing]
    exact single
  · rw [if_neg missing]
    have orderly := orderly run missing
    cases found : radiusFindDev _ ip with
    | none =>
      refine user_in_single w env name pass ip mac listed.ids (fun _ dev member same => ?_) single
      exact absurd same (by simpa using find?_eq_none.mp found dev member)
    | some first =>
      obtain ⟨member, place⟩ := find_dev_some _ ip _ found
      have others : env.connect = true → ∀ dev ∈ w.devs, dev.id ≠ first.id → dev.ip = ip → dev.st = .acctStop := by
        intro connect dev there other same
        by_cases stopping : first.st = .acctStop
        · exact orderly connect _ found stopping dev there same
        · rcases single_apart _ single _ dev member there (place.trans same.symm) stopping with here | stopped
          · exact absurd (congrArg _ here.symm) other
          · exact stopped
      by_cases same : first.mac = mac
      · simp only [if_pos same]
        refine single_visit w _ _ (fun dev there named now here => ?_) single
        have sound := listed.holds.sound dev there
        have move := change_start_move env dev { dev with name := name, pass := pass } w.sh
          ⟨rfl, rfl, rfl, rfl, rfl, rfl⟩ sound.begun.2
        refine ⟨path_follows _ dev w.sh _ (path_one _ _ _ _ (start_label_starting env) move) now here, ?_⟩
        have connect := start_gone env _ _ move now here
        have only : first = dev :=
          Option.some.inj ((find_id _ _ single.ids member).symm.trans
            (named ▸ find_id _ dev single.ids there))
        intro _
        by_cases stopping : dev.st = .acctStop
        · right
          intro other listed' ip'
          exact orderly connect _ found (only ▸ stopping) _ listed' (ip'.trans (only ▸ place))
        · exact .inl stopping
      · simp only [if_neg same]
        have gone := leaving_single w first.id _
          (fun dev there => lost_user_path 2 dev w.sh (listed.holds.sound dev there)) single
        have kept : Listed Base (w.visit first.id (raLostUser 2)) := by
          have all := lost_user_keeps (fun devs sh => Base devs sh ∧ ∀ dev ∈ devs, dev.id < w.nextId) [first.id] w
            first.id 2 ⟨fun _ _ both => both.1.sound,
              fun devs sh _ both => ⟨base_shared devs sh _ both.1 rfl rfl, both.2⟩,
              fun before behind label dev sh next _ _ move both =>
                ⟨base_move _ _ _ _ next move both.1,
                  ids_move _ _ _ dev sh next _ move both.2⟩⟩
            (by simp) ⟨listed.holds, listed.ids⟩
          exact ⟨all.1, fun dev there => (visit_frame w _ _).1 ▸ all.2 dev there⟩
        refine user_in_single _ env name pass ip mac kept.ids (fun connect dev there same => ?_) gone
        rcases visit_mem w _ _ single.ids dev there with old | changed
        · exact others connect dev old.1 old.2 same
        · obtain ⟨prior, here, _, entry⟩ := changed
          have path := lost_user_path 2 _ w.sh (listed.holds.sound _ here)
          by_cases stopping : prior.st = .acctStop
          · exact path_stays_stopping _ _ w.sh _ path leaving_calm stopping dev entry
          · obtain ⟨next, after, ran, move⟩ := lost_user_spec 2 _ w.sh (listed.holds.sound _ here) stopping
            rw [ran] at entry
            cases entry
            cases move with
            | leave _ _ _ _ _ _ new _ _ _ => exact new

theorem device_single (which : Which) (event : DevEvent) (listed : Listed Base w)
    (single : Single w.devs) : Single (deviceEvent w env id which event).devs := by
  unfold deviceEvent
  cases found : w.devs.find? _ with
  | none => exact single
  | some _ =>
    simp only
    split
    · exact single
    · refine single_visit w id _ (fun dev member _ now here => ?_) single
      have base := listed.holds
      have path := device_event_path env which event dev w.sh (base.sound dev member)
        ⟨base.wire, fun now request same packet => by
          cases same
          exact base.packet dev member _ packet⟩
      refine ⟨path_follows _ dev w.sh _ path now here, fun active => .inl fun stopping => active ?_⟩
      exact path_stays_stopping _ dev w.sh _ path
        (fun label kind => stopping_calm env _ _ dev w.sh stopping _ kind) stopping now here

theorem step_single (event : Event) (listed : Listed Base w) (orderly : Orderly w event)
    (single : Single w.devs) : Single (step w event).devs := by
  have restart : ∀ run, Single (radiusRulesUpdate w run).devs := by
    intro run
    unfold radiusRulesUpdate
    split
    · exact radius_stop_single w single
    · exact single
  unfold step
  by_cases hung : w.hung = true
  · rw [if_pos hung]
    exact single
  · rw [if_neg hung]
    cases event with
    | start =>
      simp only [raRun, if_true]
      split <;> exact single
    | stop =>
      simp only [raRun, Bool.false_eq_true, if_false]
      split
      · exact radius_stop_single w single
      · exact single
    | rulesUpdate => exact restart _
    | serverRulesUpdate =>
      simp only
      split
      · exact restart true
      · exact single
    | auth env name pass ip mac =>
      simp only
      split
      · rename_i run
        exact auth_single w env name pass ip mac listed run orderly single
      · exact single
    | logout name ip mac =>
      simp only [radiusCmdLogout]
      split
      · split
        · exact single
        · cases radiusFindDev _ ip with
          | none => exact single
          | some dev =>
            simp only
            split
            · exact leaving_single w _ _
                (fun now member => lost_user_path 1 now w.sh (listed.holds.sound now member)) single
            · exact single
      · exact single
    | fwReload =>
      simp only [fwRulesReload]
      split <;> exact single
    | radiusReload =>
      simp only [raProcessReload]
      split
      · exact single
      · split <;> exact single
    | device env id which event => exact device_single w env id _ _ listed single
    | configure iface => exact single
    | fwStart => exact single
    | fwStop => exact single
    | fwClear => exact single
    | settime clock => exact single

def OnePerIp (w : World) : Prop := ∀ ip, (w.devs.filter fun dev => dev.ip = ip ∧ dev.st ≠ .acctStop).length ≤ 1

def LogoutHits (w : World) (event : Event) : Prop :=
  match event with
  | .logout _ ip mac =>
    w.run = true → w.hung = false → mac ≠ [] →
      ∀ dev ∈ w.devs, dev.ip = ip → dev.mac = mac → dev.st ≠ .acctStop →
        ∃ now ∈ (step w event).devs, now.id = dev.id ∧ now.st = .acctStop
  | _ => True

theorem one_per_ip (single : Single w.devs) : OnePerIp w := by
  intro ip
  have apart := single.one.sublist (filter_sublist (p := fun dev => dev.ip = ip ∧ dev.st ≠ .acctStop))
  cases kept : w.devs.filter fun dev => dev.ip = ip ∧ dev.st ≠ .acctStop with
  | nil => simp
  | cons first rest =>
    cases rest with
    | nil => simp
    | cons second more =>
      have active : ∀ dev ∈ first :: second :: more, dev.ip = ip ∧ dev.st ≠ .acctStop := by
        intro dev member
        rw [← kept] at member
        simpa using (mem_filter.mp member).2
      obtain ⟨ip1, live1⟩ := active first (by simp)
      obtain ⟨ip2, live2⟩ := active second (by simp)
      rw [kept, pairwise_cons] at apart
      rcases apart.1 _ (by simp) (ip1.trans ip2.symm) with stopped | stopped
      · exact absurd stopped live1
      · exact absurd stopped live2

theorem logout_hits (event : Event) (listed : Listed Base w) (single : Single w.devs)
    (orderly : Orderly w event) : LogoutHits w event := by
  cases event with
  | logout name ip mac =>
    intro run awake hasMac dev member place address active
    obtain ⟨hasName, first⟩ := orderly run dev member place address active
    have hasIp : ip ≠ [] := place ▸ (listed.holds.named dev member).1
    have complete : ¬(name = [] ∨ ip = []) := by simp [hasName, hasIp]
    cases found : radiusFindDev _ ip with
    | none => exact absurd place (by simpa using find?_eq_none.mp found dev member)
    | some head =>
      obtain ⟨there, ip'⟩ := find_dev_some _ ip head found
      have same : head = dev := by
        rcases single_apart _ single head dev there member (ip'.trans place.symm) (first head found) with
          same | stopped
        · exact same
        · exact absurd stopped active
      subst same
      obtain ⟨next, after, ran, move⟩ := lost_user_spec 1 head w.sh (listed.holds.sound head member) active
      have here := find_id _ head single.ids member
      obtain ⟨before, behind, _, replaced⟩ := replace_split _ _ head here
      refine ⟨next, ?_, ?_⟩
      · simp only [step, awake, Bool.false_eq_true, if_false, run, if_true, radiusCmdLogout, if_neg complete, found,
          address, or_true, World.visit, here, ran, replaced]
        simp
      · cases move with
        | leave _ _ _ _ request old new accepted begins fw => exact ⟨begins.id, new⟩
  | _ => trivial

theorem logout_hits_right_device (iface : Iface) (events : List Event)
    (steps : AllSteps step Orderly (World.init iface) events) :
    OnePerIp (run step (World.init iface) events) ∧ AllSteps step LogoutHits (World.init iface) events := by
  have start : Listed Base (World.init iface) ∧ Single (World.init iface).devs :=
    ⟨⟨⟨by simp [World.init], by simp [World.init], by simp [World.init], by simp [World.init]⟩, by simp [World.init]⟩,
      ⟨by simp [World.init], by simp [World.init]⟩⟩
  generalize World.init _ = w at steps start
  induction events generalizing w with
  | nil => exact ⟨one_per_ip w start.2, trivial⟩
  | cons event rest ih =>
    obtain ⟨orderly, later⟩ := steps
    obtain ⟨listed, single⟩ := start
    obtain ⟨one, hits⟩ := ih _ later
      ⟨step_listed _ Base (base_preserves _) w _ listed orderly, step_single w _ listed orderly single⟩
    exact ⟨one, logout_hits w _ listed single orderly, hits⟩

theorem logout_hits_right_device_login :
    OnePerIp (run step (World.init sampleIface) (loginRun ++ [.logout [117] [105] [109]])) ∧
      AllSteps step LogoutHits (World.init sampleIface) (loginRun ++ [.logout [117] [105] [109]]) := by
  refine logout_hits_right_device _ _ ((all_steps_append step _ _ _ _).mpr
    ⟨⟨trivial, trivial, ?_, trivial, trivial, trivial⟩, ?_, trivial⟩)
  · intro _ _ _ first found
    have fresh : (step (step (World.init sampleIface) .start) .fwStart).devs = [] := by decide +kernel
    rw [fresh] at found
    cases found
  · intro _ dev _ _ _ _
    refine ⟨by decide, fun first found => ?_⟩
    have settled : ∀ dev ∈ (run step (World.init sampleIface) loginRun).devs, dev.st ≠ .acctStop := by decide +kernel
    exact settled _ (find_dev_some _ _ _ found).1

-- After a mac change the old device stands first until its stop is answered:
-- a logout of the new one is lost, and a login with the old mac makes the
-- old one active again.
theorem mac_change_hides_device : (¬∀ iface events, OnePerIp (run step (World.init iface) events)) ∧
      ¬∀ iface events, AllSteps step LogoutHits (World.init iface) events := by
  let changed : List Event := [.start, .auth sampleEnv [117] [112] [105] [109], .auth sampleEnv [117] [112] [105] [110]]
  refine ⟨fun one => ?_, fun hits => ?_⟩
  · have two := one sampleIface (changed ++ [.auth sampleEnv [117] [112] [105] [109]]) [105]
    exact absurd two (by decide +kernel)
  · obtain ⟨_, hit, _⟩ := (all_steps_append step _ _ _ _).mp
      (hits sampleIface (changed ++ [.logout [117] [105] [110]]))
    exact absurd (hit (by decide +kernel) (by decide +kernel) (by decide)) (by decide +kernel)

end Codec.Radius
