import Codec.Portal.Invariants

set_option autoImplicit false

namespace Codec.Portal

open Codec.Lib

variable (user : User) (ptl : EmsPortal) (m : Move)

def Granted : Prop := user.online = true → user.granted = true

def FlagSound : Prop := ∀ user ∈ ptl.users, Granted user

instance (ptl : EmsPortal) : Decidable (FlagSound ptl) :=
  inferInstanceAs (Decidable (∀ user ∈ ptl.users, user.online = true → user.granted = true))

def ConfirmsLogins : Prop :=
  match m with
  | .message _ _ (.event auth _) => auth.ty = tyAffAckAuth →
      ∀ user ∈ ptlUserFind ptl (inetNtoa auth.ip), user.st = .ackAuth → user.online = true
  | .act (.authRsp userip errorCode) => ∀ user ∈ userip.bind (ptlUserFind ptl), errorCode.getD 0 ≠ 0 → user.online = false
  | .act (.portalLogout userip) =>
    ∀ user ∈ userip.bind (ptlUserFind ptl), user.online = true → user.st = .affAckAuth ∨ user.st = .ackAuth
  | _ => True

instance (ptl : EmsPortal) (m : Move) : Decidable (ConfirmsLogins ptl m) := by
  rw [ConfirmsLogins.eq_def]
  split <;> infer_instance

theorem granted_offline (off : user.online = false) : Granted user := by
  intro on
  rw [off] at on
  cases on

theorem granted_calm (user next : User) (online : next.online = user.online) (_ : next.st = user.st)
    (granted : next.granted = user.granted) (good : Granted user) : Granted next := by
  intro on
  rw [granted]
  exact good (online ▸ on)

theorem confirms_allows (confirms : ConfirmsLogins ptl m) : Allows (Keeps Granted) ptl m := by
  refine ⟨?_, ?_, ?_⟩
  · rintro env cb auth attr rfl
    refine ⟨?_, ?_⟩
    · intro _ user _ good
      exact good
    · intro affirm user found waits good _
      exact good (confirms affirm user found waits)
  · rintro userip errorCode user rfl found
    have refused := confirms user found
    by_cases fine : errorCode.getD 0 = 0
    · refine ⟨?_, ?_⟩
      · intro _ _
        simp [User.told, fine]
      · intro _ _ _
        simp [User.told, User.answered, fine]
    · have off := refused fine
      refine ⟨?_, ?_⟩
      · intro _
        exact granted_offline _ off
      · intro _ _
        apply granted_offline
        simp [User.told, User.answered, fine, off]
  · rintro userip user rfl found ignored _
    apply granted_offline
    by_contra on
    exact ignored (confirms user found (by simpa [User.deny] using on))

theorem online_was_granted (iface : Iface) (moves : List Move)
    (steps : AllSteps move ConfirmsLogins (EmsPortal.init iface) moves) :
    FlagSound (run move (EmsPortal.init iface) moves) := by
  have start : Users Granted _ := ⟨init_shape iface, fun _ absent => nomatch absent⟩
  have preserved (ptl : EmsPortal) (m : Move) (users : Users _ ptl) (confirms : ConfirmsLogins ptl m) :
      Users _ _ :=
    move_users _ granted_offline granted_calm ptl m users (confirms_allows ptl m confirms)
  exact (run_keeps move _ _ _ _ start preserved steps).2

theorem online_was_granted_login : FlagSound (run move (EmsPortal.init sampleIface) loginMoves) :=
  online_was_granted _ _ (by decide +kernel)

theorem refused_login_confirmed : ¬∀ iface moves, FlagSound (run move (EmsPortal.init iface) moves) := by
  intro sound
  have flagged := sound sampleIface (requestMoves ++ [sampleAnswer 1, sampleMsg tyAffAckAuth])
  exact absurd flagged (by decide +kernel)

def TimersLive : Prop := ∀ id ∈ ptl.timers, ∃ user ∈ ptl.users, user.id = id

instance (ptl : EmsPortal) : Decidable (TimersLive ptl) :=
  inferInstanceAs (Decidable (∀ id ∈ ptl.timers, ∃ user ∈ ptl.users, user.id = id))

def StopsIdle : Prop :=
  match m with
  | .act (.stop _) => ptl.run = true → ptl.timers = []
  | .act (.rulesUpdate _) => ptl.run = true → ptl.configured = false → ptl.timers = []
  | _ => True

instance (ptl : EmsPortal) (m : Move) : Decidable (StopsIdle ptl m) := by
  rw [StopsIdle.eq_def]
  split <;> infer_instance

theorem effect_timers (ptl next : EmsPortal) (live : TimersLive ptl) (effect : Effect anything ptl next) : TimersLive next := by
  intro key pending
  cases effect with
  | other next same =>
    rw [same.users]
    rw [same.timers] at pending
    exact live key pending
  | sent msg => exact live key pending
  | online id => exact live key pending
  | edit id change ids marks => exact edit_listed ptl id key _ ids (live key pending)
  | arm id listed =>
    rcases List.mem_cons.mp pending with same | old
    · rw [same]
      exact listed
    · exact live key (List.mem_filter.mp old).1
  | cancel id => exact live key (List.mem_filter.mp pending).1
  | append user offline fresh seated =>
    obtain ⟨owner, member, same⟩ := live key pending
    exact ⟨owner, List.mem_append_left _ member, same⟩
  | remove user listed expired idle =>
    obtain ⟨owner, member, same⟩ := live key pending
    refine ⟨owner, ?_, same⟩
    apply List.mem_filter.mpr
    refine ⟨member, ?_⟩
    have apart : owner.id ≠ user.id := by
      intro mine
      rw [← mine, same] at idle
      exact idle pending
    simpa using apart

theorem stops_timers (stops : Stops ptl m) (idle : StopsIdle ptl m) : ptl.timers = [] := by
  cases stops with
  | stop env running => exact idle running
  | restart env running changed => exact idle running changed

theorem move_timers (good : Shape ptl ∧ TimersLive ptl) (idle : StopsIdle ptl m) :
    Shape (move ptl m) ∧ TimersLive (move ptl m) := by
  refine ⟨move_shape ptl m good.1, ?_⟩
  rcases move_effects _ ptl m good.1 (allows_anything ptl m) with effects | ⟨stops, env, effects⟩
  · exact effects_keep _ _ effect_timers ptl _ good.2 effects
  · have stopped : TimersLive (ptlStop env ptl) := by
      intro key pending
      rw [(stop_cleared env ptl good.1.unique).timers, stops_timers ptl m stops idle] at pending
      cases pending
    exact effects_keep _ _ effect_timers _ _ stopped effects

theorem timers_live (iface : Iface) (moves : List Move) (steps : AllSteps move StopsIdle (EmsPortal.init iface) moves) :
    TimersLive (run move (EmsPortal.init iface) moves) := by
  have start : Shape _ ∧ TimersLive (EmsPortal.init iface) := ⟨init_shape iface, fun _ absent => nomatch absent⟩
  exact (run_keeps move _ _ _ _ start
    move_timers steps).2

theorem timers_live_login : TimersLive (run move (EmsPortal.init sampleIface) logoutMoves) :=
  timers_live _ _ (by decide +kernel)

def abandonMoves : List Move := [.act (.start sampleEnv), sampleMsg tyReqChallenge, .act (.stop sampleEnv)]

theorem stop_leaves_timer : ¬∀ iface moves, TimersLive (run move (EmsPortal.init iface) moves) := by
  intro live
  have dangling : ¬TimersLive (run move (EmsPortal.init sampleIface) abandonMoves) := by decide +kernel
  exact dangling (live _ _)

instance announcedDecidable : ∀ log, Decidable (Announced log)
  | [] => isTrue announced_nil
  | entry :: rest =>
    have _ := announcedDecidable rest
    have _ : Decidable (∀ user, entry = .removed user → user.online = true → announced user rest = true) :=
      match entry with
      | .removed user => decidable_of_iff (user.online = true → announced user rest = true) (by simp)
      | .sent _ => isTrue (fun _ same => nomatch same)
      | .online _ => isTrue (fun _ same => nomatch same)
    decidable_of_iff _ (announced_cons entry rest).symm

def Seen : Prop := user.online = true → user.st = .affAckAuth ∨ user.st = .ackAuth

def SparesOnline : Prop :=
  match m with
  | .message _ _ (.event auth _) => auth.ty = tyReqChallenge → ∀ user ∈ ptlUserFind ptl (inetNtoa auth.ip), user.online = false
  | _ => True

instance (ptl : EmsPortal) (m : Move) : Decidable (SparesOnline ptl m) := by
  rw [SparesOnline.eq_def]
  split <;> infer_instance

theorem seen_offline (off : user.online = false) : Seen user := by
  intro on
  rw [off] at on
  cases on

theorem seen_calm (user next : User) (online : next.online = user.online) (st : next.st = user.st)
    (_ : next.granted = user.granted) (seen : Seen user) : Seen next := by
  intro on
  rw [st]
  exact seen (online ▸ on)

theorem spares_allows (spares : SparesOnline ptl m) : Allows (Keeps Seen) ptl m := by
  refine ⟨?_, ?_, ?_⟩
  · intro env cb auth attr same
    subst same
    refine ⟨?_, ?_⟩
    · intro challenge user found _
      exact seen_offline _ (spares challenge user found)
    · intro _ user _ _ _ _
      exact .inl rfl
  · intro userip errorCode user _ _
    refine ⟨fun seen => seen, ?_⟩
    intro _ _ _
    exact .inr rfl
  · intro userip user _ _ _ seen
    exact seen

def Tells : Prop := Users Seen ptl ∧ Announced ptl.log

theorem effect_tells (ptl next : EmsPortal) (tells : Tells ptl) (effect : Effect (Keeps Seen) ptl next) : Tells next := by
  obtain ⟨users, log⟩ := tells
  refine ⟨effect_users Seen seen_offline seen_calm ptl next users effect, ?_⟩
  cases effect with
  | other next same =>
    rw [same.log]
    exact log
  | sent msg => exact announced_sent msg _ log
  | online id => exact announced_other _ _ (fun _ same => nomatch same) log
  | edit id change ids marks => exact log
  | arm id listed => exact log
  | cancel id => exact log
  | append user offline fresh seated => exact log
  | remove user listed expired idle =>
    apply announced_remove ptl _ log
    intro other member same on
    rw [users.1.unique _ member user listed same] at on
    have seen := users.2 user listed on
    rcases expired with ⟨_, off⟩ | ended
    · rw [off] at on
      cases on
    · rcases seen with st | st <;> simp [st] at ended

theorem move_tells (tells : Tells ptl) (spares : SparesOnline ptl m) : Tells (move ptl m) := by
  rcases move_effects _ ptl m tells.1.1 (spares_allows ptl m spares) with effects | ⟨_, env, effects⟩
  · exact effects_keep _ _ effect_tells ptl _ tells effects
  · have cleared := stop_cleared env ptl tells.1.1.unique
    have stopped : Tells _ :=
      ⟨⟨stop_shape env ptl tells.1.1, fun user member => tells.1.2 user (cleared.users user member)⟩,
        cleared.log tells.2⟩
    exact effects_keep _ _ effect_tells _ _ stopped effects

theorem online_users_announced (iface : Iface) (moves : List Move)
    (steps : AllSteps move SparesOnline (EmsPortal.init iface) moves) :
    Announced (run move (EmsPortal.init iface) moves).log := by
  have start : Tells _ := ⟨⟨init_shape iface, fun _ absent => nomatch absent⟩, announced_nil⟩
  exact (run_keeps move _ _ _ _ start move_tells steps).2

theorem online_users_announced_stop : Announced (run move (EmsPortal.init sampleIface) logoutMoves).log :=
  online_users_announced _ _ (by decide +kernel)

def challengeMoves : List Move :=
  loginMoves ++ [sampleMsg tyReqChallenge, .act (.userTimeout 0), .act (.userTimeout 0), .act (.userTimeout 0)]

theorem challenge_forgets_online : ¬∀ iface moves, Announced (run move (EmsPortal.init iface) moves).log := by
  intro told
  have silent : ¬Announced (run move (EmsPortal.init sampleIface) challengeMoves).log := by decide +kernel
  exact silent (told _ _)

end Codec.Portal
