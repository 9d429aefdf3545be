import Codec.Portal.RequestSpec

set_option autoImplicit false

namespace Codec.Portal

open Codec.Ems

def announced (user : User) : List Entry → Bool
  | [] => false
  | .online id :: rest => id ≠ user.id && announced user rest
  | .sent (.radiusLogout username userip usermac) :: rest =>
    username = user.name ∧ userip = user.ip ∧ some usermac = ptlMacToRadius user.mac || announced user rest
  | _ :: rest => announced user rest

def Announced (log : List Entry) : Prop :=
  ∀ later user earlier, log = later ++ .removed user :: earlier → user.online = true → announced user earlier = true

theorem announced_cons (entry : Entry) (log : List Entry) : Announced (entry :: log) ↔
      (∀ user, entry = .removed user → user.online = true → announced user log = true) ∧ Announced log := by
  constructor
  · intro all
    refine ⟨?_, ?_⟩
    · intro user same on
      exact all [] user log (by rw [same]; rfl) on
    · intro later user earlier split on
      exact all (entry :: later) user _ (by rw [split]; rfl) on
  · intro ⟨head, rest⟩ later user earlier split on
    cases later with
    | nil =>
      obtain ⟨same, tail⟩ := List.cons.inj split
      rw [← tail]
      exact head user same on
    | cons first more => exact rest more user _ (List.cons.inj split).2 on

theorem announced_nil : Announced [] := by
  intro later user earlier split
  cases later <;> cases split

theorem announced_other (entry : Entry) (log : List Entry) (kept : ∀ user, entry ≠ .removed user) (old : Announced log) :
    Announced (entry :: log) :=
  (announced_cons _ log).mpr ⟨fun user same => absurd same (kept user), old⟩

theorem announced_sent (msg : Sent) (log : List Entry) (old : Announced log) : Announced (.sent msg :: log) :=
  announced_other _ log (fun _ same => nomatch same) old

theorem announced_removed (users : List User) (user : User) (log : List Entry) (told : announced user log = true) :
    announced user (users.map .removed ++ log) = true := by
  induction users with
  | nil => exact told
  | cons first rest ih => exact ih

theorem announced_append (users : List User) (log : List Entry) (old : Announced log)
    (told : ∀ user ∈ users, user.online = true → announced user log = true) : Announced (users.map .removed ++ log) := by
  induction users with
  | nil => exact old
  | cons first rest ih =>
    apply (announced_cons _ _).mpr
    refine ⟨?_, ih fun user member => told user (List.mem_cons_of_mem _ member)⟩
    intro user same on
    cases same
    exact announced_removed rest _ log (told _ List.mem_cons_self on)

theorem announced_remove (ptl : EmsPortal) (id : Nat) (old : Announced ptl.log)
    (told : ∀ user ∈ ptl.users, user.id = id → user.online = true → announced user ptl.log = true) :
    Announced (ptl.remove id).log := by
  apply announced_append _ _ old
  intro user member
  obtain ⟨listed, same⟩ := List.mem_filter.mp member
  exact told user listed (by simpa using same)

structure Cleared (ptl next : EmsPortal) : Prop where
  users : ∀ user ∈ next.users, user ∈ ptl.users
  timers : next.timers = ptl.timers
  nextId : next.nextId = ptl.nextId
  empty : next.fault = none → next.users = []
  log : Announced ptl.log → Announced next.log

theorem logout_announced (ptl : EmsPortal) (user : User) (mac : Str) (known : ptlMacToRadius user.mac = some mac) :
    announced user (ptl.emit (.radiusLogout user.name user.ip mac)).log = true := by
  simp [EmsPortal.emit, announced, known]

theorem clear_all_users (list : List User) (ptl : EmsPortal)
    (unique : ∀ first ∈ list, ∀ second ∈ list, first.id = second.id → first = second)
    (among : ∀ user ∈ ptl.users, user ∈ list) : Cleared ptl (ptlClearAllUsers list ptl) := by
  induction list generalizing ptl with
  | nil =>
    refine ⟨fun _ member => member, rfl, rfl, ?_, id⟩
    intro _
    exact List.eq_nil_iff_forall_not_mem.mpr fun user member => by cases among user member
  | cons user rest ih =>
    have next (told : EmsPortal) (users : told.users = ptl.users) (timers : told.timers = ptl.timers)
        (nextId : told.nextId = ptl.nextId)
        (log : Announced ptl.log → Announced (told.remove user.id).log) :
        Cleared ptl (ptlClearAllUsers rest (told.remove user.id)) := by
      have fewer : ∀ other ∈ (told.remove user.id).users, other ∈ ptl.users ∧ other.id ≠ user.id := by
        intro other member
        obtain ⟨listed, apart⟩ := List.mem_filter.mp member
        rw [users] at listed
        exact ⟨listed, by simpa using apart⟩
      have cleared := ih _
        (fun first left second right => unique _ (List.mem_cons_of_mem user left) _
          (List.mem_cons_of_mem user right))
        (by
          intro other member
          obtain ⟨listed, apart⟩ := fewer _ member
          rcases List.mem_cons.mp (among _ listed) with same | later
          · exact absurd (congrArg _ same) apart
          · exact later)
      refine ⟨?_, cleared.timers.trans timers, cleared.nextId.trans nextId, cleared.empty, ?_⟩
      · intro other member
        exact (fewer _ (cleared.users _ member)).1
      · intro old
        exact cleared.log (log old)
    have alone : ∀ other ∈ ptl.users, other.id = user.id → other = user := fun other listed same =>
      unique _ (among _ listed) user List.mem_cons_self same
    rw [ptlClearAllUsers]
    by_cases on : user.online = true
    · rw [if_pos on, EmsPortal.sendLogout]
      cases known : ptlMacToRadius _ with
      | none =>
        rw [and_then_some _ _ (by simp [EmsPortal.crash])]
        exact ⟨fun _ member => member, rfl, rfl, (by rintro ⟨⟩), id⟩
      | some mac =>
        by_cases alive : ptl.fault = none
        · rw [and_then_none _ _ (by exact alive)]
          apply next (ptl.emit _) rfl rfl rfl
          intro old
          apply announced_remove _ _ (announced_sent _ _ old)
          intro other listed same _
          rw [alone _ listed same]
          exact logout_announced ptl user mac known
        · rw [and_then_some _ _ (by exact alive)]
          exact ⟨fun _ member => member, rfl, rfl, fun absent => absurd absent alive, announced_sent _ _⟩
    · rw [if_neg on]
      apply next ptl rfl rfl rfl
      intro old
      apply announced_remove _ _ old
      intro other listed same flagged
      rw [alone _ listed same] at flagged
      exact absurd flagged on

theorem stop_cleared (env : Env) (ptl : EmsPortal) (unique : OneEach ptl) : Cleared ptl (ptlStop env ptl) := by
  rw [ptlStop, portalStopped]
  let down : EmsPortal := { ptl.emit (.fwAddressDel ptl.addr) with st := .stopped, sess := none, lasterr := errStopped }
  cases env.fwRun with
  | false =>
    have cleared := clear_all_users _ down unique fun _ member => member
    exact ⟨cleared.users, cleared.timers, cleared.nextId, cleared.empty, fun old => cleared.log (announced_sent _ _ old)⟩
  | true =>
    have cleared := clear_all_users _ (down.emit .fwStop) unique fun _ member => member
    exact ⟨cleared.users, cleared.timers, cleared.nextId, cleared.empty, fun old =>
      cleared.log (announced_sent _ _ (announced_sent _ _ old))⟩

end Codec.Portal
