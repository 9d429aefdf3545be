import Codec.Portal.MoveSpec

set_option autoImplicit false

namespace Codec.Portal

open Codec.Ems

section Keep

variable (special : User → User → Prop)

theorem effects_keep (keeps : EmsPortal → Prop)
    (preserved : ∀ ptl next, keeps ptl → Effect special ptl next → keeps next) (ptl next : EmsPortal) (holds : keeps ptl)
    (effects : Effects special ptl next) : keeps next := by
  induction effects with
  | refl => exact holds
  | tail _ effect ih => exact preserved _ _ ih effect

theorem shape_edit (ptl : EmsPortal) (id : Nat) (change : User → User) (ids : ∀ user, (change user).id = user.id)
    (shape : Shape ptl) : Shape (ptl.edit id change) := by
  have kept (old : User) : (if old.id = id then change old else old).id = old.id := by
    split
    · exact ids old
    · rfl
  refine ⟨?_, ?_, ?_⟩
  · intro first left second right same
    obtain ⟨one, there, rfl⟩ := edited ptl id _ _ left
    obtain ⟨other, here, rfl⟩ := edited ptl id _ _ right
    rw [kept, kept] at same
    rw [shape.unique one there _ here same]
  · intro user member
    obtain ⟨old, there, rfl⟩ := edited ptl id _ user member
    rw [kept]
    exact shape.ids old there
  · intro alive some
    apply shape.seated alive
    intro empty
    exact some (by rw [EmsPortal.edit, empty]; rfl)

theorem shape_subset (ptl next : EmsPortal) (users : ∀ user ∈ next.users, user ∈ ptl.users)
    (nextId : next.nextId = ptl.nextId) (seated : next.fault = none → next.users ≠ [] → next.sess.isSome)
    (shape : Shape ptl) : Shape next := by
  refine ⟨?_, ?_, seated⟩
  · intro first left second right
    exact shape.unique _ (users _ left) _ (users _ right)
  · intro user member
    rw [nextId]
    exact shape.ids user (users user member)

theorem effect_shape (ptl next : EmsPortal) (shape : Shape ptl) (effect : Effect special ptl next) : Shape next := by
  cases effect with
  | other next same =>
    apply shape_subset ptl next (fun user member => by rw [same.users] at member; exact member) same.nextId _ shape
    intro alive some
    have seated := shape.seated (same.fault alive) (by rw [← same.users]; exact some)
    rw [Option.isSome_iff_ne_none] at seated ⊢
    exact fun absent => seated (same.sess absent)
  | sent msg => exact { shape with }
  | online id => exact { shape with }
  | edit id change ids marks => exact shape_edit ptl id _ ids shape
  | arm id listed => exact { shape with }
  | cancel id => exact { shape with }
  | append user offline fresh seated =>
    have known : ∀ old ∈ ptl.users, old.id ≠ user.id := by
      intro old member same
      have below := shape.ids old member
      rw [same, fresh] at below
      exact Nat.lt_irrefl _ below
    refine ⟨?_, ?_, fun _ _ => seated⟩
    · intro first left second right same
      rcases List.mem_append.mp left with old | new
      · rcases List.mem_append.mp right with other | last
        · exact shape.unique _ old _ other same
        · rw [List.mem_singleton.mp last] at same
          exact absurd same (known _ old)
      · rcases List.mem_append.mp right with other | last
        · rw [List.mem_singleton.mp new] at same
          exact absurd same.symm (known _ other)
        · rw [List.mem_singleton.mp new, List.mem_singleton.mp last]
    · intro old member
      rcases List.mem_append.mp member with there | new
      · exact Nat.lt_succ_of_lt (shape.ids old there)
      · rw [List.mem_singleton.mp new, fresh]
        exact Nat.lt_succ_self _
  | remove user listed expired idle =>
    apply shape_subset ptl (ptl.remove _) (fun other member => (List.mem_filter.mp member).1) rfl _ shape
    intro alive _
    exact shape.seated alive (List.ne_nil_of_mem listed)

end Keep

theorem stop_shape (env : Env) (ptl : EmsPortal) (shape : Shape ptl) : Shape (ptlStop env ptl) := by
  have cleared := stop_cleared env ptl shape.unique
  apply shape_subset ptl _ cleared.users cleared.nextId _ shape
  intro alive some
  exact absurd (cleared.empty alive) some

def anything (_ _ : User) : Prop := True

variable (ptl : EmsPortal)

theorem allows_anything (m : Move) : Allows anything ptl m :=
  ⟨fun _ _ _ _ _ => ⟨fun _ _ _ => trivial, fun _ _ _ _ => trivial⟩, fun _ _ _ _ _ => ⟨trivial, fun _ => trivial⟩,
    fun _ _ _ _ _ => trivial⟩

theorem move_shape (m : Move) (shape : Shape ptl) : Shape (move ptl m) := by
  rcases move_effects _ ptl m shape (allows_anything ptl m) with effects | ⟨_, env, effects⟩
  · exact effects_keep _ _ (effect_shape _) ptl _ shape effects
  · exact effects_keep _ _ (effect_shape _) _ _ (stop_shape env ptl shape) effects

theorem init_shape (iface : Iface) : Shape (EmsPortal.init iface) :=
  ⟨(fun _ absent => nomatch absent), (fun _ absent => nomatch absent), fun _ some => absurd rfl some⟩

section Users

variable (good : User → Prop) (offline : ∀ user, user.online = false → good user)
  (calm : ∀ user next : User, next.online = user.online → next.st = user.st → next.granted = user.granted →
    good user → good next)

def Keeps (user next : User) : Prop := good user → good next

def Users (ptl : EmsPortal) : Prop := Shape ptl ∧ ∀ user ∈ ptl.users, good user

include offline calm

theorem effect_users (ptl next : EmsPortal) (users : Users good ptl) (effect : Effect (Keeps good) ptl next) :
    Users good next := by
  refine ⟨effect_shape _ ptl next users.1 effect, ?_⟩
  obtain ⟨_, each⟩ := users
  cases effect with
  | other next same =>
    rw [same.users]
    exact each
  | sent msg => exact each
  | online id => exact each
  | edit id change ids marks =>
    intro user member
    obtain ⟨old, listed, rfl⟩ := edited ptl id _ user member
    by_cases mine : old.id = id
    · rw [if_pos mine]
      rcases marks old listed mine with (off | ⟨online, st, granted⟩) | keeps
      · exact offline _ off
      · exact calm old _ online st granted (each old listed)
      · exact keeps (each old listed)
    · rw [if_neg mine]
      exact each old listed
  | arm id listed => exact each
  | cancel id => exact each
  | append user off fresh seated =>
    intro other member
    rcases List.mem_append.mp member with old | new
    · exact each _ old
    · rw [List.mem_singleton.mp new]
      exact offline user off
  | remove user listed expired idle =>
    intro other member
    exact each _ (List.mem_filter.mp member).1

theorem move_users (ptl : EmsPortal) (m : Move) (users : Users good ptl) (allows : Allows (Keeps good) ptl m) :
    Users good (move ptl m) := by
  rcases move_effects _ ptl m users.1 allows with effects | ⟨_, env, effects⟩
  · exact effects_keep _ _ (effect_users good offline calm) ptl _ users effects
  · have cleared := stop_cleared env ptl users.1.unique
    have stopped : Users good _ := ⟨stop_shape env ptl users.1, fun user member => users.2 user (cleared.users user member)⟩
    exact effects_keep _ _ (effect_users good offline calm) _ _ stopped effects

end Users

section Receive

variable (env : Env) (cb : RecvCb) (keeps : EmsPortal → Prop)
  (handled : ∀ ptl msg, keeps ptl → keeps (ptlHandle env cb ptl msg))
  (stored : ∀ ptl opened bufIn, keeps ptl → keeps (EmsPortal.setSocket ptl opened bufIn))

variable (line : Line EmsPortal) (ptl : EmsPortal)

include handled in
theorem deliver_keeps (msg : Msg) (total : Nat) (kept : keeps line.app) : keeps (line.deliver (ptlHandle env cb) msg total).app :=
  handled line.app msg kept

include handled in
theorem process_keeps (kept : keeps line.app) : keeps (ptlProcessRsp (ptlHandle env cb) line).2.app := by
  rw [ptlProcessRsp]
  split
  · exact kept
  · split
    · split
      · exact kept
      · split
        · exact kept
        · exact kept
        · exact deliver_keeps env cb keeps handled line _ _ kept
    · split
      · exact kept
      · exact kept
      · split
        · exact kept
        · exact deliver_keeps env cb keeps handled line _ _ kept

include handled in
theorem drain_keeps (fuel : Nat) (line : Line EmsPortal) (kept : keeps line.app) :
    keeps (ptlDrain (ptlHandle env cb) fuel line).2.app := by
  induction fuel generalizing line with
  | zero => exact kept
  | succ fuel ih =>
    have first := process_keeps env cb keeps handled line kept
    rw [ptlDrain]
    cases processed : ptlProcessRsp (ptlHandle env cb) line with
    | mk ret next =>
      rw [processed] at first
      cases ret with
      | again => exact first
      | spin => exact first
      | ok => exact ih next first

include stored in
theorem filled_keeps (stream : List Recv) (res : ReadResult) (kept : keeps line.app) :
    keeps (line.filled EmsPortal.close stream res).app := by
  rw [Line.filled]
  split
  · exact kept
  · show keeps line.app.close
    rw [EmsPortal.close]
    cases line.app.sess with
    | none => exact kept
    | some sess => exact stored line.app false sess.bufIn kept

include handled stored

theorem recv_keeps (fuel : Nat) (line : Line EmsPortal) (stream : List Recv) (kept : keeps line.app) :
    keeps (ptlRecvLoop EmsPortal.isOpen EmsPortal.close (ptlHandle env cb) fuel line stream).2.app := by
  induction fuel generalizing line stream with
  | zero => exact kept
  | succ fuel ih =>
    let res := sockRead line.app.isOpen line.bufIn stream
    let read := line.filled EmsPortal.close stream res
    have filled : keeps _ := filled_keeps _ stored line stream res kept
    rw [ptlRecvLoop]
    split
    · split
      · exact filled
      · have last := process_keeps env cb _ handled read filled
        split
        · rename_i processed
          rw [processed] at last
          exact last
        · rename_i processed
          rw [processed] at last
          exact last
    · have drained := drain_keeps env cb _ handled (read.bufIn.len + 1) read filled
      split
      · rename_i stuck
        rw [stuck] at drained
        exact drained
      · rename_i done
        rw [done] at drained
        split
        · exact drained
        · exact ih _ _ drained

theorem receive_keeps (sess : Session) (stream : List Recv) (kept : keeps ptl)
    (failed : ∀ ptl, ptl.fault = none → keeps ptl → keeps (intoErr ptl errNetwork))
    (hung : ∀ ptl, ptl.fault = none → keeps ptl → keeps (ptl.crash .spinning)) : keeps (ptlReceive env cb ptl sess stream) := by
  have read := recv_keeps env cb _ handled stored (stream.length + 2) ⟨ptl, sess.bufIn, [], []⟩ stream kept
  have same : ptlRecvMsg _ _ _ _ _ =
      ptlRecvLoop EmsPortal.isOpen EmsPortal.close (ptlHandle env cb) _ ⟨ptl, sess.bufIn, [], []⟩ stream := rfl
  rw [ptlReceive, same]
  generalize ptlRecvLoop _ _ _ _
    _ _ = res at read
  have back := stored _ res.2.app.isOpen res.2.bufIn read
  by_cases alive : (res.2.app.setSocket res.2.app.isOpen res.2.bufIn).fault = none
  · rw [and_then_none _ _ alive]
    cases res.1 with
    | ok => exact back
    | err => exact failed _ alive back
    | spin => exact hung _ alive back
  · rw [and_then_some _ _ alive]
    exact back

end Receive

end Codec.Portal
