import Codec.Portal.Module

set_option autoImplicit false

namespace Codec.Portal

open Relation

structure Same (ptl next : EmsPortal) : Prop where
  users : next.users = ptl.users
  timers : next.timers = ptl.timers
  log : next.log = ptl.log
  nextId : next.nextId = ptl.nextId
  sess : next.sess = none → ptl.sess = none
  fault : next.fault = none → ptl.fault = none

def Calm (user next : User) : Prop :=
  next.online = false ∨ next.online = user.online ∧ next.st = user.st ∧ next.granted = user.granted

def Expired (user : User) : Prop :=
  user.st = .ackAuth ∧ user.online = false ∨ user.st = .ntfLogout ∨ user.st = .ackLogout ∨ user.st = .ackChallenge

-- Everything a handler does to the users, one small effect after the other.
-- `special` are the changes of a user that matter to some invariant.
inductive Effect (special : User → User → Prop) (ptl : EmsPortal) : EmsPortal → Prop where
  | other (next : EmsPortal) (same : Same ptl next) : Effect special ptl next
  | sent (msg : Sent) : Effect special ptl (ptl.emit msg)
  | online (id : Nat) : Effect special ptl { ptl with log := .online id :: ptl.log }
  | edit (id : Nat) (change : User → User) (ids : ∀ user, (change user).id = user.id)
      (marks : ∀ user ∈ ptl.users, user.id = id → Calm user (change user) ∨ special user (change user)) :
      Effect special ptl (ptl.edit id change)
  | arm (id : Nat) (listed : ∃ user ∈ ptl.users, user.id = id) : Effect special ptl (ptl.arm id)
  | cancel (id : Nat) : Effect special ptl (ptl.cancel id)
  | append (user : User) (offline : user.online = false) (fresh : user.id = ptl.nextId) (seated : ptl.sess.isSome) :
      Effect special ptl (ptl.append user)
  | remove (user : User) (listed : user ∈ ptl.users) (expired : Expired user) (idle : user.id ∉ ptl.timers) :
      Effect special ptl (ptl.remove user.id)

def Effects (special : User → User → Prop) : EmsPortal → EmsPortal → Prop := ReflTransGen (Effect special)

section Compose

variable (special : User → User → Prop)

variable (ptl : EmsPortal)

theorem effects_refl : Effects special ptl ptl := .refl

theorem effects_one (ptl next : EmsPortal) (effect : Effect special ptl next) : Effects special ptl next := .single effect

theorem effects_trans (first second third : EmsPortal) (left : Effects special first second)
    (right : Effects special second third) : Effects special first third := ReflTransGen.trans left right

theorem effects_and_then (ptl middle : EmsPortal) (next : EmsPortal → EmsPortal) (left : Effects special ptl middle)
    (right : middle.fault = none → Effects special middle (next middle)) : Effects special ptl (middle.andThen next) := by
  by_cases alive : middle.fault = none
  · rw [and_then_none _ next alive]
    exact effects_trans _ ptl _ _ left (right alive)
  · rw [and_then_some _ next alive]
    exact left

theorem effects_other (ptl next : EmsPortal) (same : Same ptl next) : Effects special ptl next :=
  effects_one _ ptl next (.other next same)

theorem effects_sent (msg : Sent) : Effects special ptl (ptl.emit msg) := effects_one _ ptl _ (.sent msg)

theorem effects_crash (why : Fault) : Effects special ptl (ptl.crash why) :=
  effects_other _ ptl _ ⟨rfl, rfl, rfl, rfl, id, fun absent => nomatch absent⟩

theorem effects_edit_sess (change : Session → Session) : Effects special ptl (ptl.editSess change) :=
  effects_other _ ptl _ ⟨rfl, rfl, rfl, rfl, fun absent => Option.map_eq_none_iff.mp absent, id⟩

theorem effects_with_sess (sess : Session) : Effects special ptl (ptl.withSess sess) :=
  effects_other _ ptl _ ⟨rfl, rfl, rfl, rfl, (fun absent => nomatch absent), id⟩

theorem effects_calm (id : Nat) (change : User → User) (ids : ∀ user, (change user).id = user.id)
    (calm : ∀ user, Calm user (change user)) : Effects special ptl (ptl.edit id change) :=
  effects_one _ ptl _ (.edit id _ ids fun user _ _ => .inl (calm user))

theorem effects_special (id : Nat) (change : User → User) (ids : ∀ user, (change user).id = user.id)
    (marks : ∀ user ∈ ptl.users, user.id = id → special user (change user)) : Effects special ptl (ptl.edit id change) :=
  effects_one _ ptl _ (.edit id _ ids fun user listed same => .inr (marks user listed same))

theorem calm_same (user next : User) (online : next.online = user.online) (st : next.st = user.st)
    (granted : next.granted = user.granted) : Calm user next := .inr ⟨online, st, granted⟩

end Compose

variable (ptl : EmsPortal)

theorem edit_listed (id key : Nat) (change : User → User) (ids : ∀ user, (change user).id = user.id)
    (listed : ∃ user ∈ ptl.users, user.id = key) : ∃ user ∈ (ptl.edit id change).users, user.id = key := by
  obtain ⟨user, member, same⟩ := listed
  refine ⟨if user.id = id then change user else user, List.mem_map_of_mem member, ?_⟩
  split
  · rw [ids, same]
  · exact same

theorem ack_nobody (sess : Session) (auth : AuthHdr) (attr : List ValuePair) (same : ptl.sess = some sess) :
    ptlEvtAck ptl none auth attr = ptl.withSess { sess with bufOut := ackBuf sess.bufOut auth attr } := by
  simp only [ptlEvtAck, same]

theorem ack_user (sess : Session) (id : Nat) (auth : AuthHdr) (attr : List ValuePair) (same : ptl.sess = some sess) :
    ptlEvtAck ptl (some id) auth attr = ((ptl.withSess { sess with bufOut := ackBuf sess.bufOut auth attr }).edit id fun user =>
        user.resend ((ackBuf sess.bufOut auth attr).content.drop sess.bufOut.len)).arm id := by
  simp only [ptlEvtAck, same]

section Users

variable (special : User → User → Prop)

variable (ptl : EmsPortal) (user : User)

theorem effects_ack (user : Option Nat) (auth : AuthHdr) (attr : List ValuePair)
    (seated : ptl.sess.isSome) (listed : ∀ id, user = some id → ∃ owner ∈ ptl.users, owner.id = id) :
    Effects special ptl (ptlEvtAck ptl user auth attr) := by
  obtain ⟨sess, same⟩ := Option.isSome_iff_exists.mp seated
  cases user with
  | none =>
    rw [ack_nobody ptl sess auth attr same]
    exact effects_with_sess _ ptl _
  | some id =>
    rw [ack_user ptl sess id auth attr same]
    let written := ptl.withSess { sess with bufOut := ackBuf sess.bufOut auth attr }
    let change : User → User := fun user => user.resend ((ackBuf sess.bufOut auth attr).content.drop sess.bufOut.len)
    have write : Effects _ ptl written := effects_with_sess special ptl _
    have resend : Effects _ _ _ :=
      effects_calm special written id change (fun _ => rfl) fun user => calm_same user _ rfl rfl rfl
    have owner : ∃ owner ∈ (written.edit id _).users, owner.id = id := edit_listed _ id id change (fun _ => rfl) (listed id rfl)
    have arm : Effects _ _ _ := effects_one special _ _ (.arm id owner)
    exact effects_trans _ _ _ _ write (effects_trans _ _ _ _ resend arm)

theorem effects_offline (id : Nat) (st : UserStatus) : Effects special ptl (ptl.edit id (·.offline st)) :=
  effects_calm _ ptl id _ (fun _ => rfl) fun _ => .inl rfl

theorem effects_ntf_logout (seated : ptl.sess.isSome)
    (listed : ∃ owner ∈ ptl.users, owner.id = user.id) : Effects special ptl (ptlUserNtfLogout ptl user) := by
  rw [ptlUserNtfLogout]
  split
  · apply effects_trans _ _ _ _ (effects_offline _ ptl _ _)
    apply effects_ack _
    · exact seated
    · intro id same
      cases same
      exact edit_listed ptl _ _ _ (fun _ => rfl) listed
  · exact effects_refl _ ptl

theorem effects_logout : Effects special ptl (ptl.sendLogout user) := by
  rw [EmsPortal.sendLogout]
  cases ptlMacToRadius _ with
  | none => exact effects_crash _ ptl _
  | some mac => exact effects_sent _ ptl _

@[simp] theorem send_logout_users : (ptl.sendLogout user).users = ptl.users := by
  rw [EmsPortal.sendLogout]
  split <;> rfl

@[simp] theorem send_logout_sess : (ptl.sendLogout user).sess = ptl.sess := by
  rw [EmsPortal.sendLogout]
  split <;> rfl

theorem effects_goes_online : Effects special ptl (ptl.goesOnline user) := by
  rw [EmsPortal.goesOnline]
  split
  · exact effects_refl _ ptl
  · exact effects_one _ ptl _ (.online _)

@[simp] theorem goes_online_users : (ptl.goesOnline user).users = ptl.users := by
  rw [EmsPortal.goesOnline]
  split <;> rfl

@[simp] theorem goes_online_sess : (ptl.goesOnline user).sess = ptl.sess := by
  rw [EmsPortal.goesOnline]
  split <;> rfl

theorem effects_retry (listed : ∃ owner ∈ ptl.users, owner.id = user.id) : Effects special ptl (userRetry ptl user) := by
  rw [userRetry]
  cases ptl.sess with
  | none => exact effects_crash _ ptl _
  | some sess =>
    apply effects_trans _ _ _ _ (effects_with_sess _ ptl _)
    exact effects_one _ _ _ (.arm _ listed)

theorem effects_give_up (user current : User) (listed : current ∈ ptl.users)
    (same : current.id = user.id) (st : current.st = user.st) (online : current.online = user.online)
    (idle : user.id ∉ ptl.timers) (seated : ptl.sess.isSome) : Effects special ptl (userGiveUp ptl user) := by
  have remove : Expired current → Effects special ptl (ptl.remove user.id) := by
    intro expired
    rw [← same] at idle ⊢
    exact effects_one _ _ _ (.remove _ listed expired idle)
  rw [userGiveUp]
  cases status : user.st with
  | ackAuth =>
    by_cases on : user.online = true
    · rw [if_pos on]
      apply effects_and_then _ _ _ _ (effects_logout _ ptl user)
      intro _
      apply effects_ntf_logout _
      · rw [send_logout_sess]
        exact seated
      · rw [send_logout_users]
        exact ⟨current, listed, same⟩
    · rw [if_neg on]
      apply remove
      left
      rw [st, status, online]
      exact ⟨rfl, by simpa using on⟩
  | ntfLogout => exact remove (by rw [Expired, st, status]; simp)
  | ackLogout => exact remove (by rw [Expired, st, status]; simp)
  | ackChallenge => exact remove (by rw [Expired, st, status]; simp)
  | normal => exact effects_refl _ ptl
  | reqChallenge => exact effects_refl _ ptl
  | reqAuth => exact effects_refl _ ptl
  | reqLogout => exact effects_refl _ ptl
  | affAckAuth => exact effects_refl _ ptl

theorem effects_user_timeout (id : Nat) (seated : ptl.users ≠ [] → ptl.sess.isSome) :
    Effects special ptl (userTimeout ptl id) := by
  rw [userTimeout]
  by_cases pending : id ∈ ptl.timers
  · rw [if_pos pending]
    have cancel : Effects _ ptl _ := effects_one special _ _ (.cancel id)
    cases found : ptl.users.find? _ with
    | none => exact effects_trans _ _ _ _ cancel (effects_crash _ _ _)
    | some user =>
      have listed : user ∈ ptl.users := List.mem_of_find?_eq_some found
      have same : user.id = id := by simpa using List.find?_some found
      have sess := seated (List.ne_nil_of_mem listed)
      let less : User → User := fun user => { user with retryTimes := user.retryTimes - 1 }
      have current : less user ∈ ((ptl.cancel id).edit _ less).users := List.mem_map.mpr ⟨user, listed, if_pos rfl⟩
      have counted : Effects _ _ ((ptl.cancel id).edit _ less) :=
        effects_calm special _ user.id less (fun _ => rfl) fun user => calm_same user _ rfl rfl rfl
      apply effects_trans _ _ _ _ cancel
      apply effects_trans _ _ _ _ counted
      simp only [userTimeoutCb]
      split
      · exact effects_retry _ _ user ⟨less user, current, rfl⟩
      · apply effects_give_up _ _ user _ current rfl rfl rfl
        · rw [same]
          simp [EmsPortal.edit, EmsPortal.cancel]
        · exact sess
  · rw [if_neg pending]
    exact effects_refl _ ptl

end Users

end Codec.Portal
