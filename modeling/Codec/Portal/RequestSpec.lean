import Codec.Portal.Effects

set_option autoImplicit false

namespace Codec.Portal

open Codec.Ems

def OneEach (ptl : EmsPortal) : Prop := ∀ first ∈ ptl.users, ∀ second ∈ ptl.users, first.id = second.id → first = second

variable (ptl : EmsPortal)

theorem found_listed (ip : Str) (user : User) (found : ptlUserFind ptl ip = some user) :
    user ∈ ptl.users := List.mem_of_find?_eq_some found

theorem edited (id : Nat) (change : User → User) (user : User) (member : user ∈ (ptl.edit id change).users) :
    ∃ old ∈ ptl.users, user = if old.id = id then change old else old := by
  obtain ⟨old, listed, same⟩ := List.mem_map.mp member
  exact ⟨old, listed, same.symm⟩

def Offline (ptl : EmsPortal) (id : Nat) : Prop := ∀ user ∈ ptl.users, user.id = id → user.online = false

theorem offline_edit (id : Nat) (change : User → User) (off : ∀ user, (change user).online = false) :
    Offline (ptl.edit id change) id := by
  intro user member same
  obtain ⟨old, _, rfl⟩ := edited ptl id _ user member
  by_cases there : old.id = id
  · rw [if_pos there, off]
  · rw [if_neg there] at same
    exact absurd same there

theorem offline_kept (id : Nat) (change : User → User)
    (keeps : ∀ user, (change user).online = user.online) (offline : Offline ptl id) : Offline (ptl.edit id change) id := by
  intro user member same
  obtain ⟨old, listed, rfl⟩ := edited ptl id _ user member
  by_cases there : old.id = id
  · rw [if_pos there, keeps]
    exact offline old listed there
  · rw [if_neg there] at same
    exact absurd same there

section Requests

variable (special : User → User → Prop)

variable (env : Env) (ptl : EmsPortal) (user : User) (auth : AuthHdr) (attr : List ValuePair)

theorem effects_refuse (err : UInt8) (seated : ptl.sess.isSome) : Effects special ptl (reqAuthRefuse ptl auth err) :=
  effects_ack _ ptl none _ _ seated fun _ absent => nomatch absent

theorem effects_await (id : Nat) (st : UserStatus) (offline : Offline ptl id) :
    Effects special ptl (ptl.edit id (·.await st)) :=
  effects_one _ _ _ (.edit id _ (fun _ => rfl) fun user member same => .inl (.inl (offline user member same)))

theorem effects_fail (id : Nat) (auth : AuthHdr) (seated : ptl.sess.isSome)
    (listed : ∃ user ∈ ptl.users, user.id = id) (offline : Offline ptl id) : Effects special ptl (reqAuthFail ptl id auth) := by
  apply effects_trans _ _ _ _ (effects_await _ ptl id _ offline)
  apply effects_ack _
  · exact seated
  · intro key same
    cases same
    exact edit_listed ptl id id _ (fun _ => rfl) listed

theorem effects_send (pass mac : Str) : Effects special ptl (reqAuthSend ptl user pass mac) := by
  have text : Effects _ ptl { ptl with macText := mac } := effects_other special ptl _ ⟨rfl, rfl, rfl, rfl, id, id⟩
  apply effects_trans _ _ _ _ text
  let change : User → User := fun user => { user with pass := some pass, mac := some mac }
  have named := effects_calm special { ptl with macText := mac } user.id change (fun _ => rfl)
    fun user => calm_same user _ rfl rfl rfl
  apply effects_trans _ _ _ _ named
  rw [reqAuthSend]
  cases ptlMacToRadius _ with
  | none => exact effects_crash _ _ _
  | some usermac => exact effects_sent _ _ _

theorem effects_req_auth_user (seated : ptl.sess.isSome) (listed : user ∈ ptl.users) :
    Effects special ptl (reqAuthUser env ptl user auth attr) := by
  have login : Effects _ ptl (ptl.edit _ (·.login auth)) := effects_calm special ptl user.id _ (fun _ => rfl) fun _ => .inl rfl
  have offline : Offline (ptl.edit _ (·.login auth)) _ := offline_edit ptl user.id _ fun _ => rfl
  have owner : ∃ owner ∈ (ptl.edit _ (·.login auth)).users, owner.id = user.id :=
    edit_listed ptl user.id _ _ (fun _ => rfl) ⟨user, listed, rfl⟩
  apply effects_trans _ _ _ _ login
  rw [reqAuthUser]
  have sess : (ptl.edit user.id (·.login auth)).sess.isSome := seated
  revert owner offline sess
  generalize ptl.edit _ _ = next
  intro offline owner sess
  cases reqAuthPass auth attr with
  | none => exact effects_fail _ next _ auth sess owner offline
  | some pass =>
    cases (ptlVpFind attr _).bind _ with
    | some val => exact effects_send _ next user pass _
    | none =>
      cases radiusMacToPtl _ with
      | none => exact effects_crash _ next _
      | some mac =>
        dsimp only
        by_cases empty : mac = []
        · rw [if_pos empty]
          let change : User → User := fun user => { user with pass := some pass }
          have text : Effects _ next { next with macText := [] } := effects_other special next _ ⟨rfl, rfl, rfl, rfl, id, id⟩
          have named := effects_calm special { next with macText := [] } user.id change (fun _ => rfl)
            fun user => calm_same user _ rfl rfl rfl
          apply effects_trans _ _ _ _ text
          apply effects_trans _ _ _ _ named
          apply effects_fail _
          · exact sess
          · exact edit_listed _ _ _ _ (fun _ => rfl) owner
          · exact offline_kept _ _ _ (fun _ => rfl) offline
        · rw [if_neg empty]
          exact effects_send _ next user pass mac

theorem effects_append (offline : user.online = false) (fresh : user.id = ptl.nextId)
    (seated : ptl.sess.isSome) : Effects special ptl (ptl.append user) :=
  effects_one _ _ _ (.append user offline fresh seated)

theorem appended : user ∈ (ptl.append user).users := List.mem_append_right _ List.mem_cons_self

theorem effects_req_auth (seated : ptl.sess.isSome) : Effects special ptl (ptlEvtReqAuth env ptl auth attr) := by
  rw [ptlEvtReqAuth]
  cases found : ptlUserFind ptl _ with
  | none =>
    cases ptlVpText attr _ with
    | none => exact effects_refuse _ ptl auth 1 seated
    | some name =>
      let user := ptlUserNew ptl.nextId name (inetNtoa auth.ip)
      apply effects_trans _ _ _ _ (effects_append _ ptl user rfl rfl seated)
      exact effects_req_auth_user _ env _ user auth attr seated (appended ptl user)
  | some user =>
    dsimp only
    split
    · let change : User → User := fun user => { user with serial := auth.serial }
      have serial := effects_calm special ptl user.id change (fun _ => rfl) fun user => calm_same user _ rfl rfl rfl
      exact effects_trans _ _ _ _ serial (effects_refuse _ _ auth 2 seated)
    · split
      · exact effects_refuse _ ptl auth 3 seated
      · split
        · exact effects_refuse _ ptl auth 4 seated
        · exact effects_req_auth_user _ env ptl user auth attr seated (found_listed ptl _ user found)

theorem effects_req_info (seated : ptl.sess.isSome) : Effects special ptl (ptlEvtReqInfo ptl auth) :=
  effects_ack _ ptl none _ _ seated fun _ absent => nomatch absent

theorem effects_req_logout (seated : ptl.sess.isSome) : Effects special ptl (ptlEvtReqLogout ptl auth) := by
  rw [ptlEvtReqLogout]
  cases found : ptlUserFind ptl _ with
  | none => exact effects_ack _ ptl none _ _ seated fun _ absent => nomatch absent
  | some user =>
    let change : User → User := fun user =>
      { user.offline .ackLogout with
        serial := (auth.answer tyAckLogout 0).serial
        reqid := (auth.answer tyAckLogout 0).reqid }
    have leave := effects_calm special ptl user.id change (fun _ => rfl) fun _ => .inl rfl
    have owner : ∃ owner ∈ (ptl.edit _ _).users, owner.id = user.id :=
      edit_listed ptl user.id _ change (fun _ => rfl) ⟨user, found_listed ptl _ user found, rfl⟩
    apply effects_trans _ _ _ _ leave
    apply effects_and_then _ _ _ _ (effects_logout _ _ user)
    intro _
    apply effects_ack _
    · rw [send_logout_sess]
      exact seated
    · intro id same
      cases same
      rw [send_logout_users]
      exact owner

theorem effects_aff_ack_auth (unique : OneEach ptl)
    (allows : ∀ user, ptlUserFind ptl (inetNtoa auth.ip) = some user → user.st = .ackAuth → special user user.affirm) :
    Effects special ptl (ptlEvtAffAckAuth ptl auth) := by
  rw [ptlEvtAffAckAuth]
  cases found : ptlUserFind ptl _ with
  | none => exact effects_refl _ ptl
  | some user =>
    dsimp only
    split
    · rename_i waits
      have listed := found_listed ptl _ user found
      apply effects_trans _ _ _ _ (effects_goes_online _ ptl user)
      have affirm : Effects special (ptl.goesOnline user) ((ptl.goesOnline user).edit user.id User.affirm) := by
        apply effects_special _ _ _ User.affirm (fun _ => rfl)
        intro other member same
        rw [goes_online_users] at member
        rw [unique _ member user listed same]
        exact allows user found waits
      exact effects_trans _ _ _ _ affirm (effects_one _ _ _ (.cancel _))
    · exact effects_refl _ ptl

theorem effects_req_challenge (seated : ptl.sess.isSome) (unique : OneEach ptl)
    (allows : ∀ user, ptlUserFind ptl (inetNtoa auth.ip) = some user → special user (user.await .ackChallenge)) :
    Effects special ptl (ptlEvtReqChallenge env ptl auth attr) := by
  rw [ptlEvtReqChallenge]
  cases found : ptlUserFind ptl _ with
  | some user =>
    have listed := found_listed ptl _ user found
    have await : Effects special ptl (ptl.edit user.id (·.await .ackChallenge)) := by
      apply effects_special _ ptl _ (·.await .ackChallenge) (fun _ => rfl)
      intro other member same
      rw [unique _ member user listed same]
      exact allows user found
    apply effects_trans _ _ _ _ await
    apply effects_ack _
    · exact seated
    · intro id same
      cases same
      exact edit_listed ptl _ _ _ (fun _ => rfl) ⟨user, listed, rfl⟩
  | none =>
    cases ptlVpText attr _ with
    | none => exact effects_ack _ ptl none _ _ seated fun _ absent => nomatch absent
    | some name =>
      let user : User := { ptlUserNew ptl.nextId name (inetNtoa auth.ip) with
        serial := auth.serial
        reqid := env.reqid ptl.nextId
        st := .ackChallenge
        authTy := auth.authTy }
      apply effects_trans _ _ _ _ (effects_append _ ptl user rfl rfl seated)
      apply effects_ack _
      · exact seated
      · intro id same
        cases same
        exact ⟨user, appended ptl user, rfl⟩

structure AllowsEvt (ptl : EmsPortal) (auth : AuthHdr) : Prop where
  challenge : auth.ty = tyReqChallenge → ∀ user, ptlUserFind ptl (inetNtoa auth.ip) = some user →
    special user (user.await .ackChallenge)
  affirm : auth.ty = tyAffAckAuth → ∀ user, ptlUserFind ptl (inetNtoa auth.ip) = some user → user.st = .ackAuth →
    special user user.affirm

theorem effects_process_evt (seated : ptl.sess.isSome) (unique : OneEach ptl) (allows : AllowsEvt special ptl auth) :
    Effects special ptl (ptlProcessEvt env ptl auth attr) := by
  rw [ptlProcessEvt]
  by_cases challenge : auth.ty = tyReqChallenge
  · rw [if_pos challenge]
    exact effects_req_challenge _ env ptl auth attr seated unique (allows.challenge challenge)
  · rw [if_neg challenge]
    split
    · exact effects_req_auth _ env ptl auth attr seated
    · split
      · exact effects_req_logout _ ptl auth seated
      · by_cases affirm : auth.ty = tyAffAckAuth
        · rw [if_pos affirm]
          exact effects_aff_ack_auth _ ptl auth unique (allows.affirm affirm)
        · rw [if_neg affirm]
          split
          · exact effects_req_info _ ptl auth seated
          · exact effects_refl _ ptl

end Requests

end Codec.Portal
