import Codec.Ems.Text
import Codec.Lib.Runs
import Mathlib.Data.List.Nodup

set_option autoImplicit false

namespace Codec.Http

open Codec.Ems Codec.Lib List

inductive CnaSt where
  | init | phaseOne | phaseTwo | phaseThree | phaseExit
  deriving DecidableEq, Repr

-- ems_cna; `id` is its address, and `timer` the delay of `to` when pending.
structure Cna where
  id : Nat
  ip : Str
  host : Str
  param : Str
  st : CnaSt
  timer : Option Nat
  deriving DecidableEq, Repr

inductive Rtn where
  | err | failed | portal | success
  deriving DecidableEq, Repr

structure Probe where
  ip : Str
  host : Str
  param : Str
  ver : Option Str
  alloc : Bool
  deriving DecidableEq, Repr

structure Verdict where
  ip : Str
  host : Str
  param : Str
  rtn : Rtn
  deriving DecidableEq, Repr

-- http->cna_list, and a ghost: the probes and their answers, newest first.
structure CnaList where
  cnas : List Cna
  next : Nat
  history : List Verdict
  deriving DecidableEq, Repr

def httpCnaNew (id : Nat) (ip : Str) : Cna := ⟨id, ip, [], [], .init, none⟩

-- The three parts of update_cna_status.
def cnaHost (cna : Cna) (host : Str) : Cna :=
  if cna.host.length = 0 ∨ cna.host ≠ host then { cna with host := host, st := .init } else cna

def cnaParam (cna : Cna) (param : Str) : Cna :=
  if cna.param.length = 0 ∨ cna.param ≠ param then { cna with param := param, st := .init } else cna

def cnaVersion (st : CnaSt) (ver : Str) : CnaSt :=
  match st with
  | .init | .phaseTwo | .phaseThree => if ver ≠ ascii "HTTP/1.0" then .phaseOne else st
  | .phaseOne => if ver ≠ ascii "HTTP/1.1" then .init else st
  | .phaseExit => st

def updateCnaStatus (cna : Cna) (host param : Str) (ver : Option Str) : Cna :=
  let cna := cnaParam (cnaHost cna host) param
  { cna with st := ver.elim cna.st (cnaVersion cna.st) }

-- The switch of http_cna_user_run.
def cnaAnswer (cna : Cna) : Rtn × Cna :=
  match cna.st with
  | .init => (.failed, { cna with st := .phaseOne, timer := some 10000 })
  | .phaseOne => (.portal, { cna with st := .phaseTwo, timer := some 15000 })
  | .phaseTwo => (.success, { cna with st := .phaseThree, timer := some 30000 })
  | .phaseThree => (.success, { cna with timer := some 30000 })
  | .phaseExit => (.portal, cna)

def httpCnaUserFind (http : CnaList) (ip : Str) : Option Cna := http.cnas.find? fun cna => ip = cna.ip

def CnaList.answered (http : CnaList) (probe : Probe) (rtn : Rtn) (cnas : List Cna) (next : Nat) : CnaList :=
  ⟨cnas, next, ⟨probe.ip, probe.host, probe.param, rtn⟩ :: http.history⟩

def httpCnaUserRun (http : CnaList) (probe : Probe) (cna : Option Cna) : CnaList :=
  match cna with
  | none =>
    if probe.alloc then
      let run := cnaAnswer (updateCnaStatus (httpCnaNew http.next probe.ip) probe.host probe.param probe.ver)
      http.answered probe run.1 (http.cnas ++ [run.2]) (http.next + 1)
    else http.answered probe .err http.cnas http.next
  | some cna =>
    let run := cnaAnswer (updateCnaStatus cna probe.host probe.param probe.ver)
    http.answered probe run.1 (http.cnas.map fun other => if other.id = cna.id then run.2 else other) http.next

inductive CnaEvent where
  | probe (probe : Probe)
  | timeout (id : Nat)
  | stop

-- A timeout calls back for an entry whose timer is pending; http_stopped
-- clears the list.
def cnaStep (http : CnaList) : CnaEvent → CnaList
  | .probe probe => httpCnaUserRun http probe (httpCnaUserFind http probe.ip)
  | .timeout id => { http with cnas := http.cnas.filter fun cna => decide (¬(cna.id = id ∧ cna.timer.isSome)) }
  | .stop => { http with cnas := [] }

def priorProbe (ip : Str) (history : List Verdict) : Option Verdict := history.find? fun one => ip = one.ip

def Earned (history : List Verdict) : Prop :=
  ∀ later one earlier, history = later ++ one :: earlier → one.rtn = .success →
    ∃ prior, priorProbe one.ip earlier = some prior ∧ prior.host = one.host ∧ prior.param = one.param ∧
      (prior.rtn = .portal ∨ prior.rtn = .success)

section Entry

variable (cna : Cna) (host param : Str) (ver : Option Str)

theorem update_keeps : (updateCnaStatus cna host param ver).id = cna.id ∧ (updateCnaStatus cna host param ver).ip = cna.ip ∧
    (updateCnaStatus cna host param ver).host = host ∧ (updateCnaStatus cna host param ver).param = param := by
  have hosts : (cnaHost cna host).id = cna.id ∧ (cnaHost cna host).ip = cna.ip ∧ (cnaHost cna host).host = host := by
    rw [cnaHost]
    split
    · exact ⟨rfl, rfl, rfl⟩
    · rename_i same
      exact ⟨rfl, rfl, not_ne_iff.mp fun other => same (.inr other)⟩
  rw [updateCnaStatus, cnaParam]
  split
  · exact ⟨hosts.1, hosts.2.1, hosts.2.2, rfl⟩
  · rename_i same
    exact ⟨hosts.1, hosts.2.1, hosts.2.2, not_ne_iff.mp fun other => same (.inr other)⟩

theorem version_second (st : CnaSt) (second : ver.elim st (cnaVersion st) = .phaseTwo ∨ ver.elim st (cnaVersion st) = .phaseThree) :
    ver.elim st (cnaVersion st) = st := by
  cases ver with
  | none => rfl
  | some ver =>
    simp only [Option.elim_some] at second ⊢
    cases st <;> simp only [cnaVersion] at second ⊢ <;> split at second <;> simp_all

theorem update_second (second : (updateCnaStatus cna host param ver).st = .phaseTwo ∨ (updateCnaStatus cna host param ver).st = .phaseThree) :
    cna.host = host ∧ cna.param = param ∧ cna.st = (updateCnaStatus cna host param ver).st := by
  rw [updateCnaStatus] at second ⊢
  have kept := version_second ver _ second
  simp only [kept] at second ⊢
  rw [cnaParam] at second ⊢
  split at second
  · simp at second
  · rename_i params
    rw [if_neg params]
    rw [cnaHost] at second params ⊢
    split at second
    · simp at second
    · rename_i hosts
      rw [if_neg hosts] at params ⊢
      exact ⟨not_ne_iff.mp fun other => hosts (.inr other), not_ne_iff.mp fun other => params (.inr other), rfl⟩

theorem update_exit (st : cna.st ≠ .phaseExit) : (updateCnaStatus cna host param ver).st ≠ .phaseExit := by
  have hosts : (cnaHost cna host).st ≠ .phaseExit := by
    rw [cnaHost]
    split
    · nofun
    · exact st
  have stored : (cnaParam (cnaHost cna host) param).st ≠ .phaseExit := by
    rw [cnaParam]
    split
    · nofun
    · exact hosts
  rw [updateCnaStatus]
  generalize (cnaParam _ _).st = next at stored
  cases ver with
  | none => exact stored
  | some ver =>
    simp only [Option.elim_some]
    cases next <;> simp only [cnaVersion] <;> first | exact absurd rfl stored | (split <;> nofun)

end Entry

structure Remembers (history : List Verdict) (cna : Cna) : Prop where
  timer : cna.timer.isSome
  exit : cna.st ≠ .phaseExit
  prior : ∃ prior, priorProbe cna.ip history = some prior ∧ prior.host = cna.host ∧ prior.param = cna.param ∧
    (cna.st = .phaseTwo → prior.rtn = .portal) ∧ (cna.st = .phaseThree → prior.rtn = .success)

structure CnaInv (http : CnaList) : Prop where
  earned : Earned http.history
  below : ∀ cna ∈ http.cnas, cna.id < http.next
  ids : (http.cnas.map Cna.id).Nodup
  ips : (http.cnas.map Cna.ip).Nodup
  remembers : ∀ cna ∈ http.cnas, Remembers http.history cna

section Probe

variable (history : List Verdict) (probe : Probe) (cna : Cna) (ip : cna.ip = probe.ip)

include ip

theorem run_entry (exit : cna.st ≠ .phaseExit) (known : cna.st = .phaseTwo ∨ cna.st = .phaseThree → Remembers history cna) :
    let run := cnaAnswer (updateCnaStatus cna probe.host probe.param probe.ver)
    run.2.id = cna.id ∧ run.2.ip = cna.ip ∧ Remembers (⟨probe.ip, probe.host, probe.param, run.1⟩ :: history) run.2 ∧
      (run.1 = .success → ∃ prior, priorProbe probe.ip history = some prior ∧ prior.host = probe.host ∧ prior.param = probe.param ∧
        (prior.rtn = .portal ∨ prior.rtn = .success)) := by
  obtain ⟨id, address, host, param⟩ := update_keeps cna _ _ _
  have left := update_exit cna probe.host probe.param probe.ver exit
  have second := update_second cna probe.host probe.param probe.ver
  have front (rtn : Rtn) : priorProbe cna.ip (⟨probe.ip, probe.host, probe.param, rtn⟩ :: history) =
      some ⟨probe.ip, probe.host, probe.param, rtn⟩ := by
    rw [priorProbe, find?_cons_of_pos (by simpa using ip)]
  have earned (here : cna.st = .phaseTwo ∨ cna.st = .phaseThree) (same : cna.host = probe.host ∧ cna.param = probe.param) :
      ∃ prior, priorProbe probe.ip history = some prior ∧ prior.host = probe.host ∧ prior.param = probe.param ∧
        (prior.rtn = .portal ∨ prior.rtn = .success) := by
    obtain ⟨prior, found, hosts, params, two, three⟩ := (known here).prior
    exact ⟨prior, ip ▸ found, hosts.trans same.1, params.trans same.2, here.imp two three⟩
  generalize updateCnaStatus cna _ _ _ = next at *
  cases st : next.st with
  | phaseExit => exact absurd st left
  | init =>
    simp only [cnaAnswer, st]
    exact ⟨id, address, ⟨rfl, nofun, _, address ▸ front _, host.symm, param.symm, nofun, nofun⟩, nofun⟩
  | phaseOne =>
    simp only [cnaAnswer, st]
    exact ⟨id, address, ⟨rfl, nofun, _, address ▸ front _, host.symm, param.symm, fun _ => rfl, nofun⟩, nofun⟩
  | phaseTwo =>
    obtain ⟨hosts, params, same⟩ := second (.inl st)
    simp only [cnaAnswer, st]
    exact ⟨id, address, ⟨rfl, nofun, _, address ▸ front _, host.symm, param.symm, nofun, fun _ => rfl⟩,
      fun _ => earned (.inl (same.trans st)) ⟨hosts, params⟩⟩
  | phaseThree =>
    obtain ⟨hosts, params, same⟩ := second (.inr st)
    simp only [cnaAnswer, st]
    exact ⟨id, address, ⟨rfl, nofun, _, address ▸ front _, host.symm, param.symm, nofun, fun _ => rfl⟩,
      fun _ => earned (.inr (same.trans st)) ⟨hosts, params⟩⟩

end Probe

variable (http : CnaList)

theorem prior_other (probe : Probe) (rtn : Rtn) (ip : Str) (other : ip ≠ probe.ip) :
    priorProbe ip (⟨probe.ip, probe.host, probe.param, rtn⟩ :: http.history) = priorProbe ip http.history := by
  rw [priorProbe, find?_cons_of_neg (by simpa using other), priorProbe]

theorem remembers_other (probe : Probe) (rtn : Rtn) (cna : Cna) (other : cna.ip ≠ probe.ip) (old : Remembers http.history cna) :
    Remembers (⟨probe.ip, probe.host, probe.param, rtn⟩ :: http.history) cna :=
  ⟨old.timer, old.exit, by rw [prior_other http _ rtn _ other]; exact old.prior⟩

theorem earned_cons (one : Verdict) (earned : Earned http.history)
    (this : one.rtn = .success → ∃ prior, priorProbe one.ip http.history = some prior ∧ prior.host = one.host ∧
      prior.param = one.param ∧ (prior.rtn = .portal ∨ prior.rtn = .success)) : Earned (one :: http.history) := by
  intro later other earlier split success
  cases later with
  | nil =>
    obtain ⟨same, rest⟩ := cons.inj split
    rw [← rest, ← same]
    exact this (same ▸ success)
  | cons first later => exact earned _ _ _ (cons.inj split).2 success

theorem probe_inv (probe : Probe) (inv : CnaInv http) : CnaInv (httpCnaUserRun http probe (httpCnaUserFind http probe.ip)) := by
  cases found : httpCnaUserFind http _ with
  | none =>
    have absent : ∀ cna ∈ http.cnas, cna.ip ≠ probe.ip := fun cna there same => by
      simpa [same] using find?_eq_none.mp found cna there
    rw [httpCnaUserRun]
    split
    · obtain ⟨id, ip, known, success⟩ := run_entry _ _ (httpCnaNew _ _) rfl nofun (by rintro (st | st) <;> cases st)
      generalize cnaAnswer _ = run at *
      constructor
      · exact earned_cons http _ inv.earned success
      · intro cna there
        obtain old | new := mem_append.mp there
        · exact Nat.lt_succ_of_lt (inv.below cna old)
        · rw [mem_singleton.mp new, id]
          exact Nat.lt_succ_self _
      · rw [CnaList.answered, map_append, nodup_append]
        refine ⟨inv.ids, nodup_singleton _, fun one old other new => ?_⟩
        obtain ⟨cna, there, same⟩ := mem_map.mp old
        rw [map_singleton, mem_singleton, id] at new
        rw [← same, new]
        exact (inv.below cna there).ne
      · rw [CnaList.answered, map_append, nodup_append]
        refine ⟨inv.ips, nodup_singleton _, fun one old other new => ?_⟩
        obtain ⟨cna, there, same⟩ := mem_map.mp old
        rw [map_singleton, mem_singleton, ip] at new
        rw [← same, new]
        exact absent cna there
      · intro cna there
        obtain old | new := mem_append.mp there
        · exact remembers_other http _ _ cna (absent cna old) (inv.remembers cna old)
        · rw [mem_singleton.mp new]
          exact known
    · exact ⟨earned_cons http _ inv.earned nofun, inv.below, inv.ids, inv.ips,
        fun cna there => remembers_other http _ _ cna (absent cna there) (inv.remembers cna there)⟩
  | some cna =>
    have there : cna ∈ http.cnas := mem_of_find?_eq_some found
    have ip : cna.ip = probe.ip := by simpa [eq_comm] using find?_some found
    have old := inv.remembers cna there
    obtain ⟨id, address, known, success⟩ := run_entry _ _ cna ip old.exit fun _ => old
    rw [httpCnaUserRun]
    generalize cnaAnswer _ = run at *
    have ids : ∀ other : Cna, (if other.id = cna.id then run.2 else other).id = other.id := by
      intro other
      split
      · rename_i same
        rw [id, same]
      · rfl
    have one (other : Cna) (among : other ∈ http.cnas) (same : other.id = cna.id) : other = cna :=
      inj_on_of_nodup_map inv.ids among there same
    constructor
    · exact earned_cons http _ inv.earned success
    · intro other among
      obtain ⟨before, member, same⟩ := mem_map.mp among
      rw [← same, ids]
      exact inv.below _ member
    · have names : (http.cnas.map fun other => if other.id = cna.id then run.2 else other).map Cna.id = http.cnas.map Cna.id := by
        rw [map_map]
        exact map_congr_left fun other _ => ids _
      exact names ▸ inv.ids
    · have addresses : (http.cnas.map fun other => if other.id = cna.id then run.2 else other).map Cna.ip = http.cnas.map Cna.ip := by
        rw [map_map]
        refine map_congr_left fun other among => ?_
        show (if other.id = cna.id then run.2 else other).ip = other.ip
        split
        · rename_i same
          rw [address, one _ among same]
        · rfl
      exact addresses ▸ inv.ips
    · intro other among
      obtain ⟨before, member, same⟩ := mem_map.mp among
      rw [← same]
      split
      · exact known
      · rename_i apart
        refine remembers_other http _ _ _ (fun equal => apart ?_) (inv.remembers _ member)
        exact congrArg _ (inj_on_of_nodup_map inv.ips member there (equal.trans ip.symm))

theorem cna_step_inv (event : CnaEvent) (inv : CnaInv http) : CnaInv (cnaStep http event) := by
  cases event with
  | probe probe => exact probe_inv http _ inv
  | timeout id =>
    have part : (http.cnas.filter fun cna => decide (¬(cna.id = id ∧ cna.timer.isSome))).Sublist _ := filter_sublist
    exact ⟨inv.earned, fun cna there => inv.below cna (part.subset there), inv.ids.sublist (part.map _), inv.ips.sublist (part.map _),
      fun cna there => inv.remembers cna (part.subset there)⟩
  | stop => exact ⟨inv.earned, nofun, nodup_nil, nodup_nil, nofun⟩

theorem cna_run_inv (events : List CnaEvent) (inv : CnaInv http) : CnaInv (run cnaStep http events) := by
  induction events generalizing http with
  | nil => exact inv
  | cons event rest ih => exact ih _ (cna_step_inv http _ inv)

theorem cna_memory (events : List CnaEvent) :
    let http := run cnaStep ⟨[], 0, []⟩ events
    Earned http.history ∧ (http.cnas.map Cna.ip).Nodup ∧ ∀ cna ∈ http.cnas, cna.timer.isSome := by
  have inv := cna_run_inv ⟨[], 0, []⟩ events
    ⟨fun later one earlier split => by simp at split, nofun, nodup_nil, nodup_nil, nofun⟩
  exact ⟨inv.earned, inv.ips, fun cna there => (inv.remembers cna there).timer⟩

end Codec.Http
