import Codec.Fw.Sockets

set_option autoImplicit false

namespace Codec.Fw

open Codec.Ems Codec.Lib

def Served (fw : EmsFw) : Prop := Serving fw ∧ Idle fw

variable (ids : List Nat) (fw : EmsFw)

theorem running_idle (running : fw.run = true) : Idle fw := by
  intro stopped
  rw [running] at stopped
  cases stopped

theorem open_running (idle : Idle fw) (open' : fw.sessDns.isSome) : fw.run = true := by
  by_contra stopped
  have absent := (idle (eq_false_of_ne_true stopped)).2.1
  rw [absent] at open'
  cases open'

theorem bound_running (idle : Idle fw) (bound : fw.sessBind.isSome) : fw.run = true := by
  by_contra stopped
  have absent := (idle (eq_false_of_ne_true stopped)).1
  rw [absent] at bound
  cases bound

theorem client_write_run (wr : Bool) : (fwDnsClientSetWrite fw wr).run = fw.run := by
  rw [fwDnsClientSetWrite]
  split
  · rfl
  · rfl

theorem asked_nil (id : UInt16) (none : fw.asked id = []) : (fw.whitelist.map (·.id)).countP fw.asksAt = 0 := by
  rw [EmsFw.asked] at none
  cases count : (fw.whitelist.map _).countP _ with
  | zero => rfl
  | succ left =>
    rw [count, idsFrom] at none
    cases none

theorem asking_served (fw middle : EmsFw) (served : Served fw) (open' : fw.sessDns.isSome)
    (calm : Calm { fw with fwd := [] } { middle with fwd := [] }) : Served (fwDnsClientSetWrite middle true) := by
  have running := open_running fw served.2 open'
  have same := calm.sockets
  simp only [EmsFw.sockets, Sockets.mk.injEq] at same
  obtain ⟨run, bound, dns, _, _, out⟩ := same
  constructor
  · apply client_write_serving
    · rw [dns]
      exact open'
    · rw [out, bound]
      exact served.1.out
    · rcases calm.fault with kept | wild
      · rw [kept]
        exact served.1.sound
      · rw [wild]
        decide
  · apply running_idle
    rw [client_write_run, run]
    exact running

theorem emptied_served (fw middle : EmsFw) (served : Served fw)
    (calm : Calm { fw with fwd := [] } { middle with fwd := [] }) (empty : middle.fwd = []) : Served middle := by
  have cleared : Served { fw with fwd := [] } := by
    refine ⟨⟨served.1.out, fun full => absurd rfl full, served.1.wait, served.1.sound⟩, ?_⟩
    intro stopped
    obtain ⟨bound, dns, _, wait, out⟩ := served.2 stopped
    exact ⟨bound, dns, rfl, wait, out⟩
  have whole : Calm { fw with fwd := [] } middle := by
    refine ⟨?_, calm.fault⟩
    rw [← calm.sockets, EmsFw.sockets, empty]
    rfl
  exact ⟨calm_serving _ _ whole cleared.1, calm_idle _ _ whole cleared.2⟩

theorem triger_served (id : UInt16) (served : Served fw)
    (ready : fw.fwd ≠ [] ∨ fw.asked id ≠ [] → fw.sessDns.isSome) : Served (fwDnsQueryTriger fw id) := by
  have rounds := triger_calm (fw.whitelist.map DnsUrl.id) fw id
  rw [fwDnsQueryTriger]
  generalize (List.foldl _ (fw, id) _).1 = middle at rounds ⊢
  obtain ⟨calm, quiet⟩ := rounds
  have expired : Calm _ { middle.expireSubdomains with fwd := [] } := ⟨calm.sockets, calm.fault⟩
  by_cases empty : middle.fwd = []
  · have filled : middle.expireSubdomains.fwd.isEmpty = true := by
      rw [EmsFw.expireSubdomains, empty]
      rfl
    simp only [if_pos filled]
    exact emptied_served fw _ served expired empty
  · have filled : ¬middle.expireSubdomains.fwd.isEmpty = true := by simpa [EmsFw.expireSubdomains] using empty
    simp only [if_neg filled]
    apply asking_served fw _ served _ expired
    apply ready
    by_contra neither
    have both := not_or.mp neither
    have none := quiet (asked_nil fw id (by_contra fun some => both.2 some))
    rw [none] at empty
    exact both.1 empty

theorem in_whitelist_served (enable : Bool) (fw : EmsFw) (key : Str) (id : UInt16) (served : Served fw)
    (ready : enable = true ∧ dnsFindUrl fw key = none ∧ (fwDnsUrlSelect fw key).isSome → fw.sessDns.isSome) :
    Served (fwUrlInWhitelist enable fw key id) := by
  have quiet (next : EmsFw) (calm : Calm fw next) : Served next :=
    ⟨calm_serving fw next calm served.1, calm_idle fw next calm served.2⟩
  cases known : dnsFindUrl fw key with
  | some url =>
    simp only [fwUrlInWhitelist, known]
    split
    · exact quiet _ ⟨rfl, .inl rfl⟩
    · exact served
  | none =>
    cases selected : fwDnsUrlSelect fw key with
    | none =>
      simp only [fwUrlInWhitelist, known, selected]
      exact served
    | some parent =>
      simp only [fwUrlInWhitelist, known, selected]
      split
      · rename_i enabled
        have appended := subdomain_append_calm fw (newUrl fw.nextUrl key parent.blacklist)
        apply asking_served fw _ served (ready ⟨enabled, known, by rw [selected]; rfl⟩)
        refine ⟨?_, appended.fault⟩
        have same := appended.sockets
        simp only [EmsFw.sockets, Sockets.mk.injEq] at same ⊢
        exact ⟨same.1, same.2.1, same.2.2.1, trivial, same.2.2.2.2⟩
      · exact served

theorem whitelist_insert_served (white : Str) (id : UInt16) (served : Served fw)
    (ready : inetAddr white = none → fw.sessDns.isSome) : Served (fwUrlWhitelistInsert fw white id) := by
  have appended := subdomain_append_calm fw (newUrl fw.nextUrl white false)
  cases written : inetAddr white with
  | none =>
    simp only [fwUrlWhitelistInsert, written]
    apply asking_served fw _ served (ready written)
    refine ⟨?_, appended.fault⟩
    have same := appended.sockets
    simp only [EmsFw.sockets, Sockets.mk.injEq] at same ⊢
    exact ⟨same.1, same.2.1, same.2.2.1, trivial, same.2.2.2.2⟩
  | some addr =>
    have calm : Calm fw (fwUrlWhitelistInsert fw white id) := by
      simp only [fwUrlWhitelistInsert, written]
      split
      · exact ⟨appended.sockets, appended.fault⟩
      · exact ⟨appended.sockets, appended.fault⟩
    exact ⟨calm_serving fw _ calm served.1, calm_idle fw _ calm served.2⟩

theorem request_served (addr : Addr) (port : UInt16) (datagram : List UInt8) (served : Served fw)
    (ready : fw.sessBind.isSome → datagram ≠ [] → fw.sessDns.isSome) : Served (fwDnsRequest fw addr port datagram) := by
  cases bound : fw.sessBind with
  | none =>
    simp only [fwDnsRequest, bound]
    exact served
  | some sess =>
    by_cases empty : datagram = []
    · simp only [fwDnsRequest, bound, if_pos empty]
      exact served
    · have open' := ready (by rw [bound]; rfl) empty
      have received : Served { fw with sessBind := some { sess with mem := sess.receive datagram } } := by
        refine ⟨⟨?_, served.1.fwd, served.1.wait, served.1.sound⟩, running_idle _ (open_running fw served.2 open')⟩
        intro full
        obtain ⟨same, there, writes⟩ := served.1.out full
        rw [bound] at there
        cases there
        exact ⟨_, rfl, writes⟩
      simp only [fwDnsRequest, bound, if_neg empty, fwDnsFwd]
      split
      · rename_i user found
        constructor
        · apply client_write_serving
          · exact open'
          · intro full
            apply received.1.out
            intro nil
            apply full
            rw [nil]
            rfl
          · exact served.1.sound
        · apply running_idle
          rw [client_write_run]
          exact open_running fw served.2 open'
      · exact asking_served _ _ received open' ⟨rfl, .inl rfl⟩

theorem erase_nil (id : Nat) (full : ids.erase id ≠ []) : ids ≠ [] := by
  intro empty
  rw [empty] at full
  exact full rfl

structure Shrinks (fw next : EmsFw) : Prop where
  run : next.run = fw.run
  bound : next.sessBind = fw.sessBind
  dns : next.sessDns = fw.sessDns
  fault : next.fault = fw.fault
  fwd : next.fwd ≠ [] → fw.fwd ≠ []
  out : next.out ≠ [] → fw.out ≠ []

theorem shrinks_refl : Shrinks fw fw := ⟨rfl, rfl, rfl, rfl, id, id⟩

theorem shrinks_trans (first second third : EmsFw) (left : Shrinks first second) (right : Shrinks second third) :
    Shrinks first third where
  run := right.run.trans left.run
  bound := right.bound.trans left.bound
  dns := right.dns.trans left.dns
  fault := right.fault.trans left.fault
  fwd := fun full => left.fwd (right.fwd full)
  out := fun full => left.out (right.out full)

theorem shrinks_served (fw next : EmsFw) (served : Served fw) (shrinks : Shrinks fw next)
    (wait : next.wait ≠ [] → fw.wait ≠ []) : Served next := by
  constructor
  · constructor
    · rw [shrinks.bound]
      exact fun full => served.1.out (shrinks.out full)
    · rw [shrinks.dns]
      exact fun full => served.1.fwd (shrinks.fwd full)
    · rw [shrinks.dns]
      exact fun full => served.1.wait (wait full)
    · rw [shrinks.fault]
      exact served.1.sound
  · intro stopped
    obtain ⟨noBind, noDns, noFwd, noWait, noOut⟩ := served.2 (shrinks.run ▸ stopped)
    refine ⟨shrinks.bound.trans noBind, shrinks.dns.trans noDns, ?_, ?_, ?_⟩
    · exact by_contra fun full => shrinks.fwd full noFwd
    · exact by_contra fun full => wait full noWait
    · exact by_contra fun full => shrinks.out full noOut

theorem deliver_served (served : Served fw) :
    Served (ids.foldl deliver fw) ∧ (ids.foldl deliver fw).sessBind = fw.sessBind := by
  induction ids generalizing fw with
  | nil => exact ⟨served, rfl⟩
  | cons id rest ih =>
    rw [List.foldl_cons]
    have one : Served (deliver fw id) ∧ (deliver fw id).sessBind = fw.sessBind := by
      rw [deliver]
      split
      · exact ⟨served, rfl⟩
      · refine ⟨shrinks_served fw _ served ?_ (erase_nil _ id), rfl⟩
        exact ⟨rfl, rfl, rfl, rfl, erase_nil _ id, erase_nil _ id⟩
    have later := ih _ one.1
    exact ⟨later.1, later.2.trans one.2⟩

theorem response_served (sends : Nat) (served : Served fw) (bound : fw.sessBind.isSome) : Served (fwDnsResponse fw sends) := by
  have rounds := deliver_served (fw.out.take sends) fw served
  rw [fwDnsResponse]
  generalize (fw.out.take _).foldl _ fw = middle at rounds ⊢
  obtain ⟨still, same⟩ := rounds
  rw [← same] at bound
  obtain ⟨sess, open'⟩ := Option.isSome_iff_exists.mp bound
  split
  · rename_i empty
    have next : fwDnsServerSetWrite middle false =
        { middle with sessBind := some { sess with read := true, write := false } } := by
      rw [fwDnsServerSetWrite, open']
    rw [next]
    refine ⟨⟨?_, still.1.fwd, still.1.wait, still.1.sound⟩, ?_⟩
    · exact fun full => absurd (List.isEmpty_iff.mp empty) full
    · exact running_idle _ (bound_running middle still.2 bound)
  · exact still

theorem forward_shrinks : Shrinks fw (ids.foldl forward fw) := by
  induction ids generalizing fw with
  | nil => exact shrinks_refl fw
  | cons entry rest ih =>
    rw [List.foldl_cons]
    apply shrinks_trans fw _ _ _ (ih _)
    rw [forward]
    split
    · exact shrinks_refl fw
    · exact ⟨rfl, rfl, rfl, rfl, erase_nil _ _, erase_nil _ _⟩

theorem send_served (sends : Nat) (served : Served fw) (open' : fw.sessDns.isSome)
    (alive : fw.fault = none) : Served (fwDnsFwdReq fw sends) := by
  have rounds := forward_shrinks (fw.fwd.take sends) fw
  have running := open_running fw served.2 open'
  rw [fwDnsFwdReq]
  generalize (fw.fwd.take _).foldl _ fw = middle at rounds ⊢
  obtain ⟨sess, opened⟩ := Option.isSome_iff_exists.mp open'
  have dns : middle.sessDns = some sess := rounds.dns.trans opened
  have live : middle.fault = none := rounds.fault.trans alive
  have run : middle.run = true := rounds.run.trans running
  have out : middle.out ≠ [] → ∃ sess ∈ middle.sessBind, sess.write = true := by
    rw [rounds.bound]
    exact fun full => served.1.out (rounds.out full)
  have sound : middle.fault ≠ some .nullSess := by
    rw [live]
    intro absurdity; cases absurdity
  have written (wr : Bool) : fwDnsClientSetWrite middle wr =
      { middle with sessDns := some { sess with read := !middle.wait.isEmpty, write := wr } } := by
    rw [fwDnsClientSetWrite, dns]
  by_cases idle : middle.wait = []
  · have none : middle.wait.isEmpty = true := List.isEmpty_iff.mpr idle
    simp only [if_pos none, EmsFw.andThen, if_pos live]
    split
    · rename_i done
      rw [written]
      refine ⟨⟨out, ?_, ?_, sound⟩, running_idle _ run⟩
      · exact fun full => absurd (List.isEmpty_iff.mp done) full
      · exact fun full => absurd idle full
    · apply shrinks_served fw _ served rounds
      exact fun full => absurd idle full
  · have some' : ¬middle.wait.isEmpty = true := fun empty => idle (List.isEmpty_iff.mp empty)
    let reading := { middle with sessDns := some { sess with read := true, write := !middle.fwd.isEmpty } }
    have read : fwDnsClientSetRead middle true = reading := by rw [fwDnsClientSetRead, dns]
    have live' : reading.fault = none := live
    simp only [if_neg some', read, EmsFw.andThen, if_pos live']
    split
    · rename_i done
      have finished : fwDnsClientSetWrite reading _ =
          { reading with sessDns := some { sess with read := !middle.wait.isEmpty, write := false } } := rfl
      rw [finished]
      refine ⟨⟨out, ?_, ?_, sound⟩, running_idle _ run⟩
      · exact fun full => absurd (List.isEmpty_iff.mp done) full
      · intro _
        refine ⟨_, rfl, ?_⟩
        simp [idle]
    · rename_i left
      refine ⟨⟨out, ?_, ?_, sound⟩, running_idle _ run⟩
      · intro _
        refine ⟨_, rfl, ?_⟩
        rw [eq_false_of_ne_true left]
        rfl
      · exact fun _ => ⟨_, rfl, rfl⟩

theorem timeout_served (id : Nat) (served : Served fw) : Served (dnsFwdTimeout fw id) := by
  rw [dnsFwdTimeout]
  split
  · exact served
  · split
    · exact served
    · apply shrinks_served fw _ served _ (erase_nil _ id)
      exact ⟨rfl, rfl, rfl, rfl, erase_nil _ id, erase_nil _ id⟩

theorem reply_served (enable : Bool) (fw : EmsFw) (query : Nat) (datagram : List UInt8) (served : Served fw)
    (ready : SocketsReady fw (.reply enable query datagram)) : Served (fwDnsFwdRsp enable fw query datagram) := by
  cases bound : fw.sessDns with
  | none =>
    simp only [fwDnsFwdRsp, bound]
    exact served
  | some sess =>
    by_cases empty : datagram = []
    · simp only [fwDnsFwdRsp, bound, if_pos empty]
      exact served
    · have running := open_running fw served.2 (by rw [bound]; rfl)
      let received := { fw with sessDns := some { sess with mem := sess.receive datagram } }
      have fresh : Served received := by
        refine ⟨⟨served.1.out, ?_, ?_, served.1.sound⟩, running_idle _ running⟩
        · intro full
          obtain ⟨same, there, writes⟩ := served.1.fwd full
          rw [bound] at there
          cases there
          exact ⟨_, rfl, writes⟩
        · intro full
          obtain ⟨same, there, reads⟩ := served.1.wait full
          rw [bound] at there
          cases there
          exact ⟨_, rfl, reads⟩
      simp only [fwDnsFwdRsp, bound, if_neg empty]
      change Served (fwDnsFwdFilter _ received _ _
        (fw.answerTo _ _))
      cases found : dnsFindUser received (dnsId (sess.receive datagram)) with
      | none =>
        simp only [fwDnsFwdFilter, found]
        exact fresh
      | some user =>
        have taken : Served (received.takeReply user.id (datagram.take bufSize) (fw.answerTo query datagram)) := by
          apply shrinks_served _ _ fresh _ (erase_nil _ _)
          exact ⟨rfl, rfl, rfl, rfl, erase_nil _ _, erase_nil _ _⟩
        have filtered : Calm (received.takeReply user.id (datagram.take bufSize) (fw.answerTo query datagram))
            (filterReply enable (sess.receive datagram) user.querySelf
              (received.takeReply user.id (datagram.take bufSize) (fw.answerTo query datagram))) := by
          rw [filterReply]
          split
          · exact parse_and_filter_calm _ _ _ _
          · exact calm_refl _
        have parsed : Served _ := ⟨calm_serving _ _ filtered taken.1, calm_idle _ _ filtered taken.2⟩
        have bind : (filterReply _ _ _
            _).sessBind = fw.sessBind :=
          congrArg Sockets.sessBind filtered.sockets
        have run : (filterReply _ _ _
            _).run = fw.run :=
          congrArg Sockets.run filtered.sockets
        simp only [fwDnsFwdFilter, found]
        generalize filterReply _ _ _
          _ = middle
          at parsed bind run ⊢
        rw [EmsFw.andThen]
        split
        · by_cases own : user.querySelf = true
          · rw [EmsFw.giveBack, if_pos own]
            exact shrinks_served _ _ parsed ⟨rfl, rfl, rfl, rfl, id, id⟩ id
          · have answers := ready sess bound empty user found (eq_false_of_ne_true own)
            obtain ⟨server, there⟩ := Option.isSome_iff_exists.mp answers
            rw [EmsFw.giveBack, if_neg own, fwDnsServerSetWrite]
            simp only [bind, there]
            refine ⟨⟨fun _ => ⟨_, rfl, rfl⟩, parsed.1.fwd, parsed.1.wait, parsed.1.sound⟩, running_idle _ ?_⟩
            exact run.trans running
        · exact parsed

theorem handle_served (event : Event) (served : Served fw) (alive : fw.fault = none)
    (ready : SocketsReady fw event) : Served (handle fw event) := by
  have quiet (next : EmsFw) (calm : Calm fw next) : Served next :=
    ⟨calm_serving fw next calm served.1, calm_idle fw next calm served.2⟩
  have live : fw.fault ≠ some _ := served.1.sound
  cases event with
  | start bind connect =>
    rw [handle]
    split
    · exact served
    · rename_i stopped
      obtain ⟨_, _, fwd, wait, out⟩ := served.2 (eq_false_of_ne_true stopped)
      refine ⟨⟨?_, ?_, ?_, live⟩, running_idle _ rfl⟩
      · exact fun full => absurd out full
      · exact fun full => absurd fwd full
      · exact fun full => absurd wait full
  | stop =>
    rw [handle]
    split
    · refine ⟨⟨?_, ?_, ?_, live⟩, fun _ => ⟨rfl, rfl, rfl, rfl, rfl⟩⟩
      · exact fun full => absurd rfl full
      · exact fun full => absurd rfl full
      · exact fun full => absurd rfl full
    · exact served
  | flush lists id =>
    rw [handle]
    split
    · rename_i running
      have calm := refill_calm fw lists
      apply triger_served _ id (quiet _ calm)
      rw [show (refill fw _).fwd = fw.fwd from congrArg Sockets.fwd calm.sockets,
        show (refill fw _).sessDns = fw.sessDns from congrArg Sockets.sessDns calm.sockets]
      exact ready running
    · exact served
  | addressAdd names =>
    rw [handle]
    split
    · exact quiet _ (append_urls_calm fw _ _)
    · exact served
  | addressDel names =>
    rw [handle]
    split
    · exact quiet _ (remove_urls_calm fw _)
    · exact served
  | checkUrlWhitelist addr id =>
    rw [handle]
    split
    · rename_i running
      exact whitelist_insert_served fw addr id served fun written => ready ⟨running.1, running.2, written⟩
    · exact served
  | checkSubdomain enable url id =>
    rw [handle]
    split
    · rename_i running
      exact in_whitelist_served _ fw url id served fun asks => ready ⟨running.1, running.2, asks⟩
    · exact served
  | request addr port datagram => exact request_served fw addr port _ served ready
  | response sends =>
    rw [handle]
    split
    · exact response_served fw _ served (by assumption)
    · exact served
  | serverErr bind =>
    rw [handle]
    split
    · rename_i bound
      refine ⟨⟨?_, served.1.fwd, served.1.wait, live⟩, running_idle _ (bound_running fw served.2 bound)⟩
      exact fun full => absurd (ready bound) full
    · exact served
  | reply enable query datagram => exact reply_served _ fw _ _ served ready
  | send sends =>
    rw [handle]
    split
    · exact send_served fw _ served (by assumption) alive
    · exact served
  | clientErr connect =>
    rw [handle]
    split
    · rename_i bound
      obtain ⟨fwd, opened⟩ := ready bound
      refine ⟨⟨served.1.out, ?_, ?_, live⟩, running_idle _ (open_running fw served.2 bound)⟩
      · exact fun full => absurd fwd full
      · intro full
        have connected : connect = true := opened.resolve_right full
        rw [connected]
        exact ⟨_, rfl, rfl⟩
    · exact served
  | timeout user => exact timeout_served fw user served
  | schedule id =>
    rw [handle]
    split
    · rename_i bound
      exact triger_served fw id served (ready bound)
    · exact served

theorem sockets_serve_queues (events : List Event) (steps : AllSteps step SocketsReady EmsFw.init events) :
    Serving (run step EmsFw.init events) := by
  have start : Served EmsFw.init := by
    refine ⟨⟨?_, ?_, ?_, fun absurdity => nomatch absurdity⟩, fun _ => ⟨rfl, rfl, rfl, rfl, rfl⟩⟩
    · exact fun full => absurd rfl full
    · exact fun full => absurd rfl full
    · exact fun full => absurd rfl full
  have preserved (fw : EmsFw) (event : Event) (served : Served fw) (ready : SocketsReady fw event) :
      Served (step fw event) := by
    rw [step, EmsFw.andThen]
    split
    · exact handle_served fw _ served (by assumption) ready
    · exact served
  exact (run_keeps step _ _ _ _ start preserved steps).1

def restarts (first : List Event) : List Event :=
  [.start (some 9300) true, .request 0x0a000002 4000 (selfQuery [97] 5)] ++ first ++ [.clientErr true, .serverErr none]

theorem sockets_serve_queues_sample : Serving (run step EmsFw.init (restarts [.send 1])) :=
  sockets_serve_queues _ (by decide +kernel)

-- The new upstream socket is registered for READ only, with the request still
-- in fwd.
theorem restart_forgets_write : ¬∀ events, Serving (run step EmsFw.init events) := by
  intro serving
  have writes := (serving (restarts [])).fwd (by decide +kernel)
  exact absurd writes (by decide +kernel)

end Codec.Fw
