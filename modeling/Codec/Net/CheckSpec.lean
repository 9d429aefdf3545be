import Codec.Net.Check

set_option autoImplicit false

namespace Codec.Net

open Codec.Ems Codec.Lib
open Codec.Radius (icmpKind)

def expected (lan : Lan) (base : Chains Chain Rule) (down : Bool) : Chain → Option (List Rule)
  | .netNetworkDown => if down then some [.http lan, .dns lan] else none
  | .prerouting => if down then (rulesAt base .prerouting).map (· ++ [.jump]) else rulesAt base .prerouting
  | .foreign name => rulesAt base (.foreign name)

structure Bare (base : Chains Chain Rule) : Prop where
  prerouting : (rulesAt base .prerouting).isSome
  chain : rulesAt base .netNetworkDown = none
  free : ∀ origin, ¬Points Rule.target base origin .netNetworkDown

section Table

variable (lan : Lan) (base nat : Chains Chain Rule) (bare : Bare base)
include bare

theorem bare_jump (origin : Chain) (rules : List Rule) (hit : rulesAt base origin = some rules) : Rule.jump ∉ rules :=
  fun inside => bare.free _ ⟨rules, hit, .jump, inside, rfl⟩

theorem expected_points (down : Bool) (table : ∀ chain, rulesAt nat chain = expected lan base down chain) (origin : Chain)
    (points : Points Rule.target nat origin .netNetworkDown) : origin = .prerouting := by
  obtain ⟨rules, hit, rule, inside, jumps⟩ := points
  rw [table] at hit
  cases origin with
  | prerouting => rfl
  | foreign name => exact absurd ⟨rules, hit, rule, inside, jumps⟩ (bare.free _)
  | netNetworkDown =>
    cases down with
    | false => cases hit
    | true =>
      cases hit
      simp only [List.mem_cons, List.not_mem_nil, or_false] at inside
      obtain same | same := inside
      · rw [same] at jumps
        cases jumps
      · rw [same] at jumps
        cases jumps

theorem expected_erase (down : Bool) (table : ∀ chain, rulesAt nat chain = expected lan base down chain)
    (rules : List Rule) (hit : rulesAt nat .prerouting = some rules) : rulesAt base .prerouting = some (rules.erase .jump) := by
  obtain ⟨old, before⟩ := Option.isSome_iff_exists.mp bare.prerouting
  have absent := bare_jump base bare _ old before
  rw [table, expected, before] at hit
  cases down with
  | false =>
    cases hit
    rw [before, List.erase_of_not_mem absent]
  | true =>
    cases hit
    rw [before, List.erase_append_right _ absent]
    simp

theorem up_table (down : Bool) (table : ∀ chain, rulesAt nat chain = expected lan base down chain) (chain : Chain) :
    rulesAt (prune Rule.target nat .netNetworkDown .prerouting .jump) chain = expected lan base false chain := by
  have there : (rulesAt nat .prerouting).isSome := by
    rw [table, expected]
    split
    · rw [Option.isSome_map]
      exact bare.prerouting
    · exact bare.prerouting
  obtain ⟨rules, hit⟩ := Option.isSome_iff_exists.mp there
  have erased := expected_erase lan base nat bare down table _ hit
  cases chain with
  | prerouting =>
    rw [rules_prune_other _ _ _ _ _ _ (by simp), if_pos rfl, hit]
    exact erased.symm
  | foreign name =>
    rw [rules_prune_other _ _ _ _ _ _ (by simp), if_neg (by simp), table]
    rfl
  | netNetworkDown =>
    apply rules_pruned
    · simp
    · exact expected_points lan base nat bare down table
    · intro other found rule inside jumps
      rw [hit] at found
      cases found
      exact bare.free _ ⟨_, erased, rule, inside, jumps⟩

end Table

variable (lan : Lan) (world : World) (base : Chains Chain Rule) (net : Netcheck) (change : Session → Session)

theorem down_table (base nat : Chains Chain Rule)
    (table : ∀ chain, rulesAt nat chain = expected lan base false chain) (chain : Chain) :
    rulesAt (appendRule Rule.target (appendRule Rule.target (grow Rule.target nat .netNetworkDown .prerouting .jump)
      .netNetworkDown (.http lan)) .netNetworkDown (.dns lan)) chain = expected lan base true chain := by
  have grown (other : Chain) := rules_grow Rule.target nat _ .prerouting other .jump (by simp) rfl
  rw [rules_append _ _ _ _ _ (lands_plain _ _ _ rfl), rules_append _ _ _ _ _ (lands_plain _ _ _ rfl),
    rules_append _ _ _ _ _ (lands_plain _ _ _ rfl), grown, grown, table, table, table]
  cases chain with
  | prerouting => rfl
  | foreign name => rfl
  | netNetworkDown => rfl

def Msg.opens : Msg → Option Bool
  | .dnsInterceptStart => some true
  | .dnsInterceptStop => some false
  | _ => none

def lastDns : List Msg → Option Bool
  | [] => none
  | msg :: rest => (lastDns rest).or msg.opens

theorem last_dns_append (queue : List Msg) (msg : Msg) : lastDns (queue ++ [msg]) = msg.opens.or (lastDns queue) := by
  induction queue with
  | nil => exact Option.or_none.symm
  | cons first rest ih => rw [List.cons_append, lastDns, ih, Option.or_assoc, lastDns]

def down (net : Netcheck) : Bool := net.envReady && !net.networkReady

structure Books (lan : Lan) (base : Chains Chain Rule) (net : Netcheck) : Prop where
  table : ∀ chain, rulesAt net.nat chain = expected lan base (down net) chain
  verdict : net.verdict = if net.envReady then some net.networkReady else none
  dns : (lastDns net.queue).getD net.sessDns = down net
  flag : net.dnsRun = net.sessDns

theorem upt_spec (up : Bool) (net : Netcheck) (bare : Bare base)
    (table : ∀ chain, rulesAt net.nat chain = expected lan base (down net) chain)
    (dns : (lastDns net.queue).getD net.sessDns = down net) : ∃ nat queue, fwNetworkUpt lan up net =
        { net with verdict := some up, envReady := true, networkReady := up, nat := nat, queue := queue } ∧
      (∀ chain, rulesAt nat chain = expected lan base (!up) chain) ∧ (lastDns queue).getD net.sessDns = !up := by
  rw [fwNetworkUpt]
  by_cases same : (net.envReady && net.networkReady == up) = true
  · rw [if_pos same]
    rw [Bool.and_eq_true, beq_iff_eq] at same
    have held : down net = !up := by rw [down, same.1, same.2, Bool.true_and]
    refine ⟨net.nat, net.queue, ?_, held ▸ table, held ▸ dns⟩
    rw [← same.1, ← same.2]
  · rw [if_neg same]
    cases up with
    | true =>
      refine ⟨_, _, rfl, up_table lan base _ bare _ table, ?_⟩
      show (lastDns ((net.queue ++ [_]) ++ [_])).getD _ = _
      rw [last_dns_append, last_dns_append]
      rfl
    | false =>
      have held : down net = false := by
        rw [down]
        cases env : net.envReady with
        | false => rfl
        | true =>
          rw [env, Bool.true_and] at same
          cases ready : net.networkReady with
          | true => rfl
          | false => exact absurd (by rw [ready]; rfl) same
      rw [held] at table
      refine ⟨_, _, rfl, down_table lan base _ table, ?_⟩
      show (lastDns ((net.queue ++ [_]) ++ [_])).getD _ = _
      rw [last_dns_append, last_dns_append]
      rfl

structure Sane (net : Netcheck) : Prop where
  st : net.st ≠ .start
  stopped : net.st = .stopped → net.sess = none ∧ net.envReady = false
  timer : net.st ≠ .stopped → (net.sess.bind Session.timer).isSome
  watch : ∀ sess, net.sess = some sess → sess.watch ≠ .none → net.st = .hb
  id : net.st = .hb ∨ net.st = .normal → net.id < netAddrs.length
  passed : net.passed = false

structure Entered (lan : Lan) (base : Chains Chain Rule) (net next : Netcheck) (st : Status) : Prop where
  books : Books lan base next
  sane : Sane next
  st : next.st = st
  run : next.run = net.run

section Enter

variable (lan : Lan) (base : Chains Chain Rule) (net : Netcheck) (bare : Bare base) (books : Books lan base net)
  (passed : net.passed = false)
include books passed

include bare in
theorem stopped_spec : Entered lan base net (pingStopped lan net) .stopped := by
  obtain ⟨nat, queue, upt, table, dns⟩ :=
    upt_spec lan base true { net with st := .stopped, sess := none } bare books.table books.dns
  rw [pingStopped, upt]
  refine ⟨⟨table, rfl, dns, books.flag⟩, ?_, rfl, rfl⟩
  exact ⟨by simp, fun _ => ⟨rfl, rfl⟩, fun other => absurd rfl other, nofun, by simp, passed⟩

include bare in
theorem err_spec (there : net.sess.isSome) : Entered lan base net (pingErr lan net) .err := by
  obtain ⟨sess, held⟩ := Option.isSome_iff_exists.mp there
  rw [pingErr]
  generalize shape : ({ net with st := .err }.onSess fun sess =>
    { sess with watch := .none, opened := false, timer := some pingIdleTimeout }) = closed
  have books' : Books lan base closed := by
    rw [← shape]
    exact ⟨books.table, books.verdict, books.dns, books.flag⟩
  have same : closed.st = .err ∧ closed.run = net.run ∧ closed.passed = net.passed ∧
      closed.sess = some { sess with watch := .none, opened := false, timer := some pingIdleTimeout } := by
    rw [← shape]
    exact ⟨rfl, rfl, rfl, by rw [Netcheck.onSess, held]; rfl⟩
  obtain ⟨st, run, seen, session⟩ := same
  obtain ⟨nat, queue, upt, table, dns⟩ := upt_spec lan base false closed bare books'.table books'.dns
  rw [upt]
  refine ⟨⟨table, rfl, dns, books'.flag⟩, ?_, st, run⟩
  refine ⟨by rw [st]; simp, fun other => ?_, fun _ => ?_, fun found hit watched => ?_, fun other => ?_, seen.trans passed⟩
  · rw [st] at other
    cases other
  · rw [session]
    rfl
  · rw [session] at hit
    cases hit
    exact absurd rfl watched
  · rw [st] at other
    obtain other | other := other
    · cases other
    · cases other

theorem into_ping_spec (there : net.sess.isSome) (id : net.id < netAddrs.length) :
    Entered lan base net (pingStIntoPing net) .hb := by
  obtain ⟨sess, held⟩ := Option.isSome_iff_exists.mp there
  refine ⟨{ books with }, ?_, rfl, rfl⟩
  refine ⟨by simp [pingStIntoPing, Netcheck.onSess], fun other => ?_, fun _ => ?_, fun _ _ _ => rfl, fun _ => id, passed⟩
  · cases other
  · rw [pingStIntoPing, Netcheck.onSess, held]
    rfl

end Enter

theorem connect_spec : ∃ change, (pingGwConnect world net).1 = net.onSess change := by
  rw [pingGwConnect]
  split
  · exact ⟨_, rfl⟩
  · refine ⟨id, ?_⟩
    rw [Netcheck.onSess, Option.map_id]
    rfl

theorem on_sess_books (books : Books lan base net) : Books lan base (net.onSess change) := { books with }

theorem on_sess_some (there : net.sess.isSome) : (net.onSess change).sess.isSome := by
  rw [Netcheck.onSess, Option.isSome_map]
  exact there

theorem start_spec (bare : Bare base) (books : Books lan base net) (passed : net.passed = false) :
    ∃ st, Entered lan base net (pingStart lan world net).1 st ∧
      ((pingStart lan world net).2 = true ↔ st ≠ .stopped) ∧ (net.escape = false → st ≠ .stopped) := by
  rw [pingStart]
  by_cases escape : net.escape = true
  · rw [if_pos escape]
    have entered := stopped_spec lan base _ bare
      { books with } passed
    refine ⟨.stopped, { entered with }, by simp, fun off => ?_⟩
    rw [escape] at off
    cases off
  · dsimp only
    rw [if_neg escape]
    generalize shape : ({ net with
        st := .start, sess := some _,
        ident := world.random % 65536, ntrans := 0, id := 0, retry := 3 } : Netcheck) = fresh
    have fields : Books lan base fresh ∧ fresh.sess.isSome ∧ fresh.passed = false ∧ fresh.run = net.run ∧ fresh.id = 0 := by
      rw [← shape]
      exact ⟨{ books with }, rfl, passed, rfl, rfl⟩
    obtain ⟨held, there, clean, run, id⟩ := fields
    by_cases gateway : world.gateway = []
    · rw [if_pos gateway]
      have entered := err_spec lan base _ bare held clean there
      exact ⟨.err, ⟨entered.books, entered.sane, entered.st, entered.run.trans run⟩, by simp, by simp⟩
    · rw [if_neg gateway]
      generalize addressed : (fresh.onSess fun sess => { sess with addr := world.gateway.take 63 }) = next
      obtain ⟨change, connected⟩ := connect_spec _ next
      rw [connected, ← addressed]
      have held := on_sess_books lan base _ change (on_sess_books lan base _
        (fun sess => { sess with addr := world.gateway.take 63 }) held)
      have there := on_sess_some _ change (on_sess_some _
        (fun sess => { sess with addr := world.gateway.take 63 }) there)
      split
      · have entered := into_ping_spec lan base _ held clean there (by
          show fresh.id < _
          rw [id]
          decide)
        exact ⟨.hb, ⟨entered.books, entered.sane, entered.st, entered.run.trans run⟩, by simp, by simp⟩
      · have entered := err_spec lan base _ bare held clean there
        exact ⟨.err, ⟨entered.books, entered.sane, entered.st, entered.run.trans run⟩, by simp, by simp⟩

structure Pending (lan : Lan) (base : Chains Chain Rule) (net : Netcheck) : Prop where
  books : Books lan base net
  there : net.sess.isSome
  id : net.id < netAddrs.length
  passed : net.passed = false

theorem to_ping_spec (bare : Bare base) (pending : Pending lan base net) (hb : net.st = .hb) :
    ∃ st, st ≠ .stopped ∧ Entered lan base net (pingToPing lan world net) st := by
  rw [pingToPing]
  generalize shape : ({ net with retry := net.retry - 1 }.onSess fun sess => { sess with watch := .none }) = next
  have fields : Pending lan base next ∧ next.run = net.run ∧ next.st = .hb := by
    rw [← shape]
    exact ⟨⟨on_sess_books lan base _ _ { pending.books with },
      on_sess_some _ _ pending.there, pending.id, pending.passed⟩, rfl, hb⟩
  obtain ⟨pending, run, hb⟩ := fields
  by_cases again : next.retry ≠ 0
  · rw [if_pos again]
    obtain ⟨sess, held⟩ := Option.isSome_iff_exists.mp pending.there
    refine ⟨.hb, by simp, on_sess_books lan base next _ pending.books, ?_, hb, run⟩
    refine ⟨by rw [Netcheck.onSess, hb]; simp, fun other => ?_, fun _ => ?_, fun _ _ _ => hb, fun _ => pending.id,
      pending.passed⟩
    · rw [Netcheck.onSess, hb] at other
      cases other
    · rw [Netcheck.onSess, held]
      rfl
  · rw [if_neg again]
    -- Index 0 is the fallback address, index 1 the NULL; the check has never been further.
    have small : next.id = 0 ∨ next.id = 1 := by
      have bound := pending.id
      simp only [netAddrs, List.length_cons, List.length_nil] at bound
      omega
    obtain first | second := small
    · have entry : netAddrs[next.id]? = some (some (ascii "115.28.38.73")) := by rw [first]; rfl
      rw [entry]
      dsimp only
      generalize moved : ({ next with id := next.id + 1 }.onSess fun sess =>
        { sess with opened := false, addr := ascii _ }) = away
      have fields : Pending lan base away ∧ away.run = next.run := by
        rw [← moved]
        refine ⟨⟨on_sess_books lan base _ _ { pending.books with }, on_sess_some _ _ pending.there, ?_, pending.passed⟩, rfl⟩
        show next.id + 1 < netAddrs.length
        rw [first]
        decide
      obtain ⟨pending, same⟩ := fields
      obtain ⟨change, connected⟩ := connect_spec _ away
      rw [connected]
      have held := on_sess_books lan base away change pending.books
      have there := on_sess_some away change pending.there
      split
      · have entered := into_ping_spec lan base _ held pending.passed there pending.id
        exact ⟨.hb, by simp, entered.books, entered.sane, entered.st, (entered.run.trans same).trans run⟩
      · have entered := err_spec lan base _ bare held pending.passed there
        exact ⟨.err, by simp, entered.books, entered.sane, entered.st, (entered.run.trans same).trans run⟩
    · have entry : netAddrs[next.id]? = some none := by rw [second]; rfl
      rw [entry]
      have entered := err_spec lan base { next with id := next.id + 1 } bare
        { pending.books with } pending.passed pending.there
      exact ⟨.err, by simp, entered.books, entered.sane, entered.st, entered.run.trans run⟩

theorem timeout_spec (bare : Bare base)
    (books : Books lan base net) (there : net.sess.isSome) (passed : net.passed = false) (st : net.st ≠ .start)
    (awake : net.st ≠ .stopped) (id : net.st = .hb ∨ net.st = .normal → net.id < netAddrs.length)
    (strict : net.st = .err → net.escape = false) :
    ∃ next, next ≠ .stopped ∧ Entered lan base net (pingTimeout lan world net) next := by
  rw [pingTimeout]
  cases shape : net.st with
  | start => exact absurd shape st
  | stopped => exact absurd shape awake
  | normal => exact ⟨.hb, by simp, into_ping_spec lan base net books passed there (id (.inr shape))⟩
  | hb => exact to_ping_spec lan _ base net bare ⟨books, there, id (.inl shape), passed⟩ shape
  | err =>
    obtain ⟨next, entered, -, running⟩ := start_spec lan _ base net bare books passed
    exact ⟨next, running (strict shape), entered⟩

theorem on_sess_sane (timer : ∀ sess, (change sess).timer = sess.timer)
    (watch : ∀ sess, (change sess).watch ≠ .none → sess.watch ≠ .none) (sane : Sane net) : Sane (net.onSess change) := by
  refine ⟨sane.st, fun stopped => ?_, fun awake => ?_, fun sess hit watched => ?_, sane.id, sane.passed⟩
  · obtain ⟨gone, unset⟩ := sane.stopped stopped
    exact ⟨by rw [Netcheck.onSess, gone]; rfl, unset⟩
  · have pending := sane.timer awake
    cases held : net.sess with
    | none =>
      rw [held] at pending
      cases pending
    | some sess =>
      rw [held] at pending
      rw [Netcheck.onSess, held]
      show (change sess).timer.isSome
      rw [timer]
      exact pending
  · obtain ⟨old, held, same⟩ := Option.map_eq_some_iff.mp hit
    rw [← same] at watched
    exact sane.watch old held (watch old watched)

structure Receiving (lan : Lan) (base : Chains Chain Rule) (net next : Netcheck) : Prop where
  books : Books lan base next
  sane : Sane next
  st : next.st = .hb ∨ next.st = .normal
  run : next.run = net.run

theorem recv_handle_spec (net next : Netcheck) (bare : Bare base)
    (receiving : Receiving lan base net next) : Receiving lan base net (pingRecvHandle lan next) := by
  obtain ⟨books, sane, st, run⟩ := receiving
  rw [pingRecvHandle]
  cases held : next.sess with
  | none => exact ⟨books, sane, st, run⟩
  | some sess =>
    dsimp only
    cases kind : icmpKind _ _ with
    | short => exact ⟨books, sane, st, run⟩
    | other =>
      refine ⟨on_sess_books lan base next _ books, ?_, st, run⟩
      exact on_sess_sane next _ (fun _ => rfl) (fun _ watched => watched) sane
    | reply =>
      generalize shape : (next.onSess fun sess =>
        { sess with bufIn := sess.bufIn.clear, watch := .none, timer := some _ }) = heard
      have fields : Books lan base heard ∧ heard.run = next.run ∧ heard.id = next.id ∧ heard.passed = next.passed ∧
          heard.sess = some { sess with bufIn := sess.bufIn.clear, watch := .none, timer := some pingIdleTimeout } := by
        rw [← shape]
        exact ⟨on_sess_books lan base next _ books, rfl, rfl, rfl, by rw [Netcheck.onSess, held]; rfl⟩
      obtain ⟨books, same, id, passed, session⟩ := fields
      obtain ⟨nat, queue, upt, table, dns⟩ := upt_spec lan base true _ bare books.table books.dns
      rw [upt]
      refine ⟨⟨table, rfl, dns, books.flag⟩, ?_, .inr rfl, same.trans run⟩
      refine ⟨by simp, fun other => ?_, fun _ => ?_, fun found hit watched => ?_, fun _ => ?_, passed.trans sane.passed⟩
      · cases other
      · rw [session]
        rfl
      · rw [session] at hit
        cases hit
        exact absurd rfl watched
      · exact id ▸ sane.id st

theorem recv_loop_spec (start room : Nat) (stream : List Recv)
    (net next : Netcheck) (bare : Bare base) (receiving : Receiving lan base net next) :
    Receiving lan base net (pingRecvLoop lan start room stream next).1 := by
  induction stream generalizing next with
  | nil => exact receiving
  | cons answer rest ih =>
    cases answer with
    | again => exact receiving
    | failed => exact receiving
    | data bytes =>
      rw [pingRecvLoop]
      split
      · exact receiving
      · apply ih
        apply recv_handle_spec lan base net _ bare
        refine ⟨on_sess_books lan base next _ receiving.books, ?_, receiving.st, receiving.run⟩
        exact on_sess_sane next _ (fun _ => rfl) (fun _ watched => watched) receiving.sane

theorem send_spec (result : Send) (net : Netcheck) (books : Books lan base net)
    (sane : Sane net) (hb : net.st = .hb) : Receiving lan base net (pingSend result net).1 ∧ (pingSend result net).1.st = .hb := by
  have here : Receiving lan base net net := ⟨books, sane, .inl hb, rfl⟩
  rw [pingSend.eq_def]
  cases held : net.sess with
  | none => exact ⟨here, hb⟩
  | some sess =>
    dsimp only
    split
    · exact ⟨here, hb⟩
    · cases result with
      | sent =>
        refine ⟨⟨on_sess_books lan base net _ books, ?_, .inl hb, rfl⟩, hb⟩
        refine ⟨sane.st, fun other => ?_, fun awake => ?_, fun _ _ _ => hb, sane.id, sane.passed⟩
        · rw [Netcheck.onSess, hb] at other
          cases other
        · have pending := sane.timer awake
          rw [held] at pending
          rw [Netcheck.onSess, held]
          exact pending
      | again => exact ⟨here, hb⟩
      | failed =>
        refine ⟨⟨on_sess_books lan base net _ books, ?_, .inl hb, rfl⟩, hb⟩
        exact on_sess_sane net _ (fun _ => rfl) (fun _ watched => watched) sane

theorem sane_there (sane : Sane net) (awake : net.st ≠ .stopped) : net.sess.isSome := by
  have pending := sane.timer awake
  cases held : net.sess with
  | none =>
    rw [held] at pending
    cases pending
  | some sess => rfl

structure Settled (lan : Lan) (base : Chains Chain Rule) (net : Netcheck) : Prop where
  books : Books lan base net
  sane : Sane net
  run : net.run = true ↔ net.st ≠ .stopped

theorem entered_settled (net next : Netcheck) (st : Status)
    (entered : Entered lan base net next st) (run : net.run = true ↔ st ≠ .stopped) : Settled lan base next := by
  refine ⟨entered.books, entered.sane, ?_⟩
  rw [entered.run, entered.st]
  exact run

theorem receiving_awake (net next : Netcheck) (receiving : Receiving lan base net next) : next.st ≠ .stopped := by
  obtain st | st := receiving.st
  · rw [st]
    simp
  · rw [st]
    simp

theorem evt_spec (event : SockEvent) (net : Netcheck)
    (bare : Bare base) (settled : Settled lan base net) : Settled lan base (pingEvt lan world event net) := by
  obtain ⟨books, sane, run⟩ := settled
  cases held : net.sess with
  | none =>
    rw [pingEvt.eq_def, held]
    cases event <;> exact ⟨books, sane, run⟩
  | some sess =>
    by_cases quiet : sess.watch = .none
    · rw [pingEvt.eq_def, held, Option.map_some, Option.getD_some, quiet]
      cases event <;> exact ⟨books, sane, run⟩
    · have hb := sane.watch sess held quiet
      have awake : net.st ≠ .stopped := by rw [hb]; simp
      have running := run.mpr awake
      -- Whatever fails on the socket puts the check into st_err.
      have failing (next : Netcheck) (receiving : Receiving lan base net next) : Settled lan base (pingErr lan next) := by
        have entered := err_spec lan base next bare receiving.books receiving.sane.passed
          (sane_there next receiving.sane (receiving_awake lan base net next receiving))
        apply entered_settled lan base next _ .err entered
        rw [receiving.run]
        simp [running]
      have going (next : Netcheck) (receiving : Receiving lan base net next) : Settled lan base next := by
        refine ⟨receiving.books, receiving.sane, ?_⟩
        rw [receiving.run]
        exact ⟨fun _ => receiving_awake lan base net next receiving, fun _ => running⟩
      have here : Receiving lan base net net := ⟨books, sane, .inl hb, rfl⟩
      have dispatch : ∀ event, Settled lan base (pingEvtRun lan world event net) := by
        intro event
        rw [pingEvtRun, hb]
        rw [pingPing.eq_def, held]
        cases event with
        | error => exact ⟨books, sane, run⟩
        | read stream =>
          have received := recv_loop_spec lan base sess.bufIn.wr sess.bufIn.left stream net net bare here
          dsimp only
          split
          · exact going _ received
          · exact failing _ received
        | write result =>
          have sent := (send_spec lan base result net books sane hb).1
          dsimp only
          split
          · exact going _ sent
          · exact failing _ sent
      rw [pingEvt.eq_def, held, Option.map_some, Option.getD_some]
      cases watch : sess.watch with
      | none => exact absurd watch quiet
      | read =>
        cases event with
        | error => exact failing net here
        | read stream => exact dispatch _
        | write result => exact ⟨books, sane, run⟩
      | write =>
        cases event with
        | error => exact failing net here
        | read stream => exact ⟨books, sane, run⟩
        | write result => exact dispatch _

theorem down_awake (sane : Sane net) (low : down net = true) : net.st ≠ .stopped := by
  intro stopped
  rw [down, (sane.stopped stopped).2] at low
  cases low

theorem run_spec (run : Bool) (net : Netcheck) (bare : Bare base)
    (settled : Settled lan base net) : Settled lan base (netRun lan world run net) := by
  obtain ⟨books, sane, running⟩ := settled
  cases run with
  | true =>
    rw [netRun, if_pos rfl]
    by_cases on : net.run = true
    · rw [if_pos on]
      exact ⟨books, sane, running⟩
    · rw [if_neg on]
      obtain ⟨st, entered, ok, -⟩ := start_spec lan _ base net bare books sane.passed
      by_cases done : (pingStart lan world net).2 = true
      · rw [if_pos done]
        refine ⟨{ entered.books with }, ?_, ?_⟩
        · have sane := entered.sane
          exact { sane with }
        · rw [entered.st]
          exact ⟨fun _ => ok.mp done, fun _ => rfl⟩
      · rw [if_neg done]
        apply entered_settled lan base net _ st entered
        exact ⟨fun held => absurd held on, fun other => absurd (ok.mpr other) done⟩
  | false =>
    rw [netRun, if_neg Bool.false_ne_true]
    by_cases on : net.run = true
    · rw [if_neg (by rw [on]; simp)]
      have entered := stopped_spec lan base { net with run := false } bare
        { books with } sane.passed
      exact entered_settled lan base _ _ _ entered (by simp)
    · rw [if_pos on]
      exact ⟨books, sane, running⟩

def Binds (net : Netcheck) (world : World) : Prop :=
  net.queue.head? = some .dnsInterceptStart → net.run = true → net.dnsRun = false → world.binds = true

theorem deliver_spec (msg : Msg)
    (rest : List Msg) (bare : Bare base) (settled : Settled lan base net) (shape : net.queue = msg :: rest)
    (binds : Binds net world) : Settled lan base (netProcess lan world msg { net with queue := rest }) := by
  obtain ⟨books, sane, running⟩ := settled
  have dns := books.dns
  rw [shape, lastDns] at dns
  have sane' : Sane { net with queue := rest } := { sane with }
  -- A message that is not about the intercept socket leaves its books alone.
  have plain (other : msg.opens = none) : Settled lan base { net with queue := rest } := by
    rw [other, Option.or_none] at dns
    exact ⟨⟨books.table, books.verdict, dns, books.flag⟩, sane', running⟩
  have later (opened dnsRun : Bool) (same : dnsRun = opened)
      (last : lastDns rest = none → opened = down net) :
      Settled lan base { net with queue := rest, sessDns := opened, dnsRun := dnsRun } := by
    refine ⟨⟨books.table, books.verdict, ?_, same⟩, ?_, running⟩
    · cases queued : lastDns rest with
      | none => exact last queued
      | some own =>
        rw [queued] at dns
        exact dns
    · exact { sane with }
  cases msg with
  | start => exact run_spec lan _ base true _ bare (plain rfl)
  | stop => exact run_spec lan _ base _ _ bare (plain rfl)
  | networkUp => exact plain rfl
  | networkDown => exact plain rfl
  | dnsInterceptStop =>
    have low : lastDns rest = none → false = down net := by
      intro queued
      rw [queued] at dns
      exact dns
    rw [netProcess, netDnsInterceptRun, if_neg Bool.false_ne_true]
    by_cases on : net.dnsRun = true
    · rw [if_neg (by rw [on]; simp)]
      exact later _ _ rfl low
    · rw [if_pos on]
      have closed : net.sessDns = false := by
        rw [← books.flag]
        exact Bool.eq_false_iff.mpr on
      exact later _ _ books.flag fun queued => closed.trans (low queued)
  | dnsInterceptStart =>
    have high : lastDns rest = none → true = down net := by
      intro queued
      rw [queued] at dns
      exact dns
    rw [netProcess]
    by_cases on : net.run = true
    · rw [if_neg (by rw [on]; simp), netDnsInterceptRun, if_pos rfl]
      by_cases opened : net.dnsRun = true
      · rw [if_pos opened]
        have there : net.sessDns = true := by rw [← books.flag, opened]
        exact later _ _ books.flag fun queued => there.trans (high queued)
      · rw [if_neg opened, if_pos (binds (by rw [shape]; rfl) on (Bool.eq_false_iff.mpr opened))]
        exact later true true rfl high
    · rw [if_pos on]
      apply later _ _ books.flag
      intro queued
      exact absurd (running.mpr (down_awake net sane (high queued).symm)) on

def EventSound (net : Netcheck) : Event → Prop
  | .deliver world => Binds net world
  | .timeout _ => net.st = .err → net.escape = false
  | .dnsError => net.sessDns = false
  | _ => True

theorem net_step_settled (event : Event) (bare : Bare base)
    (settled : Settled lan base net) (sound : EventSound net event) : Settled lan base (netStep lan net event) := by
  have books := settled.books
  have sane := settled.sane
  cases event with
  | send run =>
    refine ⟨⟨books.table, books.verdict, ?_, books.flag⟩, ?_, settled.run⟩
    · show (lastDns (net.queue ++ [_])).getD _ = down net
      rw [last_dns_append]
      cases run <;> exact books.dns
    · exact { sane with }
  | call run world =>
    cases run with
    | false => exact run_spec lan world base false net bare settled
    | true => exact run_spec lan _ base true net bare settled
  | deliver world =>
    rw [netStep]
    cases shape : net.queue with
    | nil => exact settled
    | cons msg rest => exact deliver_spec lan _ base net msg rest bare settled shape sound
  | escape on =>
    exact ⟨{ books with },
      { sane with }, settled.run⟩
  | timeout world =>
    rw [netStep]
    split
    · rename_i pending
      have awake : net.st ≠ .stopped := by
        intro stopped
        rw [(sane.stopped stopped).1] at pending
        cases pending
      have there := on_sess_some net (fun sess => { sess with timer := none }) (sane_there net sane awake)
      obtain ⟨st, running, entered⟩ := timeout_spec lan _ base _
        bare (on_sess_books lan base net _ books) there sane.passed sane.st awake sane.id sound
      apply entered_settled lan base _ _ st entered
      exact ⟨fun _ => running, fun _ => settled.run.mpr awake⟩
    · exact settled
  | sock event world => exact evt_spec lan _ base _ net bare settled
  | dnsError =>
    rw [netStep, if_neg (by rw [sound]; simp)]
    exact settled

theorem gateway_check_consistent (lan : Lan) (base : Chains Chain Rule) (events : List Event) (bare : Bare base)
    (sound : AllSteps (netStep lan) EventSound (Netcheck.init base) events) :
    let net := run (netStep lan) (Netcheck.init base) events
    net.queue = [] →
      (net.run = true ↔ net.st ≠ .stopped) ∧ (net.st ≠ .stopped → (net.sess.bind Session.timer).isSome) ∧
        (∀ chain, rulesAt net.nat chain = expected lan base (net.verdict == some false) chain) ∧
        ((rulesAt net.nat .prerouting).getD []).count .jump = (if net.verdict = some false then 1 else 0) ∧
        net.sessDns = (net.verdict == some false) ∧ net.passed = false := by
  intro net drained
  have start : Settled lan base (Netcheck.init base) := by
    refine ⟨⟨?_, rfl, rfl, rfl⟩, ?_, by simp [Netcheck.init]⟩
    · intro chain
      cases chain with
      | netNetworkDown => exact bare.chain
      | prerouting => rfl
      | foreign name => rfl
    · exact ⟨by simp [Netcheck.init], fun _ => ⟨rfl, rfl⟩, fun other => absurd rfl other, nofun,
        by simp [Netcheck.init], rfl⟩
  have settled : Settled lan base net := run_keeps _ _ _ _ _
    start (fun net event held allowed => net_step_settled lan base net _ bare held allowed) sound
  have low : (net.verdict == some false) = down net := by
    rw [settled.books.verdict, down]
    cases net.envReady <;> cases net.networkReady <;> rfl
  have dns := settled.books.dns
  rw [drained] at dns
  refine ⟨settled.run, settled.sane.timer, ?_, ?_, ?_, settled.sane.passed⟩
  · rw [low]
    exact settled.books.table
  · obtain ⟨rules, hit⟩ := Option.isSome_iff_exists.mp bare.prerouting
    have absent := bare_jump base bare _ _ hit
    have count : rules.count _ = 0 := List.count_eq_zero.mpr absent
    rw [settled.books.table, expected, hit]
    by_cases verdict : net.verdict = some false
    · rw [← low, verdict, if_pos rfl]
      simp [count]
    · rw [← low, if_neg verdict, if_neg (by simpa using verdict)]
      exact count
  · rw [low]
    exact dns

def sampleLan : Lan := ⟨ascii "br-lan", ascii "192.168.1.1"⟩

def sampleBase : Chains Chain Rule := [(.prerouting, [.foreign 1])]

theorem sample_bare : Bare sampleBase where
  prerouting := rfl
  chain := rfl
  free := by
    intro origin ⟨rules, hit, rule, inside, jumps⟩
    cases origin with
    | prerouting =>
      cases hit
      rw [List.mem_singleton.mp inside] at jumps
      cases jumps
    | netNetworkDown => cases hit
    | foreign name => cases hit

def noGateway : World := ⟨7, [], true, true⟩

def gateway : World := ⟨7, ascii "10.0.0.1", true, true⟩

instance (net : Netcheck) (event : Event) : Decidable (EventSound net event) := by
  cases event <;> unfold EventSound <;> try unfold Binds
  all_goals infer_instance

def sampleEvents : List Event :=
  [.send true, .deliver gateway, .send false, .deliver gateway, .deliver gateway, .deliver gateway,
    .call true noGateway, .deliver gateway, .deliver gateway, .timeout gateway, .sock (.write .sent) gateway,
    .sock (.read [.data ([69] ++ List.replicate 19 0 ++ [0, 0, 0, 0, 7, 0, 0, 0]), .again]) gateway, .deliver gateway,
    .deliver gateway, .timeout gateway, .timeout gateway, .timeout gateway, .timeout gateway, .timeout gateway,
    .timeout gateway, .timeout gateway, .deliver gateway, .deliver gateway]

theorem gateway_check_consistent_sample :
    let net := run (netStep sampleLan) (Netcheck.init sampleBase) sampleEvents
    net.st = .err ∧ net.verdict = some false ∧ net.sessDns = true ∧
      rulesAt net.nat .prerouting = some [.foreign 1, .jump] := by
  have sound : AllSteps (netStep sampleLan) EventSound (Netcheck.init sampleBase) sampleEvents := by decide +kernel
  have reached : (run (netStep sampleLan) (Netcheck.init sampleBase) sampleEvents).st = .err ∧
      (run (netStep sampleLan) (Netcheck.init sampleBase) sampleEvents).verdict = some false ∧
        (run (netStep sampleLan) (Netcheck.init sampleBase) sampleEvents).queue = [] := by
    decide +kernel
  have consistent := gateway_check_consistent _ _ _ sample_bare sound
  generalize run _ _ _ = net at reached consistent ⊢
  obtain ⟨st, verdict, drained⟩ := reached
  obtain ⟨-, -, table, -, dns, -⟩ := consistent drained
  have low : (net.verdict == some false) = true := by rw [verdict]; rfl
  refine ⟨st, verdict, dns.trans low, ?_⟩
  rw [table, low]
  rfl

-- Three ways out of step: the escape setting found by the retry of a failed
-- check, an intercept socket that cannot be bound, and one that fails later.
theorem check_out_of_step :
    let after events := run (netStep sampleLan) (Netcheck.init sampleBase) events
    let down : List Event := [.call true noGateway, .deliver noGateway, .deliver noGateway]
    let escaped := after (down ++ [.escape true, .timeout noGateway, .deliver noGateway, .deliver noGateway])
    let unbound := after [.call true noGateway, .deliver { noGateway with binds := false }, .deliver noGateway]
    let failed := after (down ++ [.dnsError])
    (escaped.queue = [] ∧ escaped.run = true ∧ escaped.st = .stopped) ∧
      (unbound.queue = [] ∧ unbound.run = true ∧ unbound.verdict = some false ∧ unbound.sessDns = false) ∧
        failed.queue = [] ∧ failed.run = true ∧ failed.verdict = some false ∧ failed.sessDns = false := by
  decide +kernel

end Codec.Net
