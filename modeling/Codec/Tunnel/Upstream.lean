import Codec.Tunnel.Registry

set_option autoImplicit false

namespace Codec.Tunnel

open Codec.Ems Codec.Lib

def upstream (log : List Pkg) (id : UInt32) : Str := (log.filter fun pkg => pkg.isWeb && decide (pkg.id = id)).flatMap (·.val)

def Intact (tunnel : EmsTunnel) : Prop :=
  ∀ addr tsess, tunnel.table.heap addr = some tsess → tsess.st ≠ .err →
    upstream (tunnel.line.log.drop tsess.since) tsess.id = tsess.read

structure Flow (tunnel : EmsTunnel) : Prop where
  sound : TableSound tunnel.table
  since : ∀ addr tsess, tunnel.table.heap addr = some tsess → tsess.since ≤ tunnel.line.log.length
  intact : Intact tunnel

theorem upstream_append (first second : List Pkg) (id : UInt32) :
    upstream (first ++ second) id = upstream first id ++ upstream second id := by
  rw [upstream, List.filter_append, List.flatMap_append]
  rfl

theorem upstream_silent (pkgs : List Pkg) (id : UInt32) (silent : ∀ pkg ∈ pkgs, Silent pkg ∨ pkg.id ≠ id) :
    upstream pkgs id = [] := by
  refine List.flatMap_eq_nil_iff.mpr fun pkg there => ?_
  obtain ⟨member, kept⟩ := List.mem_filter.mp there
  simp only [Bool.and_eq_true, decide_eq_true_eq] at kept
  rcases silent pkg member with quiet | apart
  · exact quiet kept.1
  · exact absurd kept.2 apart

theorem upstream_web (id : UInt32) (bytes : Str) : upstream [⟨msgTypeWeb, id, bytes⟩] id = bytes := by
  have type : msgTypeWeb &&& 0x0fff = msgTypeWeb := by decide
  have web : (⟨msgTypeWeb, id, bytes⟩ : Pkg).isWeb = true := decide_eq_true type
  simp [upstream, web]

theorem upstream_since (log pkgs : List Pkg) (since : Nat) (id : UInt32) (short : since ≤ log.length) :
    upstream ((log ++ pkgs).drop since) id = upstream (log.drop since) id ++ upstream pkgs id := by
  rw [List.drop_append_of_le_length short, upstream_append]

theorem flow_kept (before after : EmsTunnel) (flow : Flow before) (pkgs : List Pkg) (sound : TableSound after.table)
    (log : after.line.log = before.line.log ++ pkgs)
    (old : ∀ addr tsess, after.table.heap addr = some tsess → ∃ was, before.table.heap addr = some was ∧
      tsess.since = was.since ∧ (tsess.st ≠ .err → was.st ≠ .err ∧ tsess.id = was.id ∧ tsess.read = was.read ∧
        ∀ pkg ∈ pkgs, Silent pkg ∨ pkg.id ≠ tsess.id)) : Flow after := by
  refine ⟨sound, ?_, ?_⟩
  · intro addr tsess live
    obtain ⟨was, there, since, _⟩ := old addr _ live
    have short := flow.since addr was there
    rw [log, List.length_append]
    omega
  · intro addr tsess live up
    obtain ⟨was, there, since, kept⟩ := old addr _ live
    obtain ⟨alive, id, read, silent⟩ := kept up
    rw [log, since, upstream_since _ _ _ _ (flow.since addr was there), upstream_silent pkgs _ silent, List.append_nil,
      id, read]
    exact flow.intact addr was there alive

theorem flow_data (before : EmsTunnel) (flow : Flow before) (addr : Nat) (tsess : Tsess) (bytes : Str) (line : Line)
    (live : before.table.heap addr = some tsess) (log : line.log = before.line.log ++ [⟨msgTypeWeb, tsess.id, bytes⟩]) :
    Flow ⟨line, before.table.modify addr fun tsess => tsess.reading bytes, before.run⟩ := by
  refine ⟨table_modify_sound _ flow.sound addr _ fun _ _ => rfl, ?_, ?_⟩
  · intro other item there
    obtain ⟨was, old, made⟩ := modify_live _ addr _ _ item there
    have short := flow.since _ was old
    have same : item.since = was.since := by
      rw [made]
      split <;> rfl
    rw [log, List.length_append, same]
    omega
  · intro other item there up
    obtain ⟨was, old, made⟩ := modify_live _ addr _ _ item there
    have short := flow.since _ was old
    by_cases here : other = addr
    · subst other
      cases Option.some.inj (live.symm.trans old)
      rw [if_pos rfl] at made
      subst made
      have intact := flow.intact addr _ live up
      rw [log, Tsess.reading, upstream_since _ _ _ _ short, intact, upstream_web]
    · rw [if_neg here] at made
      subst made
      have apart : tsess.id ≠ item.id := fun same => here (session_single _ flow.sound addr _ _ _ live old same).symm
      rw [log, upstream_since _ _ _ _ short, upstream_silent [⟨msgTypeWeb, tsess.id, bytes⟩], List.append_nil]
      · exact flow.intact _ item old up
      · intro pkg only
        rw [List.mem_singleton.mp only]
        exact .inr apart

theorem move_flow (born : Pkg → Prop) (loses : Prop) (fine : ¬ loses) (before after : EmsTunnel) (flow : Flow before)
    (move : Move born loses before after) : Flow after := by
  have sound := move_sound born _ _ _ flow.sound move
  have none : before.line.log = before.line.log ++ [] := (List.append_nil _).symm
  cases move with
  | line line run pkgs log silent =>
    exact flow_kept _ _ flow pkgs sound log fun addr tsess live =>
      ⟨tsess, live, rfl, fun up => ⟨up, rfl, rfl, fun pkg there => .inl (silent pkg there)⟩⟩
  | change addr change quiet =>
    refine flow_kept _ _ flow [] sound none fun other tsess live => ?_
    obtain ⟨was, old, made⟩ := modify_live _ addr _ _ _ live
    refine ⟨was, old, ?_⟩
    subst made
    split
    · rename_i here
      have kept := quiet was (here ▸ old)
      exact ⟨kept.since, fun up => ⟨(kept.up up).1, kept.id, (kept.up up).2, List.forall_mem_nil _⟩⟩
    · exact ⟨rfl, fun up => ⟨up, rfl, rfl, List.forall_mem_nil _⟩⟩
  | ends addr item change line pkgs live log id since down own =>
    refine flow_kept _ _ flow pkgs sound log fun other tsess there => ?_
    obtain ⟨was, old, made⟩ := modify_live _ addr _ _ _ there
    refine ⟨was, old, ?_⟩
    subst made
    split
    · subst other
      cases Option.some.inj (live.symm.trans old)
      exact ⟨since, fun up => absurd down up⟩
    · rename_i apart
      refine ⟨rfl, fun up => ⟨up, rfl, rfl, fun pkg member => .inr fun same => ?_⟩⟩
      exact apart (session_single _ flow.sound _ addr was item old live (same.symm.trans (own pkg member)))
  | data addr tsess bytes line live log => exact flow_data _ flow addr _ _ line live log
  | lost addr bytes able => exact absurd able fine
  | insert pkg able absent =>
    refine ⟨sound, ?_, ?_⟩
    · intro addr tsess live
      rcases (insert_live _ flow.sound pkg _ addr _).mp live with ⟨_, rfl⟩ | old
      · exact Nat.le_refl _
      · exact flow.since addr _ old
    · intro addr tsess live up
      rcases (insert_live _ flow.sound pkg _ addr _).mp live with ⟨_, rfl⟩ | old
      · exact congrArg (upstream · _) (List.drop_of_length_le (Nat.le_refl _))
      · exact flow.intact addr _ old up
  | skip => exact ⟨sound, flow.since, flow.intact⟩
  | remove addr =>
    refine flow_kept _ _ flow [] sound none fun other tsess live => ?_
    exact ⟨tsess, ((remove_live _ addr _ _).mp live).2, rfl,
      fun up => ⟨up, rfl, rfl, List.forall_mem_nil _⟩⟩
  | wipe =>
    refine ⟨sound, ?_, ?_⟩
    · exact fun addr tsess live => absurd live (stop_all_live _ flow.sound addr _)
    · exact fun addr tsess live => absurd live (stop_all_live _ flow.sound addr _)

theorem step_flow (site : Site) (tunnel : EmsTunnel) (event : Event) (flow : Flow tunnel)
    (taken : ¬ Refused tunnel event) : Flow (step site tunnel event) :=
  moves_keep _ _ Flow (move_flow _ _ taken) _ _ (step_moves site _ _ flow.sound) flow

theorem flow_init : Flow EmsTunnel.init where
  sound := table_sound_init
  since := fun _ _ live => nomatch live
  intact := fun _ _ live => nomatch live

theorem run_flow (site : Site) (events : List Event)
    (taken : AllSteps (step site) (fun tunnel event => ¬ Refused tunnel event) EmsTunnel.init events) :
    Flow (run (step site) EmsTunnel.init events) :=
  run_keeps _ _ Flow _ _ flow_init
    (fun _ _ flow allowed => step_flow site _ _ flow allowed) taken

theorem refused_breaks (site : Site) (tunnel : EmsTunnel) (event : Event) (flow : Flow tunnel)
    (refused : Refused tunnel event) : ¬ Intact (step site tunnel event) := by
  cases event with
  | webRead addr chunk =>
    obtain ⟨⟨tsess, live, normal⟩, some, full⟩ := refused
    have same := line_pack_refused _ ⟨msgTypeWeb, tsess.id, chunk.val⟩ full
    have next : step site tunnel (.webRead addr chunk) = tunnel.modify addr fun tsess => tsess.reading chunk.val := by
      simp only [step, live, if_pos normal, tsessRead, tsessProcessRsp, if_neg some, EmsTunnel.pack]
      dsimp only [EmsTunnel.modify]
      rw [same]
    have here : (step site tunnel (.webRead addr chunk)).table.heap addr = Option.some (tsess.reading chunk.val) := by
      rw [next]
      dsimp only [EmsTunnel.modify]
      rw [modify_here, live, Option.map_some]
    have up : tsess.st ≠ .err := by simp [normal]
    intro intact
    have whole := intact addr _ here up
    rw [next] at whole
    change upstream (tunnel.line.log.drop tsess.since) tsess.id = tsess.read ++ chunk.val at whole
    rw [flow.intact addr _ live up] at whole
    exact some (List.self_eq_append_right.mp whole)
  | _ => exact refused.elim

theorem upstream_intact_iff (site : Site) (events : List Event) :
    (∀ before behind, events = before ++ behind → Intact (run (step site) EmsTunnel.init before)) ↔
      AllSteps (step site) (fun tunnel event => ¬ Refused tunnel event) EmsTunnel.init events := by
  constructor
  · intro intact
    by_contra some
    obtain ⟨before, event, behind, split, taken, refused⟩ := first_not_allowed _ _ _ _ some
    have broken := refused_breaks site _ _ (run_flow site _ taken) (not_not.mp refused)
    have whole := intact (before ++ [event]) _ (by rw [split, List.append_assoc]; rfl)
    rw [run_append] at whole
    exact broken whole
  · intro taken before behind split
    rw [split, all_steps_append] at taken
    exact (run_flow site _ taken.1).intact

def Reported (tunnel : EmsTunnel) : Event → Prop
  | .frame _ => ∃ flg ∈ tunnel.line.watch, flg &&& evtRead ≠ 0
  | .webConnected addr _ => ∃ tsess ∈ tunnel.table.heap addr, ∃ flg ∈ tsess.watch, flg ≠ 0
  | .webRead addr _ => ∃ tsess ∈ tunnel.table.heap addr, ∃ flg ∈ tsess.watch, flg &&& evtRead ≠ 0
  | _ => True

instance (tunnel : EmsTunnel) (event : Event) : Decidable (Reported tunnel event) := by
  rcases event <;> unfold Reported <;> infer_instance

def fullChunk : Chunk := ⟨List.replicate 1024 120, by rw [List.length_replicate]⟩

theorem chunk_length : fullChunk.val.length = 1024 := List.length_replicate

def visit (addr : Nat) : List Event := [.frame ⟨msgTypeWeb, 7, []⟩, .webConnected addr false, .webRead addr fullChunk]

def visits : Nat → List Event
  | 0 => [.start .online 1, .frame ⟨msgTypeTunnel, 1, ascii "{}"⟩]
  | count + 1 => visits count ++ visit count ++ [.frame ⟨msgWebDown, 7, []⟩]

structure Filling (tunnel : EmsTunnel) (next wr size : Nat) : Prop where
  flow : Flow tunnel
  none : ∀ addr, tunnel.table.heap addr = none
  next : tunnel.table.next = next
  line : tunnel.line.alive = true ∧ tunnel.line.st = .normal ∧ tunnel.line.opened = true ∧
    tunnel.line.watch = some (evtRead ||| evtWrite)
  room : tunnel.line.buf.rd = 0 ∧ tunnel.line.buf.wr = wr ∧ tunnel.line.buf.size = size


theorem init_left (sz : Nat) : (Buffer.init sz).left = sz := List.length_replicate

theorem init_len (sz : Nat) : (Buffer.init sz).len = 0 := rfl

theorem unpack_taken (pkg : Pkg) (tunnel : EmsTunnel) (addr : Nat) (tsess : Tsess)
    (live : tunnel.table.heap addr = some tsess) (enough : pkg.val.length < tsess.buf.left)
    (short : tsess.buf.len ≤ 2048) : tunnelUnpackmsg pkg tunnel addr = (.ok, tunnel.modify addr fun tsess => tsess.unpack pkg) := by
  have room : ¬ tsess.buf.left ≤ pkg.val.length := by omega
  have some : ¬ Insufficient _ pkg := fun full => room full.1
  unfold tunnelUnpackmsg
  rw [live]
  dsimp only
  rw [if_neg some, if_neg room, if_neg (by omega)]

def askedSess (since : Nat) : Tsess := ⟨7, .connect, true, false, some evtWrite, some 15000, Buffer.init 1024, [], since⟩

theorem visit_asked (tunnel : EmsTunnel) (next wr size : Nat) (filling : Filling tunnel next wr size) :
    let asked := step plainSite tunnel (.frame ⟨msgTypeWeb, 7, []⟩)
    asked.line = tunnel.line ∧ asked.table.next = next + 1 ∧
      ∀ addr, asked.table.heap addr = if addr = next then some (askedSess tunnel.line.log.length) else none := by
  obtain ⟨alive, normal, _, _⟩ := filling.line
  have talking : tunnel.line.talking = true := by simp [Line.talking, alive, normal]
  have absent : tunnelSessionFind tunnel.table 7 = none := by
    cases found : tunnelSessionFind _ 7 with
    | none => rfl
    | some addr =>
      obtain ⟨tsess, live, _⟩ := session_find_live _ filling.flow.sound 7 addr found
      rw [filling.none addr] at live
      cases live
  have web : (⟨msgTypeWeb, 7, []⟩ : Pkg).isWeb = true := by decide
  let begun : EmsTunnel := EmsTunnel.modify
    { tunnel with table := tunnel.table.insert ⟨msgTypeWeb, 7, []⟩ tunnel.line.log.length } tunnel.table.next
    fun tsess => { tsess with st := .connect, opened := true, watch := some (evtRead ||| evtWrite), timer := some 15000 }
  have live : begun.table.heap tunnel.table.next = some
      ⟨7, .connect, true, false, some (evtRead ||| evtWrite), some 15000, Buffer.init 1024, [], tunnel.line.log.length⟩ := by
    simp [begun, EmsTunnel.modify, Table.insert]
  have given : tunnelDispatchNew plainSite _ _ =
      tunnelUnpackmsg _ begun _ := rfl
  have taken := unpack_taken ⟨msgTypeWeb, 7, []⟩ _ _ _ live
    (by rw [init_left]; decide) (by rw [init_len]; decide)
  have dispatched : tunnelDispatcher plainSite tunnel ⟨msgTypeWeb, 7, []⟩ =
      (.ok, begun.modify tunnel.table.next fun tsess => tsess.unpack ⟨msgTypeWeb, 7, []⟩) := by
    rw [tunnelDispatcher, if_pos web, tunnelDispatchToWeb, absent]
    exact given.trans taken
  have whole : step plainSite tunnel (.frame ⟨msgTypeWeb, 7, []⟩) =
      begun.modify tunnel.table.next fun tsess => tsess.unpack ⟨msgTypeWeb, 7, []⟩ := by
    rw [step, if_pos talking, tunnelFrame, dispatched]
  have written : (Buffer.init 1024).write [] = Buffer.init 1024 := by decide +kernel
  rw [whole]
  refine ⟨rfl, congrArg _ filling.next, fun addr => ?_⟩
  by_cases here : addr = next
  · rw [if_pos here, here, ← filling.next]
    dsimp only [EmsTunnel.modify]
    rw [modify_here, live, Option.map_some]
    dsimp only [Tsess.unpack, askedSess]
    rw [if_neg (by rw [init_left]; decide), written]
    rfl
  · rw [if_neg here]
    rw [← filling.next] at here
    dsimp only [EmsTunnel.modify, begun]
    rw [modify_other _ _ _ _ here, modify_other _ _ _ _ here]
    simp [Table.insert, here, filling.none]
theorem visit_connected (asked : EmsTunnel) (next since : Nat) (line : Line) (same : asked.line = line)
    (heap : ∀ addr, asked.table.heap addr = if addr = next then some (askedSess since) else none) :
    let connected := step plainSite asked (.webConnected next false)
    connected.line = line ∧ connected.table.next = asked.table.next ∧ ∀ addr, connected.table.heap addr =
      if addr = next then some (askedSess since).connected else none := by
  have live := (heap next).trans (if_pos rfl)
  have whole : step plainSite asked (.webConnected next false) = asked.modify next Tsess.connected := by
    simp only [step, live]
    rfl
  rw [whole]
  refine ⟨same, rfl, fun addr => ?_⟩
  dsimp only [EmsTunnel.modify]
  by_cases here : addr = next
  · rw [if_pos here, here, modify_here, live, Option.map_some]
  · rw [if_neg here, modify_other _ _ _ _ here, heap addr, if_neg here]

theorem visit_read (connected : EmsTunnel) (next wr size : Nat) (sess : Tsess) (normal : sess.st = .normal) (id : sess.id = 7)
    (line : connected.line.alive = true ∧ connected.line.st = .normal ∧ connected.line.opened = true)
    (room : connected.line.buf.rd = 0 ∧ connected.line.buf.wr = wr ∧ connected.line.buf.size = size)
    (heap : ∀ addr, connected.table.heap addr = if addr = next then some sess else none)
    (taken : packRoom connected.line.buf 1024 ≠ none) :
    let read := step plainSite connected (.webRead next fullChunk)
    (read.line.alive = true ∧ read.line.st = .normal ∧ read.line.opened = true ∧
      read.line.watch = some (evtRead ||| evtWrite)) ∧
      (read.line.buf.rd = 0 ∧ read.line.buf.wr = wr + 1032 ∧
        read.line.buf.size = if size - wr ≤ 1032 then size + 2048 else size) ∧
      read.table.next = connected.table.next ∧
      ∃ left, left.id = 7 ∧ ∀ addr, read.table.heap addr = if addr = next then some left else none := by
  have live := (heap next).trans (if_pos rfl)
  have length := chunk_length
  have some : fullChunk.val ≠ [] := by
    intro empty
    rw [empty] at length
    cases length
  have numbers := packmsg_numbers _ ⟨msgTypeWeb, sess.id, fullChunk.val⟩ room.1 (Nat.le_of_eq length)
    (by rw [length]; exact taken)
  obtain ⟨_, buf, watch⟩ := line_pack_fields _ ⟨msgTypeWeb, sess.id, fullChunk.val⟩
    (by rw [length]; exact taken)
  have own := pack_kept connected.line ⟨msgTypeWeb, sess.id, fullChunk.val⟩
  have whole : ∃ change : Tsess → Tsess, (change sess).id = 7 ∧ step plainSite connected (.webRead next fullChunk) =
      ⟨(connected.line.pack ⟨msgTypeWeb, sess.id, fullChunk.val⟩).2, connected.table.modify next change, connected.run⟩ := by
    have reads : step plainSite connected (.webRead next fullChunk) = tsessRead connected next sess fullChunk.val := by
      simp only [step, live, if_pos normal]
    rw [reads, tsessRead, tsessProcessRsp, if_neg some]
    split
    · rename_i same
      obtain ⟨_, rfl⟩ := Prod.mk.inj same
      exact ⟨_, id, congrArg (EmsTunnel.mk _ · _) (modify_twice _ next _ _)⟩
    · rename_i same
      obtain ⟨_, rfl⟩ := Prod.mk.inj same
      exact ⟨_, id, rfl⟩
  obtain ⟨change, kept, whole⟩ := whole
  rw [whole]
  dsimp only
  rw [buf, watch, own.alive, own.st, own.opened, line.2.2]
  refine ⟨⟨line.1, line.2.1, rfl, rfl⟩, ?_, rfl, change sess, kept, fun addr => ?_⟩
  · rw [length, room.2.1, room.2.2] at numbers
    have left : connected.line.buf.left = size - wr := by
      rw [← room.2.1, ← room.2.2]
      rfl
    rw [left] at numbers
    exact numbers
  · by_cases here : addr = next
    · rw [if_pos here, here, modify_here, live, Option.map_some]
    · rw [if_neg here, modify_other _ _ _ _ here, heap addr, if_neg here]

theorem visit_left (read : EmsTunnel) (next : Nat) (sess : Tsess) (id : sess.id = 7) (sound : TableSound read.table)
    (line : read.line.alive = true ∧ read.line.st = .normal)
    (heap : ∀ addr, read.table.heap addr = if addr = next then some sess else none) :
    let stopped := step plainSite read (.frame ⟨msgWebDown, 7, []⟩)
    stopped.line = read.line ∧ stopped.table.next = read.table.next ∧ ∀ addr, stopped.table.heap addr = none := by
  have talking : read.line.talking = true := by simp [Line.talking, line.1, line.2]
  have found : tunnelSessionFind _ 7 = some next := id ▸ session_find_here _ sound next sess ((heap next).trans (if_pos rfl))
  have web : (⟨msgWebDown, 7, []⟩ : Pkg).isWeb = true := by decide
  have rst : (⟨msgWebDown, 7, []⟩ : Pkg).isRst = true := by decide
  have dispatched : tunnelDispatcher plainSite read ⟨msgWebDown, 7, []⟩ = (.ok, tsessStopped read next) := by
    rw [tunnelDispatcher, if_pos web, tunnelDispatchToWeb, found]
    exact if_pos rst
  have whole : step plainSite read (.frame ⟨msgWebDown, 7, []⟩) = tsessStopped read next := by
    rw [step, if_pos talking, tunnelFrame, dispatched]
  rw [whole]
  refine ⟨rfl, rfl, fun addr => ?_⟩
  by_cases here : addr = next <;> simp [tsessStopped, Table.remove, here, heap addr]

def fill (numbers : Nat × Nat) : Option (Nat × Nat) :=
  if numbers.2 - numbers.1 ≤ 1032 then
    if 524288 ≤ numbers.2 then none else some (numbers.1 + 1032, numbers.2 + 2048)
  else some (numbers.1 + 1032, numbers.2)

def filled : Nat → Option (Nat × Nat)
  | 0 => some (47, 1024)
  | count + 1 => (filled count).bind fill

theorem room_fill (buf : Buffer) : packRoom buf 1024 = none ↔ fill (buf.wr, buf.size) = none := by
  have room : packRoom buf 1024 = if buf.size - buf.wr ≤ 1032 then
      if 524288 ≤ buf.size then none else some _ else some buf := rfl
  rw [room, fill]
  by_cases low : buf.size - buf.wr ≤ 1032
  · rw [if_pos low, if_pos low]
    by_cases large : 524288 ≤ buf.size
    · rw [if_pos large, if_pos large]
      exact ⟨fun _ => rfl, fun _ => rfl⟩
    · rw [if_neg large, if_neg large]
      exact ⟨(nomatch ·), (nomatch ·)⟩
  · rw [if_neg low, if_neg low]
    exact ⟨(nomatch ·), (nomatch ·)⟩

theorem filling_start : Filling (run (step plainSite) EmsTunnel.init (visits 0)) 0 47 1024 ∧
    AllSteps (step plainSite) Reported EmsTunnel.init (visits 0) := by
  have taken : AllSteps (step plainSite) (fun tunnel event => ¬ Refused tunnel event) EmsTunnel.init (visits 0) :=
    ⟨id, id, trivial⟩
  have flow := run_flow _ _ taken
  have empty : (run (step plainSite) EmsTunnel.init (visits 0)).table.list = [] := by decide +kernel
  have watch : (step plainSite EmsTunnel.init (.start .online 1)).line.watch = some (evtRead ||| evtWrite) := by decide +kernel
  refine ⟨⟨flow, fun addr => ?_, by decide +kernel, by decide +kernel, by decide +kernel⟩, trivial, ?_, trivial⟩
  · refine Option.eq_none_iff_forall_not_mem.mpr fun tsess live => ?_
    have there := (flow.sound.listed addr).mpr ⟨tsess, live⟩
    rw [empty] at there
    exact List.not_mem_nil there
  · exact ⟨_, watch, by decide⟩

theorem visit_until_read (tunnel : EmsTunnel) (next wr size : Nat) (filling : Filling tunnel next wr size) :
    let connected := run (step plainSite) tunnel [.frame ⟨msgTypeWeb, 7, []⟩, .webConnected next false]
    Flow connected ∧ connected.line = tunnel.line ∧ connected.table.next = next + 1 ∧
      (∀ addr, connected.table.heap addr =
        if addr = next then some (askedSess tunnel.line.log.length).connected else none) ∧
      AllSteps (step plainSite) Reported tunnel (visit next) := by
  obtain ⟨same, following, heap⟩ := visit_asked _ next wr size filling
  obtain ⟨line, later, sessions⟩ := visit_connected _ next _ _ same heap
  have first := step_flow plainSite _ (.frame ⟨msgTypeWeb, 7, []⟩) filling.flow id
  have second := step_flow plainSite _ (.webConnected next false) first id
  have live := (sessions next).trans (if_pos rfl)
  refine ⟨second, line, later.trans following, sessions, ?_, ?_, ?_, trivial⟩
  · exact ⟨_, filling.line.2.2.2, by decide⟩
  · exact ⟨_, (heap next).trans (if_pos rfl), evtWrite, rfl, by decide⟩
  · exact ⟨_, live, evtRead, rfl, by decide⟩

theorem filling_run (count wr size : Nat) (numbers : filled count = some (wr, size)) :
    Filling (run (step plainSite) EmsTunnel.init (visits count)) count wr size ∧
      AllSteps (step plainSite) Reported EmsTunnel.init (visits count) := by
  induction count generalizing wr size with
  | zero =>
    cases numbers
    exact filling_start
  | succ count ih =>
    obtain ⟨⟨before, total⟩, was, more⟩ := Option.bind_eq_some_iff.mp numbers
    obtain ⟨filling, reported⟩ := ih _ _ was
    obtain ⟨flow, line, next, heap, visited⟩ := visit_until_read _ _ _ _ filling
    obtain ⟨rd, at_wr, at_size⟩ := filling.room
    have able : packRoom (run (step plainSite) EmsTunnel.init (visits count)).line.buf 1024 ≠ none := by
      rw [Ne, room_fill, at_wr, at_size, more]
      exact Option.some_ne_none _
    obtain ⟨reads, room, later, left, seven, sessions⟩ := visit_read _ _ _ _
      _ rfl rfl
      (line ▸ ⟨filling.line.1, filling.line.2.1, filling.line.2.2.1⟩) (line ▸ filling.room) heap (line ▸ able)
    have read := step_flow plainSite _ (.webRead count _) flow fun refused => by
      have full := refused.2.2
      rw [chunk_length, line] at full
      exact able full
    have leaves := step_flow plainSite _ (.frame ⟨msgWebDown, 7, []⟩) read id
    obtain ⟨same, following, gone⟩ := visit_left _ _ left seven read.sound ⟨reads.1, reads.2.1⟩ sessions
    have whole : run (step plainSite) EmsTunnel.init (visits (count + 1)) = step plainSite
        (step plainSite (run (step plainSite) (run (step plainSite) EmsTunnel.init (visits count))
          [.frame ⟨msgTypeWeb, 7, []⟩, .webConnected count false]) (.webRead count fullChunk))
        (.frame ⟨msgWebDown, 7, []⟩) := by
      rw [visits, run_append, run_append]
      rfl
    have numbered : wr = before + 1032 ∧ size = if total - before ≤ 1032 then total + 2048 else total := by
      unfold fill at more
      split at more
      · rename_i low
        rw [if_pos low]
        split at more
        · cases more
        · cases more
          exact ⟨rfl, rfl⟩
      · rename_i low
        rw [if_neg low]
        cases more
        exact ⟨rfl, rfl⟩
    constructor
    · rw [whole]
      refine ⟨leaves, gone, following.trans (later.trans next), same ▸ reads, ?_⟩
      rw [numbered.1, numbered.2]
      exact same ▸ room
    · rw [visits, all_steps_append, all_steps_append, run_append]
      exact ⟨⟨reported, visited⟩, ⟨_, reads.2.2.2, by decide⟩, trivial⟩

theorem filled_drops (count wr size : Nat) (numbers : filled count = some (wr, size)) (refused : fill (wr, size) = none) :
    ¬ Intact (run (step plainSite) EmsTunnel.init (visits count ++ visit count)) ∧
      AllSteps (step plainSite) Reported EmsTunnel.init (visits count ++ visit count) := by
  obtain ⟨filling, reported⟩ := filling_run _ wr size numbers
  obtain ⟨flow, line, _, heap, visited⟩ := visit_until_read _ _ wr size filling
  have full : packRoom (run (step plainSite) EmsTunnel.init (visits count)).line.buf 1024 = none := by
    rw [room_fill, filling.room.2.1, filling.room.2.2]
    exact refused
  constructor
  · rw [run_append]
    refine refused_breaks plainSite _ (.webRead _ _) flow ⟨⟨_, (heap _).trans (if_pos rfl), rfl⟩, ?_, ?_⟩
    · exact List.cons_ne_nil _ _
    · rw [chunk_length]
      exact (congrArg (fun line => packRoom _ 1024) line).trans full
  · rw [all_steps_append]
    exact ⟨reported, visited⟩

-- The tunnel is stuck, and each session that comes and goes leaves what it has
-- read in the output buffer, until one of them reads and the frame is refused.
theorem full_tunnel_drops : ¬ Intact (run (step plainSite) EmsTunnel.init (visits 508 ++ visit 508)) ∧
      AllSteps (step plainSite) Reported EmsTunnel.init (visits 508 ++ visit 508) :=
  filled_drops 508 524303 525312 (by decide +kernel) (by decide)

end Codec.Tunnel
