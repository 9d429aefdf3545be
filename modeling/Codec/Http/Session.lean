import Codec.Http.Header
import Codec.Ems.Sock
import Codec.Lib.Runs

set_option autoImplicit false

namespace Codec.Http

open Codec.Ems

-- What recv(2) has in store on the connection, byte by byte: `again` stands
-- where it answers EAGAIN or EINTR before the bytes behind it have arrived.
inductive Arrival where
  | byte (byte : UInt8)
  | again
  | eof
  | failed
  deriving DecidableEq, Repr

-- What send(2) answers: it takes one byte and as many more, or nothing.
inductive Take where
  | took (more : Nat)
  | again
  | failed
  deriving DecidableEq, Repr

-- What http_web_do_redirect formats, in full. `clamped` tells the portal
-- redirect, which cuts the length to the room; elsewhere ems_buffer_seek_wr
-- refuses a length above it.
structure Reply where
  text : Str
  clamped : Bool
  deriving DecidableEq, Repr

-- All an answer is made from besides the request, at the moment it is made.
-- `version` is what an earlier request has left in http->hdr.
structure Site where
  firstConfig : Bool
  networkReady : Bool
  date : Str
  gwAddr : Str
  version : Option Str
  redirect : Header → Reply

def homepageText (site : Site) : Str :=
  site.version.getD (ascii "(null)") ++ ascii " 302 Moved Temporarily\r\nServer: yingkewifi\r\nConnection: close\r\nDate: " ++
    site.date ++ ascii " GMT\r\nLocation: http://" ++ site.gwAddr ++
    ascii "/cgi-bin/luci/\r\nContent-Type: text/plain\r\n\r\n<html></html>\r\n"

def mgmtText (site : Site) : Str :=
  ascii "HTTP/1.1 302 Found\r\nServer: yingkewifi\r\nConnection: close\r\nDate: " ++ site.date ++
    ascii " GMT\r\nLocation: http://" ++ site.gwAddr ++
    ascii "/cgi-bin/luci/link_fail\r\nContent-Type: text/plain\r\n\r\n"

-- What snprintf and the seek behind it leave in the core buffer: the last of
-- the 8192 bytes is always the NUL.
def Reply.filled (reply : Reply) : Str :=
  if reply.text.length < 8192 then reply.text
  else if reply.text.length = 8192 ∨ reply.clamped = true then reply.text.take 8191 ++ [0]
  else []

-- The session of one client. `received` is what buf_in holds (nothing drains
-- it but a clear), `size` its size; `looks` counts the calls that look at the
-- memory behind it. `out` is what the output buffer has still to send, `sent`
-- what the connection has been given. `watch` is the subscription to WRITE.
structure Sess where
  received : Str
  size : Nat
  looks : Nat
  isWeb : Bool
  dieAfterSend : Bool
  watch : Bool
  out : Str
  sent : Str
  opened : Bool
  deriving DecidableEq, Repr

def Sess.accepted : Sess where
  received := []
  size := 1024
  looks := 0
  isWeb := false
  dieAfterSend := false
  watch := false
  out := []
  sent := []
  opened := true

def Sess.destroy (sess : Sess) : Sess := { sess with opened := false }

-- ems_sock_read on a stream socket; the bytes before a failure are lost.
def sockRead : Nat → List Arrival → ReadEnd × Str × List Arrival
  | 0, stream => (.full, [], stream)
  | _ + 1, [] => (.again, [], [])
  | left + 1, .byte byte :: rest =>
    let got := sockRead left rest
    (got.1, byte :: got.2.1, got.2.2)
  | _ + 1, .again :: rest => (.again, [], rest)
  | _ + 1, .eof :: rest => (.zero, [], .eof :: rest)
  | _ + 1, .failed :: rest => (.failed, [], rest)

-- ems_sock_send: what the connection took, what is left, and whether the loop
-- got to its end (none on a failure).
def sockSend : List Take → Str → Option Bool × Str × Str
  | _, [] => (some true, [], [])
  | [], out => (some false, [], out)
  | .took more :: rest, out =>
    let got := sockSend rest (out.drop (more + 1))
    (got.1, out.take (more + 1) ++ got.2.1, got.2.2)
  | .again :: _, out => (some false, [], out)
  | .failed :: _, out => (none, [], out)

-- The output buffer of 1024 bytes is increased for the portal's answer only.
def queued (site : Site) (mem : List UInt8) : Str :=
  if site.firstConfig then (homepageText site).take 1024
  else if site.networkReady then (site.redirect (headerParse mem)).filled
  else (mgmtText site).take 1024

-- http_web_msg_redirect. The encoded url may make buf_in larger; from here on
-- whatever is read into it is thrown away.
def msgRedirect (site : Site) (sess : Sess) (mem : List UInt8) : Sess :=
  { sess with isWeb := true, dieAfterSend := true, watch := true, out := sess.out ++ queued site mem, received := [] }

def increase (sess : Sess) (inc : Nat) : Sess :=
  if inc < sess.size - sess.received.length then sess else { sess with size := sess.size + inc }

section Environment

-- `behind n` is what the memory behind the received bytes holds when it is
-- looked at for the n-th time: nothing has been written there.
variable (site : Site) (behind : Nat → List UInt8)

def cmdProcess (sess : Sess) : Option Sess :=
  if sess.isWeb then some { sess with received := [] }
  else
    let mem := sess.received ++ behind sess.looks
    let sess := { sess with looks := sess.looks + 1 }
    if ¬ msgIsWeb mem then none
    else if ¬ headerFull mem then
      if 8192 ≤ sess.size then none else some (increase sess 1024)
    else some (msgRedirect site sess mem)

def readLoop : Nat → Sess → List Arrival → Sess × List Arrival
  | 0, sess, stream => (sess, stream)
  | fuel + 1, sess, stream =>
    let got := sockRead (sess.size - sess.received.length) stream
    let more := { sess with received := sess.received ++ got.2.1 }
    match got.1 with
    | .zero => (sess.destroy, got.2.2)
    | .failed => (sess.destroy, got.2.2)
    | .again =>
      match cmdProcess site behind more with
      | none => (more.destroy, got.2.2)
      | some next => (next, got.2.2)
    | .full =>
      if got.2.1 = [] then (sess.destroy, got.2.2)
      else
        match cmdProcess site behind more with
        | none => (more.destroy, got.2.2)
        | some next => readLoop fuel next got.2.2

def cmdRead (sess : Sess) (stream : List Arrival) : Sess × List Arrival := readLoop site behind (stream.length + 1) sess stream

def cmdWrite (sess : Sess) (answers : List Take) : Sess :=
  let got := sockSend answers sess.out
  let next := { sess with out := got.2.2, sent := sess.sent ++ got.2.1 }
  match got.1 with
  | none => next.destroy
  | some finished =>
    if finished = true ∧ sess.out = [] then next.destroy
    else if next.out = [] then
      if next.dieAfterSend then next.destroy else { next with watch := false }
    else next

-- One callback of the event loop. READ is always subscribed, WRITE only while
-- `watch` says so; a destroyed session is never called again.
structure Event where
  err : Bool
  read : Bool
  write : Option (List Take)
  deriving DecidableEq, Repr

def evtCmdCb (state : Sess × List Arrival) (event : Event) : Sess × List Arrival :=
  if ¬ state.1.opened then state
  else if event.err then (state.1.destroy, state.2)
  else
    let next := if event.read then cmdRead site behind state.1 state.2 else state
    match event.write with
    | none => next
    | some answers =>
      if next.1.opened ∧ state.1.watch then (cmdWrite next.1 answers, next.2) else next

end Environment

def arrived : List Arrival → Str
  | [] => []
  | .byte byte :: rest => byte :: arrived rest
  | .again :: rest => arrived rest
  | .eof :: rest => arrived rest
  | .failed :: rest => arrived rest

theorem arrived_append (first second : List Arrival) : arrived (first ++ second) = arrived first ++ arrived second := by
  induction first with
  | nil => rfl
  | cons item rest ih => cases item <;> simp [arrived, ih]

theorem sock_read_spec (left : Nat) (stream : List Arrival) :
    let got := sockRead left stream
    got.2.1.length ≤ left ∧ got.2.1 ++ arrived got.2.2 = arrived stream ∧
      (got.1 = .full → got.2.1.length = left ∧ got.2.2.length + left = stream.length) ∧
        (got.1 ≠ .full → got.2.1.length < left) := by
  induction left generalizing stream with
  | zero => exact ⟨Nat.le_refl _, rfl, fun _ => ⟨rfl, rfl⟩, fun other => absurd rfl other⟩
  | succ left ih =>
    cases stream with
    | nil => exact ⟨Nat.zero_le _, rfl, nofun, fun _ => Nat.succ_pos left⟩
    | cons item rest =>
      cases item with
      | byte byte =>
        obtain ⟨bound, bytes, full, short⟩ := ih rest
        refine ⟨Nat.succ_le_succ bound, ?_, fun filled => ?_, fun other => Nat.succ_lt_succ (short other)⟩
        · exact congrArg _ bytes
        · obtain ⟨size, shrunk⟩ := full filled
          exact ⟨congrArg _ size, congrArg _ shrunk⟩
      | again => exact ⟨Nat.zero_le _, rfl, nofun, fun _ => Nat.succ_pos left⟩
      | eof => exact ⟨Nat.zero_le _, rfl, nofun, fun _ => Nat.succ_pos left⟩
      | failed => exact ⟨Nat.zero_le _, rfl, nofun, fun _ => Nat.succ_pos left⟩

theorem sock_read_bytes (left : Nat) (burst : Str) : sockRead left (burst.map .byte) =
    if burst.length < left then (.again, burst, []) else (.full, burst.take left, (burst.drop left).map .byte) := by
  induction left generalizing burst with
  | zero => simp [sockRead]
  | succ left ih =>
    cases burst with
    | nil => simp [sockRead]
    | cons byte rest =>
      rw [List.map_cons, sockRead, ih rest]
      by_cases short : rest.length < left
      · simp [short]
      · simp [short]

theorem sock_read_fine (left : Nat) (stream : List Arrival) (fine : Arrival.eof ∉ stream ∧ Arrival.failed ∉ stream) :
    let got := sockRead left stream
    (got.1 = .full ∨ got.1 = .again) ∧ Arrival.eof ∉ got.2.2 ∧ Arrival.failed ∉ got.2.2 := by
  induction left generalizing stream with
  | zero => exact ⟨.inl rfl, fine⟩
  | succ left ih =>
    cases stream with
    | nil => exact ⟨.inr rfl, fine⟩
    | cons item rest =>
      have behind : Arrival.eof ∉ rest ∧ Arrival.failed ∉ rest :=
        ⟨fun there => fine.1 (List.mem_cons_of_mem item there), fun there => fine.2 (List.mem_cons_of_mem item there)⟩
      cases item with
      | byte byte => exact ih rest behind
      | again => exact ⟨.inr rfl, behind⟩
      | eof => exact absurd List.mem_cons_self fine.1
      | failed => exact absurd List.mem_cons_self fine.2

theorem sock_send_spec (answers : List Take) (out : Str) (fine : Take.failed ∉ answers) :
    ∃ finished, (sockSend answers out).1 = some finished ∧ (sockSend answers out).2.1 ++ (sockSend answers out).2.2 = out := by
  induction answers generalizing out with
  | nil =>
    cases out with
    | nil => exact ⟨true, rfl, rfl⟩
    | cons byte rest => exact ⟨false, rfl, rfl⟩
  | cons take rest ih =>
    cases out with
    | nil => exact ⟨true, rfl, rfl⟩
    | cons byte bytes =>
      cases take with
      | took more =>
        obtain ⟨finished, ended, whole⟩ :=
          ih _ fun there => fine (List.mem_cons_of_mem _ there)
        refine ⟨finished, ended, ?_⟩
        rw [sockSend, List.append_assoc, whole, List.take_append_drop]
        simp
      | again => exact ⟨false, rfl, rfl⟩
      | failed => exact absurd List.mem_cons_self fine

end Codec.Http
