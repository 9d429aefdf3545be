import Codec.Http.Session

set_option autoImplicit false

namespace Codec.Http

open Codec.Ems Codec.Lib

def answer (site : Site) (head : Str) : Str :=
  if site.firstConfig then homepageText site
  else if site.networkReady then (site.redirect (headerParse head)).text
  else mgmtText site

def Fits (site : Site) (head : Str) : Prop :=
  if site.firstConfig then (homepageText site).length ≤ 1024
  else if site.networkReady then (site.redirect (headerParse head)).text.length < 8192
  else (mgmtText site).length ≤ 1024

instance (site : Site) (head : Str) : Decidable (Fits site head) := by
  unfold Fits
  infer_instance

section Environment

variable (site : Site) (behind : Nat → List UInt8)

def LookSound (sess : Sess) : Prop :=
  sess.isWeb = true ∨ (strstr (httpNewline ++ httpNewline) sess.received).isSome ∨
    msgIsWeb sess.received = true ∧ sess.size < 8192 ∧ headerFull (sess.received ++ behind sess.looks) = false

instance (sess : Sess) : Decidable (LookSound behind sess) := by
  unfold LookSound
  infer_instance

def ReadSound : Nat → Sess → List Arrival → Prop
  | 0, _, _ => True
  | fuel + 1, sess, stream =>
    let got := sockRead (sess.size - sess.received.length) stream
    let more := { sess with received := sess.received ++ got.2.1 }
    got.1 ≠ .zero ∧ got.1 ≠ .failed ∧ LookSound behind more ∧
      (got.1 = .full → ∀ next ∈ cmdProcess site behind more, ReadSound fuel next got.2.2)

instance decidableReadSound : ∀ fuel sess stream, Decidable (ReadSound site behind fuel sess stream)
  | 0, _, _ => isTrue trivial
  | fuel + 1, sess, stream =>
    have _ := decidableReadSound fuel
    inferInstanceAs (Decidable (
      let got := sockRead (sess.size - sess.received.length) stream
      let more := { sess with received := sess.received ++ got.2.1 }
      got.1 ≠ .zero ∧ got.1 ≠ .failed ∧ LookSound behind more ∧
        (got.1 = .full → ∀ next ∈ cmdProcess site behind more, ReadSound site behind fuel next got.2.2)))

def EventSound (state : Sess × List Arrival) (event : Event) : Prop :=
  state.1.opened = true → event.err = false ∧
    (event.read = true → ReadSound site behind (state.2.length + 1) state.1 state.2) ∧
      ∀ answers ∈ event.write, Take.failed ∉ answers

instance (state : Sess × List Arrival) (event : Event) : Decidable (EventSound site behind state event) := by
  unfold EventSound
  infer_instance

end Environment

structure Reading (head body : Str) (sess : Sess) (rest : List Arrival) : Prop where
  opened : sess.opened = true
  isWeb : sess.isWeb = false
  dieAfterSend : sess.dieAfterSend = false
  watch : sess.watch = false
  out : sess.out = []
  sent : sess.sent = []
  bytes : sess.received ++ arrived rest = head ++ body
  room : sess.received.length ≤ sess.size

structure Waiting (head body : Str) (sess : Sess) (rest : List Arrival) : Prop where
  reading : Reading head body sess rest
  incomplete : sess.received.length < head.length
  room : sess.received.length < sess.size

structure Answering (site : Site) (head : Str) (sess : Sess) : Prop where
  opened : sess.opened = true
  isWeb : sess.isWeb = true
  dieAfterSend : sess.dieAfterSend = true
  watch : sess.watch = true
  sent : sess.sent ++ sess.out = answer site head
  room : sess.received.length < sess.size

structure Answered (site : Site) (head : Str) (sess : Sess) : Prop where
  opened : sess.opened = false
  sent : sess.sent = answer site head

inductive Live (site : Site) (head body : Str) (sess : Sess) (rest : List Arrival) : Prop where
  | waiting (waiting : Waiting head body sess rest)
  | answering (answering : Answering site head sess)

inductive Served (site : Site) (head body : Str) (state : Sess × List Arrival) : Prop where
  | live (live : Live site head body state.1 state.2)
  | answered (answered : Answered site head state.1)

variable (site : Site) (behind : Nat → List UInt8) (head body : Str) (sess : Sess)

theorem queued_answer (head : Str) (more : List UInt8) (clean : 0 ∉ head) (request : RequestHead head)
    (fits : Fits site head) : queued site (head ++ more) = answer site head := by
  unfold queued answer
  unfold Fits at fits
  cases first : site.firstConfig with
  | true =>
    rw [first, if_pos rfl] at fits
    exact List.take_of_length_le fits
  | false =>
    rw [first, if_neg (by simp)] at fits
    cases ready : site.networkReady with
    | true =>
      rw [ready, if_pos rfl] at fits
      simp only [Bool.false_eq_true, if_false, if_true]
      rw [(header_parse_append head more clean request).2, Reply.filled, if_pos fits]
    | false =>
      rw [ready, if_neg (by simp)] at fits
      exact List.take_of_length_le fits

theorem increase_room (room : sess.received.length ≤ sess.size) :
    (increase sess 1024).received.length < (increase sess 1024).size := by
  unfold increase
  split
  · omega
  · show sess.received.length < sess.size + 1024
    omega

theorem look_reading (rest : List Arrival)
    (request : RequestHead head) (clean : 0 ∉ head) (fits : Fits site head) (reading : Reading head body sess rest)
    (some_room : 0 < sess.size) (sound : LookSound behind sess) :
    ∃ next, cmdProcess site behind sess = some next ∧ Live site head body next rest := by
  have cut : sess.received <+: head ++ body := ⟨arrived rest, reading.bytes⟩
  rw [cmdProcess, if_neg (by rw [reading.isWeb]; simp)]
  by_cases whole : head.length ≤ sess.received.length
  · obtain ⟨more, shape⟩ := List.prefix_of_prefix_length_le (List.prefix_append head body) cut whole
    have mem : sess.received ++ behind sess.looks = head ++ (more ++ behind sess.looks) := by rw [← shape, List.append_assoc]
    rw [mem, if_neg (by rw [msg_is_web_append head _ request.web]; simp),
      if_neg (by rw [(header_parse_append head _ clean request).1]; simp)]
    refine ⟨_, rfl, .answering ⟨reading.opened, rfl, rfl, rfl, ?_, some_room⟩⟩
    show sess.sent ++ (sess.out ++ queued site _) = _
    rw [reading.sent, reading.out, queued_answer site head _ clean request fits]
    rfl
  · obtain ⟨text, ends⟩ := request.ends
    have part : sess.received <+: head := by
      apply List.prefix_of_prefix_length_le cut (List.prefix_append head body)
      omega
    have unfinished := strstr_proper _ head text ends _ part (by omega)
    have method : msgIsWeb sess.received = true ∧ sess.size < 8192 ∧
        headerFull (sess.received ++ behind sess.looks) = false := by
      obtain web | found | method := sound
      · rw [reading.isWeb] at web
        cases web
      · rw [unfinished] at found
        cases found
      · exact method
    obtain ⟨web, small, partial_head⟩ := method
    dsimp only
    rw [if_neg (by rw [msg_is_web_append _ _ web]; simp), if_pos (by rw [partial_head]; simp), if_neg (by omega)]
    have same : (increase { sess with looks := sess.looks + 1 } 1024).received = sess.received := by
      unfold increase
      split <;> rfl
    have room := increase_room { sess with looks := sess.looks + 1 } reading.room
    refine ⟨_, rfl, .waiting ⟨⟨?_, ?_, ?_, ?_, ?_, ?_, ?_, room.le⟩, ?_, room⟩⟩
    · unfold increase
      split <;> exact reading.opened
    · unfold increase
      split <;> exact reading.isWeb
    · unfold increase
      split <;> exact reading.dieAfterSend
    · unfold increase
      split <;> exact reading.watch
    · unfold increase
      split <;> exact reading.out
    · unfold increase
      split <;> exact reading.sent
    · rw [same]
      exact reading.bytes
    · rw [same]
      omega

theorem read_more (head body got : Str) (sess : Sess)
    (stream rest : List Arrival) (request : RequestHead head) (clean : 0 ∉ head) (fits : Fits site head)
    (live : Live site head body sess stream) (bytes : got ++ arrived rest = arrived stream)
    (bound : got.length ≤ sess.size - sess.received.length)
    (sound : LookSound behind { sess with received := sess.received ++ got }) :
    ∃ next, cmdProcess site behind { sess with received := sess.received ++ got } = some next ∧
      Live site head body next rest := by
  cases live with
  | waiting waiting =>
    obtain ⟨reading, -, room⟩ := waiting
    apply look_reading site _ head body _ rest request clean fits _ (by show 0 < sess.size; omega) sound
    refine ⟨reading.opened, reading.isWeb, reading.dieAfterSend, reading.watch, reading.out, reading.sent, ?_, ?_⟩
    · rw [List.append_assoc, bytes, reading.bytes]
    · show (sess.received ++ got).length ≤ sess.size
      rw [List.length_append]
      omega
  | answering answering =>
    rw [cmdProcess, if_pos answering.isWeb]
    refine ⟨_, rfl, .answering ⟨answering.opened, answering.isWeb, answering.dieAfterSend, answering.watch,
      answering.sent, ?_⟩⟩
    have room := answering.room
    show 0 < sess.size
    omega

theorem live_room (stream : List Arrival) (live : Live site head body sess stream) : sess.received.length < sess.size := by
  cases live with
  | waiting waiting => exact waiting.room
  | answering answering => exact answering.room

-- A full buffer has taken at least one arrival, so the fuel lasts.
theorem read_loop_live (fuel : Nat) (sess : Sess)
    (stream : List Arrival) (request : RequestHead head) (clean : 0 ∉ head) (fits : Fits site head)
    (enough : stream.length < fuel) (live : Live site head body sess stream) (sound : ReadSound site behind fuel sess stream) :
    Live site head body (readLoop site behind fuel sess stream).1 (readLoop site behind fuel sess stream).2 := by
  induction fuel generalizing sess stream with
  | zero => exact absurd enough (Nat.not_lt_zero _)
  | succ fuel ih =>
    have room := live_room site head body sess _ live
    have spec := sock_read_spec (sess.size - sess.received.length) stream
    rw [ReadSound] at sound
    rw [readLoop]
    generalize sockRead _ _ = got at spec sound ⊢
    obtain ⟨ret, bytes, rest⟩ := got
    dsimp only at spec sound ⊢
    obtain ⟨bound, split, filled, -⟩ := spec
    obtain ⟨notEof, notFailed, look, onward⟩ := sound
    obtain ⟨next, processed, kept⟩ :=
      read_more site _ head body _ sess _ rest request clean fits live split bound look
    cases ret with
    | zero => exact absurd rfl notEof
    | failed => exact absurd rfl notFailed
    | again =>
      rw [processed]
      exact kept
    | full =>
      obtain ⟨size, shrunk⟩ := filled rfl
      have some : bytes ≠ [] := List.ne_nil_of_length_pos (by omega)
      rw [if_neg some, processed]
      exact ih next rest (by omega) kept (onward rfl next processed)

theorem write_served (head : Str) (sess : Sess) (answers : List Take)
    (answering : Answering site head sess) (fine : Take.failed ∉ answers) :
    Answering site head (cmdWrite sess answers) ∨ Answered site head (cmdWrite sess answers) := by
  obtain ⟨finished, ended, whole⟩ := sock_send_spec _ sess.out fine
  have sent := answering.sent
  rw [← whole, ← List.append_assoc] at sent
  rw [cmdWrite]
  generalize sockSend _ _ = got at ended whole sent ⊢
  obtain ⟨ret, taken, left⟩ := got
  rw [ended]
  dsimp only
  by_cases nothing : finished = true ∧ sess.out = []
  · rw [if_pos nothing]
    rw [nothing.2] at whole
    rw [(List.append_eq_nil_iff.mp whole).2, List.append_nil] at sent
    exact .inr ⟨rfl, sent⟩
  · rw [if_neg nothing]
    by_cases empty : left = []
    · rw [if_pos empty, if_pos answering.dieAfterSend]
      rw [empty, List.append_nil] at sent
      exact .inr ⟨rfl, sent⟩
    · rw [if_neg empty]
      exact .inl ⟨answering.opened, answering.isWeb, answering.dieAfterSend, answering.watch, sent, answering.room⟩

theorem process_watch (sess next : Sess)
    (processed : cmdProcess site behind sess = some next) (watch : sess.watch = true) : next.watch = true := by
  rw [cmdProcess] at processed
  by_cases web : sess.isWeb = true
  · rw [if_pos web] at processed
    cases processed
    exact watch
  · rw [if_neg web] at processed
    dsimp only at processed
    split at processed
    · cases processed
    · split at processed
      · split at processed
        · cases processed
        · cases processed
          unfold increase
          split <;> exact watch
      · cases processed
        rfl

theorem read_loop_watch (fuel : Nat) (sess : Sess) (stream : List Arrival)
    (watch : sess.watch = true) : (readLoop site behind fuel sess stream).1.watch = true := by
  induction fuel generalizing sess stream with
  | zero => exact watch
  | succ fuel ih =>
    rw [readLoop]
    generalize sockRead _ _ = got
    obtain ⟨ret, bytes, rest⟩ := got
    cases processed : cmdProcess site _ _ with
    | none => cases ret <;> dsimp only <;> (try split) <;> exact watch
    | some next =>
      have kept := process_watch site _ _ next processed watch
      cases ret with
      | zero => exact watch
      | failed => exact watch
      | again => exact kept
      | full =>
        dsimp only
        split
        · exact watch
        · exact ih next rest kept

theorem callback_served (state : Sess × List Arrival)
    (event : Event) (request : RequestHead head) (clean : 0 ∉ head) (fits : Fits site head)
    (served : Served site head body state) (sound : EventSound site behind state event) :
    Served site head body (evtCmdCb site behind state event) := by
  cases served with
  | answered answered =>
    rw [evtCmdCb, if_pos (by rw [answered.opened]; simp)]
    exact .answered answered
  | live live =>
    have opened : state.1.opened = true := by
      cases live with
      | waiting waiting => exact waiting.reading.opened
      | answering answering => exact answering.opened
    obtain ⟨noError, reads, writes⟩ := sound opened
    rw [evtCmdCb, if_neg (by rw [opened]; simp), if_neg (by rw [noError]; simp)]
    have next : Live site head body (if event.read then cmdRead site behind state.1 state.2 else state).1
        (if event.read then cmdRead site behind state.1 state.2 else state).2 := by
      by_cases read : event.read = true
      · rw [if_pos read]
        exact read_loop_live site _ head body _ _ _ request clean fits (Nat.lt_succ_self _) live (reads read)
      · rw [if_neg read]
        exact live
    generalize same : (if event.read then cmdRead site _ _ _ else state) = after at next ⊢
    symm at same
    cases shape : event.write with
    | none => exact .live next
    | some answers =>
      dsimp only
      by_cases run : after.1.opened = true ∧ state.1.watch = true
      · rw [if_pos run]
        have watch : after.1.watch = true := by
          rw [same]
          split
          · exact read_loop_watch site _ _ _ _ run.2
          · exact run.2
        cases next with
        | waiting waiting =>
          rw [waiting.reading.watch] at watch
          cases watch
        | answering answering =>
          obtain writing | written := write_served site head _ _ answering (writes _ shape)
          · exact .live (.answering writing)
          · exact .answered written
      · rw [if_neg run]
        exact .live next

theorem last_write_answers (head : Str) (sess : Sess) (stream : List Arrival) (answering : Answering site head sess) :
    Answered site head (evtCmdCb site behind (sess, stream) ⟨false, false, some [.took sess.out.length]⟩).1 := by
  rw [evtCmdCb, if_neg (by rw [answering.opened]; simp), if_neg (by simp)]
  have run : sess.opened = true ∧ sess.watch = true := ⟨answering.opened, answering.watch⟩
  simp only [Bool.false_eq_true, if_false]
  rw [if_pos run]
  have taken : sockSend [.took sess.out.length] sess.out = (some true, sess.out, []) := by
    cases shape : sess.out with
    | nil => rfl
    | cons byte rest =>
      have all : (byte :: rest).length ≤ (byte :: rest).length + 1 := Nat.le_succ _
      rw [sockSend, List.drop_of_length_le all, List.take_of_length_le all, sockSend, List.append_nil]
      simp
  have sent := answering.sent
  rw [cmdWrite, taken]
  dsimp only
  split
  · exact ⟨rfl, sent⟩
  · rw [if_pos rfl, if_pos answering.dieAfterSend]
    exact ⟨rfl, sent⟩

-- No event is timeout_cmd_cb, which destroys a session 3 seconds after it was
-- accepted.
theorem one_complete_answer (site : Site) (behind : Nat → List UInt8) (head body : Str) (stream : List Arrival)
    (events : List Event) (request : RequestHead head) (clean : 0 ∉ head) (fits : Fits site head)
    (bytes : arrived stream = head ++ body)
    (sound : AllSteps (evtCmdCb site behind) (EventSound site behind) (Sess.accepted, stream) events) :
    let state := run (evtCmdCb site behind) (Sess.accepted, stream) events
    (state.1.opened = false → state.1.sent = answer site head) ∧
      (state.1.opened = true → state.1.isWeb = false → state.1.sent = [] ∧
        state.1.received ++ arrived state.2 = head ++ body ∧ state.1.received.length < head.length) ∧
      (state.1.opened = true → state.1.isWeb = true → state.1.sent <+: answer site head ∧
        let last := evtCmdCb site behind state ⟨false, false, some [.took state.1.out.length]⟩
        last.1.opened = false ∧ last.1.sent = answer site head) := by
  have some_head : 0 < head.length := by
    obtain ⟨text, ends⟩ := request.ends
    by_contra empty
    rw [strstr_short _ head (by show head.length < 4; omega)] at ends
    cases ends
  have start : Served site head body (Sess.accepted, stream) :=
    .live (.waiting ⟨⟨rfl, rfl, rfl, rfl, rfl, rfl, bytes, Nat.zero_le _⟩, some_head, by show 0 < 1024; omega⟩)
  have served := run_keeps _ _ _
    _ _ start
    (fun state event held allowed => callback_served site _ head body _ _ request clean fits held allowed)
    sound
  intro state
  cases served with
  | answered answered =>
    refine ⟨fun _ => answered.sent, fun opened => ?_, fun opened => ?_⟩
    · rw [answered.opened] at opened
      cases opened
    · rw [answered.opened] at opened
      cases opened
  | live live =>
    cases live with
    | waiting waiting =>
      refine ⟨fun closed => ?_, fun _ _ => ?_, fun _ web => ?_⟩
      · rw [waiting.reading.opened] at closed
        cases closed
      · exact ⟨waiting.reading.sent, waiting.reading.bytes, waiting.incomplete⟩
      · rw [waiting.reading.isWeb] at web
        cases web
    | answering answering =>
      refine ⟨fun closed => ?_, fun _ web => ?_, fun _ _ => ⟨⟨_, answering.sent⟩, ?_⟩⟩
      · rw [answering.opened] at closed
        cases closed
      · rw [answering.isWeb] at web
        cases web
      · have answered := last_write_answers site behind head _ state.2 answering
        exact ⟨answered.opened, answered.sent⟩

def sampleHead : Str := ascii "GET / HTTP/1.1\r\nHost: a.b\r\n\r\n"

def sampleSite : Site where
  firstConfig := false
  networkReady := true
  date := []
  gwAddr := []
  version := none
  redirect := fun hdr => ⟨hdr.version.getD [] ++ ascii " 302 Found\r\n\r\n", true⟩

theorem sample_request : RequestHead sampleHead where
  web := by decide
  ends := ⟨ascii "GET / HTTP/1.1\r\nHost: a.b", by decide⟩

def segment (text : String) : List Arrival := (ascii text).map Arrival.byte ++ [.again]

def reads : Event := ⟨false, true, none⟩

def writes (answers : List Take) : Event := ⟨false, false, some answers⟩

def sampleStream : List Arrival := segment "GET" ++ segment " / HTTP/1.1\r\nHo" ++ segment "st: a.b\r\n\r\nbody"

def sampleEvents : List Event := [reads, reads, reads, writes [.took 3, .again], writes [.took 100]]

theorem one_complete_answer_sample : arrived sampleStream = sampleHead ++ ascii "body" ∧
      (run (evtCmdCb sampleSite fun _ => []) (Sess.accepted, sampleStream) sampleEvents).1.sent =
        answer sampleSite sampleHead := by
  have bytes : arrived sampleStream = sampleHead ++ ascii "body" := by decide
  have sound : AllSteps (evtCmdCb sampleSite fun _ => []) (EventSound sampleSite fun _ => [])
      (Sess.accepted, sampleStream) sampleEvents := by
    decide +kernel
  have closed : (run (evtCmdCb sampleSite fun _ => []) (Sess.accepted, sampleStream) sampleEvents).1.opened = false := by
    decide +kernel
  have answered := one_complete_answer _ _ _ _ _ _
    sample_request (by decide) (by decide) bytes sound
  generalize run _ _ _ = state at closed answered ⊢
  exact ⟨bytes, answered.1 closed⟩

-- Three ways to cut the same head: inside the method, right before the
-- client's half-close, and where the memory behind happens to hold an empty
-- line. The first two end without an answer, the third in another one.
theorem cut_decides_answer :
    let run stream behind := run (evtCmdCb sampleSite behind) (Sess.accepted, stream) [reads, reads, writes [.took 100]]
    let whole := run (segment "GET / HTTP/1.1\r\nHost: a.b\r\n\r\n") fun _ => []
    let method := run (segment "G" ++ segment "ET / HTTP/1.1\r\nHost: a.b\r\n\r\n") fun _ => []
    let closed := run (sampleHead.map Arrival.byte ++ [.eof]) fun _ => []
    let stale := run (segment "GET /" ++ segment " HTTP/1.1\r\nHost: a.b\r\n\r\n") fun _ => ascii " old\r\n\r\n"
    (whole.1.opened = false ∧ whole.1.sent = answer sampleSite sampleHead) ∧
      (method.1.opened = false ∧ method.1.sent = []) ∧ (closed.1.opened = false ∧ closed.1.sent = []) ∧
        stale.1.opened = false ∧ stale.1.sent ≠ answer sampleSite sampleHead := by
  decide

end Codec.Http
