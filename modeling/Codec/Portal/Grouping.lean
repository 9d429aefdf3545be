import Codec.Portal.Isolation

set_option autoImplicit false

namespace Codec.Portal

open Codec.Ems Codec.Lib List

-- portal_start makes room for two kilobytes in either direction.
@[irreducible] def sessBuf : Buffer := (Buffer.init 1024).increase 1024

def roomIn : Nat := 2048

theorem sess_buf_size : sessBuf.size = roomIn := by decide +kernel

def dataOf (grams : List (List UInt8)) : List Recv := grams.map Recv.data

def Dry (stream : List Recv) : Prop := stream = [] ∨ ∃ rest, stream = .again :: rest

inductive Sound (room : Nat) : List Recv → Prop where
  | dry (stream : List Recv) (quiet : Dry stream) : Sound room stream
  | failed (rest : List Recv) : Sound room (.failed :: rest)
  | empty (rest : List Recv) : Sound room (.data [] :: rest)
  | full (grams : List Datagram) (last : List UInt8) (rest : List Recv) (numbers : ∀ gram ∈ grams, gram.Whole)
      (closing : Closing last) (filled : (gramBytes grams ++ [last]).flatten.length = room) (later : Sound room rest) :
      Sound room (dataOf (gramBytes grams ++ [last]) ++ rest)
  | call (grams : List Datagram) (last : List UInt8) (rest : List Recv) (numbers : ∀ gram ∈ grams, gram.Whole)
      (closing : Closing last) (fits : (gramBytes grams ++ [last]).flatten.length < room) (quiet : Dry rest) :
      Sound room (dataOf (gramBytes grams ++ [last]) ++ rest)

variable (buf : Buffer) (bytes : List UInt8) (grams : List (List UInt8)) (rest : List Recv)

theorem closing_positive (closing : Closing bytes) : bytes ≠ [] := by
  intro empty
  cases closing with
  | whole gram numbers =>
    have positive := datagram_positive gram
    rw [empty] at positive
    exact Nat.lt_irrefl 0 positive
  | short hdr attrs sized event fewer =>
    rw [(append_eq_nil_iff.mp empty).1] at sized
    cases sized
  | reply attrs some other =>
    have short := attrs_short attrs
    rw [empty] at short
    exact some (length_eq_zero_iff.mp (Nat.le_zero.mp short))

theorem call_positive (grams : List Datagram) (last : List UInt8) (closing : Closing last) :
    ∀ bytes ∈ gramBytes grams ++ [last], bytes ≠ [] := by
  intro bytes member
  rcases mem_append.mp member with there | ending
  · obtain ⟨gram, _, rfl⟩ := mem_map.mp there
    exact ne_nil_of_length_pos (datagram_positive gram)
  · rw [mem_singleton.mp ending]
    exact closing_positive last closing

theorem read_loop_data (left : Nat) (got : List UInt8)
    (some : ∀ bytes ∈ grams, bytes ≠ []) (fits : grams.flatten.length ≤ left) :
    readLoop (dataOf grams ++ rest) left got = readLoop rest (left - grams.flatten.length) (got ++ grams.flatten) := by
  induction grams generalizing left got with
  | nil => simp [dataOf]
  | cons bytes later ih =>
    have positive := length_pos_of_ne_nil (some _ mem_cons_self)
    rw [flatten_cons, length_append] at fits
    obtain ⟨less, rfl⟩ : ∃ less, left = less + 1 := ⟨left - 1, by omega⟩
    have whole : bytes.take (less + 1) = bytes := take_of_length_le (by omega)
    have next := ih (less + 1 - bytes.length) (got ++ bytes)
      (fun item there => some item (mem_cons_of_mem _ there)) (by omega)
    rw [dataOf, map_cons, cons_append, readLoop, if_neg (some _ mem_cons_self), whole]
    rw [dataOf] at next
    rw [next, flatten_cons, length_append, append_assoc, Nat.sub_sub]

theorem gram_bytes_short (grams : List Datagram) : grams.length ≤ (gramBytes grams).flatten.length := by
  induction grams with
  | nil => exact Nat.le_refl 0
  | cons gram rest shorter =>
    have positive := datagram_positive gram
    rw [gramBytes, map_cons, flatten_cons, length_append, length_cons]
    rw [gramBytes] at shorter
    omega

theorem blank_left (blank : Blank buf) : buf.left = buf.size := by
  rw [Buffer.left, blank.2, Nat.sub_zero]
  rfl

theorem read_full (blank : Blank buf) (any : grams ≠ [])
    (some : ∀ bytes ∈ grams, bytes ≠ []) (filled : grams.flatten.length = buf.size) :
    sockRead true buf (dataOf grams ++ rest) = ⟨.some, true, buf.write grams.flatten, rest⟩ := by
  have loop := read_loop_data _ rest buf.left [] some (by rw [blank_left buf blank, filled])
  have content : grams.flatten ≠ [] := by
    obtain ⟨bytes, member⟩ := exists_mem_of_ne_nil _ any
    intro empty
    exact some _ member (flatten_eq_nil_iff.mp empty _ member)
  rw [blank_left buf blank, filled, Nat.sub_self, nil_append] at loop
  rw [sockRead, if_pos rfl, blank_left buf blank, loop]
  cases rest <;> simp [readLoop, content]

theorem read_dry (blank : Blank buf)
    (some : ∀ bytes ∈ grams, bytes ≠ []) (fits : grams.flatten.length < buf.size) (quiet : Dry rest) :
    sockRead true buf (dataOf grams ++ rest) = ⟨.again, true, buf.write grams.flatten, rest.tail⟩ := by
  have loop := read_loop_data _ rest buf.left [] some (by rw [blank_left buf blank]; omega)
  obtain ⟨room, positive⟩ : ∃ room, buf.size - grams.flatten.length = room + 1 :=
    ⟨buf.size - grams.flatten.length - 1, by omega⟩
  rw [blank_left buf blank, positive, nil_append] at loop
  rw [sockRead, if_pos rfl, blank_left buf blank, loop]
  rcases quiet with rfl | ⟨later, rfl⟩
  · rfl
  · rfl

theorem write_blank (blank : Blank buf) (fits : bytes.length ≤ buf.size) : (buf.write bytes).content = bytes := by
  rw [Buffer.content_write, blank_content buf blank, nil_append, blank_left buf blank, take_of_length_le fits]

theorem write_size : (buf.write bytes).size = buf.size := by
  have bound := buf.bounded
  rw [Buffer.size, Buffer.write, overwrite_length]
  · rfl
  · rw [length_take, Buffer.left]
    omega

theorem datagrams_taken : datagrams ((dataOf grams ++ rest).take ((dataOf grams ++ rest).length - rest.length)) = grams := by
  have taken : (dataOf grams ++ rest).length - rest.length = (dataOf grams).length := by
    rw [length_append]
    omega
  rw [taken, take_left, dataOf, datagrams, filterMap_map]
  exact filterMap_some

theorem datagrams_dry (quiet : Dry rest) :
    datagrams ((dataOf grams ++ rest).take ((dataOf grams ++ rest).length - rest.tail.length)) = grams := by
  rcases quiet with rfl | ⟨later, rfl⟩
  · exact datagrams_taken _ []
  · have step : (dataOf grams ++ .again :: later).length - later.length = (dataOf grams ++ [Recv.again]).length := by
      simp
      omega
    have split : dataOf grams ++ .again :: later = (dataOf grams ++ [Recv.again]) ++ later := by simp
    rw [tail_cons, step, split, take_left, datagrams, filterMap_append, dataOf, filterMap_map]
    simp

section Run

variable {σ : Type} (isOpen : σ → Bool) (close : σ → σ) (handle : σ → Msg → σ)

def Settled (line : Line σ) : Prop := Blank line.bufIn ∧ line.bufIn.size = roomIn

def Added (line next : Line σ) : Prop :=
  ∃ more added, next.received = line.received ++ more ∧ next.handled = line.handled ++ added ∧ Isolated more added

theorem added_none (line next : Line σ) (received : next.received = line.received) (handled : next.handled = line.handled) :
    Added line next := by
  refine ⟨[], [], ?_, ?_, isolated_nil⟩
  · rw [received, append_nil]
  · rw [handled, append_nil]

theorem added_trans (first second third : Line σ) (left : Added first second) (right : Added second third) :
    Added first third := by
  obtain ⟨more, added, received, handled, isolated⟩ := left
  obtain ⟨others, later, receivedNext, handledNext, isolatedNext⟩ := right
  refine ⟨more ++ others, added ++ later, ?_, ?_, isolated_append more _ _ _ isolated isolatedNext⟩
  · rw [receivedNext, received, append_assoc]
  · rw [handledNext, handled, append_assoc]

theorem drain_filled (line read : Line σ) (grams : List Datagram) (last : List UInt8)
    (numbers : ∀ gram ∈ grams, gram.Whole) (closing : Closing last) (settled : Settled line)
    (fits : (gramBytes grams ++ [last]).flatten.length ≤ roomIn)
    (buffered : read.bufIn = line.bufIn.write (gramBytes grams ++ [last]).flatten)
    (received : read.received = line.received ++ (gramBytes grams ++ [last])) (handled : read.handled = line.handled) :
    ∃ next, ptlDrain handle (read.bufIn.len + 1) read = (true, next) ∧ Settled next ∧ Added line next := by
  have content : read.bufIn.content = (gramBytes grams).flatten ++ last := by
    rw [buffered, write_blank _ _ settled.1 (by rw [settled.2]; exact fits)]
    simp
  have enough : grams.length + 2 ≤ read.bufIn.len + 1 := by
    have positive := length_pos_of_ne_nil (closing_positive last closing)
    have shorter := gram_bytes_short grams
    rw [← Buffer.content_length, content, length_append]
    omega
  obtain ⟨next, added, drained, blank, size, receivedNext, handledNext, isolated⟩ :=
    drain_call _ _ last closing _ read numbers content enough
  refine ⟨next, drained, ⟨blank, ?_⟩, gramBytes _ ++ [last], added, ?_, ?_, isolated⟩
  · rw [size, buffered, write_size, settled.2]
  · rw [receivedNext, received]
  · rw [handledNext, handled]

variable (fuel : Nat) (line : Line σ) (grams : List Datagram) (last : List UInt8) (rest : List Recv) (stream : List Recv)

theorem recv_closed (settled : Settled line) (shut : isOpen line.app = false) :
    ∃ next, ptlRecvLoop isOpen close handle (fuel + 1) line stream = (.err, next) ∧ Settled next ∧ Added line next := by
  have empty : line.bufIn.len = 0 := by rw [← Buffer.content_length, blank_content _ settled.1]; rfl
  refine ⟨line.filled close stream ⟨.none, false, line.bufIn, stream⟩, ?_, settled, ?_⟩
  · rw [ptlRecvLoop, shut]
    simp [sockRead, Line.filled, empty]
  · apply added_none
    · simp [Line.filled, datagrams]
    · rfl

theorem drain_empty (empty : line.bufIn.content = []) : ptlDrain handle (fuel + 1) line = (true, line) := by
  rw [ptlDrain, process_empty _ line empty]

theorem settled_left (settled : Settled line) : line.bufIn.left = 2047 + 1 := by
  rw [blank_left _ settled.1, settled.2]
  rfl

theorem settled_write_nothing (settled : Settled line) : Blank (line.bufIn.write []) ∧ (line.bufIn.write []).size = roomIn := by
  refine ⟨⟨settled.1.1, ?_⟩, ?_⟩
  · simp [Buffer.write, settled.1.2]
  · rw [write_size, settled.2]

theorem blank_len (buf : Buffer) (blank : Blank buf) : buf.len = 0 := by
  rw [← Buffer.content_length, blank_content buf blank]
  rfl

theorem recv_dry (settled : Settled line) (opened : isOpen line.app = true) (quiet : Dry stream) :
    ∃ next, ptlRecvLoop isOpen close handle (fuel + 1) line stream = (.ok, next) ∧ Settled next ∧ Added line next := by
  have room : ([] : List (List UInt8)).flatten.length < line.bufIn.size := by
    rw [settled.2]
    decide
  have read : sockRead true _ stream = ⟨.again, true, line.bufIn.write [], stream.tail⟩ :=
    read_dry _ [] _ settled.1 (fun _ absent => by cases absent) room quiet
  obtain ⟨blank, size⟩ := settled_write_nothing line settled
  refine ⟨line.filled close stream ⟨.again, true, line.bufIn.write [], stream.tail⟩, ?_, ⟨blank, size⟩, ?_⟩
  · rw [ptlRecvLoop, opened, read]
    rw [if_neg (by simp), drain_empty _ _ _ (blank_content _ blank)]
    rfl
  · apply added_none
    · have taken := datagrams_dry [] _ quiet
      rw [dataOf, map_nil, nil_append] at taken
      rw [Line.filled, taken, append_nil]
    · rfl

theorem recv_failed (settled : Settled line) (opened : isOpen line.app = true) :
    ∃ next, ptlRecvLoop isOpen close handle (fuel + 1) line (.failed :: rest) = (.err, next) ∧ Settled next ∧
      Added line next := by
  have read : sockRead true line.bufIn (.failed :: rest) = ⟨.none, false, line.bufIn, rest⟩ := by
    rw [sockRead, if_pos rfl, settled_left line settled]
    rfl
  refine ⟨line.filled close (.failed :: rest) ⟨.none, false, line.bufIn, rest⟩, ?_, settled, ?_⟩
  · rw [ptlRecvLoop, opened, read]
    simp [Line.filled, blank_len _ settled.1]
  · apply added_none
    · simp [Line.filled, datagrams]
    · rfl

theorem recv_empty (settled : Settled line) (opened : isOpen line.app = true) :
    ∃ next, ptlRecvLoop isOpen close handle (fuel + 1) line (.data [] :: rest) = (.err, next) ∧ Settled next ∧
      Added line next := by
  have read : sockRead true line.bufIn (.data [] :: rest) = ⟨.none, true, line.bufIn.write [], rest⟩ := by
    rw [sockRead, if_pos rfl, settled_left line settled]
    rfl
  obtain ⟨blank, size⟩ := settled_write_nothing line settled
  refine ⟨line.filled close (.data [] :: rest) ⟨.none, true, line.bufIn.write [], rest⟩, ?_, ⟨blank, size⟩, [[]], [], ?_, ?_, ?_⟩
  · rw [ptlRecvLoop, opened, read]
    simp [Line.filled, blank_len _ blank]
  · simp [Line.filled, datagrams]
  · simp [Line.filled]
  · apply isolated_other
    intro gram same
    have positive := datagram_positive gram
    rw [same] at positive
    exact Nat.lt_irrefl 0 positive

theorem call_nonempty : gramBytes grams ++ [last] ≠ [] := by simp

theorem recv_call (settled : Settled line) (opened : isOpen line.app = true) (numbers : ∀ gram ∈ grams, gram.Whole)
    (closing : Closing last) (fits : (gramBytes grams ++ [last]).flatten.length < roomIn) (quiet : Dry rest) :
    ∃ next, ptlRecvLoop isOpen close handle (fuel + 1) line (dataOf (gramBytes grams ++ [last]) ++ rest) = (.ok, next) ∧
      Settled next ∧ Added line next := by
  have read := read_dry _ _ rest settled.1 (call_positive _ last closing)
    (by rw [settled.2]; exact fits) quiet
  have taken := datagrams_dry (gramBytes grams ++ [last]) rest quiet
  obtain ⟨next, drained, settledNext, added⟩ := drain_filled _ line
    (line.filled close _
      ⟨.again, true, line.bufIn.write _, rest.tail⟩)
    _ last numbers closing settled (Nat.le_of_lt fits) rfl (by rw [Line.filled, taken]) rfl
  refine ⟨next, ?_, settledNext, added⟩
  rw [ptlRecvLoop, opened, read]
  rw [if_neg (by simp), drained]
  rfl

theorem recv_full (settled : Settled line) (opened : isOpen line.app = true) (numbers : ∀ gram ∈ grams, gram.Whole)
    (closing : Closing last) (filled : (gramBytes grams ++ [last]).flatten.length = roomIn) :
    ∃ next, ptlRecvLoop isOpen close handle (fuel + 1) line (dataOf (gramBytes grams ++ [last]) ++ rest) =
        ptlRecvLoop isOpen close handle fuel next rest ∧ Settled next ∧ Added line next := by
  have read := read_full _ _ rest settled.1 (call_nonempty _ last)
    (call_positive _ last closing) (by rw [settled.2]; exact filled)
  have taken := datagrams_taken (gramBytes grams ++ [last]) rest
  obtain ⟨next, drained, settledNext, added⟩ := drain_filled _ line
    (line.filled close _
      ⟨.some, true, line.bufIn.write _, rest⟩)
    _ last numbers closing settled (Nat.le_of_eq filled) rfl (by rw [Line.filled, taken]) rfl
  refine ⟨next, ?_, settledNext, added⟩
  rw [ptlRecvLoop, opened, read]
  rw [if_neg (by simp), drained]
  rfl

def Returns (fuel : Nat) (line : Line σ) (stream : List Recv) : Prop :=
  ∃ ret next, ptlRecvLoop isOpen close handle fuel line stream = (ret, next) ∧ ret ≠ .spin ∧ Settled next ∧
    Added line next

theorem returns_either (settled : Settled line)
    (whenOpen : isOpen line.app = true → Returns isOpen close handle (fuel + 1) line stream) :
    Returns isOpen close handle (fuel + 1) line stream := by
  by_cases opened : isOpen line.app = true
  · exact whenOpen opened
  · obtain ⟨next, ran, after⟩ := recv_closed _ _ _ fuel line _ settled (by simpa using opened)
    exact ⟨.err, next, ran, by simp, after⟩

theorem recv_sound (sound : Sound roomIn stream) (fuel : Nat) (line : Line σ)
    (enough : stream.length ≤ fuel) (settled : Settled line) : Returns isOpen close handle (fuel + 1) line stream := by
  induction sound generalizing fuel line with
  | dry stream quiet =>
    apply returns_either _ _ _ fuel line _ settled
    intro opened
    obtain ⟨next, ran, after⟩ := recv_dry _ _ _ fuel line _ settled opened quiet
    exact ⟨.ok, next, ran, by simp, after⟩
  | failed rest =>
    apply returns_either _ _ _ fuel line _ settled
    intro opened
    obtain ⟨next, ran, after⟩ := recv_failed _ _ _ fuel line rest settled opened
    exact ⟨.err, next, ran, by simp, after⟩
  | empty rest =>
    apply returns_either _ _ _ fuel line _ settled
    intro opened
    obtain ⟨next, ran, after⟩ := recv_empty _ _ _ fuel line rest settled opened
    exact ⟨.err, next, ran, by simp, after⟩
  | full grams last rest numbers closing filled later ih =>
    apply returns_either _ _ _ fuel line _ settled
    intro opened
    obtain ⟨middle, ran, settledMiddle, added⟩ :=
      recv_full _ _ _ fuel line _ last rest settled opened numbers closing filled
    obtain ⟨less, rfl⟩ : ∃ less, fuel = less + 1 := ⟨fuel - 1, by
      simp only [dataOf, map_append, length_append, map_cons, length_cons] at enough
      omega⟩
    obtain ⟨ret, next, ranNext, returns, settledNext, addedNext⟩ := ih less _ (by
      simp only [dataOf, map_append, length_append, map_cons, length_cons] at enough
      omega) settledMiddle
    exact ⟨ret, next, ran.trans ranNext, returns, settledNext, added_trans line _ next added addedNext⟩
  | call grams last rest numbers closing fits quiet =>
    apply returns_either _ _ _ fuel line _ settled
    intro opened
    obtain ⟨next, ran, after⟩ :=
      recv_call _ _ _ fuel line _ last rest settled opened numbers closing fits quiet
    exact ⟨.ok, next, ran, by simp, after⟩

-- What happens to a line: a READ event, anything that leaves buf_in alone,
-- and a session that is destroyed and made anew.
inductive LineEvent (σ : Type) where
  | readable (stream : List Recv)
  | elsewhere (change : σ → σ)
  | renew (change : σ → σ)

def Line.fresh (app : σ) : Line σ := ⟨app, sessBuf, [], []⟩

-- After a call that does not come back there is no state any more.
def lineStep (state : Option (Line σ)) (event : LineEvent σ) : Option (Line σ) :=
  state.bind fun line => match event with
    | .readable stream =>
      match ptlRecvMsg isOpen close handle line stream with
      | (.spin, _) => none
      | (_, next) => some next
    | .elsewhere change => some { line with app := change line.app }
    | .renew change => some { line with app := change line.app, bufIn := sessBuf }

def SoundEvent (event : LineEvent σ) : Prop :=
  match event with
  | .readable stream => Sound roomIn stream
  | .elsewhere _ => True
  | .renew _ => True

def Tidy (state : Option (Line σ)) : Prop := ∃ line, state = some line ∧ Settled line ∧ Isolated line.received line.handled

theorem sess_buf_blank : Blank sessBuf := by
  constructor
  · decide +kernel
  · decide +kernel

theorem tidy_step (state : Option (Line σ)) (event : LineEvent σ) (tidy : Tidy state) (sound : SoundEvent event) :
    Tidy (lineStep isOpen close handle state event) := by
  obtain ⟨line, rfl, settled, isolated⟩ := tidy
  cases event with
  | readable stream =>
    obtain ⟨ret, next, ran, returns, settledNext, more, added, received, handled, isolatedNext⟩ :=
      recv_sound isOpen close handle _ sound _ line (Nat.le_succ _) settled
    refine ⟨next, ?_, settledNext, ?_⟩
    · rw [lineStep, Option.bind_some]
      simp only [ptlRecvMsg, ran]
    · rw [received, handled]
      exact isolated_append _ more _ _ isolated isolatedNext
  | elsewhere change => exact ⟨_, rfl, settled, isolated⟩
  | renew change => exact ⟨_, rfl, ⟨sess_buf_blank, sess_buf_size⟩, isolated⟩

theorem datagrams_isolated (app : σ) (events : List (LineEvent σ)) (sound : ∀ event ∈ events, SoundEvent event) :
    ∃ line, run (lineStep isOpen close handle) (some (Line.fresh app)) events = some line ∧
      Isolated line.received line.handled := by
  have start : Tidy (some (Line.fresh app)) := ⟨_, rfl, ⟨sess_buf_blank, sess_buf_size⟩, isolated_nil⟩
  have steps : AllSteps _ _ _ _ := all_steps_of_all (lineStep isOpen close handle) _ (some (Line.fresh app)) _ sound
  obtain ⟨line, same, _, isolated⟩ := run_keeps _ _ Tidy
    _ _ start (tidy_step _ _ _) steps
  exact ⟨line, same, isolated⟩

end Run

-- A question about 10.1.16.3 without attributes, and the same one from a
-- server that has lost the attribute it announces.
def infoGram : Datagram := ⟨[1, 9, 0, 0, 0, 7, 0, 0, 10, 1, 16, 3, 0, 0, 0, 0], [], rfl, rfl, rfl⟩

def greedyGram : List UInt8 := [1, 9, 0, 0, 0, 6, 0, 0, 10, 1, 16, 3, 0, 0, 0, 1]

def namedGram : Datagram :=
  ⟨[1, 9, 0, 0, 0, 8, 0, 0, 10, 1, 16, 3, 0, 0, 0, 2], [⟨1, [117, 49], by decide⟩, ⟨0x0b, [0, 0, 0, 5], by decide⟩], rfl, rfl, rfl⟩

def twoGrams : List (LineEvent Bool) := [.readable [.data greedyGram, .data infoGram.bytes, .again]]

def openLine (events : List (LineEvent Bool)) : Option (Line Bool) :=
  run (lineStep id (fun _ => false) fun app _ => app) (some (Line.fresh true)) events

theorem datagrams_isolated_info : ∃ line, openLine [.readable (dataOf [namedGram.bytes, infoGram.bytes] ++ [.again]),
      .readable (dataOf [infoGram.bytes, namedGram.bytes, greedyGram] ++ [.again])] = some line ∧ Isolated line.received line.handled := by
  have quiet : Dry _ := .inr ⟨[], rfl⟩
  have numbers : ∀ gram ∈ [infoGram, namedGram], gram.Whole := by unfold Datagram.Whole RawAttr.Whole; decide
  have first : Sound roomIn _ := .call _ _ _ (fun gram there => numbers gram (.tail _ there))
    (.whole _ (numbers _ (.head _))) (by decide) quiet
  have second : Sound roomIn _ := .call _ _ _ numbers (.short greedyGram [] rfl rfl (by decide)) (by decide) quiet
  apply datagrams_isolated id _ _ true
  intro event member
  rcases mem_cons.mp member with rfl | later
  · exact first
  · rw [mem_singleton.mp later]
    exact second

theorem short_event_eats_next :
    ∃ line, openLine twoGrams = some line ∧ infoGram.bytes ∈ line.received ∧ ¬Isolated line.received line.handled := by
  have returned : (openLine twoGrams).isSome := by decide +kernel
  obtain ⟨line, same⟩ := Option.isSome_iff_exists.mp returned
  have arrived : infoGram.bytes ∈ ((openLine twoGrams).map Line.received).getD [] := by decide +kernel
  have lost : infoGram.msg ∉ ((openLine twoGrams).map Line.handled).getD [] := by decide +kernel
  rw [same] at arrived lost
  refine ⟨line, same, arrived, ?_⟩
  intro isolated
  exact lost (isolated_handled _ _ _ isolated arrived)

end Codec.Portal
