import Codec.Ems.Buffer

set_option autoImplicit false

namespace Codec.Ems

-- What one recv(2) on a nonblocking socket can answer. An empty datagram is
-- a return of 0, and EINTR is treated by the callers exactly like EAGAIN.
inductive Recv where
  | data (bytes : List UInt8)
  | again
  | failed
  deriving DecidableEq, Repr

-- What send(2) can answer for a datagram: all of it goes or none.
inductive Send where
  | sent
  | again
  | failed
  deriving DecidableEq, Repr

inductive ReadEnd where
  | full | zero | again | failed
  deriving DecidableEq, Repr

-- The loop of ems_sock_read: it stops when no room is left, on an empty
-- datagram or when recv(2) has nothing more. What does not fit into the
-- room is lost with its datagram. A stream that has run dry says EAGAIN.
def readLoop : List Recv → Nat → List UInt8 → ReadEnd × List UInt8 × List Recv
  | stream, 0, got => (.full, got, stream)
  | [], _ + 1, got => (.again, got, [])
  | .data bytes :: rest, left + 1, got =>
    if bytes = [] then (.zero, got, rest)
    else readLoop rest (left + 1 - (bytes.take (left + 1)).length) (got ++ bytes.take (left + 1))
  | .again :: rest, _ + 1, got => (.again, got, rest)
  | .failed :: rest, _ + 1, got => (.failed, got, rest)

inductive ReadRet where
  | some | none | again
  deriving DecidableEq, Repr

structure ReadResult where
  ret : ReadRet
  opened : Bool
  buf : Buffer
  stream : List Recv

-- ems_sock_read; `some` is a positive count, `none` the 0 and EMS_ERR that
-- no caller tells apart. On a failure the socket is closed and what this
-- call had read stays behind wr.
def sockRead (opened : Bool) (buf : Buffer) (stream : List Recv) : ReadResult :=
  if opened then
    match readLoop stream buf.left [] with
    | (.full, got, rest) => ⟨if got = [] then .none else .some, true, buf.write got, rest⟩
    | (.zero, got, rest) => ⟨.none, true, buf.write got, rest⟩
    | (.again, got, rest) => ⟨.again, true, buf.write got, rest⟩
    | (.failed, _, rest) => ⟨.none, false, buf, rest⟩
  else ⟨.none, false, buf, stream⟩

def answersFor (recv : Nat → Recv) (taken left : Nat) : List Recv := (List.range (left + 1)).map fun index => recv (taken + index)

section Read

variable (recv : Nat → Recv) (taken left : Nat)

theorem answers_length : (answersFor recv taken left).length = left + 1 := by
  rw [answersFor, List.length_map, List.length_range]

theorem answers_cons : ∃ rest, answersFor recv taken left = recv taken :: rest := by
  refine ⟨(List.range left).map fun index => recv (taken + (index + 1)), ?_⟩
  rw [answersFor, List.range_succ_eq_map, List.map_cons, List.map_map]
  rfl

theorem read_loop_shorter (stream : List Recv) (left : Nat) (got : List UInt8) : (readLoop stream left got).2.2.length ≤ stream.length := by
  induction stream generalizing left got with
  | nil => cases left <;> exact Nat.le_refl _
  | cons first rest ih =>
    cases left with
    | zero => exact Nat.le_refl _
    | succ left =>
      cases first with
      | again => exact Nat.le_succ _
      | failed => exact Nat.le_succ _
      | data bytes =>
        rw [readLoop]
        split
        · exact Nat.le_succ _
        · exact (ih _ _).trans (Nat.le_succ _)

theorem read_loop_takes (first : Recv) (rest : List Recv) (left : Nat) (got : List UInt8) (room : 0 < left) :
    (readLoop (first :: rest) left got).2.2.length ≤ rest.length := by
  obtain ⟨left, rfl⟩ := Nat.exists_eq_succ_of_ne_zero (Nat.ne_of_gt room)
  cases first with
  | again => exact Nat.le_refl _
  | failed => exact Nat.le_refl _
  | data bytes =>
    rw [readLoop]
    split
    · exact Nat.le_refl _
    · exact read_loop_shorter _ _ _

theorem read_loop_full (stream : List Recv) (left : Nat) (got : List UInt8) (full : (readLoop stream left got).1 = .full) (place : Nat)
    (again : stream[place]? = some .again) : stream.length - (readLoop stream left got).2.2.length ≤ place := by
  induction stream generalizing left got place with
  | nil => exact nomatch again
  | cons first rest ih =>
    cases left with
    | zero =>
      rw [readLoop, Nat.sub_self]
      exact Nat.zero_le _
    | succ left =>
      cases first with
      | again => exact nomatch full
      | failed => exact nomatch full
      | data bytes =>
        rw [readLoop] at full ⊢
        by_cases empty : bytes = []
        · rw [if_pos empty] at full
          exact nomatch full
        rw [if_neg empty] at full ⊢
        cases place with
        | zero => exact nomatch Option.some.inj again
        | succ place =>
          have later := ih _ _ full _ again
          rw [List.length_cons]
          omega

variable (buf : Buffer) (stream rest : List Recv)

theorem sock_read_stream : (sockRead true buf stream).stream = (readLoop stream buf.left []).2.2 := by
  unfold sockRead
  rw [if_pos rfl]
  split
  all_goals
    rename_i same
    rw [same]

theorem write_nothing : (buf.write []).len = buf.len ∧ (buf.write []).left = buf.left := by
  constructor
  · show buf.wr + ([].take _ : List _).length - buf.rd = buf.wr - buf.rd
    rw [List.take_nil, List.length_nil, Nat.add_zero]
  · show (overwrite _ _ _).length - (buf.wr + ([].take _ : List _).length) = buf.mem.length - buf.wr
    have inside := buf.bounded
    rw [List.take_nil, overwrite_length _ _ _ (by rw [List.length_nil]; omega), List.length_nil, Nat.add_zero]

theorem refresh_len : buf.refresh.len = buf.len := by
  rw [← Buffer.content_length, Buffer.content_refresh, Buffer.content_length]

theorem consumed_len (length : Nat) (inside : length ≤ buf.len) : (((buf.seekRd length .cur).getD buf).refresh).len = buf.len - length := by
  obtain ⟨next, moved⟩ := Option.isSome_iff_exists.mp (Buffer.seek_rd_cur_some buf _ inside)
  rw [refresh_len, moved, Option.getD_some, ← Buffer.content_length, Buffer.seek_rd_cur_content buf next _ moved,
    List.length_drop, Buffer.content_length]

theorem sock_read_closed : sockRead false buf stream = ⟨.none, false, buf, stream⟩ := if_neg Bool.false_ne_true

theorem sock_read_full (full : buf.left = 0) : sockRead true buf stream = ⟨.none, true, buf.write [], stream⟩ := by
  have ended : readLoop stream buf.left [] = (.full, [], stream) := by
    rw [full]
    cases stream <;> rfl
  rw [sockRead, if_pos rfl, ended]
  rfl

theorem sock_read_again (room : 0 < buf.left) : (sockRead true buf (.again :: rest)).ret = .again := by
  obtain ⟨left, same⟩ := Nat.exists_eq_succ_of_ne_zero (Nat.ne_of_gt room)
  have ended : readLoop (.again :: rest) buf.left [] = (.again, [], rest) := by
    rw [same]
    rfl
  rw [sockRead, if_pos rfl, ended]

theorem sock_read_failed (room : 0 < buf.left) : sockRead true buf (.failed :: rest) = ⟨.none, false, buf, rest⟩ := by
  obtain ⟨left, same⟩ := Nat.exists_eq_succ_of_ne_zero (Nat.ne_of_gt room)
  have ended : readLoop (.failed :: rest) buf.left [] = (.failed, [], rest) := by
    rw [same]
    rfl
  rw [sockRead, if_pos rfl, ended]

end Read

end Codec.Ems
