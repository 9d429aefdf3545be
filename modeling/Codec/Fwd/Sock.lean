import Mathlib.Data.List.Basic

set_option autoImplicit false

namespace Codec.Fwd

open List

def fwdBufferDefaultSize : Nat := 4096

-- fwd_buffer: trash lies before rd, data between rd and wr.
structure FwdBuffer where
  trash : Nat
  data : List UInt8
  fits : trash + data.length ≤ fwdBufferDefaultSize

def FwdBuffer.left (buf : FwdBuffer) : Nat := fwdBufferDefaultSize - (buf.trash + buf.data.length)

def fwdBufferInit : FwdBuffer := ⟨0, [], Nat.zero_le _⟩

def FwdBuffer.put (buf : FwdBuffer) (bytes : List UInt8) : FwdBuffer where
  trash := buf.trash
  data := buf.data ++ bytes.take buf.left
  fits := by
    have fits := buf.fits
    rw [List.length_append, List.length_take, FwdBuffer.left]
    omega

def fwdBufferDrain (buf : FwdBuffer) (count : Nat) : FwdBuffer where
  trash := buf.trash + min count buf.data.length
  data := buf.data.drop count
  fits := by
    have fits := buf.fits
    rw [List.length_drop]
    omega

def fwdBufferRefresh (buf : FwdBuffer) : FwdBuffer where
  trash := 0
  data := buf.data
  fits := by
    have fits := buf.fits
    omega

def msgUserRegister : Nat := 0x1504
def fwdVersion : Nat := 1
def sizeofFwdRequest : Nat := 8

def htons (value : Nat) : List UInt8 := [UInt8.ofNat (value / 256), UInt8.ofNat value]

-- fwd_request without a value behind it.
def fwdRequest (tag st : Nat) : List UInt8 := htons sizeofFwdRequest ++ htons fwdVersion ++ htons tag ++ htons st

-- fwd_buffer_pack without a callback; FWD_BUFFER_FULL leaves the buffer alone.
def fwdBufferPack (buf : FwdBuffer) (tag st : Nat) : FwdBuffer :=
  if buf.left ≤ sizeofFwdRequest + 4 then buf else buf.put (fwdRequest tag st)

-- What recv answers: at least one byte, or that there is none now, or the end.
inductive Recv
  | data (first : UInt8) (rest : List UInt8)
  | again
  | eof
  | error
deriving DecidableEq

-- What send answers: it took one byte and more of them, or none now.
inductive Send
  | took (more : Nat)
  | again
  | error
deriving DecidableEq

-- The result of fwd_sock_read and fwd_sock_send; again is -EAGAIN.
inductive SockRet
  | count (bytes : Nat)
  | again
  | error
deriving DecidableEq

-- fwd_sock_read: taken is what this call has read before. Bytes that are read
-- before the end of the file stay in the buffer, but the call returns 0.
def fwdSockRead : List Recv → FwdBuffer → List UInt8 → SockRet × FwdBuffer × List UInt8
  | [], buf, taken => (if taken = [] ∧ buf.left ≠ 0 then .again else .count taken.length, buf, taken)
  | answer :: rest, buf, taken =>
    if buf.left = 0 then (.count taken.length, buf, taken)
    else match answer with
      | .again => (if taken = [] then .again else .count taken.length, buf, taken)
      | .eof => (.count 0, buf, taken)
      | .error => (.error, buf, taken)
      | .data first more => fwdSockRead rest (buf.put (first :: more)) (taken ++ (first :: more).take buf.left)

def fwdSockSend : List Send → List UInt8 → List UInt8 → SockRet × List UInt8
  | _, [], sent => (.count sent.length, sent)
  | [], _, sent => (.count sent.length, sent)
  | answer :: rest, byte :: data, sent => match answer with
      | .again => (.count sent.length, sent)
      | .error => (.error, sent)
      | .took more => fwdSockSend rest (data.drop more) (sent ++ byte :: data.take more)

section Buffer

variable (buf : FwdBuffer)

@[simp] theorem put_trash (bytes : List UInt8) : (buf.put bytes).trash = buf.trash := rfl

@[simp] theorem put_data (bytes : List UInt8) : (buf.put bytes).data = buf.data ++ bytes.take buf.left := rfl

@[simp] theorem drain_data (count : Nat) : (fwdBufferDrain buf count).data = buf.data.drop count := rfl

@[simp] theorem refresh_data : (fwdBufferRefresh buf).data = buf.data := rfl

theorem refresh_left : (fwdBufferRefresh buf).left = fwdBufferDefaultSize - buf.data.length := by
  rw [FwdBuffer.left, refresh_data]
  exact congrArg _ (Nat.zero_add _)

theorem pack_full (tag st : Nat) (full : buf.left ≤ 12) : fwdBufferPack buf tag st = buf := if_pos full

theorem pack_room (tag st : Nat) (room : 12 < buf.left) :
    (fwdBufferPack buf tag st).data = buf.data ++ fwdRequest tag st ∧ (fwdBufferPack buf tag st).left = buf.left - 8 := by
  have short : (fwdRequest tag st).length = 8 := rfl
  have full : ¬ buf.left ≤ sizeofFwdRequest + 4 := Nat.not_le_of_lt room
  have whole : (fwdRequest tag st).take buf.left = fwdRequest tag st := take_of_length_le (by omega)
  have data : (fwdBufferPack buf tag st).data = buf.data ++ fwdRequest tag st := by
    rw [fwdBufferPack, if_neg full, put_data, whole]
  have trash : (fwdBufferPack buf tag st).trash = buf.trash := by rw [fwdBufferPack, if_neg full, put_trash]
  refine ⟨data, ?_⟩
  rw [FwdBuffer.left, data, trash, length_append, short, FwdBuffer.left]
  omega

end Buffer

theorem sock_read_full (answer : Recv) (rest : List Recv) (buf : FwdBuffer) (taken : List UInt8) (full : buf.left = 0) :
    fwdSockRead (answer :: rest) buf taken = (.count taken.length, buf, taken) := by
  cases answer <;> exact if_pos full

theorem sock_read_data_cons (first : UInt8) (more : List UInt8) (rest : List Recv) (buf : FwdBuffer) (taken : List UInt8) (room : buf.left ≠ 0) :
    fwdSockRead (.data first more :: rest) buf taken =
      fwdSockRead rest (buf.put (first :: more)) (taken ++ (first :: more).take buf.left) := if_neg room

theorem sock_read_done (buf : FwdBuffer) (taken : List UInt8) (some : taken ≠ []) :
    fwdSockRead [] buf taken = (.count taken.length, buf, taken) := by
  rw [fwdSockRead, if_neg fun empty => some empty.1]

section Stop

variable (rest : List Recv) (buf : FwdBuffer) (taken : List UInt8) (room : buf.left ≠ 0)

include room

theorem sock_read_again : fwdSockRead (.again :: rest) buf taken = (if taken = [] then .again else .count taken.length, buf, taken) :=
  if_neg room

theorem sock_read_eof : fwdSockRead (.eof :: rest) buf taken = (.count 0, buf, taken) := if_neg room

theorem sock_read_error : fwdSockRead (.error :: rest) buf taken = (.error, buf, taken) := if_neg room

end Stop

theorem sock_read_data (answers : List Recv) (buf : FwdBuffer) (taken : List UInt8) :
    ∃ bytes, (fwdSockRead answers buf taken).2.2 = taken ++ bytes ∧ (fwdSockRead answers buf taken).2.1.data = buf.data ++ bytes ∧
      (fwdSockRead answers buf taken).2.1.trash = buf.trash := by
  induction answers generalizing buf taken with
  | nil => exact ⟨[], (append_nil _).symm, (append_nil _).symm, rfl⟩
  | cons answer rest ih =>
    have same : ∃ bytes, taken = taken ++ bytes ∧ buf.data = buf.data ++ bytes ∧ buf.trash = buf.trash :=
      ⟨[], (append_nil _).symm, (append_nil _).symm, rfl⟩
    by_cases full : buf.left = 0
    · rw [sock_read_full _ rest buf _ full]
      exact same
    · cases answer with
      | again =>
        rw [sock_read_again rest buf _ full]
        exact same
      | eof =>
        rw [sock_read_eof rest buf _ full]
        exact same
      | error =>
        rw [sock_read_error rest buf _ full]
        exact same
      | data first more =>
        rw [sock_read_data_cons _ more rest buf _ full]
        obtain ⟨bytes, took, held, trash⟩ := ih _ _
        refine ⟨(first :: more).take buf.left ++ bytes, ?_, ?_, trash⟩
        · rw [took, append_assoc]
        · rw [held, put_data, append_assoc]

def ReadRet (taken : List UInt8) : SockRet → Prop
  | .count bytes => bytes ≠ 0 → bytes = taken.length
  | .again => taken = []
  | .error => True

theorem sock_read_ret (answers : List Recv) (buf : FwdBuffer) (taken : List UInt8) :
    ReadRet (fwdSockRead answers buf taken).2.2 (fwdSockRead answers buf taken).1 := by
  induction answers generalizing buf taken with
  | nil =>
    rw [fwdSockRead]
    split
    · rename_i none_there
      exact none_there.1
    · exact fun _ => rfl
  | cons answer rest ih =>
    by_cases full : buf.left = 0
    · rw [sock_read_full _ rest buf _ full]
      exact fun _ => rfl
    · cases answer with
      | again =>
        rw [sock_read_again rest buf _ full]
        split
        · rename_i none_there
          exact none_there
        · exact fun _ => rfl
      | eof =>
        rw [sock_read_eof rest buf _ full]
        exact fun some => absurd rfl some
      | error =>
        rw [sock_read_error rest buf _ full]
        trivial
      | data first more =>
        rw [sock_read_data_cons _ more rest buf _ full]
        exact ih _ _

theorem sock_read_alive (answers : List Recv) (alive : ∀ answer ∈ answers, answer ≠ .eof ∧ answer ≠ .error) (buf : FwdBuffer)
    (taken : List UInt8) (room : buf.left ≠ 0 ∨ taken ≠ []) :
    (fwdSockRead answers buf taken).1 = .again ∨ ∃ bytes, bytes ≠ 0 ∧ (fwdSockRead answers buf taken).1 = .count bytes := by
  have counted (some : taken ≠ []) : ∃ bytes, bytes ≠ 0 ∧ SockRet.count _ = .count bytes :=
    ⟨taken.length, fun empty => some (length_eq_zero_iff.mp empty), rfl⟩
  induction answers generalizing buf taken with
  | nil =>
    rw [fwdSockRead]
    split
    · exact .inl rfl
    · rename_i other
      refine .inr (counted fun empty => other ⟨empty, ?_⟩)
      exact room.resolve_right fun some => some empty
  | cons answer rest ih =>
    obtain ⟨first_alive, later⟩ := forall_mem_cons.mp alive
    by_cases full : buf.left = 0
    · rw [sock_read_full _ rest buf _ full]
      exact .inr (counted (room.resolve_left fun some => some full))
    · cases answer with
      | again =>
        rw [sock_read_again rest buf _ full]
        split
        · exact .inl rfl
        · rename_i some
          exact .inr (counted some)
      | eof => exact absurd rfl first_alive.1
      | error => exact absurd rfl first_alive.2
      | data first more =>
        rw [sock_read_data_cons _ more rest buf _ full]
        have some : taken ++ (first :: more).take buf.left ≠ [] := by
          obtain ⟨room_, more_room⟩ := Nat.exists_eq_succ_of_ne_zero full
          rw [more_room, take_succ_cons]
          exact append_ne_nil_of_right_ne_nil _ (cons_ne_nil _ _)
        exact ih later _ _ (.inr some) fun _ => ⟨_, fun empty => some (length_eq_zero_iff.mp empty), rfl⟩

theorem sock_send_alive (more : Nat) (answers : List Send) (alive : ∀ answer ∈ answers, answer ≠ .error) (data : List UInt8) (some : data ≠ []) :
    ∃ bytes, bytes ≠ 0 ∧ (fwdSockSend (.took more :: answers) data []).1 = .count bytes := by
  have later (answers : List Send) (alive : ∀ answer ∈ answers, answer ≠ .error) (data sent : List _) (filled : sent ≠ []) :
      ∃ bytes, bytes ≠ 0 ∧ (fwdSockSend answers data sent).1 = .count bytes := by
    have counted : ∃ bytes, bytes ≠ 0 ∧ SockRet.count _ = .count bytes :=
      ⟨sent.length, fun empty => filled (length_eq_zero_iff.mp empty), rfl⟩
    induction answers generalizing data sent with
    | nil => cases data <;> exact counted
    | cons answer rest ih =>
      obtain ⟨first_alive, rest_alive⟩ := forall_mem_cons.mp alive
      cases data with
      | nil => exact counted
      | cons byte data =>
        cases answer with
        | again => exact counted
        | error => exact absurd rfl first_alive
        | took more =>
          have longer : sent ++ byte :: data.take more ≠ [] := append_ne_nil_of_right_ne_nil _ (cons_ne_nil _ _)
          exact ih rest_alive _ _ longer ⟨_, fun empty => longer (length_eq_zero_iff.mp empty), rfl⟩
  cases data with
  | nil => exact absurd rfl some
  | cons byte data => exact later _ alive _ _ (cons_ne_nil _ _)

theorem sock_send_sent (answers : List Send) (data sent : List UInt8) :
    ∃ n, (fwdSockSend answers data sent).2 = sent ++ data.take n ∧ n ≤ data.length ∧
      ∀ count, (fwdSockSend answers data sent).1 = .count count → count = sent.length + n := by
  induction answers generalizing data sent with
  | nil =>
    have ret : fwdSockSend [] data sent = (.count sent.length, sent) := by cases data <;> rfl
    rw [ret]
    exact ⟨0, (append_nil _).symm, Nat.zero_le _, fun count same => (SockRet.count.inj same).symm⟩
  | cons answer rest ih =>
    cases data with
    | nil => exact ⟨0, (append_nil _).symm, Nat.zero_le _, fun count same => (SockRet.count.inj same).symm⟩
    | cons byte data =>
      cases answer with
      | again => exact ⟨0, (append_nil _).symm, Nat.zero_le _, fun count same => (SockRet.count.inj same).symm⟩
      | error => exact ⟨0, (append_nil _).symm, Nat.zero_le _, fun count same => (nomatch same)⟩
      | took more =>
        obtain ⟨n, whole, bound, counted⟩ := ih _ _
        rw [length_drop] at bound
        refine ⟨min more data.length + n + 1, ?_, ?_, fun count same => ?_⟩
        · rw [fwdSockSend, whole, append_assoc, cons_append, take_succ_cons]
          refine congrArg _ (congrArg _ ?_)
          rw [take_add, take_eq_take_min, ← drop_eq_drop_min]
        · rw [length_cons]
          omega
        · rw [fwdSockSend] at same
          rw [counted _ same, length_append, length_cons, length_take]
          omega

end Codec.Fwd
