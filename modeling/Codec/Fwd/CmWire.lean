import Codec.Fwd.Cm

set_option autoImplicit false

namespace Codec.Fwd

-- The message that tells an event: its tag, its status and its value.
section Tell

variable (json : CmJson)

def cmTag : CmEvent → Nat
  | .registered => msgCmReg
  | .answered _ _ => msgCmTicketNew
  | .unclear => msgCmTicketNew
  | .heartbeat => msgCmHeartbeat
  | .ended _ => msgCmTicketFired

def cmStatusOf : CmEvent → Nat
  | .answered _ ret => statusWord ret
  | .unclear => statusWord fwdErrInvalidArg
  | _ => 0

def cmValue : CmEvent → List UInt8
  | .registered => json.reginfo
  | .answered ticket _ => json.ticketRsp ticket
  | .ended ticket => json.ticketRsp ticket
  | _ => []

def cmMessage (event : CmEvent) : List UInt8 := fwdMessage (cmTag event) (cmStatusOf event) (cmValue json event)

def cmTells (history : List CmEvent) : List UInt8 := history.flatMap (cmMessage json)

def RoomFor : Nat → List CmEvent → Prop
  | _, [] => True
  | left, event :: rest => sizeofFwdRequest + 5 + (cmValue json event).length ≤ left ∧ RoomFor (left - (cmMessage json event).length) rest

instance decidableRoomFor : ∀ left events, Decidable (RoomFor json left events)
  | _, [] => isTrue trivial
  | left, event :: rest =>
    have _ := decidableRoomFor (left - (cmMessage json event).length) rest
    inferInstanceAs (Decidable (sizeofFwdRequest + 5 + (cmValue json event).length ≤ left ∧ RoomFor json (left - (cmMessage json event).length) rest))

theorem message_length (tag st : Nat) (value : List UInt8) : (fwdMessage tag st value).length ≤ sizeofFwdRequest + 4 + value.length := by
  rw [fwdMessage]
  split
  · exact Nat.le_add_right_of_le (show 8 ≤ 12 by omega)
  · simp only [htonl, htons, List.length_append, List.length_cons, List.length_nil, sizeofFwdRequest]
    omega

end Tell

section Unpack

variable (grant : Bool)

theorem unpack_bounds (data : List UInt8) (some : fwdBufferUnpack data grant ≠ .incomplete) :
    sizeofFwdRequest ≤ data.length ∧ requestLen data ≤ data.length := by
  rw [fwdBufferUnpack] at some
  by_cases short : data.length < sizeofFwdRequest ∨ data.length < requestLen data
  · exact absurd (if_pos short) some
  · exact ⟨Nat.le_of_not_lt fun less => short (.inl less), Nat.le_of_not_lt fun less => short (.inr less)⟩

theorem unpack_len (data : List UInt8) (len cmd : Nat) (val : Option (List UInt8)) (message : fwdBufferUnpack data grant = .message len cmd val) :
    len = requestLen data := by
  rw [fwdBufferUnpack] at message
  split at message
  · exact nomatch message
  · split at message
    · exact (Unpacked.message.inj message).1.symm
    · split at message
      · exact nomatch message
      · split at message
        · exact (Unpacked.message.inj message).1.symm
        · exact nomatch message

end Unpack

def Whole (raw : List UInt8) : Prop := ∃ cmd val, fwdBufferUnpack raw true = .message raw.length cmd val

section Clean

variable (json : CmJson)

-- The receive loop never gets past these bytes.
def Garbled (data : List UInt8) : Prop :=
  fwdBufferUnpack data true = .err ∨ ∃ len cmd val, fwdBufferUnpack data true = .message len cmd val ∧
    (len < sizeofFwdRequest ∨ Crashes json cmd val)

def CleanStream (heard : List UInt8) : Prop := ∀ (raws : List (List UInt8)) (rest : List UInt8), (∀ raw ∈ raws, Whole raw) →
  heard = raws.flatten ++ rest → ¬ Garbled json rest

end Clean

end Codec.Fwd
