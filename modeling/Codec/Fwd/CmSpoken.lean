import Codec.Fwd.CmTold

set_option autoImplicit false

namespace Codec.Fwd

open Codec.Lib

section Spoken

variable (json : CmJson)

structure Spoken (cm : FwdCm) : Prop where
  part : cm.sent <+: cmTells json cm.history
  first : cm.history = [] ∨ ∃ rest, cm.history = .registered :: rest
  up : cm.st = .est → cm.history ≠ [] ∧ Told json cm ∧ Parsed json cm ∧ fwdBufferUnpack cm.bufIn.data true = .incomplete
  running : cm.crashed = false

def CmStep.replies : CmStep → List CmReply
  | .event _ _ _ _ _ replies => replies
  | _ => []

end Spoken

section Step

variable (json : CmJson)

variable (reg : sizeofFwdRequest + 5 + json.reginfo.length ≤ fwdBufferDefaultSize)

include reg

end Step

def writable : CmStep := .event false false ⟨false, true⟩ [] [.took 100] []

end Codec.Fwd
