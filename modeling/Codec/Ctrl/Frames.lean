import Codec.Ctrl.Client

set_option autoImplicit false

namespace Codec.Ctrl

open Codec.Ems
open Codec.Http (msgIsWeb)
open Codec.Tunnel (Packed htonl)

def Refuses (alloc : Bool) (buf : Buffer) (need : Nat) : Prop := alloc = false ∧ buf.left < need ∧ buf.left + buf.rd ≤ need

def Roomy (buf : Buffer) (need total : Nat) : Prop :=
  if need ≤ buf.left then total ≤ buf.left
  else if need < buf.left + buf.rd then total ≤ buf.left + buf.rd
  else total ≤ buf.left + buf.rd + need

instance (alloc : Bool) (buf : Buffer) (need : Nat) : Decidable (Refuses alloc buf need) := inferInstanceAs (Decidable (_ ∧ _))

instance (buf : Buffer) (need total : Nat) : Decidable (Roomy buf need total) := by
  unfold Roomy
  infer_instance

def AppendsFrame (takes : Str → Prop) (packed : Packed) (buf : Buffer) : Prop :=
  (packed.ret = .ok ∧ ∃ frame, packed.buf.content = buf.content ++ frame ∧ takes frame) ∨
    packed.ret = .err ∧ packed.buf.content = buf.content

theorem refresh_left (buf : Buffer) : buf.refresh.left = buf.left + buf.rd := by
  have ordered := buf.ordered
  have inside := buf.bounded
  unfold Buffer.refresh
  split
  · have size := overwrite_length buf.mem 0 buf.content (by
      rw [Buffer.content_length]
      simp only [Buffer.len]
      omega)
    simp only [Buffer.left, Buffer.len, size]
    omega
  · rename_i start
    simp only [Buffer.trash] at start
    omega

theorem increase_room (buf : Buffer) (inc : Nat) : (buf.increase inc).left =
    if inc < buf.left + buf.rd then buf.left + buf.rd else buf.left + buf.rd + inc := by
  have fresh := refresh_left buf
  have inside := buf.refresh.bounded
  dsimp only [Buffer.increase]
  by_cases enough : inc < buf.left + buf.rd
  · rw [if_pos enough, if_pos (by omega), fresh]
  · rw [if_neg enough, if_neg (by omega), ← fresh]
    simp only [Buffer.left, List.length_append, List.length_replicate]
    omega

theorem room_cases (alloc : Bool) (buf : Buffer) (need : Nat) : (Refuses alloc buf need ∧ (msgRoom alloc buf need).1 ≠ .ok) ∨
      ¬ Refuses alloc buf need ∧ ∃ room, msgRoom alloc buf need = (.ok, room) ∧
        ∀ total, Roomy buf need total ↔ total ≤ room.left := by
  have fresh := refresh_left buf
  unfold msgRoom Refuses Roomy
  by_cases low : buf.left < need
  · rw [if_pos low]
    by_cases able : (alloc || decide (need < buf.refresh.left)) = true
    · rw [if_pos able]
      simp only [Bool.or_eq_true, decide_eq_true_eq, fresh] at able
      refine .inr ⟨?_, _, rfl, fun total => ?_⟩
      · rintro ⟨none, _, full⟩
        rcases able with some | enough
        · rw [none] at some
          cases some
        · omega
      · rw [if_neg (by omega), increase_room]
        split <;> rfl
    · rw [if_neg able]
      simp only [Bool.or_eq_true, decide_eq_true_eq, not_or, fresh] at able
      exact .inl ⟨⟨Bool.eq_false_iff.mpr able.1, low, by omega⟩, (nomatch ·)⟩
  · rw [if_neg low]
    refine .inr ⟨fun refused => low refused.2.1, buf, rfl, fun total => ?_⟩
    rw [if_pos (by omega)]

section Iff

variable (alloc : Bool) (spill : Nat)

theorem appends_frame_iff (size : Nat) (header : Nat → Str) (ctx : Option Context) (buf : Buffer) (takes : Str → Prop)
    (fine : Prop) (headed : ∀ len, (header len).length = size) (nothing : ¬ takes [])
    (framed : ∀ pad, (image header size ctx ++ pad).length = total size ctx → (takes (image header size ctx ++ pad) ↔ fine)) :
    AppendsFrame takes (packMsg alloc spill size header ctx buf) buf ↔
      Refuses alloc buf (contextLen ctx + size) ∨ Roomy buf (contextLen ctx + size) (total size ctx) ∧ fine := by
  unfold AppendsFrame
  rcases room_cases _ buf _ with ⟨refuses, refused⟩ | ⟨able, room, made, roomy⟩
  · exact ⟨fun _ => .inl refuses, fun _ => .inr (pack_refused _ _ size _ ctx buf refused)⟩
  · rw [roomy]
    by_cases fits : total size ctx ≤ room.left
    · obtain ⟨ret, pad, whole, content⟩ := pack_fits _ _ size _ ctx buf room made fits headed
      constructor
      · rintro (⟨_, frame, appended, taken⟩ | ⟨err, _⟩)
        · rw [content] at appended
          exact .inr ⟨fits, (framed pad whole).mp (List.append_cancel_left appended ▸ taken)⟩
        · rw [ret] at err
          cases err
      · rintro (refuses | ⟨_, good⟩)
        · exact absurd refuses able
        · exact .inl ⟨ret, _, content, (framed pad whole).mpr good⟩
    · obtain ⟨ret, content⟩ := pack_short _ _ size _ ctx buf room made (by omega)
      constructor
      · rintro (⟨_, frame, appended, taken⟩ | ⟨err, _⟩)
        · rw [content] at appended
          have none : frame = [] := List.self_eq_append_right.mp appended
          exact absurd (none ▸ taken) nothing
        · rw [ret] at err
          cases err
      · rintro (refuses | ⟨bad, _⟩)
        · exact absurd refuses able
        · exact absurd bad fits

theorem pack_req_iff (tag : UInt32) (ctx : Option Context) (buf : Buffer) :
    AppendsFrame (TakesRequest · tag ctx) (emsPackReq alloc spill tag ctx buf) buf ↔
      Refuses alloc buf (contextLen ctx + sizeRequest) ∨ Roomy buf (contextLen ctx + sizeRequest) (total sizeRequest ctx) ∧
          total sizeRequest ctx < 1024 ∧ msgIsWeb (htonl tag.toNat) = false := by
  apply appends_frame_iff _ _ _ (requestHeader tag) ctx buf _ _ (fun _ => rfl) (nothing_taken tag ctx)
  intro pad whole
  constructor
  · intro taken
    by_contra bad
    rw [not_and_or, Bool.not_eq_false, not_lt] at bad
    exact request_refused tag ctx pad whole bad taken
  · rintro ⟨short, other⟩
    exact request_taken tag ctx pad whole short other

theorem no_response (tag st : UInt32) (ctx : Option Context) : ¬ TakesResponse [] tag st ctx := by
  intro takes
  obtain ⟨next, read, _⟩ := takes (Buffer.init 1024) [] rfl rfl (Nat.le_of_eq List.length_replicate.symm)
  cases read

theorem pack_rsp_iff (tag st : UInt32) (ctx : Option Context) (buf : Buffer) :
    AppendsFrame (TakesResponse · tag st ctx) (emsPackRsp alloc spill tag st ctx buf) buf ↔
      Refuses alloc buf (contextLen ctx + sizeResponse) ∨
        Roomy buf (contextLen ctx + sizeResponse) (total sizeResponse ctx) := by
  have iff := appends_frame_iff alloc spill _ (responseHeader tag st) ctx buf (TakesResponse · tag st ctx) True
    (fun _ => rfl) (no_response tag st ctx) fun pad whole => iff_true_intro (response_taken tag st ctx pad whole)
  rw [and_true] at iff
  exact iff

end Iff

theorem control_codec_iff (alloc : Bool) (spill : Nat) :
    (∀ tag ctx buf, AppendsFrame (TakesRequest · tag ctx) (emsPackReq alloc spill tag ctx buf) buf ↔
      Refuses alloc buf (contextLen ctx + sizeRequest) ∨ Roomy buf (contextLen ctx + sizeRequest) (total sizeRequest ctx) ∧
          total sizeRequest ctx < 1024 ∧ msgIsWeb (htonl tag.toNat) = false) ∧
      (∀ tag st ctx buf, AppendsFrame (TakesResponse · tag st ctx) (emsPackRsp alloc spill tag st ctx buf) buf ↔
        Refuses alloc buf (contextLen ctx + sizeResponse) ∨
          Roomy buf (contextLen ctx + sizeResponse) (total sizeResponse ctx)) ∧
      ∀ isWeb input, Sane isWeb input ↔ (isWeb = false → Decodable input) := by
  refine ⟨pack_req_iff _ _, pack_rsp_iff _ _, fun isWeb input => ?_⟩
  cases isWeb with
  | true => exact ⟨fun _ bad => (nomatch bad), fun _ => web_decoder_sane _⟩
  | false => exact (decoder_sane _).trans ⟨fun fine _ => fine, fun fine => fine rfl⟩

def crowded : Buffer where
  mem := List.replicate 1024 0
  rd := 0
  wr := 1008
  ordered := Nat.zero_le _
  bounded := by rw [List.length_replicate]; decide

def nullText : Context where
  text := ascii "null"
  clean := by decide
  counts := by decide

theorem reply_without_room :
    ¬ AppendsFrame (TakesResponse · 1 0 (some nullText)) (emsPackRsp true 4 1 0 (some nullText) crowded) crowded ∧
      ¬ Sane false (loaded [0, 0, 0, 1, 0, 0, 0, 0]) := by
  rw [pack_rsp_iff, decoder_sane]
  decide +kernel

end Codec.Ctrl
