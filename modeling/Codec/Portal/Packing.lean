import Codec.Portal.Module

set_option autoImplicit false

namespace Codec.Portal

open Codec.Ems List

variable (buf : Buffer) (ptl : EmsPortal) (user : Option Nat) (auth : AuthHdr) (hdr : AuthHdr) (word : UInt32) (evt : Bool) (vp : ValuePair) (list : List ValuePair) (attr : Attr)

theorem htonl_to_nat : (htonl word).toNat =
    word.toNat / 16777216 + word.toNat / 65536 % 256 * 256 + word.toNat / 256 % 256 * 65536 + word.toNat % 256 * 16777216 := by
  have bound := word.toNat_lt
  simp only [htonl, UInt32.toNat_add, UInt32.toNat_mul, UInt32.toNat_div, UInt32.toNat_mod, UInt32.reduceToNat]
  omega

theorem htonl_bytes (a b c d : Nat) (lowest : a < 256) (low : b < 256) (high : c < 256)
    (value : word.toNat = a + b * 256 + c * 65536 + d * 16777216) :
    (htonl word).toNat = d + c * 256 + b * 65536 + a * 16777216 := by
  rw [htonl_to_nat, value]
  omega

theorem htonl_htonl : htonl (htonl word) = word := by
  have bound := word.toNat_lt
  have once := htonl_to_nat word
  have twice := htonl_bytes _ _ _ _
    _ (by omega) (by omega) (by omega) once
  have high := Nat.div_div_eq_div_mul word.toNat 65536 256
  apply UInt32.toNat_inj.mp
  rw [twice]
  omega

theorem load32_store32 (tail : List UInt8) : load32 (store32 word ++ tail) = word := by
  have bound := word.toNat_lt
  apply UInt32.toNat_inj.mp
  simp [store32, load32]
  omega

theorem store32_inj (first second : UInt32) (same : store32 first = store32 second) : first = second := by
  have loaded := congrArg load32 same
  have one := load32_store32 first []
  have other := load32_store32 second []
  rw [append_nil] at one other
  rw [one, other] at loaded
  exact loaded

def ValuePair.Formed (vp : ValuePair) : Prop :=
  match vp.attr.ty with
  | .string => ∃ val, vp.val = some val ∧ vp.lval = UInt32.ofNat val.length ∧ val.length ≤ 253
  | .int => vp.val = none

def ValuePair.raw (vp : ValuePair) : RawAttr where
  ty := vp.attr.id
  val := match vp.attr.ty with
    | .string => (vp.val.getD []).take 253
    | .int => store32 (htonl vp.lval)
  fits := by split <;> simp [store32]

def packLen (list : List ValuePair) : Nat := (attrBytes (list.map ValuePair.raw)).length

-- ptl_pack_list wants a byte more than the attributes take.
def HasRoom (list : List ValuePair) (lbuf : Nat) : Prop := list = [] ∨ packLen list < lbuf

theorem pack_raw (formed : vp.Formed) : vp.pack.2 = vp.raw.bytes := by
  rw [ValuePair.Formed] at formed
  cases kind : vp.attr.ty with
  | string =>
    simp only [kind] at formed
    obtain ⟨val, held, length, short⟩ := formed
    have counted : (vp.lval + 2).toUInt8 = UInt8.ofNat (val.length + 2) := by
      apply UInt8.toNat_inj.mp
      simp [length]
    simp [ValuePair.pack, ValuePair.raw, RawAttr.bytes, kind, held, counted, take_of_length_le short]
  | int => simp [ValuePair.pack, ValuePair.raw, RawAttr.bytes, kind, store32]

theorem pack_formed (formed : vp.Formed) : vp.pack.1.Formed := by
  cases kind : vp.attr.ty with
  | string => simpa [ValuePair.pack, kind] using formed
  | int => simpa [ValuePair.Formed, ValuePair.pack, kind] using formed

@[simp] theorem pack_len_cons (rest : List ValuePair) : packLen (vp :: rest) = vp.raw.bytes.length + packLen rest := by
  simp [packLen]

theorem has_room_cons (rest : List ValuePair) (lbuf : Nat) :
    HasRoom (vp :: rest) lbuf ↔ vp.raw.bytes.length < lbuf ∧ HasRoom rest (lbuf - vp.raw.bytes.length) := by
  simp only [HasRoom, pack_len_cons, reduceCtorEq, false_or]
  cases rest with
  | nil => simp [packLen]
  | cons other later =>
    simp only [reduceCtorEq, false_or]
    omega

theorem pack_list_whole (lbuf : Nat) (formed : ∀ vp ∈ list, vp.Formed) (room : HasRoom list lbuf) :
    ptlPackList list lbuf = (list.map fun vp => vp.pack.1, some (attrBytes (list.map ValuePair.raw))) := by
  induction list generalizing lbuf with
  | nil => rfl
  | cons vp rest ih =>
    obtain ⟨here, behind⟩ := (has_room_cons vp rest lbuf).mp room
    have bytes := pack_raw vp (formed vp mem_cons_self)
    rw [ptlPackList, bytes, if_neg (by omega),
      ih _ (fun other there => formed _ (mem_cons_of_mem vp there)) behind]
    rfl

theorem pack_list_short (lbuf : Nat) (formed : ∀ vp ∈ list, vp.Formed) (short : ¬HasRoom list lbuf) :
    (ptlPackList list lbuf).2 = none := by
  induction list generalizing lbuf with
  | nil => exact absurd (.inl rfl) short
  | cons vp rest ih =>
    have bytes := pack_raw vp (formed vp mem_cons_self)
    rw [has_room_cons] at short
    rw [ptlPackList, bytes]
    split
    · rfl
    · have behind : ¬HasRoom rest _ := fun room => short ⟨by omega, room⟩
      simp only [ih _ (fun other there => formed _ (mem_cons_of_mem vp there)) behind, Option.map_none]

def Attr.kept (evt : Bool) : Attr → Bool
  | .authtype => !evt
  | .nasname => !evt
  | .password => evt
  | .challenge => evt
  | _ => true

theorem attr_of_id : attrOf evt attr.id = some attr ↔ attr.kept evt = true := by cases attr <;> cases evt <;> decide

theorem attr_of_type : ∃ known, attrOf evt attr.id = some known ∧ known.ty = attr.ty := by
  cases attr <;> cases evt <;> exact ⟨_, rfl, rfl⟩

theorem raw_whole : vp.raw.Whole := by
  intro number
  have pkgtype : vp.attr = .pkgtype := by
    cases kind : vp.attr <;> simp [ValuePair.raw, kind, Attr.id] at number
    rfl
  simp [ValuePair.raw, pkgtype, Attr.ty, store32]

theorem raw_pair (formed : vp.Formed) :
    ∃ known, attrOf evt vp.attr.id = some known ∧ vp.raw.pair evt = some { vp with attr := known } := by
  obtain ⟨known, meaning, type⟩ := attr_of_type evt _
  refine ⟨known, meaning, ?_⟩
  rw [ValuePair.Formed] at formed
  rw [RawAttr.pair, show vp.raw.ty = vp.attr.id from rfl, meaning]
  cases kind : vp.attr.ty with
  | string =>
    simp only [kind] at formed
    obtain ⟨val, held, length, short⟩ := formed
    simp [ValuePair.raw, type, kind, held, length, take_of_length_le short]
  | int =>
    simp only [kind] at formed
    have loaded := load32_store32 (htonl vp.lval) []
    rw [append_nil] at loaded
    simp [ValuePair.raw, type, kind, formed, loaded, htonl_htonl]

theorem raw_pairs (formed : ∀ vp ∈ list, vp.Formed) :
    (list.map ValuePair.raw).filterMap (RawAttr.pair evt) = list ↔ ∀ vp ∈ list, vp.attr.kept evt = true := by
  induction list with
  | nil => simp
  | cons vp rest ih =>
    obtain ⟨known, meaning, pair⟩ := raw_pair evt vp (formed vp mem_cons_self)
    have later := ih fun other there => formed _ (mem_cons_of_mem vp there)
    rw [map_cons, filterMap_cons_some pair, cons.injEq, later, forall_mem_cons, ← attr_of_id, meaning]
    constructor
    · rintro ⟨same, rest⟩
      exact ⟨congrArg (some ·.attr) same, rest⟩
    · rintro ⟨same, rest⟩
      exact ⟨by rw [Option.some.inj same], rest⟩

theorem parse_raw (attrs : List RawAttr) (behind : List UInt8) (n : Option Nat)
    (whole : ∀ attr ∈ attrs, attr.Whole) (all : n = none ∨ n = some attrs.length) :
    ptlParseCtx evt (attrBytes attrs ++ behind) (attrBytes attrs).length n =
      .used (attrs.filterMap (RawAttr.pair evt)) (attrBytes attrs).length := by
  have short := attrs_short attrs
  obtain ⟨fuel, turns⟩ : ∃ fuel, n.getD (attrBytes attrs).length + 1 = attrs.length + (fuel + 1) := by
    obtain rfl | rfl := all
    · exact ⟨(attrBytes attrs).length - attrs.length, by simp only [Option.getD_none]; omega⟩
    · exact ⟨0, by simp⟩
  have enough : ∀ count, n = some count → attrs.length ≤ count := by
    intro count given
    obtain rfl | rfl := all
    · cases given
    · cases given
      exact Nat.le_refl _
  obtain ⟨list, own, parsed⟩ := parse_attrs evt _ _ _ 0 n enough
  simp only [Nat.add_zero] at parsed
  rw [ptlParseCtx, turns, parsed, parse_none_left _ _ _ _ _ (.inr rfl), own whole]
  simp [Parsed.after]

theorem pack_twice (formed : ∀ vp ∈ list, vp.Formed) :
    (list.map fun vp => vp.pack.1).map ValuePair.raw = list.map ValuePair.raw ↔
      ∀ vp ∈ list, vp.attr.ty = .int → htonl vp.lval = vp.lval := by
  induction list with
  | nil => simp
  | cons vp rest ih =>
    have later := ih fun other there => formed _ (mem_cons_of_mem vp there)
    rw [map_cons, map_cons, map_cons, cons.injEq, later, forall_mem_cons]
    have here : vp.pack.1.raw = vp.raw ↔ (vp.attr.ty = .int → htonl vp.lval = vp.lval) := by
      cases kind : vp.attr.ty with
      | string => simp [ValuePair.pack, kind]
      | int =>
        simp only [ValuePair.pack, ValuePair.raw, kind, RawAttr.mk.injEq, true_and, htonl_htonl, forall_const]
        constructor
        · intro same
          exact (store32_inj _ _ same).symm
        · intro same
          rw [same]
    rw [here]

theorem pack_again_len : packLen (list.map fun vp => vp.pack.1) = packLen list := by
  induction list with
  | nil => rfl
  | cons vp rest ih =>
    have here : vp.pack.1.raw.bytes.length = vp.raw.bytes.length := by
      cases kind : vp.attr.ty <;> simp [ValuePair.pack, ValuePair.raw, kind, store32]
    rw [map_cons, pack_len_cons, pack_len_cons, ih, here]

def PackParse (evt : Bool) (list : List ValuePair) (lbuf : Nat) : Prop :=
  ∃ bytes, (ptlPackList list lbuf).2 = some bytes ∧
    (∀ behind n, n = none ∨ n = some list.length →
      ptlParseCtx evt (bytes ++ behind) bytes.length n = .used list bytes.length) ∧
    (ptlPackList (ptlPackList list lbuf).1 lbuf).2 = some bytes

theorem pack_parse_iff (evt : Bool) (list : List ValuePair) (lbuf : Nat) (formed : ∀ vp ∈ list, vp.Formed) :
    PackParse evt list lbuf ↔ (list = [] ∨ packLen list < lbuf) ∧
        ∀ vp ∈ list, vp.attr.kept evt = true ∧ (vp.attr.ty = .int → htonl vp.lval = vp.lval) := by
  by_cases room : HasRoom list lbuf
  · have packed := pack_list_whole list lbuf formed room
    have roomAgain : HasRoom (list.map fun vp => vp.pack.1) lbuf := by
      simpa only [HasRoom, pack_again_len, map_eq_nil_iff] using room
    have formedAgain : ∀ vp ∈ list.map fun vp => vp.pack.1, vp.Formed := by
      intro vp there
      obtain ⟨old, inside, same⟩ := mem_map.mp there
      rw [← same]
      exact pack_formed old (formed old inside)
    have again := pack_list_whole _ lbuf formedAgain roomAgain
    have parsed (behind : List _) (n : Option Nat) (all : n = none ∨ n = some _) :=
      parse_raw evt (list.map _) behind n
        (by simp only [mem_map, forall_exists_index, and_imp, forall_apply_eq_imp_iff₂]; exact fun vp _ => raw_whole vp)
        (by simpa only [length_map] using all)
    have kept := raw_pairs evt list formed
    have twice := pack_twice list formed
    rw [PackParse, packed, again, forall₂_and, ← kept, ← twice]
    constructor
    · rintro ⟨bytes, same, back, repeated⟩
      cases same
      refine ⟨room, ?_, attr_bytes_inj _ _ (Option.some.inj repeated)⟩
      have alone := back [] none (.inl rfl)
      rw [parsed [] none (.inl rfl)] at alone
      exact (Parsed.used.injEq _ _ _ _).mp alone |>.1
    · rintro ⟨_, back, repeated⟩
      refine ⟨_, rfl, ?_, ?_⟩
      · intro behind n all
        rw [parsed _ n all, back]
      · exact congrArg (some ∘ attrBytes) repeated
  · constructor
    · rintro ⟨bytes, packed, _⟩
      rw [pack_list_short list lbuf formed room] at packed
      cases packed
    · rintro ⟨some, _⟩
      exact absurd some room

theorem pack_parse_sample : PackParse true [⟨.pkgtype, 0, none⟩, ⟨.challenge, 2, some [7, 0]⟩] 1024 := by
  refine (pack_parse_iff true _ 1024 ?_).mpr ⟨by decide, by decide⟩
  intro vp there
  simp only [mem_cons, not_mem_nil, or_false] at there
  obtain rfl | rfl := there
  · exact rfl
  · exact ⟨[7, 0], rfl, rfl, by decide⟩

theorem second_packing_differs : ¬PackParse true [⟨.pkgtype, 1, none⟩] 1024 := by
  rintro ⟨bytes, packed, _, again⟩
  rw [← packed] at again
  exact absurd again (by decide)

theorem store16_length (word : UInt16) : (store16 word).length = 2 := rfl

theorem hdr_length (address : hdr.ip.length = 4) : hdr.val.length = hdrLen := by
  simp [AuthHdr.val, store16_length, address, hdrLen]

def AuthHdr.announce (hdr : AuthHdr) (count : UInt8) : AuthHdr := { hdr with nAttr := count }

theorem announce_def (count : UInt8) : hdr.announce count = { hdr with nAttr := count } := rfl

theorem announce_length (address : hdr.ip.length = 4) (count : UInt8) : (hdr.announce count).val.length = hdrLen :=
  hdr_length _ address

theorem hdr_counter (address : hdr.ip.length = 4) (more : List UInt8) : (hdr.val ++ more).getD 15 0 = hdr.nAttr := by
  have ten : ([hdr.ver, hdr.ty, hdr.authTy, hdr.rsrv] ++ store16 hdr.serial ++ store16 hdr.reqid ++ hdr.ip ++
      store16 hdr.port ++ [hdr.err]).length = 15 := by
    simp [store16_length, address]
  have split : hdr.val ++ more = [hdr.ver, hdr.ty, hdr.authTy, hdr.rsrv] ++ store16 hdr.serial ++ store16 hdr.reqid ++ hdr.ip ++
      store16 hdr.port ++ [hdr.err] ++ (hdr.nAttr :: more) := by
    simp [AuthHdr.val]
  rw [split, getD_append_right _ _ _ _ (by omega), ten]
  rfl

def WholeFrame (auth : AuthHdr) (frame : List UInt8) : Prop :=
  frame = [] ∨ ∃ count attrs, frame = (auth.announce count).val ++ attrBytes attrs ∧ count.toNat = attrs.length

def AckFails (buf : Buffer) (attr : List ValuePair) : Prop :=
  buf.left < hdrLen ∨ (ptlPackList attr (buf.left - hdrLen)).2 = none

def WholeReply (ptl : EmsPortal) (user : Option Nat) (auth : AuthHdr) (attr : List ValuePair) : Prop :=
  ∀ sess, ptl.sess = some sess → ∃ frame next, WholeFrame auth frame ∧ (AckFails sess.bufOut attr → frame = []) ∧
    (ptlEvtAck ptl user auth attr).sess = some { sess with bufOut := next } ∧
    next.content = sess.bufOut.content ++ frame ∧
    ∀ kept ∈ (ptlEvtAck ptl user auth attr).users, user = some kept.id → kept.bufOut.content = frame

def ackFrame (left : Nat) (auth : AuthHdr) (attr : List ValuePair) : List UInt8 :=
  let head := (auth.announce (UInt8.ofNat attr.length)).val.take left
  head ++ ((ptlPackList attr (left - head.length)).2.getD []).take (left - head.length)

theorem left_write (src : List UInt8) : (buf.write src).left = buf.left - (src.take buf.left).length := by
  have inside := buf.bounded
  have size : (buf.write src).mem.length = buf.mem.length := by
    refine overwrite_length _ _ _ ?_
    simp only [Buffer.left, length_take]
    omega
  simp only [Buffer.left, size]
  simp only [Buffer.write, Buffer.left]
  omega

theorem ack_content (attr : List ValuePair) : (ackBuf buf auth attr).content = buf.content ++ ackFrame buf.left auth attr := by
  have left := left_write buf (auth.announce (UInt8.ofNat attr.length)).val
  simp only [ackBuf, ackFrame, ← announce_def]
  rw [left]
  cases packed : (ptlPackList attr _).2 with
  | none => simp
  | some bytes => rw [Buffer.content_write, Buffer.content_write, left, append_assoc, Option.getD_some]

theorem ack_frame_none (attr : List ValuePair) : ackFrame 0 auth attr = [] := by simp [ackFrame]

theorem ack_frame_cut (left : Nat) (auth : AuthHdr) (attr : List ValuePair) (address : auth.ip.length = 4)
    (short : left < hdrLen) : (ackFrame left auth attr).length = left := by
  have length := announce_length auth address (UInt8.ofNat attr.length)
  simp only [ackFrame, length_append, length_take, length]
  omega

theorem ack_frame_full (left : Nat) (auth : AuthHdr) (attr : List ValuePair) (address : auth.ip.length = 4)
    (formed : ∀ vp ∈ attr, vp.Formed) (header : hdrLen ≤ left) (room : HasRoom attr (left - hdrLen)) : ackFrame left auth attr =
      (auth.announce (UInt8.ofNat attr.length)).val ++ attrBytes (attr.map ValuePair.raw) := by
  have length := announce_length auth address (UInt8.ofNat attr.length)
  have fits : packLen attr ≤ left - hdrLen := by
    obtain none | less := room
    · simp [none, packLen]
    · omega
  rw [ackFrame, take_of_length_le (by omega), length, pack_list_whole attr _ formed room, Option.getD_some,
    take_of_length_le fits]

theorem ack_fails_iff (attr : List ValuePair) (formed : ∀ vp ∈ attr, vp.Formed) :
    AckFails buf attr ↔ ¬(hdrLen ≤ buf.left ∧ HasRoom attr (buf.left - hdrLen)) := by
  by_cases room : HasRoom attr (buf.left - hdrLen)
  · simp [AckFails, room, pack_list_whole attr _ formed room]
  · simp [AckFails, room, pack_list_short attr _ formed room]

theorem whole_frame_counts (attrs : List RawAttr) (address : auth.ip.length = 4) :
    WholeFrame auth ((auth.announce (UInt8.ofNat attrs.length)).val ++ attrBytes attrs) ↔ attrs.length < 256 := by
  have counter (count : UInt8) (more : List _) := hdr_counter _ address (attrBytes more)
  have length := announce_length auth address
  constructor
  · rintro (nothing | ⟨count, others, same, counted⟩)
    · have empty := congrArg List.length nothing
      simp [length, hdrLen] at empty
    · obtain ⟨_, tails⟩ := append_inj same (by rw [length, length])
      have bytes := congrArg (·.getD 15 0) same
      have bound := count.toNat_lt
      rw [attr_bytes_inj _ _ tails, ← counted]
      exact bound
  · intro short
    refine .inr ⟨_, attrs, rfl, ?_⟩
    rw [UInt8.toNat_ofNat']
    omega

theorem resend_content (user : User) (frame : List UInt8) :
    (user.resend frame).bufOut.content = frame.take user.bufOut.size := by
  have left : user.bufOut.clear.left = user.bufOut.size := rfl
  simp only [User.resend]
  rw [Buffer.content_write, Buffer.content_clear, left]
  rfl

theorem ack_sess (attr : List ValuePair) (sess : Session) (open_ : ptl.sess = some sess) :
    (ptlEvtAck ptl user auth attr).sess = some { sess with bufOut := ackBuf sess.bufOut auth attr } := by
  cases user <;> simp only [ptlEvtAck, open_] <;> rfl

theorem ack_kept (attr : List ValuePair) (sess : Session) (open_ : ptl.sess = some sess) (frame : List UInt8) :
    (∀ kept ∈ (ptlEvtAck ptl user auth attr).users, user = some kept.id → kept.bufOut.content = frame) ↔
      ∀ kept ∈ ptl.users, user = some kept.id → (ackFrame sess.bufOut.left auth attr).take kept.bufOut.size = frame := by
  cases user with
  | none => simp
  | some id =>
    have appended : (ackBuf sess.bufOut auth attr).content.drop sess.bufOut.len = ackFrame sess.bufOut.left auth attr := by
      rw [ack_content, ← Buffer.content_length, drop_left]
    have users : (ptlEvtAck ptl (some id) auth attr).users = ptl.users.map fun user =>
        if user.id = id then user.resend (ackFrame sess.bufOut.left auth attr) else user := by
      simp only [ptlEvtAck, open_, appended]
      rfl
    rw [users]
    constructor
    · intro all kept there own
      have same := Option.some.inj own
      have edited := all _
        (mem_map.mpr ⟨kept, there, if_pos same.symm⟩) own
      rw [← edited, resend_content]
    · intro all kept there own
      obtain ⟨old, inside, same⟩ := mem_map.mp there
      by_cases hit : old.id = id
      · rw [if_pos hit] at same
        rw [← same, resend_content]
        exact all old inside (congrArg some hit.symm)
      · rw [if_neg hit] at same
        exact absurd (congrArg _ same) (fun equal => hit (equal.trans (Option.some.inj own).symm))

theorem whole_reply_frame (attr : List ValuePair) : WholeReply ptl user auth attr ↔ ∀ sess, ptl.sess = some sess →
      WholeFrame auth (ackFrame sess.bufOut.left auth attr) ∧
        (AckFails sess.bufOut attr → ackFrame sess.bufOut.left auth attr = []) ∧
          ∀ kept ∈ ptl.users, user = some kept.id → (ackFrame sess.bufOut.left auth attr).length ≤ kept.bufOut.size := by
  constructor
  · intro reply sess open_
    obtain ⟨frame, next, whole, fails, after, content, kept⟩ := reply sess open_
    rw [ack_sess ptl user auth attr sess open_] at after
    have same : ackBuf _ auth attr = next := congrArg Session.bufOut (Option.some.inj after)
    rw [← same, ack_content] at content
    have equal := append_cancel_left content
    rw [ack_kept ptl user auth attr sess open_, ← equal] at kept
    rw [← equal] at whole fails
    refine ⟨whole, fails, fun other there own => ?_⟩
    have cut := congrArg length (kept _ there own)
    rw [length_take] at cut
    omega
  · intro conditions sess open_
    obtain ⟨whole, fails, kept⟩ := conditions sess open_
    refine ⟨_, ackBuf _ auth attr, whole, fails, ack_sess ptl user auth attr sess open_, ack_content _ _ _, ?_⟩
    rw [ack_kept ptl user auth attr sess open_]
    exact fun other there own => take_of_length_le (kept _ there own)

theorem ptl_evt_ack_whole_iff (ptl : EmsPortal) (user : Option Nat) (auth : AuthHdr) (attr : List ValuePair)
    (address : auth.ip.length = 4) (formed : ∀ vp ∈ attr, vp.Formed) :
    WholeReply ptl user auth attr ↔ ∀ sess, ptl.sess = some sess → sess.bufOut.left = 0 ∨
      attr.length < 256 ∧ hdrLen ≤ sess.bufOut.left ∧ HasRoom attr (sess.bufOut.left - hdrLen) ∧
        ∀ kept ∈ ptl.users, user = some kept.id → hdrLen + packLen attr ≤ kept.bufOut.size := by
  rw [whole_reply_frame]
  apply forall₂_congr
  intro sess open_
  by_cases empty : sess.bufOut.left = 0
  · simp [empty, ack_frame_none, WholeFrame]
  · rw [ack_fails_iff _ attr formed]
    by_cases header : hdrLen ≤ sess.bufOut.left
    · by_cases room : HasRoom attr (sess.bufOut.left - hdrLen)
      · have full := ack_frame_full _ auth attr address formed header room
        have counts := whole_frame_counts auth (attr.map ValuePair.raw) address
        have length : (ackFrame sess.bufOut.left auth attr).length = hdrLen + packLen attr := by
          rw [full, length_append, announce_length auth address, packLen]
        rw [length_map, ← full] at counts
        simp [counts, length, empty, header, room]
      · have nonempty : ackFrame sess.bufOut.left auth attr ≠ [] := by
          intro nothing
          have length := congrArg length nothing
          simp only [ackFrame, length_append, length_take, announce_length auth address, length_nil] at length
          simp only [hdrLen] at header length
          omega
        simp [nonempty, empty, header, room]
    · have cut := ack_frame_cut sess.bufOut.left auth attr address (by omega)
      have nonempty : ackFrame sess.bufOut.left auth attr ≠ [] := by
        intro nothing
        rw [nothing] at cut
        exact empty cut.symm
      simp [nonempty, empty, header]

section Samples

def waitingSess (waiting : Nat) : Session := ⟨true, .init 1024, (Buffer.init 1024).write (List.replicate waiting 0), none⟩

def waitingPortal (waiting : Nat) : EmsPortal := (EmsPortal.init ⟨true, [49], 2000, 60, 20⟩).withSess (waitingSess waiting)

def challengeAck : AuthHdr := ⟨1, tyAckChallenge, 0, 0, 7, 9, [10, 0, 0, 2], 0, 0, 0⟩

theorem waiting_left (waiting : Nat) (fits : waiting ≤ 1024) : (waitingSess waiting).bufOut.left = 1024 - waiting := by
  have fresh : (Buffer.init 1024).left = 1024 := by simp only [Buffer.left, Buffer.init, length_replicate]
  rw [waitingSess, left_write, fresh, length_take, length_replicate, Nat.min_eq_right fits]

theorem ptl_evt_ack_whole_sample : WholeReply (waitingPortal 0) none challengeAck [⟨.challenge, 2, some [7, 0]⟩] := by
  refine (ptl_evt_ack_whole_iff _ _ _ _ rfl ?_).mpr ?_
  · intro vp there
    cases mem_singleton.mp there
    exact ⟨[7, 0], rfl, rfl, by decide⟩
  · intro sess open_
    cases open_
    rw [waiting_left 0 (by decide)]
    exact .inr ⟨by decide, by decide, .inr (by decide), by simp⟩

theorem cut_header_stays : ¬∀ (ptl : EmsPortal) (user : Option Nat) (auth : AuthHdr) (attr : List ValuePair),
    auth.ip.length = 4 → (∀ vp ∈ attr, vp.Formed) → WholeReply ptl user auth attr := by
  intro claim
  have left := waiting_left 1010 (by decide)
  have reply := (whole_reply_frame _ _ _ _).mp (claim (waitingPortal 1010) none challengeAck [] rfl (by simp)) _ rfl
  have nothing := reply.2.1 (.inl (by rw [left]; decide))
  have cut := ack_frame_cut 14 challengeAck [] rfl (by decide)
  rw [left] at nothing
  rw [nothing] at cut
  cases cut

end Samples

end Codec.Portal
