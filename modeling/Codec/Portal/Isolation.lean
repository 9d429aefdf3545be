import Codec.Lib.Runs
import Codec.Portal.Datagram

set_option autoImplicit false

namespace Codec.Portal

open Codec.Ems List

theorem parsed_after_after (first second : List ValuePair) (len more : Nat) (rest : Parsed) :
    (rest.after second more).after first len = rest.after (first ++ second) (len + more) := by
  cases rest <;> simp [Parsed.after, Nat.add_assoc]

theorem read_bytes_append (val tail : List UInt8) : readBytes (val ++ tail) val.length = val := by simp [readBytes]

theorem load32_append (val tail : List UInt8) (whole : 4 ≤ val.length) : load32 (val ++ tail) = load32 val := by
  simp only [load32]
  rw [getD_append, getD_append, getD_append, getD_append]
  all_goals omega

variable (evt : Bool) (attrs : List RawAttr) (fuel : Nat) (tail : List UInt8)

theorem attr_of_pkgtype (ty : UInt8) (type : attrOf evt ty = some .pkgtype) : ty = 0x0b := by
  by_contra other
  rw [attrOf] at type
  split_ifs at type <;> cases type

theorem vp_new_pair (attr : RawAttr) (known : Attr) (tail : List UInt8) (whole : attr.Whole)
    (type : attrOf evt attr.ty = some known) :
    ((ptlVpNew known (attr.val ++ tail) attr.val.length).map ValuePair.ntohl).toList = (attr.pair evt).toList := by
  have fits := attr.fits
  rw [RawAttr.pair, type]
  cases kind : known.ty with
  | string =>
    have short : ¬attr.val.length > 253 := by omega
    have positive : ¬(attr.val.length : Int) < 0 := by omega
    simp [ptlVpNew, kind, short, positive, read_bytes_append, ValuePair.ntohl]
  | int =>
    have pkgtype : known = .pkgtype := by cases known <;> first | rfl | cases kind
    have number : attr.ty = 0x0b := attr_of_pkgtype evt _ (pkgtype ▸ type)
    simp [ptlVpNew, kind, ValuePair.ntohl, load32_append _ tail (whole number)]

theorem parse_attr (attr : RawAttr) (tail : List UInt8) (extra : Nat) (n : Option Nat) (more : n ≠ some 0) :
    ∃ list, (attr.Whole → list = (attr.pair evt).toList) ∧
      parseLoop evt (fuel + 1) (attr.bytes ++ tail) (attr.bytes.length + extra) n =
        (parseLoop evt fuel tail extra (n.map (· - 1))).after list attr.bytes.length := by
  have len : ((attr.bytes ++ tail).getD 1 0).toNat = attr.val.length + 2 := length_byte attr
  have ty : (attr.bytes ++ tail).getD 0 0 = attr.ty := rfl
  have value : (attr.bytes ++ tail).drop 2 = attr.val ++ tail := rfl
  have behind : (attr.bytes ++ tail).drop (attr.val.length + 2) = tail := by rw [← raw_attr_length attr, drop_left]
  have goOn : ¬(n = some 0 ∨ attr.val.length + 2 + extra = 0) := by
    rintro (stop | stop)
    · exact more stop
    · omega
  rw [raw_attr_length, parseLoop, len, ty, value, behind, if_neg goOn, if_neg (by omega),
    show attr.val.length + 2 + extra - (attr.val.length + 2) = extra by omega]
  cases type : attrOf evt _ with
  | none =>
    refine ⟨[], ?_, ?_⟩
    · intro _
      simp [RawAttr.pair, type]
    · rw [if_neg (by omega)]
  | some known =>
    refine ⟨((ptlVpNew known (attr.val ++ tail) attr.val.length).map ValuePair.ntohl).toList, ?_, ?_⟩
    · intro whole
      exact vp_new_pair evt attr _ tail whole type
    · rw [show ((attr.val.length + 2 : Nat) : Int) - 2 = (attr.val.length : Int) by omega]

theorem parse_attrs (extra : Nat) (n : Option Nat) (enough : ∀ count, n = some count → attrs.length ≤ count) :
    ∃ list, ((∀ attr ∈ attrs, attr.Whole) → list = attrs.filterMap (RawAttr.pair evt)) ∧
      parseLoop evt (attrs.length + fuel) (attrBytes attrs ++ tail) ((attrBytes attrs).length + extra) n =
        (parseLoop evt fuel tail extra (n.map (· - attrs.length))).after list (attrBytes attrs).length := by
  induction attrs generalizing n with
  | nil =>
    refine ⟨[], fun _ => rfl, ?_⟩
    cases n <;> cases parsed : parseLoop evt fuel tail _ _ <;> simp_all [Parsed.after]
  | cons attr rest ih =>
    have more : n ≠ some 0 := by
      intro stop
      have bound := enough 0 stop
      simp at bound
    obtain ⟨first, own, turn⟩ := parse_attr evt _ attr _
      _ n more
    obtain ⟨others, later, turns⟩ := ih (n.map (· - 1)) (by
      intro count counted
      cases n with
      | none => simp at counted
      | some total =>
        have bound := enough _ rfl
        simp only [length_cons] at bound
        simp only [Option.map_some, Option.some.injEq] at counted
        omega)
    refine ⟨first ++ others, ?_, ?_⟩
    · intro whole
      rw [own (whole attr mem_cons_self), later (fun item there => whole item (mem_cons_of_mem attr there))]
      cases pair : attr.pair evt <;> simp [pair]
    · rw [attr_bytes_cons, append_assoc, length_append, Nat.add_assoc, length_cons,
        show rest.length + 1 + fuel = rest.length + fuel + 1 by omega, turn, turns, parsed_after_after]
      cases n <;> simp [Nat.sub_sub, Nat.add_comm]

theorem parse_none_left (mem : List UInt8) (lbuf : Nat) (n : Option Nat)
    (done : n = some 0 ∨ lbuf = 0) : parseLoop evt (fuel + 1) mem lbuf n = .used [] 0 := by
  rw [parseLoop, if_pos done]

theorem parse_event (extra count : Nat) (full : attrs.length = count ∨ attrs.length ≤ count ∧ extra = 0) :
    ∃ list, ((∀ attr ∈ attrs, attr.Whole) → list = attrs.filterMap (RawAttr.pair true)) ∧
      ptlParseCtx true (attrBytes attrs ++ tail) ((attrBytes attrs).length + extra) (some count) =
        .used list (attrBytes attrs).length := by
  have bound : attrs.length ≤ count := by omega
  obtain ⟨list, own, parsed⟩ := parse_attrs true _ _ tail _ (some _)
    (fun other same => by cases same; exact bound)
  refine ⟨list, own, ?_⟩
  rw [ptlParseCtx, Option.getD_some, show count + 1 = attrs.length + (count - attrs.length + 1) by omega, parsed,
    parse_none_left]
  · simp [Parsed.after]
  · simp only [Option.map_some, Option.some.injEq]
    omega

theorem parse_reply :
    ∃ list, ptlParseCtx false (attrBytes attrs ++ tail) (attrBytes attrs).length none = .used list (attrBytes attrs).length := by
  have short := attrs_short attrs
  obtain ⟨list, _, parsed⟩ := parse_attrs _ _ _ tail 0 none
    (fun _ absent => by cases absent)
  refine ⟨list, ?_⟩
  simp only [Nat.add_zero] at parsed
  rw [ptlParseCtx, Option.getD_none,
    show (attrBytes _).length + 1 = attrs.length + ((attrBytes attrs).length - attrs.length + 1) by omega, parsed,
    parse_none_left _ _ _ _ _ (.inr rfl)]
  simp [Parsed.after]

def Blank (buf : Buffer) : Prop := buf.rd = 0 ∧ buf.wr = 0

theorem blank_content (buf : Buffer) (blank : Blank buf) : buf.content = [] := by simp [Buffer.content, blank.2]

theorem refresh_size (buf : Buffer) : buf.refresh.size = buf.size := by
  have bound := buf.bounded
  rw [Buffer.refresh]
  split
  · simp only [Buffer.size]
    rw [overwrite_length]
    rw [Buffer.content_length, Buffer.len]
    omega
  · rfl

theorem refresh_rd (buf : Buffer) : buf.refresh.rd = 0 := by
  rw [Buffer.refresh]
  split
  · rfl
  · rename_i clean
    simp only [Buffer.trash] at clean
    omega

theorem refresh_blank (buf : Buffer) (drained : buf.content = []) : Blank buf.refresh := by
  have start := refresh_rd buf
  have length := Buffer.content_length buf.refresh
  rw [Buffer.content_refresh, drained, Buffer.len, start] at length
  exact ⟨start, by simpa using length.symm⟩

section Deliver

variable {σ : Type} (handle : σ → Msg → σ)

theorem deliver_content (line : Line σ) (msg : Msg) (total : Nat) (inside : total ≤ line.bufIn.len) :
    (line.deliver handle msg total).bufIn.content = line.bufIn.content.drop total := by
  obtain ⟨moved, seek⟩ := Option.isSome_iff_exists.mp (Buffer.seek_rd_cur_some _ _ inside)
  rw [Line.deliver, Buffer.content_refresh, seek, Option.getD_some]
  exact Buffer.seek_rd_cur_content _ _ _ seek

theorem deliver_size (line : Line σ) (msg : Msg) (total : Nat) :
    (line.deliver handle msg total).bufIn.size = line.bufIn.size := by
  rw [Line.deliver, refresh_size]
  cases seek : line.bufIn.seekRd _ .cur with
  | none => rfl
  | some moved =>
    simp only [Buffer.seekRd] at seek
    split at seek
    · cases seek
    · cases seek
      rfl

theorem deliver_blank (line : Line σ) (msg : Msg) : Blank (line.deliver handle msg line.bufIn.len).bufIn := by
  apply refresh_blank
  have rest := deliver_content handle line msg _ (Nat.le_refl _)
  rw [Line.deliver, Buffer.content_refresh] at rest
  rw [rest, ← Buffer.content_length, drop_length]

end Deliver

theorem header_append (hdr more : List UInt8) (sized : hdr.length = hdrLen) :
    AuthHdr.received (hdr ++ more) = AuthHdr.received hdr := by
  rw [hdrLen] at sized
  have head : ∀ off, off < 16 → (hdr ++ more).getD off 0 = hdr.getD off 0 := by
    intro off inside
    exact getD_append hdr more 0 off (by omega)
  have address : readBytes ((hdr ++ more).drop 8) 4 = readBytes (hdr.drop 8) 4 := by
    rw [drop_append_of_le_length (by omega), readBytes, readBytes, length_append,
      take_append_of_le_length (by rw [length_drop]; omega), length_drop]
    rw [show 4 - (hdr.length - 8 + more.length) = 4 - (hdr.length - 8) by omega]
  simp only [AuthHdr.received, AuthHdr.load, load16, address, head 0 (by omega), head 1 (by omega), head 2 (by omega),
    head 3 (by omega), head 4 (by omega), head 5 (by omega), head 6 (by omega), head 7 (by omega), head 12 (by omega),
    head 13 (by omega), head 14 (by omega), head 15 (by omega), show 4 + 1 = 5 from rfl, show 6 + 1 = 7 from rfl,
    show 12 + 1 = 13 from rfl]

section Process

variable {σ : Type} (handle : σ → Msg → σ)

theorem process_event (line : Line σ) (hdr more : List UInt8) (attrs : List RawAttr) (sized : hdr.length = hdrLen)
    (event : hdr.getD 0 0 = 1) (content : line.bufIn.content = hdr ++ (attrBytes attrs ++ more))
    (full : attrs.length = (hdr.getD 15 0).toNat ∨ attrs.length ≤ (hdr.getD 15 0).toNat ∧ more = []) :
    ∃ list, ((∀ attr ∈ attrs, attr.Whole) → list = attrs.filterMap (RawAttr.pair true)) ∧ ptlProcessRsp handle line =
        (.ok, line.deliver handle (.event (AuthHdr.received hdr) list) (hdr ++ attrBytes attrs).length) := by
  have length : line.bufIn.len = hdrLen + ((attrBytes attrs).length + more.length) := by
    rw [← Buffer.content_length, content, length_append, length_append, sized]
  have count : (AuthHdr.received hdr).nAttr.toNat = (hdr.getD 15 0).toNat := rfl
  have behind : line.bufIn.mem.drop (line.bufIn.rd + hdrLen) = attrBytes attrs ++ (more ++ line.bufIn.mem.drop line.bufIn.wr) := by
    rw [← drop_drop, content_drop, content, ← sized]
    simp
  have head : line.bufIn.content.getD 0 0 = 1 := by
    rw [content, getD_append, event]
    rw [sized]
    decide
  obtain ⟨list, own, parsed⟩ := parse_event _ _ more.length
    _ (by
      rcases full with same | ⟨fewer, nothing⟩
      · exact .inl same
      · exact .inr ⟨fewer, by rw [nothing]; rfl⟩)
  refine ⟨list, own, ?_⟩
  have sizes : hdrLen ≠ 0 := by decide
  rw [ptlProcessRsp]
  rw [if_neg (by omega), if_pos head, if_neg (by omega), behind, length, content, header_append _ _ sized, count,
    show hdrLen + ((attrBytes _).length + more.length) - hdrLen = (attrBytes attrs).length + more.length by omega, parsed]
  rw [length_append, sized]

theorem process_reply (line : Line σ) (attrs : List RawAttr) (some : attrs ≠ [])
    (other : (attrBytes attrs).getD 0 0 ≠ 1) (content : line.bufIn.content = attrBytes attrs) :
    ∃ list, ptlProcessRsp handle line = (.ok, line.deliver handle (.reply list) (attrBytes attrs).length) := by
  have length : line.bufIn.len = (attrBytes attrs).length := by rw [← Buffer.content_length, content]
  have short := attrs_short attrs
  have positive : attrs.length ≠ 0 := by simpa using some
  obtain ⟨list, parsed⟩ := parse_reply _ _
  refine ⟨list, ?_⟩
  rw [ptlProcessRsp]
  rw [if_neg (by omega), content, if_neg other, length, content_drop, content, parsed]
  simp only
  rw [if_neg (by omega)]

theorem process_empty (line : Line σ) (empty : line.bufIn.content = []) : ptlProcessRsp handle line = (.again, line) := by
  have length : line.bufIn.len = 0 := by rw [← Buffer.content_length, empty]; rfl
  rw [ptlProcessRsp]
  rw [if_pos length]

end Process

inductive Closing : List UInt8 → Prop where
  | whole (gram : Datagram) (numbers : gram.Whole) : Closing gram.bytes
  | short (hdr : List UInt8) (attrs : List RawAttr) (sized : hdr.length = hdrLen) (event : hdr.getD 0 0 = 1)
      (fewer : attrs.length < (hdr.getD 15 0).toNat) : Closing (hdr ++ attrBytes attrs)
  | reply (attrs : List RawAttr) (some : attrs ≠ []) (other : (attrBytes attrs).getD 0 0 ≠ 1) : Closing (attrBytes attrs)

section Drain

variable {σ : Type} (handle : σ → Msg → σ)

theorem process_whole (line : Line σ) (gram : Datagram) (more : List UInt8) (numbers : gram.Whole)
    (content : line.bufIn.content = gram.bytes ++ more) :
    ptlProcessRsp handle line = (.ok, line.deliver handle gram.msg gram.bytes.length) := by
  obtain ⟨list, own, processed⟩ := process_event _ line _ more _ gram.sized gram.event
    (by rw [content, Datagram.bytes, append_assoc]) (.inl gram.counted.symm)
  rw [processed, own numbers]
  rfl

theorem process_closing (line : Line σ) (bytes : List UInt8) (closing : Closing bytes) (content : line.bufIn.content = bytes) :
    ∃ msg, ptlProcessRsp handle line = (.ok, line.deliver handle msg bytes.length) ∧ Isolated [bytes] [msg] := by
  cases closing with
  | whole gram numbers =>
    refine ⟨gram.msg, process_whole _ line gram [] numbers ?_, isolated_own gram⟩
    rw [content, append_nil]
  | short hdr attrs sized event fewer =>
    obtain ⟨list, _, processed⟩ := process_event _ line hdr [] _ sized event
      (by rw [content, append_nil]) (.inr ⟨Nat.le_of_lt fewer, rfl⟩)
    refine ⟨_, processed, isolated_other _ _ ?_⟩
    intro gram same
    obtain ⟨headers, attributes⟩ := datagram_inj gram hdr _ sized same
    have counted := gram.counted
    rw [headers, attributes] at counted
    omega
  | reply attrs some other =>
    obtain ⟨list, processed⟩ := process_reply _ line _ some other content
    refine ⟨_, processed, isolated_other _ _ ?_⟩
    intro gram same
    rw [← same] at other
    exact other (datagram_head gram)

theorem datagram_positive (gram : Datagram) : 0 < gram.bytes.length := by
  rw [Datagram.bytes, length_append, gram.sized, hdrLen]
  omega

def gramBytes (grams : List Datagram) : List (List UInt8) := grams.map Datagram.bytes

theorem drain_call (grams : List Datagram) (last : List UInt8) (closing : Closing last) (fuel : Nat) (line : Line σ)
    (numbers : ∀ gram ∈ grams, gram.Whole) (content : line.bufIn.content = (gramBytes grams).flatten ++ last)
    (enough : grams.length + 2 ≤ fuel) : ∃ next added, ptlDrain handle fuel line = (true, next) ∧ Blank next.bufIn ∧
      next.bufIn.size = line.bufIn.size ∧ next.received = line.received ∧ next.handled = line.handled ++ added ∧
      Isolated (gramBytes grams ++ [last]) added := by
  induction grams generalizing fuel line with
  | nil =>
    obtain ⟨msg, processed, isolated⟩ := process_closing _ line last closing content
    have all : last.length = line.bufIn.len := by rw [← Buffer.content_length, content]; rfl
    rw [all] at processed
    have blank := deliver_blank handle line msg
    refine ⟨_, [msg], ?_, blank, deliver_size _ line msg _, rfl, rfl, isolated⟩
    obtain ⟨less, rfl⟩ : ∃ less, fuel = less + 2 := ⟨fuel - 2, by omega⟩
    rw [ptlDrain, processed]
    simp only
    rw [ptlDrain, process_empty _ _ (blank_content _ blank)]
  | cons gram rest ih =>
    have split : line.bufIn.content = gram.bytes ++ ((gramBytes rest).flatten ++ last) := by
      rw [content, gramBytes, map_cons, flatten_cons, append_assoc]
      rfl
    have processed := process_whole handle line gram _ (numbers gram mem_cons_self) split
    have inside : gram.bytes.length ≤ line.bufIn.len := by
      rw [← Buffer.content_length, split, length_append]
      omega
    have behind := deliver_content handle line gram.msg _ inside
    rw [split, drop_left] at behind
    obtain ⟨less, rfl⟩ : ∃ less, fuel = less + 1 := ⟨fuel - 1, by omega⟩
    obtain ⟨next, added, drained, blank, size, received, handled, isolated⟩ :=
      ih less _ (fun item there => numbers item (mem_cons_of_mem gram there)) behind
        (by simp only [length_cons] at enough; omega)
    refine ⟨next, gram.msg :: added, ?_, blank, ?_, ?_, ?_, ?_⟩
    · rw [ptlDrain, processed]
      exact drained
    · rw [size, deliver_size]
    · rw [received]
      rfl
    · rw [handled, Line.deliver]
      simp
    · exact isolated_append _ _ _ _ (isolated_own gram) isolated

end Drain

end Codec.Portal
