import Mathlib.Data.List.TakeWhile
import Codec.Fw.Names

set_option autoImplicit false

namespace Codec.Fw

open Codec.Ems List

variable (labels : List Str) (mem : List UInt8) (pos : Nat)

-- The same place as RFC 1035 has it: labels of 1 to 63 bytes, pointers of 14
-- bits.
def rfcAt : Option Place :=
  match mem[pos]? with
  | none => none
  | some len =>
    if len = 0 then some .root
    else if len < 64 then some (.label len.toNat)
    else if len < 192 then none
    else mem[pos + 1]?.map fun low => .pointer ((len.toNat - 192) * 256 + low.toNat)

inductive RfcName (mem : List UInt8) : Nat → List Str → Nat → Prop
  | root (pos : Nat) (place : rfcAt mem pos = some .root) : RfcName mem pos [] (pos + 1)
  | label (pos len : Nat) (labels : List Str) (behind : Nat) (place : rfcAt mem pos = some (.label len))
      (rest : RfcName mem (pos + 1 + len) labels behind) : RfcName mem pos (labelAt mem pos len :: labels) behind
  | pointer (pos target : Nat) (labels : List Str) (behind : Nat) (place : rfcAt mem pos = some (.pointer target))
      (rest : RfcName mem target labels behind) : RfcName mem pos labels (pos + 2)

def joinDots : Str := [46].intercalate labels

-- The text from a place on, by the bytes that stand there.
inductive Spells (mem : List UInt8) : Nat → Str → Prop
  | root (pos : Nat) (place : placeAt mem pos = .root) : Spells mem pos []
  | last (pos len : Nat) (place : placeAt mem pos = .label len) (ends : placeAt mem (pos + 1 + len) = .root) :
      Spells mem pos (labelAt mem pos len)
  | label (pos len : Nat) (text : Str) (place : placeAt mem pos = .label len) (more : placeAt mem (pos + 1 + len) ≠ .root)
      (rest : Spells mem (pos + 1 + len) text) : Spells mem pos (labelAt mem pos len ++ 46 :: text)
  | pointer (pos target : Nat) (text : Str) (place : placeAt mem pos = .pointer target) (rest : Spells mem target text) : Spells mem pos text

theorem spells_iff (text : Str) : Spells mem pos text ↔ ∃ behind, Reads mem pos text behind := by
  constructor
  · intro spells
    induction spells with
    | root pos place => exact ⟨_, (reads_root mem pos _ _ place).mpr ⟨rfl, rfl⟩⟩
    | last pos len place ends =>
      exact ⟨_, (reads_label mem pos len _ _ place).mpr ⟨[], (reads_root mem _ _ _ ends).mpr ⟨rfl, rfl⟩, (if_pos ends).symm⟩⟩
    | label pos len text place more _ ih =>
      obtain ⟨behind, reads⟩ := ih
      exact ⟨behind, (reads_label mem pos len _ _ place).mpr ⟨text, reads, (if_neg more).symm⟩⟩
    | pointer pos target text place _ ih => exact ⟨_, (reads_pointer mem pos _ text _ place).mpr ⟨rfl, ih⟩⟩
  · rintro ⟨behind, fuel, decoded⟩
    induction fuel generalizing pos text behind with
    | zero => cases decoded
    | succ fuel ih =>
      rw [name_from_place] at decoded
      cases place : placeAt mem pos with
      | outside => simp [place] at decoded
      | root =>
        simp only [place, Option.some.injEq, Prod.mk.injEq] at decoded
        exact decoded.1 ▸ .root pos place
      | pointer target =>
        simp only [place, Option.map_eq_some_iff, Prod.exists, Prod.mk.injEq] at decoded
        obtain ⟨inner, after, pointed, rfl, _⟩ := decoded
        exact .pointer pos target _ place (ih _ _ _ pointed)
      | label len =>
        simp only [place, Option.map_eq_some_iff, Prod.exists, Prod.mk.injEq] at decoded
        obtain ⟨inner, after, rest, rfl, _⟩ := decoded
        split
        · exact .last pos len place ‹_›
        · exact .label pos len _ place ‹_› (ih _ _ _ rest)

-- The names that are decoded as they are meant. A pointer behind a label must
-- not lead to the root, and one beyond ten bits is followed modulo 1024.
inductive Legible (mem : List UInt8) : Nat → List Str → Prop
  | root (pos : Nat) (place : rfcAt mem pos = some .root) : Legible mem pos []
  | label (pos len : Nat) (labels all : List Str) (place : rfcAt mem pos = some (.label len)) (same : all = labelAt mem pos len :: labels)
      (dot : rfcAt mem (pos + 1 + len) = some .root ∨ labels ≠ []) (rest : Legible mem (pos + 1 + len) labels) : Legible mem pos all
  | near (pos target : Nat) (labels : List Str) (place : rfcAt mem pos = some (.pointer target)) (small : target < 1024)
      (rest : Legible mem target labels) : Legible mem pos labels
  | far (pos target : Nat) (labels : List Str) (place : rfcAt mem pos = some (.pointer target)) (large : 1024 ≤ target)
      (luck : Spells mem (target % 1024) (joinDots labels)) : Legible mem pos labels

theorem join_cons (label : Str) (labels : List Str) :
    joinDots (label :: labels) = if labels = [] then label else label ++ 46 :: joinDots labels := by
  cases labels with
  | nil => simp [joinDots]
  | cons other rest => simp [joinDots]

set_option maxRecDepth 4000 in
theorem top_bits (len : UInt8) : len &&& 0xc0 = 0 ↔ len < 64 := by
  have all : ∀ value < 256, UInt8.ofNat value &&& 0xc0 = 0 ↔ UInt8.ofNat value < 64 := by decide
  have own := all len.toNat len.toNat_lt
  rwa [UInt8.ofNat_toNat] at own

theorem rfc_root : rfcAt mem pos = some .root ↔ placeAt mem pos = .root := by
  rw [place_root]
  cases read : mem[pos]? with
  | none => simp [rfcAt, read]
  | some len =>
    by_cases zero : len = 0
    · simp [rfcAt, read, zero]
    · by_cases short : len < 64
      · simp [rfcAt, read, zero, short]
      · by_cases reserved : len < 192
        · simp [rfcAt, read, zero, short, reserved]
        · simp [rfcAt, read, zero, short, reserved]

theorem rfc_label (pos len : Nat) (place : rfcAt mem pos = some (.label len)) : placeAt mem pos = .label len := by
  rw [rfcAt] at place
  cases read : mem[pos]? with
  | none => simp [read] at place
  | some byte =>
    by_cases zero : byte = 0
    · simp [read, zero] at place
    · by_cases short : byte < 64
      · simp [read, zero, short] at place
        simp [placeAt, read, zero, (top_bits byte).mpr short, place]
      · by_cases reserved : byte < 192
        · simp [read, zero, short, reserved] at place
        · simp [read, zero, short, reserved] at place

theorem masked_offset (high low : Nat) (mark : 192 ≤ high) (bound : low < 256) :
    high % 4 * 256 + low = ((high - 192) * 256 + low) % 1024 := by
  omega

theorem rfc_pointer (pos target : Nat) (place : rfcAt mem pos = some (.pointer target)) :
    placeAt mem pos = .pointer (target % 1024) := by
  rw [rfcAt] at place
  cases read : mem[pos]? with
  | none => simp [read] at place
  | some high =>
    by_cases zero : high = 0
    · simp [read, zero] at place
    · by_cases short : high < 64
      · simp [read, zero, short] at place
      · by_cases reserved : high < 192
        · simp [read, zero, short, reserved] at place
        · simp only [read, if_neg zero, if_neg short, if_neg reserved] at place
          obtain ⟨low, next, same⟩ := Option.map_eq_some_iff.mp place
          simp only [Place.pointer.injEq] at same
          have mark : ¬high.toNat < 192 := reserved
          have bits : (high &&& 3).toNat = high.toNat % 4 := by
            rw [UInt8.toNat_and]
            exact Nat.and_two_pow_sub_one_eq_mod _ 2
          have pointer : high &&& 0xc0 ≠ 0 := fun none => short ((top_bits high).mp none)
          have offset := masked_offset _ _ (Nat.le_of_not_lt mark) low.toNat_lt
          simp only [placeAt, read, if_neg zero, if_pos pointer, next, bits, offset, same]

theorem rfc_empty (labels : List Str) (behind : Nat) (name : RfcName mem pos labels behind)
    (root : rfcAt mem pos = some .root) : labels = [] := by
  cases name with
  | root _ _ => rfl
  | label _ len labels behind place _ => simp [root] at place
  | pointer _ target _ behind place _ => simp [root] at place

theorem rfc_decodes (labels : List Str) (behind : Nat) (name : RfcName mem pos labels behind) :
    (∀ text after, Reads mem pos text after → after = behind) ∧ (Reads mem pos (joinDots labels) behind ↔ Legible mem pos labels) := by
  induction name with
  | root pos place =>
    have here := (rfc_root mem pos).mp place
    refine ⟨fun text after reads => ((reads_root mem pos text _ here).mp reads).2, ?_⟩
    rw [reads_root mem pos _ _ here]
    exact ⟨fun _ => .root pos place, fun _ => ⟨rfl, rfl⟩⟩
  | label pos len labels behind place rest ih =>
    obtain ⟨ends, decodes⟩ := ih
    have here := rfc_label mem pos len place
    constructor
    · intro text after reads
      obtain ⟨inner, inside, _⟩ := (reads_label mem pos len text _ here).mp reads
      exact ends _ _ inside
    · rw [reads_label mem pos len _ _ here, join_cons]
      by_cases root : rfcAt mem (pos + 1 + len) = some .root
      · have none := rfc_empty mem _ _ _ rest root
        constructor
        · rintro ⟨inner, inside, _⟩
          have nothing := ((reads_root mem _ _ _ ((rfc_root mem _).mp root)).mp inside).1
          rw [nothing] at inside
          rw [none] at decodes ⊢
          exact .label pos len [] _ place rfl (.inl root) (decodes.mp inside)
        · intro legible
          refine ⟨joinDots _, decodes.mpr ?_, by rw [if_pos none, if_pos ((rfc_root mem _).mp root)]⟩
          rw [none]
          exact .root _ root
      · have inner := fun here => root ((rfc_root mem _).mpr here)
        simp only [if_neg inner]
        constructor
        · rintro ⟨text, inside, same⟩
          by_cases none : labels = []
          · rw [if_pos none] at same
            have length := congrArg length same
            simp at length
          · rw [if_neg none] at same
            have tails := (cons.inj (append_cancel_left same)).2
            rw [← tails] at inside
            exact .label pos len _ _ place rfl (.inr none) (decodes.mp inside)
        · intro legible
          cases legible with
          | label _ other more _ place' same dot rest' =>
            rw [place] at place'
            cases place'
            have rests := (cons.inj same).2
            rw [← rests] at dot rest'
            exact ⟨joinDots _, decodes.mpr rest', by rw [if_neg (dot.resolve_left root)]⟩
          | near _ other _ place' _ _ => simp [place] at place'
          | far _ other _ place' _ _ => simp [place] at place'
  | pointer pos target labels behind place rest ih =>
    obtain ⟨ends, decodes⟩ := ih
    have here := rfc_pointer mem pos _ place
    constructor
    · intro text after reads
      exact ((reads_pointer mem pos _ text _ here).mp reads).1
    · rw [reads_pointer mem pos _ _ _ here]
      by_cases small : target < 1024
      · rw [Nat.mod_eq_of_lt small]
        constructor
        · rintro ⟨_, after, pointed⟩
          rw [ends _ _ pointed] at pointed
          exact .near pos _ _ place small (decodes.mp pointed)
        · intro legible
          cases legible with
          | root _ place' => simp [place] at place'
          | label _ other more _ place' _ _ _ => simp [place] at place'
          | near _ other _ place' _ rest' =>
            rw [place] at place'
            cases place'
            exact ⟨rfl, behind, decodes.mpr rest'⟩
          | far _ other _ place' large _ =>
            rw [place] at place'
            cases place'
            omega
      · constructor
        · rintro ⟨_, luck⟩
          exact .far pos _ _ place (Nat.le_of_not_lt small) ((spells_iff mem _ _).mpr luck)
        · intro legible
          cases legible with
          | root _ place' => simp [place] at place'
          | label _ other more _ place' _ _ _ => simp [place] at place'
          | near _ other _ place' less _ =>
            rw [place] at place'
            cases place'
            exact absurd less small
          | far _ other _ place' _ luck =>
            rw [place] at place'
            cases place'
            exact ⟨rfl, (spells_iff mem _ _).mp luck⟩

def encodeLabels : List UInt8 := labels.flatMap fun label => UInt8.ofNat label.length :: label

theorem labels_length (label : Str) (rest : List Str) : (encodeLabels (label :: rest)).length = (joinDots (label :: rest)).length + 1 := by
  induction rest generalizing label with
  | nil => simp [encodeLabels, joinDots]
  | cons other more ih =>
    have inner := ih other
    rw [join_cons, if_neg (cons_ne_nil _ _), length_append, length_cons, ← inner, encodeLabels, flatMap_cons,
      length_append, length_cons, encodeLabels]
    omega

theorem label_at_front (pre label rest : List UInt8) (len : UInt8) :
    labelAt (pre ++ len :: (label ++ rest)) pre.length label.length = label := by
  rw [labelAt, drop_append, drop_eq_nil_of_le (by omega), Nat.add_sub_cancel_left]
  simp

theorem rfc_at_front (pre rest : List UInt8) (len : UInt8) (short : len < 64) :
    rfcAt (pre ++ len :: rest) pre.length = some (if len = 0 then .root else .label len.toNat) := by
  by_cases zero : len = 0
  · simp [rfcAt, zero]
  · simp [rfcAt, zero, short]

theorem encoded_name (pre post : List UInt8) (labels : List Str) (sized : ∀ label ∈ labels, label ≠ [] ∧ label.length ≤ 63) :
    RfcName (pre ++ (encodeLabels labels ++ 0 :: post)) pre.length labels (pre.length + (encodeLabels labels).length + 1) ∧
      Legible (pre ++ (encodeLabels labels ++ 0 :: post)) pre.length labels := by
  induction labels generalizing pre with
  | nil =>
    have here := rfc_at_front pre post 0 (by decide)
    exact ⟨.root _ here, .root _ here⟩
  | cons label rest ih =>
    obtain ⟨some_, short⟩ := sized _ mem_cons_self
    have positive := length_pos_iff.mpr some_
    have counted : (UInt8.ofNat label.length).toNat = label.length := by
      rw [UInt8.toNat_ofNat']
      omega
    have less : UInt8.ofNat label.length < 64 := by
      rw [UInt8.lt_iff_toNat_lt, counted]
      exact Nat.lt_succ_of_le short
    have nonzero : UInt8.ofNat label.length ≠ 0 := by
      intro zero
      rw [zero] at counted
      exact absurd counted.symm (Nat.ne_of_gt positive)
    have here := rfc_at_front pre (label ++ (encodeLabels rest ++ 0 :: post)) _ less
    rw [if_neg nonzero, counted] at here
    have own := label_at_front pre label (encodeLabels rest ++ 0 :: post) (UInt8.ofNat label.length)
    have split : pre ++ (encodeLabels (label :: rest) ++ 0 :: post) =
        pre ++ UInt8.ofNat label.length :: (label ++ (encodeLabels rest ++ 0 :: post)) := by simp [encodeLabels]
    have moved : pre ++ UInt8.ofNat label.length :: (label ++ (encodeLabels rest ++ 0 :: post)) =
        (pre ++ UInt8.ofNat label.length :: label) ++ (encodeLabels rest ++ 0 :: post) := by simp
    have place : (pre ++ UInt8.ofNat label.length :: label).length = pre.length + 1 + label.length := by
      simp only [length_append, length_cons]
      omega
    have ends : (encodeLabels (label :: rest)).length = 1 + label.length + (encodeLabels rest).length := by
      simp only [encodeLabels, flatMap_cons, cons_append, length_cons, length_append]
      omega
    obtain ⟨name, legible⟩ := ih _ fun other there => sized _ (mem_cons_of_mem _ there)
    rw [← moved, place] at name legible
    have dot : rfcAt (pre ++ UInt8.ofNat label.length :: (label ++ (encodeLabels rest ++ 0 :: post))) (pre.length + 1 + label.length) =
        some .root ∨ rest ≠ [] := by
      by_cases none : rest = []
      · left
        rw [moved, ← place, none]
        exact rfc_at_front _ post 0 (by decide)
      · exact .inr none
    rw [split, ends]
    constructor
    · have whole := RfcName.label _ _ rest _ here name
      rw [own] at whole
      rw [show pre.length + (1 + label.length + (encodeLabels rest).length) + 1 =
        pre.length + 1 + label.length + (encodeLabels rest).length + 1 by omega]
      exact whole
    · exact .label _ _ rest _ here (by rw [own]) dot legible

-- A host name: labels of 1 to 63 characters, none of them a dot or a NUL.
structure HostName (labels : List Str) : Prop where
  some : labels ≠ []
  sized : ∀ label ∈ labels, label ≠ [] ∧ label.length ≤ 63
  plain : ∀ label ∈ labels, 46 ∉ label ∧ 0 ∉ label
  short : (joinDots labels).length ≤ 253

theorem set_question_labels (host : HostName labels) : dnsSetQuestion (joinDots labels) = encodeLabels labels ++ [0] := by
  have split : (joinDots _).splitOn 46 = labels :=
    splitOn_intercalate 46 (fun label there => (host.plain _ there).1) host.some
  have last : labels.getLast? ≠ some [] := by
    intro empty
    exact (host.sized [] (mem_of_getLast? empty)).1 rfl
  simp only [dnsSetQuestion, split, if_neg last, encodeLabels]

theorem join_clean (clean : ∀ label ∈ labels, 0 ∉ label) : 0 ∉ joinDots labels := by
  induction labels with
  | nil => simp [joinDots]
  | cons label rest ih =>
    have own := clean _ mem_cons_self
    have later := ih fun other there => clean _ (mem_cons_of_mem _ there)
    rw [join_cons]
    split <;> simp [own, later]

theorem dns_names_iff (host : List Str) (pre post : List UInt8) (hostName : HostName host) (mem : List UInt8) (pos : Nat)
    (labels : List Str) (behind : Nat) (name : RfcName mem pos labels behind) :
    dnsGetName (pre ++ dnsSetQuestion (joinDots host) ++ post) pre.length =
        some (joinDots host, pre.length + (dnsSetQuestion (joinDots host)).length) ∧
      (Reads mem pos (joinDots labels) behind ↔ Legible mem pos labels) := by
  constructor
  · obtain ⟨written, legible⟩ := encoded_name pre post host hostName.sized
    obtain ⟨fuel, reads⟩ := (rfc_decodes _ _ _ _ written).2.mpr legible
    have short := hostName.short
    have decoded := dns_get_name_some _ fuel _ _ _ reads (by rw [nameRoom]; omega)
    have whole : (joinDots host).takeWhile (· ≠ 0) = joinDots host := by
      apply takeWhile_eq_self_iff.mpr
      intro char there
      have clean := join_clean host fun label inside => (hostName.plain _ inside).2
      have other : char ≠ 0 := fun zero => clean (zero ▸ there)
      simpa using other
    rw [set_question_labels host hostName, append_assoc, append_assoc, singleton_append, decoded, whole,
      length_append, length_singleton, Nat.add_assoc]
  · exact (rfc_decodes mem pos _ _ name).2

theorem dns_names_sample :
    dnsGetName (List.replicate 12 0 ++ dnsSetQuestion (joinDots [[97], [98, 99]]) ++ [0, 1, 0, 1]) 12 = some ([97, 46, 98, 99], 18) ∧
      Reads [1, 98, 0, 1, 97, 0xc0, 0] 3 [97, 46, 98] 7 := by
  have host : HostName [[97], [98, 99]] := ⟨by decide, by decide, by decide, by decide⟩
  have suffix : RfcName [1, 98, 0, 1, 97, 0xc0, 0] 0 _ 3 := .label 0 1 [] 3 rfl (.root 2 rfl)
  have name : RfcName _ 3 _ 7 := .label 3 1 _ 7 rfl (.pointer 5 0 _ 3 rfl suffix)
  have legible : Legible [1, 98, 0, 1, 97, 0xc0, 0] 0 _ := .label 0 1 [] _ rfl rfl (.inl rfl) (.root 2 rfl)
  obtain ⟨written, read⟩ := dns_names_iff _ _ _ host _ 3 _ 7 name
  exact ⟨written, read.mpr (.label 3 1 _ _ rfl rfl (.inr (by decide)) (.near 5 0 _ rfl (by decide) legible))⟩

def farFront : List UInt8 := [0xc4, 2, 1, 98, 0] ++ List.replicate 1021 0

def farPacket : List UInt8 := farFront ++ (encodeLabels [[97]] ++ 0 :: [])

theorem far_pointer_lost : ¬∀ (mem : List UInt8) (pos : Nat) (labels : List Str) (behind : Nat),
    RfcName mem pos labels behind → Reads mem pos (joinDots labels) behind := by
  intro claim
  have front : farFront.length = 1026 := by
    rw [farFront, length_append, length_replicate]
    rfl
  have name := (encoded_name farFront [] [[97]] (by decide)).1
  rw [front] at name
  have pointed := claim _ 0 _ 2 (.pointer 0 1026 _ _ rfl name)
  obtain ⟨_, after, near⟩ := (reads_pointer _ 0 2 _ 2 rfl).mp pointed
  obtain ⟨inner, _, same⟩ := (reads_label farPacket 2 1 _ _ rfl).mp near
  have root : placeAt farPacket (2 + 1 + 1) = .root := rfl
  rw [if_pos root] at same
  exact absurd same (by decide)

-- dns_parse_and_rsp, which answers while the network is down.
def dnsParseAndRsp (query : Str) : Str :=
  let reply := (query ++ [0xc0, 12, 0, 1, 0, 1, 0, 0, 0, 0, 0, 4] ++ [1, 0, 0, 1]).take 1024
  ((reply.modify 2 (· ||| 0x84)).modify 3 (· ||| 0x80)).modify 7 (· ||| 1)

theorem intercepted_name (host : List Str) (hostName : HostName host) (id flags kind cls : UInt16) :
    let query := storeShort id ++ storeShort flags ++ [0, 1, 0, 0, 0, 0, 0, 0] ++ dnsSetQuestion (joinDots host)
    let reply := dnsParseAndRsp (query ++ storeShort kind ++ storeShort cls)
    dnsId reply = dnsId (storeShort id) ∧ ancount reply = 1 ∧ ∃ behind, fwDnsGetQuestion reply = some (joinDots host, behind) ∧
      dnsGetAllAddress reply 1 behind = some [0x01000001] := by
  have short : (encodeLabels host).length ≤ 254 := by
    obtain ⟨label, rest, rfl⟩ := exists_cons_of_ne_nil hostName.some
    rw [labels_length]
    exact Nat.succ_le_succ hostName.short
  rw [set_question_labels host hostName]
  intro query reply
  let front := storeShort id ++ [(flags >>> 8).toUInt8 ||| 0x84, flags.toUInt8 ||| 0x80, 0, 1, 0, 1, 0, 0, 0, 0]
  let post := storeShort kind ++ storeShort cls ++ [0xc0, 12, 0, 1, 0, 1, 0, 0, 0, 0, 0, 4, 1, 0, 0, 1]
  have shape : reply = front ++ (encodeLabels host ++ 0 :: post) := by
    simp only [reply, query, dnsParseAndRsp, storeShort]
    rw [take_of_length_le (by simp; omega)]
    simp [front, post, storeShort]
  have header : dnsId reply = dnsId (storeShort id) ∧ ancount reply = 1 := shape ▸ ⟨rfl, rfl⟩
  obtain ⟨written, legible⟩ := encoded_name front post host hostName.sized
  have reads := (rfc_decodes _ _ _ _ written).2.mpr legible
  rw [← shape] at reads
  have named (pos after : Nat) (there : Reads reply pos (joinDots host) after) : dnsGetName reply pos = some (joinDots host, after) := by
    have room := hostName.short
    obtain ⟨fuel, decoded⟩ := there
    rw [dns_get_name_some _ fuel _ _ _ decoded (by rw [nameRoom]; omega), takeWhile_eq_self_iff.mpr]
    intro char inside
    have clean := join_clean host fun label other => (hostName.plain _ other).2
    have other : char ≠ 0 := fun zero => clean (zero ▸ inside)
    simpa using other
  generalize ended : front.length + (encodeLabels host).length + 1 = pos at reads
  have byte (k : Nat) : reply[pos + k]? = post[k]? := by
    rw [shape, ← ended]
    simp [getElem?_append, getElem?_cons, Nat.add_assoc]
  have place : placeAt reply (pos + 4) = .pointer 12 := by
    simp [placeAt, byte, post, storeShort, Nat.add_assoc]
  have again := (reads_pointer reply _ _ _ _ place).mpr ⟨rfl, _, reads⟩
  refine ⟨header.1, header.2, pos + 4, ?_, ?_⟩
  · have first : reply[pos]? = _ := byte 0
    simp [fwDnsGetQuestion, headerSize, named 12 _ reads, dnsGetShort, byte, first, Nat.add_assoc, post, storeShort]
  · simp [dnsGetAllAddress, named _ _ again, dnsGetShort, dnsGetAddr, itemSize, byte, Nat.add_assoc, post, storeShort]

theorem intercepted_name_sample :
    let reply := dnsParseAndRsp (selfQuery [97] 7)
    dnsId reply = dnsId (storeShort 7) ∧ ancount reply = 1 ∧ ∃ behind, fwDnsGetQuestion reply = some ([97], behind) ∧
      dnsGetAllAddress reply 1 behind = some [0x01000001] :=
  intercepted_name [[97]] ⟨by decide, by decide, by decide, by decide⟩ 7 0x0100 1 1

end Codec.Fw
