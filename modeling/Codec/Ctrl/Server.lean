import Codec.Ctrl.RoundTrip
import Codec.Http.Session

set_option autoImplicit false

namespace Codec.Ctrl

open Codec.Ems
open Codec.Http (Arrival msgIsWeb)
open Codec.Tunnel (htonl ntohl)

-- The session of one connection to the control port. `handled` are the calls
-- of ctrl_cmd_handle; what its reply does to the output is not read here.
structure Sess where
  bufIn : Buffer
  isWeb : Bool
  opened : Bool
  handled : List (UInt32 × Option Str)

theorem fresh_bounded (mem : Str) : 0 ≤ mem.length := Nat.zero_le _

def fresh (mem : Str) : Buffer := ⟨mem, 0, 0, Buffer.none_read, fresh_bounded mem⟩

-- buf_in is 1K of memory as malloc returns it.
def accepted (memory : Fin 1024 → UInt8) : Sess where
  bufIn := fresh (List.ofFn memory)
  isWeb := false
  opened := true
  handled := []

def afterProcess (sess : Sess) : Sess :=
  let done := ctrlCmdProcess sess.isWeb sess.bufIn
  { bufIn := done.buf
    isWeb := done.isWeb
    opened := done.ret = .ok ∨ done.ret = .cont
    handled := sess.handled ++ done.handled.toList }

def readLoop : Nat → Sess → List Arrival → Sess
  | 0, sess, _ => sess
  | fuel + 1, sess, stream =>
    let buf := sess.bufIn.refresh
    let got := Http.sockRead buf.left stream
    let next := afterProcess { sess with bufIn := buf.write got.2.1 }
    match got.1 with
    | .zero => { sess with opened := false }
    | .failed => { sess with opened := false }
    | .again => next
    | .full =>
      if got.2.1 = [] then { sess with opened := false }
      else if next.opened then readLoop fuel next got.2.2
      else next

def ctrlCmdRead (sess : Sess) (burst : Str) : Sess := readLoop (burst.length + 1) sess (burst.map .byte)

-- One READ callback: `burst` is what has arrived since the last EAGAIN. The
-- callback of a web session is the http module's; it clears what it reads, too.
def evtCmdCb (sess : Sess) (burst : Str) : Sess := if sess.opened then ctrlCmdRead sess burst else sess

structure Request where
  tag : UInt32
  body : Str
  counts : body.length + 8 < 4294967296
  carried : 4 ≤ body.length → ntohl body + 4 ≤ body.length

def Request.size (req : Request) : Nat := 8 + req.body.length

def Request.bytes (req : Request) : Str := htonl req.tag.toNat ++ (htonl req.size ++ req.body)

def Request.call (req : Request) : UInt32 × Option Str :=
  (req.tag, if 4 ≤ req.body.length then some (cstr ((req.body.drop 4).take (ntohl req.body))) else none)

def Request.Fits (req : Request) : Prop := req.size < 1024 ∧ msgIsWeb (htonl req.tag.toNat) = false

def stream (reqs : List Request) : Str := (reqs.map Request.bytes).flatten

@[simp] theorem stream_nil : stream [] = [] := rfl

@[simp] theorem stream_cons (req : Request) (reqs : List Request) : stream (req :: reqs) = req.bytes ++ stream reqs := rfl

@[simp] theorem request_length (req : Request) : req.bytes.length = req.size := by
  simp only [Request.bytes, Request.size, List.length_append, htonl_length]
  omega

theorem overwrite_front (mem bytes : Str) : overwrite mem 0 bytes = bytes ++ mem.drop bytes.length := by
  rw [overwrite, List.take_zero, List.nil_append, Nat.zero_add]

theorem consume_numbers (input : Buffer) (len : Nat) (start : input.rd = 0) (some : 0 < len) (there : len ≤ input.len) :
    (consume input len).rd = 0 ∧ (consume input len).wr = input.len - len ∧ (consume input len).size = input.size ∧
      (consume input len).mem.drop (input.len - len) = input.mem.drop (input.len - len) := by
  have inside := input.bounded
  have content : ((input.seekRd len .cur).getD input).content = input.content.drop len := by
    obtain ⟨next, moved⟩ := Option.isSome_iff_exists.mp (input.seek_rd_cur_some len there)
    rw [moved, Option.getD_some, input.seek_rd_cur_content next len moved]
  have moved : ((input.seekRd len .cur).getD input).trash = len ∧ ((input.seekRd len .cur).getD input).wr = input.wr ∧
      ((input.seekRd len .cur).getD input).mem = input.mem := by
    dsimp only [Buffer.seekRd]
    rw [dif_neg (by omega)]
    refine ⟨?_, rfl, rfl⟩
    simp only [Option.getD_some, Buffer.trash]
    omega
  generalize whole : (input.seekRd len .cur).getD _ = next at content moved
  have less : next.content.length = input.len - len := by rw [content, List.length_drop, Buffer.content_length]
  have refreshed : consume input len = next.refresh := by rw [consume, whole]
  rw [refreshed, Buffer.refresh, if_pos (by omega)]
  refine ⟨rfl, ?_, ?_, ?_⟩
  · rw [← less, Buffer.content_length]
  · simp only [Buffer.size, Buffer.len] at *
    rw [overwrite_length _ _ _ (by rw [moved.2.2]; omega), moved.2.2]
  · dsimp only
    rw [overwrite_front, ← less, List.drop_left' rfl, moved.2.2]

theorem prefix_split (first behind head rest : Str) (whole : first ++ behind = head ++ rest)
    (enough : head.length ≤ first.length) : ∃ more, first = head ++ more ∧ rest = more ++ behind := by
  obtain ⟨more, longer, split⟩ | ⟨more, split, rest⟩ := List.append_eq_append_iff.mp whole
  · have none : more = [] := by
      apply List.eq_nil_of_length_eq_zero
      have size := congrArg List.length longer
      rw [List.length_append] at size
      omega
    rw [none] at longer split
    exact ⟨[], by rw [longer, List.append_nil, List.append_nil], split.symm⟩
  · exact ⟨more, split, rest⟩

theorem ntohl_append (word rest : Str) (whole : 4 ≤ word.length) : ntohl (word ++ rest) = ntohl word := by
  match word, whole with
  | _ :: _ :: _ :: _ :: _, _ => rfl

section Front

variable (input : Buffer) (future more : Str) (req : Request) (start : input.content ++ future = req.bytes ++ more)

include start

theorem tag_seen (four : 4 ≤ input.len) : msgIsWeb (input.mem.drop input.rd) = msgIsWeb (htonl req.tag.toNat) := by
  rw [← Buffer.content_length] at four
  rw [Request.bytes, List.append_assoc] at start
  obtain ⟨behind, content, _⟩ := prefix_split _ _ _ _ start four
  rw [content_drop, content, List.append_assoc, web_by_tag]

theorem header_seen (eight : 8 ≤ input.len) : declaredLen input = req.size ∧
    UInt32.ofNat (ntohl (input.prefetch sizeRequest)) = req.tag := by
  rw [← Buffer.content_length] at eight
  have whole : req.bytes ++ more = (htonl req.tag.toNat ++ htonl req.size) ++ (req.body ++ more) := by
    simp only [Request.bytes, List.append_assoc]
  obtain ⟨behind, content, _⟩ := prefix_split _ _ _ _ (start.trans whole) eight
  have counts := req.counts
  have small : req.size < 4294967296 := by
    rw [Request.size]
    omega
  obtain ⟨declared, tag, _⟩ := header_found _ _ _ _ small (by rw [content, List.append_assoc])
  exact ⟨declared, tag⟩

end Front

theorem web_cleared (input : Buffer) (web : msgIsWeb (input.mem.drop input.rd) = true) :
    ctrlCmdProcess false input = ⟨.ok, true, input.clear, none, none, 0⟩ := by
  rw [ctrlCmdProcess, if_neg (Bool.false_ne_true), if_pos web]

theorem few_wait (input : Buffer) (other : msgIsWeb (input.mem.drop input.rd) = false) (few : input.len < 8) :
    ctrlCmdProcess false input = ⟨.cont, false, input, none, none, 0⟩ := by
  rw [ctrlCmdProcess, if_neg (Bool.false_ne_true), other, if_neg (Bool.false_ne_true),
    if_pos (show input.len < sizeRequest from few)]

theorem request_seen (input : Buffer) (future more : Str) (req : Request) (size : input.size = 1024)
    (start : input.content ++ future = req.bytes ++ more) (other : msgIsWeb (htonl req.tag.toNat) = false)
    (eight : 8 ≤ input.len) : ctrlCmdProcess false input =
      if 1024 ≤ req.size then ⟨.insufficient, false, input, none, some req.size, sizeRequest⟩
      else if input.len < req.size then ⟨.cont, false, input, none, some req.size, sizeRequest⟩
      else ctrlCmdProcessOne input req.tag req.size := by
  obtain ⟨declared, tag⟩ := header_seen _ _ more req start eight
  rw [ctrlCmdProcess, if_neg (Bool.false_ne_true), tag_seen _ _ more req start (by omega), other,
    if_neg (Bool.false_ne_true), if_neg (by rw [sizeRequest]; omega), declared, size, tag]

theorem request_handled (input : Buffer) (future more : Str) (req : Request)
    (start : input.content ++ future = req.bytes ++ more) (there : req.size ≤ input.len) :
    ∃ extent, ctrlCmdProcessOne input req.tag req.size =
      ⟨.ok, false, consume input req.size, some req.call, some req.size, extent⟩ := by
  rw [← Buffer.content_length, ← request_length] at there
  obtain ⟨behind, content, _⟩ := prefix_split _ _ _ _ start there
  have body : input.mem.drop (input.rd + sizeRequest) = req.body ++ (behind ++ input.mem.drop input.wr) := by
    rw [← List.drop_drop, content_drop, content, Request.bytes]
    simp only [List.append_assoc]
    rfl
  by_cases carries : 4 ≤ req.body.length
  · have inside := req.carried carries
    have inner : innerLen input = ntohl req.body := by rw [innerLen, body, ntohl_append _ _ carries]
    have text : (input.mem.drop (input.rd + sizeRequest + intsize)).take (innerLen input) =
        (req.body.drop 4).take (ntohl req.body) := by
      rw [inner, ← List.drop_drop, body, intsize, List.drop_append_of_le_length carries,
        List.take_append_of_le_length (by rw [List.length_drop]; omega)]
    have long : sizeRequest + intsize ≤ req.size := by
      simp only [sizeRequest, intsize, Request.size]
      omega
    refine ⟨sizeRequest + intsize + innerLen input + 1, ?_⟩
    rw [ctrlCmdProcessOne, if_pos long, if_neg (by rw [inner, Request.size]; omega)]
    rw [text, Request.call, if_pos carries]
  · refine ⟨sizeRequest, ?_⟩
    rw [ctrlCmdProcessOne, Request.call, if_neg carries, if_neg]
    simp only [sizeRequest, intsize, Request.size]
    omega

end Codec.Ctrl
