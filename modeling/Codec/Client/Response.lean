import Codec.Fw.Payload
import Codec.Http.Session
import Codec.Tunnel.Frame

set_option autoImplicit false

namespace Codec.Client

open Codec.Ems
open Codec.Fw (emsAtoi)
open Codec.Http (Arrival)
open Codec.Tunnel (Ret)

inductive Parsed (α : Type) where
  | more
  | done (json : α)
  | failed
  deriving DecidableEq

inductive Phase where
  | waiting | answered | failed
  deriving DecidableEq, Repr

-- The session from the request on. Nothing but a header is ever taken out of
-- buf_in, whose size outlives the connection; `looks` counts the calls that
-- look at the memory behind `received`.
structure Exchange (α : Type) where
  received : Str
  size : Nat
  looks : Nat
  phase : Phase
  calls : List α

def requested (α : Type) (size : Nat) : Exchange α := ⟨[], size, 0, .waiting, []⟩

def httpSep : Str := [13, 10, 13, 10]

def contentLength (mem : List UInt8) : Option Int :=
  (strstr (ascii "Content-Length: ") (cstr mem)).map fun found => emsAtoi found.2

def sepEnd (mem : List UInt8) : Option Nat := (strstr httpSep (cstr mem)).map fun found => found.1.length + httpSep.length

def increase (received : Str) (size inc : Nat) : Nat := if inc < size - received.length then size else size + inc

-- The part of cl_filter_http_rsp behind the Content-Length. The NUL is stored
-- wherever the empty line has been found; ems_buffer_seek_rd refuses to move
-- behind what has been received.
def separate (mem : List UInt8) (received : Str) (size : Nat) (total : Int) : Ret × Str × Nat :=
  match sepEnd mem with
  | none => (.cont, received, size)
  | some sep =>
    if 0 < total ∧ |(received.length : Int) - sep| < total then (.cont, received, size)
    else
      let cut := (overwrite mem (sep - httpSep.length) [0]).take received.length
      let rest := if sep ≤ received.length then cut.drop sep else cut
      if 0 < total ∧ (rest.length : Int) < total then (.cont, rest, size) else (.ok, rest, size)

def clFilterHttpRsp (mem : List UInt8) (received : Str) (size : Nat) : Ret × Str × Nat :=
  if received.length ≤ 4 then (.cont, received, size)
  else if ¬ (ascii "HTTP").isPrefixOf mem then (.err, received, size)
  else
    match contentLength mem with
    | none => separate mem received size 0
    | some total =>
      if total ≤ 0 ∨ 16384 < total then (.err, received, size)
      else if (size : Int) - total ≤ 0 then (.cont, received, increase received size total.toNat)
      else separate mem received size total

section Environment

-- `parse` is json_tokener_parse_ex, and `behind n` what the memory behind the
-- received bytes holds at the n-th look.
variable {α : Type} (parse : Str → Parsed α) (behind : Nat → List UInt8)

def clPreprocess (sess : Exchange α) : Ret × Exchange α :=
  let filtered := clFilterHttpRsp (sess.received ++ behind sess.looks) sess.received sess.size
  let next := { sess with received := filtered.2.1, size := filtered.2.2, looks := sess.looks + 1 }
  match filtered.1 with
  | .ok =>
    match parse next.received with
    | .more => (.cont, next)
    | .failed => (.err, next)
    | .done json => (.ok, { next with phase := .answered, calls := next.calls ++ [json] })
  | ret => (ret, next)

def readLoop : Nat → Exchange α → List Arrival → Ret × Exchange α
  | 0, sess, _ => (.cont, sess)
  | fuel + 1, sess, stream =>
    let got := Http.sockRead (sess.size - sess.received.length) stream
    let more := { sess with received := sess.received ++ got.2.1 }
    let kept := if got.1 = .failed then sess else more
    let done := clPreprocess parse behind kept
    match got.1 with
    | .again => if done.1 = .cont then (.ok, done.2) else done
    | .full =>
      if got.2.1 = [] ∧ kept.received ≠ [] then done
      else if done.1 = .cont then readLoop fuel done.2 got.2.2
      else done
    | _ =>
      if kept.received ≠ [] then done
      else if done.1 = .cont then readLoop fuel done.2 got.2.2
      else done

def clRecvHandle (sess : Exchange α) (burst : Str) : Ret × Exchange α :=
  readLoop parse behind (burst.length + 1) sess (burst.map .byte)

-- One READ callback: `burst` is what has arrived since the last EAGAIN. All
-- but EMS_OK ends the exchange.
def clEvtCb (sess : Exchange α) (burst : Str) : Exchange α :=
  if sess.phase = .waiting then
    let done := clRecvHandle parse behind sess burst
    if done.1 = .ok then done.2 else { done.2 with phase := .failed }
  else sess

end Environment

structure Response where
  head : Str
  body : Str
  text : Str
  starts : ascii "HTTP" <+: head
  ends : strstr httpSep head = some (text, [])
  clean : 0 ∉ head

def Response.bytes (resp : Response) : Str := resp.head ++ resp.body

def Refuses (mem : List UInt8) : Prop := ∃ total ∈ contentLength mem, total ≤ 0 ∨ 16384 < total

instance (mem : List UInt8) : Decidable (Refuses mem) :=
  inferInstanceAs (Decidable (∃ total ∈ contentLength mem, total ≤ 0 ∨ 16384 < total))

def Asks (mem : List UInt8) (received : Str) (size sep : Nat) : Prop :=
  ∃ total ∈ contentLength mem, (size : Int) ≤ total ∨ |(received.length : Int) - sep| < total

def FullFine (mem : List UInt8) (received : Str) (size : Nat) : Prop :=
  Refuses mem ∨ (∃ total ∈ contentLength mem, (size : Int) ≤ total) ∨ ∃ sep ∈ sepEnd mem, ¬ Asks mem received size sep

instance (mem : List UInt8) (received : Str) (size sep : Nat) : Decidable (Asks mem received size sep) :=
  inferInstanceAs (Decidable (∃ total ∈ contentLength mem, _ ∨ _))

instance (mem : List UInt8) (received : Str) (size : Nat) : Decidable (FullFine mem received size) :=
  inferInstanceAs (Decidable (_ ∨ (∃ total ∈ contentLength mem, _) ∨ ∃ sep ∈ sepEnd mem, _))

section Condition

variable {α : Type} (parse : Str → Parsed α) (resp : Response) (behind : Nat → List UInt8)

def Response.outcome : Phase × List α :=
  if Refuses resp.bytes then (.failed, [])
  else
    match parse resp.body with
    | .more => (.waiting, [])
    | .done json => (.answered, [json])
    | .failed => (.failed, [])

def LookFine (mem : List UInt8) (received : Str) (size : Nat) : Prop :=
  4 < received.length →
    Refuses resp.bytes ∧ Refuses mem ∨
      ¬ Refuses mem ∧
        (received = resp.bytes → ¬ Refuses resp.bytes ∧
          ∀ total ∈ contentLength mem, total ≤ resp.body.length ∧ total < size) ∧
        ∀ sep ∈ sepEnd mem, Asks mem received size sep ∨
          ¬ Refuses resp.bytes ∧ sep = resp.head.length ∧ sep ≤ received.length ∧
            parse (received.drop sep) = parse resp.body ∧ parse resp.body ≠ .more

def Fine : Nat → Nat → Nat → Str → Str → Prop
  | 0, _, _, _, _ => True
  | fuel + 1, looks, size, received, burst =>
    let now := received ++ burst.take (size - received.length)
    let mem := now ++ behind looks
    LookFine parse resp mem now size ∧
      (size - received.length ≤ burst.length → FullFine mem now size ∧
        ∀ total ∈ contentLength mem, (size : Int) ≤ total →
          Fine fuel (looks + 1) (increase now size total.toNat) now (burst.drop (size - received.length)))

def Steady (sess : Exchange α) (burst : Str) : Prop :=
  sess.phase = .waiting → Fine parse resp behind (burst.length + 1) sess.looks sess.size sess.received burst

instance [DecidableEq α] (mem : List UInt8) (received : Str) (size : Nat) :
    Decidable (LookFine parse resp mem received size) :=
  inferInstanceAs (Decidable (_ → _ ∧ _ ∨ _ ∧ (_ → _ ∧ ∀ total ∈ contentLength mem, _) ∧
    ∀ sep ∈ sepEnd mem, _ ∨ _ ∧ _ ∧ _ ∧ _))

instance decidableFine [DecidableEq α] :
    ∀ fuel looks size received burst, Decidable (Fine parse resp behind fuel looks size received burst)
  | 0, _, _, _, _ => isTrue trivial
  | fuel + 1, _, _, _, _ =>
    have _ := decidableFine fuel
    inferInstanceAs (Decidable (_ ∧ (_ → _ ∧ ∀ total ∈ contentLength _, _ → _)))

instance [DecidableEq α] (sess : Exchange α) (burst : Str) : Decidable (Steady parse resp behind sess burst) :=
  inferInstanceAs (Decidable (_ → _))

end Condition

section Look

variable {α : Type} (parse : Str → Parsed α) (resp : Response)

theorem head_length : resp.head.length = resp.text.length + 4 := strstr_length _ _ _ _ resp.ends

theorem head_long : 4 < resp.head.length := by
  by_contra short
  have whole : ascii _ = resp.head := resp.starts.eq_of_length_le (Nat.not_lt.mp short)
  have none : strstr httpSep (ascii "HTTP") = none := by decide
  rw [whole, resp.ends] at none
  cases none

theorem sep_found (part mem : Str) : sepEnd (resp.head ++ part ++ mem) = some resp.head.length := by
  rw [sepEnd, List.append_assoc, cstr_append _ _ resp.clean, strstr_append _ _ _ _ resp.ends, Option.map_some,
    head_length]
  rfl

theorem sep_whole (mem : Str) : sepEnd (resp.bytes ++ mem) = some resp.head.length := sep_found resp _ mem

theorem http_starts (received future mem : Str) (whole : received ++ future = resp.bytes) (some : 4 < received.length) :
    (ascii "HTTP").isPrefixOf (received ++ mem) = true := by
  apply is_prefix_of_append
  rw [List.isPrefixOf_iff_prefix]
  apply List.prefix_of_prefix_length_le
  · exact resp.starts.trans (List.prefix_append _ resp.body)
  · rw [← Response.bytes, ← whole]
    exact List.prefix_append _ _
  · exact Nat.le_of_lt some

theorem cut_drop (received mem : Str) (sep : Nat) (there : sep ≤ received.length) (four : 4 ≤ sep) :
    ((overwrite (received ++ mem) (sep - 4) [0]).take received.length).drop sep = received.drop sep := by
  have front : ((received ++ mem).take (sep - 4) ++ [0]).length = sep - 3 := by
    rw [List.length_append, List.length_take, List.length_append, List.length_singleton]
    omega
  have behind : (overwrite (received ++ mem) (sep - 4) [0]).drop sep = (received ++ mem).drop sep := by
    have next : sep - 4 + ([0] : Str).length = sep - 3 := by
      rw [List.length_singleton]
      omega
    calc
      _ = (((received ++ mem).take _ ++ [0] ++ (received ++ mem).drop _).drop (sep - 3)).drop 3 := by
        rw [overwrite, next, List.drop_drop, Nat.sub_add_cancel (by omega)]
      _ = (received ++ mem).drop sep := by
        rw [List.drop_left' front, List.drop_drop, Nat.sub_add_cancel (by omega)]
  rw [List.drop_take, behind, List.drop_append_of_le_length there, List.take_left' (List.length_drop)]

section Separate

variable (received mem : Str) (size sep : Nat) (total : Int)

theorem separate_waits (found : sepEnd (received ++ mem) = some sep) (asks : 0 < total)
    (short : |(received.length : Int) - sep| < total) :
    separate (received ++ mem) received size total = (.cont, received, size) := by
  rw [separate, found]
  dsimp only
  rw [if_pos ⟨asks, short⟩]

theorem separate_takes (found : sepEnd (received ++ mem) = some sep) (there : sep ≤ received.length) (four : 4 ≤ sep)
    (enough : ¬ (0 < total ∧ |(received.length : Int) - sep| < total)) :
    separate (received ++ mem) received size total = (.ok, received.drop sep, size) := by
  have rest : ¬ (0 < total ∧ ((received.drop sep).length : Int) < total) := by
    rintro ⟨asks, short⟩
    apply enough
    refine ⟨asks, ?_⟩
    rw [List.length_drop] at short
    rw [abs_of_nonneg (by omega)]
    omega
  rw [separate, found]
  dsimp only
  rw [if_neg enough, if_pos there, show httpSep.length = 4 from rfl, cut_drop _ mem sep there four, if_neg rest]

end Separate

theorem filter_refuses (received mem : Str) (size : Nat) (http : (ascii "HTTP").isPrefixOf (received ++ mem) = true)
    (many : 4 < received.length) (refuses : Refuses (received ++ mem)) :
    clFilterHttpRsp (received ++ mem) received size = (.err, received, size) := by
  obtain ⟨total, there, out⟩ := refuses
  rw [clFilterHttpRsp, if_neg (Nat.not_le.mpr many), http, if_neg (by decide), Option.mem_def.mp there]
  dsimp only
  rw [if_pos out]

theorem look_filter (received future mem : Str) (size : Nat) (whole : received ++ future = resp.bytes)
    (fine : LookFine parse resp (received ++ mem) received size) :
    (received ≠ resp.bytes ∧ clFilterHttpRsp (received ++ mem) received size = (.cont, received, size) ∧
        (4 < received.length → ¬ FullFine (received ++ mem) received size)) ∨
      (received ≠ resp.bytes ∧ ∃ total ∈ contentLength (received ++ mem), (size : Int) ≤ total ∧
        clFilterHttpRsp (received ++ mem) received size = (.cont, received, increase received size total.toNat)) ∨
      (clFilterHttpRsp (received ++ mem) received size = (.err, received, size) ∧ Refuses resp.bytes) ∨
      clFilterHttpRsp (received ++ mem) received size = (.ok, received.drop resp.head.length, size) ∧
        ¬ Refuses resp.bytes ∧ parse (received.drop resp.head.length) = parse resp.body ∧ parse resp.body ≠ .more := by
  have four : 4 ≤ resp.head.length := Nat.le_of_lt (head_long resp)
  by_cases few : received.length ≤ 4
  · refine .inl ⟨?_, by rw [clFilterHttpRsp, if_pos few], fun some => absurd few (Nat.not_le.mpr some)⟩
    intro all
    have long := head_long resp
    rw [all, Response.bytes, List.length_append] at few
    omega
  · have http := http_starts resp _ _ mem whole (Nat.lt_of_not_le few)
    rcases fine (Nat.lt_of_not_le few) with ⟨own, refuses⟩ | ⟨taken, complete, lines⟩
    · exact .inr (.inr (.inl ⟨filter_refuses _ mem size http (Nat.lt_of_not_le few) refuses, own⟩))
    · have unended (none : sepEnd (received ++ mem) = none) : received ≠ resp.bytes := by
        intro all
        rw [all, sep_whole] at none
        cases none
      rw [clFilterHttpRsp, if_neg few, http, if_neg (by decide)]
      cases found : contentLength _ with
      | none =>
        have nothing (total : Int) : ¬ total ∈ contentLength (received ++ mem) := by
          rw [found]
          exact (nomatch ·)
        cases line : sepEnd _ with
        | none =>
          refine .inl ⟨unended line, by rw [separate, line], ?_⟩
          rintro _ (refuses | ⟨total, there, _⟩ | ⟨sep, there, _⟩)
          · exact taken refuses
          · exact nothing _ there
          · rw [line] at there
            cases there
        | some sep =>
          rcases lines sep line with ⟨total, there, _⟩ | ⟨own, rfl, there, decided⟩
          · exact absurd there (nothing _)
          · exact .inr (.inr (.inr
              ⟨separate_takes _ mem size _ 0 line there four (by simp), own, decided⟩))
      | some total =>
        have single (item : Int) (there : item ∈ contentLength (received ++ mem)) : item = total := by
          rw [found] at there
          exact (Option.some.inj there).symm
        have inside : ¬ (total ≤ 0 ∨ 16384 < total) := fun out => taken ⟨total, found, out⟩
        have positive : 0 < total := Int.not_le.mp fun small => inside (.inl small)
        dsimp only
        rw [if_neg inside]
        by_cases large : (size : Int) ≤ total
        · refine .inr (.inl ⟨?_, total, rfl, large, by rw [if_pos (by omega)]⟩)
          intro all
          have bound := ((complete all).2 _ found).2
          omega
        · rw [if_neg (by omega)]
          cases line : sepEnd _ with
          | none =>
            refine .inl ⟨unended line, by rw [separate, line], ?_⟩
            rintro _ (refuses | ⟨item, there, grows⟩ | ⟨sep, there, _⟩)
            · exact taken refuses
            · exact large (single item there ▸ grows)
            · rw [line] at there
              cases there
          | some sep =>
            by_cases short : |(received.length : Int) - sep| < total
            · refine .inl ⟨?_, separate_waits _ mem size sep _ line positive short, ?_⟩
              · intro all
                have enough := ((complete all).2 _ found).1
                rw [all, sep_whole] at line
                rw [all, ← Option.some.inj line, Response.bytes, List.length_append] at short
                rw [abs_of_nonneg (by omega)] at short
                omega
              · rintro _ (refuses | ⟨item, there, grows⟩ | ⟨other, there, enough⟩)
                · exact taken refuses
                · exact large (single item there ▸ grows)
                · rw [line] at there
                  cases there
                  exact enough ⟨total, found, .inr short⟩
            · rcases lines sep line with ⟨item, there, asks⟩ | ⟨own, rfl, there, decided⟩
              · rw [single item there] at asks
                rcases asks with grows | short
                · exact absurd grows large
                · contradiction
              · exact .inr (.inr (.inr
                  ⟨separate_takes _ mem size _ _ line there four (fun both => short both.2), own, decided⟩))

end Look

end Codec.Client
