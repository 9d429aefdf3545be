import Codec.Ctrl.Server

set_option autoImplicit false

namespace Codec.Ctrl

open Codec.Ems List
open Codec.Http (Arrival msgIsWeb)
open Codec.Tunnel (htonl write_numbers)

-- What http_msg_is_web is given when a callback has read everything: as long
-- as 1024 bytes or more are unread a request is taken off the full buffer, and
-- the rest stands in front of what the buffer held.
def look (front : Str) : List Request → Str → Str
  | [], _ => []
  | req :: reqs, unread =>
    if 1024 ≤ unread.length then look (unread.take 1024) reqs (unread.drop req.size)
    else unread ++ front.drop unread.length

def KeepsUp (reqs : List Request) : Prop :=
  ∀ before first second, reqs = before ++ [first, second] → 1024 ≤ first.size + second.size

theorem keeps_up_nil : KeepsUp [] := by
  intro before first second split
  simp at split

theorem keeps_up_one (req : Request) : KeepsUp [req] := by
  intro before first second split
  have sizes := congrArg length split
  simp at sizes

theorem last_two (first second : Request) (reqs : List Request) :
    ∃ before last final, first :: second :: reqs = before ++ [last, final] := by
  induction reqs generalizing first second with
  | nil => exact ⟨[], first, second, rfl⟩
  | cons third reqs ih =>
    obtain ⟨before, last, final, split⟩ := ih _ _
    exact ⟨first :: before, last, final, congrArg _ split⟩

theorem keeps_up_cons (first second : Request) (reqs : List Request) :
    KeepsUp (first :: second :: reqs) ↔ 1024 ≤ (stream (first :: second :: reqs)).length ∧ KeepsUp (second :: reqs) := by
  constructor
  · intro keeps
    constructor
    · obtain ⟨before, last, final, split⟩ := last_two _ _ reqs
      have large := keeps _ last _ split
      rw [split]
      simp only [stream, map_append, flatten_append, length_append, map_cons, map_nil,
        flatten_cons, flatten_nil, length_nil, request_length]
      omega
    · intro before last final split
      exact keeps (first :: before) last _ (congrArg _ split)
  · rintro ⟨large, keeps⟩ before last final split
    cases before with
    | nil =>
      obtain ⟨rfl, rfl, rfl⟩ : first = last ∧ second = final ∧ reqs = [] := by simpa using split
      simpa using large
    | cons _ before => exact keeps _ last _ (cons.inj split).2

structure Holds (input : Buffer) (front unread : Str) : Prop where
  start : input.rd = 0
  size : input.size = 1024
  content : input.content = unread
  behind : input.mem.drop unread.length = front.drop unread.length

variable {input : Buffer} {front unread : Str}

section

variable (holds : Holds input front unread)

include holds

theorem Holds.len : input.len = unread.length := by
  rw [← Buffer.content_length, holds.content]

theorem Holds.wr : input.wr = unread.length := by
  rw [← holds.len, Buffer.len, holds.start]
  rfl

theorem Holds.mem : input.mem.drop input.rd = unread ++ front.drop unread.length := by
  rw [content_drop, holds.content, holds.wr, holds.behind]

theorem Holds.refresh : input.refresh = input := if_neg (by simp [Buffer.trash, holds.start])

theorem Holds.left : input.left = 1024 - unread.length := by
  rw [Buffer.left, ← Buffer.size, holds.size, holds.wr]

theorem Holds.write (got : Str)
    (fits : unread.length + got.length ≤ 1024) : Holds (input.write got) front (unread ++ got) := by
  have room : got.length ≤ input.left := by
    rw [holds.left]
    omega
  have all : got.take _ = got := take_of_length_le room
  obtain ⟨start, _, size⟩ := write_numbers _ got room
  refine ⟨start.trans holds.start, size.trans holds.size, ?_, ?_⟩
  · rw [Buffer.content_write, holds.content, all]
  · have inside : (input.mem.take input.wr ++ got).length = unread.length + got.length := by
      rw [length_append, length_take, Nat.min_eq_left input.bounded, holds.wr]
    simp only [Buffer.write, overwrite, all]
    rw [length_append, ← inside, drop_left' rfl, inside, holds.wr, ← drop_drop, holds.behind,
      drop_drop]

theorem Holds.consume (bytes rest : Str)
    (split : unread = bytes ++ rest) (some : 0 < bytes.length) : Holds (consume input bytes.length) input.mem rest := by
  have len := holds.len
  rw [split, length_append] at len
  obtain ⟨start, _, size, behind⟩ := consume_numbers _ _ holds.start some (by omega)
  have less : input.len - bytes.length = rest.length := by omega
  rw [less] at behind
  refine ⟨start, size.trans holds.size, ?_, behind⟩
  rw [consume_content _ _ (by omega), holds.content, split, drop_left' rfl]

end


structure Live (sess : Sess) (front unread : Str) : Prop where
  opened : sess.opened = true
  other : sess.isWeb = false
  holds : Holds sess.bufIn front unread
  room : unread.length < 1024

def Dead (sess : Sess) : Prop := sess.opened = false ∨ sess.isWeb = true

structure Served (front unread future : Str) (reqs served rest : List Request)
    (before : List (UInt32 × Option Str)) (next : Sess) : Prop where
  split : reqs = served ++ rest
  handled : next.handled = before ++ served.map Request.call
  fits : ∀ req ∈ served, req.Fits
  mistaken : msgIsWeb (look front reqs unread) = true → rest ≠ [] ∧ Dead next
  kept : rest = [] → future = [] → KeepsUp reqs
  goes : (∃ behind more, Live next behind more ∧ more ++ future = stream rest ∧ (future = [] → KeepsUp reqs → rest = [])) ∨
    Dead next ∧ (rest = [] ∨ msgIsWeb (look front reqs unread) = true ∨ ∃ req ∈ reqs, ¬ req.Fits)

theorem after_process (sess : Sess) (done : Processed) (other : sess.isWeb = false)
    (process : ctrlCmdProcess false sess.bufIn = done) : afterProcess sess =
      ⟨done.buf, done.isWeb, done.ret = .ok ∨ done.ret = .cont, sess.handled ++ done.handled.toList⟩ := by
  rw [afterProcess, other, process]

theorem served_nothing (front unread future : Str) (reqs : List Request) (before : List (UInt32 × Option Str))
    (next : Sess) (some : reqs ≠ []) (handled : next.handled = before) (mistaken : msgIsWeb (look front reqs unread) = true → Dead next)
    (goes : (∃ behind more, Live next behind more ∧ more ++ future = stream reqs ∧ future ≠ []) ∨
      Dead next ∧ (msgIsWeb (look front reqs unread) = true ∨ ∃ req ∈ reqs, ¬ req.Fits)) :
    Served front unread future reqs [] reqs before next where
  split := rfl
  handled := by rw [handled, map_nil, append_nil]
  fits := fun _ there => (nomatch there)
  mistaken := fun web => ⟨some, mistaken web⟩
  kept := fun none => absurd none some
  goes := by
    rcases goes with ⟨behind, more, live, split, later⟩ | ⟨dead, why⟩
    · exact .inl ⟨behind, more, live, split, fun none => absurd none later⟩
    · exact .inr ⟨dead, .inr why⟩

theorem idle_round (front : Str) (sess : Sess) (live : Live sess front []) :
    Served front [] [] [] [] [] sess.handled (afterProcess sess) := by
  refine ⟨rfl, ?_, fun _ there => (nomatch there), (nomatch ·), fun _ _ => keeps_up_nil, ?_⟩
  · by_cases web : msgIsWeb (sess.bufIn.mem.drop sess.bufIn.rd) = true
    · rw [after_process sess _ live.other (web_cleared _ web)]
      rfl
    · rw [after_process sess _ live.other (few_wait _ (Bool.eq_false_iff.mpr web) (by rw [live.holds.len]; decide))]
      rfl
  · by_cases web : msgIsWeb (sess.bufIn.mem.drop sess.bufIn.rd) = true
    · rw [after_process sess _ live.other (web_cleared _ web)]
      exact .inr ⟨.inr rfl, .inl rfl⟩
    · rw [after_process sess _ live.other (few_wait _ (Bool.eq_false_iff.mpr web) (by rw [live.holds.len]; decide))]
      exact .inl ⟨front, [], ⟨by simp, rfl, live.holds, live.room⟩, rfl, fun _ _ => rfl⟩

section LastRound

variable (front unread future : Str) (req : Request) (reqs : List Request) (sess : Sess)

theorem all_unread (whole : unread ++ future = stream (req :: reqs)) (none : future = []) :
    req.size + (stream reqs).length = unread.length := by
  rw [none, append_nil] at whole
  rw [whole, stream_cons, length_append, request_length]

theorem waiting_round (live : Live sess front unread) (whole : unread ++ future = stream (req :: reqs))
    (done : Processed) (process : ctrlCmdProcess false sess.bufIn = done) (ret : done.ret = .cont)
    (same : done.buf = sess.bufIn) (other : done.isWeb = false) (none : done.handled = none)
    (short : unread.length < req.size) (not : ¬ msgIsWeb (look front (req :: reqs) unread) = true) :
    Served front unread future (req :: reqs) [] (req :: reqs) sess.handled (afterProcess sess) := by
  rw [after_process sess done live.other process, ret, same, other, none]
  apply served_nothing _ _ _ _ _ _ (by simp) (by simp) fun web => absurd web not
  refine .inl ⟨front, unread, ⟨by simp, rfl, live.holds, live.room⟩, whole, fun none => ?_⟩
  have all := all_unread _ _ req reqs whole none
  omega

theorem taken_round (live : Live sess front unread) (whole : unread ++ future = stream (req :: reqs)) (fits : req.Fits)
    (process : ctrlCmdProcess false sess.bufIn = ctrlCmdProcessOne sess.bufIn req.tag req.size)
    (there : req.size ≤ unread.length) (not : ¬ msgIsWeb (look front (req :: reqs) unread) = true) :
    Served front unread future (req :: reqs) [req] reqs sess.handled (afterProcess sess) := by
  have start : sess.bufIn.content ++ future = req.bytes ++ stream reqs := by rw [live.holds.content, whole, stream_cons]
  have eight : 8 ≤ req.size := Nat.le_add_right _ _
  have room := live.room
  obtain ⟨extent, one⟩ := request_handled _ _ _ req start (by rw [live.holds.len]; exact there)
  obtain ⟨more, split, rest⟩ := prefix_split _ _ _ _ whole (by rw [request_length]; exact there)
  have holds := live.holds.consume _ more split (by rw [request_length]; omega)
  rw [request_length] at holds
  have less : more.length < 1024 := by
    have size := congrArg length split
    rw [length_append] at size
    omega
  rw [after_process sess _ live.other (process.trans one)]
  refine ⟨rfl, rfl, ?_, fun web => absurd web not, ?_, .inl ⟨_, more, ⟨by simp, rfl, holds, less⟩, rest.symm, ?_⟩⟩
  · intro item single
    rw [mem_singleton.mp single]
    exact fits
  · rintro rfl _
    exact keeps_up_one req
  · intro none keeps
    cases reqs with
    | nil => rfl
    | cons second reqs =>
      have full := ((keeps_up_cons req _ reqs).mp keeps).1
      have all := all_unread _ _ req _ whole none
      rw [stream_cons, length_append, request_length] at full
      omega

theorem last_round_cons (live : Live sess front unread) (whole : unread ++ future = stream (req :: reqs)) :
    ∃ served rest, Served front unread future (req :: reqs) served rest sess.handled (afterProcess sess) := by
  have len := live.holds.len
  have seen : look front (req :: reqs) unread = sess.bufIn.mem.drop sess.bufIn.rd := by
    rw [look, if_neg (Nat.not_le.mpr live.room), live.holds.mem]
  have start : sess.bufIn.content ++ future = req.bytes ++ stream reqs := by rw [live.holds.content, whole, stream_cons]
  have eight : 8 ≤ req.size := Nat.le_add_right _ _
  by_cases web : msgIsWeb (sess.bufIn.mem.drop sess.bufIn.rd) = true
  · refine ⟨[], req :: reqs, ?_⟩
    rw [after_process sess _ live.other (web_cleared _ web)]
    apply served_nothing _ _ _ _ _ _ (by simp) (by simp) fun _ => .inr rfl
    exact .inr ⟨.inr rfl, .inl (seen ▸ web)⟩
  · have not : ¬ msgIsWeb _ = true := seen ▸ web
    by_cases few : unread.length < 8
    · have process := few_wait _ (Bool.eq_false_iff.mpr web) (len ▸ few)
      exact ⟨[], _, waiting_round _ _ _ req reqs sess live whole _ process rfl rfl rfl rfl (by omega) not⟩
    · have other : msgIsWeb (htonl req.tag.toNat) = false := by
        rw [← tag_seen _ _ _ req start (by omega)]
        exact Bool.eq_false_iff.mpr web
      have process := request_seen _ _ _ req live.holds.size start other (by omega)
      by_cases large : 1024 ≤ req.size
      · rw [if_pos large] at process
        refine ⟨[], req :: reqs, ?_⟩
        rw [after_process sess _ live.other process]
        apply served_nothing _ _ _ _ _ _ (by simp) (by simp) fun web => absurd web not
        exact .inr ⟨.inl (by simp), .inr ⟨req, mem_cons_self, fun fits => absurd fits.1 (Nat.not_lt.mpr large)⟩⟩
      · rw [if_neg large] at process
        by_cases short : unread.length < req.size
        · rw [if_pos (by omega)] at process
          exact ⟨[], _, waiting_round _ _ _ req reqs sess live whole _ process rfl rfl rfl rfl short not⟩
        · rw [if_neg (by omega)] at process
          exact ⟨[req], reqs, taken_round _ _ _ req reqs sess live whole ⟨Nat.lt_of_not_le large, other⟩
            process (by omega) not⟩

end LastRound

theorem last_round (front unread future : Str) (reqs : List Request) (sess : Sess) (live : Live sess front unread)
    (whole : unread ++ future = stream reqs) :
    ∃ served rest, Served front unread future reqs served rest sess.handled (afterProcess sess) := by
  cases reqs with
  | nil =>
    obtain ⟨rfl, rfl⟩ := append_eq_nil_iff.mp whole
    exact ⟨[], [], idle_round _ sess live⟩
  | cons req reqs => exact last_round_cons _ _ _ req reqs sess live whole

theorem full_round (front unread future : Str) (req : Request) (reqs : List Request) (sess : Sess)
    (other : sess.isWeb = false) (holds : Holds sess.bufIn front (unread.take 1024))
    (full : 1024 ≤ unread.length) (whole : unread ++ future = stream (req :: reqs)) :
    (req.Fits ∧ (afterProcess sess).handled = sess.handled ++ [req.call] ∧
        Live (afterProcess sess) (unread.take 1024) ((unread.take 1024).drop req.size)) ∨
      ¬ req.Fits ∧ (afterProcess sess).handled = sess.handled ∧ Dead (afterProcess sess) := by
  have size : (unread.take 1024).length = 1024 := by
    rw [length_take]
    omega
  have len := holds.len
  have start : sess.bufIn.content ++ (unread.drop 1024 ++ future) = req.bytes ++ stream reqs := by
    rw [holds.content, ← append_assoc, take_append_drop, whole, stream_cons]
  have tag := tag_seen _ _ _ req start (by omega)
  by_cases web : msgIsWeb (sess.bufIn.mem.drop sess.bufIn.rd) = true
  · rw [after_process sess _ other (web_cleared _ web)]
    refine .inr ⟨fun fits => ?_, by simp, .inr rfl⟩
    have not := fits.2
    rw [← tag, web] at not
    cases not
  · have not : msgIsWeb _ = false := tag ▸ Bool.eq_false_iff.mpr web
    have process := request_seen _ _ _ req holds.size start not (by omega)
    by_cases large : 1024 ≤ req.size
    · rw [if_pos large] at process
      rw [after_process sess _ other process]
      refine .inr ⟨fun fits => ?_, by simp, .inl (by simp)⟩
      have small := fits.1
      omega
    · rw [if_neg large, if_neg (by omega)] at process
      obtain ⟨extent, one⟩ := request_handled _ _ _ req start (by omega)
      obtain ⟨more, split, _⟩ := prefix_split _ _ _ _
        (holds.content ▸ start) (by
          rw [request_length]
          omega)
      have eight : 8 ≤ req.size := Nat.le_add_right _ _
      have memory : sess.bufIn.mem = unread.take 1024 := by
        have whole := holds.mem
        have all : sess.bufIn.mem.length = 1024 := holds.size
        have none : front.drop 1024 = [] := by
          apply eq_nil_of_length_eq_zero
          have lengths := congrArg length whole
          rw [holds.start, drop_zero, all, length_append, size] at lengths
          omega
        rw [holds.start, drop_zero, size, none, append_nil] at whole
        exact whole
      have consumed := holds.consume _ more split (by rw [request_length]; omega)
      rw [request_length, memory] at consumed
      have rest : (unread.take 1024).drop req.size = more := by rw [split, drop_left' (request_length req)]
      rw [after_process sess _ other (process.trans one)]
      refine .inl ⟨⟨Nat.lt_of_not_le large, not⟩, by simp, ⟨by simp, rfl, rest ▸ consumed, ?_⟩⟩
      rw [length_drop, size]
      omega

theorem web_loop (fuel : Nat) (sess : Sess) (stream : List Arrival) (web : sess.isWeb = true) :
    (readLoop fuel sess stream).handled = sess.handled ∧ (readLoop fuel sess stream).isWeb = true := by
  induction fuel generalizing sess stream with
  | zero => exact ⟨rfl, web⟩
  | succ fuel ih =>
    have process (buf : Buffer) : afterProcess { sess with bufIn := buf } = ⟨buf.clear, true, true, sess.handled⟩ := by
      simp [afterProcess, ctrlCmdProcess, web]
    rw [readLoop, process]
    split
    · exact ⟨rfl, web⟩
    · exact ⟨rfl, web⟩
    · exact ⟨rfl, rfl⟩
    · split
      · exact ⟨rfl, web⟩
      · exact ih _ _ rfl

theorem dead_callback (sess : Sess) (burst : Str) (dead : Dead sess) :
    (evtCmdCb sess burst).handled = sess.handled ∧ Dead (evtCmdCb sess burst) := by
  rw [evtCmdCb]
  split
  · rename_i opened
    have web : sess.isWeb = true := dead.resolve_left (by simp [opened])
    obtain ⟨handled, still⟩ := web_loop _ sess _ web
    exact ⟨handled, .inr still⟩
  · exact ⟨rfl, dead⟩

theorem Served.cons {front unread future : Str} {req : Request} {reqs served rest : List Request}
    {before : List (UInt32 × Option Str)} {next : Sess} (fits : req.Fits) (full : 1024 ≤ unread.length)
    (whole : unread ++ future = stream (req :: reqs))
    (more : Served (unread.take 1024) (unread.drop req.size) future reqs served rest (before ++ [req.call]) next) :
    Served front unread future (req :: reqs) (req :: served) rest before next := by
  have looked : look front (req :: reqs) unread = look (unread.take 1024) reqs (unread.drop req.size) := by
    rw [look, if_pos full]
  have keeps (none : future = []) : KeepsUp (req :: reqs) ↔ KeepsUp reqs := by
    cases reqs with
    | nil => exact iff_of_true (keeps_up_one req) keeps_up_nil
    | cons second reqs =>
      rw [keeps_up_cons, ← whole, none, append_nil]
      exact and_iff_right full
  refine ⟨by rw [more.split, cons_append], ?_, ?_, looked ▸ more.mistaken, ?_, ?_⟩
  · rw [more.handled, map_cons, append_assoc, singleton_append]
  · intro item there
    rcases mem_cons.mp there with rfl | there
    · exact fits
    · exact more.fits item there
  · exact fun done none => (keeps none).mpr (more.kept done none)
  · rcases more.goes with ⟨behind, unread, live, split, last⟩ | ⟨dead, why⟩
    · exact .inl ⟨behind, unread, live, split, fun none kept => last none ((keeps none).mp kept)⟩
    · refine .inr ⟨dead, ?_⟩
      rw [looked]
      rcases why with done | web | ⟨item, there, unfit⟩
      · exact .inl done
      · exact .inr (.inl web)
      · exact .inr (.inr ⟨item, mem_cons_of_mem _ there, unfit⟩)

theorem loop_serves (reqs : List Request) (fuel : Nat) (sess : Sess) (front unread burst future : Str)
    (live : Live sess front unread) (whole : unread ++ burst ++ future = stream reqs) (enough : burst.length < fuel) :
    ∃ served rest, Served front (unread ++ burst) future reqs served rest sess.handled
      (readLoop fuel sess (burst.map .byte)) := by
  induction reqs generalizing fuel sess front unread burst with
  | nil =>
    obtain ⟨fuel, rfl⟩ : ∃ less, fuel = less + 1 := ⟨fuel - 1, by omega⟩
    obtain ⟨both, _⟩ := append_eq_nil_iff.mp whole
    obtain ⟨rfl, rfl⟩ := append_eq_nil_iff.mp both
    have short : ([] : Str).length < sess.bufIn.left := by
      rw [live.holds.left]
      decide
    rw [readLoop, live.holds.refresh, Http.sock_read_bytes, if_pos short]
    exact last_round _ _ _ [] { sess with bufIn := sess.bufIn.write [] }
      ⟨live.opened, live.other, live.holds.write [] (by decide), by decide⟩ whole
  | cons req reqs ih =>
    obtain ⟨fuel, rfl⟩ : ∃ less, fuel = less + 1 := ⟨fuel - 1, by omega⟩
    have room := live.room
    rw [readLoop, live.holds.refresh, Http.sock_read_bytes, live.holds.left]
    by_cases short : burst.length < 1024 - unread.length
    · rw [if_pos short]
      exact last_round _ _ _ _ { sess with bufIn := sess.bufIn.write _ }
        ⟨live.opened, live.other, live.holds.write burst (by omega), by rw [length_append]; omega⟩ whole
    · rw [if_neg short]
      have full : 1024 ≤ (unread ++ burst).length := by
        rw [length_append]
        omega
      have filled : (unread ++ burst).take 1024 = unread ++ burst.take (1024 - unread.length) := by
        rw [take_append, take_of_length_le (Nat.le_of_lt room)]
      have some : burst.take (1024 - unread.length) ≠ [] := by
        intro none
        have lengths := congrArg length none
        rw [length_take, length_nil] at lengths
        omega
      have holds := live.holds.write (burst.take (1024 - unread.length)) (by rw [length_take]; omega)
      rw [← filled] at holds
      dsimp only
      rw [if_neg some]
      generalize made : ({ sess with bufIn := sess.bufIn.write _ } : Sess) = input
      have other : input.isWeb = false := by rw [← made]; exact live.other
      have same : input.handled = sess.handled := by rw [← made]
      have held : input.bufIn = sess.bufIn.write (burst.take (1024 - unread.length)) := by rw [← made]
      rw [← held] at holds
      rcases full_round _ _ _ req reqs _ other holds full whole with
        ⟨fits, handled, next⟩ | ⟨unfit, handled, dead⟩
      · rw [if_pos next.opened]
        have behind : ((unread ++ burst).take 1024).drop req.size ++ burst.drop (1024 - unread.length) =
            (unread ++ burst).drop req.size := by
          have small := fits.1
          have rest : burst.drop (1024 - unread.length) = (unread ++ burst).drop 1024 := by
            rw [drop_append, drop_of_length_le (Nat.le_of_lt room), nil_append]
          have size : ((unread ++ burst).take 1024).length = 1024 := by
            rw [length_take]
            omega
          rw [rest, ← drop_append_of_le_length (by omega), take_append_drop]
        have remaining : (unread ++ burst).drop req.size ++ future = stream reqs := by
          have small := fits.1
          rw [← drop_append_of_le_length (by omega), whole, stream_cons, drop_left' (request_length req)]
        obtain ⟨served, rest, more⟩ := ih fuel _ _ _ _ next
          (by rw [behind, remaining]) (by rw [length_drop]; omega)
        rw [behind, handled, same] at more
        exact ⟨req :: served, rest, more.cons fits full whole⟩
      · have after (next : Sess) (handled : next.handled = sess.handled) (dead : Dead next) :
            Served front (unread ++ burst) future _ [] (req :: reqs) _ next :=
          served_nothing _ _ _ _ _ _ (by simp) handled (fun _ => dead)
            (.inr ⟨dead, .inr ⟨req, mem_cons_self, unfit⟩⟩)
        refine ⟨[], req :: reqs, ?_⟩
        split
        · rename_i still
          have web : (afterProcess _).isWeb = true := dead.resolve_left (by simp [still])
          obtain ⟨kept, stays⟩ := web_loop fuel _ _ web
          exact after _ (kept.trans (handled.trans same)) (.inr stays)
        · exact after _ (handled.trans same) dead

end Codec.Ctrl
