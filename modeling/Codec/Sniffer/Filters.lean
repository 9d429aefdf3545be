import Codec.Ems.Text
import Codec.Sniffer.Core
import Codec.Lib.Decimal

set_option autoImplicit false

namespace Codec.Sniffer.Filters

open Codec.Ems Codec.Lib List

-- struct in_addr, in the order it is written down.
structure Addr where
  a : UInt8
  b : UInt8
  c : UInt8
  d : UInt8
deriving DecidableEq, Repr

def inetNtoa (addr : Addr) : Str :=
  digitText addr.a.toNat ++ 46 :: (digitText addr.b.toNat ++ 46 :: (digitText addr.c.toNat ++ 46 :: digitText addr.d.toNat))

-- The text in the buffer at buf_rd, and the `left` of the running pointer; once
-- that is negative snprintf takes it for a size without an end.
structure Filling where
  text : Str
  left : Int
  overrun : Bool
deriving DecidableEq, Repr

def Filling.print (buf : Filling) (piece : Str) : Filling :=
  if buf.left < 0 then { buf with left := buf.left - piece.length, overrun := true }
  else { buf with text := buf.text ++ piece.take (buf.left.toNat - 1), left := buf.left - piece.length }

def capUpdateFilters (answer : Addr) (next : List Addr) : Filling :=
  let buf := (⟨[], 2048, false⟩ : Filling).print (ascii "not ((host " ++ inetNtoa answer)
  let buf := next.foldl (fun buf curr => buf.print (ascii "or host " ++ inetNtoa curr)) buf
  buf.print (ascii ") and tcp)")

-- What each branch prints; the third one, of a filter alone, takes the text of
-- the excepted filter too, which is a null pointer then.
def filtersText (excepted filter : Str) : Option Str :=
  if excepted ≠ [] ∧ filter ≠ [] then some (ascii "(" ++ excepted ++ ascii ") and (" ++ filter ++ ascii ")")
  else if excepted ≠ [] then some excepted
  else if filter ≠ [] then some (ascii "(null)")
  else none

def coreRoom : Nat := 8192

def capBuildFilters (excepted filter : Str) : Option Str := (filtersText excepted filter).map fun text => text.take (coreRoom - 1)

inductive Token where
  | lpar | rpar | not | and | or | host | tcp
  | word (text : Str)
deriving DecidableEq, Repr

def keyword (word : Str) : Token :=
  if word = ascii "not" then .not else if word = ascii "and" then .and else if word = ascii "or" then .or
  else if word = ascii "host" then .host else if word = ascii "tcp" then .tcp else .word word

def flush (word : Str) : List Token := if word = [] then [] else [keyword word]

-- Words end at blanks and parentheses; `word` is the one under way.
def lex (word : Str) : Str → List Token
  | [] => flush word
  | char :: rest =>
    if char = 32 then flush word ++ lex [] rest
    else if char = 40 then flush word ++ .lpar :: lex [] rest
    else if char = 41 then flush word ++ .rpar :: lex [] rest
    else lex (word ++ [char]) rest

inductive Expr where
  | host (addr : Str)
  | tcp
  | not (inner : Expr)
  | and (left right : Expr)
  | or (left right : Expr)
deriving DecidableEq, Repr

-- An operand to come: what it is joined to on its left, and how often it is
-- negated.
structure Slot where
  join : Option (Expr → Expr)
  nots : Nat

def Slot.fill (slot : Slot) (operand : Expr) : Expr :=
  let negated := Expr.not^[slot.nots] operand
  slot.join.elim negated fun join => join negated

-- The grammar of pcap: `not` binds most, `and` and `or` alike, to the left.
-- `outer` are the slots of the parentheses that are open.
inductive Parser where
  | operand (slot : Slot) (outer : List Slot)
  | address (slot : Slot) (outer : List Slot)
  | operator (value : Expr) (outer : List Slot)

def Parser.step : Parser → Token → Option Parser
  | .operand slot outer, .not => some (.operand { slot with nots := slot.nots + 1 } outer)
  | .operand slot outer, .lpar => some (.operand ⟨none, 0⟩ (slot :: outer))
  | .operand slot outer, .host => some (.address slot outer)
  | .operand slot outer, .tcp => some (.operator (slot.fill .tcp) outer)
  | .address slot outer, .word addr => some (.operator (slot.fill (.host addr)) outer)
  | .operator value outer, .and => some (.operand ⟨some (.and value), 0⟩ outer)
  | .operator value outer, .or => some (.operand ⟨some (.or value), 0⟩ outer)
  | .operator value (slot :: outer), .rpar => some (.operator (slot.fill value) outer)
  | _, _ => none

def Parser.run : Parser → List Token → Option Parser
  | state, [] => some state
  | state, token :: rest => (state.step token).bind fun next => next.run rest

def parse (text : Str) : Option Expr :=
  match (Parser.operand ⟨none, 0⟩ []).run (lex [] text) with
  | some (.operator value []) => some value
  | _ => none

def serversExpr (answer : Addr) (next : List Addr) : Expr :=
  next.foldl (fun hosts curr => .or hosts (.host (inetNtoa curr))) (.host (inetNtoa answer))

structure UserFilter where
  text : Str
  expr : Expr
  parsed : parse text = some expr

def wanted (answer : Addr) (next : List Addr) (user : Option UserFilter) : Expr :=
  let excepted := Expr.not (.and (serversExpr answer next) .tcp)
  user.elim excepted fun filter => .and excepted filter.expr

structure FiltersRight (answer : Addr) (next : List Addr) (user : Option UserFilter) : Prop where
  excepted : (capUpdateFilters answer next).overrun = false ∧ 0 < (capUpdateFilters answer next).left
  whole : capBuildFilters (capUpdateFilters answer next).text (user.elim [] UserFilter.text) =
    filtersText (capUpdateFilters answer next).text (user.elim [] UserFilter.text)
  parsed : (capBuildFilters (capUpdateFilters answer next).text (user.elim [] UserFilter.text)).bind parse = some (wanted answer next user)

section Run

variable (state : Parser) (first rest : List Token)

def Parser.under (outer : List Slot) : Parser → Parser
  | .operand slot inner => .operand slot (inner ++ outer)
  | .address slot inner => .address slot (inner ++ outer)
  | .operator value inner => .operator value (inner ++ outer)

theorem run_append : state.run (first ++ rest) = (state.run first).bind fun next => next.run rest := by
  induction first generalizing state with
  | nil => rfl
  | cons token first ih =>
    rw [cons_append, Parser.run, Parser.run, Option.bind_assoc]
    exact Option.bind_congr fun next _ => ih next

theorem step_under (token : Token) (next : Parser) (outer : List Slot) (steps : state.step token = some next) :
    (state.under outer).step token = some (next.under outer) := by
  cases state with
  | operand slot inner => cases token <;> cases steps <;> rfl
  | address slot inner =>
    cases token <;> cases steps
    rfl
  | operator value inner =>
    cases token <;> cases inner <;> cases steps <;> rfl

theorem run_under (tokens : List Token) (last : Parser) (outer : List Slot) (runs : state.run tokens = some last) :
    (state.under outer).run tokens = some (last.under outer) := by
  induction tokens generalizing state with
  | nil => rw [Option.some.inj runs, Parser.run]
  | cons token rest ih =>
    obtain ⟨next, steps, onward⟩ := Option.bind_eq_some_iff.mp runs
    rw [Parser.run, step_under _ _ next _ steps]
    exact ih next onward

end Run

theorem lex_plain (word text rest : Str) (plain : ∀ char ∈ text, 41 < char.toNat) : lex word (text ++ rest) = lex (word ++ text) rest := by
  induction text generalizing word with
  | nil => rw [append_nil, nil_append]
  | cons char text ih =>
    have high := plain char mem_cons_self
    have other (byte : UInt8) (low : byte.toNat ≤ 41) : char ≠ byte := fun same => absurd (same ▸ high) (Nat.not_lt.mpr low)
    rw [cons_append, lex, if_neg (other 32 (by decide)), if_neg (other 40 (by decide)), if_neg (other 41 (by decide)),
      ih _ fun char there => plain char (mem_cons_of_mem _ there), append_assoc, singleton_append]

theorem lex_close (word text rest : Str) : lex word (text ++ 41 :: rest) = lex word text ++ .rpar :: lex [] rest := by
  induction text generalizing word with
  | nil => rw [nil_append, lex, lex, if_neg (by decide), if_neg (by decide), if_pos rfl]
  | cons char text ih =>
    rw [cons_append, lex, lex]
    split
    · rw [ih, append_assoc]
    split
    · rw [ih, append_assoc, cons_append]
    split
    · rw [ih, append_assoc, cons_append]
    · exact ih _

section Address

variable (addr : Addr)

theorem ntoa_plain (char : UInt8) (there : char ∈ inetNtoa addr) : 41 < char.toNat := by
  have digit (byte : UInt8) (inside : char ∈ digitText byte.toNat) : 41 < char.toNat := by
    have := digit_text_low _ char inside
    omega
  simp only [inetNtoa, mem_append, mem_cons] at there
  rcases there with a | dot | b | dot | c | dot | d
  · exact digit _ a
  · rw [dot]; decide
  · exact digit _ b
  · rw [dot]; decide
  · exact digit _ c
  · rw [dot]; decide
  · exact digit _ d

theorem ntoa_word (behind : Str) : flush (inetNtoa addr ++ behind) = [.word (inetNtoa addr ++ behind)] := by
  have dot : (46 : UInt8) ∈ inetNtoa addr ++ behind := by simp [inetNtoa]
  have other (text : Str) (plain : 46 ∉ text) : inetNtoa addr ++ behind ≠ text := fun same => plain (same ▸ dot)
  rw [flush, if_neg (other [] (by decide)), keyword, if_neg (other _ (by decide)), if_neg (other _ (by decide)), if_neg (other _ (by decide)),
    if_neg (other _ (by decide)), if_neg (other _ (by decide))]

theorem ntoa_length : (inetNtoa addr).length ≤ 15 := by
  have short (byte : UInt8) : (digitText _).length ≤ 3 := digit_text_short _ 255 (Nat.le_of_lt_succ byte.toNat_lt)
  have := short addr.a
  have := short addr.b
  have := short addr.c
  have := short addr.d
  simp only [inetNtoa, length_append, length_cons]
  omega

theorem lex_front (rest : Str) : lex [] (ascii "not ((host " ++ inetNtoa addr ++ rest) = .not :: .lpar :: .lpar :: .host :: lex (inetNtoa addr) rest := by
  have front : lex [] (ascii "not ((host " ++ (inetNtoa addr ++ rest)) = .not :: .lpar :: .lpar :: .host :: lex [] (inetNtoa addr ++ rest) := rfl
  rw [append_assoc, front, lex_plain _ _ _ (ntoa_plain addr), nil_append]

end Address

theorem parse_one (addr : Addr) : parse (ascii "not ((host " ++ inetNtoa addr ++ ascii ") and tcp)") =
    some (.not (.and (.host (inetNtoa addr)) .tcp)) := by
  have back : lex (inetNtoa addr) (ascii ") and tcp)") = flush (inetNtoa addr ++ []) ++ [.rpar, .and, .tcp, .rpar] := by
    rw [append_nil]
    rfl
  rw [parse, lex_front, back, ntoa_word, append_nil]
  rfl

theorem parse_both (left right : Str) (first second : Expr) (one : parse left = some first) (two : parse right = some second) :
    parse (ascii "(" ++ left ++ ascii ") and (" ++ right ++ ascii ")") = some (.and first second) := by
  have whole (text : Str) (value : Expr) (parsed : parse text = some value) :
      (Parser.operand ⟨none, 0⟩ []).run (lex [] text) = some (.operator value []) := by
    rw [parse] at parsed
    split at parsed
    · rename_i found
      rw [found, Option.some.inj parsed]
    · cases parsed
  have tokens : lex [] (ascii "(" ++ left ++ ascii ") and (" ++ right ++ ascii ")") =
      .lpar :: (lex [] left ++ .rpar :: .and :: .lpar :: (lex [] right ++ [.rpar])) := by
    have front : lex [] (ascii "(" ++ (left ++ 41 :: (ascii _ ++ (right ++ 41 :: [])))) =
        .lpar :: lex [] (left ++ 41 :: (ascii " and (" ++ (right ++ 41 :: []))) := rfl
    have middle : lex [] (ascii " and (" ++ (right ++ 41 :: [])) = .and :: .lpar :: lex [] (right ++ 41 :: []) := rfl
    have same : ascii "(" ++ left ++ ascii ") and (" ++ right ++ ascii ")" =
        ascii "(" ++ (left ++ 41 :: (ascii " and (" ++ (right ++ 41 :: []))) := by simp [ascii]
    rw [same, front, lex_close, middle, lex_close]
    rfl
  have inner : (Parser.operand _ [⟨none, 0⟩]).run _ = some (.operator _ [⟨none, 0⟩]) := run_under _ _ _ _ (whole left _ one)
  have behind : (Parser.operand _ [⟨some _, 0⟩]).run _ = some _ := run_under _ _ _ [⟨some (.and first), 0⟩] (whole _ _ two)
  have after : (Parser.operator _ [⟨none, 0⟩]).run (.rpar :: .and :: .lpar :: (lex [] right ++ [.rpar])) =
      (Parser.operand _ [⟨some (.and first), 0⟩]).run _ := rfl
  have runs : (Parser.operand ⟨none, 0⟩ []).run (.lpar :: (lex [] left ++ .rpar :: .and :: .lpar :: (lex [] right ++ [.rpar]))) =
      some (.operator (.and first second) []) := by
    rw [Parser.run, Parser.step, Option.bind_some, run_append, inner, Option.bind_some, after, run_append, behind]
    rfl
  rw [parse, tokens, runs]

theorem joined_fails (addr : Addr) (rest : Str) (slot : Slot) (outer : List Slot) (behind : List Token) :
    (Parser.operand slot outer).run (lex [] (ascii "not ((host " ++ inetNtoa addr ++ (ascii "or host " ++ rest)) ++ behind) = none := by
  have back : lex _ (ascii "or host " ++ rest) = flush (inetNtoa addr ++ [111] ++ [114]) ++ .host :: lex [] rest := rfl
  rw [lex_front, back, append_assoc, ntoa_word]
  rfl

section Print

variable (buf : Filling)

theorem print_whole (piece : Str) (room : 0 < (buf.print piece).left) :
    0 < buf.left ∧ (buf.print piece).text = buf.text ++ piece ∧ (buf.print piece).overrun = buf.overrun ∧
      (buf.print piece).left = buf.left - piece.length := by
  rw [Filling.print] at room ⊢
  split at room
  · dsimp only at room
    omega
  · rename_i sized
    rw [if_neg sized]
    dsimp only at room ⊢
    rw [take_of_length_le (by omega)]
    exact ⟨by omega, rfl, rfl, rfl⟩

theorem print_room (piece : Str) (room : (piece.length : Int) < buf.left) :
    buf.print piece = ⟨buf.text ++ piece, buf.left - piece.length, buf.overrun⟩ := by
  rw [Filling.print, if_neg (by omega), take_of_length_le (by omega)]

theorem prints_whole (next : List Addr) (room : 0 < (next.foldl (fun buf curr => buf.print (ascii "or host " ++ inetNtoa curr)) buf).left) :
    0 < buf.left ∧ ∃ more, (next.foldl (fun buf curr => buf.print (ascii "or host " ++ inetNtoa curr)) buf).text = buf.text ++ more := by
  induction next generalizing buf with
  | nil => exact ⟨room, [], (append_nil _).symm⟩
  | cons curr next ih =>
    obtain ⟨left, more, text⟩ := ih _ room
    obtain ⟨sized, first, -⟩ := print_whole buf _ left
    refine ⟨sized, ascii "or host " ++ inetNtoa curr ++ more, ?_⟩
    rw [foldl_cons, text, first, append_assoc]

end Print

theorem one_address (answer : Addr) : capUpdateFilters answer [] =
    ⟨ascii "not ((host " ++ inetNtoa answer ++ ascii ") and tcp)", 2048 - (11 + (inetNtoa answer).length : Nat) - 10, false⟩ := by
  have short := ntoa_length answer
  have front : (ascii "not ((host " ++ inetNtoa answer).length = 11 + (inetNtoa answer).length := by rw [length_append]; rfl
  have back : (ascii ") and tcp)").length = 10 := rfl
  have first : (⟨[], 2048, false⟩ : Filling).print (ascii "not ((host " ++ inetNtoa answer) =
      ⟨ascii "not ((host " ++ inetNtoa answer, 2048 - (11 + (inetNtoa answer).length : Nat), false⟩ := by
    rw [print_room _ _ (by rw [front]; dsimp only; omega), front, nil_append]
  rw [capUpdateFilters, foldl_nil, first, print_room _ _ (by rw [back]; dsimp only; omega), back]
  rfl

theorem user_some (user : UserFilter) : user.text ≠ [] := fun none => by
  have parsed := user.parsed
  rw [none] at parsed
  cases parsed

theorem text_with (excepted : Str) (user : UserFilter) (some : excepted ≠ []) :
    filtersText excepted user.text = .some (ascii "(" ++ excepted ++ ascii ") and (" ++ user.text ++ ascii ")") := by
  rw [filtersText, if_pos ⟨some, user_some user⟩]

theorem text_without (excepted : Str) (some : excepted ≠ []) : filtersText excepted [] = .some excepted := by
  rw [filtersText, if_neg (fun both => both.2 rfl), if_pos some]

theorem second_address (answer second : Addr) (next : List Addr) (room : 0 < (capUpdateFilters answer (second :: next)).left) :
    (capUpdateFilters answer (second :: next)).text ≠ [] ∧ ∀ slot outer behind,
      (Parser.operand slot outer).run (lex [] (capUpdateFilters answer (second :: next)).text ++ behind) = none := by
  rw [capUpdateFilters, foldl_cons] at room ⊢
  obtain ⟨left, last, -⟩ := print_whole _ _ room
  obtain ⟨left, more, text⟩ := prints_whole _ next left
  obtain ⟨left, joined, -⟩ := print_whole _ _ left
  obtain ⟨-, first, -⟩ := print_whole _ _ left
  rw [nil_append] at first
  have whole : (((⟨[], 2048, false⟩ : Filling).print (ascii "not ((host " ++ inetNtoa answer)).print (ascii "or host " ++ inetNtoa second) |>
      fun buf => (next.foldl (fun buf curr => buf.print (ascii "or host " ++ inetNtoa curr)) buf).print (ascii ") and tcp)")).text =
      ascii "not ((host " ++ inetNtoa answer ++ (ascii "or host " ++ (inetNtoa second ++ (more ++ ascii ") and tcp)"))) := by
    rw [last, text, joined, first]
    simp only [append_assoc]
  rw [whole]
  refine ⟨fun none => ?_, fun slot outer behind => joined_fails _ _ slot _ _⟩
  exact absurd (append_eq_nil_iff.mp (append_eq_nil_iff.mp none).1).1 (by decide)

theorem filters_right_iff (answer : Addr) (next : List Addr) (user : Option UserFilter) : FiltersRight answer next user ↔
    next = [] ∧ ∀ filter ∈ user, (inetNtoa answer).length + filter.text.length + 30 < coreRoom := by
  have long (user : UserFilter) : (ascii "(" ++ (ascii "not ((host " ++ inetNtoa answer ++ ascii ") and tcp)") ++ ascii ") and (" ++ user.text ++ ascii ")").length =
      (inetNtoa answer).length + user.text.length + 30 := by
    simp only [length_append]
    have lengths : (ascii "(").length = 1 ∧ (ascii "not ((host ").length = 11 ∧ (ascii ") and tcp)").length = 10 ∧ (ascii ") and (").length = 7 ∧
        (ascii ")").length = 1 := ⟨rfl, rfl, rfl, rfl, rfl⟩
    omega
  have some : ascii "not ((host " ++ inetNtoa answer ++ ascii ") and tcp)" ≠ [] := fun none =>
    absurd (append_eq_nil_iff.mp (append_eq_nil_iff.mp none).1).1 (by decide)
  constructor
  · rintro ⟨⟨-, room⟩, whole, parsed⟩
    rw [whole] at parsed
    cases next with
    | cons second next =>
      obtain ⟨some, fails⟩ := second_address _ _ next room
      cases user with
      | none =>
        rw [Option.elim_none, text_without _ some, Option.bind_some, parse] at parsed
        have nothing := fails ⟨none, 0⟩ [] []
        rw [append_nil] at nothing
        rw [nothing] at parsed
        cases parsed
      | some user =>
        rw [Option.elim_some, text_with _ user some, Option.bind_some, parse] at parsed
        generalize (capUpdateFilters _ _).text = text at parsed fails
        have same : ascii "(" ++ text ++ ascii ") and (" ++ user.text ++ ascii ")" =
            ascii "(" ++ (text ++ 41 :: (ascii " and (" ++ user.text ++ ascii ")")) := by simp [ascii]
        have tokens : lex [] (ascii "(" ++ (text ++ 41 :: (ascii " and (" ++ user.text ++ ascii ")"))) =
            .lpar :: (lex [] text ++ .rpar :: lex [] (ascii " and (" ++ user.text ++ ascii ")")) := by
          rw [← lex_close]
          rfl
        rw [same, tokens, Parser.run, Parser.step, Option.bind_some, fails] at parsed
        cases parsed
    | nil =>
      refine ⟨rfl, fun filter there => ?_⟩
      cases there
      rw [one_address, Option.elim_some, capBuildFilters, text_with _ _ some, Option.map_some] at whole
      have cut := congrArg length (Option.some.inj whole)
      rw [length_take, long] at cut
      omega
  · rintro ⟨rfl, short⟩
    have brief := ntoa_length answer
    have room : coreRoom = 8192 := rfl
    have built : capBuildFilters (capUpdateFilters answer []).text (user.elim [] UserFilter.text) =
        filtersText (capUpdateFilters answer []).text (user.elim [] UserFilter.text) ∧
        (filtersText (capUpdateFilters answer []).text (user.elim [] UserFilter.text)).bind parse = .some (wanted answer [] user) := by
      rw [one_address]
      cases user with
      | none =>
        have lengths : (ascii "not ((host ").length = 11 ∧ (ascii ") and tcp)").length = 10 := ⟨rfl, rfl⟩
        rw [Option.elim_none, capBuildFilters, text_without _ some, Option.map_some,
          take_of_length_le (by simp only [length_append]; omega)]
        exact ⟨rfl, parse_one _⟩
      | some user =>
        have fits := short user rfl
        rw [Option.elim_some, capBuildFilters, text_with _ user some, Option.map_some, take_of_length_le (by rw [long]; omega)]
        exact ⟨rfl, parse_both _ _ _ _ (parse_one _) user.parsed⟩
    exact ⟨by rw [one_address]; exact ⟨rfl, by dsimp only; omega⟩, built.1, built.1 ▸ built.2⟩

-- not ((host 10.0.0.1or host 10.0.0.2) and tcp)
theorem two_addresses_unparsed : ¬ FiltersRight ⟨10, 0, 0, 1⟩ [⟨10, 0, 0, 2⟩] none := by
  have parsed : (capBuildFilters (capUpdateFilters ⟨10, 0, 0, 1⟩ [⟨10, 0, 0, 2⟩]).text []).bind parse = none := by decide
  exact fun right => nomatch parsed.symm.trans right.parsed

end Codec.Sniffer.Filters
