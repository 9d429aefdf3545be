import Codec.Ems.Text
import Mathlib.Data.List.TakeDrop

set_option autoImplicit false

namespace Codec.Http

open Codec.Ems List

def httpNewline : Str := [13, 10]
def httpGet : Str := ascii "GET"
def httpPost : Str := ascii "POST"

-- http_header: an entry that was never set is NULL.
structure Header where
  method : Option Str
  param : Option Str
  version : Option Str
  host : Option Str
  userAgent : Option Str
  deriving DecidableEq, Repr

def Header.clear : Header := ⟨none, none, none, none, none⟩

def setRequestKey (hdr : Header) (key val : Str) : Header :=
  if key = ascii "Host" then { hdr with host := some val }
  else if key = ascii "User-Agent" then { hdr with userAgent := some val }
  else hdr

-- Until a line of three parts has been found every line is tried as the
-- request line.
def httpParseLine (hdr : Header) (line : Str) : Header :=
  match hdr.method with
  | none =>
    match stringSplit line (ascii " ") with
    | [method, param, version] => { hdr with method := some method, param := some param, version := some version }
    | _ => hdr
  | some _ =>
    match stringSplit line (ascii ": ") with
    | [key, val] => setRequestKey hdr key val
    | _ => hdr

def headerLines : Nat → Str → List Str
  | 0, _ => []
  | fuel + 1, text =>
    if text = [] then []
    else
      match strstr httpNewline text with
      | some (line, rest) => line :: headerLines fuel rest
      | none => [text]

def headEnd (mem : List UInt8) : Option (Str × Str) := strstr (httpNewline ++ httpNewline) (cstr mem)

-- A line that the core buffer of 8192 bytes cannot take is passed over. The
-- callers have seen that the head is complete.
def headerParse (mem : List UInt8) : Header :=
  match headEnd mem with
  | none => Header.clear
  | some (text, _) =>
    ((headerLines (text.length + 1) text).filter fun line => decide (line.length < 8192)).foldl httpParseLine
      Header.clear

def headerFull (mem : List UInt8) : Bool := (headEnd mem).isSome

def msgIsWeb (mem : List UInt8) : Bool := httpGet.isPrefixOf mem || httpPost.isPrefixOf mem

structure RequestHead (head : Str) : Prop where
  web : msgIsWeb head = true
  ends : ∃ text, strstr (httpNewline ++ httpNewline) head = some (text, [])

theorem msg_is_web_append (head : Str) (more : List UInt8) (web : msgIsWeb head = true) : msgIsWeb (head ++ more) = true := by
  unfold msgIsWeb at web ⊢
  obtain get | post := (Bool.or_eq_true _ _).mp web
  · rw [is_prefix_of_append _ head more get, Bool.true_or]
  · rw [is_prefix_of_append _ head more post, Bool.or_true]

theorem head_end_append (head : Str) (more : List UInt8) (text : Str) (clean : 0 ∉ head)
    (ends : strstr (httpNewline ++ httpNewline) head = some (text, [])) : headEnd (head ++ more) = some (text, cstr more) := by
  rw [headEnd, cstr_append head more clean]
  exact strstr_append _ head text _ ends

theorem header_parse_append (head : Str) (more : List UInt8) (clean : 0 ∉ head) (request : RequestHead head) :
    headerFull (head ++ more) = true ∧ headerParse (head ++ more) = headerParse head := by
  obtain ⟨text, ends⟩ := request.ends
  have here := head_end_append head [] text clean ends
  rw [append_nil] at here
  constructor
  · rw [headerFull, head_end_append head more text clean ends, Option.isSome_some]
  · rw [headerParse, headerParse, head_end_append head more text clean ends, here]

structure Request where
  method : Str
  target : Str
  version : Str
  lines : List Str

variable (first : Str) (rest : List Str) (request : Request) (key : Str)

def Request.line : Str := request.method ++ ([32] ++ (request.target ++ ([32] ++ request.version)))

def Request.text : Str := httpNewline.intercalate (request.line :: request.lines)

def Request.head : Str := request.text ++ (httpNewline ++ httpNewline)

-- A part of the request line: neither empty nor with a space, an end of line or a NUL in it.
def Solid (word : Str) : Prop := word ≠ [] ∧ ∀ byte ∈ word, byte ≠ 0 ∧ byte ≠ 10 ∧ byte ≠ 13 ∧ byte ≠ 32

instance (word : Str) : Decidable (Solid word) :=
  inferInstanceAs (Decidable (word ≠ [] ∧ ∀ byte ∈ word, byte ≠ 0 ∧ byte ≠ 10 ∧ byte ≠ 13 ∧ byte ≠ 32))

structure Request.WellFormed (request : Request) : Prop where
  method : Solid request.method
  target : Solid request.target
  version : Solid request.version
  lines : ∀ line ∈ request.lines, line ≠ [] ∧ ∀ byte ∈ line, byte ≠ 0 ∧ byte ≠ 10 ∧ byte ≠ 13
  size : request.head.length ≤ 8192

def Request.values : List Str :=
  request.lines.filterMap fun line =>
    (strstr (ascii ": ") line).bind fun found => if found.1 = key then some found.2 else none

structure Request.Parsed (request : Request) (hdr : Header) : Prop where
  method : hdr.method = some request.method
  param : hdr.param = some request.target
  version : hdr.version = some request.version
  host : ∀ value ∈ request.values (ascii "Host"), hdr.host = some value
  userAgent : ∀ value ∈ request.values (ascii "User-Agent"), hdr.userAgent = some value

def Request.Plain : Prop :=
  ∀ value ∈ request.values key, value ≠ [] ∧ strstr (ascii ": ") value = none ∧
    ∀ other ∈ request.values key, other = value

instance (request : Request) (key : Str) : Decidable (request.Plain key) :=
  inferInstanceAs (Decidable (∀ value ∈ request.values key, value ≠ [] ∧ strstr (ascii ": ") value = none ∧
    ∀ other ∈ request.values key, other = value))

theorem mem_values (key value : Str) :
    value ∈ request.values key ↔ ∃ line ∈ request.lines, strstr (ascii ": ") line = some (key, value) := by
  simp [Request.values, mem_filterMap, Option.bind_eq_some_iff]

-- What http_parse_line stores under `key` off the pieces of a line.
def pairValue : List Str → Option Str
  | [name, val] => if name = key then some val else none
  | _ => none

def lineValue (key line : Str) : Option Str := pairValue key (stringSplit line (ascii ": "))

def lastValue (lines : List Str) : Option Str := lines.reverse.findSome? (lineValue key)

theorem pair_value_cons (key name value : Str) (tokens : List Str) :
    pairValue key (name :: tokens) = some value ↔ name = key ∧ tokens = [value] := by
  match tokens with
  | [] => simp [pairValue]
  | [val] => simp [pairValue]
  | _ :: _ :: _ => simp [pairValue]

theorem line_value_iff (key line value : Str) (short : key.length < 511) : lineValue key line = some value ↔
    ∃ whole, strstr (ascii ": ") line = some (key, whole) ∧ ((strstr (ascii ": ") whole = none ∧ whole ≠ [] ∧ value = whole) ∨
        ∃ piece, strstr (ascii ": ") whole = some (piece, []) ∧ value = piece.take 511) := by
  have solid : ascii ": " ≠ [] := by decide
  rw [lineValue, stringSplit]
  cases found : strstr _ line with
  | none =>
    rw [(split_loop_last _ line _ found).1]
    by_cases empty : line = []
    · simp [pairValue, empty]
    · simp [pairValue, empty]
  | some parts =>
    obtain ⟨name, whole⟩ := parts
    have size := strstr_length _ line name _ found
    have enough : whole.length < line.length := by
      have two : (ascii ": ").length = 2 := rfl
      omega
    have named : name.take 511 = key ↔ name = key := by
      constructor
      · intro same
        have cut := congrArg length same
        rw [length_take] at cut
        rwa [take_of_length_le (by omega)] at same
      · intro same
        rw [same, take_of_length_le (by omega)]
    rw [(split_loop_found _ line name _ _ found).1]
    rw [pair_value_cons, named, split_loop_single _ _ _ _ solid enough]
    constructor
    · rintro ⟨same, whole⟩
      exact ⟨_, by rw [same], whole⟩
    · rintro ⟨other, same, whole⟩
      cases same
      exact ⟨rfl, whole⟩

theorem http_parse_line_set (hdr : Header) (line : Str) (set : hdr.method.isSome) : httpParseLine hdr line = { hdr with
      host := (lineValue (ascii "Host") line).or hdr.host
      userAgent := (lineValue (ascii "User-Agent") line).or hdr.userAgent } := by
  obtain ⟨method, param, version, host, userAgent⟩ := hdr
  cases method with
  | none => cases set
  | some method =>
    simp only [httpParseLine, lineValue]
    match stringSplit line _ with
    | [] => simp [pairValue]
    | [_] => simp [pairValue]
    | [name, val] =>
      have other : ascii "Host" ≠ ascii "User-Agent" := by decide
      by_cases host : name = ascii "Host"
      · simp [setRequestKey, pairValue, host, other]
      · by_cases agent : name = ascii "User-Agent"
        · simp [setRequestKey, pairValue, agent, other.symm]
        · simp [setRequestKey, pairValue, host, agent]
    | _ :: _ :: _ :: _ => simp [pairValue]

theorem http_parse_lines_set (hdr : Header) (lines : List Str) (set : hdr.method.isSome) : lines.foldl httpParseLine hdr =
      { hdr with
        host := (lastValue (ascii "Host") lines).or hdr.host
        userAgent := (lastValue (ascii "User-Agent") lines).or hdr.userAgent } := by
  induction lines generalizing hdr with
  | nil => simp [lastValue]
  | cons line rest ih =>
    have next : (httpParseLine hdr line).method.isSome := by
      rw [http_parse_line_set hdr line set]
      exact set
    rw [foldl_cons, ih _ next, http_parse_line_set hdr line set]
    simp [lastValue, findSome?_append, Option.or_assoc]

theorem last_value_plain (short : key.length < 511) :
    (∀ value ∈ request.values key, lastValue key request.lines = some value) ↔ request.Plain key := by
  constructor
  · intro whole value member
    have last := whole _ member
    obtain ⟨line, inside, stored⟩ := exists_of_findSome?_eq_some last
    obtain ⟨other, found, kind⟩ := (line_value_iff key line _ short).mp stored
    have same := whole _ ((mem_values _ key _).mpr ⟨line, mem_reverse.mp inside, found⟩)
    rw [last, Option.some.injEq] at same
    have others : ∀ more ∈ request.values key, more = value := by
      intro more there
      have again := whole more there
      rw [last, Option.some.injEq] at again
      exact again.symm
    obtain ⟨absent, solid, _⟩ | ⟨piece, ends, cut⟩ := kind
    · rw [same]
      exact ⟨solid, absent, same ▸ others⟩
    · have size := strstr_length _ _ _ [] ends
      have two : (ascii ": ").length = 2 := rfl
      rw [← same, cut, length_take] at size
      omega
  · intro plain value member
    obtain ⟨solid, absent, others⟩ := plain _ member
    obtain ⟨line, inside, found⟩ := (mem_values _ key _).mp member
    have stored := (line_value_iff key line _ short).mpr ⟨value, found, .inl ⟨absent, solid, rfl⟩⟩
    cases last : lastValue key _ with
    | none =>
      have missing := findSome?_eq_none_iff.mp last line (mem_reverse.mpr inside)
      rw [stored] at missing
      cases missing
    | some kept =>
      obtain ⟨other, there, stored⟩ := exists_of_findSome?_eq_some last
      obtain ⟨whole, found, kind⟩ := (line_value_iff key _ kept short).mp stored
      have same := others _ ((mem_values _ key _).mpr ⟨other, mem_reverse.mp there, found⟩)
      obtain ⟨_, _, kept⟩ | ⟨piece, split, _⟩ := kind
      · rw [kept, same]
      · rw [same, absent] at split
        cases split

theorem header_lines_eq (fuel : Nat) (clean : ∀ line ∈ first :: rest, line ≠ [] ∧ 13 ∉ line)
    (enough : (httpNewline.intercalate (first :: rest)).length < fuel) :
    headerLines fuel (httpNewline.intercalate (first :: rest)) = first :: rest := by
  induction rest generalizing first fuel with
  | nil =>
    obtain _ | fuel := fuel
    · exact absurd enough (Nat.not_lt_zero _)
    obtain ⟨solid, without⟩ := clean _ mem_cons_self
    rw [intercalate_singleton, headerLines, if_neg solid, httpNewline, strstr_clean 13 [10] _ without]
  | cons second rest ih =>
    obtain _ | fuel := fuel
    · exact absurd enough (Nat.not_lt_zero _)
    obtain ⟨solid, without⟩ := clean _ mem_cons_self
    rw [intercalate_cons_cons, append_assoc] at enough ⊢
    have other : first ++ (httpNewline ++ httpNewline.intercalate (second :: rest)) ≠ [] := by simp [solid]
    simp only [length_append] at enough
    rw [headerLines, if_neg other, httpNewline, strstr_absent 13 [10] _ _ without]
    simp only [cons.injEq, true_and]
    exact ih _ fuel (fun line member => clean line (mem_cons_of_mem _ member)) (by
      simp only [httpNewline, length_cons] at enough ⊢
      omega)

theorem strstr_next_line (byte : UInt8) (hay : Str) (other : byte ≠ 13) : strstr [13, 10, 13, 10] (13 :: 10 :: byte :: hay) =
      (strstr [13, 10, 13, 10] (byte :: hay)).map fun found => (13 :: 10 :: found.1, found.2) := by
  have away : ¬ [13, 10, 13, 10].isPrefixOf (13 :: 10 :: byte :: hay) = true := by simp [other.symm]
  have skip := strstr_skip 13 [10, 13, 10] [10] (byte :: hay) (by decide)
  rw [singleton_append] at skip
  rw [strstr_cons, if_neg away, skip, Option.map_map]
  rfl

theorem head_ends (clean : ∀ line ∈ first :: rest, line ≠ [] ∧ 13 ∉ line) :
    strstr [13, 10, 13, 10] (httpNewline.intercalate (first :: rest) ++ [13, 10, 13, 10]) =
      some (httpNewline.intercalate (first :: rest), []) := by
  induction rest generalizing first with
  | nil =>
    have without := (clean _ mem_cons_self).2
    have found := strstr_absent 13 [10, 13, 10] _ [] without
    rw [append_nil] at found
    rw [intercalate_singleton]
    exact found
  | cons second rest ih =>
    have without := (clean _ mem_cons_self).2
    have later := ih _ fun line member => clean line (mem_cons_of_mem _ member)
    obtain ⟨solid, other⟩ := clean _ (mem_cons_of_mem _ mem_cons_self)
    obtain ⟨byte, tail, start⟩ := exists_cons_of_ne_nil solid
    have next : byte ≠ 13 := fun same => other (start ▸ same ▸ mem_cons_self)
    rw [start, intercalate_cons_cons_left, cons_append] at later
    have behind := strstr_next_line byte (httpNewline.intercalate (tail :: rest) ++ [13, 10, 13, 10]) next
    have skip := strstr_skip 13 [10, 13, 10] _
      (13 :: 10 :: byte :: (httpNewline.intercalate (tail :: rest) ++ [13, 10, 13, 10])) without
    rw [behind, later] at skip
    simpa [start, httpNewline] using skip

theorem mem_text (byte : UInt8)
    (member : byte ∈ httpNewline.intercalate (first :: rest)) : byte ∈ httpNewline ∨ ∃ line ∈ first :: rest, byte ∈ line := by
  induction rest generalizing first with
  | nil => exact .inr ⟨first, mem_cons_self, by simpa using member⟩
  | cons second rest ih =>
    rw [intercalate_cons_cons, append_assoc, mem_append, mem_append] at member
    obtain here | newline | later := member
    · exact .inr ⟨first, mem_cons_self, here⟩
    · exact .inl newline
    · obtain newline | ⟨line, inside, there⟩ := ih _ later
      · exact .inl newline
      · exact .inr ⟨line, mem_cons_of_mem _ inside, there⟩

theorem line_length (line : Str) (member : line ∈ first :: rest) :
    line.length ≤ (httpNewline.intercalate (first :: rest)).length := by
  induction rest generalizing first with
  | nil =>
    rw [mem_singleton] at member
    simp [member]
  | cons second rest ih =>
    rw [intercalate_cons_cons, length_append, length_append]
    obtain here | later := mem_cons.mp member
    · rw [here]
      omega
    · have bound := ih _ later
      omega

theorem split_words (method target version : Str) (solid : Solid method ∧ Solid target ∧ Solid version) :
    stringSplit (method ++ ([32] ++ (target ++ ([32] ++ version)))) (ascii " ") =
      [method.take 511, target.take 511, version] := by
  obtain ⟨one, two, three⟩ := solid
  have first := strstr_absent 32 [] _ (target ++ ([32] ++ version)) fun there => (one.2 32 there).2.2.2 rfl
  have second := strstr_absent 32 [] _ version fun there => (two.2 32 there).2.2.2 rfl
  have third := strstr_clean 32 [] _ fun there => (three.2 32 there).2.2.2 rfl
  obtain ⟨fuel, enough⟩ : ∃ fuel, (method ++ ([32] ++ (target ++ ([32] ++ version)))).length + 1 = fuel + 3 := by
    refine ⟨method.length + target.length + version.length, ?_⟩
    simp only [length_append, length_singleton]
    omega
  rw [stringSplit, enough, show ascii " " = [32] from rfl, (split_loop_found _ _ _ _ _ first).1,
    (split_loop_found _ _ _ _ _ second).1, (split_loop_last _ _ _ third).1, if_neg three.1]

theorem Request.WellFormed.clean (wellFormed : request.WellFormed) (line : Str)
    (member : line ∈ request.line :: request.lines) : line ≠ [] ∧ ∀ byte ∈ line, byte ≠ 0 ∧ byte ≠ 13 := by
  obtain first | later := mem_cons.mp member
  · rw [first]
    refine ⟨by simp [Request.line, wellFormed.method.1], fun byte inside => ?_⟩
    simp only [Request.line, mem_append, mem_singleton] at inside
    obtain method | space | target | space | version := inside
    · exact ⟨(wellFormed.method.2 byte method).1, (wellFormed.method.2 byte method).2.2.1⟩
    · rw [space]
      decide
    · exact ⟨(wellFormed.target.2 byte target).1, (wellFormed.target.2 byte target).2.2.1⟩
    · rw [space]
      decide
    · exact ⟨(wellFormed.version.2 byte version).1, (wellFormed.version.2 byte version).2.2.1⟩
  · obtain ⟨solid, bytes⟩ := wellFormed.lines line later
    exact ⟨solid, fun byte inside => ⟨(bytes byte inside).1, (bytes byte inside).2.2⟩⟩

theorem header_parse_well_formed (more : List UInt8) (wellFormed : request.WellFormed) :
    headerParse (request.head ++ more) =
      { method := some (request.method.take 511)
        param := some (request.target.take 511)
        version := some request.version
        host := lastValue (ascii "Host") request.lines
        userAgent := lastValue (ascii "User-Agent") request.lines } := by
  have clean := wellFormed.clean
  have solid : ∀ line ∈ request.line :: request.lines, line ≠ [] ∧ 13 ∉ line := fun line member =>
    ⟨(clean line member).1, fun there => ((clean line member).2 13 there).2 rfl⟩
  have plain : 0 ∉ request.head := by
    intro there
    rw [Request.head, mem_append] at there
    obtain text | ending := there
    · obtain newline | ⟨line, member, inside⟩ := mem_text _ _ 0 text
      · exact absurd newline (by decide)
      · exact ((clean line member).2 0 inside).1 rfl
    · exact absurd ending (by decide)
  have ends := head_end_append _ more _ plain (head_ends _ _ solid)
  have short : ∀ line ∈ request.line :: request.lines, decide (line.length < 8192) = true := by
    intro line member
    have bound := line_length _ _ line member
    have size := wellFormed.size
    rw [Request.head, length_append] at size
    rw [Request.text] at size
    have four : (httpNewline ++ httpNewline).length = 4 := rfl
    exact decide_eq_true (by omega)
  have words := split_words _ _ _
    ⟨wellFormed.method, wellFormed.target, wellFormed.version⟩
  have first : httpParseLine Header.clear request.line =
      ⟨some (request.method.take 511), some (request.target.take 511), some request.version, none, none⟩ := by
    simp only [httpParseLine, Header.clear, Request.line, words]
  rw [headerParse, ends]
  dsimp only
  rw [header_lines_eq _ _ _ solid (Nat.lt_succ_self _), filter_eq_self.mpr short,
    foldl_cons, first, http_parse_lines_set _ _ rfl]
  simp

theorem header_parse_iff (request : Request) (more : List UInt8) (wellFormed : request.WellFormed) :
    request.Parsed (headerParse (request.head ++ more)) ↔
      request.method.length ≤ 511 ∧ request.target.length ≤ 511 ∧ request.Plain (ascii "Host") ∧
        request.Plain (ascii "User-Agent") := by
  rw [header_parse_well_formed _ more wellFormed]
  have whole : ∀ word : Str, some (word.take 511) = some word ↔ word.length ≤ 511 := by
    intro word
    rw [Option.some.injEq]
    exact take_eq_self_iff word
  constructor
  · intro parsed
    exact ⟨(whole _).mp parsed.method, (whole _).mp parsed.param,
      (last_value_plain _ _ (by decide)).mp parsed.host,
      (last_value_plain _ _ (by decide)).mp parsed.userAgent⟩
  · rintro ⟨method, target, host, userAgent⟩
    exact {
      method := (whole _).mpr method
      param := (whole _).mpr target
      version := rfl
      host := (last_value_plain _ _ (by decide)).mpr host
      userAgent := (last_value_plain _ _ (by decide)).mpr userAgent }

def sampleRequest (agent : String) : Request where
  method := ascii "GET"
  target := ascii "/"
  version := ascii "HTTP/1.1"
  lines := [ascii "Host: a.b", ascii "Accept: ", ascii agent]

theorem header_parse_sample : (sampleRequest "User-Agent: x y").WellFormed ∧ (sampleRequest "User-Agent: x y").Parsed
      (headerParse ((sampleRequest "User-Agent: x y").head ++ ascii "body")) := by
  have wellFormed : (sampleRequest "User-Agent: x y").WellFormed :=
    ⟨by decide +kernel, by decide +kernel, by decide +kernel, by decide +kernel, by decide +kernel⟩
  exact ⟨wellFormed, (header_parse_iff _ _ wellFormed).mpr
    ⟨by decide, by decide, by decide, by decide⟩⟩

-- The user agent has a second ": " in it, and three pieces are not two.
theorem split_value_lost : (sampleRequest "User-Agent: x (y: z)").WellFormed ∧
    ¬ (sampleRequest "User-Agent: x (y: z)").Parsed (headerParse (sampleRequest "User-Agent: x (y: z)").head) := by
  refine ⟨⟨by decide +kernel, by decide +kernel, by decide +kernel, by decide +kernel, by decide +kernel⟩,
    fun parsed => ?_⟩
  have kept := parsed.userAgent (ascii "x (y: z)") (by decide)
  revert kept
  decide

end Codec.Http
