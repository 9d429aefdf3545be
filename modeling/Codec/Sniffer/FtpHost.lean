import Codec.Sniffer.Core
import Codec.Sniffer.Filters

set_option autoImplicit false

namespace Codec.Sniffer.FtpHost

open Codec.Ems Codec.Sniffer.Filters List

-- The pointer behind the first '@', or as it was.
def behindAt (p : Str) : Str :=
  match p.dropWhile fun char => decide (char ≠ 64) with
  | [] => p
  | _ :: q => q

-- server.host, or none for EMS_ERR.
def captureParseServerHostFtp (url : Str) : Option Str :=
  if url = [] then none
  else
    let p := url.take (coreRoom - 1)
    if ¬ ftpHeader.isPrefixOf p then none
    else
      let p := behindAt (p.drop ftpHeader.length)
      let p := p.takeWhile fun char => decide (char ≠ 47)
      some (p.takeWhile fun char => decide (char ≠ 58))

def userText (userInfo : Option Str) : Str := userInfo.elim [] fun user => user ++ [64]

def portText (port : Option Str) : Str := port.elim [] fun digits => 58 :: digits

-- ftp://[user[:password]@]host[:port]/path; userInfo is user[:password].
structure FtpUrl where
  userInfo : Option Str
  host : Str
  port : Option Str
  path : Str
  printable : ∀ char ∈ userText userInfo ++ host ++ path, 32 ≤ char ∧ char ≤ 126
  userClean : 47 ∉ userText userInfo
  hostClean : 64 ∉ host ∧ 58 ∉ host ∧ 47 ∉ host
  hostSolid : host ≠ []
  portDigits : ∀ digits ∈ port, ∀ char ∈ digits, 48 ≤ char ∧ char ≤ 57

namespace FtpUrl

variable (url : FtpUrl)

def front : Str := userText url.userInfo

def back : Str := portText url.port ++ 47 :: url.path

def text : Str := ftpHeader ++ (url.front ++ (url.host ++ url.back))

end FtpUrl

-- What is claimed of a text: its host, or an error or some host.
def HostRight (text : Str) : Prop :=
  (∀ url : FtpUrl, url.text = text → captureParseServerHostFtp text = some url.host) ∧
    ((∀ url : FtpUrl, url.text ≠ text) → captureParseServerHostFtp text ≠ some [])

def FirstAt (before behind : Str) : Prop := (before = [] ∧ 64 ∉ behind) ∨ ∃ user, before = user ++ [64] ∧ 64 ∉ user

def Ends (behind : Str) : Prop := ∀ char ∈ behind.head?, char = 47 ∨ char = 58

-- In as much of the text as the buffer takes, the host stands behind the first
-- '@', or directly behind the header where there is none.
structure Stands (text before host behind : Str) : Prop where
  kept : text.take (coreRoom - 1) = ftpHeader ++ (before ++ (host ++ behind))
  first : FirstAt before (host ++ behind)
  ends : Ends behind

def Hostless (text : Str) : Prop := ∃ before behind, Stands text before [] behind

namespace FtpUrl

variable (url : FtpUrl)

def Plain : Prop :=
  (ftpHeader ++ (url.front ++ url.host)).length < coreRoom ∧
    match url.userInfo with
    | some user => 64 ∉ user
    | none => 64 ∉ url.text.take (coreRoom - 1)

-- The first '@' is another one, and the same host happens to stand behind it.
def Repeated : Prop := ∃ before behind, before ≠ url.front ∧ Stands url.text before url.host behind

end FtpUrl

theorem take_while_iff (test : UInt8 → Bool) (rest host : Str) : rest.takeWhile test = host ↔
      (∀ char ∈ host, test char = true) ∧ ∃ behind, rest = host ++ behind ∧ ∀ char ∈ behind.head?, test char = false := by
  constructor
  · intro same
    subst host
    refine ⟨fun char member => mem_takeWhile_imp member, rest.dropWhile test, takeWhile_append_dropWhile.symm, ?_⟩
    intro char head
    have stopped := head?_dropWhile_not test rest
    rw [Option.mem_def.mp head] at stopped
    exact stopped
  · intro ⟨passed, behind, same, stopped⟩
    rw [same, takeWhile_append_of_pos passed]
    cases behind with
    | nil => rw [takeWhile_nil, append_nil]
    | cons char tail =>
      have stop : ¬ test char = true := by rw [stopped char rfl]; exact Bool.false_ne_true
      rw [takeWhile_cons_of_neg stop, append_nil]

theorem behind_at_absent (p : Str) (absent : 64 ∉ p) : behindAt p = p := by
  have nothing : p.dropWhile (fun char => decide (char ≠ 64)) = [] :=
    dropWhile_eq_nil_iff.mpr fun char member => decide_eq_true fun same => absent (same ▸ member)
  rw [behindAt, nothing]

theorem behind_at_first (user behind : Str) (clean : 64 ∉ user) : behindAt (user ++ 64 :: behind) = behind := by
  have passed : ∀ char ∈ user, decide (char ≠ 64) = true := fun char member =>
    decide_eq_true fun same => clean (same ▸ member)
  rw [behindAt, dropWhile_append_of_pos passed, dropWhile_cons_of_neg (by decide)]

theorem behind_at_iff (p behind : Str) : behindAt p = behind ↔ ∃ before, p = before ++ behind ∧ FirstAt before behind := by
  constructor
  · intro same
    by_cases found : 64 ∈ p
    · obtain ⟨user, rest, split, clean⟩ := eq_append_cons_of_mem found
      rw [split, behind_at_first user rest clean] at same
      refine ⟨user ++ [64], ?_, .inr ⟨user, rfl, clean⟩⟩
      rw [split, same, append_assoc]
      rfl
    · rw [behind_at_absent p found] at same
      exact ⟨[], same, .inl ⟨rfl, same ▸ found⟩⟩
  · rintro ⟨before, split, ⟨empty, absent⟩ | ⟨user, ends, clean⟩⟩
    · rw [split, empty, nil_append, behind_at_absent _ absent]
    · rw [split, ends, append_assoc]
      exact behind_at_first user _ clean

theorem parse_kept (text rest : Str) (kept : text.take (coreRoom - 1) = ftpHeader ++ rest) : captureParseServerHostFtp text =
      some ((behindAt rest).takeWhile fun char => decide (char ≠ 58 ∧ char ≠ 47)) := by
  have solid : text ≠ [] := by
    intro empty
    rw [empty, take_nil] at kept
    cases kept
  have header : ftpHeader.isPrefixOf (text.take (coreRoom - 1)) = true := by
    rw [kept]
    exact isPrefixOf_iff_prefix.mpr (prefix_append _ rest)
  simp only [captureParseServerHostFtp, if_neg solid, header, not_true_eq_false, if_false]
  rw [kept, drop_left, takeWhile_takeWhile]
  simp only [decide_eq_true_eq]

theorem parse_other (text : Str) (other : ∀ rest, text.take (coreRoom - 1) ≠ ftpHeader ++ rest) :
    captureParseServerHostFtp text = none := by
  have header : ¬ ftpHeader.isPrefixOf (text.take (coreRoom - 1)) = true := by
    intro found
    obtain ⟨rest, same⟩ := isPrefixOf_iff_prefix.mp found
    exact other rest same.symm
  simp only [captureParseServerHostFtp, if_pos header, ite_self]

-- The answer that the settling of a start looks at.
theorem parse_is_some (url : Str) : (captureParseServerHostFtp url).isSome = Sniffer.captureParseServerHostFtp url := by
  rw [Sniffer.captureParseServerHostFtp, Bool.eq_iff_iff, isPrefixOf_iff_prefix]
  have same : ftpHeader <+: url.take (coreRoom - 1) ↔ ftpHeader <+: url := by
    rw [prefix_take_iff]
    exact and_iff_left (by decide)
  rw [← same]
  by_cases header : ftpHeader <+: url.take (coreRoom - 1)
  · obtain ⟨rest, kept⟩ := header
    rw [parse_kept url rest kept.symm]
    exact iff_of_true rfl ⟨rest, kept⟩
  · have other : ∀ rest, url.take _ ≠ ftpHeader ++ rest := fun rest kept => header ⟨rest, kept.symm⟩
    rw [parse_other url other]
    exact iff_of_false Bool.false_ne_true header

theorem parse_iff (text host : Str) : captureParseServerHostFtp text = some host ↔
      (58 ∉ host ∧ 47 ∉ host) ∧ ∃ before behind, Stands text before host behind := by
  by_cases found : ∃ rest, text.take (coreRoom - 1) = ftpHeader ++ rest
  · obtain ⟨rest, kept⟩ := found
    rw [parse_kept text rest kept, Option.some_inj, take_while_iff]
    constructor
    · rintro ⟨clean, behind, split, stopped⟩
      obtain ⟨before, whole, first⟩ := (behind_at_iff rest _).mp split
      refine ⟨⟨fun member => by simpa using clean 58 member, fun member => by simpa using clean 47 member⟩, before, behind, ?_⟩
      refine ⟨by rw [kept, whole], first, fun char head => ?_⟩
      have stop := stopped char head
      rw [decide_eq_false_iff_not, not_and_or, not_not, not_not] at stop
      exact stop.symm
    · rintro ⟨⟨colon, slash⟩, before, behind, stands⟩
      have whole : rest = before ++ (host ++ behind) := append_cancel_left (kept.symm.trans stands.kept)
      refine ⟨fun char member => ?_, behind, (behind_at_iff rest _).mpr ⟨before, whole, stands.first⟩, fun char head => ?_⟩
      · exact decide_eq_true ⟨fun same => colon (same ▸ member), fun same => slash (same ▸ member)⟩
      · rw [decide_eq_false_iff_not, not_and_or, not_not, not_not]
        exact (stands.ends char head).symm
  · rw [parse_other text fun rest kept => found ⟨rest, kept⟩]
    refine ⟨fun same => (by cases same), ?_⟩
    rintro ⟨-, before, behind, stands⟩
    exact absurd ⟨_, stands.kept⟩ found

namespace FtpUrl

variable (url : FtpUrl)

theorem ends_back (room : Nat) : Ends (url.back.take room) := by
  have whole : Ends url.back := by
    intro char head
    rw [back, portText] at head
    cases port : url.port with
    | none =>
      rw [port] at head
      exact .inl (Option.some.inj head).symm
    | some digits =>
      rw [port] at head
      exact .inr (Option.some.inj head).symm
  intro char head
  rw [head?_take] at head
  by_cases full : room = 0
  · rw [if_pos full] at head
    cases head
  · rw [if_neg full] at head
    exact whole char head

theorem stands_plain (behind : Str) (stands : Stands url.text url.front url.host behind) : url.Plain := by
  refine ⟨?_, ?_⟩
  · have lengths := congrArg length stands.kept
    have bound := length_take_le (coreRoom - 1) url.text
    rw [lengths] at bound
    simp only [length_append] at bound ⊢
    simp only [coreRoom] at bound ⊢
    omega
  · have first := stands.first
    have kept := stands.kept
    simp only [front] at first kept
    cases info : url.userInfo with
    | some user =>
      rw [info] at first
      obtain ⟨empty, -⟩ | ⟨other, same, clean⟩ := first
      · exact absurd empty (by simp [userText])
      · have users : user = other := append_cancel_right same
        exact users ▸ clean
    | none =>
      rw [info] at first kept
      obtain ⟨-, absent⟩ | ⟨other, same, -⟩ := first
      · rw [kept]
        intro member
        obtain inHeader | inRest := mem_append.mp member
        · exact absurd inHeader (by decide)
        · exact absent inRest
      · exact absurd same (by simp [userText])

theorem plain_stands (plain : url.Plain) : ∃ behind, Stands url.text url.front url.host behind := by
  obtain ⟨fits, clean⟩ := plain
  obtain ⟨behind, ends, kept⟩ : ∃ behind, Ends behind ∧
      url.text.take _ = ftpHeader ++ (url.front ++ (url.host ++ behind)) := by
    have joined : url.text = (ftpHeader ++ (url.front ++ url.host)) ++ url.back := by simp only [text, append_assoc]
    refine ⟨_, url.ends_back (coreRoom - 1 - (ftpHeader ++ (url.front ++ url.host)).length), ?_⟩
    rw [joined, take_append, take_of_length_le (Nat.le_sub_one_of_lt fits)]
    simp only [append_assoc]
  refine ⟨behind, kept, ?_, ends⟩
  rw [kept] at clean
  rw [front, userText]
  cases info : url.userInfo with
  | some user =>
    rw [info] at clean
    exact .inr ⟨user, rfl, clean⟩
  | none =>
    rw [info] at clean
    exact .inl ⟨rfl, fun member => clean (mem_append_right _ (mem_append_right _ member))⟩

theorem parse_text_iff : captureParseServerHostFtp url.text = some url.host ↔ url.Plain ∨ url.Repeated := by
  rw [parse_iff, and_iff_right url.hostClean.2]
  constructor
  · rintro ⟨before, behind, stands⟩
    by_cases own : before = url.front
    · exact .inl (url.stands_plain _ (own ▸ stands))
    · exact .inr ⟨before, behind, own, stands⟩
  · rintro (plain | ⟨before, behind, -, stands⟩)
    · exact ⟨url.front, url.plain_stands plain⟩
    · exact ⟨before, behind, stands⟩

end FtpUrl

-- Wrong are an '@' in the user info, or in the path where there is none, a host
-- beyond the buffer's end, and texts like "ftp:///x".
theorem ftp_host_right_iff (text : Str) : HostRight text ↔
      (∀ url : FtpUrl, url.text = text → url.Plain ∨ url.Repeated) ∧ ((∀ url : FtpUrl, url.text ≠ text) → ¬ Hostless text) := by
  have hosts : ∀ url : FtpUrl, url.text = text →
      (captureParseServerHostFtp text = some url.host ↔ url.Plain ∨ url.Repeated) := by
    intro url same
    rw [← same]
    exact url.parse_text_iff
  have empty : captureParseServerHostFtp text = some [] ↔ Hostless text := by
    rw [parse_iff]
    exact and_iff_right ⟨not_mem_nil, not_mem_nil⟩
  rw [HostRight, Ne, empty]
  exact and_congr_left' (forall₂_congr hosts)

def atInPath : FtpUrl where
  userInfo := none
  host := ascii "h"
  port := none
  path := ascii "a@b"
  printable := by decide +kernel
  userClean := by decide
  hostClean := by decide
  hostSolid := by decide
  portDigits := by decide

theorem at_in_path_taken : ¬ ∀ text, HostRight text := by
  intro right
  have taken : captureParseServerHostFtp atInPath.text = some (ascii "b") := by decide +kernel
  have wanted := (right _).1 atInPath rfl
  rw [taken] at wanted
  exact absurd wanted (by decide)

end Codec.Sniffer.FtpHost
