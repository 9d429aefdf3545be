import Codec.Radius.Dangling

set_option autoImplicit false

namespace Codec.Radius

open Codec.Ems Codec.Lib

variable (log : List Int) (before behind : List Device) (dev : Device) (sh : Shared)

def records (session : Str) (wire : List Request) : List Int :=
  (wire.filter fun request => request.code = pwAccountingRequest ∧ request.sessid = some session).map Request.statusType

def OpenLog : Prop := ∃ interims, log = 1 :: List.replicate interims 3

def InOrder : Prop := log = [] ∨ OpenLog log ∨ ∃ front, OpenLog front ∧ log = front ++ [2]

def Next (kind : Int) : Prop := (log = [] ∧ kind = 1) ∨ (OpenLog log ∧ (kind = 2 ∨ kind = 3))

theorem next_open (kind : Int) (next : Next log kind) (more : kind ≠ 2) : OpenLog (log ++ [kind]) := by
  rcases next with ⟨empty, start⟩ | ⟨⟨interims, shape⟩, stop | interim⟩
  · exact ⟨0, by simp [empty, start]⟩
  · exact absurd stop more
  · exact ⟨interims + 1, by simp [shape, interim, List.replicate_succ']⟩

theorem next_in_order (kind : Int) (next : Next log kind) : InOrder (log ++ [kind]) := by
  by_cases stop : kind = 2
  · rcases next with ⟨_, start⟩ | ⟨opened, _⟩
    · exact absurd (stop.symm.trans start) (by decide)
    · exact .inr (.inr ⟨log, opened, by rw [stop]⟩)
  · exact .inr (.inl (next_open log kind next stop))

theorem records_append (session : Str) (wire : List Request) (request : Request) :
    records session (wire ++ [request]) = records session wire ++
      if request.code = pwAccountingRequest ∧ request.sessid = some session then [request.statusType] else [] := by
  unfold records
  by_cases here : request.code = pwAccountingRequest ∧ request.sessid = some session
  · simp [List.filter_append, here]
  · simp [List.filter_append, here]

def Opened : Prop := ∃ session, dev.sessid = some session ∧ OpenLog (records session sh.wire)

def Pending : Prop :=
  ∀ request, dev.authOut = some request → request.code = pwAccountingRequest → request ∉ sh.wire →
    ∃ session, dev.sessid = some session ∧ request.sessid = some session ∧
      Next (records session sh.wire) request.statusType

def Accounting : Prop :=
  ∀ request, dev.authOut = some request → request.code = pwAccountingRequest ∧ request.statusType ≠ 2 ∧
    (request ∈ sh.wire → Opened dev sh)

def OtherSession (left right : Device) : Prop := ∀ session, left.sessid = some session → right.sessid ≠ some session

instance : Std.Symm OtherSession := ⟨fun _ _ other session here there => other session there here⟩

structure Books (devs : List Device) (sh : Shared) : Prop where
  base : Base devs sh
  order : ∀ session, InOrder (records session sh.wire)
  apart : devs.Pairwise OtherSession
  pending : ∀ dev ∈ devs, Pending dev sh
  acct : ∀ dev ∈ devs, dev.st = .acct → Accounting dev sh

theorem pending_wire (sh after : Shared) (wire : after.wire = sh.wire) (pending : Pending dev sh) :
    Pending dev after := by
  intro request fill code unsent
  rw [wire] at unsent ⊢
  exact pending _ fill code unsent

theorem accounting_wire (sh after : Shared) (wire : after.wire = sh.wire)
    (accounting : Accounting dev sh) : Accounting dev after := by
  intro request fill
  obtain ⟨code, kind, opened⟩ := accounting _ fill
  refine ⟨code, kind, fun sent => ?_⟩
  obtain ⟨session, begun, log⟩ := opened (wire ▸ sent)
  exact ⟨session, begun, wire ▸ log⟩

theorem books_entry (next : Cell)
    (base : Base (before ++ (next.dev.toList ++ behind)) next.sh) (wire : next.sh.wire = sh.wire)
    (session : ∀ now, next.dev = some now → ∀ session, now.sessid = some session →
      dev.sessid = some session ∨ ∀ other ∈ before ++ behind, other.sessid ≠ some session)
    (pending : ∀ now, next.dev = some now → Pending now sh)
    (acct : ∀ now, next.dev = some now → now.st = .acct → Accounting now sh)
    (books : Books (before ++ dev :: behind) sh) : Books (before ++ (next.dev.toList ++ behind)) next.sh := by
  have old : ∀ other ∈ before ++ (next.dev.toList ++ behind), next.dev = some other ∨
      other ∈ before ++ dev :: behind := by
    intro other member
    rcases (mem_around _ _ _ _).mp member with left | here | right
    · exact .inr (by simp [left])
    · exact .inl here
    · exact .inr (by simp [right])
  refine ⟨base, ?_, ?_, ?_, ?_⟩
  · intro session
    rw [wire]
    exact books.order _
  · refine pairwise_around _ _ _ dev _ ?_ books.apart
    intro now here other member apart number begun
    rcases session now here _ begun with kept | fresh
    · exact apart _ kept
    · exact fresh other member
  · intro other member
    rcases old _ member with here | there
    · exact pending_wire _ sh _ wire (pending _ here)
    · exact pending_wire _ sh _ wire (books.pending _ there)
  · intro other member st
    rcases old _ member with here | there
    · exact accounting_wire _ sh _ wire (acct _ here st)
    · exact accounting_wire _ sh _ wire (books.acct _ there st)

theorem books_quiet (dev now : Device) (sh after : Shared) (fw : Firewall)
    (touch : Touch { dev with accepted := now.accepted } now) (frame : Frame sh after fw)
    (acct : now.st = .acct → dev.st = .acct) (base : Base (before ++ ((some now).toList ++ behind)) after)
    (books : Books (before ++ dev :: behind) sh) : Books (before ++ ((some now).toList ++ behind)) after := by
  have member : dev ∈ before ++ dev :: behind := by simp
  have sessid : now.sessid = dev.sessid := touch.sessid
  have authOut : now.authOut = dev.authOut := touch.authOut
  refine books_entry _ _ dev sh ⟨some now, after⟩ base frame.wire ?_ ?_ ?_ books
  · intro found here session begun
    cases here
    exact .inl (sessid ▸ begun)
  · intro found here
    cases here
    intro request fill code unsent
    rw [sessid]
    exact books.pending dev member _ (authOut ▸ fill) code unsent
  · intro found here st
    cases here
    intro request fill
    obtain ⟨code, kind, opened⟩ := books.acct dev member (acct st) _ (authOut ▸ fill)
    refine ⟨code, kind, fun sent => ?_⟩
    obtain ⟨session, begun, log⟩ := opened sent
    exact ⟨session, sessid.trans begun, log⟩

theorem books_begins (status : Int) (dev now : Device) (sh after : Shared)
    (request : Request) (begins : Begins status dev sh now after request)
    (ready : Next (records (dev.sessid.getD (sessionText sh.clock)) sh.wire) status)
    (fresh : dev.sessid = none → ∀ other ∈ before ++ behind, other.sessid ≠ some (sessionText sh.clock))
    (acct : now.st = .acct → status ≠ 2)
    (base : Base (before ++ ((some now).toList ++ behind)) after)
    (books : Books (before ++ dev :: behind) sh) : Books (before ++ ((some now).toList ++ behind)) after := by
  have unsent : request ∉ sh.wire := by
    intro sent
    exact absurd begins.serial (Nat.ne_of_lt (books.base.wire _ sent))
  refine books_entry _ _ dev sh ⟨some now, after⟩ base begins.wire ?_ ?_ ?_ books
  · intro found here session begun
    cases here
    cases old : dev.sessid with
    | none =>
      have printed : sessionText sh.clock = session := by simpa [begins.sessid, old] using begun
      exact .inr (printed ▸ fresh old)
    | some number => exact .inl (by simpa [begins.sessid, old] using begun)
  · intro found here packet fill _ _
    cases here
    cases Option.some.inj (fill.symm.trans begins.authOut)
    exact ⟨_, begins.sessid, begins.session, begins.statusType ▸ ready⟩
  · intro found here st packet fill
    cases here
    cases Option.some.inj (fill.symm.trans begins.authOut)
    exact ⟨begins.code, begins.statusType ▸ acct st, fun sent => absurd sent unsent⟩

theorem books_send (dev now : Device) (sh : Shared) (same : Keep dev now)
    (st : now.st = dev.st) (base : Base (before ++ ((some now).toList ++ behind)) (sh.transmit dev.authOut))
    (books : Books (before ++ dev :: behind) sh) :
    Books (before ++ ((some now).toList ++ behind)) (sh.transmit dev.authOut) := by
  have quiet : sh.transmit dev.authOut = sh → Books (before ++ ((some now).toList ++ behind)) (sh.transmit dev.authOut) := by
    intro unchanged
    rw [unchanged] at base ⊢
    exact books_quiet _ _ dev now sh sh _ ⟨same.id, same.ip, same.mac, rfl, same.sessid, same.authOut⟩
      (frame_refl sh) (fun acct => st ▸ acct) base books
  cases packet : dev.authOut with
  | none =>
    rw [packet] at quiet
    exact quiet rfl
  | some request =>
    by_cases sent : request ∈ sh.wire
    · rw [packet] at quiet
      exact quiet (by simp [Shared.transmit, sent])
    · have member : dev ∈ before ++ dev :: behind := by simp
      rw [packet] at base
      have out : sh.transmit (some request) = { sh with wire := sh.wire ++ [request] } := by simp [Shared.transmit, sent]
      rw [out] at base ⊢
      -- Only the session of the device itself gets a record.
      have others : ∀ other ∈ before ++ behind, ∀ session, other.sessid = some session →
          records session (sh.wire ++ [request]) = records session sh.wire := by
        intro other there session begun
        rw [records_append, if_neg, List.append_nil]
        intro both
        obtain ⟨number, mine, theirs, _⟩ := books.pending dev member _ packet both.1 sent
        have same : number = session := Option.some.inj (theirs.symm.trans both.2)
        have apart := books.apart
        rw [List.pairwise_append, List.pairwise_cons] at apart
        rcases List.mem_append.mp there with left | right
        · exact apart.2.2 _ left dev List.mem_cons_self _ begun (same ▸ mine)
        · exact apart.2.1.1 _ right _ (same ▸ mine) begun
      have placed : ∀ other ∈ before ++ ((some now).toList ++ behind), other = now ∨ other ∈ before ++ behind := by
        intro other there
        rcases (mem_around _ _ _ _).mp there with left | here | right
        · exact .inr (by simp [left])
        · exact .inl (Option.some.inj here).symm
        · exact .inr (by simp [right])
      have whole : ∀ other ∈ before ++ behind, other ∈ before ++ dev :: behind := by
        intro other there
        rcases List.mem_append.mp there with left | right
        · simp [left]
        · simp [right]
      refine ⟨base, ?_, ?_, ?_, ?_⟩
      · intro session
        rw [records_append]
        split
        · rename_i both
          obtain ⟨number, _, theirs, next⟩ := books.pending dev member _ packet both.1 sent
          cases Option.some.inj (theirs.symm.trans both.2)
          exact next_in_order _ _ next
        · rw [List.append_nil]
          exact books.order _
      · refine pairwise_around _ _ _ dev _ ?_ books.apart
        intro found here other _ apart session begun
        cases here
        exact apart _ (same.sessid ▸ begun)
      · intro other there packet' fill code unsent
        rcases placed _ there with here | there
        · subst here
          cases Option.some.inj ((same.authOut.symm.trans fill).symm.trans packet)
          exact absurd (by simp) unsent
        · obtain ⟨session, mine, theirs, next⟩ := books.pending _ (whole _ there) _ fill code
            fun old => unsent (List.mem_append_left _ old)
          exact ⟨session, mine, theirs, (others _ there _ mine).symm ▸ next⟩
      · intro other there acct packet' fill
        rcases placed _ there with here | there
        · subst here
          cases Option.some.inj ((same.authOut.symm.trans fill).symm.trans packet)
          obtain ⟨code, kind, _⟩ := books.acct dev member (st ▸ acct) _ packet
          refine ⟨code, kind, fun _ => ?_⟩
          obtain ⟨session, mine, theirs, next⟩ := books.pending dev member _ packet code sent
          refine ⟨session, same.sessid.trans mine, ?_⟩
          rw [records_append, if_pos ⟨code, theirs⟩]
          exact next_open _ _ next kind
        · obtain ⟨code, kind, opened⟩ := books.acct _ (whole _ there) acct _ fill
          refine ⟨code, kind, fun onWire => ?_⟩
          by_cases old : packet' ∈ sh.wire
          · obtain ⟨session, mine, log⟩ := opened old
            exact ⟨session, mine, (others _ there _ mine).symm ▸ log⟩
          · -- Two devices never wait with the same record.
            have equal : packet' = request := by
              rcases List.mem_append.mp onWire with early | new
              · exact absurd early old
              · exact List.mem_singleton.mp new
            subst equal
            obtain ⟨mineNumber, mine, theirs, _⟩ := books.pending dev member _ packet code sent
            obtain ⟨number, begun, same', _⟩ := books.pending _ (whole _ there) _ fill code old
            cases Option.some.inj (theirs.symm.trans same')
            have unchanged := others _ there _ begun
            rw [records_append, if_pos ⟨code, theirs⟩] at unchanged
            simp at unchanged

end Codec.Radius
