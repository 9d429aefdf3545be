import Codec.Lib.Runs
import Mathlib.Data.List.Infix

set_option autoImplicit false

namespace Codec.Dbgview

open Codec.Lib List

inductive ActionTarget
  | drop
  | accept
  | «continue»
deriving DecidableEq, Repr

inductive ActionFilterType
  | equal
  | notEqual
  | contain
  | notContain
  | equalIc
  | notEqualIc
  | containIc
  | notContainIc
deriving DecidableEq, Repr

-- What ends a thread: the name msg in DbgMessage.__eq__, and an attribute that a
-- str or None does not have.
inductive Raised
  | nameError
  | attributeError
deriving DecidableEq, Repr

-- A value that stands for a target: a text or the enum.
inductive Value
  | text (value : String)
  | target (value : ActionTarget)
deriving DecidableEq, Repr

def actionFilterType (expectRes : Option String) (ignorecase : Bool) : ActionFilterType :=
  match expectRes, ignorecase with
  | some "equal", false => .equal
  | some "not_equal", false => .notEqual
  | some "contain", false => .contain
  | some "not_contain", false => .notContain
  | some "equal", true => .equalIc
  | some "not_equal", true => .notEqualIc
  | some "contain", true => .containIc
  | some "not_contain", true => .notContainIc
  | _, _ => .equal

def actionTargetType (target : Option String) : ActionTarget :=
  match target with
  | some "accept" => .accept
  | some "drop" => .drop
  | some "continue" => .continue
  | _ => .continue

-- config.gui, which a file need not have, with its default_action_target.
abbrev Gui := Option (Option Value)

-- parse_dict converts a text that is not empty.
def parseDict (act : Option String) : Option Value :=
  act.map fun text => if text = "" then .text "" else .target (actionTargetType (some text))

-- How the configuration was obtained; of a file the gui section and in it the
-- text of default_action_target.
inductive Origin
  | created
  | loaded (gui : Option (Option String))
deriving DecidableEq, Repr

def Origin.gui : Origin → Gui
  | .created => some (some (.text "accept"))
  | .loaded gui => gui.map parseDict

-- An entry of config.Filter.
structure FilterConfig where
  enable : Bool
  rule : String
  target : Option String
  matchCondition : Option String
  ignorecase : Bool
deriving DecidableEq, Repr

-- An ActionFilter object: its class and what it uses of its FilterRule.
structure ActionFilter where
  kind : ActionFilterType
  rule : String
  tgt : ActionTarget
deriving DecidableEq, Repr

-- DbgIntfFilter.evt_new
def evtNew (key : FilterConfig) : Option ActionFilter :=
  if key.enable then
    some ⟨actionFilterType key.matchCondition key.ignorecase, key.rule, actionTargetType key.target⟩
  else none

def actionTableFilter (filters : List FilterConfig) : List ActionFilter := filters.filterMap evtNew

-- What stands in the queue: a DbgMessage, or a text of the server thread.
inductive Queued
  | message (id : Nat) (ctx : String)
  | text (ctx : String)
deriving DecidableEq, Repr

def Queued.ctx : Queued → String
  | .message _ ctx => ctx
  | .text ctx => ctx

-- rule == msg: str has no answer for a DbgMessage, whose __eq__ is asked then.
def pyEq (rule : String) : Queued → Except Raised Bool
  | .message _ _ => .error .nameError
  | .text ctx => .ok (rule = ctx)

-- rule in msg, by DbgMessage.__contains__ or as str
def pyIn (rule ctx : String) : Bool := rule.toList <:+: ctx.toList

section Match

variable (lower : String → String) (rule : String) (msg : Queued)

def actionFilterEqual : Except Raised Bool := pyEq rule msg

def actionFilterNotEqual : Except Raised Bool := (pyEq rule msg).map not

def actionFilterContain : Except Raised Bool := .ok (pyIn rule msg.ctx)

def actionFilterNotContain : Except Raised Bool := .ok (!pyIn rule msg.ctx)

def actionFilterEqualIgnorecase : Except Raised Bool := .ok (lower rule = lower msg.ctx)

def actionFilterNotEqualIgnorecase : Except Raised Bool := .ok (lower rule ≠ lower msg.ctx)

def actionFilterContainIgnorecase : Except Raised Bool := .ok (pyIn (lower rule) (lower msg.ctx))

def actionFilterNotContainIgnorecase : Except Raised Bool := .ok (!pyIn (lower rule) (lower msg.ctx))

end Match

-- str.lower is any function.
section Actions

variable (lower : String → String)

def ActionFilter.match_ (act : ActionFilter) (msg : Queued) : Except Raised Bool :=
  match act.kind with
  | .equal => actionFilterEqual act.rule msg
  | .notEqual => actionFilterNotEqual act.rule msg
  | .contain => actionFilterContain act.rule msg
  | .notContain => actionFilterNotContain act.rule msg
  | .equalIc => actionFilterEqualIgnorecase lower act.rule msg
  | .notEqualIc => actionFilterNotEqualIgnorecase lower act.rule msg
  | .containIc => actionFilterContainIgnorecase lower act.rule msg
  | .notContainIc => actionFilterNotContainIgnorecase lower act.rule msg

-- ActionFilter.__call__
def ActionFilter.call (act : ActionFilter) (msg : Queued) : Except Raised ActionTarget :=
  (act.match_ lower msg).map fun matched => if matched then act.tgt else .continue

def filterLoop (msg : Queued) (ret : Value) : List ActionFilter → Except Raised Value
  | [] => .ok ret
  | act :: rest => (act.call lower msg).bind fun tgt => if tgt ≠ .continue then .ok (.target tgt) else filterLoop msg ret rest

-- config.gui.get('default_action_target', ActionTarget.DROP)
def defaultActionTarget (gui : Gui) : Except Raised Value :=
  match gui with
  | none => .error .attributeError
  | some value => .ok (value.getD (.target .drop))

def filterAction (gui : Gui) (table : List ActionFilter) (msg : Queued) : Except Raised Value :=
  (defaultActionTarget gui).bind fun ret => filterLoop lower msg ret table

end Actions

-- The filter thread, with what it has put into the queue of the gui, what it
-- took from its own, and what it died of.
structure FilterThread where
  run : Bool
  accepted : Nat
  dropped : Nat
  gui : List Queued
  taken : List Queued
  raised : Option Raised

-- A turn of the loop takes a message or meets queue.Empty; stop is called from
-- outside.
inductive FilterEvent
  | get (msg : Queued)
  | empty
  | stop
deriving DecidableEq

-- DbgData.set. Without a return behind it, a text is asked for its id as well.
def dbgDataSet (s : FilterThread) (msg : Queued) : FilterThread × Option Raised :=
  match msg with
  | .message _ _ => ({ s with gui := s.gui ++ [msg] }, none)
  | .text _ => ({ s with gui := s.gui ++ [msg] }, some .attributeError)

section Thread

variable (lower : String → String) (gui : Gui) (table : List ActionFilter)

def filterTurn (s : FilterThread) (msg : Queued) : FilterThread :=
  let s := { s with taken := s.taken ++ [msg] }
  match filterAction lower gui table msg with
  | .error raised => { s with run := false, raised := some raised }
  | .ok tgt =>
    if tgt = .target .accept then
      match dbgDataSet s msg with
      | (s, some raised) => { s with run := false, raised := some raised }
      | (s, none) => { s with accepted := s.accepted + 1 }
    else { s with dropped := s.dropped + 1 }

def filterStep (s : FilterThread) (event : FilterEvent) : FilterThread :=
  if s.run then
    match event with
    | .get msg => filterTurn lower gui table s msg
    | .empty => s
    | .stop => { s with run := false }
  else s

def filterStart : FilterThread := ⟨true, 0, 0, [], [], none⟩

theorem step_get (s : FilterThread) (msg : Queued) (runs : s.run = true) :
    filterStep lower gui table s (.get msg) = filterTurn lower gui table s msg := if_pos runs

theorem step_empty (s : FilterThread) : filterStep lower gui table s .empty = s := ite_self s

theorem step_stop (s : FilterThread) (runs : s.run = true) :
    filterStep lower gui table s .stop = { s with run := false } := if_pos runs

theorem step_done (s : FilterThread) (event : FilterEvent) (done : s.run ≠ true) : filterStep lower gui table s event = s :=
  if_neg done

end Thread

section Meaning

variable (lower : String → String)

def meets (kind : ActionFilterType) (rule ctx : String) : Bool :=
  match kind with
  | .equal => rule = ctx
  | .notEqual => !decide (rule = ctx)
  | .contain => pyIn rule ctx
  | .notContain => !pyIn rule ctx
  | .equalIc => lower rule = lower ctx
  | .notEqualIc => lower rule ≠ lower ctx
  | .containIc => pyIn (lower rule) (lower ctx)
  | .notContainIc => !pyIn (lower rule) (lower ctx)

def decides (msg : Queued) (act : ActionFilter) : Bool := meets lower act.kind act.rule msg.ctx && act.tgt ≠ .continue

-- The target of the first rule that decides, else the fallback.
def verdict (fallback : ActionTarget) (table : List ActionFilter) (msg : Queued) : ActionTarget :=
  ((table.find? (decides lower msg)).map ActionFilter.tgt).getD fallback

def Origin.configured : Origin → ActionTarget
  | .created => .accept
  | .loaded gui => gui.join.elim .drop fun text => actionTargetType (some text)

def delivered : List FilterEvent → List Queued
  | [] => []
  | .get msg :: rest => msg :: delivered rest
  | .empty :: rest => delivered rest
  | .stop :: _ => []

-- The comparisons that DbgMessage.__eq__ answers.
def raises : Queued → ActionFilter → Bool
  | .message _ _, act => act.kind = .equal || act.kind = .notEqual
  | .text _, _ => false

-- A rule that compares so stands behind one that decides.
def Ordered (msg : Queued) (table : List ActionFilter) : Prop :=
  ∀ before act behind, table = before ++ act :: behind → raises msg act = true →
    ∃ earlier ∈ before, decides lower msg earlier = true

section Configuration

variable (origin : Origin) (filters : List FilterConfig)

def ran (events : List FilterEvent) : FilterThread :=
  run (filterStep lower origin.gui (actionTableFilter filters)) filterStart events

def judge (msg : Queued) : ActionTarget := verdict lower origin.configured (actionTableFilter filters) msg

structure FilterRight (events : List FilterEvent) : Prop where
  verdicts : ∀ msg ∈ delivered events,
    filterAction lower origin.gui (actionTableFilter filters) msg = .ok (.target (judge lower origin filters msg))
  taken : (ran lower origin filters events).taken = delivered events
  handed : (ran lower origin filters events).gui =
    (delivered events).filter fun msg => judge lower origin filters msg = .accept
  counted : (ran lower origin filters events).accepted + (ran lower origin filters events).dropped =
    (ran lower origin filters events).taken.length

-- Where no rule decides, a target was read from the file. A text of the server
-- thread is not accepted.
structure Judged (msg : Queued) : Prop where
  sections : origin ≠ .loaded none
  order : Ordered lower msg (actionTableFilter filters)
  settled : (∃ act ∈ actionTableFilter filters, decides lower msg act = true) ∨
    ∃ gui, origin = .loaded (some gui) ∧ gui ≠ some ""
  message : judge lower origin filters msg = .accept → ∃ id ctx, msg = .message id ctx

end Configuration

end Meaning

section Loop

variable (lower : String → String) (msg : Queued)

theorem act_call (act : ActionFilter) : act.call lower msg = if raises msg act then .error .nameError
    else .ok (if meets lower act.kind act.rule msg.ctx then act.tgt else .continue) := by
  obtain ⟨kind, rule, tgt⟩ := act
  cases msg <;> cases kind <;> rfl

theorem ordered_cons (act : ActionFilter) (rest : List ActionFilter) :
    Ordered lower msg (act :: rest) ↔ raises msg act = false ∧ (decides lower msg act = true ∨ Ordered lower msg rest) := by
  constructor
  · intro ordered
    constructor
    · by_contra compares
      obtain ⟨_, there, _⟩ := ordered [] act rest rfl (by simpa using compares)
      cases there
    · by_cases first : decides lower msg act = true
      · exact .inl first
      · refine .inr fun before other behind split compares => ?_
        obtain ⟨earlier, there, decided⟩ := ordered (act :: before) _ _ (by rw [split]; rfl) compares
        rcases mem_cons.mp there with same | later
        · exact absurd (same ▸ decided) first
        · exact ⟨earlier, later, decided⟩
  · rintro ⟨quiet, later⟩ before other behind split compares
    cases before with
    | nil =>
      have same : act = other := (cons.inj split).1
      rw [← same, quiet] at compares
      cases compares
    | cons head before =>
      obtain ⟨same, tail⟩ := cons.inj split
      obtain decided | ordered := later
      · exact ⟨head, mem_cons_self, same ▸ decided⟩
      · obtain ⟨earlier, there, decided⟩ := ordered _ _ _ tail compares
        exact ⟨earlier, mem_cons_of_mem head there, decided⟩

theorem loop_right (fallback : ActionTarget) (ret : Value) (table : List ActionFilter) :
    filterLoop lower msg ret table = .ok (.target (verdict lower fallback table msg)) ↔
      Ordered lower msg table ∧ ((∃ act ∈ table, decides lower msg act = true) ∨ ret = .target fallback) := by
  induction table with
  | nil =>
    have ordered : Ordered lower msg [] := fun before act behind split => by simp at split
    simp [filterLoop, verdict, ordered]
  | cons act rest ih =>
    rw [filterLoop, act_call, ordered_cons]
    cases compares : raises msg act with
    | true => simp [Except.bind]
    | false =>
      simp only [Bool.false_eq_true, if_false, Except.bind, true_and]
      by_cases decided : decides lower msg act = true
      · have both := decided
        simp only [decides, Bool.and_eq_true, decide_eq_true_eq] at both
        have first : verdict lower fallback (act :: rest) msg = act.tgt := by
          rw [verdict, find?_cons_of_pos decided]
          rfl
        rw [if_pos both.1, if_pos both.2, first]
        exact iff_of_true rfl ⟨.inl decided, .inl ⟨act, mem_cons_self, decided⟩⟩
      · have passed : (if meets lower act.kind act.rule msg.ctx = true then act.tgt else .continue) = .continue := by
          by_cases met : meets lower act.kind act.rule msg.ctx = true
          · have carries : act.tgt = .continue := by
              by_contra other
              exact decided (by simp [decides, met, other])
            rw [if_pos met, carries]
          · rw [if_neg met]
        have later : verdict lower fallback (act :: rest) msg = verdict lower fallback rest msg := by
          rw [verdict, find?_cons_of_neg decided, verdict]
        rw [passed, if_neg (not_not.mpr rfl), later, ih]
        simp [decided]

end Loop

section Runs

variable (lower : String → String) (origin : Origin) (filters : List FilterConfig)

theorem default_target : (origin = .loaded none ∧ defaultActionTarget origin.gui = .error .attributeError) ∨
    ∃ ret, defaultActionTarget origin.gui = .ok ret ∧ origin ≠ .loaded none ∧
      (ret = .target origin.configured ↔ ∃ gui, origin = .loaded (some gui) ∧ gui ≠ some "") := by
  match origin with
  | .created => exact .inr ⟨.text _, rfl, by simp⟩
  | .loaded none => exact .inl ⟨rfl, rfl⟩
  | .loaded (some none) => exact .inr ⟨.target _, rfl, by simp [Origin.configured]⟩
  | .loaded (some (some text)) =>
    by_cases empty : text = ""
    · exact .inr ⟨.text "", by rw [empty]; rfl, by simp [empty]⟩
    · refine .inr ⟨.target (actionTargetType (some text)), ?_, by simp [Origin.configured, empty]⟩
      simp [Origin.gui, parseDict, defaultActionTarget, empty]

theorem action_right (msg : Queued) :
    filterAction lower origin.gui (actionTableFilter filters) msg = .ok (.target (judge lower origin filters msg)) ↔
      origin ≠ .loaded none ∧ Ordered lower msg (actionTableFilter filters) ∧
        ((∃ act ∈ actionTableFilter filters, decides lower msg act = true) ∨
          ∃ gui, origin = .loaded (some gui) ∧ gui ≠ some "") := by
  obtain ⟨absent, raised⟩ | ⟨ret, read, there, same⟩ := default_target _
  · rw [filterAction, raised]
    exact iff_of_false (by simp [Except.bind]) fun right => right.1 absent
  · rw [filterAction, read, ← same, and_iff_right there]
    exact loop_right _ msg _ ret _

theorem judged_iff (msg : Queued) : Judged lower origin filters msg ↔
    filterAction lower origin.gui (actionTableFilter filters) msg = .ok (.target (judge lower origin filters msg)) ∧
      (judge lower origin filters msg = .accept → ∃ id ctx, msg = .message id ctx) := by
  rw [action_right]
  constructor
  · intro judged
    exact ⟨⟨judged.sections, judged.order, judged.settled⟩, judged.message⟩
  · rintro ⟨⟨sections, order, settled⟩, message⟩
    exact ⟨sections, order, settled, message⟩

theorem turn_judged (s : FilterThread) (msg : Queued) (judged : Judged lower origin filters msg) :
    filterTurn lower origin.gui (actionTableFilter filters) s msg = if judge lower origin filters msg = .accept then
        { s with taken := s.taken ++ [msg], gui := s.gui ++ [msg], accepted := s.accepted + 1 }
      else { s with taken := s.taken ++ [msg], dropped := s.dropped + 1 } := by
  obtain ⟨right, message⟩ := (judged_iff _ _ _ msg).mp judged
  rw [filterTurn, right]
  simp only [Value.target.injEq]
  by_cases accepted : judge lower origin filters msg = .accept
  · obtain ⟨id, ctx, same⟩ := message accepted
    rw [if_pos accepted, if_pos accepted, same]
    rfl
  · rw [if_neg accepted, if_neg accepted]

theorem done_run (events : List FilterEvent) (s : FilterThread) (done : s.run ≠ true) :
    run (filterStep lower origin.gui (actionTableFilter filters)) s events = s := by
  induction events with
  | nil => rfl
  | cons event rest ih => rw [run_cons, step_done _ _ _ s _ done, ih]

-- The thread goes on until it is told to stop, and each message is counted once.
theorem run_judged (events : List FilterEvent) (judged : ∀ msg ∈ delivered events, Judged lower origin filters msg)
    (s : FilterThread) (runs : s.run = true) (final : FilterThread)
    (ends : run (filterStep lower origin.gui (actionTableFilter filters)) s events = final) :
    final.taken = s.taken ++ delivered events ∧
      final.gui = s.gui ++ (delivered events).filter (fun msg => judge lower origin filters msg = .accept) ∧
      final.accepted + final.dropped = s.accepted + s.dropped + (delivered events).length := by
  induction events generalizing s with
  | nil =>
    rw [run_nil] at ends
    simp [ends, delivered]
  | cons event rest ih =>
    rw [run_cons] at ends
    cases event with
    | get msg =>
      have others : ∀ other ∈ delivered rest, Judged _ _ _ _ := fun other there =>
        judged _ (mem_cons_of_mem msg there)
      rw [step_get _ _ _ s msg runs, turn_judged _ _ _ s msg (judged msg mem_cons_self)] at ends
      by_cases accepted : judge lower origin filters msg = .accept
      · rw [if_pos accepted] at ends
        obtain ⟨taken, gui, counts⟩ := ih others _ (by exact runs) ends
        simp only at taken gui counts
        simp only [delivered, filter_cons, accepted, decide_true, if_true, length_cons]
        refine ⟨?_, ?_, ?_⟩
        · rw [taken, append_assoc, singleton_append]
        · rw [gui, append_assoc, singleton_append]
        · omega
      · rw [if_neg accepted] at ends
        obtain ⟨taken, gui, counts⟩ := ih others _ (by exact runs) ends
        simp only at taken gui counts
        simp only [delivered, filter_cons, accepted, decide_false, Bool.false_eq_true, if_false, length_cons]
        refine ⟨?_, gui, ?_⟩
        · rw [taken, append_assoc, singleton_append]
        · omega
    | empty =>
      rw [step_empty] at ends
      exact ih judged s runs ends
    | stop =>
      rw [step_stop _ _ _ s runs, done_run _ _ _ rest _ Bool.false_ne_true] at ends
      simp [← ends, delivered]

-- What the counts leave out is the message the thread died of.
structure Counted (s : FilterThread) : Prop where
  counts : s.accepted + s.dropped + s.raised.toList.length = s.taken.length
  died : s.raised ≠ none → s.run = false
  message : s.raised = none → ∀ msg ∈ s.taken,
    filterAction lower origin.gui (actionTableFilter filters) msg = .ok (.target .accept) → ∃ id ctx, msg = .message id ctx

theorem turn_counted (s : FilterThread) (msg : Queued) (counted : Counted lower origin filters s) (runs : s.run = true) :
    Counted lower origin filters (filterTurn lower origin.gui (actionTableFilter filters) s msg) := by
  have alive : s.raised = none := by
    by_contra died
    rw [counted.died died] at runs
    cases runs
  have counts := counted.counts
  have message := counted.message alive
  rw [alive, Option.toList_none, length_nil, Nat.add_zero] at counts
  rw [filterTurn]
  cases found : filterAction _ _ _ msg with
  | error raised => exact ⟨by simp [counts], fun _ => rfl, fun none => by cases none⟩
  | ok tgt =>
    by_cases accepted : tgt = .target .accept
    · rw [accepted] at found ⊢
      cases msg with
      | message id ctx =>
        refine ⟨?_, fun died => absurd alive died, fun _ other there => ?_⟩
        · simp only [if_true, dbgDataSet, alive, Option.toList_none, length_nil, length_append, length_singleton]
          omega
        · rcases mem_append.mp there with earlier | here
          · exact message _ earlier
          · exact fun _ => ⟨id, ctx, mem_singleton.mp here⟩
      | text ctx => exact ⟨by simp [dbgDataSet, counts], fun _ => rfl, fun none => by cases none⟩
    · simp only [if_neg accepted]
      refine ⟨?_, fun died => absurd alive died, fun _ other there => ?_⟩
      · simp only [alive, Option.toList_none, length_nil, length_append, length_singleton]
        omega
      · rcases mem_append.mp there with earlier | here
        · exact message _ earlier
        · rw [mem_singleton.mp here, found]
          exact fun same => absurd (Except.ok.inj same) accepted

theorem step_counted (s : FilterThread) (event : FilterEvent) (counted : Counted lower origin filters s) :
    Counted lower origin filters (filterStep lower origin.gui (actionTableFilter filters) s event) := by
  by_cases runs : s.run = true
  · cases event with
    | get msg =>
      rw [step_get _ _ _ s msg runs]
      exact turn_counted _ _ _ s msg counted runs
    | empty =>
      rw [step_empty]
      exact counted
    | stop =>
      rw [step_stop _ _ _ s runs]
      exact ⟨counted.counts, fun _ => rfl, counted.message⟩
  · rw [step_done _ _ _ s _ runs]
    exact counted

theorem ran_counted (events : List FilterEvent) : Counted lower origin filters (ran lower origin filters events) := by
  apply run_keeps _ _ _ _ _ _ fun s event counted _ => step_counted _ _ _ s _ counted
  · exact all_steps_of_all _ _ _ _ fun _ _ => trivial
  · exact ⟨rfl, fun died => absurd rfl died, fun _ _ there => absurd there not_mem_nil⟩

-- Wrong are equal and not_equal on a DbgMessage (a NameError ends the thread),
-- the default as text, a file without a gui section, and an accepted text.
theorem filter_right_iff (events : List FilterEvent) :
    FilterRight lower origin filters events ↔ ∀ msg ∈ delivered events, Judged lower origin filters msg := by
  constructor
  · intro right msg there
    have verdict := right.verdicts msg there
    refine (judged_iff _ _ _ msg).mpr ⟨verdict, fun accepted => ?_⟩
    have counted := ran_counted lower origin filters events
    have all := right.counted
    have alive : (ran lower origin filters events).raised = none := by
      cases raised : (ran _ _ _ _).raised with
      | none => rfl
      | some error =>
        have counts := counted.counts
        rw [raised, Option.toList_some, length_singleton] at counts
        omega
    refine counted.message alive msg ?_ (accepted ▸ verdict)
    rw [right.taken]
    exact there
  · intro judged
    obtain ⟨taken, gui, counts⟩ := run_judged _ _ _ _ judged filterStart rfl _ rfl
    refine ⟨fun msg there => ((judged_iff _ _ _ msg).mp (judged msg there)).1, taken, gui, ?_⟩
    rw [show (ran _ _ _ _).taken = delivered _ from taken, ← Nat.zero_add (delivered _).length]
    exact counts

-- The default rules, the second one with another text.
def updated : List FilterConfig :=
  [⟨true, "BLUE", some "drop", some "contain", false⟩, ⟨true, "xyz", some "accept", some "contain", false⟩]

theorem created_default_text : ¬ ∀ lower origin filters events, FilterRight lower origin filters events := by
  intro right
  have verdict := (right id .created updated [.get (.message 1 "hello")]).verdicts _ mem_cons_self
  have text : filterAction id Origin.created.gui (actionTableFilter updated) (.message 1 "hello") = .ok (.text "accept") := by
    decide
  rw [text] at verdict
  cases verdict

end Runs

end Codec.Dbgview
