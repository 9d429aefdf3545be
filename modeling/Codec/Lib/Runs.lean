import Mathlib.Data.List.Basic

set_option autoImplicit false

namespace Codec.Lib

-- A run of a deterministic machine whose nondeterminism is the choice of the
-- next event: every interleaving is one list of events.
section Runs

variable {σ ε : Type} (step : σ → ε → σ)

def run (start : σ) (events : List ε) : σ := events.foldl step start

-- Every step of the run is taken from a state in which the event was allowed.
def AllSteps (allowed : σ → ε → Prop) : σ → List ε → Prop
  | _, [] => True
  | state, event :: rest => allowed state event ∧ AllSteps allowed (step state event) rest

@[simp] theorem run_nil (start : σ) : run step start [] = start := rfl

@[simp] theorem run_cons (start : σ) (event : ε) (rest : List ε) :
    run step start (event :: rest) = run step (step start event) rest := rfl

theorem run_append (start : σ) (first second : List ε) :
    run step start (first ++ second) = run step (run step start first) second :=
  List.foldl_append

theorem all_steps_append (allowed : σ → ε → Prop) (start : σ) (first second : List ε) :
    AllSteps step allowed start (first ++ second) ↔
      AllSteps step allowed start first ∧ AllSteps step allowed (run step start first) second := by
  induction first generalizing start with
  | nil => simp [AllSteps]
  | cons event rest ih => simp [AllSteps, ih, and_assoc]

instance decidableAllSteps (allowed : σ → ε → Prop) [∀ state event, Decidable (allowed state event)] :
    ∀ start events, Decidable (AllSteps step allowed start events)
  | _, [] => isTrue trivial
  | start, event :: rest =>
    have _ := decidableAllSteps allowed (step start event) rest
    inferInstanceAs (Decidable (allowed start event ∧ AllSteps step allowed (step start event) rest))

theorem all_steps_of_all (allowed : ε → Prop) (start : σ) (events : List ε) (every : ∀ event ∈ events, allowed event) :
    AllSteps step (fun _ => allowed) start events := by
  induction events generalizing start with
  | nil => trivial
  | cons event rest ih =>
    refine ⟨every _ List.mem_cons_self, ?_⟩
    exact ih _ fun item there => every item (List.mem_cons_of_mem _ there)

theorem all_steps_and (first second : σ → ε → Prop) (start : σ) (events : List ε)
    (left : AllSteps step first start events) (right : AllSteps step second start events) :
    AllSteps step (fun state event => first state event ∧ second state event) start events := by
  induction events generalizing start with
  | nil => trivial
  | cons event rest ih => exact ⟨⟨left.1, right.1⟩, ih _ left.2 right.2⟩

theorem all_steps_imp (allowed weaker : σ → ε → Prop) (start : σ) (events : List ε)
    (imp : ∀ state event, allowed state event → weaker state event) (steps : AllSteps step allowed start events) :
    AllSteps step weaker start events := by
  induction events generalizing start with
  | nil => trivial
  | cons event rest ih => exact ⟨imp _ _ steps.1, ih _ steps.2⟩

-- The induction behind every safety result: a property of the start that each
-- allowed step preserves holds in the state the run ends in.
theorem run_keeps (allowed : σ → ε → Prop) (keeps : σ → Prop) (start : σ) (events : List ε) (initial : keeps start)
    (preserved : ∀ state event, keeps state → allowed state event → keeps (step state event))
    (steps : AllSteps step allowed start events) : keeps (run step start events) := by
  induction events generalizing start with
  | nil => exact initial
  | cons event rest ih => exact ih _ (preserved _ _ initial steps.1) steps.2

theorem all_steps_keeps (allowed safe : σ → ε → Prop) (keeps : σ → Prop) (start : σ) (events : List ε) (initial : keeps start)
    (preserved : ∀ state event, keeps state → allowed state event → keeps (step state event))
    (sound : ∀ state event, keeps state → allowed state event → safe state event)
    (steps : AllSteps step allowed start events) : AllSteps step safe start events := by
  induction events generalizing start with
  | nil => trivial
  | cons event rest ih => exact ⟨sound _ _ initial steps.1, ih _ (preserved _ _ initial steps.1) steps.2⟩

theorem first_not_allowed (allowed : σ → ε → Prop) (start : σ) (events : List ε) (some : ¬ AllSteps step allowed start events) :
    ∃ before event behind, events = before ++ event :: behind ∧ AllSteps step allowed start before ∧
      ¬ allowed (run step start before) event := by
  induction events generalizing start with
  | nil => exact absurd trivial some
  | cons event rest ih =>
    by_cases first : allowed start event
    · obtain ⟨before, bad, behind, split, steps, not⟩ := ih _ fun all => some ⟨first, all⟩
      exact ⟨event :: before, bad, behind, congrArg _ split, ⟨first, steps⟩, not⟩
    · exact ⟨[], event, rest, rfl, trivial, first⟩

end Runs

-- A machine whose calls answer, and a second one that answers the same.
section Replies

variable {σ τ ε ρ : Type} (call : σ → ε → ρ × σ) (other : τ → ε → ρ × τ)

def after (state : σ) (event : ε) : σ := (call state event).2

def replies (start : σ) : List ε → List ρ
  | [] => []
  | event :: rest => (call start event).1 :: replies (after call start event) rest

theorem run_simulates (rel : σ → τ → Prop) (allowed : σ → ε → Prop)
    (same : ∀ state image event, rel state image → allowed state event →
      (call state event).1 = (other image event).1 ∧ rel (after call state event) (after other image event))
    (start : σ) (image : τ) (events : List ε) (related : rel start image) (steps : AllSteps (after call) allowed start events) :
    replies call start events = replies other image events ∧
      rel (run (after call) start events) (run (after other) image events) := by
  induction events generalizing start image with
  | nil => exact ⟨rfl, related⟩
  | cons event rest ih =>
    obtain ⟨first, next⟩ := same _ _ _ related steps.1
    obtain ⟨later, final⟩ := ih _ _ next steps.2
    exact ⟨by rw [replies, replies, first, later], final⟩

end Replies

end Codec.Lib
