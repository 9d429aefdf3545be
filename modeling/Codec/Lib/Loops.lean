import Mathlib.Data.Set.Finite.Basic

set_option autoImplicit false

namespace Codec.Lib

-- A loop as the steps of a deterministic machine. It ends when some number of
-- them leads to a state that is over.
section Loops

variable {σ : Type} (step : σ → σ) (ended : σ → Prop)

def Ends (start : σ) : Prop := ∃ count, ended (step^[count] start)

theorem iterate_keeps (keeps : σ → Prop) (each : ∀ state, keeps state → keeps (step state)) (start : σ) (initial : keeps start) (count : Nat) :
    keeps (step^[count] start) := by
  induction count generalizing start with
  | zero => exact initial
  | succ count ih => exact ih _ (each _ initial)

theorem ends_later (start : σ) (ends : Ends step ended (step start)) : Ends step ended start := by
  obtain ⟨count, done⟩ := ends
  exact ⟨count + 1, done⟩

theorem ends_of_descent {ι : Type} (less : ι → ι → Prop) (founded : WellFounded less) (keeps : σ → Prop) (measure : σ → ι)
    (down : ∀ state, keeps state → ¬ ended state → ended (step state) ∨ (keeps (step state) ∧ less (measure (step state)) (measure state)))
    (start : σ) (initial : keeps start) : Ends step ended start := by
  induction bound : measure start using founded.induction generalizing start with
  | h bound ih =>
    by_cases done : ended start
    · exact ⟨0, done⟩
    · rcases down _ initial done with out | ⟨kept, lower⟩
      · exact ⟨1, out⟩
      · exact ends_later step _ _ (ih _ (bound ▸ lower) _ kept rfl)

theorem ends_of_measure (keeps : σ → Prop) (measure : σ → Nat)
    (down : ∀ state, keeps state → ¬ ended state → ended (step state) ∨ (keeps (step state) ∧ measure (step state) < measure state))
    (start : σ) (initial : keeps start) : Ends step ended start :=
  ends_of_descent step _ _ Nat.lt_wfRel.wf _ _ down _ initial

theorem ends_onward (rests : ∀ state, ended state → ended (step state)) (start : σ) (count : Nat) (ends : Ends step ended start) :
    Ends step ended (step^[count] start) := by
  obtain ⟨last, done⟩ := ends
  refine ⟨last, ?_⟩
  rw [← Function.iterate_add_apply, Nat.add_comm, Function.iterate_add_apply]
  exact iterate_keeps step _ rests _ done _

theorem trapped (trap : σ → Prop) (each : ∀ state, trap state → trap (step state)) (apart : ∀ state, trap state → ¬ ended state)
    (rests : ∀ state, ended state → ended (step state)) (start : σ) (count : Nat) (caught : trap (step^[count] start)) :
    ¬ Ends step ended start := by
  rintro ⟨last, done⟩
  rcases Nat.le_total _ last with later | earlier
  · have still := iterate_keeps step trap each _ caught (last - count)
    rw [← Function.iterate_add_apply, Nat.sub_add_cancel later] at still
    exact apart _ still done
  · have rested := iterate_keeps step _ rests _ done (count - last)
    rw [← Function.iterate_add_apply, Nat.sub_add_cancel earlier] at rested
    exact apart _ caught rested

end Loops

-- A walk along a partial step: the place it is at after so many steps.
section Walks

variable {α : Type} (hop : α → Option α)

def visit : Nat → α → Option α
  | 0, place => some place
  | count + 1, place => (hop place).bind (visit count)

def Stops (count : Nat) (start : α) : Prop := ∃ last, visit hop count start = some last ∧ hop last = none

theorem visit_add (count more : Nat) (start : α) :
    visit hop (count + more) start = (visit hop count start).bind (visit hop more) := by
  induction count generalizing start with
  | zero => simp [visit]
  | succ count ih =>
    rw [Nat.add_right_comm, visit, visit]
    cases hop _ with
    | none => rfl
    | some next => exact ih next

theorem stops_rest (count later : Nat) (start place : α) (stops : Stops hop count start)
    (visited : visit hop later start = some place) : later ≤ count ∧ Stops hop (count - later) place := by
  obtain ⟨last, ended, final⟩ := stops
  have before : later ≤ count := by
    by_contra after
    have beyond := visit_add hop count (later - count) start
    obtain ⟨extra, more⟩ := Nat.exists_eq_add_of_lt (Nat.lt_of_not_le after)
    rw [Nat.add_sub_cancel' (by omega), visited, ended, Option.bind_some, show later - count = extra + 1 by omega, visit, final] at beyond
    cases beyond
  have split := visit_add hop later (count - later) start
  rw [Nat.add_sub_cancel' before, visited, ended, Option.bind_some] at split
  exact ⟨before, last, split.symm, final⟩

theorem stops_unique (first second : Nat) (start : α) (one : Stops hop first start) (other : Stops hop second start) :
    first = second := by
  obtain ⟨last, ended, _⟩ := one
  obtain ⟨later, past, _⟩ := other
  have forward := (stops_rest hop _ _ _ last ⟨later, past, by assumption⟩ ended).1
  have backward := (stops_rest hop _ _ _ _ ⟨last, ended, by assumption⟩ past).1
  omega

theorem stops_once (count first second : Nat) (start place : α) (stops : Stops hop count start)
    (one : visit hop first start = some place) (other : visit hop second start = some place) : first = second := by
  obtain ⟨early, rest⟩ := stops_rest hop _ _ _ _ stops one
  obtain ⟨late, more⟩ := stops_rest hop _ _ _ _ stops other
  have same := stops_unique hop _ _ _ rest more
  omega

theorem stops_of_once (places : Set α) (finite : places.Finite) (start : α)
    (inside : ∀ count place, visit hop count start = some place → place ∈ places)
    (once : ∀ first second place, visit hop first start = some place → visit hop second start = some place → first = second) :
    ∃ count, Stops hop count start := by
  by_contra never
  have goes (count : Nat) : ∃ place, visit hop count start = some place := by
    induction count with
    | zero => exact ⟨start, rfl⟩
    | succ count ih =>
      obtain ⟨place, visited⟩ := ih
      cases next : hop _ with
      | none => exact absurd ⟨count, place, visited, next⟩ never
      | some other => exact ⟨other, by rw [visit_add, visited, Option.bind_some, visit, next]; rfl⟩
  choose place visited using goes
  have injective : Function.Injective place := fun first second same =>
    once _ _ _ (visited _) (same ▸ visited _)
  exact Set.infinite_of_injective_forall_mem injective (fun count => inside _ _ (visited _)) finite

end Walks

end Codec.Lib
