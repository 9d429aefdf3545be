import Mathlib.Logic.Relation

set_option autoImplicit false

namespace Codec.Lib

-- An event handler of a single-threaded daemon: it reads and writes a state
-- and either finishes with a value or is cut short by a fault. The state it
-- had reached when the fault struck is kept, as the process would keep it.
inductive Outcome (φ α : Type) where
  | done (value : α)
  | fault (why : φ)
  deriving DecidableEq, Repr

def Handler (σ φ α : Type) : Type := σ → Outcome φ α × σ

namespace Handler

variable {σ φ α β : Type}

protected def pure (value : α) : Handler σ φ α :=
  fun state => (.done value, state)

protected def bind (first : Handler σ φ α) (next : α → Handler σ φ β) : Handler σ φ β :=
  fun state => match first state with
    | (.done value, reached) => next value reached
    | (.fault why, reached) => (.fault why, reached)

instance : Monad (Handler σ φ) where
  pure := Handler.pure
  bind := Handler.bind

def stop (why : φ) : Handler σ φ α := fun state => (.fault why, state)

@[simp] theorem pure_apply (value : α) (state : σ) : (pure value : Handler σ φ α) state = (.done value, state) := rfl

theorem bind_apply (first : Handler σ φ α) (next : α → Handler σ φ β) (state : σ) :
    (first >>= next) state = match first state with
      | (.done value, reached) => next value reached
      | (.fault why, reached) => (.fault why, reached) := rfl

theorem bind_done (first : Handler σ φ α) (next : α → Handler σ φ β) (state reached : σ) (value : α)
    (run : first state = (.done value, reached)) : (first >>= next) state = next value reached := by
  rw [bind_apply, run]

theorem ite_apply (test : Prop) [Decidable test] (yes no : Handler σ φ α) (state : σ) :
    (if test then yes else no) state = if test then yes state else no state := by
  by_cases holds : test
  · rw [if_pos holds, if_pos holds]
  · rw [if_neg holds, if_neg holds]

-- Partial correctness with a second postcondition for the faults.
def Triple (pre : σ → Prop) (body : Handler σ φ α) (post : α → σ → Prop) (cut : φ → σ → Prop) : Prop :=
  ∀ state, pre state → match body state with
    | (.done value, reached) => post value reached
    | (.fault why, reached) => cut why reached

theorem triple_pure (pre : σ → Prop) (value : α) (post : α → σ → Prop) (cut : φ → σ → Prop)
    (entails : ∀ state, pre state → post value state) : Triple pre (pure value) post cut :=
  fun _ holds => entails _ holds

theorem triple_bind (pre : σ → Prop) (first : Handler σ φ α) (next : α → Handler σ φ β)
    (middle : α → σ → Prop) (post : β → σ → Prop) (cut : φ → σ → Prop)
    (head : Triple pre first middle cut) (tail : ∀ value, Triple (middle value) (next value) post cut) :
    Triple pre (first >>= next) post cut := by
  intro state holds
  have reached := head _ holds
  rw [bind_apply]
  cases run : first _ with
  | mk outcome after =>
    rw [run] at reached
    cases outcome with
    | done value => exact tail _ _ reached
    | fault why => exact reached

theorem triple_weaken (pre weaker : σ → Prop) (body : Handler σ φ α) (post stronger : α → σ → Prop)
    (cut harder : φ → σ → Prop) (triple : Triple weaker body stronger harder) (before : ∀ state, pre state → weaker state)
    (after : ∀ value state, stronger value state → post value state)
    (fault : ∀ why state, harder why state → cut why state) : Triple pre body post cut := by
  intro state holds
  have reached := triple _ (before _ holds)
  cases run : body _ with
  | mk outcome final =>
    rw [run] at reached
    cases outcome with
    | done value => exact after _ _ reached
    | fault why => exact fault why _ reached

theorem triple_ite (pre : σ → Prop) (test : Prop) [Decidable test] (yes no : Handler σ φ α)
    (post : α → σ → Prop) (cut : φ → σ → Prop)
    (whenYes : test → Triple pre yes post cut) (whenNo : ¬test → Triple pre no post cut) :
    Triple pre (if test then yes else no) post cut := by
  by_cases holds : test
  · rw [if_pos holds]
    exact whenYes holds
  · rw [if_neg holds]
    exact whenNo holds

end Handler

end Codec.Lib
