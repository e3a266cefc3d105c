import Mathlib.Algebra.GroupWithZero.Nat
import Mathlib.Data.List.Forall2

/-!
# One machine for another

A machine answers an input and goes on.  Where one step of the one is like one step of the
other, so is a whole run.  The relation between their states may depend on what the inputs
still to come will cost, so that it can promise room for them.
-/

namespace Library

abbrev Machine (σ ι ω : Type*) := σ → ι → ω × σ

variable {σ τ ι ω ω' : Type*}

namespace Machine

/-- The answers to the inputs, and the last state. -/
def run (m : Machine σ ι ω) : σ → List ι → List ω × σ
  | s, [] => ([], s)
  | s, i :: is => ((m s i).1 :: (run m (m s i).2 is).1, (run m (m s i).2 is).2)

/-- The inputs that `P` admits are answered alike, where there is room for what they cost. -/
structure Simulates (m : Machine σ ι ω) (m' : Machine τ ι ω') (cost : ι → Nat) (P : ι → Prop)
    (agree : ω → ω' → Prop) (R : Nat → σ → τ → Prop) : Prop where
  step : ∀ n s t i, R (n + cost i) s t → P i →
    agree (m s i).1 (m' t i).1 ∧ R n (m s i).2 (m' t i).2

variable {m : Machine σ ι ω} {m' : Machine τ ι ω'} {cost : ι → Nat} {P : ι → Prop}
  {agree : ω → ω' → Prop} {R : Nat → σ → τ → Prop}

/-- What one step keeps, a run keeps. -/
theorem Simulates.run (h : Simulates m m' cost P agree R) {is : List ι} (his : ∀ i ∈ is, P i)
    {n : Nat} {s : σ} {t : τ} (hst : R (n + (is.map cost).sum) s t) :
    List.Forall₂ agree (m.run s is).1 (m'.run t is).1 ∧ R n (m.run s is).2 (m'.run t is).2 := by
  induction is generalizing s t with
  | nil => exact ⟨.nil, hst⟩
  | cons i is ih =>
    obtain ⟨hi, his⟩ := List.forall_mem_cons.1 his
    rw [List.map_cons, List.sum_cons, Nat.add_comm (cost i), ← Nat.add_assoc] at hst
    obtain ⟨hagree, hnext⟩ := h.step _ s t i hst hi
    obtain ⟨hanswers, hlast⟩ := ih his hnext
    exact ⟨.cons hagree hanswers, hlast⟩

end Machine

end Library
