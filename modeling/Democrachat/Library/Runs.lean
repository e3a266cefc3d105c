import Mathlib.Data.List.Basic

/-!
# Runs of a system

A run is a list of actions, each of which takes the state to the next; a condition
on the steps of a run, and the rule that carries an invariant along it.
-/

namespace Library

variable {σ α : Type*} (step : σ → α → σ)

/-- Every step of the run meets the condition. -/
def Along (P : σ → α → Prop) : σ → List α → Prop
  | _, [] => True
  | s, a :: as => P s a ∧ Along P (step s a) as

instance decidableAlong {P : σ → α → Prop} [∀ s a, Decidable (P s a)] :
    (s : σ) → (as : List α) → Decidable (Along step P s as)
  | _, [] => .isTrue trivial
  | s, a :: as => @instDecidableAnd _ _ _ (decidableAlong (step s a) as)

variable {step} {P Q : σ → α → Prop} {I : σ → Prop}

theorem along_append {s : σ} {as bs : List α} :
    Along step P s (as ++ bs) ↔ Along step P s as ∧ Along step P (as.foldl step s) bs := by
  induction as generalizing s with
  | nil => simp [Along]
  | cons a as ih => simp only [List.cons_append, Along, List.foldl_cons, ih, and_assoc]

theorem Along.and {s : σ} {as : List α} (h : Along step P s as) (h' : Along step Q s as) :
    Along step (fun s a => P s a ∧ Q s a) s as := by
  induction as generalizing s with
  | nil => trivial
  | cons a as ih => exact ⟨⟨h.1, h'.1⟩, ih h.2 h'.2⟩

/-- What holds at first and survives every step that meets the condition holds at the end. -/
theorem Along.invariant (hstep : ∀ s a, I s → P s a → I (step s a)) {s : σ} {as : List α}
    (h : Along step P s as) (hs : I s) : I (as.foldl step s) := by
  induction as generalizing s with
  | nil => exact hs
  | cons a as ih => exact ih h.2 (hstep s a hs h.1)

/-- Steps do what the invariant lets the condition promise. -/
theorem Along.imp (hstep : ∀ s a, I s → P s a → Q s a ∧ I (step s a)) {s : σ} {as : List α}
    (h : Along step P s as) (hs : I s) : Along step Q s as := by
  induction as generalizing s with
  | nil => trivial
  | cons a as ih =>
    obtain ⟨hnow, hlater⟩ := hstep s a hs h.1
    exact ⟨hnow, ih h.2 hlater⟩

theorem along_of_forall {as : List α} (h : ∀ a ∈ as, ∀ s, P s a) (s : σ) : Along step P s as := by
  induction as generalizing s with
  | nil => trivial
  | cons a as ih =>
    exact ⟨h a List.mem_cons_self s, ih (fun b hb => h b (List.mem_cons_of_mem _ hb)) (step s a)⟩

theorem along_iff {s : σ} {as : List α} :
    Along step P s as ↔ ∀ pre a post, as = pre ++ a :: post → P (pre.foldl step s) a := by
  constructor
  · rintro h pre a post rfl
    exact (along_append.1 h).2.1
  · intro h
    induction as generalizing s with
    | nil => trivial
    | cons a as ih =>
      refine ⟨h [] a as rfl, ih (fun pre b post has => ?_)⟩
      exact h (a :: pre) b post (congrArg (a :: ·) has)

/-- What did not hold at first and holds at the end began to hold at some step. -/
theorem exists_step {s : σ} {as : List α} (hs : ¬ I s) (h : I (as.foldl step s)) :
    ∃ pre a post, as = pre ++ a :: post ∧ ¬ I (pre.foldl step s) ∧
      I (step (pre.foldl step s) a) := by
  induction as generalizing s with
  | nil => exact absurd h hs
  | cons a as ih =>
    by_cases hnow : I (step s a)
    · exact ⟨[], a, as, rfl, hs, hnow⟩
    · obtain ⟨pre, b, post, rfl, hbefore, hafter⟩ := ih hnow h
      exact ⟨a :: pre, b, post, rfl, hbefore, hafter⟩

/-- A property of every state that a run comes through. -/
theorem forall_prefix_iff {s : σ} {as : List α} :
    (∀ bs, bs <+: as → I (bs.foldl step s)) ↔ I s ∧ Along step (fun s a => I (step s a)) s as := by
  induction as generalizing s with
  | nil =>
    constructor
    · exact fun h => ⟨h [] (List.prefix_refl _), trivial⟩
    · rintro ⟨hs, -⟩ bs hbs
      rw [List.prefix_nil.1 hbs]
      exact hs
  | cons a as ih =>
    rw [Along, ← ih]
    constructor
    · intro h
      refine ⟨h [] List.nil_prefix, fun bs hbs => ?_⟩
      exact h (a :: bs) (List.cons_prefix_cons.2 ⟨rfl, hbs⟩)
    · rintro ⟨hs, h⟩ bs hbs
      cases bs with
      | nil => exact hs
      | cons b bs =>
        obtain ⟨rfl, htail⟩ := List.cons_prefix_cons.1 hbs
        exact h bs htail

end Library
