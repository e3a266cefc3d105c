import Mathlib.Logic.Function.Basic
import Mathlib.Data.List.Nodup

/-!
# Rounds that stop at the first failure

The cells of a list are visited in turn, each with what it holds.  A visit that fails
ends the round, with what it left in its own cell; later cells stay as they were.
-/

namespace Library

variable {ι σ ε : Type} [DecidableEq ι]

def visitEach (visit : ι → σ → Except ε Unit × σ) : List ι → (ι → σ) → Except ε Unit × (ι → σ)
  | [], s => (.ok (), s)
  | i :: is, s =>
    match visit i (s i) with
    | (.ok (), x) => visitEach visit is (Function.update s i x)
    | (.error e, x) => (.error e, Function.update s i x)

variable {visit : ι → σ → Except ε Unit × σ} {s : ι → σ} {i : ι} {is : List ι}

theorem visitEach_cons_of_error {e : ε} (h : (visit i (s i)).1 = .error e) :
    visitEach visit (i :: is) s = (.error e, Function.update s i (visit i (s i)).2) := by
  rw [visitEach]
  rcases hvisit : visit i (s i) with ⟨e' | a, x⟩
  · rw [hvisit] at h
    obtain rfl := Except.error.inj h
    rfl
  · rw [hvisit] at h
    cases h

theorem visitEach_cons_of_ok (h : (visit i (s i)).1 = .ok ()) :
    visitEach visit (i :: is) s = visitEach visit is (Function.update s i (visit i (s i)).2) := by
  rw [visitEach]
  rcases hvisit : visit i (s i) with ⟨e | a, x⟩
  · rw [hvisit] at h
    cases h
  · rfl

/-- A round leaves the other cells alone. -/
theorem visitEach_of_not_mem (h : i ∉ is) : (visitEach visit is s).2 i = s i := by
  induction is generalizing s with
  | nil => rfl
  | cons j js ih =>
    obtain ⟨hne, hrest⟩ := not_or.1 (fun h' => h (List.mem_cons.2 h'))
    cases hvisit : (visit j (s j)).1 with
    | error e =>
      rw [visitEach_cons_of_error hvisit]
      exact Function.update_of_ne hne _ _
    | ok _ =>
      rw [visitEach_cons_of_ok hvisit, ih hrest]
      exact Function.update_of_ne hne _ _

/-- The first cell is visited in any case. -/
theorem visitEach_head (h : i ∉ is) : (visitEach visit (i :: is) s).2 i = (visit i (s i)).2 := by
  cases hvisit : (visit i (s i)).1 with
  | error e =>
    rw [visitEach_cons_of_error hvisit]
    exact Function.update_self _ _ _
  | ok _ =>
    rw [visitEach_cons_of_ok hvisit, visitEach_of_not_mem h]
    exact Function.update_self _ _ _

theorem update_eq_of_mem {j : ι} {x : σ} (h : i ∉ is) (hj : j ∈ is) :
    Function.update s i x j = s j :=
  Function.update_of_ne (fun (hsame : j = i) => h (hsame ▸ hj)) _ _

/-- Every cell is visited once or not at all. -/
theorem visitEach_apply (his : is.Nodup) (hi : i ∈ is) :
    (visitEach visit is s).2 i = s i ∨ (visitEach visit is s).2 i = (visit i (s i)).2 := by
  induction is generalizing s with
  | nil => cases hi
  | cons j js ih =>
    obtain ⟨hj, hjs⟩ := List.nodup_cons.1 his
    rcases List.mem_cons.1 hi with rfl | hmem
    · exact .inr (visitEach_head hj)
    · have hother : ∀ x, Function.update s j x i = s i := fun x => update_eq_of_mem hj hmem
      cases hvisit : (visit j (s j)).1 with
      | error e =>
        left
        rw [visitEach_cons_of_error hvisit]
        exact hother _
      | ok _ =>
        rw [visitEach_cons_of_ok hvisit]
        have hrest := @ih (Function.update s j (visit j (s j)).2) hjs hmem
        rwa [hother] at hrest

/-- The round succeeds exactly where every visit does. -/
theorem visitEach_eq_ok (his : is.Nodup) :
    (visitEach visit is s).1 = .ok () ↔ ∀ i ∈ is, (visit i (s i)).1 = .ok () := by
  induction is generalizing s with
  | nil => simp [visitEach]
  | cons j js ih =>
    obtain ⟨hj, hjs⟩ := List.nodup_cons.1 his
    rw [List.forall_mem_cons]
    cases hvisit : (visit j (s j)).1 with
    | error e =>
      rw [visitEach_cons_of_error hvisit]
      simp
    | ok _ =>
      rw [visitEach_cons_of_ok hvisit, ih hjs]
      constructor
      · intro h
        refine ⟨rfl, fun i hi => ?_⟩
        have hrest := h i hi
        rwa [update_eq_of_mem hj hi] at hrest
      · rintro ⟨-, h⟩ i hi
        rw [update_eq_of_mem hj hi]
        exact h i hi

/-- And then every cell has been visited. -/
theorem visitEach_apply_of_ok (his : is.Nodup) (hok : (visitEach visit is s).1 = .ok ()) (hi : i ∈ is) :
    (visitEach visit is s).2 i = (visit i (s i)).2 := by
  induction is generalizing s with
  | nil => cases hi
  | cons j js ih =>
    obtain ⟨hj, hjs⟩ := List.nodup_cons.1 his
    have hvisit : (visit j (s j)).1 = .ok () :=
      (visitEach_eq_ok his).1 hok j List.mem_cons_self
    rcases List.mem_cons.1 hi with rfl | hmem
    · exact visitEach_head hj
    · rw [visitEach_cons_of_ok hvisit] at hok ⊢
      have hrest := ih hjs hok hmem
      rwa [update_eq_of_mem hj hmem] at hrest

end Library
