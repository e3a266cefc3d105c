import Mathlib.Data.List.Basic
import Mathlib.Algebra.Ring.Nat

/-!
# Lines

Parts joined by a separator, with nothing escaped.  A join can be cut in many ways into as many
parts; where it has parts without a separator, in no other.
-/

namespace Library

variable {α : Type*} [DecidableEq α] {sep : α}

/-- The separators of a join: those between its parts, and those in them. -/
theorem count_intercalate (l : List α) (ls : List (List α)) :
    ([sep].intercalate (l :: ls)).count sep =
      ls.length + ((l :: ls).map (List.count sep)).sum := by
  induction ls generalizing l with
  | nil => simp
  | cons m ls ih =>
    have hsum : ((l :: m :: ls).map (List.count sep)).sum =
        l.count sep + ((m :: ls).map (List.count sep)).sum := List.sum_cons
    rw [List.intercalate_cons_cons, List.count_append, List.count_append, ih,
      List.count_singleton_self, List.length_cons, hsum]
    omega

/-- Among equally many parts, those without a separator are the only ones with their join. -/
theorem eq_of_intercalate {xs ys : List (List α)} (hxs : ∀ l ∈ xs, sep ∉ l)
    (hlength : ys.length = xs.length) (h : [sep].intercalate ys = [sep].intercalate xs) :
    ys = xs := by
  cases xs with
  | nil => exact List.length_eq_zero_iff.1 hlength
  | cons x xs =>
    cases ys with
    | nil => cases hlength
    | cons y ys =>
      have hnone : ((x :: xs).map (List.count sep)).sum = 0 := by
        rw [List.sum_eq_zero_iff_forall_eq_nat]
        intro n hn
        obtain ⟨l, hl, rfl⟩ := List.mem_map.1 hn
        exact List.count_eq_zero_of_not_mem (hxs l hl)
      have hcount := congrArg (List.count sep) h
      rw [count_intercalate, count_intercalate, hnone] at hcount
      rw [List.length_cons, List.length_cons] at hlength
      have hsum : ((y :: ys).map (List.count sep)).sum = 0 := by omega
      have hys : ∀ l ∈ y :: ys, sep ∉ l := by
        intro l hl
        rw [List.sum_eq_zero_iff_forall_eq_nat] at hsum
        exact List.count_eq_zero.1 (hsum _ (List.mem_map_of_mem hl))
      have hsplit := congrArg (List.splitOn sep) h
      rw [List.splitOn_intercalate sep hys (List.cons_ne_nil y ys),
        List.splitOn_intercalate sep hxs (List.cons_ne_nil x xs)] at hsplit
      exact hsplit

end Library
