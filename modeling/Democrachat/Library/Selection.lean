import Democrachat.Library.Table
import Mathlib.Order.WithBot
import Mathlib.Data.Prod.Lex
import Mathlib.Data.List.Induction
import Mathlib.Data.List.MinMax
import Mathlib.Algebra.Group.Nat.Defs

/-!
# Selecting a least element

A fold that goes from each element to the next where the comparison says that it is the
greater one.  Elements that compare as greater with everything, as the NaN of `Binary64` below
do, throw away what was selected before them.
-/

namespace Library

section

variable {α K : Type} [LinearOrder K]

/-- How a list is compared: by rank, but for the odd elements, which rank above the others and
are greater than whatever they are compared with. -/
structure Selects (cmp : α → α → Ordering) (rank : α → K) (odd : α → Prop) : Prop where
  gt_iff : ∀ x y, ¬ odd x → ¬ odd y → (cmp x y = .gt ↔ rank y < rank x)
  gt_of_odd : ∀ x y, odd x ∨ odd y → cmp x y = .gt
  above : ∀ x y, ¬ odd x → odd y → rank x < rank y

def select (cmp : α → α → Ordering) (x y : α) : α := if cmp x y = .gt then y else x

/-- `s` stands in the list and nothing odd behind it. -/
structure Standing (odd : α → Prop) (s : α) (as : List α) : Prop where
  exists_split : ∃ before after, as = before ++ s :: after ∧ ∀ x ∈ after, ¬ odd x

theorem standing_concat {odd : α → Prop} {s y : α} {as : List α} :
    Standing odd s (as ++ [y]) ↔ s = y ∨ Standing odd s as ∧ ¬ odd y := by
  constructor
  · rintro ⟨before, after, hsplit, hafter⟩
    rcases concat_eq_split hsplit with ⟨-, rfl, -⟩ | ⟨rest, rfl, rfl⟩
    · exact .inl rfl
    · refine .inr ⟨⟨before, rest, rfl, ?_⟩, ?_⟩
      · exact fun x hx => hafter x (List.mem_append_left _ hx)
      · exact hafter y (List.mem_append_right _ (List.mem_singleton_self y))
  · rintro (rfl | ⟨⟨before, after, rfl, hafter⟩, hy⟩)
    · exact ⟨as, [], rfl, nofun⟩
    · refine ⟨before, after ++ [y], by simp, ?_⟩
      intro x hx
      rcases List.mem_append.1 hx with hold | hnew
      · exact hafter x hold
      · rwa [List.mem_singleton.1 hnew]

variable {cmp : α → α → Ordering} {rank : α → K} {odd : α → Prop} (h : Selects cmp rank odd)
include h

/-- The fold selects a least one of those that stand. -/
theorem Selects.foldl (a : α) (as : List α) :
    Standing odd (as.foldl (select cmp) a) (a :: as) ∧
      ∀ s, Standing odd s (a :: as) → rank (as.foldl (select cmp) a) ≤ rank s := by
  -- By the elements seen so far; an odd one, or one after an odd one, stands alone.
  induction as using List.reverseRecOn with
  | nil =>
    refine ⟨⟨[], [], rfl, nofun⟩, ?_⟩
    intro s hs
    have hstands : Standing odd s ([] ++ [a]) := hs
    rcases standing_concat.1 hstands with rfl | ⟨⟨before, after, hsplit, -⟩, -⟩
    · exact le_refl _
    · simp at hsplit
  | append_singleton as y ih =>
    obtain ⟨hstanding, hleast⟩ := ih
    rw [List.foldl_append, List.foldl_cons, List.foldl_nil, ← List.cons_append]
    generalize as.foldl (select cmp) a = r at hstanding hleast ⊢
    unfold select
    by_cases hodd : odd r ∨ odd y
    · rw [if_pos (h.gt_of_odd r y hodd)]
      refine ⟨standing_concat.2 (.inl rfl), ?_⟩
      intro s hs
      rcases standing_concat.1 hs with rfl | ⟨hbefore, hy⟩
      · exact le_refl _
      · have hr : odd r := hodd.resolve_right hy
        exact (h.above y r hy hr).le.trans (hleast s hbefore)
    · have hr : ¬ odd r := fun hr => hodd (.inl hr)
      have hy : ¬ odd y := fun hy => hodd (.inr hy)
      by_cases hgt : cmp r y = .gt
      · rw [if_pos hgt]
        have hlt := (h.gt_iff r y hr hy).1 hgt
        refine ⟨standing_concat.2 (.inl rfl), ?_⟩
        intro s hs
        rcases standing_concat.1 hs with rfl | ⟨hbefore, -⟩
        · exact le_refl _
        · exact hlt.le.trans (hleast s hbefore)
      · rw [if_neg hgt]
        have hle := not_lt.1 (fun hlt => hgt ((h.gt_iff r y hr hy).2 hlt))
        refine ⟨standing_concat.2 (.inr ⟨hstanding, hy⟩), ?_⟩
        intro s hs
        rcases standing_concat.1 hs with rfl | ⟨hbefore, -⟩
        · exact hle
        · exact hleast s hbefore

/-- It selects a least one of all exactly where a least one stands. -/
theorem Selects.least_iff (a : α) (as : List α) :
    (∀ x ∈ a :: as, rank (as.foldl (select cmp) a) ≤ rank x) ↔
      ∃ s, (∀ x ∈ a :: as, rank s ≤ rank x) ∧ Standing odd s (a :: as) := by
  obtain ⟨hstanding, hleast⟩ := h.foldl a as
  constructor
  · exact fun hall => ⟨_, hall, hstanding⟩
  · rintro ⟨s, hall, hs⟩ x hx
    exact (hleast s hs).trans (hall x hx)

end

/-! ## Where everything compares -/

/-- A chain of comparisons goes by the lexicographic order. -/
theorem compare_then_eq_gt {A B C : Type} [LinearOrder A] [LinearOrder B] [LinearOrder C]
    {a a' : A} {b b' : B} {c c' : C} :
    ((compare a a').then (compare b b')).then (compare c c') = .gt ↔
      toLex (a', toLex (b', c')) < toLex (a, toLex (b, c)) := by
  simp only [Ordering.then_eq_gt, Ordering.then_eq_eq, Prod.Lex.toLex_lt_toLex, compare_gt_iff_gt,
    compare_eq_iff_eq]
  constructor
  · rintro ((h | ⟨h, h'⟩) | ⟨⟨h, h'⟩, h''⟩)
    · exact .inl h
    · exact .inr ⟨h.symm, .inl h'⟩
    · exact .inr ⟨h.symm, .inr ⟨h'.symm, h''⟩⟩
  · rintro (h | ⟨h, h' | ⟨h', h''⟩⟩)
    · exact .inl (.inl h)
    · exact .inl (.inr ⟨h.symm, h'⟩)
    · exact .inr ⟨⟨h.symm, h'.symm⟩, h''⟩

section

variable {α β K : Type} [LinearOrder K]

/-- Where the comparison goes by rank, the fold selects what `argmin` does. -/
theorem foldl_select_eq_argmin {cmp : α → α → Ordering} {rank : α → K} (a : α) (as : List α)
    (h : ∀ x ∈ a :: as, ∀ y ∈ a :: as, cmp x y = .gt ↔ rank y < rank x) :
    some (as.foldl (select cmp) a) = (a :: as).argmin rank := by
  induction as using List.reverseRecOn with
  | nil => rfl
  | append_singleton as y ih =>
    have hsub : ∀ x ∈ a :: as, x ∈ a :: (as ++ [y]) := fun x hx => List.mem_append_left [y] hx
    have hy : y ∈ a :: (as ++ [y]) := List.mem_append_right (a :: as) (List.mem_singleton_self y)
    have hfold := ih (fun x hx z hz => h x (hsub x hx) z (hsub z hz))
    have hmem : as.foldl (select cmp) a ∈ a :: as := List.argmin_mem hfold.symm
    have hiff := h _ (hsub _ hmem) y hy
    rw [← List.cons_append, List.argmin_concat, ← hfold, List.foldl_append, List.foldl_cons,
      List.foldl_nil, select, apply_ite some]
    exact if_congr hiff rfl rfl

/-- Equal ranks tell the same, so it does not matter which least element is found. -/
theorem map_argmin_eq_some {rank : α → K} {g : α → β} {l : List α} {b : β}
    (h : ∀ x ∈ l, ∀ y ∈ l, rank x = rank y → g x = g y) :
    (l.argmin rank).map g = some b ↔ ∃ s ∈ l, g s = b ∧ ∀ t ∈ l, rank s ≤ rank t := by
  constructor
  · intro hmap
    obtain ⟨s, hs, rfl⟩ := Option.map_eq_some_iff.1 hmap
    exact ⟨s, List.argmin_mem hs, rfl, fun t ht => List.le_of_mem_argmin ht hs⟩
  · rintro ⟨s, hs, rfl, hleast⟩
    have hsome : l.argmin rank ≠ none := fun hnone =>
      List.ne_nil_of_mem hs (List.argmin_eq_none.1 hnone)
    obtain ⟨m, hm⟩ := Option.ne_none_iff_exists'.1 hsome
    have hmem := List.argmin_mem hm
    have heq : rank m = rank s := le_antisymm (List.le_of_mem_argmin hs hm) (hleast m hmem)
    rw [hm, Option.map_some, h m hmem s hs heq]

end

/-! ## Numbers that may not compare -/

/-- The bits of an IEEE 754 `binary64`. -/
structure Binary64 where
  bits : BitVec 64
deriving DecidableEq

namespace Binary64

def magnitude (x : Binary64) : Nat := x.bits.toNat % 2 ^ 63

/-- Everything above the bits of infinity. -/
def isNaN (x : Binary64) : Bool := decide (0x7ff * 2 ^ 52 < x.magnitude)

/-- Numbers compare as their signed magnitudes do; the two zeros are one. -/
def key (x : Binary64) : Int := if x.bits.msb then -x.magnitude else x.magnitude

def partialCmp (x y : Binary64) : Option Ordering :=
  if x.isNaN || y.isNaN then none else some (compare x.key y.key)

/-- In the order that puts NaN above the numbers. -/
def rank (x : Binary64) : WithTop Int := if x.isNaN then ⊤ else x.key

theorem rank_of_isNaN {x : Binary64} (h : x.isNaN = true) : x.rank = ⊤ := if_pos h

theorem rank_of_not_isNaN {x : Binary64} (h : ¬ x.isNaN = true) : x.rank = (x.key : WithTop Int) :=
  if_neg h

theorem partialCmp_of_isNaN {x y : Binary64} (h : x.isNaN = true ∨ y.isNaN = true) :
    partialCmp x y = none := by
  rw [partialCmp, if_pos (Bool.or_eq_true_iff.2 h)]

theorem partialCmp_of_not_isNaN {x y : Binary64} (hx : ¬ x.isNaN = true) (hy : ¬ y.isNaN = true) :
    partialCmp x y = some (compare x.key y.key) := by
  rw [partialCmp, if_neg]
  rw [Bool.or_eq_true_iff, not_or]
  exact ⟨hx, hy⟩

end Binary64

end Library
