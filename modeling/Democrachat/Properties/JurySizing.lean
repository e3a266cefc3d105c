import Democrachat.Domain.Jury

/-!
# The size of a panel

Within `u32` parameters and electorates no product overflows, and what the laws aim at is
monotone in the electorate; so is what the clamp makes of it, whose upper bound grows along.
-/

namespace Democrachat

namespace JurySizing

/-- What the law aims at, before the clamp. -/
def target (scale : ContentScale) (citizens : Nat) : JurySizing → Nat
  | sqrt post comment =>
    citizens.sqrt * (match scale with | .post => post | .comment => comment) / 10000
  | proportion post comment =>
    citizens * (match scale with | .post => post | .comment => comment) / 10000
  | fixed post comment => match scale with | .post => post | .comment => comment

/-- The largest panel that is less than half of the electorate. -/
def cap (citizens : Nat) : Nat := (citizens - 1) / 2

theorem checkedMul_eq {a b : Nat} (ha : a < 2 ^ 32) (hb : b < 2 ^ 32) :
    checkedMul a b = some (a * b) := by
  have hprod : a * b < 2 ^ 32 * 2 ^ 32 := Nat.mul_lt_mul'' ha hb
  rw [checkedMul, if_pos (by rwa [← Nat.pow_add] at hprod)]

theorem jurySize_eq {sizing : JurySizing} (hfits : sizing.Fits) {citizens : Nat}
    (hcitizens : citizens < 2 ^ 32) (scale : ContentScale) :
    sizing.jurySize citizens scale =
      some (if cap citizens = 0 then 0 else clamp (sizing.target scale citizens) 1 (cap citizens)) := by
  have hsqrt : citizens.sqrt < 2 ^ 32 := Nat.lt_of_le_of_lt (Nat.sqrt_le_self citizens) hcitizens
  by_cases hcap : cap citizens = 0
  · rw [if_pos hcap]
    exact if_pos hcap
  · rw [if_neg hcap, jurySize]
    simp only [show (citizens - 1) / 2 = cap citizens from rfl, if_neg hcap]
    cases sizing with
    | sqrt post comment =>
      cases scale with
      | post => simp [target, checkedMul_eq hsqrt hfits.1]
      | comment => simp [target, checkedMul_eq hsqrt hfits.2]
    | proportion post comment =>
      cases scale with
      | post => simp [target, checkedMul_eq hcitizens hfits.1]
      | comment => simp [target, checkedMul_eq hcitizens hfits.2]
    | fixed post comment =>
      cases scale with
      | post => rfl
      | comment => rfl

/-- More citizens, no smaller an aim. -/
theorem target_mono (sizing : JurySizing) (scale : ContentScale) {n m : Nat} (h : n ≤ m) :
    sizing.target scale n ≤ sizing.target scale m := by
  cases sizing with
  | sqrt post comment =>
    exact Nat.div_le_div_right (Nat.mul_le_mul_right _ (Nat.sqrt_le_sqrt h))
  | proportion post comment => exact Nat.div_le_div_right (Nat.mul_le_mul_right _ h)
  | fixed post comment => exact Nat.le_refl _

theorem cap_mono {n m : Nat} (h : n ≤ m) : cap n ≤ cap m := by
  unfold cap
  omega

theorem cap_eq_zero {citizens : Nat} : cap citizens = 0 ↔ citizens < 3 := by
  unfold cap
  omega

theorem clamp_range {n low high : Nat} (h : low ≤ high) :
    low ≤ clamp n low high ∧ clamp n low high ≤ high := by
  unfold clamp
  split
  next => exact ⟨Nat.le_refl _, h⟩
  next =>
    split
    next => exact ⟨h, Nat.le_refl _⟩
    next => omega

/-- A clamp whose upper bound moves along is monotone. -/
theorem clamp_mono {n m low high high' : Nat} (hlow : low ≤ high) (h : n ≤ m)
    (hhigh : high ≤ high') : clamp n low high ≤ clamp m low high' := by
  unfold clamp
  by_cases hn : n < low
  · rw [if_pos hn]
    split
    · exact Nat.le_refl _
    · split
      · omega
      · omega
  · rw [if_neg hn, if_neg (show ¬ m < low by omega)]
    split
    · split
      · omega
      · omega
    · split
      · omega
      · omega

end JurySizing

open JurySizing in
/-- The size is computed without overflow; it is none exactly for less than three citizens, and
else at least one and less than half of them; and more citizens have no smaller a panel. -/
theorem jury_sized (sizing : JurySizing) (hfits : sizing.Fits) (scale : ContentScale)
    (citizens : Nat) (hcitizens : citizens < 2 ^ 32) :
    ∃ size, sizing.jurySize citizens scale = some size ∧
      (size = 0 ↔ citizens < 3) ∧ (3 ≤ citizens → 1 ≤ size ∧ 2 * size < citizens) ∧
      ∀ citizens', citizens ≤ citizens' → citizens' < 2 ^ 32 →
        ∃ size', sizing.jurySize citizens' scale = some size' ∧ size ≤ size' := by
  refine ⟨_, jurySize_eq hfits hcitizens scale, ?_, ?_, ?_⟩
  · by_cases hcap : cap citizens = 0
    · simp [hcap, cap_eq_zero.1 hcap]
    · have hlow := (clamp_range (n := sizing.target scale citizens)
        (show 1 ≤ cap citizens by omega)).1
      rw [if_neg hcap, ← cap_eq_zero]
      omega
  · intro hthree
    have hcap : cap citizens ≠ 0 := fun h => absurd (cap_eq_zero.1 h) (by omega)
    obtain ⟨hlow, hhigh⟩ := clamp_range (n := sizing.target scale citizens)
      (show 1 ≤ cap citizens by omega)
    have hhalf : 2 * cap citizens < citizens := by
      unfold cap
      omega
    rw [if_neg hcap]
    omega
  · intro citizens' hle hcitizens'
    refine ⟨_, jurySize_eq hfits hcitizens' scale, ?_⟩
    by_cases hcap : cap citizens = 0
    · rw [if_pos hcap]
      exact Nat.zero_le _
    · have hcaps := cap_mono hle
      rw [if_neg hcap, if_neg (show ¬ cap citizens' = 0 by omega)]
      exact clamp_mono (by omega) (sizing.target_mono scale hle) hcaps

/-- The platform's default for ten thousand citizens. -/
theorem jury_sized_default : ∃ size,
    JurySizing.default.jurySize 10000 .post = some size ∧ (size = 0 ↔ 10000 < 3) ∧
      (3 ≤ 10000 → 1 ≤ size ∧ 2 * size < 10000) ∧
      ∀ citizens', 10000 ≤ citizens' → citizens' < 2 ^ 32 →
        ∃ size', JurySizing.default.jurySize citizens' .post = some size' ∧ size ≤ size' :=
  jury_sized .default ⟨by decide, by decide⟩ .post 10000 (by decide)

end Democrachat
