import Mathlib.Algebra.Order.Group.Defs
import Mathlib.Algebra.Order.Monoid.Unbundled.Basic
import Mathlib.Data.Multiset.Filter
import Mathlib.Tactic.Ring

/-!
# Rate-capped rolls

A roll is the multiset of the dates at which its members joined.  Somebody may
join when fewer than `max floor ⌈n / (d + 1)⌉` of its `n` members joined within
the trailing `width`.  The cap is taken anew for every newcomer, of a roll that
already holds the newcomers of the same window, so over any window the growth
compounds to `max floor ⌈c / d⌉`, where `c` members joined before the window.
-/

namespace Library

section Arithmetic

variable {floor d a c : Nat}

/-- One more newcomer under the cap of the whole roll is under the cap of those
who were there before the window. -/
theorem rateCap_compounds (hd : 1 ≤ d) (h : a < max floor ((a + c + d) / (d + 1))) :
    a + 1 ≤ max floor ((c + d - 1) / d) := by
  rcases lt_max_iff.1 h with hfloor | hshare
  · exact le_max_of_le_left hfloor
  · have hmul : (a + 1) * (d + 1) ≤ a + c + d := (Nat.le_div_iff_mul_le (by omega)).1 hshare
    have hexpand : (a + 1) * (d + 1) = (a + 1) * d + a + 1 := by ring
    refine le_max_of_le_right ((Nat.le_div_iff_mul_le (by omega)).2 ?_)
    omega

theorem rateCap_mono {c' : Nat} (h : c ≤ c') :
    max floor ((c + d - 1) / d) ≤ max floor ((c' + d - 1) / d) :=
  max_le_max (le_refl _) (Nat.div_le_div_right (by omega))

end Arithmetic

variable {τ : Type*} [LinearOrder τ]

/-- How many joined between `first` and `last`. -/
def joinedWithin (first last : τ) (roll : Multiset τ) : Nat :=
  roll.countP (fun t => first ≤ t ∧ t ≤ last)

/-- How many joined before `first`. -/
def joinedBefore (first : τ) (roll : Multiset τ) : Nat :=
  roll.countP (fun t => t < first)

theorem joinedWithin_cons_of_mem {first last t : τ} (h : first ≤ t ∧ t ≤ last)
    (roll : Multiset τ) :
    joinedWithin first last (t ::ₘ roll) = joinedWithin first last roll + 1 :=
  Multiset.countP_cons_of_pos _ h

theorem joinedWithin_cons_of_not_mem {first last t : τ} (h : ¬ (first ≤ t ∧ t ≤ last))
    (roll : Multiset τ) :
    joinedWithin first last (t ::ₘ roll) = joinedWithin first last roll :=
  Multiset.countP_cons_of_neg _ h

theorem joinedBefore_cons_of_le {first t : τ} (h : first ≤ t) (roll : Multiset τ) :
    joinedBefore first (t ::ₘ roll) = joinedBefore first roll :=
  Multiset.countP_cons_of_neg _ (not_lt.2 h)

theorem joinedBefore_le_cons (first t : τ) (roll : Multiset τ) :
    joinedBefore first roll ≤ joinedBefore first (t ::ₘ roll) :=
  Multiset.countP_le_of_le _ (Multiset.le_cons_self roll t)

variable [AddCommGroup τ]

/-- `Grown floor d width roll now`: the roll can have come about by `now`. -/
inductive Grown (floor d : Nat) (width : τ) : Multiset τ → τ → Prop
  | start (now : τ) : Grown floor d width 0 now
  | wait {roll : Multiset τ} {now later : τ} : Grown floor d width roll now → now ≤ later →
      Grown floor d width roll later
  | join {roll : Multiset τ} {now : τ} : Grown floor d width roll now →
      roll.countP (fun t => now - width ≤ t) < max floor ((roll.card + d) / (d + 1)) →
      Grown floor d width (now ::ₘ roll) now

namespace Grown

variable {floor d : Nat} {width now : τ} {roll : Multiset τ}

/-- Nobody joined later than now. -/
theorem le_now (h : Grown floor d width roll now) : ∀ t ∈ roll, t ≤ now := by
  induction h with
  | start now => simp
  | wait _ hle ih => exact fun t ht => (ih t ht).trans hle
  | join _ _ ih =>
    intro t ht
    rcases Multiset.mem_cons.1 ht with rfl | ht
    · exact le_refl _
    · exact ih t ht

/-- Where the window reaches to now, everybody joined in it or before it. -/
theorem card_eq (h : Grown floor d width roll now) {first last : τ} (hnow : now ≤ last) :
    roll.card = joinedWithin first last roll + joinedBefore first roll := by
  have hwithin : joinedWithin first last roll = roll.countP (fun t => ¬ t < first) := by
    refine Multiset.countP_congr rfl (fun t ht => ?_)
    have hle : t ≤ last := (h.le_now t ht).trans hnow
    simp [hle]
  have hsplit := Multiset.card_eq_countP_add_countP (fun t => t < first) roll
  rw [hwithin, joinedBefore]
  omega

variable [IsOrderedAddMonoid τ]

/-- The bound over every window, whether it ends in the past or in the future. -/
theorem window_le (hd : 1 ≤ d) (h : Grown floor d width roll now) (last : τ) :
    joinedWithin (last - width) last roll ≤
      max floor ((joinedBefore (last - width) roll + d - 1) / d) := by
  induction h with
  | start now => exact Nat.zero_le _
  | wait _ _ ih => exact ih
  | @join roll now hroll hcap ih =>
    by_cases hin : last - width ≤ now ∧ now ≤ last
    · -- The newcomer is in the window: the cap it passed counts at least those.
      rw [joinedWithin_cons_of_mem hin, joinedBefore_cons_of_le hin.1]
      apply rateCap_compounds hd
      have hrecent : joinedWithin (last - width) last roll ≤
          roll.countP (fun t => now - width ≤ t) := by
        simp only [joinedWithin, Multiset.countP_eq_card_filter]
        refine Multiset.card_le_card (Multiset.monotone_filter_right roll (fun t ht => ?_))
        exact (sub_le_sub_right hin.2 width).trans ht.1
      rw [hroll.card_eq hin.2] at hcap
      exact lt_of_le_of_lt hrecent hcap
    · -- Before or after the window the newcomer only raises the bound.
      rw [joinedWithin_cons_of_not_mem hin]
      exact ih.trans (rateCap_mono (joinedBefore_le_cons _ _ _))

end Grown

end Library
