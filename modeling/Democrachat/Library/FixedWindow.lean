import Mathlib.Data.List.Basic

/-!
# Fixed-window counters

A counter admits a number of hits until it is set back, and the first hit after that starts the
next window.  Within a window no more than the limit is admitted, and a span as long as a window
meets two of them at most.
-/

namespace Library

/-- A counter, and when it is set back. -/
structure Counter where
  count : Nat
  resetAt : Nat
deriving DecidableEq

namespace Counter

/-- The counter while its window runs. -/
def live (now : Nat) (c : Option Counter) : Option Counter :=
  c.filter (fun w => decide (now < w.resetAt))

section

variable (limit width : Nat)

/-- The counter of the running window, or that of a new one. -/
def current (c : Option Counter) (now : Nat) : Counter := (live now c).getD ⟨0, now + width⟩

def admits (c : Option Counter) (now : Nat) : Bool :=
  decide ((current width c now).count < limit)

/-- A hit counts where it is admitted. -/
def hit (c : Option Counter) (now : Nat) : Counter :=
  if (current width c now).count < limit then
    { current width c now with count := (current width c now).count + 1 }
  else current width c now

/-- The times of the hits, and which of them are admitted. -/
def run : Option Counter → List Nat → List (Nat × Bool)
  | _, [] => []
  | c, t :: ts => (t, admits limit width c t) :: run (some (hit limit width c t)) ts

/-- The counter after these hits. -/
def after : Option Counter → List Nat → Option Counter
  | c, [] => c
  | c, t :: ts => after (some (hit limit width c t)) ts

end

/-- How many are admitted from one time on until another. -/
def admittedWithin (start stop : Nat) (l : List (Nat × Bool)) : Nat :=
  l.countP (fun x => x.2 && decide (start ≤ x.1 ∧ x.1 < stop))

variable (limit width : Nat) {c : Option Counter} {w : Counter} {now : Nat}

/-! ## One hit -/

theorem live_eq_some : live now c = some w ↔ c = some w ∧ now < w.resetAt := by
  rw [live, Option.filter_eq_some_iff, decide_eq_true_eq]

theorem live_of_lt (h : now < w.resetAt) : live now (some w) = some w :=
  live_eq_some.2 ⟨rfl, h⟩

theorem live_of_le (h : w.resetAt ≤ now) : live now (some w) = none := by
  rw [live, Option.filter_some, if_neg]
  simpa using h

/-- What has run out stays so. -/
theorem live_live {later : Nat} (h : now ≤ later) : live later (live now c) = live later c := by
  cases c with
  | none => rfl
  | some w =>
    by_cases hnow : now < w.resetAt
    · rw [live_of_lt hnow]
    · rw [live_of_le (w := w) (by omega), live_of_le (w := w) (by omega)]
      rfl

theorem live_eq_of_le {c' : Option Counter} {later : Nat} (h : live now c = live now c')
    (hle : now ≤ later) : live later c = live later c' := by
  rw [← live_live hle, h, live_live hle]

/-- What has run out counts as nothing. -/
theorem current_eq_of_live {c' : Option Counter} (h : live now c = live now c') :
    current width c now = current width c' now := by
  rw [current, current, h]

theorem hit_eq_of_live {c' : Option Counter} (h : live now c = live now c') :
    hit limit width c now = hit limit width c' now := by
  rw [hit, hit, current_eq_of_live width h]

theorem resetAt_hit (c : Option Counter) (now : Nat) :
    (hit limit width c now).resetAt = (current width c now).resetAt := by
  unfold hit
  split
  · rfl
  · rfl

theorem resetAt_current_of_none (h : live now c = none) :
    (current width c now).resetAt = now + width := by
  rw [current, h]
  rfl

theorem lt_resetAt_hit (c : Option Counter) (now : Nat) (hwidth : 0 < width) :
    now < (hit limit width c now).resetAt := by
  rw [resetAt_hit, current]
  cases hlive : live now c with
  | none =>
    show now < now + width
    omega
  | some w => exact (live_eq_some.1 hlive).2

/-! ## Runs -/

theorem map_fst_run (c : Option Counter) (ts : List Nat) :
    (run limit width c ts).map Prod.fst = ts := by
  induction ts generalizing c with
  | nil => rfl
  | cons t ts ih => rw [run, List.map_cons, ih]

theorem run_append (c : Option Counter) (ts ts' : List Nat) :
    run limit width c (ts ++ ts') =
      run limit width c ts ++ run limit width (after limit width c ts) ts' := by
  induction ts generalizing c with
  | nil => rfl
  | cons t ts ih => rw [List.cons_append, run, run, ih, after, List.cons_append]

theorem after_append (c : Option Counter) (ts ts' : List Nat) :
    after limit width c (ts ++ ts') = after limit width (after limit width c ts) ts' := by
  induction ts generalizing c with
  | nil => rfl
  | cons t ts ih => rw [List.cons_append, after, after, ih]

theorem admittedWithin_eq_zero {start stop : Nat} {ts : List Nat}
    (h : ∀ t ∈ ts, t < start ∨ stop ≤ t) :
    admittedWithin start stop (run limit width c ts) = 0 := by
  refine List.countP_eq_zero.2 (fun x hx => ?_)
  have ht := h x.1 (map_fst_run limit width c ts ▸ List.mem_map_of_mem hx)
  rw [Bool.and_eq_true, decide_eq_true_eq]
  omega

theorem admittedWithin_cons (c : Option Counter) (start stop t : Nat) (ts : List Nat) :
    admittedWithin start stop (run limit width c (t :: ts)) ≤
      admittedWithin start stop (run limit width (some (hit limit width c t)) ts) +
        if admits limit width c t then 1 else 0 := by
  rw [run, admittedWithin, List.countP_cons]
  refine Nat.add_le_add_left ?_ _
  cases hadmits : admits limit width c t
  · exact Nat.le_refl _
  · split
    · exact Nat.le_refl _
    · exact Nat.zero_le _

/-- What a hit takes of the window that it falls into. -/
theorem budget_hit (c : Option Counter) (t : Nat) :
    (limit - (hit limit width c t).count) + (if admits limit width c t then 1 else 0) ≤
      limit - (current width c t).count := by
  unfold hit admits
  by_cases h : (current width c t).count < limit
  · rw [if_pos h, if_pos (decide_eq_true h)]
    show limit - ((current width c t).count + 1) + 1 ≤ _
    omega
  · rw [if_neg h, if_neg (by simpa using h)]
    omega

/-- Until it is set back a counter admits what it has left. -/
theorem admittedWithin_running (start : Nat) {stop : Nat} {ts : List Nat} (hsorted : ts.Pairwise (· ≤ ·))
    (hstop : stop ≤ w.resetAt) :
    admittedWithin start stop (run limit width (some w) ts) ≤ limit - w.count := by
  induction ts generalizing w with
  | nil => exact Nat.zero_le _
  | cons t ts ih =>
    obtain ⟨hle, hsorted⟩ := List.pairwise_cons.1 hsorted
    by_cases ht : t < w.resetAt
    · have hcurrent : current width (some w) t = w := by rw [current, live_of_lt ht]; rfl
      have hreset := resetAt_hit limit width (some w) t
      have hbudget := budget_hit limit width (some w) t
      rw [hcurrent] at hreset hbudget
      have hrest := ih hsorted (hreset.symm ▸ hstop)
      have hcons := admittedWithin_cons limit width (some w) start stop t ts
      omega
    · rw [admittedWithin_eq_zero]
      · exact Nat.zero_le _
      · intro t' ht'
        rcases List.mem_cons.1 ht' with rfl | ht'
        · omega
        · have := hle t' ht'
          omega

/-- A window admits no more than the limit. -/
theorem admittedWithin_fresh (start : Nat) {stop t : Nat} {ts : List Nat}
    (hsorted : (t :: ts).Pairwise (· ≤ ·)) (hlive : live t c = none) (hstop : stop ≤ t + width) :
    admittedWithin start stop (run limit width c (t :: ts)) ≤ limit := by
  have hcurrent : current width c t = ⟨0, t + width⟩ := by rw [current, hlive]; rfl
  have hreset := resetAt_hit limit width c t
  have hbudget := budget_hit limit width c t
  rw [hcurrent] at hreset hbudget
  have hrest := admittedWithin_running limit width start (List.pairwise_cons.1 hsorted).2
    (Nat.le_trans hstop (Nat.le_of_eq hreset.symm))
  have hcons := admittedWithin_cons limit width c start stop t ts
  show _ ≤ limit
  have hzero : limit - (⟨0, t + width⟩ : Counter).count = limit := rfl
  omega

/-- A span that starts while a window runs meets the next one at most. -/
theorem admittedWithin_two (start : Nat) {stop : Nat} {ts : List Nat}
    (hsorted : ts.Pairwise (· ≤ ·)) (hstop : stop ≤ w.resetAt + width) :
    admittedWithin start stop (run limit width (some w) ts) ≤ (limit - w.count) + limit := by
  induction ts generalizing w with
  | nil => exact Nat.zero_le _
  | cons t ts ih =>
    by_cases ht : t < w.resetAt
    · have hcurrent : current width (some w) t = w := by rw [current, live_of_lt ht]; rfl
      have hreset := resetAt_hit limit width (some w) t
      have hbudget := budget_hit limit width (some w) t
      rw [hcurrent] at hreset hbudget
      have hrest := ih (List.pairwise_cons.1 hsorted).2
        (Nat.le_trans hstop (Nat.le_of_eq (by rw [hreset])))
      have hcons := admittedWithin_cons limit width (some w) start stop t ts
      omega
    · have hlive : live t (some w) = none := live_of_le (by omega)
      have hfresh := admittedWithin_fresh limit width start hsorted hlive
        (show stop ≤ t + width by omega)
      omega

/-- No span as long as a window meets more than two windows. -/
theorem admittedWithin_span (c : Option Counter) (start : Nat) {ts : List Nat}
    (hsorted : ts.Pairwise (· ≤ ·)) :
    admittedWithin start (start + width) (run limit width c ts) ≤ 2 * limit := by
  induction ts generalizing c with
  | nil => exact Nat.zero_le _
  | cons t ts ih =>
    by_cases ht : t < start
    · have hrest := ih (some (hit limit width c t)) (List.pairwise_cons.1 hsorted).2
      have hskip : (admits limit width c t &&
          decide (start ≤ t ∧ t < start + width)) = false := by
        rw [decide_eq_false (by omega), Bool.and_false]
      rw [run, admittedWithin, List.countP_cons]
      simp only [hskip]
      exact hrest
    · cases hlive : live t c with
      | none =>
        have hfresh := admittedWithin_fresh limit width start hsorted hlive
          (show start + width ≤ t + width by omega)
        omega
      | some w =>
        obtain ⟨rfl, hlt⟩ := live_eq_some.1 hlive
        have htwo := admittedWithin_two limit width start hsorted
          (show start + width ≤ w.resetAt + width by omega)
        omega

/-- Where a window starts, the limit holds from there to its end for the whole run. -/
theorem admittedWithin_window (hwidth : 0 < width) {ts ts' : List Nat} {t : Nat}
    (hsorted : (ts ++ t :: ts').Pairwise (· ≤ ·))
    (hlive : live t (after limit width none ts) = none) :
    admittedWithin t (t + width) (run limit width none (ts ++ t :: ts')) ≤ limit := by
  obtain ⟨hbefore, hafter, hle⟩ := List.pairwise_append.1 hsorted
  have hearlier : ∀ t' ∈ ts, t' < t := by
    rcases List.eq_nil_or_concat ts with rfl | ⟨front, last, rfl⟩
    · exact fun _ ht' => nomatch ht'
    · rw [List.concat_eq_append] at hlive hbefore ⊢
      have hlast : last < t := by
        rw [after_append, after, after] at hlive
        by_contra hnot
        have hreset := lt_resetAt_hit limit width (after limit width none front) last hwidth
        rw [live_of_lt (by omega)] at hlive
        cases hlive
      intro t' ht'
      rcases List.mem_append.1 ht' with ht' | ht'
      · have hle := (List.pairwise_append.1 hbefore).2.2 t' ht' last (List.mem_singleton_self last)
        omega
      · rw [List.mem_singleton.1 ht']
        exact hlast
  rw [run_append, admittedWithin, List.countP_append]
  have hnone : admittedWithin t (t + width) (run limit width none ts) = 0 :=
    admittedWithin_eq_zero limit width (fun t' ht' => .inl (hearlier t' ht'))
  have hfresh := admittedWithin_fresh limit width t hafter hlive (Nat.le_refl _)
  rw [admittedWithin] at hnone hfresh
  omega

end Counter

end Library
