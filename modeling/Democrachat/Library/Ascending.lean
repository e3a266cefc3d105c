import Mathlib.Data.List.Sort

/-!
# Logs in ascending order

Lists whose entries carry a position of their own: prefixes, what lies ahead of a
position, and the highest position of a part.
-/

namespace Library

variable {α : Type*}

/-- A prefix has a hit exactly when the list has one and fewer misses before it. -/
theorem exists_mem_take_iff (q : α → Bool) (l : List α) (n : Nat) :
    (∃ a ∈ l.take n, q a = true) ↔
      (∃ a ∈ l, q a = true) ∧ (l.takeWhile (fun a => !q a)).length < n := by
  induction l generalizing n with
  | nil => simp
  | cons a l ih =>
    cases n with
    | zero => simp
    | succ n =>
      by_cases ha : q a = true
      · simp [ha]
      · simp [ha, ih]

/-- What comes after a prefix of a sorted list is above all of it. -/
theorem lt_of_mem_take {l : List α} {key : α → Nat} (hl : l.Pairwise (fun a b => key a < key b))
    {n : Nat} {a b : α} (ha : a ∈ l.take n) (hb : b ∈ l) (hout : b ∉ l.take n) :
    key a < key b := by
  rw [← List.take_append_drop n l] at hl hb
  rcases List.mem_append.1 hb with hb | hb
  · exact absurd hb hout
  · exact (List.pairwise_append.1 hl).2.2 a ha b hb

/-- A position is that of one entry. -/
theorem eq_of_key_eq {l : List α} {key : α → Nat} (hl : l.Pairwise (fun a b => key a < key b))
    {a b : α} (ha : a ∈ l) (hb : b ∈ l) (h : key a = key b) : a = b := by
  have hnodup : (l.map key).Nodup := List.pairwise_map.2 (hl.imp Nat.ne_of_lt)
  exact List.inj_on_of_nodup_map hnodup ha hb h

theorem le_foldl_max (key : α → Nat) (l : List α) (high : Nat) :
    high ≤ l.foldl (fun high a => max high (key a)) high ∧
      ∀ a ∈ l, key a ≤ l.foldl (fun high a => max high (key a)) high := by
  induction l generalizing high with
  | nil => exact ⟨Nat.le_refl _, fun _ h => (nomatch h)⟩
  | cons b l ih =>
    obtain ⟨hhigh, hall⟩ := ih (max high (key b))
    rw [List.foldl_cons]
    refine ⟨by omega, fun a ha => ?_⟩
    rcases List.mem_cons.1 ha with rfl | ha
    · omega
    · exact hall a ha

theorem foldl_max_lt {key : α → Nat} {l : List α} {high bound : Nat} (hhigh : high < bound)
    (hl : ∀ a ∈ l, key a < bound) : l.foldl (fun high a => max high (key a)) high < bound := by
  induction l generalizing high with
  | nil => exact hhigh
  | cons b l ih =>
    have hb := hl b List.mem_cons_self
    exact ih (Nat.max_lt.2 ⟨hhigh, hb⟩) (fun a ha => hl a (List.mem_cons_of_mem _ ha))

/-- Past the first entries ahead of a position, the others are ahead. -/
theorem filter_lt_of_append {key : α → Nat} {l done rest : List α} {since : Nat}
    (hl : l.Pairwise (fun a b => key a < key b))
    (h : l.filter (fun a => since < key a) = done ++ rest) :
    l.filter (fun a => done.foldl (fun high a => max high (key a)) since < key a) = rest := by
  have hsorted : (done ++ rest).Pairwise (fun a b => key a < key b) := by
    rw [← h]
    exact hl.filter _
  have hle := le_foldl_max key done since
  have hpast : ∀ a ∈ done ++ rest, since < key a := by
    intro a ha
    rw [← h] at ha
    simpa using (List.mem_filter.1 ha).2
  have hlt : ∀ a ∈ rest, done.foldl (fun high a => max high (key a)) since < key a := by
    intro a ha
    apply foldl_max_lt
    · exact hpast a (List.mem_append_right _ ha)
    · exact fun b hb => (List.pairwise_append.1 hsorted).2.2 b hb a ha
  generalize done.foldl (fun high a => max high (key a)) since = high at *
  have hagain : l.filter (fun a => high < key a) =
      (l.filter (fun a => since < key a)).filter (fun a => high < key a) := by
    rw [List.filter_filter]
    apply List.filter_congr
    intro a _
    rw [eq_comm, Bool.and_eq_left_iff_imp]
    simp only [decide_eq_true_eq]
    omega
  have hdone : done.filter (fun a => high < key a) = [] := by
    apply List.filter_eq_nil_iff.2
    intro a ha
    have hhigh := hle.2 a ha
    simp only [decide_eq_true_eq]
    omega
  have hrest : rest.filter (fun a => high < key a) = rest := by
    apply List.filter_eq_self.2
    intro a ha
    simpa using hlt a ha
  rw [hagain, h, List.filter_append, hdone, hrest, List.nil_append]

end Library
