import Mathlib.Data.List.Basic
import Mathlib.Data.List.FinRange
import Mathlib.Data.List.Nodup
import Mathlib.Data.List.Perm.Basic

/-!
# Ranks

The rank of an element is the number of those that stand before it, and in a list that is
sorted it is the element's index.  A stable sort of indices breaks ties by the index.
-/

namespace Library

/-! ## Stable sorting -/

/-- Indices that compare equal stay in their order. -/
theorem pairwise_mergeSort_range (le : Nat → Nat → Bool)
    (htrans : ∀ a b c, le a b = true → le b c = true → le a c = true)
    (htotal : ∀ a b, (le a b || le b a) = true) (n : Nat) :
    ((List.range n).mergeSort le).Pairwise
      (fun a b => le a b = true ∧ (le b a = true → a < b)) := by
  have hsorted := List.pairwise_mergeSort (List.zipIdxLE_trans htrans) (List.zipIdxLE_total htotal)
    (List.range n).zipIdx
  have hperm := List.mergeSort_perm (List.range n).zipIdx (List.zipIdxLE le)
  have hindex : ∀ p ∈ (List.range n).zipIdx.mergeSort (List.zipIdxLE le), p.1 = p.2 := by
    intro p hp
    obtain ⟨hlt, hget⟩ :=
      List.getElem?_eq_some_iff.1 (List.mem_zipIdx_iff_getElem?.1 (hperm.subset hp))
    rw [← hget, List.getElem_range]
  have hnodup : ((List.range n).zipIdx.mergeSort (List.zipIdxLE le)).Pairwise (· ≠ ·) :=
    hperm.nodup_iff.2 (List.Nodup.of_map Prod.fst (by
      rw [List.zipIdx_map_fst]
      exact List.nodup_range))
  rw [← List.mergeSort_zipIdx, List.pairwise_map]
  refine (hsorted.and hnodup).imp_of_mem (fun {p q} hp hq h => ?_)
  have hle := h.1
  have hne : p.2 ≠ q.2 := fun heq => h.2 (Prod.ext (by rw [hindex p hp, hindex q hq, heq]) heq)
  rw [List.zipIdxLE] at hle
  split at hle
  case isFalse => exact absurd hle (by decide)
  case isTrue hpq =>
    refine ⟨hpq, fun hqp => ?_⟩
    rw [if_pos hqp, decide_eq_true_eq] at hle
    rw [hindex p hp, hindex q hq]
    omega

/-! ## Ranks -/

section Rank

variable {α : Type*} (r : α → α → Prop) [DecidableRel r]

/-- How many stand before an element. -/
def rank (l : List α) (a : α) : Nat := l.countP (fun x => r x a)

variable {r} {l : List α}

theorem rank_eq_of_perm {l' : List α} (h : l.Perm l') (a : α) : rank r l a = rank r l' a :=
  h.countP_eq _

/-- In a sorted list the rank is the index. -/
theorem rank_getElem (hasymm : ∀ a b, r a b → ¬ r b a) (h : l.Pairwise r) {k : Nat}
    (hk : k < l.length) : rank r l l[k] = k := by
  induction l generalizing k with
  | nil => exact absurd hk (Nat.not_lt_zero k)
  | cons a l ih =>
    obtain ⟨ha, hl⟩ := List.pairwise_cons.1 h
    cases k with
    | zero =>
      show (a :: l).countP (fun x => r x a) = 0
      refine List.countP_eq_zero.2 (fun x hx => ?_)
      rw [decide_eq_true_eq]
      rcases List.mem_cons.1 hx with rfl | hx
      · exact fun hxx => hasymm x x hxx hxx
      · exact hasymm a x (ha x hx)
    | succ k =>
      have hk' : k < l.length := Nat.lt_of_succ_lt_succ hk
      have hfirst : r a l[k] := ha _ (List.getElem_mem hk')
      show (a :: l).countP (fun x => r x l[k]) = k + 1
      rw [List.countP_cons_of_pos (by simpa using hfirst)]
      exact congrArg (· + 1) (ih hl hk')

/-- Who stands before another has no greater rank. -/
theorem rank_le_rank (htrans : ∀ a b c, r a b → r b c → r a c) {a b : α} (h : r a b) :
    rank r l a ≤ rank r l b := by
  refine List.countP_mono_left (fun x _ hx => ?_)
  rw [decide_eq_true_eq] at hx ⊢
  exact htrans x a b hx h

theorem map_rank_of_pairwise (hasymm : ∀ a b, r a b → ¬ r b a) (h : l.Pairwise r) :
    l.map (rank r l) = List.range l.length := by
  refine List.ext_getElem (by simp) (fun k hk _ => ?_)
  rw [List.getElem_map, List.getElem_range, rank_getElem hasymm h]

/-- So many have a rank between two bounds as there are places between them. -/
theorem countP_rank (hasymm : ∀ a b, r a b → ¬ r b a) {l' : List α} (hperm : l'.Perm l)
    (h : l'.Pairwise r) (p : Nat → Bool) :
    l.countP (fun a => p (rank r l a)) = (List.range l.length).countP p := by
  have hranks := map_rank_of_pairwise hasymm h
  rw [← hperm.length_eq, ← hranks, List.countP_map, ← hperm.countP_eq]
  refine List.countP_congr (fun a _ => ?_)
  rw [Function.comp_apply, rank_eq_of_perm hperm]

/-- Ranks of indices are the ranks of the entries. -/
theorem rank_range (q : Nat → Nat → Prop) [DecidableRel q] {i : Nat} (hi : i < l.length)
    (h : ∀ (k : Nat) (hk : k < l.length), q k i ↔ r l[k] l[i]) :
    rank q (List.range l.length) i = rank r l l[i] := by
  have hentries : ∀ p : α → Bool, l.countP p = (List.finRange l.length).countP (p l[·.1]) := by
    intro p
    conv_lhs => rw [← List.map_getElem_finRange l]
    exact List.countP_map
  calc rank q (List.range l.length) i
      = (List.finRange l.length).countP (fun k => decide (q k.1 i)) := by
        rw [rank, ← List.map_coe_finRange_eq_range, List.countP_map]
        rfl
    _ = (List.finRange l.length).countP (fun k => decide (r l[k.1] l[i])) :=
        List.countP_congr (fun k _ => by rw [decide_eq_true_eq, decide_eq_true_eq, h k.1 k.2])
    _ = rank r l l[i] := (hentries (fun a => decide (r a l[i]))).symm

/-- Only the relation between the entries counts. -/
theorem rank_congr (q : α → α → Prop) [DecidableRel q] {a : α} (h : ∀ x ∈ l, q x a ↔ r x a) :
    rank q l a = rank r l a :=
  List.countP_congr (fun x hx => by rw [decide_eq_true_eq, decide_eq_true_eq, h x hx])

end Rank

/-! ## The first ones -/

section Firsts

variable {α : Type*} {le : α → α → Bool}

/-- The comparison is a linear order. -/
structure Sorts (le : α → α → Bool) : Prop where
  trans : ∀ a b c, le a b = true → le b c = true → le a c = true
  total : ∀ a b, (le a b || le b a) = true
  antisymm : ∀ a b, le a b = true → le b a = true → a = b

/-- The first ones of a list in the order of a comparison. -/
def firsts (le : α → α → Bool) (size : Nat) (l : List α) : List α := (l.mergeSort le).take size

/-- Two sorted lists of the same elements are the same. -/
theorem Sorts.eq_of_perm (h : Sorts le) {l l' : List α} (hperm : l.Perm l')
    (hl : l.Pairwise (fun a b => le a b = true)) (hl' : l'.Pairwise (fun a b => le a b = true)) :
    l = l' :=
  List.Perm.eq_of_pairwise (fun a b _ _ => h.antisymm a b) hl hl' hperm

theorem Sorts.mergeSort_eq (h : Sorts le) {l l' : List α} (hperm : l.Perm l') :
    l.mergeSort le = l'.mergeSort le := by
  have hsame : (l.mergeSort le).Perm (l'.mergeSort le) :=
    (List.mergeSort_perm l le).trans (hperm.trans (List.mergeSort_perm l' le).symm)
  exact h.eq_of_perm hsame (List.pairwise_mergeSort h.trans h.total l)
    (List.pairwise_mergeSort h.trans h.total l')

/-- They do not depend on the order of the list. -/
theorem Sorts.firsts_eq (h : Sorts le) {l l' : List α} (hperm : l.Perm l') (size : Nat) :
    firsts le size l = firsts le size l' := by
  rw [firsts, firsts, h.mergeSort_eq hperm]

theorem firsts_subperm (le : α → α → Bool) (size : Nat) (l : List α) : (firsts le size l).Subperm l :=
  (List.take_sublist size _).subperm.trans (List.mergeSort_perm l le).subperm

theorem length_firsts (size : Nat) (l : List α) :
    (firsts le size l).length = min size l.length := by
  rw [firsts, List.length_take, List.length_mergeSort]

/-- The first few are a prefix of the first ones. -/
theorem isPrefix_firsts {size size' : Nat} (h : size ≤ size') (l : List α) :
    firsts le size l <+: firsts le size' l :=
  List.take_prefix_take_left h

/-- One that is not among them can be taken away. -/
theorem Sorts.firsts_erase [BEq α] [LawfulBEq α] (h : Sorts le) {size : Nat} {l : List α}
    {a : α} (ha : a ∉ firsts le size l) : firsts le size (l.erase a) = firsts le size l := by
  have hsorted := List.pairwise_mergeSort h.trans h.total l
  have herase : (l.erase a).mergeSort le = (l.mergeSort le).erase a := by
    refine h.eq_of_perm ?_ (List.pairwise_mergeSort h.trans h.total _)
      (hsorted.sublist List.erase_sublist)
    exact (List.mergeSort_perm _ le).trans ((List.mergeSort_perm l le).symm.erase a)
  unfold firsts at ha ⊢
  rw [herase]
  generalize l.mergeSort le = sorted at ha ⊢
  by_cases hsize : size ≤ sorted.length
  · have hlength : (sorted.take size).length = size := by rw [List.length_take]; omega
    conv_lhs => rw [← List.take_append_drop size sorted, List.erase_append_right _ ha]
    exact List.take_left' hlength
  · rw [List.take_of_length_le (by omega)] at ha
    rw [List.erase_of_not_mem ha]

end Firsts

/-! ## Writing by index -/

section Set

variable {β γ : Type*} (f : γ → β)

theorem length_foldl_set (l : List (Nat × γ)) (init : List β) :
    (l.foldl (fun acc p => acc.set p.1 (f p.2)) init).length = init.length := by
  induction l generalizing init with
  | nil => rfl
  | cons p l ih => rw [List.foldl_cons, ih, List.length_set]

theorem getElem?_foldl_set_of_notMem {l : List (Nat × γ)} {i : Nat} (h : i ∉ l.map Prod.fst)
    (init : List β) : (l.foldl (fun acc p => acc.set p.1 (f p.2)) init)[i]? = init[i]? := by
  induction l generalizing init with
  | nil => rfl
  | cons p l ih =>
    rw [List.map_cons, List.mem_cons, not_or] at h
    rw [List.foldl_cons, ih h.2, List.getElem?_set_ne (Ne.symm h.1)]

/-- What is found at an index that is written once. -/
theorem getElem?_foldl_set {l : List (Nat × γ)} (hnodup : (l.map Prod.fst).Nodup)
    {init : List β} {i : Nat} (hi : i < init.length) {v : γ} (h : (i, v) ∈ l) :
    (l.foldl (fun acc p => acc.set p.1 (f p.2)) init)[i]? = some (f v) := by
  induction l generalizing init with
  | nil => cases h
  | cons p l ih =>
    rw [List.map_cons, List.nodup_cons] at hnodup
    rw [List.foldl_cons]
    rcases List.mem_cons.1 h with rfl | h
    · rw [getElem?_foldl_set_of_notMem f hnodup.1, List.getElem?_set_self hi]
    · exact ih hnodup.2 (by simpa using hi) h

end Set

end Library
