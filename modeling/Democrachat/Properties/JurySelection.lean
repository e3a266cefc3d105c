import Democrachat.Domain.Jury
import Democrachat.Library.Ranking

/-!
# The selection of a jury

Candidates are compared by their hashes and then by their ids, which no two of them share.  A
panel is the first ones in this order, whatever the order in which the candidates were listed.
-/

namespace Democrachat

open Library

/-- What a candidate is sorted by. -/
def scored (seed c : BitVec 64) : BitVec 64 × BitVec 64 := (mix (seed ^^^ c), c)

section

variable {candidates candidates' : List (BitVec 64)} {accused seed : BitVec 64}

theorem scored_injective (seed : BitVec 64) : Function.Injective (scored seed) :=
  fun _ _ h => (Prod.mk.inj h).2

theorem sorts_scoredBefore : Sorts scoredBefore where
  trans := by
    intro a b c hab hbc
    simp only [scoredBefore, Bool.or_eq_true, Bool.and_eq_true, decide_eq_true_eq,
      BitVec.lt_def, BitVec.le_def, ← BitVec.toNat_inj] at hab hbc ⊢
    omega
  total := by
    intro a b
    simp only [scoredBefore, Bool.or_eq_true, Bool.and_eq_true, decide_eq_true_eq,
      BitVec.lt_def, BitVec.le_def, ← BitVec.toNat_inj]
    omega
  antisymm := by
    intro a b hab hba
    simp only [scoredBefore, Bool.or_eq_true, Bool.and_eq_true, decide_eq_true_eq,
      BitVec.lt_def, BitVec.le_def, ← BitVec.toNat_inj] at hab hba
    refine Prod.ext (BitVec.eq_of_toNat_eq ?_) (BitVec.eq_of_toNat_eq ?_)
    · omega
    · omega

/-- The panel is made of the first ones among the others than the accused. -/
theorem selectJury_eq (size : Nat) : selectJury candidates accused size seed =
    (firsts scoredBefore size ((candidates.filter (fun c => c != accused)).map
      (scored seed))).map Prod.snd := rfl

theorem map_snd_scored (l : List (BitVec 64)) : (l.map (scored seed)).map Prod.snd = l := by
  rw [List.map_map]
  exact List.map_id l

theorem selectJury_perm (h : candidates.Perm candidates') (size : Nat) :
    selectJury candidates accused size seed = selectJury candidates' accused size seed := by
  rw [selectJury_eq, selectJury_eq, sorts_scoredBefore.firsts_eq ((h.filter _).map _) size]

theorem selectJury_subperm (candidates : List (BitVec 64)) (accused : BitVec 64) (size : Nat)
    (seed : BitVec 64) : (selectJury candidates accused size seed).Subperm
    (candidates.filter (fun c => c != accused)) := by
  obtain ⟨jurors, hperm, hsub⟩ := firsts_subperm scoredBefore size
    ((candidates.filter (fun c => c != accused)).map (scored seed))
  have hmap := hsub.map Prod.snd
  rw [map_snd_scored] at hmap
  exact ⟨jurors.map Prod.snd, hperm.map Prod.snd, hmap⟩

theorem length_selectJury (size : Nat) : (selectJury candidates accused size seed).length =
    min size (candidates.countP (fun c => c != accused)) := by
  rw [selectJury_eq, List.length_map, length_firsts, List.length_map, List.countP_eq_length_filter]

theorem isPrefix_selectJury {size size' : Nat} (h : size ≤ size') :
    selectJury candidates accused size seed <+: selectJury candidates accused size' seed :=
  (isPrefix_firsts h _).map Prod.snd

theorem selectJury_erase {size : Nat} {c : BitVec 64}
    (hc : c ∉ selectJury candidates accused size seed) :
    selectJury (candidates.erase c) accused size seed =
      selectJury candidates accused size seed := by
  have hscored : scored seed c ∉ firsts scoredBefore size
      ((candidates.filter (fun c => c != accused)).map (scored seed)) :=
    fun h => hc (List.mem_map_of_mem (f := Prod.snd) h)
  have herase : ((candidates.erase c).filter (fun c => c != accused)).map (scored seed) =
      ((candidates.filter (fun c => c != accused)).map (scored seed)).erase (scored seed c) := by
    rw [← List.erase_filter, List.map_erase (scored_injective seed)]
  rw [selectJury_eq, selectJury_eq, herase, sorts_scoredBefore.firsts_erase hscored]

end

/-- A jury is a function of the set of the candidates: their order does not count, the accused
is none of the jurors, each candidate is taken once at most for each time it is listed, a
smaller panel starts a larger one, and who is not on the panel does not count. -/
theorem jury_selected (candidates : List (BitVec 64)) (accused : BitVec 64) (size : Nat)
    (seed : BitVec 64) :
    (∀ candidates', candidates.Perm candidates' →
      selectJury candidates' accused size seed = selectJury candidates accused size seed) ∧
    accused ∉ selectJury candidates accused size seed ∧
    (selectJury candidates accused size seed).Subperm candidates ∧
    (selectJury candidates accused size seed).length =
      min size (candidates.countP (fun c => c != accused)) ∧
    (candidates.Nodup → (selectJury candidates accused size seed).Nodup) ∧
    (∀ size', size' ≤ size →
      selectJury candidates accused size' seed <+: selectJury candidates accused size seed) ∧
    ∀ c, c ∉ selectJury candidates accused size seed →
      selectJury (candidates.erase c) accused size seed =
        selectJury candidates accused size seed := by
  have hsub := selectJury_subperm candidates accused size seed
  have hall := hsub.trans List.filter_sublist.subperm
  refine ⟨fun _ h => (selectJury_perm h size).symm, ?_, hall, length_selectJury size, ?_,
    fun _ h => isPrefix_selectJury h, fun _ hc => selectJury_erase hc⟩
  · intro haccused
    have hkept := (List.mem_filter.1 (hsub.subset haccused)).2
    simp at hkept
  · intro hnodup
    obtain ⟨jurors, hperm, hsublist⟩ := hall
    exact hperm.nodup_iff.1 (hnodup.sublist hsublist)

/-- Three users in another order, one of them accused. -/
theorem jury_selected_three :
    selectJury [3, 1, 2] 2 1 7 = selectJury [1, 2, 3] 2 1 7 ∧
      selectJury [1, 2, 3] 2 0 7 <+: selectJury [1, 2, 3] 2 1 7 := by
  obtain ⟨hperm, -, -, -, -, hsmaller, -⟩ := jury_selected [1, 2, 3] 2 1 7
  exact ⟨hperm [3, 1, 2] (by decide), hsmaller 0 (by decide)⟩

end Democrachat
