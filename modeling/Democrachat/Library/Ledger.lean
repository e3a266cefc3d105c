import Mathlib.Data.Prod.Lex
import Mathlib.Order.Basic

/-!
# Ledgers of numbered entries

Several nodes enter things under numbers of their own, while one clock goes on.  Read in the
order of node and number, the entries of a group are in the order of time as long as no node
enters anything into it after a higher one has.
-/

namespace Library

/-- What a node has entered into a group under its next number, and when. -/
structure Entry (γ ν τ : Type*) where
  group : γ
  node : ν
  sequence : Nat
  time : τ
deriving DecidableEq

namespace Entry

variable {γ ν τ : Type*} [LinearOrder ν] [LinearOrder τ]

def rank (e : Entry γ ν τ) : ν ×ₗ Nat := toLex (e.node, e.sequence)

omit [LinearOrder τ] in
theorem rank_le_rank {e e' : Entry γ ν τ} :
    e.rank ≤ e'.rank ↔ e.node < e'.node ∨ (e.node = e'.node ∧ e.sequence ≤ e'.sequence) :=
  Prod.Lex.toLex_le_toLex

/-- The second entry is made later: by the same node under a higher number, and by a lower one
at no later time. -/
structure Precedes (e e' : Entry γ ν τ) : Prop where
  time : e.time ≤ e'.time
  numbered : e.group = e'.group → e.node = e'.node → e.sequence < e'.sequence
  inTurn : e.group = e'.group → e'.node < e.node → e'.time ≤ e.time

/-- In a group the ranks are in the order of time. -/
theorem time_le_of_rank_le {ledger : List (Entry γ ν τ)} (h : ledger.Pairwise Precedes)
    {e e' : Entry γ ν τ} (he : e ∈ ledger) (he' : e' ∈ ledger) (hgroup : e.group = e'.group)
    (hrank : e.rank ≤ e'.rank) : e.time ≤ e'.time := by
  induction h with
  | nil => cases he
  | @cons first ledger hfirst _ ih =>
    rcases List.mem_cons.1 he with rfl | hlater
    · rcases List.mem_cons.1 he' with rfl | hlater'
      · exact le_refl _
      · exact (hfirst e' hlater').time
    · rcases List.mem_cons.1 he' with rfl | hlater'
      · -- The one of the lower rank was entered later.
        have hprecedes := hfirst e hlater
        rcases rank_le_rank.1 hrank with hnode | ⟨hnode, hsequence⟩
        · exact hprecedes.inTurn hgroup.symm hnode
        · have hnumbered := hprecedes.numbered hgroup.symm hnode.symm
          omega
      · exact ih hlater hlater'

/-- Rows of one group, listed in the order of their ranks, are listed in the order of time. -/
theorem pairwise_time {α : Type*} {ledger : List (Entry γ ν τ)} (h : ledger.Pairwise Precedes)
    {entry : α → Entry γ ν τ} {group : γ} {rows : List α}
    (hrows : ∀ x ∈ rows, entry x ∈ ledger ∧ (entry x).group = group)
    (hranks : rows.Pairwise (fun x y => (entry x).rank ≤ (entry y).rank)) :
    rows.Pairwise (fun x y => (entry x).time ≤ (entry y).time) := by
  refine hranks.imp_of_mem (fun {x y} hx hy hrank => ?_)
  obtain ⟨hx, hgroup⟩ := hrows x hx
  obtain ⟨hy, hgroup'⟩ := hrows y hy
  exact time_le_of_rank_le h hx hy (hgroup.trans hgroup'.symm) hrank

end Entry

end Library
