import Democrachat.Polity.Closing

/-!
# The quorum of a ballot

`decide` compares a sum of vote weights with a number of citizens, so voters
that weigh more than one can stand in for citizens who stayed away.
-/

namespace Democrachat

open Library

namespace Turn

variable (t : Turn)

/-- The franchised voters, each counted once, are the quorum's share of the
citizens. -/
def HasHeadQuorum : Prop :=
  ∀ threshold ∈ t.threshold,
    threshold.quorumBp * t.session.citizens ≤ t.voters.length * 10000

instance : Decidable t.HasHeadQuorum :=
  inferInstanceAs (Decidable (∀ threshold ∈ t.threshold, _))

/-- The ayes have it, and the quorum lies above the number of the voters but not
above what they weigh. -/
def LiftedByWeight : Prop :=
  ∃ threshold ∈ t.threshold,
    t.voters.length * 10000 < threshold.quorumBp * t.session.citizens ∧
    threshold.quorumBp * t.session.citizens ≤ t.weigh t.voters * 10000 ∧
    threshold.approvalBp * t.weigh t.voters < t.weigh t.ayes * 10000

instance : Decidable t.LiftedByWeight :=
  inferInstanceAs (Decidable (∃ threshold ∈ t.threshold, _))

/-- No weight lifts a ballot counted one citizen one vote. -/
theorem not_liftedByWeight_of_equal (h : t.session.scheme = .equal) : ¬ t.LiftedByWeight := by
  rintro ⟨threshold, -, hheads, hweight, -⟩
  have hweigh : t.weigh t.voters = t.voters.length := by
    rw [weigh, h]
    exact weigh_equal _ _
  rw [hweigh] at hweight
  omega

end Turn

/-- Whatever a `resolveDue` passes has a quorum of heads exactly when no ballot
that is due is lifted over the quorum by the weight of its voters. -/
theorem quorum_counts_heads_iff {services : Services} {w : World} (hw : services.Reachable w)
    (serverSlug : String) :
    (∀ t ∈ w.polity.resolveTurns serverSlug,
      turnedPassed w serverSlug t.proposal = true → t.HasHeadQuorum) ↔
    ∀ t ∈ w.polity.resolveTurns serverSlug, t.isDue = true → ¬ t.LiftedByWeight := by
  refine forall₂_congr (fun t ht => ?_)
  rw [turnedPassed_iff hw.ballotsKept ht]
  constructor
  · rintro hquorum hdue ⟨threshold, hthreshold, hheads, hweight, happroval⟩
    have hbar : 0 < threshold.quorumBp * t.session.citizens := by omega
    have hclears : t.Clears threshold :=
      ⟨Nat.pos_of_mul_pos_left hbar, hweight, by omega, happroval⟩
    have hle := hquorum ⟨hdue, threshold, hthreshold, hclears⟩ threshold hthreshold
    omega
  · rintro hlifted ⟨hdue, threshold, hthreshold, hclears⟩ threshold' hthreshold'
    obtain rfl : threshold' = threshold := Option.some.inj (hthreshold'.symm.trans hthreshold)
    by_contra hheads
    exact hlifted hdue ⟨threshold', hthreshold, Nat.lt_of_not_le hheads, hclears.quorum,
      hclears.approval⟩

namespace Agora

/-- The citizens of a chartering server. -/
def chartered : List Op :=
  founding ++ joining ["a", "b", "c", "d", "e", "f", "g", "h", "i"] ++
  [.setClock (day 31)] ++ admission ["a", "b", "c", "d", "e"] ++
  [.setClock (day 62)] ++ admission ["f", "g", "h", "i"]

def ballot (n : Nat) : ProposalId := composeId 0 n

def ayes (n : Nat) (handles : List String) : List Op :=
  handles.map fun h => .castVote h (ballot n) true

/-- Three of ten vote to put the weighting of votes on the surface. -/
def surfaced : List Op :=
  chartered ++
  [.openProposal "zed" "agora" (.setGovernanceSurface {.setVoteWeighting, .addRule})] ++
  ayes 1 ["a", "b", "c"] ++ [.setClock (day 65)]

/-- Then they weigh votes by contribution, and one of them alone votes for a rule. -/
def weighted : List Op :=
  surfaced ++ [.resolveDue "agora"] ++
  [.openProposal "zed" "agora" (.setVoteWeighting .byContribution)] ++
  ayes 2 ["a", "b", "c", "d", "e", "f"] ++ [.setClock (day 68), .resolveDue "agora"] ++
  [.setClock (day 75), .resolveDue "agora"] ++
  [.openProposal "a" "agora" (.addRule "a rules")] ++ ayes 3 ["a"] ++ [.setClock (day 78)]

end Agora

theorem quorum_counts_heads_surfaced :
    (∀ t ∈ (Agora.services.run (.empty 0 (Agora.day 0)) Agora.surfaced).polity.resolveTurns "agora",
      turnedPassed (Agora.services.run (.empty 0 (Agora.day 0)) Agora.surfaced) "agora"
        t.proposal = true → t.HasHeadQuorum) ∧
    ∃ t ∈ (Agora.services.run (.empty 0 (Agora.day 0)) Agora.surfaced).polity.resolveTurns "agora",
      turnedPassed (Agora.services.run (.empty 0 (Agora.day 0)) Agora.surfaced) "agora"
        t.proposal = true :=
  ⟨(quorum_counts_heads_iff ⟨0, Agora.day 0, Agora.surfaced, rfl⟩ "agora").2 (by decide +kernel),
    by decide +kernel⟩

/-- One voter of ten, weighing four, passes a rule whose quorum is three citizens. -/
theorem quorum_of_one :
    ¬ ∀ t ∈ (Agora.services.run (.empty 0 (Agora.day 0)) Agora.weighted).polity.resolveTurns "agora",
      turnedPassed (Agora.services.run (.empty 0 (Agora.day 0)) Agora.weighted) "agora"
        t.proposal = true → t.HasHeadQuorum := by
  decide +kernel

end Democrachat
