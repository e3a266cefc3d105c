import Democrachat.Polity.Ballots
import Democrachat.Polity.Turns

/-!
# When a turn passes its proposal

The close of a ballot, in terms of the members who voted and may vote still.
-/

namespace Democrachat

open Library

/-- The call turns this proposal from open to passed. -/
def turnedPassed (w : World) (serverSlug : String) (p : Proposal) : Bool :=
  p.status == .open_ &&
    (((resolveDue serverSlug).exec w).2.store.getProposal p.id).any (fun q => q.status.isPassed)

namespace Turn

variable (t : Turn)

def isDue : Bool := t.proposal.closeDue t.session.now

def threshold : Option Threshold :=
  thresholdFor t.proposal.kind.decisionClass t.session.phase

/-- The franchised members of the server with a recorded ballot on the proposal. -/
def voters : List Membership :=
  t.polity.voters t.session.server (t.polity.ballots t.proposal.id)

/-- Those whose ballot is an aye. -/
def ayes : List Membership :=
  t.polity.voters t.session.server ((t.polity.ballots t.proposal.id).filter (·.isAye))

/-- What they weigh under the scheme of the session. -/
def weigh (ms : List Membership) : Nat := Polity.weigh t.session.scheme t.session.now ms

/-- What they weigh clears the quorum of the session's citizens and the approval bar. -/
structure Clears (threshold : Threshold) : Prop where
  citizens : 0 < t.session.citizens
  quorum : threshold.quorumBp * t.session.citizens ≤ t.weigh t.voters * 10000
  cast : 0 < t.weigh t.voters
  approval : threshold.approvalBp * t.weigh t.voters < t.weigh t.ayes * 10000

theorem clears_iff (h : BallotsKept t.polity) (threshold : Threshold) :
    ((t.polity.tally t.session.scheme t.session.server t.session.now t.proposal.id).decide
      t.session.citizens threshold).didPass = true ↔ t.Clears threshold := by
  have honce := h.ballots t.proposal.id
  rw [Tally.decide_didPass, Polity.tally, tallyOf_cast _ _ honce, tallyOf_aye _ _ honce]
  constructor
  · rintro ⟨hcitizens, hquorum, hcast, happroval⟩
    exact ⟨hcitizens, hquorum, hcast, happroval⟩
  · rintro ⟨hcitizens, hquorum, hcast, happroval⟩
    exact ⟨hcitizens, hquorum, hcast, happroval⟩

theorem closed_of_due (hdue : t.isDue = true) :
    t.closed = t.proposal.close
      (t.polity.tally t.session.scheme t.session.server t.session.now t.proposal.id)
      t.session.citizens t.session.phase t.session.now :=
  if_pos hdue

theorem closed_of_not_due (hdue : ¬ t.isDue = true) : t.closed = t.proposal := if_neg hdue

/-- A ballot that is due passes exactly when its class is permitted in the phase
and its voters clear the bars. -/
theorem closed_isPassed (h : BallotsKept t.polity) (hdue : t.isDue = true) :
    t.closed.status.isPassed = true ↔ ∃ threshold ∈ t.threshold, t.Clears threshold := by
  rw [t.closed_of_due hdue, Proposal.close, Proposal.closedStatus_isPassed]
  simp only [t.clears_iff h]
  rfl

theorem isDue_iff : t.isDue = true ↔
    t.proposal.status = .open_ ∧ t.proposal.closesAt ≤ t.session.now := by
  simp [isDue, Proposal.closeDue]

end Turn

section Resolve

variable {w : World} {serverSlug : String} {t : Turn}

theorem BallotsKept.turn (h : BallotsKept w.polity) (ht : t ∈ w.polity.resolveTurns serverSlug) :
    BallotsKept t.polity :=
  (resolveTurns_moves ht).keep (fun _ _ hc hmove => hc.move hmove) h

/-- What `resolveDue` turns from open to passed. -/
theorem turnedPassed_iff (h : BallotsKept w.polity) (ht : t ∈ w.polity.resolveTurns serverSlug) :
    turnedPassed w serverSlug t.proposal = true ↔
      t.isDue = true ∧ ∃ threshold ∈ t.threshold, t.Clears threshold := by
  obtain ⟨p, hp, hstatus⟩ := resolveTurns_status ht
  have hget : ((resolveDue serverSlug).exec w).2.store.getProposal t.proposal.id = some p := by
    rw [← polity_resolveDue] at hp
    exact hp
  rw [turnedPassed, hget, Option.any_some, hstatus, Bool.and_eq_true, beq_iff_eq]
  by_cases hdue : t.isDue = true
  · rw [t.closed_isPassed (h.turn ht) hdue]
    have hopen := (t.isDue_iff.1 hdue).1
    simp only [hopen, hdue, true_and]
  · constructor
    · rintro ⟨hopen, hpassed⟩
      rw [t.closed_of_not_due hdue, hopen] at hpassed
      cases hpassed
    · rintro ⟨hdue', -⟩
      exact absurd hdue' hdue

end Resolve

end Democrachat
