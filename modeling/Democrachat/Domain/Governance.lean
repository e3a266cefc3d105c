import Democrachat.Domain.Membership
import Mathlib.Data.Finset.Insert
import Mathlib.Data.Fintype.Basic

/-!
# Ballots: what may be proposed, how hard it is to pass, and when it closes

`domain/src/governance`, `domain/src/server/phase.rs`,
`domain/src/server/invite_policy.rs` and the data of
`domain/src/jury/jury_sizing.rs`.
-/

namespace Democrachat

/-- The governance surface: the kinds of decision a server puts to a vote. -/
inductive BallotKind where
  | removeContent | ban | timeout | «recall» | createChannel | deleteChannel
  | addRule | removeRule | amendCriteria | setJurySizing | setVoteWeighting
  | setWeightingScope | grantVoteWeight | setGovernanceSurface | manageRoles
  | setRehomingPolicy | setInvitePolicy
deriving DecidableEq

namespace BallotKind

def alwaysOn : Finset BallotKind := {amendCriteria, setGovernanceSurface}

def platformDefaultSurface : Finset BallotKind :=
  {removeContent, ban, timeout, «recall», createChannel, deleteChannel, addRule,
    removeRule, setJurySizing, manageRoles, setRehomingPolicy, setInvitePolicy} ∪ alwaysOn

end BallotKind

inductive DecisionClass where
  | moderation | ruleChange | banOrRecall | constitutional
deriving DecidableEq

inductive JurySizing where
  | sqrt (postFactorBp commentFactorBp : Nat)
  | proportion (postBp commentBp : Nat)
  | fixed (post comment : Nat)
deriving DecidableEq

def JurySizing.default : JurySizing := .sqrt 10000 5000

/-- Who may mint or redeem an invite code. -/
inductive InvitePolicy where
  | open_ | closed
deriving DecidableEq

def InvitePolicy.isOpen : InvitePolicy → Bool
  | open_ => true
  | closed => false

/-- What a proposal seeks to do, with the payload its proposer chose. -/
inductive ProposalKind where
  | removeContent (target : String)
  | ban (user : UserId)
  | timeout (user : UserId) (until_ : Int)
  | «recall» (leader : UserId)
  | createChannel (name topic : String)
  | deleteChannel (name : String)
  | addRule (text : String)
  | removeRule (rule : RuleId)
  | amendCriteria (proposed : FranchiseCriteria)
  | setJurySizing (sizing : JurySizing)
  | setVoteWeighting (scheme : VoteWeighting)
  | setWeightingScope (scope : WeightingScope)
  | grantVoteWeight (user : UserId) (weight : Nat)
  | setGovernanceSurface (enabled : Finset BallotKind)
  | createRole (name : String)
  | deleteRole (role : RoleId)
  | assignRole (user : UserId) (role : RoleId)
  | unassignRole (user : UserId) (role : RoleId)
  | setRehomingPolicy (isDisabled : Bool)
  | setInvitePolicy (policy : InvitePolicy)
deriving DecidableEq

namespace ProposalKind

def ballotKind : ProposalKind → BallotKind
  | removeContent _ => .removeContent
  | ban _ => .ban
  | timeout _ _ => .timeout
  | «recall» _ => .«recall»
  | createChannel _ _ => .createChannel
  | deleteChannel _ => .deleteChannel
  | addRule _ => .addRule
  | removeRule _ => .removeRule
  | amendCriteria _ => .amendCriteria
  | setJurySizing _ => .setJurySizing
  | setVoteWeighting _ => .setVoteWeighting
  | setWeightingScope _ => .setWeightingScope
  | grantVoteWeight _ _ => .grantVoteWeight
  | setGovernanceSurface _ => .setGovernanceSurface
  | setRehomingPolicy _ => .setRehomingPolicy
  | setInvitePolicy _ => .setInvitePolicy
  | createRole _ | deleteRole _ | assignRole _ _ | unassignRole _ _ => .manageRoles

def decisionClass : ProposalKind → DecisionClass
  | removeContent _ => .moderation
  | ban _ | timeout _ _ | «recall» _ | grantVoteWeight _ _ => .banOrRecall
  | amendCriteria _ | setVoteWeighting _ | setWeightingScope _ | setRehomingPolicy _ =>
    .constitutional
  | createChannel _ _ | deleteChannel _ | addRule _ | removeRule _ | setJurySizing _
  | setGovernanceSurface _ | setInvitePolicy _ | createRole _ | deleteRole _
  | assignRole _ _ | unassignRole _ _ => .ruleChange

end ProposalKind

/-! ## Phases and thresholds -/

inductive Phase where
  | seed | chartering | sovereign
deriving DecidableEq

namespace Phase

def charteringAt : Nat := 10

def sovereignAt : Nat := 25

def fromCitizenCount (citizens : Nat) : Phase :=
  if citizens ≥ sovereignAt then sovereign
  else if citizens ≥ charteringAt then chartering
  else seed

def founderMayProvision (phase : Phase) : Bool := phase == seed

end Phase

/-- A passing bar in basis points. -/
structure Threshold where
  approvalBp : Nat
  quorumBp : Nat
deriving DecidableEq

/-- `none`: the decision is not permitted in that phase. -/
def thresholdFor : DecisionClass → Phase → Option Threshold
  | .moderation, _ => some ⟨5000, 1000⟩
  | .ruleChange, _ => some ⟨6000, 3000⟩
  | .banOrRecall, _ => some ⟨6000, 3000⟩
  | .constitutional, .seed => none
  | .constitutional, .chartering => some ⟨7500, 6000⟩
  | .constitutional, .sovereign => some ⟨6666, 5000⟩

theorem thresholdFor_eq_none {cls : DecisionClass} {phase : Phase} :
    thresholdFor cls phase = none ↔ cls = .constitutional ∧ phase = .seed := by
  cases cls <;> cases phase <;> decide

/-- No bar asks for every cast vote or for every citizen. -/
theorem thresholdFor_bounds {cls : DecisionClass} {phase : Phase} {threshold : Threshold}
    (h : thresholdFor cls phase = some threshold) :
    threshold.approvalBp < 10000 ∧ 0 < threshold.quorumBp ∧ threshold.quorumBp ≤ 10000 := by
  cases cls <;> cases phase <;> cases h <;> decide

structure Tally where
  aye : Nat
  nay : Nat
deriving DecidableEq

def Tally.cast (t : Tally) : Nat := t.aye + t.nay

structure Decision where
  didPass : Bool
  hasQuorum : Bool
  hasApproval : Bool
deriving DecidableEq

def Tally.decide (tally : Tally) (establishedCitizens : Nat) (threshold : Threshold) : Decision :=
  let cast := tally.cast
  let hasQuorum : Bool := establishedCitizens > 0 ∧
    cast * 10000 ≥ threshold.quorumBp * establishedCitizens
  let hasApproval : Bool := cast > 0 ∧ tally.aye * 10000 > threshold.approvalBp * cast
  ⟨hasQuorum && hasApproval, hasQuorum, hasApproval⟩

theorem Tally.decide_didPass {tally : Tally} {establishedCitizens : Nat} {threshold : Threshold} :
    (tally.decide establishedCitizens threshold).didPass = true ↔
      0 < establishedCitizens ∧
      threshold.quorumBp * establishedCitizens ≤ tally.cast * 10000 ∧
      0 < tally.cast ∧ threshold.approvalBp * tally.cast < tally.aye * 10000 := by
  simp [Tally.decide, and_assoc]

/-- Of the strict approval and the quorum neither is lost where more votes are cast, the ayes
are no fewer and the nays no more. -/
theorem Tally.didPass_mono {t t' : Tally} {citizens : Nat} {threshold : Threshold}
    (haye : t.aye ≤ t'.aye) (hnay : t'.nay ≤ t.nay) (hcast : t.cast ≤ t'.cast)
    (h : (t.decide citizens threshold).didPass = true) :
    (t'.decide citizens threshold).didPass = true := by
  rw [decide_didPass] at h ⊢
  obtain ⟨hcitizens, hquorum, hvotes, happroval⟩ := h
  have hbar : threshold.approvalBp < 10000 := by
    by_contra hhigh
    have hhigh : 10000 ≤ threshold.approvalBp := by omega
    have hall := Nat.mul_le_mul_right t.cast hhigh
    have hcount : t.cast = t.aye + t.nay := rfl
    omega
  have hquorum' := hquorum.trans (Nat.mul_le_mul_right 10000 hcast)
  refine ⟨hcitizens, hquorum', hvotes.trans_le hcast, ?_⟩
  have hgrown : t'.cast ≤ t.cast + (t'.aye - t.aye) := by
    have hcount : t.cast = t.aye + t.nay := rfl
    have hcount' : t'.cast = t'.aye + t'.nay := rfl
    omega
  have hgain := Nat.mul_le_mul_right (t'.aye - t.aye) (Nat.le_of_lt hbar)
  calc threshold.approvalBp * t'.cast
      ≤ threshold.approvalBp * (t.cast + (t'.aye - t.aye)) := Nat.mul_le_mul_left _ hgrown
    _ = threshold.approvalBp * t.cast + threshold.approvalBp * (t'.aye - t.aye) :=
        Nat.mul_add _ _ _
    _ ≤ threshold.approvalBp * t.cast + 10000 * (t'.aye - t.aye) :=
        Nat.add_le_add_left hgain _
    _ < t'.aye * 10000 := by omega

/-! ## Proposals -/

inductive ProposalStatus where
  | open_
  | passed (effectiveAt : Timestamp)
  | failed
deriving DecidableEq

def ProposalStatus.isPassed : ProposalStatus → Bool
  | passed _ => true
  | _ => false

def recallWindowDays : Int := 7

structure Proposal where
  id : ProposalId
  serverId : ServerId
  proposer : UserId
  kind : ProposalKind
  openedAt : Timestamp
  closesAt : Timestamp
  status : ProposalStatus
  isApplied : Bool
deriving DecidableEq

namespace Proposal

def new (id : ProposalId) (serverId : ServerId) (proposer : UserId) (kind : ProposalKind)
    (openedAt closesAt : Timestamp) : Proposal where
  id := id
  serverId := serverId
  proposer := proposer
  kind := kind
  openedAt := openedAt
  closesAt := closesAt
  status := .open_
  isApplied := false

/-- The status a close writes. -/
def closedStatus (p : Proposal) (tally : Tally) (establishedCitizens : Nat) (phase : Phase)
    (closedAt : Timestamp) : ProposalStatus :=
  let cls := p.kind.decisionClass
  match thresholdFor cls phase with
  | none => .failed
  | some threshold =>
    if (tally.decide establishedCitizens threshold).didPass then
      if cls = .constitutional then .passed (closedAt.plusDays recallWindowDays)
      else .passed closedAt
    else .failed

def close (p : Proposal) (tally : Tally) (establishedCitizens : Nat) (phase : Phase)
    (closedAt : Timestamp) : Proposal :=
  { p with status := p.closedStatus tally establishedCitizens phase closedAt }

@[simp] theorem close_id (p : Proposal) (t : Tally) (n : Nat) (ph : Phase) (at_ : Timestamp) :
    (p.close t n ph at_).id = p.id := rfl

@[simp] theorem close_serverId (p : Proposal) (t : Tally) (n : Nat) (ph : Phase)
    (at_ : Timestamp) : (p.close t n ph at_).serverId = p.serverId := rfl

@[simp] theorem close_kind (p : Proposal) (t : Tally) (n : Nat) (ph : Phase) (at_ : Timestamp) :
    (p.close t n ph at_).kind = p.kind := rfl

@[simp] theorem close_closesAt (p : Proposal) (t : Tally) (n : Nat) (ph : Phase)
    (at_ : Timestamp) : (p.close t n ph at_).closesAt = p.closesAt := rfl

@[simp] theorem close_isApplied (p : Proposal) (t : Tally) (n : Nat) (ph : Phase)
    (at_ : Timestamp) : (p.close t n ph at_).isApplied = p.isApplied := rfl

/-- A close passes exactly when the phase has a bar for the class and the tally
clears it, and a constitutional change is then locked for the recall window. -/
theorem closedStatus_eq_passed {p : Proposal} {tally : Tally} {citizens : Nat} {phase : Phase}
    {closedAt effectiveAt : Timestamp} :
    p.closedStatus tally citizens phase closedAt = .passed effectiveAt ↔
      (∃ threshold, thresholdFor p.kind.decisionClass phase = some threshold ∧
        (tally.decide citizens threshold).didPass = true) ∧
      effectiveAt = if p.kind.decisionClass = .constitutional
        then closedAt.plusDays recallWindowDays else closedAt := by
  simp only [closedStatus]
  cases thresholdFor p.kind.decisionClass phase with
  | none => simp
  | some threshold =>
    simp only [Option.some.injEq, exists_eq_left']
    by_cases hpass : (tally.decide citizens threshold).didPass = true
    · rw [if_pos hpass]
      split
      · simp [hpass, eq_comm]
      · simp [hpass, eq_comm]
    · simp [hpass]

theorem closedStatus_isPassed {p : Proposal} {tally : Tally} {citizens : Nat} {phase : Phase}
    {closedAt : Timestamp} :
    (p.closedStatus tally citizens phase closedAt).isPassed = true ↔
      ∃ threshold ∈ thresholdFor p.kind.decisionClass phase,
        (tally.decide citizens threshold).didPass = true := by
  constructor
  · intro hpassed
    cases hstatus : p.closedStatus tally citizens phase closedAt with
    | passed effectiveAt => exact (closedStatus_eq_passed.1 hstatus).1
    | open_ => simp [hstatus, ProposalStatus.isPassed] at hpassed
    | failed => simp [hstatus, ProposalStatus.isPassed] at hpassed
  · intro hclears
    obtain ⟨effectiveAt, hstatus⟩ :
        ∃ effectiveAt, p.closedStatus tally citizens phase closedAt = .passed effectiveAt :=
      ⟨_, closedStatus_eq_passed.2 ⟨hclears, rfl⟩⟩
    rw [hstatus]
    rfl

/-- A close leaves no proposal open. -/
theorem closedStatus_ne_open (p : Proposal) (tally : Tally) (citizens : Nat) (phase : Phase)
    (closedAt : Timestamp) : p.closedStatus tally citizens phase closedAt ≠ .open_ := by
  simp only [closedStatus]
  split
  · simp
  · split <;> try split
    all_goals simp

end Proposal

structure Vote where
  proposalId : ProposalId
  voter : UserId
  isAye : Bool
deriving DecidableEq

end Democrachat
