import Democrachat.Domain.User
import Mathlib.Data.Nat.Sqrt

/-!
# Standing within a server, and the earned franchise

`domain/src/membership`, `domain/src/franchise` and `domain/src/weighting`.
-/

namespace Democrachat

inductive Tier where
  | guest | member | citizen
deriving DecidableEq

namespace Tier

/-- The tiers in ascending order. -/
def rank : Tier → Nat
  | guest => 0
  | member => 1
  | citizen => 2

end Tier

structure Membership where
  userId : UserId
  serverId : ServerId
  joinedAt : Timestamp
  tier : Tier
  isSanctioned : Bool
  contribution : Int
  enfranchisedAt : Option Timestamp
  grantedWeight : Nat
  sharesHistoryWithNewcomers : Bool
deriving DecidableEq

namespace Membership

def joined (userId : UserId) (serverId : ServerId) (joinedAt : Timestamp) : Membership where
  userId := userId
  serverId := serverId
  joinedAt := joinedAt
  tier := .member
  isSanctioned := false
  contribution := 0
  enfranchisedAt := none
  grantedWeight := 1
  sharesHistoryWithNewcomers := true

def isCitizen (m : Membership) : Bool := m.tier == .citizen

/-- A citizen who is not under a sanction: what every governance action gates
on. -/
def isFranchised (m : Membership) : Bool := m.isCitizen && !m.isSanctioned

def membershipAgeDays (m : Membership) (now : Timestamp) : Int := now.daysSince m.joinedAt

/-- What the author, whose membership `m` is, posted before the viewer came is shown as long
as the author shares history. -/
def showsMessageTo (m : Membership) (postedAt viewerJoinedAt : Timestamp) : Bool :=
  m.sharesHistoryWithNewcomers || postedAt ≥ viewerJoinedAt

/-- The primary key of the memberships table. -/
def key (m : Membership) : UserId ×ₗ ServerId := toLex (m.userId, m.serverId)

theorem key_eq {m : Membership} {user : UserId} {server : ServerId} :
    m.key = toLex (user, server) ↔ m.userId = user ∧ m.serverId = server := by
  simp [key]

theorem key_eq_key {m m' : Membership} :
    m'.key = m.key ↔ m'.userId = m.userId ∧ m'.serverId = m.serverId :=
  key_eq

end Membership

/-! ## Layer 1: the franchise criteria -/

structure FranchiseCriteria where
  minAccountAgeDays : Int
  minMembershipDays : Int
  minContribution : Int
deriving DecidableEq

namespace FranchiseCriteria

def platformDefault : FranchiseCriteria where
  minAccountAgeDays := 30
  minMembershipDays := 14
  minContribution := 5

end FranchiseCriteria

inductive Unmet where
  | accountTooYoung (needDays haveDays : Int)
  | membershipTooShort (needDays haveDays : Int)
  | insufficientContribution (need have_ : Int)
  | sanctioned
  | barred
deriving DecidableEq

structure Eligibility where
  unmet : List Unmet
deriving DecidableEq

def Eligibility.isEligible (e : Eligibility) : Bool := e.unmet.isEmpty

def evaluateEligibility (user : User) (membership : Membership)
    (criteria : FranchiseCriteria) (now : Timestamp) : Eligibility :=
  if user.isFranchiseBarred then
    ⟨[.barred]⟩
  else
    let accountAge := user.accountAgeDays now
    let memberAge := membership.membershipAgeDays now
    ⟨(if accountAge < criteria.minAccountAgeDays then
        [.accountTooYoung criteria.minAccountAgeDays accountAge] else []) ++
      (if memberAge < criteria.minMembershipDays then
        [.membershipTooShort criteria.minMembershipDays memberAge] else []) ++
      (if membership.contribution < criteria.minContribution then
        [.insufficientContribution criteria.minContribution membership.contribution] else []) ++
      (if membership.isSanctioned then [.sanctioned] else [])⟩

/-- Eligibility is the conjunction of the five bars. -/
theorem evaluateEligibility_isEligible {user : User} {membership : Membership}
    {criteria : FranchiseCriteria} {now : Timestamp} :
    (evaluateEligibility user membership criteria now).isEligible = true ↔
      user.isFranchiseBarred = false ∧
      criteria.minAccountAgeDays ≤ user.accountAgeDays now ∧
      criteria.minMembershipDays ≤ membership.membershipAgeDays now ∧
      criteria.minContribution ≤ membership.contribution ∧
      membership.isSanctioned = false := by
  unfold evaluateEligibility Eligibility.isEligible
  by_cases hbarred : user.isFranchiseBarred <;> by_cases hsanction : membership.isSanctioned <;>
    simp [hbarred, hsanction, List.isEmpty_iff]

/-! ## Layer 2: the enfranchisement rate cap -/

def u64Max : Nat := 2 ^ 64 - 1

/-- `u64::saturating_mul`. -/
def saturatingMul (a b : Nat) : Nat := min (a * b) u64Max

/-- `u64::saturating_add`. -/
def saturatingAdd (a b : Nat) : Nat := min (a + b) u64Max

def enfranchisementSlots (citizenCount admittedLast30d : Nat) : Nat :=
  let floor := 5
  let tenPercent := saturatingAdd (saturatingMul citizenCount 10) 99 / 100
  let cap := max tenPercent floor
  cap - admittedLast30d

/-- An open slot: the admissions of the window stay under five or under a tenth
of the roll, rounded up. -/
theorem enfranchisementSlots_pos {citizenCount admitted : Nat}
    (h : enfranchisementSlots citizenCount admitted ≠ 0) :
    admitted < max 5 ((citizenCount + 9) / 10) := by
  simp only [enfranchisementSlots, saturatingAdd, saturatingMul, u64Max] at h
  omega

/-! ## Vote weights -/

def maxVoteWeight : Nat := 16

inductive VoteWeighting where
  | equal | byContribution | byTenure | byRole
deriving DecidableEq

namespace VoteWeighting

/-- `value.clamp(low, high)`. -/
def clamp (value low high : Nat) : Nat := max low (min value high)

def weightOf (scheme : VoteWeighting) (member : Membership) (now : Timestamp) : Nat :=
  let raw := match scheme with
    | equal => 1
    | byContribution => 1 + (max member.contribution 0).toNat.sqrt
    | byTenure =>
      match member.enfranchisedAt with
      | some at_ => 1 + (max (now.daysSince at_) 0).toNat / 365
      | none => 1
    | byRole => member.grantedWeight
  clamp raw 1 maxVoteWeight

theorem one_le_weightOf (scheme : VoteWeighting) (member : Membership) (now : Timestamp) :
    1 ≤ scheme.weightOf member now := by
  simp only [weightOf, clamp]
  omega

theorem weightOf_le (scheme : VoteWeighting) (member : Membership) (now : Timestamp) :
    scheme.weightOf member now ≤ maxVoteWeight := by
  simp only [weightOf, clamp, maxVoteWeight]
  omega

/-- Only tenure weighs by the clock. -/
theorem weightOf_eq_of_ne_byTenure {scheme : VoteWeighting} (h : scheme ≠ byTenure)
    (member : Membership) (now now' : Timestamp) :
    scheme.weightOf member now = scheme.weightOf member now' := by
  cases scheme with
  | byTenure => exact absurd rfl h
  | _ => rfl

@[simp] theorem weightOf_equal (member : Membership) (now : Timestamp) :
    equal.weightOf member now = 1 := rfl

end VoteWeighting

inductive WeightingScope where
  | both | juriesOnly | ballotsOnly | none
deriving DecidableEq

def WeightingScope.appliesToBallots : WeightingScope → Bool
  | both | ballotsOnly => true
  | juriesOnly | none => false

end Democrachat
