import Democrachat.Polity.Invariants
import Mathlib.Algebra.BigOperators.Group.List.Basic

/-!
# Who a tally counts

Every voter has one recorded ballot on a proposal, so a tally is a sum over the
members of the server who may vote and did.
-/

namespace Democrachat

open Library

/-! ## One ballot for each voter -/

/-- The two ballots are the same voter's on the same proposal. -/
def Vote.Clashes (u v : Vote) : Prop := u.proposalId = v.proposalId ∧ u.voter = v.voter

structure BallotsKept (c : Polity) : Prop where
  proposals : ∀ p ∈ c.proposals.rows, Minted c.node c.nextProposal p.id
  votes : ∀ v ∈ c.votes, Minted c.node c.nextProposal v.proposalId
  once : c.votes.Pairwise (fun u v => ¬ u.Clashes v)

theorem mem_recordVote {votes : List Vote} {u v : Vote} :
    u ∈ recordVote votes v ↔ (u ∈ votes ∧ ¬ u.Clashes v) ∨ u = v := by
  simp only [recordVote, List.mem_append, List.mem_filter, List.mem_singleton, Vote.Clashes]
  by_cases hp : u.proposalId = v.proposalId <;> by_cases hv : u.voter = v.voter <;> simp [hp, hv]

theorem pairwise_recordVote {votes : List Vote} (h : votes.Pairwise (fun u v => ¬ u.Clashes v))
    (v : Vote) : (recordVote votes v).Pairwise (fun u v => ¬ u.Clashes v) := by
  refine List.pairwise_append.2 ⟨h.filter _, List.pairwise_singleton _ _, fun u hu x hx => ?_⟩
  obtain rfl := List.mem_singleton.1 hx
  have hkept := (List.mem_filter.1 hu).2
  rintro ⟨hp, hv⟩
  simp [hp, hv] at hkept

namespace BallotsKept

variable {c c' : Polity}

theorem putProposal (h : BallotsKept c) {p q : Proposal} (hp : c.proposals.get p.id = some p)
    (hid : q.id = p.id) : BallotsKept (c.putProposal q) where
  proposals := forall_insert h.proposals (hid ▸ h.proposals p (Table.mem_of_get hp))
  votes := h.votes
  once := h.once

theorem enacted (h : BallotsKept c) {sid : ServerId} {kind : ProposalKind} {now : Timestamp}
    (he : Enacted sid kind now c c') : BallotsKept c' := by
  have hsame := he.sameBallots
  constructor
  · rw [hsame.proposals, hsame.node, hsame.nextProposal]
    exact h.proposals
  · rw [hsame.votes, hsame.node, hsame.nextProposal]
    exact h.votes
  · rw [hsame.votes]
    exact h.once

theorem move (h : BallotsKept c) (hmove : Move c c') : BallotsKept c' := by
  cases hmove with
  | propose proposer kind _ =>
    refine ⟨forall_insert (fun p hp => (h.proposals p hp).succ) minted_composeId, ?_, h.once⟩
    exact fun v hv => (h.votes v hv).succ
  | @vote v p hp _ _ =>
    have hid : p.id = v.proposalId := Table.key_of_get hp
    refine ⟨h.proposals, fun u hu => ?_, pairwise_recordVote h.once v⟩
    rcases mem_recordVote.1 hu with ⟨hu, -⟩ | rfl
    · exact h.votes u hu
    · rw [← hid]
      exact h.proposals p (Table.mem_of_get hp)
  | close hp _ _ _ _ => exact h.putProposal hp Polity.closed_id
  | @apply p hp hdue =>
    rw [Polity.applyIfDue, if_pos hdue]
    have he := enacted_enact c p.serverId p.kind c.now
    have hget : (c.enact p.serverId p.kind c.now).proposals.get p.id = some p := by
      rw [he.sameBallots.proposals]
      exact hp
    have henacted := (h.enacted he).putProposal hget (q := { p with isApplied := true }) rfl
    exact ⟨henacted.proposals, henacted.votes, henacted.once⟩
  | _ => exact ⟨h.proposals, h.votes, h.once⟩

end BallotsKept

theorem Services.Reachable.ballotsKept {services : Services} {w : World}
    (hw : services.Reachable w) : BallotsKept w.polity := by
  refine hw.polity_invariant ?_ ?_ ?_ ?_ ?_
  · exact fun _ _ => ⟨fun _ h => (nomatch h), fun _ h => (nomatch h), .nil⟩
  · exact fun _ _ h => ⟨h.proposals, h.votes, h.once⟩
  · exact fun _ _ h hmove => h.move hmove
  · exact fun _ _ _ _ _ h => ⟨h.proposals, h.votes, h.once⟩
  · exact fun _ _ h _ _ => ⟨h.proposals, h.votes, h.once⟩

/-! ## The voters behind a tally -/

namespace Polity

variable (c : Polity)

/-- The members of the server who may vote now and have a ballot among these. -/
def voters (sid : ServerId) (vs : List Vote) : List Membership :=
  c.roster.rows.filter fun m =>
    m.serverId == sid && m.isFranchised && vs.any (fun v => v.voter == m.userId)

/-- What the ballots of these members weigh. -/
def weigh (scheme : VoteWeighting) (now : Timestamp) (ms : List Membership) : Nat :=
  (ms.map (fun m => scheme.weightOf m now)).sum

end Polity

section Voters

variable {c : Polity} {sid : ServerId} {vs : List Vote}

theorem elector_eq_some {user : UserId} {m : Membership} :
    c.elector sid user = some m ↔
      m ∈ c.roster.rows ∧ m.userId = user ∧ m.serverId = sid ∧ m.isFranchised = true := by
  rw [Polity.elector, Option.filter_eq_some_iff, Roster.member, Table.get_eq_some,
    Membership.key_eq]
  tauto

theorem mem_voters {m : Membership} :
    m ∈ c.voters sid vs ↔ ∃ v ∈ vs, c.elector sid v.voter = some m := by
  simp only [Polity.voters, List.mem_filter, Bool.and_eq_true, beq_iff_eq, List.any_eq_true,
    elector_eq_some]
  constructor
  · rintro ⟨hm, ⟨hsid, hfranchised⟩, v, hv, hvoter⟩
    exact ⟨v, hv, hm, hvoter.symm, hsid, hfranchised⟩
  · rintro ⟨v, hv, hm, hvoter, hsid, hfranchised⟩
    exact ⟨hm, ⟨hsid, hfranchised⟩, v, hv, hvoter.symm⟩

/-- Where nobody has two ballots, the ballots that count are as many as the
voters, and it is the same to go through the ones or through the others. -/
theorem perm_voters (hvs : vs.Pairwise (fun u v => u.voter ≠ v.voter)) :
    (vs.filterMap (fun v => c.elector sid v.voter)).Perm (c.voters sid vs) := by
  refine (List.perm_ext_iff_of_nodup ?_ ?_).2 (fun m => ?_)
  · refine List.pairwise_filterMap.2 (hvs.imp ?_)
    rintro u v hne m hm m' hm' rfl
    exact hne ((elector_eq_some.1 hm).2.1.symm.trans (elector_eq_some.1 hm').2.1)
  · refine List.Nodup.filter _ ?_
    exact c.roster.sorted.imp (fun hlt heq => absurd (heq ▸ hlt) (lt_irrefl _))
  · rw [List.mem_filterMap, mem_voters]

variable (scheme : VoteWeighting) (now : Timestamp)

theorem sum_weight (vs : List Vote) :
    (vs.map (c.weight scheme sid now)).sum =
      Polity.weigh scheme now (vs.filterMap (fun v => c.elector sid v.voter)) := by
  induction vs with
  | nil => rfl
  | cons v vs ih =>
    rw [List.map_cons, List.sum_cons, ih, Polity.weight, List.filterMap_cons]
    cases c.elector sid v.voter with
    | none => exact Nat.zero_add _
    | some m => rfl

theorem sum_weight_eq (hvs : vs.Pairwise (fun u v => u.voter ≠ v.voter)) :
    (vs.map (c.weight scheme sid now)).sum = Polity.weigh scheme now (c.voters sid vs) := by
  rw [sum_weight, Polity.weigh, Polity.weigh]
  exact ((perm_voters hvs).map _).sum_eq

theorem tallyOf_cast (hvs : vs.Pairwise (fun u v => u.voter ≠ v.voter)) :
    (c.tallyOf scheme sid now vs).cast = Polity.weigh scheme now (c.voters sid vs) := by
  rw [← sum_weight_eq scheme now hvs, Tally.cast, Polity.tallyOf, ← List.sum_append,
    ← List.map_append]
  exact ((List.filter_append_perm (fun v : Vote => v.isAye) vs).map _).sum_eq

theorem tallyOf_aye (hvs : vs.Pairwise (fun u v => u.voter ≠ v.voter)) :
    (c.tallyOf scheme sid now vs).aye =
      Polity.weigh scheme now (c.voters sid (vs.filter (·.isAye))) :=
  sum_weight_eq scheme now (hvs.filter _)

end Voters

/-- Nobody has two of the ballots on one proposal. -/
theorem pairwise_ballots {c : Polity} (h : c.votes.Pairwise (fun u v => ¬ u.Clashes v))
    (p : ProposalId) : (c.ballots p).Pairwise (fun u v => u.voter ≠ v.voter) := by
  refine (h.filter _).imp_of_mem ?_
  intro u v hu hv hclash hvoter
  have hup : u.proposalId = p := by simpa using (List.mem_filter.1 hu).2
  have hvp : v.proposalId = p := by simpa using (List.mem_filter.1 hv).2
  exact hclash ⟨hup.trans hvp.symm, hvoter⟩

theorem BallotsKept.ballots {c : Polity} (h : BallotsKept c) (p : ProposalId) :
    (c.ballots p).Pairwise (fun u v => u.voter ≠ v.voter) :=
  pairwise_ballots h.once p

section Weigh

variable (scheme : VoteWeighting) (now : Timestamp) (ms : List Membership)

/-- Every voter weighs at least one. -/
theorem length_le_weigh : ms.length ≤ Polity.weigh scheme now ms := by
  induction ms with
  | nil => exact Nat.le_refl _
  | cons m ms ih =>
    have hone := scheme.one_le_weightOf m now
    simp only [Polity.weigh, List.map_cons, List.sum_cons, List.length_cons] at ih ⊢
    omega

/-- One citizen one vote: the voters weigh as many as they are. -/
theorem weigh_equal : Polity.weigh .equal now ms = ms.length := by
  simp [Polity.weigh]

end Weigh

end Democrachat
