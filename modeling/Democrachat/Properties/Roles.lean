import Democrachat.Polity.Turns
import Democrachat.Polity.UseCases

/-!
# Roles and granted weights

A ballot that assigns a role does not ask whether the user is a member, and one that grants a
weight does not ask whether the member is a citizen.
-/

namespace Democrachat

open Library

structure RolesConsistent (c : Polity) : Prop where
  placed : ∀ a ∈ c.roleAssignments, ∃ r, c.roles.get a.roleId = some r ∧ r.serverId = a.serverId
  members : ∀ a ∈ c.roleAssignments, (c.roster.member a.user a.serverId).isSome
  once : c.roleAssignments.Pairwise (fun a b => ¬ (a.roleId = b.roleId ∧ a.user = b.user))
  weights : ∀ m ∈ c.roster.rows, m.grantedWeight ≠ 1 → m.isCitizen = true

/-! ## The condition -/

/-- An effect assigns a role of the server to members only, and weights citizens only. -/
def Polity.qualifies (c : Polity) (sid : ServerId) : ProposalKind → Bool
  | .assignRole user role => !c.hasRole role sid || (c.roster.member user sid).isSome
  | .grantVoteWeight user weight => weight == 1 || (c.roster.member user sid).all (·.isCitizen)
  | _ => true

/-- What the turn applies does so. -/
def Turn.qualifies (t : Turn) : Bool :=
  !t.closed.applyDue t.session.now || t.polity.qualifies t.proposal.serverId t.proposal.kind

/-- Every ballot that the request applies does so. -/
def UseCase.qualifies (w : World) : UseCase → Bool
  | .op operation => operation.sweeps.all (fun serverSlug =>
      (w.polity.resolveTurns serverSlug).all (·.qualifies))
  | _ => true

/-! ## Assignments -/

section Once

variable {c c' : Polity}

def AssignedOnce (c : Polity) : Prop :=
  c.roleAssignments.Pairwise (fun a b => ¬ (a.roleId = b.roleId ∧ a.user = b.user))

theorem AssignedOnce.assign (h : AssignedOnce c) (a : RoleAssignment) :
    AssignedOnce (c.assign a) := by
  unfold Polity.assign
  split
  next => exact h
  next hnew =>
    refine List.pairwise_append.2 ⟨h, List.pairwise_singleton _ a, ?_⟩
    intro b hb a' ha'
    rw [List.mem_singleton.1 ha']
    simp only [List.any_eq_true, Bool.and_eq_true, beq_iff_eq, not_exists, not_and] at hnew
    exact fun hsame => hnew b hb hsame.1 hsame.2

theorem AssignedOnce.enacted (h : AssignedOnce c) {sid : ServerId} {kind : ProposalKind}
    {now : Timestamp} (he : Enacted sid kind now c c') : AssignedOnce c' := by
  cases he with
  | removeRole _ _ => exact h.filter _
  | assign _ _ _ => exact h.assign _
  | unassign _ _ _ => exact h.filter _
  | _ => exact h

theorem AssignedOnce.move (h : AssignedOnce c) (hmove : Move c c') : AssignedOnce c' := by
  cases hmove with
  | @apply p _ hdue =>
    rw [Polity.applyIfDue, if_pos hdue]
    have henacted := h.enacted (enacted_enact c p.serverId p.kind c.now)
    exact henacted
  | _ => exact h

theorem Services.Served.assignedOnce {services : Services} {w : World}
    (hw : services.Served w) : AssignedOnce w.polity := by
  refine Served.polity_invariant ?_ ?_ ?_ ?_ ?_ ?_ hw
  · exact fun _ _ h => h
  · exact fun _ _ h hmove => h.move hmove
  · exact fun _ _ _ _ _ h => h
  · exact fun _ _ h _ _ => h
  · exact fun _ _ _ h _ => h
  · exact fun _ _ => .nil

end Once

/-! ## Members and citizens -/

/-- What depends on the ballots. -/
structure Qualified (c : Polity) : Prop where
  members : ∀ a ∈ c.roleAssignments, (c.roster.member a.user a.serverId).isSome
  weights : ∀ m ∈ c.roster.rows, m.grantedWeight ≠ 1 → m.isCitizen = true

namespace Qualified

variable {c c' : Polity}

/-- A membership is written whose weight is one or whose member is a citizen. -/
theorem insert (h : Qualified c) {m : Membership} (hm : m.grantedWeight ≠ 1 → m.isCitizen = true) :
    Qualified { c with roster := c.roster.insert m } where
  members := fun a ha => Table.isSome_get_insert (h.members a ha)
  weights := forall_insert h.weights hm

theorem editMembership (h : Qualified c) (user : UserId) (sid : ServerId)
    {f : Membership → Membership}
    (hf : ∀ m, c.roster.member user sid = some m → (m.grantedWeight ≠ 1 → m.isCitizen = true) →
      (f m).grantedWeight ≠ 1 → (f m).isCitizen = true) :
    Qualified (c.editMembership user sid f) := by
  unfold Polity.editMembership
  split
  next m hm => exact h.insert (hf m hm (h.weights m (Table.mem_of_get hm)))
  next => exact h

theorem enact (h : Qualified c) {sid : ServerId} {kind : ProposalKind} (now : Timestamp)
    (hkind : c.qualifies sid kind = true) : Qualified (c.enact sid kind now) := by
  cases kind with
  | ban user => exact h.editMembership user sid (fun _ _ hm => hm)
  | timeout user _ => exact h.editMembership user sid (fun _ _ hm => hm)
  | grantVoteWeight user weight =>
    refine h.editMembership user sid (fun m hm _ hweight => ?_)
    simp only [Polity.qualifies, Bool.or_eq_true, beq_iff_eq, hm, Option.all_some] at hkind
    exact hkind.resolve_left hweight
  | assignRole user role =>
    simp only [Polity.enact, Polity.assign]
    split
    next hrole =>
      split
      next => exact h
      next =>
        refine ⟨fun a ha => ?_, h.weights⟩
        rcases List.mem_append.1 ha with ha | ha
        · exact h.members a ha
        · rw [List.mem_singleton.1 ha]
          simpa [Polity.qualifies, hrole] using hkind
    next => exact h
  | deleteRole role =>
    simp only [Polity.enact]
    split
    next => exact ⟨fun a ha => h.members a (List.mem_filter.1 ha).1, h.weights⟩
    next => exact h
  | unassignRole user role =>
    simp only [Polity.enact]
    split
    next => exact ⟨fun a ha => h.members a (List.mem_filter.1 ha).1, h.weights⟩
    next => exact h
  | _ =>
    simp only [Polity.enact, Polity.editServer]
    repeat' split
    all_goals exact ⟨h.members, h.weights⟩

theorem sweepOne (σ : Session) (p : Proposal) (h : Qualified c)
    (ht : (Turn.mk σ p c).qualifies = true) : Qualified (c.sweepOne σ p) := by
  have hclosed : Qualified (c.closeIfDue σ p) := by
    unfold Polity.closeIfDue
    split <;> exact ⟨h.members, h.weights⟩
  rw [Polity.sweepOne, Polity.applyIfDue]
  split
  next hdue =>
    have hkind : (c.closeIfDue σ p).qualifies p.serverId p.kind = true := by
      have hthen : c.qualifies p.serverId p.kind = true := by
        simpa [Turn.qualifies, Turn.closed, hdue] using ht
      unfold Polity.closeIfDue
      split <;> exact hthen
    rw [Polity.closed_serverId, Polity.closed_kind]
    have henacted := hclosed.enact σ.now hkind
    exact ⟨henacted.members, henacted.weights⟩
  next => exact hclosed

/-- The request has written at most a membership whose weight is one or whose member is a
citizen. -/
theorem of_written (h : Qualified c) (hassignments : c'.roleAssignments = c.roleAssignments)
    (hroster : c'.roster = c.roster ∨ ∃ m : Membership,
      (m.grantedWeight ≠ 1 → m.isCitizen = true) ∧ c'.roster = c.roster.insert m) :
    Qualified c' := by
  rcases hroster with hsame | ⟨m, hm, hwritten⟩
  · refine ⟨fun a ha => ?_, ?_⟩
    · rw [hsame]
      exact h.members a (hassignments ▸ ha)
    · rw [hsame]
      exact h.weights
  · have hinsert := h.insert hm
    refine ⟨fun a ha => ?_, ?_⟩
    · rw [hwritten]
      exact hinsert.members a (hassignments ▸ ha)
    · rw [hwritten]
      exact hinsert.weights

/-- What a request other than a sweep writes of the memberships. -/
theorem roster_serve (services : Services) (w : World) {u : UseCase}
    (hu : ¬ ∃ op serverSlug, u = .op op ∧ op.sweeps = some serverSlug) (h : Qualified w.polity) :
    (services.serve w u).polity.roster = w.polity.roster ∨ ∃ m : Membership,
      (m.grantedWeight ≠ 1 → m.isCitizen = true) ∧
      (services.serve w u).polity.roster = w.polity.roster.insert m := by
  have hspared : u.parts.contains .members = false →
      (services.serve w u).polity.roster = w.polity.roster :=
    (spares_serve services w u).memberships
  have hcredited : ∀ {c : Polity}, Credited w.polity c → c.roster = w.polity.roster ∨
      ∃ m : Membership, (m.grantedWeight ≠ 1 → m.isCitizen = true) ∧
        c.roster = w.polity.roster.insert m := by
    intro c hc
    cases hc with
    | none => exact .inl rfl
    | @some m contribution hm =>
      exact .inr ⟨{ m with contribution := contribution }, h.weights m (Table.mem_of_get hm), rfl⟩
  cases u with
  | op op =>
    cases op with
    | foundServer founderHandle name isPrivate =>
      rcases foundServer_cases w founderHandle name isPrivate with
        ⟨-, hsame⟩ | ⟨founder, -, -, hfound⟩
      · exact .inl (congrArg Polity.roster hsame)
      · exact .inr ⟨_, fun _ => rfl, congrArg Polity.roster hfound⟩
    | acceptInvite handle code =>
      rcases acceptInvite_cases w services handle code with hsame | ⟨user, _, server, _, hadded⟩
      · exact .inl (congrArg (·.polity.roster) hsame)
      · exact .inr ⟨_, fun hone => absurd rfl hone, congrArg (·.polity.roster) hadded⟩
    | joinServer handle serverSlug =>
      rcases joinServer_cases w handle serverSlug with hsame | ⟨user, server, _, hadded⟩
      · exact .inl (congrArg (·.polity.roster) hsame)
      · exact .inr ⟨_, fun hone => absurd rfl hone, congrArg (·.polity.roster) hadded⟩
    | tryEnfranchise handle serverSlug =>
      rcases tryEnfranchise_cases w handle serverSlug with ⟨-, hsame⟩ | ⟨_, _, m, _, hadmitted⟩
      · exact .inl (congrArg (·.polity.roster) hsame)
      · exact .inr ⟨_, fun _ => rfl, congrArg (·.2.polity.roster) hadmitted⟩
    | setContribution handle serverSlug contribution =>
      exact hcredited (credited_setContribution w handle serverSlug contribution)
    | react handle messageId emoji => exact hcredited (credited_react w handle messageId emoji)
    | unreact handle messageId emoji => exact hcredited (credited_unreact w handle messageId emoji)
    | setHistorySharing handle serverSlug shares =>
      rcases setHistorySharing_cases w handle serverSlug shares with hsame | ⟨m, hm, hwritten⟩
      · exact .inl (congrArg (·.polity.roster) hsame)
      · exact .inr ⟨{ m with sharesHistoryWithNewcomers := shares },
          h.weights m (Table.mem_of_get hm), congrArg (·.polity.roster) hwritten⟩
    | resolveDue serverSlug => exact absurd ⟨_, serverSlug, rfl, rfl⟩ hu
    | listProposals serverSlug => exact absurd ⟨_, serverSlug, rfl, rfl⟩ hu
    | _ => exact .inl (hspared rfl)
  | _ => exact .inl (hspared rfl)

theorem serve {services : Services} {w : World} (h : Qualified w.polity) {u : UseCase}
    (hu : u.qualifies w = true) : Qualified (services.serve w u).polity := by
  by_cases hsweep : ∃ op serverSlug, u = .op op ∧ op.sweeps = some serverSlug
  · obtain ⟨op, serverSlug, rfl, hsweeps⟩ := hsweep
    rw [polity_sweeps services hsweeps]
    refine Polity.resolveDue_of_turns (Q := fun t => t.qualifies = true)
      (fun σ c p hc ht => hc.sweepOne σ p ht) h ?_
    simpa [UseCase.qualifies, hsweeps] using hu
  · have hroles : u.parts.contains .roles = false := by
      by_contra hroles
      exact hsweep (sweeps_of_roles (by simpa using hroles))
    exact h.of_written ((spares_serve services w u).roleAssignments hroles)
      (roster_serve services w hsweep h)

end Qualified

section Runs

variable (services : Services) (node : NodeId) (now : Timestamp)

/-- Where the ballots assign roles to members and weight citizens, both stay consistent. -/
theorem roles_consistent {us : List UseCase}
    (hus : Along services.serve (fun w u => u.qualifies w = true) (.empty node now) us) :
    RolesConsistent (services.serveAll (.empty node now) us).polity := by
  have hserved : services.Served (services.serveAll (.empty node now) us) := ⟨node, now, us, rfl⟩
  have hqualified := hus.invariant (I := fun w => Qualified w.polity) (fun _ _ h hu => h.serve hu)
    ⟨nofun, nofun⟩
  exact ⟨hserved.rolesPlaced.assignments, hqualified.members, hserved.assignedOnce,
    hqualified.weights⟩

end Runs

namespace Agora

/-- The founder makes a guild, and then the user a fellow of it. -/
def fellowship (user : UserId) : List UseCase :=
  (founding ++ joining ["a"]).map .op ++
  [.op (.openProposal "zed" "agora" (.createRole "guild")),
    .op (.castVote "zed" (composeId 0 1) true), .op (.setClock (day 3)), .op (.resolveDue "agora"),
    .op (.openProposal "zed" "agora" (.assignRole user (composeId 0 1))),
    .op (.castVote "zed" (composeId 0 2) true), .op (.setClock (day 6)), .op (.resolveDue "agora")]

end Agora

theorem roles_consistent_fellowship :
    RolesConsistent (Agora.services.serveAll (.empty 0 (Agora.day 0))
      (Agora.fellowship (composeId 0 2))).polity :=
  roles_consistent Agora.services 0 (Agora.day 0) (by decide +kernel)

/-- The guild has a fellow whom the server does not know. -/
theorem stranger_in_role :
    ¬ RolesConsistent (Agora.services.serveAll (.empty 0 (Agora.day 0))
      (Agora.fellowship (composeId 0 7))).polity := by
  intro hconsistent
  have hmembers := hconsistent.members
  revert hmembers
  decide +kernel

end Democrachat
