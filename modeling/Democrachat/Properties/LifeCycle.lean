import Democrachat.Polity.Ballots
import Democrachat.Polity.Roster

/-!
# The life of a proposal

A proposal is decided at most once, is applied at most once and only when it
passed, and never before its window and its timelock have elapsed, wherever the
clock jumps.
-/

namespace Democrachat

open Library

/-! ## One proposal -/

/-- `p'` is `p` at a later time: a decision and an application are final. -/
structure Ages (p p' : Proposal) : Prop where
  id : p'.id = p.id
  serverId : p'.serverId = p.serverId
  kind : p'.kind = p.kind
  openedAt : p'.openedAt = p.openedAt
  closesAt : p'.closesAt = p.closesAt
  decided : p.status ≠ .open_ → p'.status = p.status
  applied : p.isApplied = true → p'.isApplied = true

/-- And what one request needs to decide it or to apply it. -/
structure Steps (c : Polity) (p p' : Proposal) : Prop extends Ages p p' where
  closing : p.status = .open_ → p'.status ≠ .open_ → p.closesAt ≤ c.now
  seed : p.status = .open_ → p'.status ≠ .open_ → p.kind.decisionClass = .constitutional →
    Phase.fromCitizenCount (c.roster.citizenCount p.serverId) = .seed → p'.status = .failed
  applying : p.isApplied = false → p'.isApplied = true →
    ∃ effectiveAt, p'.status = .passed effectiveAt ∧ effectiveAt ≤ c.now

theorem Ages.refl (p : Proposal) : Ages p p :=
  ⟨rfl, rfl, rfl, rfl, rfl, fun _ => rfl, fun h => h⟩

theorem Ages.trans {p p' p'' : Proposal} (h : Ages p p') (h' : Ages p' p'') : Ages p p'' where
  id := h'.id.trans h.id
  serverId := h'.serverId.trans h.serverId
  kind := h'.kind.trans h.kind
  openedAt := h'.openedAt.trans h.openedAt
  closesAt := h'.closesAt.trans h.closesAt
  decided := by
    intro hp
    have hp' := h.decided hp
    exact (h'.decided (hp' ▸ hp)).trans hp'
  applied := fun hp => h'.applied (h.applied hp)

namespace Steps

variable {c c' : Polity} {p p' p'' : Proposal}

theorem refl (c : Polity) (p : Proposal) : Steps c p p where
  toAges := Ages.refl p
  closing := fun h h' => absurd h h'
  seed := fun h h' => absurd h h'
  applying := by
    intro h h'
    rw [h] at h'
    cases h'

theorem trans (h : Steps c p p') (h' : Steps c' p' p'') (hnow : c'.now = c.now)
    (hcount : ∀ sid, c'.roster.citizenCount sid = c.roster.citizenCount sid) : Steps c p p'' where
  toAges := h.toAges.trans h'.toAges
  closing := by
    intro hopen hdecided
    by_cases hp' : p'.status = .open_
    · have hclosing := h'.closing hp' hdecided
      rwa [h.closesAt, hnow] at hclosing
    · exact h.closing hopen hp'
  seed := by
    intro hopen hdecided hclass hphase
    by_cases hp' : p'.status = .open_
    · exact h'.seed hp' hdecided (h.kind ▸ hclass) (by rw [h.serverId, hcount]; exact hphase)
    · exact (h'.decided hp').trans (h.seed hopen hp' hclass hphase)
  applying := by
    intro hunapplied happlied
    by_cases hp' : p'.isApplied = true
    · obtain ⟨effectiveAt, hstatus, hle⟩ := h.applying hunapplied hp'
      have hdecided : p'.status ≠ .open_ := by simp [hstatus]
      exact ⟨effectiveAt, (h'.decided hdecided).trans hstatus, hle⟩
    · obtain ⟨effectiveAt, hstatus, hle⟩ := h'.applying (by simpa using hp') happlied
      exact ⟨effectiveAt, hstatus, hnow ▸ hle⟩

end Steps

/-! ## All proposals -/

/-- A proposal as it is opened, under an identifier no stored one has. -/
structure IsNew (c : Polity) (p : Proposal) : Prop where
  fresh : ∀ q ∈ c.proposals.rows, q.id ≠ p.id
  isOpen : p.status = .open_
  unapplied : p.isApplied = false
  openedAt : p.openedAt = c.now
  closesAt : p.closesAt = c.now.plusDays votingWindowDays

/-- What one operation does to the proposals and to the history of effects. -/
structure Advances (c c' : Polity) : Prop where
  old : ∀ p ∈ c.proposals.rows, ∃ p' ∈ c'.proposals.rows, Steps c p p'
  new : ∀ p' ∈ c'.proposals.rows, (∃ p ∈ c.proposals.rows, Steps c p p') ∨ IsNew c p'
  effects : ∃ noted, c'.effects = c.effects ++ noted ∧ ∀ e ∈ noted, e.appliedAt = c.now

namespace Advances

variable {c c' c'' : Polity}

theorem of_eq (hproposals : c'.proposals = c.proposals) (heffects : c'.effects = c.effects) :
    Advances c c' where
  old := fun p hp => ⟨p, hproposals ▸ hp, Steps.refl c p⟩
  new := fun p hp => .inl ⟨p, hproposals ▸ hp, Steps.refl c p⟩
  effects := ⟨[], by rw [heffects, List.append_nil], fun _ he => (nomatch he)⟩

/-- One stored proposal took a step. -/
theorem of_put {p q : Proposal} (hp : c.proposals.get p.id = some p) (hq : Steps c p q)
    (hproposals : c'.proposals = c.proposals.insert q)
    (heffects : ∃ noted, c'.effects = c.effects ++ noted ∧ ∀ e ∈ noted, e.appliedAt = c.now) :
    Advances c c' where
  old := by
    intro u hu
    rw [hproposals]
    by_cases hid : u.id = q.id
    · have hup : u = p := by
        have hget := Table.mem_iff.1 hu
        rw [hid, hq.id, hp] at hget
        exact (Option.some.inj hget).symm
      exact ⟨q, Table.mem_insert.2 (.inl rfl), hup ▸ hq⟩
    · exact ⟨u, Table.mem_insert.2 (.inr ⟨hu, hid⟩), Steps.refl c u⟩
  new := by
    intro u hu
    rw [hproposals] at hu
    rcases Table.mem_insert.1 hu with rfl | ⟨hu, -⟩
    · exact .inl ⟨p, Table.mem_of_get hp, hq⟩
    · exact .inl ⟨u, hu, Steps.refl c u⟩
  effects := heffects

theorem trans (h : Advances c c') (h' : Advances c' c'') (hnow : c'.now = c.now)
    (hcount : ∀ sid, c'.roster.citizenCount sid = c.roster.citizenCount sid) :
    Advances c c'' where
  old := by
    intro p hp
    obtain ⟨p', hp', hstep⟩ := h.old p hp
    obtain ⟨p'', hp'', hstep'⟩ := h'.old p' hp'
    exact ⟨p'', hp'', hstep.trans hstep' hnow hcount⟩
  new := by
    intro p'' hp''
    rcases h'.new p'' hp'' with ⟨p', hp', hstep'⟩ | hnew
    · rcases h.new p' hp' with ⟨p, hp, hstep⟩ | hnew
      · exact .inl ⟨p, hp, hstep.trans hstep' hnow hcount⟩
      · -- Opened in this request: its window has not elapsed, so it is open still.
        have hopen : p''.status = .open_ := by
          by_contra hdecided
          have hclosing := hstep'.closing hnew.isOpen hdecided
          rw [hnew.closesAt, hnow, Timestamp.le_def, Timestamp.plusDays_secs, votingWindowDays]
            at hclosing
          omega
        have hunapplied : p''.isApplied = false := by
          by_contra happlied
          obtain ⟨effectiveAt, hstatus, -⟩ :=
            hstep'.applying hnew.unapplied (by simpa using happlied)
          rw [hopen] at hstatus
          cases hstatus
        exact .inr ⟨fun q hq => hstep'.id ▸ hnew.fresh q hq, hopen, hunapplied,
          hstep'.openedAt.trans hnew.openedAt, hstep'.closesAt.trans hnew.closesAt⟩
    · refine .inr ⟨fun q hq hid => ?_, hnew.isOpen, hnew.unapplied, hnew.openedAt.trans hnow,
        hnow ▸ hnew.closesAt⟩
      obtain ⟨q', hq', hstep⟩ := h.old q hq
      exact hnew.fresh q' hq' (hstep.id.trans hid)
  effects := by
    obtain ⟨noted, heffects, hnoted⟩ := h.effects
    obtain ⟨noted', heffects', hnoted'⟩ := h'.effects
    refine ⟨noted ++ noted', by rw [heffects', heffects, List.append_assoc], fun e he => ?_⟩
    rcases List.mem_append.1 he with he | he
    · exact hnoted e he
    · exact (hnoted' e he).trans hnow

end Advances

/-! ## Moves -/

section Moves

variable {c c' : Polity} {σ : Session} {p : Proposal}

theorem closeDue_iff {now : Timestamp} :
    p.closeDue now = true ↔ p.status = .open_ ∧ p.closesAt ≤ now := by
  simp [Proposal.closeDue]

theorem applyDue_iff {now : Timestamp} :
    p.applyDue now = true ↔
      p.isApplied = false ∧ ∃ effectiveAt, p.status = .passed effectiveAt ∧ effectiveAt ≤ now := by
  unfold Proposal.applyDue
  split <;> simp_all

theorem closed_eq (hdue : p.closeDue σ.now = true) :
    c.closed σ p = p.close (c.tally σ.scheme σ.server σ.now p.id) σ.citizens σ.phase σ.now :=
  if_pos hdue

/-- Closing is a step. -/
theorem steps_closed (hcitizens : σ.citizens = c.roster.citizenCount p.serverId)
    (hnow : σ.now = c.now) (hdue : p.closeDue c.now = true) : Steps c p (c.closed σ p) := by
  obtain ⟨hopen, hwindow⟩ := closeDue_iff.1 hdue
  rw [closed_eq (hnow ▸ hdue)]
  constructor
  · exact ⟨rfl, rfl, rfl, rfl, rfl, fun h => absurd hopen h, fun h => h⟩
  · exact fun _ _ => hwindow
  · intro _ _ hclass hphase
    have hbar : thresholdFor p.kind.decisionClass σ.phase = none := by
      rw [thresholdFor_eq_none, Session.phase, hcitizens]
      exact ⟨hclass, hphase⟩
    simp [Proposal.close, Proposal.closedStatus, hbar]
  · intro hunapplied happlied
    rw [Proposal.close_isApplied, hunapplied] at happlied
    cases happlied

/-- Applying is a step. -/
theorem steps_applied (hdue : p.applyDue c.now = true) :
    Steps c p { p with isApplied := true } where
  toAges := ⟨rfl, rfl, rfl, rfl, rfl, fun _ => rfl, fun _ => rfl⟩
  closing := fun hopen hdecided => absurd hopen hdecided
  seed := fun hopen hdecided => absurd hopen hdecided
  applying := fun _ _ => (applyDue_iff.1 hdue).2

theorem applyIfDue_proposals (hdue : p.applyDue c.now = true) :
    (c.applyIfDue c.now p).proposals = c.proposals.insert { p with isApplied := true } := by
  have hsame := (enacted_enact c p.serverId p.kind c.now).sameBallots
  rw [Polity.applyIfDue, if_pos hdue, ← hsame.proposals]
  rfl

theorem applyIfDue_effects (hdue : p.applyDue c.now = true) :
    (c.applyIfDue c.now p).effects = c.effects ++ [⟨p.id, c.now⟩] := by
  have hsame := (enacted_enact c p.serverId p.kind c.now).sameBallots
  rw [Polity.applyIfDue, if_pos hdue, ← hsame.effects]
  rfl

theorem Move.advances (hc : BallotsKept c) (h : Move c c') : Advances c c' := by
  cases h with
  | @propose g proposer kind _ =>
    constructor
    · intro p hp
      have hne := (hc.proposals p hp).ne_composeId
      exact ⟨p, Table.mem_insert.2 (.inr ⟨hp, hne⟩), Steps.refl c p⟩
    · intro p hp
      rcases Table.mem_insert.1 hp with rfl | ⟨hp, -⟩
      · exact .inr ⟨fun q hq => (hc.proposals q hq).ne_composeId, rfl, rfl, rfl, rfl⟩
      · exact .inl ⟨p, hp, Steps.refl c p⟩
    · exact ⟨[], (List.append_nil _).symm, fun _ he => (nomatch he)⟩
  | close hp _ hcitizens hnow hdue =>
    exact .of_put hp (steps_closed hcitizens hnow hdue) rfl
      ⟨[], (List.append_nil _).symm, fun _ he => (nomatch he)⟩
  | apply hp hdue =>
    refine .of_put hp (steps_applied hdue) (applyIfDue_proposals hdue)
      ⟨_, applyIfDue_effects hdue, fun e he => ?_⟩
    rw [List.mem_singleton.1 he]
  | _ => exact .of_eq rfl rfl

theorem Moves.advances (hc : BallotsKept c) (h : Moves c c') : Advances c c' := by
  induction h with
  | refl => exact .of_eq rfl rfl
  | tail hmoves hmove ih =>
    have hkept := Moves.keep (fun _ _ hc hmove => hc.move hmove) hmoves hc
    exact ih.trans (hmove.advances hkept) (Moves.now hmoves)
      (fun sid => (Moves.keeps hmoves).citizenCount sid)

end Moves

/-! ## Runs -/

section Step

variable (services : Services) {w : World}

theorem advances_step (hw : services.Reachable w) (op : Op) :
    Advances w.polity (services.step w op).polity := by
  have hstepped := services.stepped w op
  generalize (services.step w op).polity = c at hstepped ⊢
  cases hstepped with
  | clock => exact .of_eq rfl rfl
  | moves _ hmoves => exact hmoves.advances hw.ballotsKept
  | founded => exact .of_eq rfl rfl
  | admitted => exact .of_eq rfl rfl

theorem ages_run (hw : services.Reachable w) (ops : List Op) :
    ∀ p ∈ w.store.proposals.rows, ∃ p' ∈ (services.run w ops).store.proposals.rows, Ages p p' := by
  induction ops generalizing w with
  | nil => exact fun p hp => ⟨p, hp, Ages.refl p⟩
  | cons op ops ih =>
    intro p hp
    obtain ⟨p', hp', hstep⟩ := (advances_step services hw op).old p hp
    obtain ⟨p'', hp'', hages⟩ := ih (hw.step op) p' hp'
    exact ⟨p'', hp'', hstep.toAges.trans hages⟩

end Step

/-! ## The history -/

/-- The runs of `apply_effect` for a proposal. -/
def effectsFor (effects : List Effect) (p : ProposalId) : List Effect :=
  effects.filter (fun e => e.proposal == p)

/-- The proposal's dates and its history fit. -/
structure Timely (effects : List Effect) (p : Proposal) : Prop where
  window : p.closesAt = p.openedAt.plusDays votingWindowDays
  effective : ∀ effectiveAt, p.status = .passed effectiveAt → p.closesAt ≤ effectiveAt ∧
    (p.kind.decisionClass = .constitutional → p.closesAt.plusDays recallWindowDays ≤ effectiveAt)
  unapplied : p.isApplied = false → effectsFor effects p.id = []
  applied : p.isApplied = true → ∃ effectiveAt appliedAt, p.status = .passed effectiveAt ∧
    effectiveAt ≤ appliedAt ∧ effectsFor effects p.id = [⟨p.id, appliedAt⟩]

structure AllTimely (c : Polity) : Prop where
  proposals : ∀ p ∈ c.proposals.rows, Timely c.effects p
  effects : ∀ e ∈ c.effects, ∃ p ∈ c.proposals.rows, p.id = e.proposal

theorem Timely.congr {effects effects' : List Effect} {p : Proposal} (h : Timely effects p)
    (hfor : effectsFor effects' p.id = effectsFor effects p.id) : Timely effects' p where
  window := h.window
  effective := h.effective
  unapplied := fun hp => hfor.trans (h.unapplied hp)
  applied := fun hp => by rw [hfor]; exact h.applied hp

/-- An undecided proposal has not been applied. -/
theorem Timely.unapplied_of_open {effects : List Effect} {p : Proposal} (h : Timely effects p)
    (hopen : p.status = .open_) : p.isApplied = false := by
  by_contra happlied
  obtain ⟨effectiveAt, -, hstatus, -, -⟩ := h.applied (by simpa using happlied)
  rw [hopen] at hstatus
  cases hstatus

namespace AllTimely

variable {c c' : Polity}

theorem of_eq (h : AllTimely c) (hproposals : c'.proposals = c.proposals)
    (heffects : c'.effects = c.effects) : AllTimely c' := by
  constructor
  · rw [hproposals, heffects]
    exact h.proposals
  · rw [hproposals, heffects]
    exact h.effects

/-- One stored proposal was rewritten, and its history may have grown. -/
theorem of_put (h : AllTimely c) {p q : Proposal} (hid : q.id = p.id)
    (hproposals : c'.proposals = c.proposals.insert q) {noted : List Effect}
    (heffects : c'.effects = c.effects ++ noted) (hnoted : ∀ e ∈ noted, e.proposal = p.id)
    (hq : Timely c'.effects q) : AllTimely c' := by
  constructor
  · intro u hu
    rw [hproposals] at hu
    rcases Table.mem_insert.1 hu with rfl | ⟨hu, hne⟩
    · exact hq
    · refine (h.proposals u hu).congr ?_
      have hnone : effectsFor noted u.id = [] := by
        rw [effectsFor, List.filter_eq_nil_iff]
        intro e he heq
        rw [beq_iff_eq, hnoted e he, ← hid] at heq
        exact hne heq.symm
      rw [heffects, effectsFor, List.filter_append]
      exact (congrArg _ hnone).trans (List.append_nil _)
  · intro e he
    rw [hproposals]
    have hkept : ∀ r ∈ c.proposals.rows, ∃ u ∈ (c.proposals.insert q).rows, u.id = r.id := by
      intro r hr
      by_cases hrq : r.id = q.id
      · exact ⟨q, Table.mem_insert.2 (.inl rfl), hrq.symm⟩
      · exact ⟨r, Table.mem_insert.2 (.inr ⟨hr, hrq⟩), rfl⟩
    rw [heffects] at he
    rcases List.mem_append.1 he with he | he
    · obtain ⟨r, hr, hre⟩ := h.effects e he
      obtain ⟨u, hu, hur⟩ := hkept r hr
      exact ⟨u, hu, hur.trans hre⟩
    · exact ⟨q, Table.mem_insert.2 (.inl rfl), hid.trans (hnoted e he).symm⟩

theorem close (h : AllTimely c) {σ : Session} {p : Proposal}
    (hp : c.proposals.get p.id = some p) (hnow : σ.now = c.now) (hdue : p.closeDue c.now = true) :
    AllTimely (c.putProposal (c.closed σ p)) := by
  obtain ⟨hopen, hwindow⟩ := closeDue_iff.1 hdue
  have htimely := h.proposals p (Table.mem_of_get hp)
  have hunapplied := htimely.unapplied_of_open hopen
  refine h.of_put Polity.closed_id rfl (List.append_nil _).symm (fun _ he => (nomatch he)) ?_
  rw [closed_eq (hnow ▸ hdue)]
  constructor
  · exact htimely.window
  · intro effectiveAt hstatus
    obtain ⟨-, rfl⟩ := Proposal.closedStatus_eq_passed.1 hstatus
    rw [hnow]
    split
    next hclass =>
      simp only [Proposal.close_closesAt, Timestamp.le_def, Timestamp.plusDays_secs,
        recallWindowDays] at hwindow ⊢
      exact ⟨by omega, fun _ => by omega⟩
    next hclass => exact ⟨hwindow, fun h => absurd h hclass⟩
  · exact fun _ => htimely.unapplied hunapplied
  · intro happlied
    rw [Proposal.close_isApplied, hunapplied] at happlied
    cases happlied

theorem apply (h : AllTimely c) {p : Proposal} (hp : c.proposals.get p.id = some p)
    (hdue : p.applyDue c.now = true) : AllTimely (c.applyIfDue c.now p) := by
  obtain ⟨hunapplied, effectiveAt, hstatus, hle⟩ := applyDue_iff.1 hdue
  have htimely := h.proposals p (Table.mem_of_get hp)
  have hfor : effectsFor (c.applyIfDue c.now p).effects p.id = [⟨p.id, c.now⟩] := by
    rw [applyIfDue_effects hdue, effectsFor, List.filter_append]
    have hnone := htimely.unapplied hunapplied
    rw [effectsFor] at hnone
    rw [hnone]
    simp
  refine h.of_put (p := p) (q := { p with isApplied := true }) rfl (applyIfDue_proposals hdue)
    (applyIfDue_effects hdue) ?_ ?_
  · intro e he
    rw [List.mem_singleton.1 he]
  · constructor
    · exact htimely.window
    · exact htimely.effective
    · intro hfalse
      cases hfalse
    · exact fun _ => ⟨effectiveAt, c.now, hstatus, hle, hfor⟩

theorem propose (h : AllTimely c) (hc : BallotsKept c) (sid : ServerId) (proposer : UserId)
    (kind : ProposalKind) : AllTimely (c.propose sid proposer kind) := by
  have hfresh : ∀ p ∈ c.proposals.rows, p.id ≠ composeId c.node (c.nextProposal + 1) :=
    fun p hp => (hc.proposals p hp).ne_composeId
  constructor
  · intro p hp
    rcases Table.mem_insert.1 hp with rfl | ⟨hp, -⟩
    · constructor
      · rfl
      · exact fun _ h => (nomatch h)
      · intro _
        refine List.filter_eq_nil_iff.2 (fun e he heq => ?_)
        obtain ⟨q, hq, hqe⟩ := h.effects e he
        exact hfresh q hq (hqe.trans (beq_iff_eq.1 heq))
      · exact fun h => (nomatch h)
    · exact h.proposals p hp
  · intro e he
    obtain ⟨p, hp, hpe⟩ := h.effects e he
    exact ⟨p, Table.mem_insert.2 (.inr ⟨hp, hfresh p hp⟩), hpe⟩

theorem move (h : AllTimely c) (hc : BallotsKept c) (hmove : Move c c') : AllTimely c' := by
  cases hmove with
  | propose proposer kind _ => exact h.propose hc _ proposer kind
  | close hp _ _ hnow hdue => exact h.close hp hnow hdue
  | apply hp hdue => exact h.apply hp hdue
  | _ => exact h.of_eq rfl rfl

end AllTimely

theorem Services.Reachable.allTimely {services : Services} {w : World}
    (hw : services.Reachable w) : AllTimely w.polity := by
  suffices hboth : BallotsKept w.polity ∧ AllTimely w.polity from hboth.2
  refine @Reachable.polity_invariant services (fun c => BallotsKept c ∧ AllTimely c)
    ?_ ?_ ?_ ?_ ?_ w hw
  · exact fun node now => ⟨⟨fun _ h => (nomatch h), fun _ h => (nomatch h), .nil⟩,
      fun _ h => (nomatch h), fun _ h => (nomatch h)⟩
  · exact fun _ _ h => ⟨⟨h.1.proposals, h.1.votes, h.1.once⟩, h.2.of_eq rfl rfl⟩
  · exact fun _ _ h hmove => ⟨h.1.move hmove, h.2.move h.1 hmove⟩
  · exact fun _ _ _ _ _ h => ⟨⟨h.1.proposals, h.1.votes, h.1.once⟩, h.2.of_eq rfl rfl⟩
  · exact fun _ _ h _ _ => ⟨⟨h.1.proposals, h.1.votes, h.1.once⟩, h.2.of_eq rfl rfl⟩

/-- Along every run, and wherever its clock jumps: a decision and an application
are final, and each happens under its own guard; the effect is applied once, by
a passed proposal, at the instant it is flagged and not before its window and,
where it is constitutional, its timelock have elapsed. -/
theorem proposal_life_cycle (services : Services) (node : NodeId) (now : Timestamp)
    (ops : List Op) :
    (∀ op, Advances (services.run (.empty node now) ops).polity
      (services.step (services.run (.empty node now) ops) op).polity) ∧
    (∀ later, ∀ p ∈ (services.run (.empty node now) ops).store.proposals.rows,
      ∃ p' ∈ (services.run (.empty node now) (ops ++ later)).store.proposals.rows, Ages p p') ∧
    (∀ p ∈ (services.run (.empty node now) ops).store.proposals.rows,
      Timely (services.run (.empty node now) ops).effects p) ∧
    ∀ e ∈ (services.run (.empty node now) ops).effects,
      ∃ p ∈ (services.run (.empty node now) ops).store.proposals.rows, p.id = e.proposal ∧
        p.isApplied = true ∧ p.openedAt.plusDays votingWindowDays ≤ e.appliedAt ∧
        (p.kind.decisionClass = .constitutional →
          p.openedAt.plusDays (votingWindowDays + recallWindowDays) ≤ e.appliedAt) := by
  have hw : services.Reachable (services.run (.empty node now) ops) := ⟨node, now, ops, rfl⟩
  refine ⟨advances_step services hw, ?_, hw.allTimely.proposals, ?_⟩
  · intro later
    rw [Services.run_append]
    exact ages_run services hw later
  · intro e he
    obtain ⟨p, hp, hpe⟩ := hw.allTimely.effects e he
    have htimely := hw.allTimely.proposals p hp
    have hmem : e ∈ effectsFor (services.run (.empty node now) ops).polity.effects p.id :=
      List.mem_filter.2 ⟨he, by simp [hpe]⟩
    have happlied : p.isApplied = true := by
      by_contra hunapplied
      rw [htimely.unapplied (by simpa using hunapplied)] at hmem
      cases hmem
    obtain ⟨effectiveAt, appliedAt, hstatus, hle, hfor⟩ := htimely.applied happlied
    rw [hfor, List.mem_singleton] at hmem
    obtain ⟨hwindow, hlock⟩ := htimely.effective effectiveAt hstatus
    have hat : e.appliedAt = appliedAt := by rw [hmem]
    rw [htimely.window] at hwindow hlock
    simp only [Timestamp.le_def, Timestamp.plusDays_secs, votingWindowDays, recallWindowDays]
      at hwindow hlock hle ⊢
    refine ⟨p, hp, hpe, happlied, by rw [hat]; omega, fun hclass => ?_⟩
    have hlocked := hlock hclass
    rw [hat]
    omega

end Democrachat
