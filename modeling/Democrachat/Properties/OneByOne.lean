import Democrachat.Polity.Closing
import Democrachat.Properties.Quorum

/-!
# A sweep against closing one by one

`resolveDue` reads the server's row once and the memberships at every ballot, so
an effect of the sweep reaches the later tallies only in part.
-/

namespace Democrachat

open Library Prog

/-! ## The abstract behaviour -/

/-- Each proposal is closed and applied with the server's row, the citizen count
and the phase read just before it. -/
def oneByOne (serverId : ServerId) : List Proposal → Prog World Unit
  | [] => return ()
  | p :: ps => do
    match ← ask (·.getServer serverId) with
    | none => return ()
    | some server =>
      let now ← clockNow
      let citizens ← ask (·.citizenCount serverId)
      sweepOne server citizens (Phase.fromCitizenCount citizens) now p
      oneByOne serverId ps

def resolveOneByOne (serverSlug : String) : Prog World Unit := do
  match ← ask (·.findBySlug (trim serverSlug)) with
  | none => return ()
  | some server =>
    let proposals ← ask (·.listProposalsForServer server.id)
    oneByOne server.id proposals

/-- The sweep leaves what closing and applying one by one leaves, and it tallies
each ballot under the rules of the moment of its turn. -/
structure SweepsOneByOne (w : World) (serverSlug : String) : Prop where
  outcome : SameTables ((resolveOneByOne serverSlug).exec w).2.polity
    ((resolveDue serverSlug).exec w).2.polity
  momentary : ∀ t ∈ w.polity.resolveTurns serverSlug, t.isDue = true →
    ∃ g, t.polity.servers.get t.session.server = some g ∧ t.session = t.polity.session g

/-! ## The condition -/

/-- The server's row after an effect. -/
def Server.amended (g : Server) : ProposalKind → Server
  | .setGovernanceSurface enabled => g.setGovernanceSurface enabled
  | .amendCriteria proposed => { g with criteria := proposed }
  | .setJurySizing sizing => { g with jurySizing := sizing }
  | .setVoteWeighting scheme => { g with voteWeighting := scheme }
  | .setWeightingScope scope => { g with weightingScope := scope }
  | .setRehomingPolicy isDisabled => { g with isRehomingDisabled := isDisabled }
  | .setInvitePolicy policy => { g with invitePolicy := policy }
  | _ => g

/-- The row as the proposal's turn leaves it, if the proposal had passed before. -/
def Server.afterTurn (g : Server) (now : Timestamp) (p : Proposal) : Server :=
  if p.applyDue now then g.amended p.kind else g

/-- Whenever a ballot is due, the effects that were due before it have left the
weighting of ballots as it was. -/
def SteadyWeighting (scheme : VoteWeighting) (now : Timestamp) : Server → List Proposal → Prop
  | _, [] => True
  | g, p :: ps =>
    (p.closeDue now = true → g.ballotWeighting = scheme) ∧
      SteadyWeighting scheme now (g.afterTurn now p) ps

/-- No effect that is due when the sweep starts changes the weighting under a
ballot that is due after it. -/
def WeightingSteady (w : World) (serverSlug : String) : Prop :=
  ∀ server ∈ w.store.findBySlug (trim serverSlug),
    SteadyWeighting server.ballotWeighting w.now server (w.store.listProposalsForServer server.id)

/-! ## One by one, run alone -/

namespace Polity

def oneByOne (sid : ServerId) : Polity → List Proposal → Polity
  | c, [] => c
  | c, p :: ps =>
    match c.servers.get sid with
    | none => c
    | some g => oneByOne sid (c.sweepOne (c.session g) p) ps

def resolveOneByOne (c : Polity) (serverSlug : String) : Polity :=
  match c.findBySlug (trim serverSlug) with
  | none => c
  | some server => c.oneByOne server.id (c.listForServer server.id)

end Polity

theorem polity_oneByOne (sid : ServerId) (ps : List Proposal) (w : World) :
    ((oneByOne sid ps).exec w).2.polity = w.polity.oneByOne sid ps := by
  induction ps generalizing w with
  | nil => rfl
  | cons p ps ih =>
    have hrow : w.store.getServer sid = w.polity.servers.get sid := rfl
    rw [oneByOne, exec_ask_bind, Polity.oneByOne, hrow]
    cases hg : w.polity.servers.get sid with
    | none => rfl
    | some g =>
      obtain rfl : g.id = sid := Table.key_of_get hg
      simp only [exec_bind]
      rw [ih]
      have hturn := polity_sweepOne w g w.now (w.store.citizenCount g.id) p
      exact congrArg (Polity.oneByOne g.id · ps) hturn

theorem polity_resolveOneByOne (w : World) (serverSlug : String) :
    ((resolveOneByOne serverSlug).exec w).2.polity = w.polity.resolveOneByOne serverSlug := by
  have hfind : w.store.findBySlug (trim serverSlug) = w.polity.findBySlug (trim serverSlug) := rfl
  rw [resolveOneByOne, exec_ask_bind, Polity.resolveOneByOne, hfind]
  cases w.polity.findBySlug (trim serverSlug) with
  | none => rfl
  | some server => exact polity_oneByOne server.id _ w

/-! ## The server's row during a sweep -/

/-- The rows weigh votes alike. -/
structure SameWeighting (g g' : Server) : Prop where
  voteWeighting : g'.voteWeighting = g.voteWeighting
  weightingScope : g'.weightingScope = g.weightingScope

namespace SameWeighting

variable {g g' : Server}

theorem ballotWeighting (h : SameWeighting g g') : g'.ballotWeighting = g.ballotWeighting := by
  rw [Server.ballotWeighting, Server.ballotWeighting, h.voteWeighting, h.weightingScope]

theorem amended (h : SameWeighting g g') (kind : ProposalKind) :
    SameWeighting (g.amended kind) (g'.amended kind) := by
  cases kind with
  | setVoteWeighting scheme => exact ⟨rfl, h.weightingScope⟩
  | setWeightingScope scope => exact ⟨h.voteWeighting, rfl⟩
  | _ => exact ⟨h.voteWeighting, h.weightingScope⟩

/-- Only a constitutional effect changes how votes are weighed. -/
theorem amended_right (h : SameWeighting g g') {kind : ProposalKind}
    (hkind : kind.decisionClass ≠ .constitutional) : SameWeighting g (g'.amended kind) := by
  cases kind with
  | setVoteWeighting scheme => exact absurd rfl hkind
  | setWeightingScope scope => exact absurd rfl hkind
  | _ => exact ⟨h.voteWeighting, h.weightingScope⟩

end SameWeighting

section Rows

variable {c : Polity} {sid : ServerId} {g : Server}

theorem Polity.editServer_get (h : c.servers.get sid = some g) {f : Server → Server}
    (hid : (f g).id = g.id) : (c.editServer sid f).servers.get sid = some (f g) := by
  have hkey : sid = (f g).id := (Table.key_of_get h).symm.trans hid.symm
  rw [Polity.editServer, h]
  change (c.servers.insert (f g)).get sid = some (f g)
  rw [hkey]
  exact Table.get_insert_self _ _

/-- An effect leaves the row as `amended` says. -/
theorem Polity.enact_get (h : c.servers.get sid = some g) (kind : ProposalKind) (now : Timestamp) :
    (c.enact sid kind now).servers.get sid = some (g.amended kind) := by
  cases kind with
  | setGovernanceSurface enabled => exact Polity.editServer_get h rfl
  | amendCriteria proposed => exact Polity.editServer_get h rfl
  | setJurySizing sizing => exact Polity.editServer_get h rfl
  | setVoteWeighting scheme => exact Polity.editServer_get h rfl
  | setWeightingScope scope => exact Polity.editServer_get h rfl
  | setRehomingPolicy isDisabled => exact Polity.editServer_get h rfl
  | setInvitePolicy policy => exact Polity.editServer_get h rfl
  | ban | timeout | grantVoteWeight =>
    simp only [Polity.enact, Polity.editMembership]
    split <;> exact h
  | createChannel | createRole | deleteChannel | deleteRole | unassignRole =>
    simp only [Polity.enact]
    split <;> exact h
  | assignRole =>
    simp only [Polity.enact, Polity.assign]
    split
    next => split <;> exact h
    next => exact h
  | _ => exact h

theorem Polity.applyIfDue_get (h : c.servers.get sid = some g) {p : Proposal}
    (hp : p.serverId = sid) (now : Timestamp) :
    (c.applyIfDue now p).servers.get sid = some (g.afterTurn now p) := by
  unfold Polity.applyIfDue Server.afterTurn
  split
  next => exact hp ▸ Polity.enact_get (hp ▸ h) p.kind now
  next => exact h

/-- A proposal that its own turn closes is applied in it only if it is not
constitutional. -/
theorem not_constitutional_of_closed {σ : Session} {p : Proposal}
    (hclose : p.closeDue σ.now = true) (happly : (c.closed σ p).applyDue σ.now = true) :
    p.kind.decisionClass ≠ .constitutional := by
  intro hclass
  rw [Polity.closed, if_pos hclose] at happly
  unfold Proposal.applyDue at happly
  split at happly
  next effectiveAt hstatus =>
    have hlater := (Proposal.closedStatus_eq_passed.1 hstatus).2
    rw [if_pos hclass] at hlater
    have hmatured : effectiveAt ≤ σ.now := (of_decide_eq_true happly).2
    rw [hlater, Timestamp.le_def, Timestamp.plusDays_secs, recallWindowDays] at hmatured
    omega
  next => cases happly

theorem applyDue_of_closeDue {p : Proposal} {now : Timestamp} (hclose : p.closeDue now = true) :
    p.applyDue now = false := by
  have hopen : p.status = .open_ := (of_decide_eq_true hclose).1
  rw [Proposal.applyDue, hopen]

/-- What a turn does to the row the sweep no longer reads. -/
theorem Polity.sweepOne_get_server {g' : Server} (h : c.servers.get sid = some g')
    (hsame : SameWeighting g g') {σ : Session} {p : Proposal} (hp : p.serverId = sid) :
    ∃ g'', (c.sweepOne σ p).servers.get sid = some g'' ∧
      SameWeighting (g.afterTurn σ.now p) g'' := by
  have hrow : (c.closeIfDue σ p).servers.get sid = some g' := by
    unfold Polity.closeIfDue
    split <;> exact h
  have hserver : (c.closed σ p).serverId = sid := closed_serverId.trans hp
  refine ⟨_, Polity.applyIfDue_get hrow hserver σ.now, ?_⟩
  by_cases hclose : p.closeDue σ.now = true
  · have hbefore : g.afterTurn σ.now p = g := by
      rw [Server.afterTurn, applyDue_of_closeDue hclose]
      rfl
    rw [hbefore, Server.afterTurn]
    split
    next happly =>
      rw [closed_kind]
      exact hsame.amended_right (not_constitutional_of_closed hclose happly)
    next => exact hsame
  · have hclosed : c.closed σ p = p := if_neg hclose
    rw [hclosed, Server.afterTurn, Server.afterTurn]
    split
    next => exact hsame.amended p.kind
    next => exact hsame

end Rows

/-! ## The two sweeps -/

/-- A turn reads its session only to close a ballot. -/
theorem Polity.sweepOne_congr {c : Polity} {σ τ : Session} {p : Proposal} (hnow : σ.now = τ.now)
    (h : p.closeDue τ.now = true → σ = τ) : c.sweepOne σ p = c.sweepOne τ p := by
  by_cases hclose : p.closeDue τ.now = true
  · rw [h hclose]
  · have hσ : p.closeDue σ.now ≠ true := by rwa [hnow]
    rw [sweepOne, sweepOne, closed, closed, closeIfDue, closeIfDue, if_neg hclose, if_neg hclose,
      if_neg hσ, if_neg hσ, hnow]

/-- The session that a sweep of the server's proposals started with, at a later
turn: all but the weighting is as fresh as then. -/
structure StaleSession (σ : Session) (sid : ServerId) (c : Polity) : Prop where
  server : σ.server = sid
  citizens : σ.citizens = c.roster.citizenCount sid
  now : σ.now = c.now

section Sweeps

variable {σ : Session} {sid : ServerId} {c : Polity} {g g' : Server} {ps : List Proposal}

theorem StaleSession.sweepOne (h : StaleSession σ sid c) (p : Proposal) :
    StaleSession σ sid (c.sweepOne σ p) where
  server := h.server
  citizens := h.citizens.trans (Polity.sweepOne_citizenCount sid).symm
  now := h.now.trans Polity.sweepOne_now.symm

/-- A stale session is fresh exactly when it weighs votes as the row does. -/
theorem StaleSession.eq_session_iff (h : StaleSession σ sid c)
    (hg : c.servers.get sid = some g) : σ = c.session g ↔ g.ballotWeighting = σ.scheme := by
  obtain rfl : g.id = sid := Table.key_of_get hg
  obtain ⟨server, scheme, citizens, now⟩ := σ
  obtain ⟨rfl, rfl, rfl⟩ := h
  simp [Polity.session, eq_comm]

theorem Polity.sweep_eq_oneByOne (hσ : StaleSession σ sid c) (hg : c.servers.get sid = some g')
    (hsame : SameWeighting g g') (hps : ∀ p ∈ ps, p.serverId = sid)
    (hsteady : SteadyWeighting σ.scheme σ.now g ps) : c.sweep σ ps = c.oneByOne sid ps := by
  induction ps generalizing c g g' with
  | nil => rfl
  | cons p ps ih =>
    obtain ⟨hdue, hrest⟩ := hsteady
    have hturn : c.sweepOne σ p = c.sweepOne (c.session g') p := by
      apply Polity.sweepOne_congr hσ.now
      intro hclose
      have hclose : p.closeDue σ.now = true := hσ.now ▸ hclose
      exact (hσ.eq_session_iff hg).2 (hsame.ballotWeighting.trans (hdue hclose))
    have hp : p.serverId = sid := hps p List.mem_cons_self
    obtain ⟨g'', hg'', hsame'⟩ := Polity.sweepOne_get_server (σ := σ) hg hsame hp
    have hsweep := ih (hσ.sweepOne p) hg'' hsame'
      (fun q hq => hps q (List.mem_cons_of_mem _ hq)) hrest
    rw [Polity.oneByOne, hg]
    change (c.sweepOne σ p).sweep σ ps = (c.sweepOne (c.session g') p).oneByOne sid ps
    rw [← hturn]
    exact hsweep

theorem momentary_iff (hσ : StaleSession σ sid c) (hg : c.servers.get sid = some g')
    (hsame : SameWeighting g g') (hps : ∀ p ∈ ps, p.serverId = sid) :
    (∀ t ∈ Polity.turns σ c ps, t.isDue = true →
      ∃ g, t.polity.servers.get t.session.server = some g ∧ t.session = t.polity.session g) ↔
    SteadyWeighting σ.scheme σ.now g ps := by
  induction ps generalizing c g g' with
  | nil => exact ⟨fun _ => trivial, fun _ _ h => (nomatch h)⟩
  | cons p ps ih =>
    have hp : p.serverId = sid := hps p List.mem_cons_self
    obtain ⟨g'', hg'', hsame'⟩ := Polity.sweepOne_get_server (σ := σ) hg hsame hp
    have hrest := ih (hσ.sweepOne p) hg'' hsame' (fun q hq => hps q (List.mem_cons_of_mem _ hq))
    have hfresh : (∃ g, c.servers.get σ.server = some g ∧ σ = c.session g) ↔
        g.ballotWeighting = σ.scheme := by
      rw [hσ.server, hg, ← hsame.ballotWeighting, ← hσ.eq_session_iff hg]
      simp
    rw [Polity.turns, List.forall_mem_cons, hrest]
    exact and_congr (imp_congr_right (fun _ => hfresh)) Iff.rfl

end Sweeps

/-- One sweep does what closing and applying one by one does, every ballot
tallied under the rules of its moment, exactly when no effect that is due when
the sweep starts changes the weighting under a ballot that is due after it. -/
theorem sweep_one_by_one_iff (w : World) (serverSlug : String) :
    SweepsOneByOne w serverSlug ↔ WeightingSteady w serverSlug := by
  have hfind : w.store.findBySlug (trim serverSlug) = w.polity.findBySlug (trim serverSlug) := rfl
  rw [WeightingSteady, hfind]
  cases hserver : w.polity.findBySlug (trim serverSlug) with
  | none =>
    refine ⟨by rintro _ _ ⟨⟩, fun _ => ⟨?_, ?_⟩⟩
    · rw [polity_resolveOneByOne, polity_resolveDue, Polity.resolveOneByOne, Polity.resolveDue,
        hserver]
      constructor <;> rfl
    · rw [Polity.resolveTurns, hserver]
      rintro _ ⟨⟩
  | some server =>
    have hg : w.polity.servers.get server.id = some server :=
      Table.mem_iff.1 (List.mem_of_find?_eq_some hserver)
    have hσ : StaleSession (w.polity.session server) server.id w.polity := ⟨rfl, rfl, rfl⟩
    have hps : ∀ p ∈ w.polity.listForServer server.id, p.serverId = server.id := by
      intro p hp
      simpa using (List.mem_filter.1 hp).2
    have hiff := momentary_iff hσ hg ⟨rfl, rfl⟩ hps
    have hcondition : (∀ g ∈ some server, SteadyWeighting g.ballotWeighting w.now g
        (w.store.listProposalsForServer g.id)) ↔
        SteadyWeighting server.ballotWeighting w.now server
          (w.polity.listForServer server.id) := by
      constructor
      · exact fun h => h server rfl
      · rintro h _ ⟨⟩
        exact h
    rw [hcondition]
    constructor
    · intro h
      have hmomentary := h.momentary
      rw [Polity.resolveTurns, hserver] at hmomentary
      exact hiff.1 hmomentary
    · intro hsteady
      refine ⟨?_, ?_⟩
      · rw [polity_resolveOneByOne, polity_resolveDue, Polity.resolveOneByOne, Polity.resolveDue,
          hserver]
        have hsweep := Polity.sweep_eq_oneByOne hσ hg ⟨rfl, rfl⟩ hps hsteady
        change SameTables (w.polity.oneByOne server.id (w.polity.listForServer server.id))
          (w.polity.sweep (w.polity.session server) (w.polity.listForServer server.id))
        rw [hsweep]
        constructor <;> rfl
      · rw [Polity.resolveTurns, hserver]
        exact hiff.2 hsteady

namespace Agora

/-- The weighting by contribution matures on the day a ballot of one voter is due. -/
def overlap : List Op :=
  surfaced ++ [.resolveDue "agora"] ++
  [.openProposal "zed" "agora" (.setVoteWeighting .byContribution)] ++
  ayes 2 ["a", "b", "c", "d", "e", "f"] ++ [.setClock (day 68), .resolveDue "agora"] ++
  [.setClock (day 72), .openProposal "a" "agora" (.addRule "a rules")] ++ ayes 3 ["a"] ++
  [.setClock (day 75)]

def overlapWorld : World := services.run (.empty 0 (day 0)) overlap

end Agora

/-- One by one the ballot passes under the weighting that took effect just before
it; the sweep counts heads and fails it. -/
theorem sweep_not_one_by_one :
    Agora.services.Reachable Agora.overlapWorld ∧ ¬ SweepsOneByOne Agora.overlapWorld "agora" := by
  refine ⟨⟨0, Agora.day 0, Agora.overlap, rfl⟩, fun hsweeps => ?_⟩
  have hproposals := hsweeps.outcome.proposals
  revert hproposals
  decide +kernel

end Democrachat
