import Democrachat.Library.RelyGuarantee
import Democrachat.Polity.Ballots

/-!
# A server with one pending effect

What a `resolveDue` call does step by step, where one passed and matured
proposal is all that is due.
-/

namespace Democrachat

open Library Prog

/-- A world that requests can find: reachable, or what a reachable one turns into
between two writes of a request. -/
def Services.Underway (services : Services) (w : World) : Prop :=
  ∃ w₀, services.Reachable w₀ ∧ Moves w₀.polity w.polity

namespace Services.Underway

variable {services : Services} {w : World}

theorem namesUnique (hw : services.Underway w) : NamesUnique w.polity := by
  obtain ⟨w₀, hw₀, hmoves⟩ := hw
  exact Moves.keep (fun _ _ h hmove => h.move hmove) hmoves hw₀.namesUnique

theorem messagesPlaced (hw : services.Underway w) : MessagesPlaced w.polity := by
  obtain ⟨w₀, hw₀, hmoves⟩ := hw
  exact Moves.keep (fun _ _ h hmove => h.move hmove) hmoves hw₀.messagesPlaced

theorem rolesPlaced (hw : services.Underway w) : RolesPlaced w.polity := by
  obtain ⟨w₀, hw₀, hmoves⟩ := hw
  exact Moves.keep (fun _ _ h hmove => h.move hmove) hmoves hw₀.rolesPlaced

end Services.Underway

/-- The world in which a call has closed a ballot of the server and not yet
applied its effect. -/
def closing (w : World) (server : Server) (p : Proposal) : World :=
  ((closeIfDue server (w.store.citizenCount server.id)
    (Phase.fromCitizenCount (w.store.citizenCount server.id)) w.now p).exec w).2

theorem Services.Reachable.closing {services : Services} {w : World} (hw : services.Reachable w)
    {server : Server} {p : Proposal} (hp : p ∈ w.store.listProposalsForServer server.id) :
    services.Underway (closing w server p) := by
  refine ⟨w, hw, ?_⟩
  have hpolity : (Democrachat.closing w server p).polity =
      w.polity.closeIfDue (w.polity.session server) p :=
    (exec_closeIfDue w server w.now (w.store.citizenCount server.id) p).2
  rw [hpolity]
  exact (w.polity.session_onTurn server hp).closes

/-- The proposal of the server has passed and matured and is not applied yet. -/
structure PassedDue (w : World) (serverSlug : String) (server : Server) (p : Proposal) :
    Prop where
  serverFound : w.store.findBySlug (trim serverSlug) = some server
  stored : w.store.getProposal p.id = some p
  ofServer : p.serverId = server.id
  due : p.applyDue w.now = true

/-- Nothing of the server is due but the proposal. -/
def NothingElseDue (w : World) (server : Server) (p : Proposal) : Prop :=
  ∀ q ∈ w.store.listProposalsForServer server.id, q.id ≠ p.id →
    q.closeDue w.now = false ∧ q.applyDue w.now = false

structure SoleDue (w : World) (serverSlug : String) (server : Server) (p : Proposal) : Prop
    extends PassedDue w serverSlug server p where
  quiet : NothingElseDue w server p

instance (w : World) (serverSlug : String) (server : Server) (p : Proposal) :
    Decidable (PassedDue w serverSlug server p) :=
  decidable_of_iff
    (w.store.findBySlug (trim serverSlug) = some server ∧ w.store.getProposal p.id = some p ∧
      p.serverId = server.id ∧ p.applyDue w.now = true)
    ⟨fun ⟨h₁, h₂, h₃, h₄⟩ => ⟨h₁, h₂, h₃, h₄⟩, fun h => ⟨h.1, h.2, h.3, h.4⟩⟩

instance (w : World) (server : Server) (p : Proposal) : Decidable (NothingElseDue w server p) :=
  inferInstanceAs (Decidable (∀ q ∈ w.store.listProposalsForServer server.id, _))

theorem PassedDue.listed {w : World} {serverSlug : String} {server : Server} {p : Proposal}
    (h : PassedDue w serverSlug server p) : p ∈ w.store.listProposalsForServer server.id := by
  refine List.mem_filter.2 ⟨Table.mem_of_get h.stored, ?_⟩
  simp [h.ofServer]

/-! ## The steps of the call -/

/-- Run an effect, note it, and flag its proposal. -/
def file (p : Proposal) (now : Timestamp) (effect : Prog World Unit) : Prog World Unit := do
  effect
  noteEffect p.id now
  write (·.updateProposal { p with isApplied := true })

section Programs

variable {server : Server} {citizens : Nat} {phase : Phase} {now : Timestamp} {p : Proposal}

theorem applyIfDue_eq_file (hdue : p.applyDue now = true) :
    applyIfDue now p = file p now (enact p.serverId p.kind now) := by
  unfold Proposal.applyDue at hdue
  unfold applyIfDue
  split
  next effectiveAt hstatus =>
    rw [hstatus] at hdue
    simp only [if_pos (of_decide_eq_true hdue), applyEffect, file, bind_assoc]
  next hother =>
    split at hdue
    next effectiveAt hstatus => exact absurd hstatus (hother effectiveAt)
    next => cases hdue

theorem applyIfDue_eq_pure (hdue : p.applyDue now = false) : applyIfDue now p = pure () := by
  unfold Proposal.applyDue at hdue
  unfold applyIfDue
  split
  next effectiveAt hstatus =>
    rw [hstatus] at hdue
    exact if_neg (of_decide_eq_false hdue)
  next => rfl

theorem closeIfDue_eq_pure (hdue : p.closeDue now = false) :
    closeIfDue server citizens phase now p = pure p :=
  if_neg (of_decide_eq_false hdue)

theorem sweepOne_eq (hdue : p.closeDue now = false) :
    sweepOne server citizens phase now p = applyIfDue now p := by
  rw [sweepOne, closeIfDue_eq_pure hdue, pure_bind]

theorem sweep_eq_pure {ps : List Proposal}
    (h : ∀ q ∈ ps, q.closeDue now = false ∧ q.applyDue now = false) :
    sweep server citizens phase now ps = pure () := by
  induction ps with
  | nil => rfl
  | cons q ps ih =>
    obtain ⟨hclose, happly⟩ := h q List.mem_cons_self
    rw [sweep, sweepOne_eq hclose, applyIfDue_eq_pure happly, pure_bind]
    exact ih (fun q hq => h q (List.mem_cons_of_mem _ hq))

theorem closeDue_of_applyDue (hdue : p.applyDue now = true) : p.closeDue now = false := by
  unfold Proposal.applyDue at hdue
  split at hdue
  next effectiveAt hstatus => simp [Proposal.closeDue, hstatus]
  next => cases hdue

/-- A sweep in which one effect is due runs that effect. -/
theorem sweep_eq_file {ps : List Proposal} (hps : ps.Pairwise (fun p q => p.id ≠ q.id))
    (hp : p ∈ ps) (hdue : p.applyDue now = true)
    (hquiet : ∀ q ∈ ps, q.id ≠ p.id → q.closeDue now = false ∧ q.applyDue now = false) :
    sweep server citizens phase now ps = file p now (enact p.serverId p.kind now) := by
  induction ps with
  | nil => cases hp
  | cons q ps ih =>
    obtain ⟨hq, hps⟩ := List.pairwise_cons.1 hps
    rcases List.mem_cons.1 hp with rfl | hp
    · have hrest : ∀ q ∈ ps, q.closeDue now = false ∧ q.applyDue now = false :=
        fun q hmem => hquiet q (List.mem_cons_of_mem _ hmem) (hq q hmem).symm
      rw [sweep, sweep_eq_pure hrest, sweepOne_eq (closeDue_of_applyDue hdue),
        applyIfDue_eq_file hdue, file]
      exact bind_pure_unit
    · obtain ⟨hclose, happly⟩ := hquiet q List.mem_cons_self (hq p hp)
      rw [sweep, sweepOne_eq hclose, applyIfDue_eq_pure happly, pure_bind]
      exact ih hps hp (fun q hmem => hquiet q (List.mem_cons_of_mem _ hmem))

end Programs

/-- A call reads the server, the clock, the count and the list, and then sweeps. -/
theorem reads_resolveDue {w : World} {serverSlug : String} {server : Server}
    (hserver : w.store.findBySlug (trim serverSlug) = some server) :
    Reads w (resolveDue serverSlug)
      (sweep server (w.store.citizenCount server.id)
        (Phase.fromCitizenCount (w.store.citizenCount server.id)) w.now
        (w.store.listProposalsForServer server.id)) := by
  refine .step rfl ?_
  dsimp only
  rw [hserver]
  exact .step rfl (.step rfl (.step rfl (.refl _)))

/-- Where one effect is due, the call reads everything and then runs the effect. -/
theorem SoleDue.reads {w : World} {serverSlug : String} {server : Server} {p : Proposal}
    (h : SoleDue w serverSlug server p) :
    Reads w (resolveDue serverSlug) (file p w.now (enact p.serverId p.kind w.now)) := by
  have hreads := reads_resolveDue h.serverFound
  have hpairwise : (w.store.listProposalsForServer server.id).Pairwise (fun p q => p.id ≠ q.id) :=
    w.polity.listForServer_pairwise server.id
  rwa [sweep_eq_file hpairwise h.listed h.due h.quiet] at hreads

end Democrachat
