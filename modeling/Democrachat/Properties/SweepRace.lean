import Democrachat.Polity.Stages
import Democrachat.Properties.SelfGovernment

/-!
# Effects under simultaneous page loads

Every read of the proposal list resolves what is due, and nothing claims a
proposal between the read that finds it due and the write that flags it.
-/

namespace Democrachat

open Library Prog

/-- Calls of `resolveDue` that run side by side. -/
def resolveBurst (serverSlug : String) (n : Nat) : List (Prog World Unit) :=
  List.replicate n (resolveDue serverSlug)

/-- Every complete interleaving of `n` calls ends where a single call ends. -/
def EffectOnce (w : World) (serverSlug : String) (n : Nat) : Prop :=
  ∀ is, finished (schedule is (resolveBurst serverSlug n, w)) = true →
    SameTables ((resolveDue serverSlug).exec w).2.polity
      (schedule is (resolveBurst serverSlug n, w)).2.polity

/-! ## Calls that mint nothing -/

theorem Enacted.findBySlug {sid : ServerId} {kind : ProposalKind} {now : Timestamp}
    {c c' : Polity} (h : Enacted sid kind now c c') (slug : String) :
    (c'.findBySlug slug).map Server.id = (c.findBySlug slug).map Server.id := by
  cases h with
  | @server s s' hs hid hslug =>
    have hkey : c.servers.get s'.id = some s := by
      rw [hid, Table.key_of_get hs]
      exact hs
    refine Table.find?_rows_insert hkey ?_
    rw [hslug]
  | assign => unfold Polity.assign; split <;> rfl
  | _ => rfl

section Safe

variable {w v : World} {serverSlug : String} {server : Server} {p : Proposal}

/-- The server is found under its slug at every stage. -/
theorem SoleDue.found (h : SoleDue w serverSlug server p) (hv : Reached w p 0 v) :
    ∃ g, v.store.findBySlug (trim serverSlug) = some g ∧ g.id = server.id := by
  have hserver : (w.polity.bare.findBySlug (trim serverSlug)).map Server.id = some server.id := by
    have hfound : w.polity.bare.findBySlug (trim serverSlug) = some server := h.serverFound
    rw [hfound]
    rfl
  have hid : (v.polity.bare.findBySlug (trim serverSlug)).map Server.id = some server.id := by
    rcases hv.table (Polity.findBySlug · (trim serverSlug)) (fun _ _ => rfl) with hL | ⟨-, hL⟩
    · rw [hL]
      exact hserver
    · have henacted := enacted_enact w.polity.bare p.serverId p.kind w.now
      rw [hL]
      exact (henacted.findBySlug (trim serverSlug)).trans hserver
  obtain ⟨g, hg, hgid⟩ := Option.map_eq_some_iff.1 hid
  exact ⟨g, hg, hgid⟩

theorem Reached.now (hv : Reached w p 0 v) : v.now = w.now := by
  have henacted := enacted_enact w.polity.bare p.serverId p.kind w.now
  rcases hv.table Polity.now (fun _ _ => rfl) with hnow | ⟨-, hnow⟩
  · exact hnow
  · exact hnow.trans henacted.sameBallots.now

/-- What a call lists is what was listed at first, or nothing of it is due. -/
theorem SoleDue.listing (h : SoleDue w serverSlug server p) (hv : Reached w p 0 v) :
    v.store.listProposalsForServer server.id = w.store.listProposalsForServer server.id ∨
    Reached w p 2 v ∧ ∀ q ∈ v.store.listProposalsForServer server.id,
      q.closeDue w.now = false ∧ q.applyDue w.now = false := by
  have henacted := (enacted_enact w.polity.bare p.serverId p.kind w.now).sameBallots
  have hlist : ∀ c : Polity, v.polity.bare = c →
      v.store.listProposalsForServer server.id = c.listForServer server.id := by
    rintro _ rfl
    rfl
  rcases hv.cases with hstage | ⟨-, hstage | hstage⟩
  · exact .inl (hlist _ hstage)
  · have hproposals : (stage w p 1).proposals = w.polity.proposals := henacted.proposals
    rw [hlist _ hstage, Polity.listForServer, hproposals]
    exact .inl rfl
  · refine .inr ⟨⟨2, le_refl 2, le_refl 2, hstage⟩, fun q hq => ?_⟩
    have hproposals : (stage w p 1).proposals = w.polity.proposals := henacted.proposals
    rw [hlist _ hstage, Polity.listForServer, Polity.putProposal, hproposals] at hq
    obtain ⟨hmem, hserver⟩ := List.mem_filter.1 hq
    rcases Table.mem_insert.1 hmem with rfl | ⟨hmem, hne⟩
    · have hclose : p.closeDue w.now = false := closeDue_of_applyDue h.due
      refine ⟨hclose, ?_⟩
      unfold Proposal.applyDue
      split
      next => simp
      next => rfl
    · exact h.quiet q (List.mem_filter.2 ⟨hmem, hserver⟩) hne

theorem safe_file {effect : Prog World Unit}
    (heffect : Safe (Onward w p) (fun _ => Reached w p 1) effect v) :
    Safe (Onward w p) (fun _ => Reached w p 2) (file p w.now effect) v := by
  refine Safe.bind (Preserving.refl _) heffect (fun _ t ht => ?_)
  refine Safe.bind (Q := fun _ => Reached w p 1) (Preserving.refl _) ?_ (fun _ u hu => ?_)
  · -- The history is no part of a stage.
    exact fun s hts => ⟨fun i hi => hi, fun u hsu => hsu 1 (hts 1 ht)⟩
  · refine safe_modify (le_refl 2) hu (fun s hs j _ _ => ?_)
    obtain ⟨i, hi, hi2, hstage⟩ := hs
    have hmax : stage w p (max 2 j) = (stage w p 1).putProposal { p with isApplied := true } := by
      obtain ⟨k, hk⟩ : ∃ k, max 2 j = k + 2 := ⟨max 2 j - 2, by omega⟩
      rw [hk]
      rfl
    rw [hmax]
    change s.polity.bare.putProposal { p with isApplied := true } = _
    rw [hstage]
    obtain rfl | rfl : i = 1 ∨ i = 2 := by omega
    · rfl
    · change ((stage w p 1).putProposal { p with isApplied := true }).putProposal _ = _
      rw [Polity.putProposal, Polity.putProposal]
      exact congrArg (fun T => { stage w p 1 with proposals := T }) (Table.insert_insert rfl)

theorem SoleDue.safe (h : SoleDue w serverSlug server p) (hnames : NamesUnique w.polity)
    (hmints : p.mints w.polity = false) (hv : Reached w p 0 v) :
    Safe (Onward w p) (fun _ => Reached w p 2) (resolveDue serverSlug) v := by
  have hrefl := Preserving.refl (Reached w p)
  refine safe_ask hv (fun t ht => ?_)
  obtain ⟨g, hg, hid⟩ := h.found ht
  rw [hg]
  refine Safe.query_bind hrefl (fun u htu => ?_)
  have hu := htu 0 ht
  rw [hu.now]
  refine safe_ask hu (fun x hx => safe_ask hx (fun y hy => ?_))
  rw [hid]
  rcases h.listing hy with hlisted | ⟨hreached, hquiet⟩
  · have hpairwise : (w.store.listProposalsForServer server.id).Pairwise (fun p q => p.id ≠ q.id) :=
      w.polity.listForServer_pairwise server.id
    rw [hlisted, sweep_eq_file hpairwise h.listed h.due h.quiet]
    exact safe_file (makes_of_not_mints hnames hmints hy).safe
  · rw [sweep_eq_pure hquiet]
    exact safe_pure () hreached

end Safe

/-- Worlds that have come to the last stage hold the same tables. -/
theorem Reached.sameTables {w v v' : World} {p : Proposal} (h : Reached w p 2 v)
    (h' : Reached w p 2 v') : SameTables v.polity v'.polity := by
  obtain ⟨j, hj, hj2, hv⟩ := h
  obtain ⟨j', hj', hj2', hv'⟩ := h'
  obtain rfl : j = j' := by omega
  have hbare : v'.polity.bare = v.polity.bare := hv'.trans hv.symm
  have htable : ∀ {τ : Type} (T : Polity → τ), T v'.polity.bare = T v.polity.bare :=
    fun T => congrArg T hbare
  exact ⟨htable Polity.servers, htable Polity.roster, htable Polity.channels,
    htable Polity.messages, htable Polity.proposals, htable Polity.votes, htable Polity.rules,
    htable Polity.roles, htable Polity.roleAssignments⟩

/-- Calls that mint nothing end where one of them ends. -/
theorem effectOnce_of_not_mints {w : World} {serverSlug : String} {server : Server} {p : Proposal}
    (h : SoleDue w serverSlug server p) (hnames : NamesUnique w.polity)
    (hmints : p.mints w.polity = false) (n : Nat) : EffectOnce w serverSlug (n + 1) := by
  intro is hfinished
  have hrefl := Preserving.refl (Reached w p)
  have hsafe := h.safe hnames hmints ⟨0, le_refl 0, by omega, rfl⟩
  have hpool : ∀ q ∈ resolveBurst serverSlug (n + 1),
      Safe (Onward w p) (fun _ => Reached w p 2) q w := by
    intro q hq
    rw [List.eq_of_mem_replicate hq]
    exact hsafe
  -- At least one call has answered, and it has seen the last stage.
  have hlength := length_answers hfinished
  rw [length_schedule, resolveBurst, List.length_replicate] at hlength
  obtain ⟨a, ha⟩ := List.exists_mem_of_length_pos (Nat.lt_of_lt_of_eq n.succ_pos hlength.symm)
  have hall := Safe.answers hrefl (Preserving.trans (A := Reached w p))
    (c := (resolveBurst serverSlug (n + 1), w)) hpool is a ha
  exact (Safe.exec hrefl hsafe).sameTables hall

/-! ## Calls that mint -/

/-- The history and the flag, after the effect. -/
def Polity.filed (c : Polity) (p : Proposal) (now : Timestamp) : Polity :=
  (c.noteEffect p.id now).putProposal { p with isApplied := true }

theorem polity_file {effect : Prog World Unit} {E : Polity → Polity}
    (heffect : ∀ v, (effect.exec v).2.polity = E v.polity) (p : Proposal) (now : Timestamp)
    (v : World) : ((file p now effect).exec v).2.polity = (E v.polity).filed p now := by
  rw [file, exec_bind, exec_bind, exec_write, polity_updateProposal, polity_noteEffect, heffect]
  rfl

/-- When all calls have read before any of them writes, each of them mints. -/
theorem once_of_grows {w : World} {serverSlug : String} {p : Proposal} {effect : Prog World Unit}
    {E : Polity → Polity} {I : Polity → Prop} {N : Polity → Nat}
    (hreads : Reads w (resolveDue serverSlug) (file p w.now effect))
    (heffect : ∀ v, (effect.exec v).2.polity = E v.polity)
    (hgrows : ∀ c, I c → I ((E c).filed p w.now) ∧ N ((E c).filed p w.now) = N c + 1)
    (hN : ∀ c c', SameTables c c' → N c' = N c) (hI : I w.polity) {n : Nat}
    (honce : EffectOnce w serverSlug (n + 1)) : n = 0 := by
  have hstep : ∀ v : World, I v.polity → I ((file p w.now effect).exec v).2.polity ∧
      N ((file p w.now effect).exec v).2.polity = N v.polity + 1 := by
    intro v hv
    rw [polity_file heffect]
    exact hgrows _ hv
  have hburst : List.Forall₂ (Reads w) (resolveBurst serverSlug (n + 1))
      (List.replicate (n + 1) (file p w.now effect)) := by
    rw [resolveBurst, List.forall₂_iff_get]
    simp [hreads]
  obtain ⟨is, his⟩ := CanReach.burst hburst
  have hfinal : N (runAll (List.replicate (n + 1) (file p w.now effect)) w).2.polity =
      N w.polity + (n + 1) :=
    runAll_replicate_grows (I := fun v : World => I v.polity) (N := fun v : World => N v.polity)
      hstep (n + 1) hI
  have hsame := honce is (by rw [his]; exact finished_map_ret _ _)
  rw [his, hreads.exec] at hsame
  have hsize : N (runAll (List.replicate (n + 1) (file p w.now effect)) w).2.polity =
      N ((file p w.now effect).exec w).2.polity := hN _ _ hsame
  have hsingle := (hstep w hI).2
  omega

theorem reads_file {w : World} {p : Proposal} {now : Timestamp} {effect effect' : Prog World Unit}
    (h : Reads w effect effect') : Reads w (file p now effect) (file p now effect') :=
  h.bind _

def mintChannel (sid : ServerId) (name topic : String) (now : Timestamp) : Prog World Unit := do
  let id ← transact (·.nextChannelId)
  write (·.insertChannel (.new id sid name topic now))

def mintRole (sid : ServerId) (name : String) (now : Timestamp) : Prog World Unit := do
  let id ← transact (·.nextRoleId)
  write (·.insertRole ⟨id, sid, name, now⟩)

theorem reads_createChannel {w : World} {sid : ServerId} {name : String}
    (hname : (normalizeChannelName name).isEmpty = false)
    (hfree : w.store.findByName sid (normalizeChannelName name) = none) (topic : String)
    (now : Timestamp) :
    Reads w (enact sid (.createChannel name topic) now)
      (mintChannel sid (normalizeChannelName name) topic now) := by
  simp only [enact]
  generalize normalizeChannelName name = normalized at hname hfree ⊢
  rw [if_neg (by simp [hname])]
  refine .step rfl ?_
  dsimp only
  rw [hfree]
  exact .refl _

theorem reads_createRole {w : World} {sid : ServerId} {name : String}
    (hname : (normalizeRoleName name).isEmpty = false)
    (hfree : w.store.findRole sid (normalizeRoleName name) = none) (now : Timestamp) :
    Reads w (enact sid (.createRole name) now) (mintRole sid (normalizeRoleName name) now) := by
  simp only [enact]
  generalize normalizeRoleName name = normalized at hname hfree ⊢
  rw [if_neg (by simp [hname])]
  refine .step rfl ?_
  dsimp only
  rw [hfree]
  exact .refl _

section Mint

variable {w : World} {serverSlug : String} {server : Server} {p : Proposal}
  (h : SoleDue w serverSlug server p) {n : Nat} (honce : EffectOnce w serverSlug (n + 1))
include h honce

theorem SoleDue.once_of_addRule (hnames : NamesUnique w.polity) {text : String}
    (hkind : p.kind = .addRule text) : n = 0 := by
  have hreads := h.reads
  rw [hkind] at hreads
  refine once_of_grows (E := fun c => c.addRule p.serverId text w.now)
    (I := fun c => ∀ r ∈ c.rules.rows, Minted c.node c.nextRule r.id)
    (N := fun c => c.rules.rows.length) hreads (fun _ => rfl) ?_ ?_ hnames.rules honce
  · intro c hc
    exact ⟨forall_insert (fun r hr => (hc r hr).succ) minted_composeId,
      Table.length_insert_of_get_none (get_composeId_eq_none hc)⟩
  · intro c c' hsame
    rw [hsame.rules]

theorem SoleDue.once_of_createChannel (hplaced : MessagesPlaced w.polity) {name topic : String}
    (hkind : p.kind = .createChannel name topic) (hmints : p.mints w.polity = true) : n = 0 := by
  simp only [Proposal.mints, hkind, Bool.and_eq_true, Bool.not_eq_true',
    Option.isNone_iff_eq_none] at hmints
  have hreads := h.reads
  rw [hkind] at hreads
  have hreads := hreads.trans (reads_file (reads_createChannel hmints.1 hmints.2 topic w.now))
  refine once_of_grows
    (E := fun c => c.addChannel p.serverId (normalizeChannelName name) topic w.now)
    (I := fun c => ∀ x ∈ c.channels.rows, Minted c.node c.nextChannel x.id)
    (N := fun c => c.channels.rows.length) hreads (fun _ => rfl) ?_ ?_ hplaced.channels honce
  · intro c hc
    exact ⟨forall_insert (fun x hx => (hc x hx).succ) minted_composeId,
      Table.length_insert_of_get_none (get_composeId_eq_none hc)⟩
  · intro c c' hsame
    rw [hsame.channels]

theorem SoleDue.once_of_createRole (hplaced : RolesPlaced w.polity) {name : String}
    (hkind : p.kind = .createRole name) (hmints : p.mints w.polity = true) : n = 0 := by
  simp only [Proposal.mints, hkind, Bool.and_eq_true, Bool.not_eq_true',
    Option.isNone_iff_eq_none] at hmints
  have hreads := h.reads
  rw [hkind] at hreads
  have hreads := hreads.trans (reads_file (reads_createRole hmints.1 hmints.2 w.now))
  refine once_of_grows (E := fun c => c.addRole p.serverId (normalizeRoleName name) w.now)
    (I := fun c => ∀ r ∈ c.roles.rows, Minted c.node c.nextRole r.id)
    (N := fun c => c.roles.rows.length) hreads (fun _ => rfl) ?_ ?_ hplaced.roles honce
  · intro c hc
    exact ⟨forall_insert (fun r hr => (hc r hr).succ) minted_composeId,
      Table.length_insert_of_get_none (get_composeId_eq_none hc)⟩
  · intro c c' hsame
    rw [hsame.roles]

/-- Two calls or more do not end where one of them ends if the effect mints. -/
theorem SoleDue.once_of_mints {services : Services} (hw : services.Underway w)
    (hmints : p.mints w.polity = true) : n = 0 := by
  cases hkind : p.kind with
  | addRule text => exact h.once_of_addRule honce hw.namesUnique hkind
  | createChannel name topic => exact h.once_of_createChannel honce hw.messagesPlaced hkind hmints
  | createRole name => exact h.once_of_createRole honce hw.rolesPlaced hkind hmints
  | _ => simp [Proposal.mints, hkind] at hmints

end Mint

/-! ## Runs of an effect -/

/-- The runs of `apply_effect` for a proposal. -/
def World.runsOf (w : World) (p : ProposalId) : Nat := w.effects.countP (fun e => e.proposal == p)

section Runs

variable {c : Polity} {σ : Session} {p q : Proposal} {ps : List Proposal}

theorem Polity.applyIfDue_effects (now : Timestamp) :
    (c.applyIfDue now q).effects =
      c.effects ++ if q.applyDue now = true then [⟨q.id, now⟩] else [] := by
  have hsame := (enacted_enact c q.serverId q.kind now).sameBallots
  unfold Polity.applyIfDue
  split
  next => exact congrArg (· ++ [⟨q.id, now⟩]) hsame.effects
  next => exact (List.append_nil _).symm

theorem Polity.sweepOne_effects :
    (c.sweepOne σ q).effects =
      c.effects ++ if (c.closed σ q).applyDue σ.now = true then [⟨q.id, σ.now⟩] else [] := by
  have hclose : (c.closeIfDue σ q).effects = c.effects := by
    unfold Polity.closeIfDue
    split <;> rfl
  rw [Polity.sweepOne, Polity.applyIfDue_effects, hclose, closed_id]

theorem sweep_runs_of_ne {i : ProposalId} (h : ∀ q ∈ ps, q.id ≠ i) :
    (c.sweep σ ps).effects.countP (fun e => e.proposal == i) =
      c.effects.countP (fun e => e.proposal == i) := by
  induction ps generalizing c with
  | nil => rfl
  | cons q ps ih =>
    have hrest := ih (c := c.sweepOne σ q) (fun q hq => h q (List.mem_cons_of_mem _ hq))
    have hne : (q.id == i) = false := by simpa using h q List.mem_cons_self
    refine hrest.trans ?_
    rw [Polity.sweepOne_effects, List.countP_append]
    split
    next => simp [hne]
    next => rfl

/-- A sweep runs the effect of a proposal that it lists as due, once. -/
theorem sweep_runs (hps : ps.Pairwise (fun p q => p.id ≠ q.id)) (hp : p ∈ ps)
    (hdue : p.applyDue σ.now = true) :
    (c.sweep σ ps).effects.countP (fun e => e.proposal == p.id) =
      c.effects.countP (fun e => e.proposal == p.id) + 1 := by
  induction ps generalizing c with
  | nil => cases hp
  | cons q ps ih =>
    obtain ⟨hq, hps⟩ := List.pairwise_cons.1 hps
    rcases List.mem_cons.1 hp with rfl | hp
    · have hrest := sweep_runs_of_ne (c := c.sweepOne σ p) (σ := σ)
        (fun q' hq' => (hq q' hq').symm)
      have hclosed : c.closed σ p = p := if_neg (by rw [closeDue_of_applyDue hdue]; decide)
      refine hrest.trans ?_
      rw [Polity.sweepOne_effects, hclosed, if_pos hdue, List.countP_append]
      simp
    · have hne : (q.id == p.id) = false := by simpa using hq p hp
      refine (ih (c := c.sweepOne σ q) hps hp).trans ?_
      rw [Polity.sweepOne_effects, List.countP_append]
      split
      next => simp [hne]
      next => rfl

end Runs

/-- Some interleaving of the calls runs the effect in each of them. -/
theorem PassedDue.runs {w : World} {serverSlug : String} {server : Server} {p : Proposal}
    (h : PassedDue w serverSlug server p) (n : Nat) :
    ∃ is, finished (schedule is (resolveBurst serverSlug n, w)) = true ∧
      (schedule is (resolveBurst serverSlug n, w)).2.runsOf p.id = w.runsOf p.id + n := by
  have hreads := reads_resolveDue h.serverFound
  generalize hcitizens : w.store.citizenCount server.id = citizens at hreads
  have hpairwise : (w.store.listProposalsForServer server.id).Pairwise (fun p q => p.id ≠ q.id) :=
    w.polity.listForServer_pairwise server.id
  have hburst : List.Forall₂ (Reads w) (resolveBurst serverSlug n)
      (List.replicate n (sweep server citizens (Phase.fromCitizenCount citizens) w.now
        (w.store.listProposalsForServer server.id))) := by
    rw [resolveBurst, List.forall₂_iff_get]
    simp [hreads]
  obtain ⟨is, his⟩ := CanReach.burst hburst
  refine ⟨is, by rw [his]; exact finished_map_ret _ _, ?_⟩
  rw [his]
  refine runAll_replicate_grows (I := fun _ => True) (N := fun v : World => v.runsOf p.id)
    (fun v _ => ⟨trivial, ?_⟩) n trivial
  have hsweep := polity_sweep v server w.now citizens (w.store.listProposalsForServer server.id)
  have hruns := sweep_runs (c := v.polity)
    (σ := ⟨server.id, server.ballotWeighting, citizens, w.now⟩) hpairwise h.listed h.due
  rw [← hsweep] at hruns
  exact hruns

/-! ## Exactly once -/

/-- One call ends where one call ends.  Of several calls, some interleaving runs
the effect in each; where nothing else of the server is due they still end where
one ends exactly when the effect mints no row. -/
theorem effect_once_iff {services : Services} {w : World} (hw : services.Underway w)
    {serverSlug : String} {server : Server} {p : Proposal} (h : PassedDue w serverSlug server p) :
    EffectOnce w serverSlug 1 ∧
    (∀ n, ∃ is, finished (schedule is (resolveBurst serverSlug n, w)) = true ∧
      (schedule is (resolveBurst serverSlug n, w)).2.runsOf p.id = w.runsOf p.id + n) ∧
    (NothingElseDue w server p →
      ∀ n, EffectOnce w serverSlug (n + 2) ↔ p.mints w.polity = false) := by
  refine ⟨fun is hfinished => ?_, h.runs, fun hquiet n => ?_⟩
  · have hsingle := schedule_singleton_finished hfinished
    change SameTables _ (schedule is ([resolveDue serverSlug], w)).2.polity
    rw [hsingle]
    constructor <;> rfl
  · have hsole : SoleDue w serverSlug server p := ⟨h, hquiet⟩
    constructor
    · intro honce
      by_contra hmints
      have hzero := hsole.once_of_mints honce hw (by simpa using hmints)
      omega
    · intro hmints
      exact effectOnce_of_not_mints hsole hw.namesUnique hmints (n + 1)

namespace Agora

/-- The rule of the hamlet has passed, and the call that closed it is about to
apply it. -/
def kindnessWorld : World := closing concordWorld server (kindness 1 31)

def kindnessPassed : Proposal := { kindness 1 31 with status := .passed (day 34) }

theorem kindnessWorld_underway : services.Underway kindnessWorld := by
  refine Services.Reachable.closing ⟨0, day 0, concord, rfl⟩ ?_
  decide +kernel

end Agora

theorem effect_once_kindness :
    EffectOnce Agora.kindnessWorld "agora" 1 ∧
    ∀ n, EffectOnce Agora.kindnessWorld "agora" (n + 2) ↔
      Agora.kindnessPassed.mints Agora.kindnessWorld.polity = false := by
  have hdue : PassedDue Agora.kindnessWorld "agora" Agora.server Agora.kindnessPassed := by
    decide +kernel
  have honce := effect_once_iff Agora.kindnessWorld_underway hdue
  exact ⟨honce.1, honce.2.2 (by decide +kernel)⟩

/-- Two page loads, the second of which comes while the first is between its
reads and its writes, write the rule twice. -/
theorem effect_twice :
    Agora.services.Underway Agora.kindnessWorld ∧
    PassedDue Agora.kindnessWorld "agora" Agora.server Agora.kindnessPassed ∧
    ¬ EffectOnce Agora.kindnessWorld "agora" 2 := by
  refine ⟨Agora.kindnessWorld_underway, by decide +kernel, fun honce => ?_⟩
  have hrules := (honce (List.replicate 4 0 ++ List.replicate 8 1 ++ List.replicate 4 0)
    (by decide +kernel)).rules
  revert hrules
  decide +kernel

end Democrachat
