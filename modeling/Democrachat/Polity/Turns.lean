import Democrachat.Polity.Moves

/-!
# What a turn finds and what it leaves

Every turn of a sweep comes after some moves of the polity, and the proposal
stays as its own turn left it.
-/

namespace Democrachat

open Library

section Sweep

variable {c : Polity} {σ : Session} {ps : List Proposal}

namespace Polity

theorem sweep_get_of_ne {q : ProposalId} (h : ∀ p ∈ ps, q ≠ p.id) :
    (c.sweep σ ps).proposals.get q = c.proposals.get q := by
  induction ps generalizing c with
  | nil => rfl
  | cons p ps ih =>
    have hrest := ih (c := c.sweepOne σ p) (fun p' hp' => h p' (List.mem_cons_of_mem _ hp'))
    exact hrest.trans (sweepOne_get_of_ne (h p List.mem_cons_self))

/-- The proposal as its turn leaves it in the table. -/
theorem sweepOne_get {p : Proposal} (h : c.proposals.get p.id = some p) :
    (c.sweepOne σ p).proposals.get p.id =
      some (if (c.closed σ p).applyDue σ.now then { c.closed σ p with isApplied := true }
        else c.closed σ p) := by
  have hclosed := closeIfDue_get (σ := σ) h
  rw [sweepOne, applyIfDue]
  split
  next =>
    have hid : p.id = Proposal.id { c.closed σ p with isApplied := true } := closed_id.symm
    rw [hid]
    exact Table.get_insert_self _ _
  next => exact hclosed

end Polity

/-- A turn of the sweep: which proposals it may be about, that the polity came
to it by moves, and that its outcome stays. -/
structure TurnOf (σ : Session) (c : Polity) (ps : List Proposal) (t : Turn) : Prop where
  session : t.session = σ
  mem : t.proposal ∈ ps
  moves : Moves c t.polity
  onTurn : OnTurn σ t.polity t.proposal
  outcome : (c.sweep σ ps).proposals.get t.proposal.id =
    (t.polity.sweepOne σ t.proposal).proposals.get t.proposal.id

theorem turnOf_turns (hps : ps.Pairwise (fun p q => p.id ≠ q.id)) (h : ∀ p ∈ ps, OnTurn σ c p)
    {t : Turn} (ht : t ∈ Polity.turns σ c ps) : TurnOf σ c ps t := by
  induction ps generalizing c with
  | nil => cases ht
  | cons p ps ih =>
    obtain ⟨hp, hps⟩ := List.pairwise_cons.1 hps
    have hturn := h p List.mem_cons_self
    rcases List.mem_cons.1 ht with rfl | ht
    · exact ⟨rfl, List.mem_cons_self, .refl, hturn, Polity.sweep_get_of_ne hp⟩
    · have hrest := ih hps
        (fun q hq => (h q (List.mem_cons_of_mem _ hq)).sweepOne (hp q hq).symm) ht
      exact ⟨hrest.session, List.mem_cons_of_mem _ hrest.mem, hturn.moves.trans hrest.moves,
        hrest.onTurn, hrest.outcome⟩

theorem mem_of_mem_turns {t : Turn} (ht : t ∈ Polity.turns σ c ps) : t.proposal ∈ ps := by
  induction ps generalizing c with
  | nil => cases ht
  | cons p ps ih =>
    rcases List.mem_cons.1 ht with rfl | ht
    · exact List.mem_cons_self
    · exact List.mem_cons_of_mem _ (ih ht)

/-- A sweep counts the ballots it found. -/
theorem votes_of_mem_turns {t : Turn} (ht : t ∈ Polity.turns σ c ps) :
    t.polity.votes = c.votes := by
  induction ps generalizing c with
  | nil => cases ht
  | cons p ps ih =>
    rcases List.mem_cons.1 ht with rfl | ht
    · rfl
    · exact (ih ht).trans Polity.sweepOne_votes

theorem sweep_votes : (c.sweep σ ps).votes = c.votes := by
  induction ps generalizing c with
  | nil => rfl
  | cons p ps ih => exact (ih (c := c.sweepOne σ p)).trans Polity.sweepOne_votes

/-- Every listed proposal has its turn. -/
theorem exists_turn {p : Proposal} (hp : p ∈ ps) : ∃ t ∈ Polity.turns σ c ps, t.proposal = p := by
  induction ps generalizing c with
  | nil => cases hp
  | cons q ps ih =>
    rcases List.mem_cons.1 hp with rfl | hp
    · exact ⟨_, List.mem_cons_self, rfl⟩
    · obtain ⟨t, ht, htp⟩ := ih (c := c.sweepOne σ q) hp
      exact ⟨t, List.mem_cons_of_mem _ ht, htp⟩

end Sweep

section Resolve

variable {c : Polity} {serverSlug : String} {t : Turn}

theorem mem_resolveTurns (ht : t ∈ c.resolveTurns serverSlug) :
    ∃ server, c.findBySlug (trim serverSlug) = some server ∧
      TurnOf (c.session server) c (c.listForServer server.id) t := by
  unfold Polity.resolveTurns at ht
  split at ht
  next => cases ht
  next server hserver =>
    exact ⟨server, hserver, turnOf_turns (c.listForServer_pairwise server.id)
      (fun _ hp => c.session_onTurn server hp) ht⟩

theorem resolveTurns_moves (ht : t ∈ c.resolveTurns serverSlug) : Moves c t.polity := by
  obtain ⟨server, -, h⟩ := mem_resolveTurns ht
  exact h.moves

theorem resolveTurns_votes (ht : t ∈ c.resolveTurns serverSlug) : t.polity.votes = c.votes := by
  unfold Polity.resolveTurns at ht
  split at ht
  next => cases ht
  next => exact votes_of_mem_turns ht

theorem Polity.resolveDue_votes : (c.resolveDue serverSlug).votes = c.votes := by
  unfold Polity.resolveDue
  split
  next => rfl
  next => exact sweep_votes

/-- A turn is about a proposal that was stored when the call came. -/
theorem resolveTurns_stored (ht : t ∈ c.resolveTurns serverSlug) :
    t.proposal ∈ c.proposals.rows := by
  obtain ⟨server, -, h⟩ := mem_resolveTurns ht
  exact (List.mem_filter.1 h.mem).1

/-- The status that `resolveDue` leaves is the one the turn wrote. -/
theorem resolveTurns_status (ht : t ∈ c.resolveTurns serverSlug) :
    ∃ p, (c.resolveDue serverSlug).proposals.get t.proposal.id = some p ∧
      p.status = t.closed.status := by
  obtain ⟨server, hserver, h⟩ := mem_resolveTurns ht
  have hget : (c.resolveDue serverSlug).proposals.get t.proposal.id =
      (t.polity.sweepOne (c.session server) t.proposal).proposals.get t.proposal.id := by
    rw [Polity.resolveDue, hserver]
    exact h.outcome
  refine ⟨_, hget.trans (Polity.sweepOne_get h.onTurn.get), ?_⟩
  rw [Turn.closed, h.session]
  split <;> rfl

end Resolve

/-! ## Invariants under a condition on the turns -/

section Conditions

variable {I : Polity → Prop} {Q : Turn → Prop}
  (hstep : ∀ σ c p, I c → Q ⟨σ, p, c⟩ → I (c.sweepOne σ p))
include hstep

theorem Polity.sweep_of_turns {c : Polity} {σ : Session} {ps : List Proposal} (hc : I c)
    (h : ∀ t ∈ turns σ c ps, Q t) : I (c.sweep σ ps) := by
  induction ps generalizing c with
  | nil => exact hc
  | cons p ps ih =>
    obtain ⟨hp, hps⟩ := List.forall_mem_cons.1 h
    exact ih (hstep σ c p hc hp) hps

/-- What every turn of a call keeps, the call keeps. -/
theorem Polity.resolveDue_of_turns {c : Polity} {serverSlug : String} (hc : I c)
    (h : ∀ t ∈ c.resolveTurns serverSlug, Q t) : I (c.resolveDue serverSlug) := by
  unfold resolveTurns at h
  unfold resolveDue
  cases hserver : c.findBySlug (trim serverSlug) with
  | none => exact hc
  | some server =>
    rw [hserver] at h
    exact sweep_of_turns hstep hc h

end Conditions

/-! ## Channels that a sweep removes -/

/-- The channel that the turn removes, with its messages. -/
def Turn.closes (t : Turn) : Option Channel :=
  if t.closed.applyDue t.session.now then
    match t.proposal.kind with
    | .deleteChannel name =>
      t.polity.findChannel t.proposal.serverId (normalizeChannelName name)
    | _ => none
  else none

section Removals

variable {c : Polity} {m : Message}

theorem mem_removeChannel {id : ChannelId} :
    m ∈ (c.removeChannel id).messages.rows ↔ m ∈ c.messages.rows ∧ id ≠ m.channelId := by
  rw [Polity.removeChannel, Table.mem_retain, bne_iff_ne]
  exact and_congr_right (fun _ => ne_comm)

/-- Only a channel's deletion takes messages away. -/
theorem mem_enact_messages (sid : ServerId) (kind : ProposalKind) (now : Timestamp) :
    m ∈ (c.enact sid kind now).messages.rows ↔ m ∈ c.messages.rows ∧
      ∀ name x, kind = .deleteChannel name →
        c.findChannel sid (normalizeChannelName name) = some x → x.id ≠ m.channelId := by
  cases kind with
  | deleteChannel name =>
    simp only [Polity.enact]
    cases hx : c.findChannel sid (normalizeChannelName name) with
    | none =>
      refine (and_iff_left ?_).symm
      rintro _ x ⟨⟩ hsome
      cases hx.symm.trans hsome
    | some x =>
      rw [mem_removeChannel]
      refine and_congr_right (fun _ => ⟨?_, fun h => h name x rfl hx⟩)
      rintro hne _ y ⟨⟩ hy
      obtain rfl := Option.some.inj (hx.symm.trans hy)
      exact hne
  | _ =>
    refine Iff.trans ?_ (and_iff_left (by rintro _ _ ⟨⟩)).symm
    simp only [Polity.enact, Polity.editServer, Polity.editMembership, Polity.assign]
    repeat' split
    all_goals rfl

theorem mem_sweepOne_messages (σ : Session) (p : Proposal) :
    m ∈ (c.sweepOne σ p).messages.rows ↔
      m ∈ c.messages.rows ∧ ∀ x, (Turn.mk σ p c).closes = some x → x.id ≠ m.channelId := by
  have hmessages : (c.closeIfDue σ p).messages = c.messages := by
    unfold Polity.closeIfDue
    split <;> rfl
  have hchannels : (c.closeIfDue σ p).findChannel = c.findChannel := by
    unfold Polity.closeIfDue
    split <;> rfl
  rw [Polity.sweepOne, Polity.applyIfDue, Turn.closes, Turn.closed]
  split
  next hdue =>
    refine (mem_enact_messages _ _ _).trans ?_
    rw [hmessages, hchannels, Polity.closed_serverId, Polity.closed_kind]
    refine and_congr_right (fun _ => ⟨fun h x hx => ?_, fun h name x hkind hx => h x ?_⟩)
    · split at hx
      next name hkind => exact h name x hkind hx
      next => cases hx
    · simp only [hkind]
      exact hx
  next =>
    rw [hmessages]
    exact (and_iff_left (by rintro _ ⟨⟩)).symm

theorem mem_sweep_messages (σ : Session) (ps : List Proposal) :
    m ∈ (c.sweep σ ps).messages.rows ↔ m ∈ c.messages.rows ∧
      ∀ t ∈ Polity.turns σ c ps, ∀ x, t.closes = some x → x.id ≠ m.channelId := by
  induction ps generalizing c with
  | nil => exact (and_iff_left (fun _ h => nomatch h)).symm
  | cons p ps ih =>
    have hrest := ih (c := c.sweepOne σ p)
    rw [mem_sweepOne_messages, and_assoc] at hrest
    refine hrest.trans (and_congr_right (fun _ => ?_))
    rw [Polity.turns, List.forall_mem_cons]

/-- The messages that a sweep leaves are those of no channel it removes. -/
theorem mem_resolveDue_messages (serverSlug : String) :
    m ∈ (c.resolveDue serverSlug).messages.rows ↔ m ∈ c.messages.rows ∧
      ∀ t ∈ c.resolveTurns serverSlug, ∀ x, t.closes = some x → x.id ≠ m.channelId := by
  unfold Polity.resolveDue Polity.resolveTurns
  cases c.findBySlug (trim serverSlug) with
  | none => exact (and_iff_left (fun _ h => nomatch h)).symm
  | some server => exact mem_sweep_messages _ _

end Removals

end Democrachat
