import Democrachat.Properties.Quorum

/-!
# A unanimous server

Sanctioned citizens may not vote but stay in the citizen count that the quorum
is a share of, so even unanimity of those who may vote can fall short of it.
-/

namespace Democrachat

open Library

/-! ## Turns that find nothing changed -/

section Quiet

variable {c : Polity} {σ : Session} {ps : List Proposal}

theorem Polity.sweepOne_of_not_due {p : Proposal} (hclose : p.closeDue σ.now = false)
    (happly : p.applyDue σ.now = false) : c.sweepOne σ p = c := by
  have hclosed : c.closed σ p = p := if_neg (by rw [hclose]; decide)
  have hnothing : c.closeIfDue σ p = c := if_neg (by rw [hclose]; decide)
  rw [sweepOne, hclosed, hnothing, applyIfDue, if_neg (by rw [happly]; decide)]

/-- Where nothing else is due, a turn finds the polity the sweep started from. -/
theorem polity_of_quiet {t : Turn} (ht : t ∈ Polity.turns σ c ps)
    (hquiet : ∀ q ∈ ps, q.id ≠ t.proposal.id →
      q.closeDue σ.now = false ∧ q.applyDue σ.now = false)
    (hps : ps.Pairwise (fun p q => p.id ≠ q.id)) : t.polity = c := by
  induction ps generalizing c with
  | nil => cases ht
  | cons p ps ih =>
    obtain ⟨hp, hps⟩ := List.pairwise_cons.1 hps
    rcases List.mem_cons.1 ht with rfl | ht
    · rfl
    · have hmem : t.proposal ∈ ps := mem_of_mem_turns ht
      obtain ⟨hclose, happly⟩ := hquiet p List.mem_cons_self (hp _ hmem)
      rw [Polity.sweepOne_of_not_due hclose happly] at ht
      exact ih ht (fun q hq => hquiet q (List.mem_cons_of_mem _ hq)) hps

end Quiet

/-! ## Unanimity -/

/-- The members of a server who may vote. -/
def Polity.franchised (c : Polity) (sid : ServerId) : List Membership :=
  c.roster.rows.filter fun m => m.serverId == sid && m.isFranchised

/-- The proposal of the server is open and due, its class is permitted in the
phase, everybody who may vote voted aye, and nothing else is due. -/
structure Unanimous (w : World) (serverSlug : String) (server : Server) (p : Proposal)
    (threshold : Threshold) : Prop where
  serverFound : w.store.findBySlug (trim serverSlug) = some server
  stored : w.store.getProposal p.id = some p
  ofServer : p.serverId = server.id
  isOpen : p.status = .open_
  due : p.closesAt ≤ w.now
  permitted : thresholdFor p.kind.decisionClass
    (Phase.fromCitizenCount (w.store.citizenCount server.id)) = some threshold
  someone : w.polity.franchised server.id ≠ []
  ayes : ∀ m ∈ w.polity.franchised server.id, ⟨p.id, m.userId, true⟩ ∈ w.store.votes
  quiet : ∀ q ∈ w.store.listProposalsForServer server.id, q.id ≠ p.id →
    q.closeDue w.now = false ∧ q.applyDue w.now = false

instance (w : World) (serverSlug : String) (server : Server) (p : Proposal)
    (threshold : Threshold) : Decidable (Unanimous w serverSlug server p threshold) :=
  decidable_of_iff
    (w.store.findBySlug (trim serverSlug) = some server ∧ w.store.getProposal p.id = some p ∧
      p.serverId = server.id ∧ p.status = .open_ ∧ p.closesAt ≤ w.now ∧
      thresholdFor p.kind.decisionClass
        (Phase.fromCitizenCount (w.store.citizenCount server.id)) = some threshold ∧
      w.polity.franchised server.id ≠ [] ∧
      (∀ m ∈ w.polity.franchised server.id, ⟨p.id, m.userId, true⟩ ∈ w.store.votes) ∧
      ∀ q ∈ w.store.listProposalsForServer server.id, q.id ≠ p.id →
        q.closeDue w.now = false ∧ q.applyDue w.now = false)
    ⟨fun ⟨h₁, h₂, h₃, h₄, h₅, h₆, h₇, h₈, h₉⟩ => ⟨h₁, h₂, h₃, h₄, h₅, h₆, h₇, h₈, h₉⟩,
      fun h => ⟨h.1, h.2, h.3, h.4, h.5, h.6, h.7, h.8, h.9⟩⟩

/-- The voters among ballots that hold an aye of everybody who may vote. -/
theorem voters_eq_franchised {c : Polity} {sid : ServerId} {p : ProposalId} {vs : List Vote}
    (hvs : ∀ m ∈ c.franchised sid, ⟨p, m.userId, true⟩ ∈ vs) :
    c.voters sid vs = c.franchised sid := by
  refine List.filter_congr (fun m hm => ?_)
  cases hmay : m.serverId == sid && m.isFranchised with
  | false => rfl
  | true =>
    have hvote := hvs m (List.mem_filter.2 ⟨hm, hmay⟩)
    rw [Bool.true_and, List.any_eq_true]
    exact ⟨_, hvote, by simp⟩

/-- The turn that finds the world as the call found it. -/
def soleTurn (w : World) (server : Server) (p : Proposal) : Turn :=
  ⟨w.polity.session server, p, w.polity⟩

namespace Unanimous

variable {w : World} {serverSlug : String} {server : Server} {p : Proposal} {threshold : Threshold}
  (h : Unanimous w serverSlug server p threshold)
include h

/-- It is the turn of a unanimous ballot. -/
theorem soleTurn_mem : soleTurn w server p ∈ w.polity.resolveTurns serverSlug := by
  have hserver : w.polity.findBySlug (trim serverSlug) = some server := h.serverFound
  have hlisted : p ∈ w.polity.listForServer server.id := by
    refine List.mem_filter.2 ⟨Table.mem_of_get h.stored, ?_⟩
    simp [h.ofServer]
  obtain ⟨t, ht, rfl⟩ := exists_turn (c := w.polity) (σ := w.polity.session server) hlisted
  have hpairwise := w.polity.listForServer_pairwise server.id
  have hpolity := polity_of_quiet ht h.quiet hpairwise
  have hsession := (turnOf_turns hpairwise
    (fun _ hq => w.polity.session_onTurn server hq) ht).session
  obtain ⟨σ, q, c⟩ := t
  simp only at hpolity hsession
  subst hpolity hsession
  rw [Polity.resolveTurns, hserver]
  exact ht

theorem aye_ballot {m : Membership} (hm : m ∈ w.polity.franchised server.id) :
    ⟨p.id, m.userId, true⟩ ∈ w.polity.ballots p.id :=
  List.mem_filter.2 ⟨h.ayes m hm, by simp⟩

theorem voters : (soleTurn w server p).voters = w.polity.franchised server.id :=
  voters_eq_franchised (fun _ hm => h.aye_ballot hm)

theorem ayes_eq : (soleTurn w server p).ayes = w.polity.franchised server.id :=
  voters_eq_franchised (fun _ hm => List.mem_filter.2 ⟨h.aye_ballot hm, rfl⟩)

theorem franchised_pos : 0 < (w.polity.franchised server.id).length :=
  List.length_pos_iff.2 h.someone

theorem citizens_pos : 0 < w.store.citizenCount server.id := by
  obtain ⟨m, hm⟩ := List.exists_mem_of_length_pos h.franchised_pos
  obtain ⟨hmem, hmay⟩ := List.mem_filter.1 hm
  refine List.countP_pos_iff.2 ⟨m, hmem, ?_⟩
  simp only [Membership.isFranchised, Bool.and_eq_true] at hmay ⊢
  exact ⟨hmay.1, hmay.2.1⟩

/-- Everything but the quorum is certain. -/
theorem clears_iff : (soleTurn w server p).Clears threshold ↔
    threshold.quorumBp * w.store.citizenCount server.id ≤
      Polity.weigh server.ballotWeighting w.now (w.polity.franchised server.id) * 10000 := by
  have hvoters : (soleTurn w server p).weigh (soleTurn w server p).voters =
      Polity.weigh server.ballotWeighting w.now (w.polity.franchised server.id) := by
    rw [h.voters]
    rfl
  have hayes : (soleTurn w server p).weigh (soleTurn w server p).ayes =
      Polity.weigh server.ballotWeighting w.now (w.polity.franchised server.id) := by
    rw [h.ayes_eq]
    rfl
  have hcast : 0 < Polity.weigh server.ballotWeighting w.now (w.polity.franchised server.id) :=
    h.franchised_pos.trans_le (length_le_weigh _ _ _)
  have happroval := (thresholdFor_bounds h.permitted).1
  constructor
  · intro hclears
    have hquorum := hclears.quorum
    rw [hvoters] at hquorum
    exact hquorum
  · intro hquorum
    refine ⟨h.citizens_pos, ?_, ?_, ?_⟩
    · rw [hvoters]
      exact hquorum
    · rw [hvoters]
      exact hcast
    · rw [hvoters, hayes, Nat.mul_comm _ 10000]
      exact Nat.mul_lt_mul_of_pos_right happroval hcast

end Unanimous

/-- A unanimous ballot passes exactly when those who may vote weigh the quorum's
share of all citizens, the sanctioned ones included. -/
theorem unanimous_passes_iff {services : Services} {w : World} (hw : services.Reachable w)
    {serverSlug : String} {server : Server} {p : Proposal} {threshold : Threshold}
    (h : Unanimous w serverSlug server p threshold) :
    turnedPassed w serverSlug p = true ↔
      threshold.quorumBp * w.store.citizenCount server.id ≤
        Polity.weigh server.ballotWeighting w.now (w.polity.franchised server.id) * 10000 := by
  have hturned := turnedPassed_iff hw.ballotsKept h.soleTurn_mem
  have hdue : (soleTurn w server p).isDue = true := (Turn.isDue_iff _).2 ⟨h.isOpen, h.due⟩
  refine hturned.trans (Iff.trans ?_ h.clears_iff)
  constructor
  · rintro ⟨-, threshold', hthreshold, hclears⟩
    obtain rfl : threshold' = threshold := Option.some.inj (hthreshold.symm.trans h.permitted)
    exact hclears
  · exact fun hclears => ⟨hdue, threshold, h.permitted, hclears⟩

namespace Agora

/-- The four citizens of a small server. -/
def hamlet : List Op :=
  founding ++ joining ["a", "b", "c"] ++ [.setClock (day 31)] ++ admission ["a", "b", "c"]

/-- All four vote for a rule. -/
def concord : List Op :=
  hamlet ++ [.openProposal "zed" "agora" (.addRule "be kind")] ++ ayes 1 ["zed", "a", "b", "c"] ++
  [.setClock (day 34)]

/-- Three of the four sanction one another, and the founder is left to vote alone. -/
def discord : List Op :=
  hamlet ++
  [.openProposal "zed" "agora" (.ban (composeId 0 2)),
    .openProposal "zed" "agora" (.ban (composeId 0 3)),
    .openProposal "zed" "agora" (.timeout (composeId 0 4) 0)] ++
  ayes 1 ["zed", "b"] ++ ayes 2 ["zed", "c"] ++ ayes 3 ["zed", "c"] ++
  [.setClock (day 34), .resolveDue "agora"] ++
  [.openProposal "zed" "agora" (.addRule "be kind")] ++ ayes 4 ["zed"] ++ [.setClock (day 37)]

def concordWorld : World := services.run (.empty 0 (day 0)) concord

def discordWorld : World := services.run (.empty 0 (day 0)) discord

/-- The founder's proposal of a rule, opened on the given day. -/
def kindness (n : Nat) (openedOn : Int) : Proposal :=
  .new (ballot n) sid (composeId 0 1) (.addRule "be kind") (day openedOn) (day (openedOn + 3))

end Agora

theorem concord_passes : turnedPassed Agora.concordWorld "agora" (Agora.kindness 1 31) = true := by
  have h : Unanimous Agora.concordWorld "agora" Agora.server (Agora.kindness 1 31) ⟨6000, 3000⟩ := by
    decide +kernel
  exact (unanimous_passes_iff ⟨0, Agora.day 0, Agora.concord, rfl⟩ h).2 (by decide +kernel)

/-- The founder is the only one who may vote, and votes aye: one of the four
citizens in the count, where the quorum asks for two. -/
theorem discord_fails :
    Agora.services.Reachable Agora.discordWorld ∧
    Unanimous Agora.discordWorld "agora" Agora.server (Agora.kindness 4 34) ⟨6000, 3000⟩ ∧
    ¬ turnedPassed Agora.discordWorld "agora" (Agora.kindness 4 34) = true := by
  refine ⟨⟨0, Agora.day 0, Agora.discord, rfl⟩, ?_⟩
  decide +kernel

end Democrachat
