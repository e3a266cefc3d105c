import Democrachat.Polity.Enact

/-!
# Closing and applying, run alone

`resolveDue` reads the server's row, its citizen count and the clock once (a
`Session`) and then walks the server's proposals in id order.
-/

namespace Democrachat

open Library

/-- What one sweep reads once, before its loop. -/
structure Session where
  server : ServerId
  scheme : VoteWeighting
  citizens : Nat
  now : Timestamp
deriving DecidableEq

def Session.phase (σ : Session) : Phase := Phase.fromCitizenCount σ.citizens

/-- The window has elapsed and the ballot is still open. -/
def Proposal.closeDue (p : Proposal) (now : Timestamp) : Bool :=
  p.status = .open_ ∧ now ≥ p.closesAt

/-- Passed, matured and not applied yet. -/
def Proposal.applyDue (p : Proposal) (now : Timestamp) : Bool :=
  match p.status with
  | .passed effectiveAt => p.isApplied = false ∧ now ≥ effectiveAt
  | _ => false

namespace Polity

variable (c : Polity)

/-! ## The tally -/

def ballots (p : ProposalId) : List Vote := c.votes.filter (fun v => v.proposalId == p)

/-- The membership of a user who may vote in the server now. -/
def elector (sid : ServerId) (user : UserId) : Option Membership :=
  (c.roster.member user sid).filter Membership.isFranchised

/-- What a ballot counts: nothing where its voter is not franchised any more. -/
def weight (scheme : VoteWeighting) (sid : ServerId) (now : Timestamp) (v : Vote) : Nat :=
  match c.elector sid v.voter with
  | some m => scheme.weightOf m now
  | none => 0

def tallyOf (scheme : VoteWeighting) (sid : ServerId) (now : Timestamp) (votes : List Vote) :
    Tally where
  aye := ((votes.filter (·.isAye)).map (c.weight scheme sid now)).sum
  nay := ((votes.filter (!·.isAye)).map (c.weight scheme sid now)).sum

def tally (scheme : VoteWeighting) (sid : ServerId) (now : Timestamp) (p : ProposalId) : Tally :=
  c.tallyOf scheme sid now (c.ballots p)

/-! ## The sweep -/

/-- The proposal as its turn leaves it, before any effect. -/
def closed (σ : Session) (p : Proposal) : Proposal :=
  if p.closeDue σ.now then
    p.close (c.tally σ.scheme σ.server σ.now p.id) σ.citizens σ.phase σ.now
  else p

def putProposal (p : Proposal) : Polity := { c with proposals := c.proposals.insert p }

def closeIfDue (σ : Session) (p : Proposal) : Polity :=
  if p.closeDue σ.now then c.putProposal (c.closed σ p) else c

def noteEffect (p : ProposalId) (now : Timestamp) : Polity :=
  { c with effects := c.effects ++ [⟨p, now⟩] }

def applyIfDue (now : Timestamp) (p : Proposal) : Polity :=
  if p.applyDue now then
    ((c.enact p.serverId p.kind now).noteEffect p.id now).putProposal { p with isApplied := true }
  else c

def sweepOne (σ : Session) (p : Proposal) : Polity :=
  (c.closeIfDue σ p).applyIfDue σ.now (c.closed σ p)

def sweep (σ : Session) (ps : List Proposal) : Polity :=
  ps.foldl (fun c p => c.sweepOne σ p) c

def listForServer (sid : ServerId) : List Proposal :=
  c.proposals.rows.filter (fun p => p.serverId == sid)

def session (server : Server) : Session where
  server := server.id
  scheme := server.ballotWeighting
  citizens := c.roster.citizenCount server.id
  now := c.now

def findBySlug (slug : String) : Option Server :=
  c.servers.rows.find? (fun g => g.slug == slug)

def resolveDue (serverSlug : String) : Polity :=
  match c.findBySlug (trim serverSlug) with
  | none => c
  | some server => c.sweep (c.session server) (c.listForServer server.id)

end Polity

/-! ## The turns of a sweep -/

/-- What the turn of one proposal finds. -/
structure Turn where
  session : Session
  proposal : Proposal
  polity : Polity

/-- The proposal as its turn leaves it, before any effect. -/
def Turn.closed (t : Turn) : Proposal := t.polity.closed t.session t.proposal

namespace Polity

def turns (σ : Session) : Polity → List Proposal → List Turn
  | _, [] => []
  | c, p :: ps => ⟨σ, p, c⟩ :: turns σ (c.sweepOne σ p) ps

/-- The turns of one `resolveDue`. -/
def resolveTurns (c : Polity) (serverSlug : String) : List Turn :=
  match c.findBySlug (trim serverSlug) with
  | none => []
  | some server => turns (c.session server) c (c.listForServer server.id)

end Polity

/-- What proposals and effects leave alone, and every enacted kind keeps, resolving keeps. -/
theorem Polity.resolveDue_keeps {I : Polity → Prop} (hput : ∀ c p, I c → I (putProposal c p))
    (hnote : ∀ c p now, I c → I (noteEffect c p now))
    (henact : ∀ c sid kind now, I c → I (enact c sid kind now)) (c : Polity) (serverSlug : String)
    (h : I c) : I (c.resolveDue serverSlug) := by
  have hclose : ∀ c σ p, I c → I (closeIfDue c σ p) := by
    intro c σ p hc
    unfold closeIfDue
    split
    next => exact hput _ _ hc
    next => exact hc
  have happly : ∀ c now p, I c → I (applyIfDue c now p) := by
    intro c now p hc
    unfold applyIfDue
    split
    next => exact hput _ _ (hnote _ _ _ (henact _ _ _ _ hc))
    next => exact hc
  unfold resolveDue
  split
  next => exact h
  next server hserver =>
    clear hserver
    generalize c.session server = σ
    generalize c.listForServer server.id = ps
    induction ps generalizing c with
    | nil => exact h
    | cons p ps ih => exact ih _ (happly _ _ _ (hclose _ _ _ h))

/-! ## The requests compute these functions -/

section Exec

variable (w : World) (server : Server) (now : Timestamp)

theorem exec_tallyVotes (vs : List Vote) (t : Tally) :
    (tallyVotes server server.weightingScope.appliesToBallots now vs t).exec w =
      (let s := w.polity.tallyOf server.ballotWeighting server.id now vs
       ⟨t.aye + s.aye, t.nay + s.nay⟩, w) := by
  induction vs generalizing t with
  | nil => rfl
  | cons v vs ih =>
    have hread : (w.store.getMembership v.voter server.id).filter Membership.isFranchised =
        w.polity.elector server.id v.voter := rfl
    have hweight : ∀ m, (if server.weightingScope.appliesToBallots = true then
        server.voteWeighting.weightOf m now else 1) = server.ballotWeighting.weightOf m now := by
      intro m
      unfold Server.ballotWeighting
      split <;> simp
    rw [tallyVotes, exec_ask_bind, hread]
    cases hm : w.polity.elector server.id v.voter with
    | none =>
      have hzero : w.polity.weight server.ballotWeighting server.id now v = 0 := by
        simp [Polity.weight, hm]
      rw [ih]
      cases hv : v.isAye <;> simp [Polity.tallyOf, hv, hzero]
    | some m =>
      have hw : w.polity.weight server.ballotWeighting server.id now v =
          server.ballotWeighting.weightOf m now := by
        simp [Polity.weight, hm]
      simp only [hweight]
      rw [ih]
      cases hv : v.isAye <;> simp [Polity.tallyOf, hv, hw, Nat.add_assoc]

theorem exec_weightedTally (p : Proposal) :
    (weightedTally server p now).exec w =
      (w.polity.tally server.ballotWeighting server.id now p.id, w) := by
  rw [weightedTally, exec_ask_bind, exec_tallyVotes]
  simp [Polity.tally, Polity.ballots, Inner.listForProposal, World.polity]

variable (citizens : Nat)

theorem exec_closeIfDue (p : Proposal) :
    let σ : Session := ⟨server.id, server.ballotWeighting, citizens, now⟩
    ((closeIfDue server citizens σ.phase now p).exec w).1 = w.polity.closed σ p ∧
      ((closeIfDue server citizens σ.phase now p).exec w).2.polity = w.polity.closeIfDue σ p := by
  simp only [closeIfDue, Polity.closed, Polity.closeIfDue, Proposal.closeDue, Prog.exec_ite,
    decide_eq_true_eq]
  split
  · rw [Prog.exec_bind, exec_weightedTally]
    exact ⟨rfl, rfl⟩
  · exact ⟨rfl, rfl⟩

theorem polity_noteEffect (p : ProposalId) :
    ((noteEffect p now).exec w).2.polity = w.polity.noteEffect p now := rfl

theorem polity_applyIfDue (p : Proposal) :
    ((applyIfDue now p).exec w).2.polity = w.polity.applyIfDue now p := by
  unfold applyIfDue Polity.applyIfDue Proposal.applyDue
  cases hs : p.status with
  | passed effectiveAt =>
    simp only [Prog.exec_ite, decide_eq_true_eq]
    split
    · simp only [applyEffect, Prog.exec_bind, exec_write, polity_updateProposal, polity_enact,
        polity_noteEffect]
      rfl
    · rfl
  | open_ => rfl
  | failed => rfl

theorem polity_sweepOne (p : Proposal) :
    let σ : Session := ⟨server.id, server.ballotWeighting, citizens, now⟩
    ((sweepOne server citizens σ.phase now p).exec w).2.polity = w.polity.sweepOne σ p := by
  intro σ
  obtain ⟨hp, hw⟩ := exec_closeIfDue w server now citizens p
  rw [sweepOne, Prog.exec_bind, polity_applyIfDue, hp, hw]
  rfl

theorem polity_sweep (ps : List Proposal) :
    let σ : Session := ⟨server.id, server.ballotWeighting, citizens, now⟩
    ((sweep server citizens σ.phase now ps).exec w).2.polity = w.polity.sweep σ ps := by
  intro σ
  induction ps generalizing w with
  | nil => rfl
  | cons p ps ih =>
    rw [sweep, Prog.exec_bind, ih, polity_sweepOne]
    rfl

/-- `resolveDue`, run alone, computes `Polity.resolveDue`. -/
theorem polity_resolveDue (serverSlug : String) :
    ((resolveDue serverSlug).exec w).2.polity = w.polity.resolveDue serverSlug := by
  have hfind : w.store.findBySlug (trim serverSlug) = w.polity.findBySlug (trim serverSlug) := rfl
  rw [resolveDue, exec_ask_bind, Polity.resolveDue, hfind]
  cases w.polity.findBySlug (trim serverSlug) with
  | none => rfl
  | some server =>
    simp only [exec_ask_bind, exec_clockNow_bind]
    exact polity_sweep w server w.now _ _

theorem polity_listProposals (serverSlug : String) :
    ((listProposals serverSlug).exec w).2.polity = w.polity.resolveDue serverSlug := by
  rw [listProposals, Prog.exec_bind, exec_ask_bind]
  cases ((resolveDue serverSlug).exec w).2.store.findBySlug (trim serverSlug) with
  | none => exact polity_resolveDue w serverSlug
  | some s => exact polity_resolveDue w serverSlug

end Exec

end Democrachat
