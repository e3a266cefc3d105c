import Democrachat.Federation.Delivery
import Democrachat.Polity.Pending
import Democrachat.Polity.Turns
import Democrachat.Properties.SelfGovernment
import Democrachat.System.Mutations

/-!
# Reading on a replica

A node and a replica that goes through the node's outbox, with users who read the
lists of proposals on both.  A read resolves what it finds due.
-/

namespace Democrachat

open Library

/-! ## The two nodes -/

/-- A node, a replica, and how many records of the node's outbox the replica has applied. -/
structure Pair where
  owner : World
  replica : World
  pulled : Nat

inductive PairStep where
  | own (op : Op)
  | pull
  | setClock (now : Timestamp)
  | resolveDue (serverSlug : String)
  | listProposals (serverSlug : String)

/-- The server that a step reads on the replica. -/
def PairStep.read? : PairStep → Option String
  | resolveDue serverSlug | listProposals serverSlug => some serverSlug
  | _ => none

namespace Pair

variable (services : Services)

/-- Both nodes start empty. -/
def new (a b : NodeId) (now now' : Timestamp) : Pair := ⟨.empty a now, .empty b now', 0⟩

def step (p : Pair) : PairStep → Pair
  | .own op => { p with owner := services.step p.owner op }
  | .pull =>
    match p.owner.store.outbox[p.pulled]? with
    | some r => { p with replica := p.replica.mapStore r.applyTo, pulled := p.pulled + 1 }
    | none => p
  | .setClock now => { p with replica := { p.replica with now := now } }
  | .resolveDue serverSlug =>
    { p with replica := ((Democrachat.resolveDue serverSlug).exec p.replica).2 }
  | .listProposals serverSlug =>
    { p with replica := ((Democrachat.listProposals serverSlug).exec p.replica).2 }

def CaughtUp (p : Pair) : Prop := p.pulled = p.owner.store.outbox.length

end Pair

/-- No verdict was given or effect applied in between, and no identifier minted. -/
structure World.Undecided (w w' : World) : Prop where
  verdicts : ∀ i, (w'.store.getProposal i).map (fun p => (p.status, p.isApplied)) =
    (w.store.getProposal i).map (fun p => (p.status, p.isApplied))
  minted : w'.store.nextChannel = w.store.nextChannel ∧ w'.store.nextRule = w.store.nextRule ∧
    w'.store.nextRole = w.store.nextRole

/-- A read of the server would close a ballot or apply an effect now. -/
def World.HasDue (w : World) (serverSlug : String) : Prop :=
  ∃ server, w.store.findBySlug (trim serverSlug) = some server ∧
    ∃ p ∈ w.store.listProposalsForServer server.id,
      p.closeDue w.now = true ∨ p.applyDue w.now = true

namespace Pair

variable (services : Services)

/-- The replica that has applied the whole outbox has the rows of the owner, and what is read
on it decides nothing. -/
def Faithful : Pair → List PairStep → Prop
  | p, [] => p.CaughtUp → p.replica.store.SameRows p.owner.store
  | p, s :: steps =>
    (p.CaughtUp → p.replica.store.SameRows p.owner.store) ∧
      (s.read?.isSome → p.replica.Undecided (p.step services s).replica) ∧
      Faithful (p.step services s) steps

/-- Whenever the replica is read, nothing is due there. -/
def ReadsNothingDue : Pair → List PairStep → Prop
  | _, [] => True
  | p, s :: steps =>
    (∀ serverSlug ∈ s.read?, ¬ p.replica.HasDue serverSlug) ∧
      ReadsNothingDue (p.step services s) steps

end Pair

/-! ## What a read decides -/

section

variable {w : World} {serverSlug : String}

/-- A call that finds nothing due writes nothing. -/
theorem exec_resolveDue_of_not_hasDue (h : ¬ w.HasDue serverSlug) :
    ((resolveDue serverSlug).exec w).2 = w := by
  cases hserver : w.store.findBySlug (trim serverSlug) with
  | none =>
    rw [resolveDue, exec_ask_bind, hserver]
    rfl
  | some server =>
    have hquiet : ∀ p ∈ w.store.listProposalsForServer server.id,
        p.closeDue w.now = false ∧ p.applyDue w.now = false := by
      intro p hp
      constructor
      · exact Bool.eq_false_iff.2 (fun hdue => h ⟨server, hserver, p, hp, .inl hdue⟩)
      · exact Bool.eq_false_iff.2 (fun hdue => h ⟨server, hserver, p, hp, .inr hdue⟩)
    rw [resolveDue, exec_ask_bind, hserver]
    simp only [exec_clockNow_bind, exec_ask_bind]
    rw [sweep_eq_pure hquiet]
    rfl

theorem exec_listProposals_store :
    ((listProposals serverSlug).exec w).2 = ((resolveDue serverSlug).exec w).2 := by
  rw [listProposals, Prog.exec_bind, exec_ask_bind]
  cases ((resolveDue serverSlug).exec w).2.store.findBySlug (trim serverSlug) <;> rfl

/-- A call that finds something due gives its verdict or applies its effect. -/
theorem not_undecided_of_hasDue (h : w.HasDue serverSlug) :
    ¬ w.Undecided ((resolveDue serverSlug).exec w).2 := by
  obtain ⟨server, hserver, p, hp, hdue⟩ := h
  intro hsame
  obtain ⟨t, ht, rfl⟩ := exists_turn (c := w.polity) (σ := w.polity.session server) hp
  have hturn : t ∈ w.polity.resolveTurns serverSlug := by
    have hfind : w.polity.findBySlug (trim serverSlug) = some server := hserver
    rw [Polity.resolveTurns, hfind]
    exact ht
  obtain ⟨server', hserver', hof⟩ := mem_resolveTurns hturn
  obtain rfl := Option.some.inj (hserver.symm.trans hserver')
  have hnow : (w.polity.session server).now = w.now := rfl
  have hpolity := polity_resolveDue w serverSlug
  have hget : ((resolveDue serverSlug).exec w).2.store.getProposal t.proposal.id =
      some (if (t.polity.closed (w.polity.session server) t.proposal).applyDue w.now
        then { t.polity.closed (w.polity.session server) t.proposal with isApplied := true }
        else t.polity.closed (w.polity.session server) t.proposal) := by
    have hsweep : (w.polity.resolveDue serverSlug).proposals.get t.proposal.id =
        (t.polity.sweepOne (w.polity.session server) t.proposal).proposals.get t.proposal.id := by
      rw [Polity.resolveDue, hserver']
      exact hof.outcome
    rw [Polity.sweepOne_get hof.onTurn.get, ← hpolity] at hsweep
    exact hsweep
  have hbefore : w.store.getProposal t.proposal.id = some t.proposal :=
    Table.mem_iff.1 (List.mem_filter.1 hof.mem).1
  have hverdict := hsame.verdicts t.proposal.id
  rw [hget, hbefore, Option.map_some, Option.map_some, Option.some.injEq, Prod.mk.injEq] at hverdict
  obtain ⟨hstatus, happlied⟩ := hverdict
  rcases hdue with hclose | happly
  · -- Closed with a verdict it is open no more.
    have hopen : t.proposal.status = .open_ := (of_decide_eq_true hclose).1
    have hclosed : t.polity.closed (w.polity.session server) t.proposal =
        t.proposal.close _ _ _ _ := if_pos hclose
    rw [hclosed] at hstatus
    have hdecided : (t.proposal.close (t.polity.tally (w.polity.session server).scheme
        (w.polity.session server).server (w.polity.session server).now t.proposal.id)
        (w.polity.session server).citizens (w.polity.session server).phase
        (w.polity.session server).now).status = .open_ := by
      rw [← hopen, ← hstatus]
      split <;> rfl
    unfold Proposal.close Proposal.closedStatus at hdecided
    dsimp only at hdecided
    split at hdecided
    · cases hdecided
    · split at hdecided
      · split at hdecided <;> cases hdecided
      · cases hdecided
  · have hclosed : t.polity.closed (w.polity.session server) t.proposal = t.proposal :=
      if_neg (fun hclose => by
        rw [hnow, closeDue_of_applyDue happly] at hclose
        cases hclose)
    rw [hclosed, if_pos happly] at happlied
    unfold Proposal.applyDue at happly
    split at happly
    next =>
      have hfresh := (of_decide_eq_true happly).1
      rw [← happlied] at hfresh
      cases hfresh
    next => cases happly

end

/-! ## The replica is a prefix of the owner -/

namespace Pair

variable (services : Services)

/-- Both stores are what their part of the outbox makes of an empty one. -/
structure Inv (p : Pair) : Prop where
  minted : p.owner.store.Minted
  recorded : ∀ r ∈ p.owner.store.outbox, r.IsRecorded
  owner : ∀ k, p.owner.store.cell k =
    CellOp.runAll (p.owner.store.outbox.map (ChangeRecord.onCell · k)) none
  pulled : p.pulled ≤ p.owner.store.outbox.length
  distinct : p.replica.store.Distinct
  replica : ∀ k, p.replica.store.cell k =
    CellOp.runAll ((p.owner.store.outbox.take p.pulled).map (ChangeRecord.onCell · k)) none

variable {services} {p : Pair}

theorem inv_new (a b : NodeId) (now now' : Timestamp) : (Pair.new a b now now').Inv where
  minted := Inner.minted_empty a
  recorded := fun _ hr => absurd hr List.not_mem_nil
  owner := by
    intro k
    cases k <;> rfl
  pulled := le_refl _
  distinct := Inner.distinct_empty b
  replica := by
    intro k
    cases k <;> rfl

theorem Inv.own (h : p.Inv) (op : Op) : (p.step services (.own op)).Inv := by
  obtain ⟨ms, hms⟩ := mutates_step services p.owner op
  obtain ⟨hminted, records, hmirrors⟩ := Inner.mirrors_runAll h.minted ms
  rw [← hms] at hminted hmirrors
  have htake : (p.owner.store.outbox ++ records).take p.pulled =
      p.owner.store.outbox.take p.pulled :=
    List.take_append_of_le_length h.pulled
  refine ⟨hminted, ?_, ?_, ?_, h.distinct, ?_⟩
  · intro r hr
    rw [Pair.step, hmirrors.outbox] at hr
    rcases List.mem_append.1 hr with hr | hr
    · exact h.recorded r hr
    · exact hmirrors.recorded r hr
  · intro k
    rw [Pair.step, hmirrors.cell, h.owner, hmirrors.outbox, List.map_append, CellOp.runAll_append]
  · rw [Pair.step, hmirrors.outbox, List.length_append]
    exact Nat.le_add_right_of_le h.pulled
  · intro k
    rw [Pair.step, hmirrors.outbox, htake]
    exact h.replica k

theorem Inv.pull (h : p.Inv) : (p.step services .pull).Inv := by
  rw [Pair.step]
  split
  next r hr =>
    obtain ⟨hlt, hget⟩ := List.getElem?_eq_some_iff.1 hr
    have hmem : r ∈ p.owner.store.outbox := hget ▸ List.getElem_mem hlt
    have happlied := Federation.applied_applyTo (h.recorded r hmem) p.replica.store
    have htake : p.owner.store.outbox.take (p.pulled + 1) =
        p.owner.store.outbox.take p.pulled ++ [r] := by
      rw [List.take_add_one, hr]
      rfl
    refine ⟨h.minted, h.recorded, h.owner, hlt, happlied.distinct h.distinct, ?_⟩
    intro k
    dsimp only
    rw [World.mapStore_store, happlied.cell, h.replica, htake, List.map_append,
      CellOp.runAll_append]
    rfl
  next => exact h

/-- A read that finds nothing due leaves both nodes as they are. -/
theorem step_of_read {s : PairStep} {serverSlug : String} (hs : s.read? = some serverSlug)
    (hdue : ¬ p.replica.HasDue serverSlug) : p.step services s = p := by
  cases s with
  | resolveDue slug =>
    obtain rfl := Option.some.inj hs
    rw [Pair.step, exec_resolveDue_of_not_hasDue hdue]
  | listProposals slug =>
    obtain rfl := Option.some.inj hs
    rw [Pair.step, exec_listProposals_store, exec_resolveDue_of_not_hasDue hdue]
  | own op => cases hs
  | pull => cases hs
  | setClock now => cases hs

theorem Inv.step (h : p.Inv) {s : PairStep}
    (hdue : ∀ serverSlug ∈ s.read?, ¬ p.replica.HasDue serverSlug) : (p.step services s).Inv := by
  cases hread : s.read? with
  | some serverSlug =>
    rw [step_of_read hread (hdue serverSlug hread)]
    exact h
  | none =>
    cases s with
    | own op => exact h.own op
    | pull => exact h.pull
    | setClock now => exact ⟨h.minted, h.recorded, h.owner, h.pulled, h.distinct, h.replica⟩
    | resolveDue slug => cases hread
    | listProposals slug => cases hread

/-- Caught up, the replica has the rows of the owner. -/
theorem Inv.sameRows (h : p.Inv) (hcaught : p.CaughtUp) :
    p.replica.store.SameRows p.owner.store := by
  apply Inner.sameRows_of_cell h.distinct h.minted.distinct
  intro k
  rw [h.replica, h.owner, hcaught, List.take_length]

theorem Inv.faithful {steps : List PairStep} (h : p.Inv)
    (hdue : p.ReadsNothingDue services steps) : p.Faithful services steps := by
  induction steps generalizing p with
  | nil => exact h.sameRows
  | cons s steps ih =>
    refine ⟨h.sameRows, ?_, ih (h.step hdue.1) hdue.2⟩
    intro hread
    obtain ⟨serverSlug, hserverSlug⟩ := Option.isSome_iff_exists.1 hread
    rw [step_of_read hserverSlug (hdue.1 serverSlug hserverSlug)]
    exact ⟨fun _ => rfl, rfl, rfl, rfl⟩

theorem readsNothingDue_of_faithful {steps : List PairStep} (h : p.Faithful services steps) :
    p.ReadsNothingDue services steps := by
  induction steps generalizing p with
  | nil => trivial
  | cons s steps ih =>
    obtain ⟨-, hread, hrest⟩ := h
    refine ⟨fun serverSlug hserverSlug hdue => ?_, ih hrest⟩
    have hundecided := hread (Option.isSome_iff_exists.2 ⟨serverSlug, hserverSlug⟩)
    cases s with
    | resolveDue slug =>
      obtain rfl := Option.some.inj hserverSlug
      exact not_undecided_of_hasDue hdue hundecided
    | listProposals slug =>
      obtain rfl := Option.some.inj hserverSlug
      rw [Pair.step, exec_listProposals_store] at hundecided
      exact not_undecided_of_hasDue hdue hundecided
    | own op => cases hserverSlug
    | pull => cases hserverSlug
    | setClock now => cases hserverSlug

end Pair

/-- A replica follows its owner exactly while nobody reads anything due on it. -/
theorem replica_faithful_iff (services : Services) (a b : NodeId) (now now' : Timestamp)
    (steps : List PairStep) :
    (Pair.new a b now now').Faithful services steps ↔
      (Pair.new a b now now').ReadsNothingDue services steps :=
  ⟨Pair.readsNothingDue_of_faithful, (Pair.inv_new a b now now').faithful⟩

/-! ## A rule of the replica's own -/

namespace Agora

/-- The ballot is unanimous; the replica has it when its window ends, and is read first. -/
def overseas : List PairStep :=
  (hamlet ++ [Op.openProposal "zed" "agora" (.addRule "be kind")] ++
    ayes 1 ["zed", "a", "b", "c"]).map .own ++
  List.replicate 40 .pull ++ [.setClock (day 34), .listProposals "agora"] ++
  [.own (.setClock (day 34)), .own (.listProposals "agora")] ++ List.replicate 10 .pull

def mirrored : Pair := .new 0 1 (day 0) (day 0)

def estranged : Pair := overseas.foldl (Pair.step services) mirrored

end Agora

theorem Pair.Faithful.last {services : Services} {p q : Pair} {steps : List PairStep}
    (h : p.Faithful services steps) (hq : q = steps.foldl (Pair.step services) p)
    (hcaught : q.CaughtUp) : q.replica.store.SameRows q.owner.store := by
  subst hq
  induction steps generalizing p with
  | nil => exact h hcaught
  | cons s steps ih => exact ih h.2.2 hcaught

/-- Caught up again, the replica has the rule twice, once under an identifier of its own. -/
theorem replica_enacts_rule : ¬ Agora.mirrored.Faithful Agora.services Agora.overseas := by
  intro h
  have hcaught : Agora.estranged.CaughtUp := by
    unfold Pair.CaughtUp
    decide +kernel
  have hrules : (Agora.estranged.owner.store.rules.rows.map Rule.id = [composeId 0 1]) ∧
      Agora.estranged.replica.store.rules.rows.map Rule.id = [composeId 0 1, composeId 1 1] := by
    decide +kernel
  have hlast := h.last (q := Agora.estranged) (by rw [Agora.estranged]) hcaught
  have hsame := congrArg (fun t => t.rows.map Rule.id) hlast.rules
  rw [hrules.1, hrules.2] at hsame
  exact absurd hsame (by decide)

end Democrachat
