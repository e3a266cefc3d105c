import Democrachat.Federation.Polling
import Democrachat.Properties.Fencing

/-!
# Skipped records

A page leaves out what its node does not own yet, and the cursor passes over the
gaps; an event that is refused for good is passed over as well.
-/

namespace Democrachat.Federation

open Library

/-- A network and its history, as far as one producer and one consumer go. -/
structure Watched where
  net : Network
  /-- The positions of the producer's records, and the scopes they were written for. -/
  written : List (Nat × OwnedScope)
  /-- Those whose scope the producer has owned since. -/
  owed : List Nat
  /-- What the consumer has applied. -/
  applied : List SignedPart

section

variable (wire : Wire) (keypair : NodeId → NodeKeypair) (producer consumer : NodeId)

/-- Before anything is written. -/
def Watched.start (net : Network) : Watched := ⟨net, [], [], []⟩

/-- The producer owns the scope now. -/
def Network.owns (net : Network) (scope : OwnedScope) : Bool :=
  match net.registry.owners scope with
  | some (owner, _) => owner == producer
  | none => false

/-- The position and the scope of a record that a step writes. -/
def Watched.writes (w : Watched) : Action → List (Nat × OwnedScope)
  | .write node tables (some (_, row)) =>
    if node = producer then
      match (classify row.kind.name (wire.toPayload row)).resolve (storeResolver tables) with
      | .ok scope => [((w.net.store producer).nextOutbox + 1, scope)]
      | .error _ => []
    else []
  | _ => []

def Watched.applies (w : Watched) : Action → List SignedPart
  | .ingest node peer =>
    if node = consumer then (w.net.applied wire keypair node peer).map (fun a => a.part) else []
  | _ => []

def Watched.step (w : Watched) (action : Action) : Watched where
  net := w.net.step wire keypair action
  written := w.written ++ w.writes wire producer action
  owed := w.owed ++ ((w.written ++ w.writes wire producer action).filter
    (fun x => (w.net.step wire keypair action).owns producer x.2)).map Prod.fst
  applied := w.applied ++ w.applies wire keypair consumer action

/-- The producer's outbox, as its feed reads it. -/
def Watched.records (w : Watched) : List ChangeRecord := feedRecords wire (w.net.store producer)

/-- The consumer's cursor for the producer. -/
def Watched.cursor (w : Watched) : Nat := (w.net.store consumer).cursors producer

/-- The part was signed for the record. -/
def IsOf (producer : NodeId) (part : SignedPart) (r : ChangeRecord) : Prop :=
  part.node = producer ∧ part.seq = r.seq ∧ part.entity = r.entity ∧ part.op = r.op ∧
    part.payload = r.payload

/-- The consumer has applied the record. -/
def Watched.HasApplied (w : Watched) (r : ChangeRecord) : Prop :=
  ∃ part ∈ w.applied, IsOf producer part r

/-- The cursor has passed no record of a scope that the producer owned when it wrote it
or came to own, unless the consumer has applied it. -/
def Watched.NothingSkipped (w : Watched) : Prop :=
  ∀ r ∈ w.records wire producer, r.seq ≤ w.cursor producer consumer → r.seq ∈ w.owed →
    w.HasApplied producer r

/-- An event that has its turn is held up, or it is accepted and its row decodes. -/
def Arrives (registry : Registry) (event : ChangeEvent) (p : Progress) : Prop :=
  (∃ e, authorize wire registry (storeResolver p.replica) event = .error e ∧
      isTransient e = true) ∨
    ∃ part c, authorize wire registry (storeResolver p.replica) event = .ok part ∧
      wire.change part = .ok c

/-- A batch has no gap that matters before an event that has its turn, and nothing in it
is lost; and the producer takes no scope of which the cursor has passed a record. -/
def Gapless (w : Watched) : Action → Prop
  | .ingest node peer => node = consumer → peer = producer →
    (∀ before event after, w.net.batch wire keypair node peer = before ++ event :: after →
      stops wire (w.net.registry.answers wire) before (startOf peer (w.net.store node)) = false →
        Arrives wire (w.net.registry.answers wire) event
          (drain wire (w.net.registry.answers wire) before (startOf peer (w.net.store node)))) ∧
    ∀ before part after, w.net.inFlight node peer = before ++ part :: after →
      stops wire (w.net.registry.answers wire)
          ((before ++ [part]).map (wire.signEvent (keypair peer)))
          (startOf peer (w.net.store node)) = false →
      ∀ r ∈ w.records wire producer, r.seq ∈ w.owed → w.cursor producer consumer < r.seq →
        r.seq < part.seq → ∃ part' ∈ before, part'.seq = r.seq
  | .claim scope node => node = producer → w.net.registry.owners scope = none →
    ∀ r ∈ w.records wire producer, (r.seq, scope) ∈ w.written → r.seq ≤ w.cursor producer consumer →
      w.HasApplied producer r
  | _ => True

/-- What a run keeps. -/
structure Watched.Inv (w : Watched) : Prop where
  ascends : (w.records wire producer).Pairwise (fun r r' => r.seq < r'.seq)
  bounded : ∀ r ∈ w.records wire producer, r.seq ≤ (w.net.store producer).nextOutbox
  behind : w.cursor producer consumer ≤ (w.net.store producer).nextOutbox
  owing : ∀ x ∈ w.written, w.net.owns producer x.2 = true → x.1 ∈ w.owed
  flying : ∀ part ∈ w.net.inFlight consumer producer,
    w.cursor producer consumer < part.seq ∧ ∃ r ∈ w.records wire producer, IsOf producer part r
  inOrder : (w.net.inFlight consumer producer).Pairwise (fun part part' => part.seq < part'.seq)
  kept : w.NothingSkipped wire producer consumer

end

section

variable {wire : Wire} {keypair : NodeId → NodeKeypair} {producer consumer : NodeId} {w : Watched}

theorem Watched.mem_owed {action : Action} {seq : Nat} :
    seq ∈ (w.step wire keypair producer consumer action).owed ↔
      seq ∈ w.owed ∨ ∃ x ∈ w.written ++ w.writes wire producer action,
        (w.net.step wire keypair action).owns producer x.2 = true ∧ x.1 = seq := by
  simp only [Watched.step, List.mem_append, List.mem_map, List.mem_filter, and_assoc]

/-- Whatever the producer owns now is owed. -/
theorem Watched.owing_step (action : Action) :
    ∀ x ∈ (w.step wire keypair producer consumer action).written,
      (w.step wire keypair producer consumer action).net.owns producer x.2 = true →
        x.1 ∈ (w.step wire keypair producer consumer action).owed :=
  fun x hx howns => mem_owed.2 (.inr ⟨x, hx, howns, rfl⟩)

theorem Watched.HasApplied.step {r : ChangeRecord} (h : w.HasApplied producer r) (action : Action) :
    (w.step wire keypair producer consumer action).HasApplied producer r := by
  obtain ⟨part, hpart, his⟩ := h
  exact ⟨part, List.mem_append_left _ hpart, his⟩

variable (wire keypair producer consumer) in
/-- The producer's own records. -/
theorem Watched.records_step (w : Watched) (action : Action) :
    (∃ tables op row, action = .write producer tables (some (op, row)) ∧
        (w.step wire keypair producer consumer action).records wire producer =
          w.records wire producer ++
            [⟨(w.net.store producer).nextOutbox + 1, row.kind.name, op, wire.toPayload row⟩] ∧
        ((w.step wire keypair producer consumer action).net.store producer).nextOutbox =
          (w.net.store producer).nextOutbox + 1) ∨
      ((w.step wire keypair producer consumer action).records wire producer =
          w.records wire producer ∧
        ((w.step wire keypair producer consumer action).net.store producer).nextOutbox =
          (w.net.store producer).nextOutbox) :=
  w.net.step_outbox wire keypair action producer

variable (keypair) in
/-- Records are only ever added, past all that there are. -/
theorem Watched.Inv.records (h : w.Inv wire producer consumer) (action : Action) :
    ((w.step wire keypair producer consumer action).records wire producer).Pairwise
        (fun r r' => r.seq < r'.seq) ∧
      (∀ r ∈ (w.step wire keypair producer consumer action).records wire producer,
        r.seq ≤ ((w.step wire keypair producer consumer action).net.store producer).nextOutbox) ∧
      (∀ r ∈ w.records wire producer,
        r ∈ (w.step wire keypair producer consumer action).records wire producer) ∧
      (∀ r ∈ (w.step wire keypair producer consumer action).records wire producer,
        r ∈ w.records wire producer ∨ (w.net.store producer).nextOutbox < r.seq) ∧
      (w.net.store producer).nextOutbox ≤
        ((w.step wire keypair producer consumer action).net.store producer).nextOutbox := by
  rcases w.records_step wire keypair producer consumer action with
    ⟨tables, op, row, -, hrecords, hnext⟩ | ⟨hrecords, hnext⟩
  · rw [hrecords, hnext]
    refine ⟨?_, ?_, fun r hr => List.mem_append_left _ hr, ?_, Nat.le_succ _⟩
    · apply List.pairwise_append.2
      refine ⟨h.ascends, List.pairwise_singleton _ _, fun r hr r' hr' => ?_⟩
      obtain rfl := List.mem_singleton.1 hr'
      have hbound := h.bounded r hr
      exact Nat.lt_succ_of_le hbound
    · intro r hr
      rcases List.mem_append.1 hr with hr | hr
      · have hbound := h.bounded r hr
        omega
      · obtain rfl := List.mem_singleton.1 hr
        exact Nat.le_refl _
    · intro r hr
      rcases List.mem_append.1 hr with hr | hr
      · exact .inl hr
      · obtain rfl := List.mem_singleton.1 hr
        exact .inr (Nat.lt_succ_self _)
  · rw [hrecords, hnext]
    exact ⟨h.ascends, h.bounded, fun r hr => hr, fun r hr => .inl hr, Nat.le_refl _⟩

theorem Watched.writes_seq {action : Action} {x : Nat × OwnedScope}
    (hx : x ∈ w.writes wire producer action) : x.1 = (w.net.store producer).nextOutbox + 1 := by
  unfold writes at hx
  split at hx
  next node tables op row =>
    split at hx
    next =>
      split at hx
      next =>
        obtain rfl := List.mem_singleton.1 hx
        rfl
      next => cases hx
    next => cases hx
  next => cases hx

/-- A step that does not move the cursor skips nothing, if the scopes it makes the
producer own have no record that the cursor has passed. -/
theorem Watched.Inv.kept_step (h : w.Inv wire producer consumer) (action : Action)
    (hcursor : (w.step wire keypair producer consumer action).cursor producer consumer =
      w.cursor producer consumer)
    (hgained : ∀ x ∈ w.written, (w.net.step wire keypair action).owns producer x.2 = true →
      w.net.owns producer x.2 = true ∨
        ∀ r ∈ w.records wire producer, r.seq = x.1 → r.seq ≤ w.cursor producer consumer →
          w.HasApplied producer r) :
    (w.step wire keypair producer consumer action).NothingSkipped wire producer consumer := by
  intro r hr hpassed howed
  rw [hcursor] at hpassed
  have hbehind := h.behind
  obtain ⟨-, -, -, hold, -⟩ := h.records keypair action
  rcases hold r hr with hr | hnew
  · apply HasApplied.step
    rcases mem_owed.1 howed with howed | ⟨x, hx, howns, hseq⟩
    · exact h.kept r hr hpassed howed
    · rcases List.mem_append.1 hx with hx | hx
      · rcases hgained x hx howns with hbefore | happlied
        · have howed := h.owing x hx hbefore
          rw [hseq] at howed
          exact h.kept r hr hpassed howed
        · exact happlied r hr hseq.symm hpassed
      · have hseq' := writes_seq hx
        omega
  · omega

/-- What is left to show of a step that does not move the cursor. -/
theorem Watched.Inv.still (h : w.Inv wire producer consumer) (action : Action)
    (hcursor : (w.step wire keypair producer consumer action).cursor producer consumer =
      w.cursor producer consumer)
    (hflying : ∀ part ∈ (w.step wire keypair producer consumer action).net.inFlight consumer
      producer, w.cursor producer consumer < part.seq ∧
        ∃ r ∈ w.records wire producer, IsOf producer part r)
    (hinOrder : ((w.step wire keypair producer consumer action).net.inFlight consumer
      producer).Pairwise (fun part part' => part.seq < part'.seq))
    (hgained : ∀ x ∈ w.written, (w.net.step wire keypair action).owns producer x.2 = true →
      w.net.owns producer x.2 = true ∨
        ∀ r ∈ w.records wire producer, r.seq = x.1 → r.seq ≤ w.cursor producer consumer →
          w.HasApplied producer r) :
    (w.step wire keypair producer consumer action).Inv wire producer consumer := by
  obtain ⟨hascends, hbounded, hkept, -, hnext⟩ := h.records keypair action
  refine ⟨hascends, hbounded, ?_, owing_step action, ?_, hinOrder, h.kept_step action hcursor hgained⟩
  · rw [hcursor]
    exact Nat.le_trans h.behind hnext
  · intro part hpart
    obtain ⟨hpast, r, hr, his⟩ := hflying part hpart
    rw [hcursor]
    exact ⟨hpast, r, hkept r hr, his⟩

/-- The producer gains a scope only by claiming it. -/
theorem owns_step {net : Network} {action : Action} {scope : OwnedScope}
    (h : (net.step wire keypair action).owns producer scope = true) :
    net.owns producer scope = true ∨
      (action = .claim scope producer ∧ net.registry.owners scope = none) := by
  cases action with
  | write node tables recorded =>
    left
    cases recorded with
    | none => exact h
    | some recorded => exact h
  | claim scope' node =>
    rcases net.registry.claim_cases scope' node with hsame | ⟨hfree, howners, -⟩
    · left
      have hregistry : net.step wire keypair (.claim scope' node) = net := by
        change { net with registry := (net.registry.claim scope' node).2 } = net
        rw [hsame]
      rwa [hregistry] at h
    · have hnow : ((net.step wire keypair (.claim scope' node)).registry.owners) =
          Function.update net.registry.owners scope' (some (node, net.registry.maxEpoch scope' + 1)) :=
        howners
      unfold Network.owns at h ⊢
      rw [hnow] at h
      by_cases hscope : scope = scope'
      · right
        subst hscope
        rw [Function.update_self] at h
        obtain rfl : node = producer := by simpa using h
        exact ⟨rfl, hfree⟩
      · left
        rwa [Function.update_of_ne hscope] at h
  | release scope' node =>
    left
    have hnow : (net.step wire keypair (.release scope' node)).registry =
        net.registry.release scope' node := rfl
    unfold Network.owns at h ⊢
    rw [hnow] at h
    rcases net.registry.release_owners scope' scope node with hsame | hnone
    · rwa [hsame] at h
    · rw [hnone] at h
      cases h
  | fetch node peer limit => exact .inl h
  | ingest node peer => exact .inl h

/-- What is signed claims the position of its record. -/
theorem claimedSeq_signEvent {keypair : NodeKeypair} {part : SignedPart}
    (hnode : part.node = keypair.node) (hreads : wire.parse (wire.render part) = some part) :
    claimedSeq wire (wire.signEvent keypair part) = part.seq := by
  simp only [claimedSeq, Wire.peek, Wire.signEvent_body hnode, hreads]

/-- An event that is not held up is applied where it arrives. -/
theorem Arrives.appliedBy {registry : Registry} {event : ChangeEvent} {part : SignedPart}
    {p : Progress} (h : Arrives wire registry event p)
    (hturn : handle wire registry event p ≠ none) (hparse : wire.parse event.body = some part) :
    ∃ scope, appliedBy wire registry event p = some ⟨part, scope⟩ := by
  rcases h with ⟨e, herror, htransient⟩ | ⟨part', c, hauthorize, hchange⟩
  · unfold handle at hturn
    simp only [herror, htransient, if_true, ne_eq, not_true_eq_false] at hturn
  · obtain ⟨hauthentic, scope, hscope, -⟩ := authorize_eq_ok.1 hauthorize
    obtain ⟨key, -, hverify⟩ := authenticate_eq_ok.1 hauthentic
    obtain rfl : part = part' := Option.some.inj (hparse.symm.trans (Wire.verify_eq_ok.1 hverify).1)
    exact ⟨scope, appliedBy_eq_some.2 ⟨hauthorize, hscope, c, hchange⟩⟩

/-- The part of the page that an ingest gets through, how far it brings the cursor, and
that all of it is applied. -/
theorem Watched.Inv.exists_through (h : w.Inv wire producer consumer)
    (hkeypair : ∀ node, (keypair node).node = node)
    (hgapless : Gapless wire keypair producer consumer w (.ingest consumer producer))
    (hreads : ReadsBack wire w.net (.ingest consumer producer)) :
    ∃ through rest, w.net.inFlight consumer producer = through ++ rest ∧
      stops wire (w.net.registry.answers wire) (through.map (wire.signEvent (keypair producer)))
        (startOf producer (w.net.store consumer)) = false ∧
      (w.step wire keypair producer consumer (.ingest consumer producer)).cursor producer consumer =
        through.foldl (fun high part => max high part.seq) (w.cursor producer consumer) ∧
      ∀ part ∈ through,
        part ∈ (w.step wire keypair producer consumer (.ingest consumer producer)).applied := by
  obtain ⟨done, undone, hbatch, hstops, hdrain, -, -⟩ :=
    exists_done wire (w.net.registry.answers wire) (w.net.batch wire keypair consumer producer)
      (startOf producer (w.net.store consumer))
  obtain ⟨through, rest, hflight, rfl, rfl⟩ := List.map_eq_append_iff.1 hbatch
  have hsigned : ∀ part ∈ through, part.node = (keypair producer).node ∧
      wire.parse (wire.render part) = some part := by
    intro part hpart
    have hmem : part ∈ w.net.inFlight consumer producer := by
      rw [hflight]
      exact List.mem_append_left _ hpart
    obtain ⟨-, r, -, hnode, -⟩ := h.flying part hmem
    exact ⟨hnode.trans (hkeypair producer).symm, hreads part hmem⟩
  refine ⟨through, rest, hflight, hstops, ?_, ?_⟩
  · have hcursor : (w.step wire keypair producer consumer
          (.ingest consumer producer)).cursor producer consumer =
        (drain wire (w.net.registry.answers wire) (w.net.batch wire keypair consumer producer)
          (startOf producer (w.net.store consumer))).high := by
      have hstore : (w.net.step wire keypair (.ingest consumer producer)).store consumer =
          w.net.ingested wire keypair consumer producer :=
        w.net.setStore_self consumer _
      change ((w.net.step wire keypair (.ingest consumer producer)).store consumer).cursors
        producer = _
      rw [hstore]
      exact ingest_cursor wire _ producer _ _
    rw [hcursor, hdrain, drain_high _ _ hstops, List.foldl_map]
    apply List.foldl_ext
    intro high part hpart
    obtain ⟨hnode, hreads⟩ := hsigned part hpart
    rw [claimedSeq_signEvent hnode hreads]
  · intro part hpart
    obtain ⟨hnode, hreads⟩ := hsigned part hpart
    obtain ⟨before, after, rfl⟩ := List.append_of_mem hpart
    have hparts : (before ++ part :: after).map (wire.signEvent (keypair producer)) =
        before.map (wire.signEvent (keypair producer)) ++
          wire.signEvent (keypair producer) part ::
            after.map (wire.signEvent (keypair producer)) := by
      rw [List.map_append, List.map_cons]
    have hsplit : w.net.batch wire keypair consumer producer =
        before.map (wire.signEvent (keypair producer)) ++
          wire.signEvent (keypair producer) part ::
            (after ++ rest).map (wire.signEvent (keypair producer)) := by
      rw [hbatch, hparts, List.map_append, List.append_assoc, List.cons_append]
    rw [hparts] at hstops
    have hturn := stops_eq_false_iff.1 hstops _ _ _ rfl
    rw [stops_append, Bool.or_eq_false_iff] at hstops
    have harrives := (hgapless rfl rfl).1 _ _ _ hsplit hstops.1
    have hparse : wire.parse (wire.signEvent (keypair producer) part).body = some part := by
      rw [Wire.signEvent_body hnode]
      exact hreads
    obtain ⟨scope, happlied⟩ := harrives.appliedBy hturn hparse
    have happlication : ⟨part, scope⟩ ∈ w.net.applied wire keypair consumer producer :=
      mem_applications.2 ⟨_, _, _, hsplit, hstops.1, happlied⟩
    apply List.mem_append_right
    have happlies : w.applies wire keypair consumer (.ingest consumer producer) =
        (w.net.applied wire keypair consumer producer).map (fun a => a.part) :=
      if_pos rfl
    rw [happlies]
    exact List.mem_map.2 ⟨_, happlication, rfl⟩

/-- An ingest brings the cursor past nothing that is owed and not applied. -/
theorem Watched.Inv.ingest (h : w.Inv wire producer consumer)
    (hkeypair : ∀ node, (keypair node).node = node)
    (hgapless : Gapless wire keypair producer consumer w (.ingest consumer producer))
    (hreads : ReadsBack wire w.net (.ingest consumer producer)) :
    (w.step wire keypair producer consumer (.ingest consumer producer)).Inv wire producer
      consumer := by
  obtain ⟨through, rest, hflight, hstops, hcursor, happlied⟩ :=
    h.exists_through hkeypair hgapless hreads
  obtain ⟨hascends, hbounded, -, -, -⟩ := h.records keypair (.ingest consumer producer)
  have hsame : (w.step wire keypair producer consumer (.ingest consumer producer)).records wire
        producer = w.records wire producer ∧
      ((w.step wire keypair producer consumer (.ingest consumer producer)).net.store
        producer).nextOutbox = (w.net.store producer).nextOutbox := by
    rcases w.records_step wire keypair producer consumer (.ingest consumer producer) with
      ⟨tables, op, row, hwrite, -⟩ | hsame
    · cases hwrite
    · exact hsame
  have hthrough : ∀ part ∈ through, ∃ r ∈ w.records wire producer, IsOf producer part r := by
    intro part hpart
    apply (h.flying part _).2
    rw [hflight]
    exact List.mem_append_left _ hpart
  have hempty : (w.step wire keypair producer consumer
      (.ingest consumer producer)).net.inFlight consumer producer = [] :=
    (Network.setInFlight_inFlight _ _ _ _ _ _).trans (if_pos ⟨rfl, rfl⟩)
  refine ⟨hascends, hbounded, ?_, owing_step _, ?_, ?_, ?_⟩
  · rw [hcursor, hsame.2]
    apply Nat.le_of_lt_succ
    apply foldl_max_lt (Nat.lt_succ_of_le h.behind)
    intro part hpart
    obtain ⟨r, hr, -, hseq, -⟩ := hthrough part hpart
    rw [hseq]
    exact Nat.lt_succ_of_le (h.bounded r hr)
  · rw [hempty]
    exact fun part hpart => (nomatch hpart)
  · rw [hempty]
    exact List.Pairwise.nil
  · intro r hr hpassed howed
    rw [hsame.1] at hr
    have howed : r.seq ∈ w.owed := by
      rcases mem_owed.1 howed with howed | ⟨x, hx, howns, hseq⟩
      · exact howed
      · rw [← hseq]
        rcases List.mem_append.1 hx with hx | hx
        · exact h.owing x hx howns
        · cases hx
    by_cases hold : r.seq ≤ w.cursor producer consumer
    · exact (h.kept r hr hold howed).step _
    · have hahead : ∃ part ∈ through, part.seq = r.seq := by
        have hreached : ∃ part ∈ through, r.seq ≤ part.seq := by
          by_contra hnone
          have hlt : through.foldl (fun high part => max high part.seq)
              (w.cursor producer consumer) < r.seq := by
            apply foldl_max_lt (Nat.lt_of_not_le hold)
            intro part hpart
            exact Nat.lt_of_not_le (fun hle => hnone ⟨part, hpart, hle⟩)
          rw [hcursor] at hpassed
          omega
        obtain ⟨part, hpart, hle⟩ := hreached
        rcases Nat.lt_or_eq_of_le hle with hlt | heq
        · obtain ⟨before, after, rfl⟩ := List.append_of_mem hpart
          have hpage : w.net.inFlight consumer producer = before ++ part :: (after ++ rest) := by
            rw [hflight, List.append_assoc, List.cons_append]
          have hbefore : before ++ part :: after = before ++ [part] ++ after := by
            rw [List.append_assoc, List.singleton_append]
          rw [hbefore, List.map_append, stops_append, Bool.or_eq_false_iff] at hstops
          obtain ⟨part', hpart', hseq⟩ := (hgapless rfl rfl).2 before part (after ++ rest) hpage
            hstops.1 r hr howed (Nat.lt_of_not_le hold) hlt
          exact ⟨part', List.mem_append_left _ hpart', hseq⟩
        · exact ⟨part, hpart, heq.symm⟩
      obtain ⟨part, hpart, hseq⟩ := hahead
      obtain ⟨r', hr', his⟩ := hthrough part hpart
      obtain rfl : r' = r := eq_of_key_eq h.ascends hr' hr (his.2.1.symm.trans hseq)
      exact ⟨part, happlied part hpart, his⟩

theorem Watched.Inv.step (h : w.Inv wire producer consumer)
    (hkeypair : ∀ node, (keypair node).node = node) (action : Action)
    (hgapless : Gapless wire keypair producer consumer w action)
    (hreads : ReadsBack wire w.net action) :
    (w.step wire keypair producer consumer action).Inv wire producer consumer := by
  have hgained : ∀ x ∈ w.written, (w.net.step wire keypair action).owns producer x.2 = true →
      w.net.owns producer x.2 = true ∨
        ∀ r ∈ w.records wire producer, r.seq = x.1 → r.seq ≤ w.cursor producer consumer →
          w.HasApplied producer r := by
    intro x hx howns
    rcases owns_step howns with hbefore | ⟨rfl, hfree⟩
    · exact .inl hbefore
    · right
      intro r hr hseq hpassed
      apply hgapless rfl hfree r hr _ hpassed
      rw [hseq]
      exact hx
  by_cases hingest : action = .ingest consumer producer
  · subst hingest
    exact h.ingest hkeypair hgapless hreads
  · have hcursor : (w.step wire keypair producer consumer action).cursor producer consumer =
        w.cursor producer consumer :=
      w.net.step_cursors wire keypair action consumer producer hingest
    by_cases hfetch : ∃ limit, action = .fetch consumer producer limit
    · obtain ⟨limit, rfl⟩ := hfetch
      have hflight : (w.step wire keypair producer consumer
            (.fetch consumer producer limit)).net.inFlight consumer producer =
          w.net.page wire consumer producer limit :=
        (Network.setInFlight_inFlight _ _ _ _ _ _).trans (if_pos ⟨rfl, rfl⟩)
      apply h.still _ hcursor _ _ hgained
      · rw [hflight]
        intro part hpart
        obtain ⟨r, hr, scope, epoch, -, -, rfl⟩ := mem_signedPage.1 hpart
        obtain ⟨hr, hpast⟩ := List.mem_filter.1 (List.mem_of_mem_take hr)
        exact ⟨of_decide_eq_true hpast, r, hr, rfl, rfl, rfl, rfl, rfl⟩
      · rw [hflight]
        exact signedPage_pairwise _ _ _ h.ascends
    · have hflight : (w.step wire keypair producer consumer action).net.inFlight consumer producer =
          w.net.inFlight consumer producer :=
        w.net.step_inFlight wire keypair action consumer producer
          (fun limit heq => hfetch ⟨limit, heq⟩) hingest
      apply h.still action hcursor _ _ hgained
      · rw [hflight]
        exact h.flying
      · rw [hflight]
        exact h.inOrder

end

/-- From the first record of a producer on, with nothing pulled before: where every page
that the consumer ingests is gapless, and the producer takes no scope of which the
cursor has passed a record, the cursor never passes a record that was its due. -/
theorem nothing_skipped (wire : Wire) (keypair : NodeId → NodeKeypair)
    (hkeypair : ∀ node, (keypair node).node = node) (producer consumer : NodeId) (net : Network)
    (hproducer : (net.store producer).outbox = []) (hconsumer : (net.store consumer).cursors producer = 0)
    (hidle : net.inFlight consumer producer = []) (run : List Action)
    (hreads : Along (Watched.step wire keypair producer consumer)
      (fun w action => ReadsBack wire w.net action) (.start net) run)
    (hgapless : Along (Watched.step wire keypair producer consumer)
      (Gapless wire keypair producer consumer) (.start net) run) :
    (run.foldl (Watched.step wire keypair producer consumer) (.start net)).NothingSkipped wire producer
      consumer := by
  have hstart : (Watched.start net).Inv wire producer consumer := by
    have hrecords : (Watched.start net).records wire producer = [] := by
      rw [Watched.records, feedRecords, Watched.start, hproducer, List.map_nil]
    constructor
    · rw [hrecords]
      exact List.Pairwise.nil
    · rw [hrecords]
      intro r hr
      cases hr
    · exact Nat.le_trans (Nat.le_of_eq hconsumer) (Nat.zero_le _)
    · intro x hx
      cases hx
    · intro part hpart
      rw [Watched.start, hidle] at hpart
      cases hpart
    · rw [Watched.start, hidle]
      exact List.Pairwise.nil
    · intro r _ _ howed
      cases howed
  have hinv := Along.invariant (fun w action hw h => hw.step hkeypair action h.2 h.1)
    (hreads.and hgapless) hstart
  exact hinv.kept

/-- A page of the one record that comes next has no gaps. -/
theorem gapless_of_single {wire : Wire} {keypair : NodeId → NodeKeypair} {producer consumer : NodeId}
    {w : Watched} {part : SignedPart} {c : Change}
    (haccepted : authorize wire (w.net.registry.answers wire) (storeResolver (w.net.store consumer))
      (wire.signEvent (keypair producer) part) = .ok part)
    (hchange : wire.change part = .ok c) (hflight : w.net.inFlight consumer producer = [part])
    (hnext : part.seq = w.cursor producer consumer + 1) :
    Gapless wire keypair producer consumer w (.ingest consumer producer) := by
  intro _ _
  constructor
  · intro before event after hbatch _
    rw [Network.batch, hflight, List.map_singleton] at hbatch
    cases before with
    | nil =>
      obtain ⟨rfl, -⟩ := List.cons.inj hbatch
      exact .inr ⟨part, c, haccepted, hchange⟩
    | cons event' before =>
      have hrest := (List.cons.inj hbatch).2
      exact absurd hrest.symm (List.append_ne_nil_of_right_ne_nil _ (List.cons_ne_nil _ _))
  · intro before part' after hparts _ r _ _ hpast hlt
    rw [hflight] at hparts
    have hpart : part' ∈ [part] := by
      rw [hparts]
      exact List.mem_append_right _ List.mem_cons_self
    rw [List.mem_singleton.1 hpart] at hlt
    omega

namespace Agora

/-- Node 1 writes a rule of its second server. -/
def rulingSecond : Action := .write 1 (.empty 1) (some (.upsert, .rule (rule 1 2 2)))

/-- That rule as node 1 signs it. -/
def secondPart : SignedPart := rulePart 1 1 2 (rule 1 2 2)

def secondWire : Wire := wire [secondPart]

/-- The first server is not claimed yet when its rule is written and the page signed. -/
def unclaimedFirst : List Action :=
  [.claim (server 2) 1, ruling, rulingSecond, .fetch 3 1 500]

def gapped : Watched :=
  unclaimedFirst.foldl (Watched.step secondWire keypair 1 3) (.start freshNetwork)

theorem gapped_inFlight : gapped.net.inFlight 3 1 = [secondPart] := rfl

theorem secondPart_accepted (s : Inner) :
    authorize secondWire (gapped.net.registry.answers secondWire) (storeResolver s)
      (secondWire.signEvent (keypair 1) secondPart) = .ok secondPart := by
  apply accepted_of_owner
  · rfl
  · rfl
  · exact (rfl : gapped.net.registry.owners (server 2) = some (1, 1))
  · exact Nat.le_refl 1
  · rfl
  · simp [wire]

def passed : Watched := gapped.step secondWire keypair 1 3 (.ingest 3 1)

theorem passed_net : passed.net = gapped.net.step secondWire keypair (.ingest 3 1) := rfl

theorem passed_written : passed.written = [(1, server 1), (2, server 2)] := rfl

/-- The consumer has passed the rule of the first server when node 1 claims it. -/
def skipping : Watched := passed.step secondWire keypair 1 3 (.claim (server 1) 1)

theorem skipping_net :
    skipping.net = passed.net.step secondWire keypair (.claim (server 1) 1) := rfl

end Agora

theorem nothing_skipped_agora :
    (([.claim (Agora.server 1) 1, Agora.ruling] ++ Agora.pulling).foldl
        (Watched.step (Agora.wire [Agora.current]) Agora.keypair 1 3)
        (.start Agora.freshNetwork)).NothingSkipped (Agora.wire [Agora.current]) 1 3 := by
  apply nothing_skipped
  · exact fun _ => rfl
  · rfl
  · rfl
  · rfl
  · refine ⟨trivial, trivial, trivial, ?_, trivial⟩
    intro part hpart
    obtain rfl : part = Agora.current := List.mem_singleton.1 hpart
    simp [Agora.wire]
  · refine ⟨?_, trivial, trivial, ?_, trivial⟩
    · rintro _ _ r ⟨⟩
    · apply gapless_of_single _ _ _ _
      · exact Agora.current
      · exact .put (.rule (Agora.rule 1 1 1))
      · exact Agora.accepted_of_parse rfl (Nat.le_refl 1) rfl (by simp [Agora.wire])
      · rfl
      · rfl
      · rfl

theorem unclaimed_rule_skipped :
    ¬ ((Agora.unclaimedFirst ++ [Action.ingest 3 1, .claim (Agora.server 1) 1]).foldl
        (Watched.step Agora.secondWire Agora.keypair 1 3)
        (.start Agora.freshNetwork)).NothingSkipped Agora.secondWire 1 3 := by
  rw [List.foldl_append]
  change ¬ Agora.skipping.NothingSkipped Agora.secondWire 1 3
  intro h
  have hcursor := cursor_of_single (Agora.secondPart_accepted _) Agora.gapped_inFlight
  have hstill := Agora.passed.net.step_cursors Agora.secondWire Agora.keypair
    (.claim (Agora.server 1) 1) 3 1 (by simp)
  have hpassed : 1 ≤ Agora.skipping.cursor 1 3 := by
    rw [Watched.cursor, Agora.skipping_net, hstill, Agora.passed_net, hcursor]
    calc
      1 ≤ Agora.secondPart.seq := by decide
      _ ≤ max ((Agora.gapped.net.store 3).cursors 1) Agora.secondPart.seq := Nat.le_max_right _ _
  have howed : 1 ∈ Agora.skipping.owed := by
    apply Watched.mem_owed.2
    refine .inr ⟨(1, Agora.server 1), ?_, rfl, rfl⟩
    apply List.mem_append_left
    rw [Agora.passed_written]
    exact List.mem_cons_self
  obtain ⟨part, hpart, -, hseq, -⟩ :=
    h ⟨1, "rules", .upsert, Agora.rulePayload (Agora.rule 1 1 1)⟩ List.mem_cons_self hpassed howed
  have happlied : part ∈ [] ++ (Agora.gapped.net.applied Agora.secondWire Agora.keypair 3 1).map
      (fun a => a.part) ++ [] := hpart
  rw [List.nil_append, List.append_nil] at happlied
  obtain ⟨a, ha, rfl⟩ := List.mem_map.1 happlied
  have honly : ∀ part ∈ Agora.gapped.net.inFlight 3 1, part = Agora.secondPart := by
    intro part hpart
    rw [Agora.gapped_inFlight] at hpart
    exact List.mem_singleton.1 hpart
  have hflown := inFlight_of_applied ha
    (fun part hpart => by rw [honly part hpart]; rfl)
    (fun part hpart => by rw [honly part hpart]; simp [Agora.secondWire, Agora.wire])
  rw [honly _ hflown] at hseq
  cases hseq

end Democrachat.Federation
