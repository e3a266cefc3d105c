import Democrachat.Federation.Polling
import Democrachat.Properties.Unauthentic

/-!
# Stalled feeds

A vote or a reaction whose parent this replica does not have is refused as if its
scope had no owner yet, and such a refusal stops the batch.
-/

namespace Democrachat.Federation

open Library

/-- Every key and every owner that the events ask for has been published. -/
def Settled (wire : Wire) (registry : Registry) (events : List ChangeEvent) : Prop :=
  ∀ event ∈ events, ∀ part, wire.parse event.body = some part →
    (∃ key, registry.publicKey part.node = .ok (some key)) ∧
      ∀ resolver scope, (classify part.entity part.payload).resolve resolver = .ok scope →
        ∃ owner, registry.ownerOf scope = .ok (some owner)

/-- An authentic vote or reaction whose parent the replica does not have. -/
def isOrphan (wire : Wire) (registry : Registry) (event : ChangeEvent) (s : Inner) : Bool :=
  match authenticate wire registry event with
  | .ok part =>
    match classify part.entity part.payload with
    | .viaProposal id => (s.getProposal id).isNone
    | .viaMessage id => (s.getMessage id).isNone
    | _ => false
  | .error _ => false

section

variable {wire : Wire} {registry : Registry} {peer : NodeId} {stream : List ChangeEvent}

theorem isOrphan_eq_missing {event : ChangeEvent} {part : SignedPart} {id : ProposalId}
    (hauthentic : authenticate wire registry event = .ok part)
    (hclass : classify part.entity part.payload = .viaProposal id) (s : Inner) :
    isOrphan wire registry event s = (s.getProposal id).isNone := by
  simp only [isOrphan, hauthentic, hclass]

theorem isOrphan_of_owned {event : ChangeEvent} {part : SignedPart} {scope : OwnedScope}
    (hauthentic : authenticate wire registry event = .ok part)
    (hclass : classify part.entity part.payload = .owned scope) (s : Inner) :
    isOrphan wire registry event s = false := by
  simp only [isOrphan, hauthentic, hclass]

/-- Keys that are published leave an event authentic or refused for good. -/
theorem authenticate_of_settled {events : List ChangeEvent} (hsettled : Settled wire registry events)
    {event : ChangeEvent} (hevent : event ∈ events) {e : AuthError}
    (h : authenticate wire registry event = .error e) : isTransient e = false := by
  unfold authenticate Wire.peek at h
  cases hparse : wire.parse event.body with
  | none =>
    simp only [hparse, Except.error.injEq] at h
    rw [← h]
    rfl
  | some claimed =>
    obtain ⟨key, hkey⟩ := (hsettled event hevent claimed hparse).1
    simp only [hparse, hkey] at h
    cases hverify : wire.verify event key with
    | ok part => simp only [hverify, reduceCtorEq] at h
    | error e' =>
      simp only [hverify, Except.error.injEq] at h
      rw [← h]
      rfl

/-- What a scope with an owner answers is no reason to wait. -/
theorem checkOwner_of_owner {scope : OwnedScope} {owner : Ownership}
    (howner : registry.ownerOf scope = .ok (some owner)) {part : SignedPart} {e : AuthError}
    (h : checkOwner registry scope part = .error e) : isTransient e = false := by
  unfold checkOwner at h
  simp only [howner] at h
  by_cases hnode : owner.owner = part.node
  · by_cases hepoch : part.epoch < owner.epoch
    · simp only [hnode, hepoch, ne_eq, not_true_eq_false, if_false, if_true, Except.error.injEq] at h
      rw [← h]
      rfl
    · simp only [hnode, hepoch, ne_eq, not_true_eq_false, if_false, reduceCtorEq] at h
  · simp only [hnode, ne_eq, not_false_eq_true, if_true, Except.error.injEq] at h
    rw [← h]
    rfl

/-- With all owners and keys published, only an orphan stops a batch. -/
theorem handle_eq_none_iff {events : List ChangeEvent} (hsettled : Settled wire registry events)
    {event : ChangeEvent} (hevent : event ∈ events) (p : Progress) :
    handle wire registry event p = none ↔ isOrphan wire registry event p.replica = true := by
  rw [handle_eq_none]
  unfold IsHeldUp isOrphan authorize
  cases hauthentic : authenticate wire registry event with
  | error e =>
    have htransient := authenticate_of_settled hsettled hevent hauthentic
    simp [bind, Except.bind, htransient]
  | ok part =>
    obtain ⟨key, -, hverify⟩ := authenticate_eq_ok.1 hauthentic
    have howners := (hsettled event hevent part (Wire.verify_eq_ok.1 hverify).1).2
    -- A scope that is found has an owner.
    have hfound : ∀ scope,
        (classify part.entity part.payload).resolve (storeResolver p.replica) = .ok scope →
        ¬ ∃ e, checkOwner registry scope part = .error e ∧ isTransient e = true := by
      rintro scope hscope ⟨e, he, htransient⟩
      obtain ⟨owner, howner⟩ := howners _ _ hscope
      rw [checkOwner_of_owner howner he] at htransient
      cases htransient
    simp only [bind, Except.bind]
    cases hclass : classify part.entity part.payload with
    | owned scope =>
      have hscope := hfound scope (by rw [hclass]; rfl)
      simpa [DerivedScope.resolve] using hscope
    | viaProposal id =>
      cases hparent : p.replica.getProposal id with
      | none => simp [DerivedScope.resolve, storeResolver, hparent, isTransient]
      | some proposal =>
        have hscope := hfound (.server proposal.serverId)
          (by simp [hclass, DerivedScope.resolve, storeResolver, hparent])
        simpa [DerivedScope.resolve, storeResolver, hparent] using hscope
    | viaMessage id =>
      cases hparent : p.replica.getMessage id with
      | none => simp [DerivedScope.resolve, storeResolver, hparent, isTransient]
      | some message =>
        have hscope := hfound (.server message.serverId)
          (by simp [hclass, DerivedScope.resolve, storeResolver, hparent])
        simpa [DerivedScope.resolve, storeResolver, hparent] using hscope
    | indeterminate => simp [DerivedScope.resolve, isTransient]

/-! ## Repeated polls -/

variable (registry peer)

/-- A feed that stops the consumer once does so for ever. -/
theorem stops_poll (hstream : stream.Pairwise (fun e e' => claimedSeq wire e < claimedSeq wire e'))
    (limit : Nat) (s : Inner) :
    stops wire registry (ahead wire stream ((poll wire registry peer stream limit s).cursors peer))
        (startOf peer (poll wire registry peer stream limit s)) =
      stops wire registry (ahead wire stream (s.cursors peer)) (startOf peer s) := by
  obtain ⟨done, rest, hahead, hstops, hrest, ⟨cursors, hstart⟩, -⟩ :=
    exists_polled hstream limit s
  rw [hrest, hstart, stops_withCursors, hahead, stops_append, hstops, Bool.false_or]

theorem stops_polls (hstream : stream.Pairwise (fun e e' => claimedSeq wire e < claimedSeq wire e'))
    (limit n : Nat) (s : Inner) :
    stops wire registry
        (ahead wire stream (((poll wire registry peer stream limit)^[n] s).cursors peer))
        (startOf peer ((poll wire registry peer stream limit)^[n] s)) =
      stops wire registry (ahead wire stream (s.cursors peer)) (startOf peer s) := by
  induction n generalizing s with
  | zero => rfl
  | succ n ih =>
    rw [Function.iterate_succ_apply, ih, stops_poll registry peer hstream]

/-- A feed that stops the consumer is never handled to its end. -/
theorem not_past_of_stops
    (hstream : stream.Pairwise (fun e e' => claimedSeq wire e < claimedSeq wire e'))
    (limit n : Nat) (s : Inner)
    (h : stops wire registry (ahead wire stream (s.cursors peer)) (startOf peer s) = true) :
    ¬ ∀ event ∈ stream, claimedSeq wire event ≤
      ((poll wire registry peer stream limit)^[n] s).cursors peer := by
  intro hpast
  have hsame := stops_polls registry peer hstream limit n s
  have hnone : ahead wire stream
      (((poll wire registry peer stream limit)^[n] s).cursors peer) = [] := by
    apply List.filter_eq_nil_iff.2
    intro event hevent
    have hle := hpast event hevent
    simpa using hle
  rw [hnone, h] at hsame
  cases hsame

variable {registry peer}

/-- A feed that never stops the consumer is handled to its end, as in one batch. -/
theorem polls_reach_end
    (hstream : stream.Pairwise (fun e e' => claimedSeq wire e < claimedSeq wire e'))
    (limit : Nat) (s : Inner)
    (h : stops wire registry (ahead wire stream (s.cursors peer)) (startOf peer s) = false) :
    ∃ n cursors, ahead wire stream (((poll wire registry peer stream limit)^[n] s).cursors peer) = [] ∧
      startOf peer ((poll wire registry peer stream limit)^[n] s) =
        (drain wire registry (ahead wire stream (s.cursors peer)) (startOf peer s)).withCursors
          cursors := by
  -- By induction on how much is ahead.
  induction hlength : (ahead wire stream (s.cursors peer)).length using Nat.strongRecOn
    generalizing s with
  | _ length ih =>
    obtain ⟨done, rest, hahead, hstops, hrest, ⟨cursors, hstart⟩, hprogress⟩ :=
      exists_polled hstream limit s
    have hlater := (stops_poll registry peer hstream limit s).trans h
    by_cases hdone : done = []
    · have hnone : ahead wire stream (s.cursors peer) = [] := by
        by_cases hempty : rest = []
        · rw [hahead, hdone, hempty, List.append_nil]
        · exact absurd hdone (hprogress h hempty)
      refine ⟨0, s.cursors, hnone, ?_⟩
      rw [hnone]
      rfl
    · have hshorter : rest.length < length := by
        have hpos := List.length_pos_iff.2 hdone
        rw [← hlength, hahead, List.length_append]
        omega
      obtain ⟨n, cursors', hend, hdrain⟩ := ih rest.length hshorter _ hlater (by rw [hrest])
      refine ⟨n + 1, cursors', hend, ?_⟩
      rw [Function.iterate_succ_apply, hdrain, hrest, hstart, drain_withCursors, hahead,
        drain_append, hstops]
      rfl

end

/-- From any replica, repeated polls of a feed get past all its events and apply those
that are authorized at their turn exactly when no vote and no reaction comes to its
turn without its parent. -/
theorem polls_pass_iff (wire : Wire) (registry : Registry) (peer : NodeId)
    (stream : List ChangeEvent) (limit : Nat) (s : Inner)
    (hstream : stream.Pairwise (fun e e' => claimedSeq wire e < claimedSeq wire e'))
    (hsettled : Settled wire registry stream) :
    (∃ n, (∀ event ∈ stream, claimedSeq wire event ≤
          ((poll wire registry peer stream limit)^[n] s).cursors peer) ∧
        ∃ cursors, (poll wire registry peer stream limit)^[n] s =
          (drain wire registry (ahead wire stream (s.cursors peer))
            (startOf peer s)).replica.withCursors cursors) ↔
      ∀ before event after, ahead wire stream (s.cursors peer) = before ++ event :: after →
        isOrphan wire registry event (drain wire registry before (startOf peer s)).replica = false := by
  have horphan : (∀ before event after,
      ahead wire stream (s.cursors peer) = before ++ event :: after →
        isOrphan wire registry event (drain wire registry before (startOf peer s)).replica = false) ↔
      stops wire registry (ahead wire stream (s.cursors peer)) (startOf peer s) = false := by
    rw [stops_eq_false_iff]
    refine forall_congr' fun before => forall_congr' fun event => forall_congr' fun after =>
      forall_congr' fun hahead => ?_
    have hevent : event ∈ stream := by
      have hmem : event ∈ ahead wire stream (s.cursors peer) := by
        rw [hahead]
        exact List.mem_append_right _ List.mem_cons_self
      exact (List.mem_filter.1 hmem).1
    rw [Ne, handle_eq_none_iff hsettled hevent, Bool.not_eq_true]
  rw [horphan]
  constructor
  · rintro ⟨n, hpast, -⟩
    by_contra hstops
    rw [Bool.not_eq_false] at hstops
    exact not_past_of_stops registry peer hstream limit n s hstops hpast
  · intro hnever
    obtain ⟨n, cursors, hend, hdrain⟩ := polls_reach_end hstream limit s hnever
    refine ⟨n, fun event hevent => ?_, cursors, congrArg Progress.replica hdrain⟩
    have hnot := List.filter_eq_nil_iff.1 hend event hevent
    simpa using hnot

namespace Agora

/-- Node 1 has claimed every scope there is. -/
def claimedAll : InMemoryRegistry :=
  { keyed with owners := fun _ => some (1, 1), maxEpoch := fun _ => 1 }

/-- A vote of node 1 on a proposal that it never sent. -/
def strayVote : SignedPart :=
  ⟨1, 1, 1, .server (composeId 1 1), "votes", .upsert,
    (wire []).toPayload (.vote ⟨composeId 1 7, composeId 1 1, true⟩)⟩

/-- The rule that comes after it. -/
def laterRule : SignedPart := rulePart 1 1 2 (rule 1 1 1)

def strayed : Wire := wire [strayVote, laterRule]

def voteEvent : ChangeEvent := strayed.signEvent (keypair 1) strayVote

def ruleEvent : ChangeEvent := strayed.signEvent (keypair 1) laterRule

theorem parse_strayed : strayed.parse (renderPart strayVote) = some strayVote ∧
    strayed.parse (renderPart laterRule) = some laterRule := by
  have hdiffers : (renderPart strayVote == renderPart laterRule) = false := by decide +kernel
  exact parse_pair hdiffers

theorem parse_voteEvent : strayed.parse voteEvent.body = some strayVote := by
  have hbody : voteEvent.body = renderPart strayVote := Wire.signEvent_body rfl
  rw [hbody]
  exact parse_strayed.1

theorem parse_ruleEvent : strayed.parse ruleEvent.body = some laterRule := by
  have hbody : ruleEvent.body = renderPart laterRule := Wire.signEvent_body rfl
  rw [hbody]
  exact parse_strayed.2

theorem claimedSeq_strayed : claimedSeq strayed voteEvent = 1 ∧ claimedSeq strayed ruleEvent = 2 := by
  simp only [claimedSeq, Wire.peek, parse_voteEvent, parse_ruleEvent]
  exact ⟨rfl, rfl⟩

theorem strayed_ascends : [voteEvent, ruleEvent].Pairwise
    (fun e e' => claimedSeq strayed e < claimedSeq strayed e') := by
  apply List.pairwise_pair.2
  rw [claimedSeq_strayed.1, claimedSeq_strayed.2]
  decide

theorem settled_of_keys {parts : List SignedPart} {events : List ChangeEvent}
    (h : ∀ event ∈ events, ∀ part, (wire parts).parse event.body = some part → part.node = 1) :
    Settled (wire parts) (claimedAll.answers (wire parts)) events := by
  intro event hevent part hparse
  constructor
  · rw [h event hevent part hparse]
    exact ⟨_, publicKey_of_keys (.inl rfl) rfl⟩
  · exact fun _ scope _ => ⟨⟨scope, 1, 1⟩, rfl⟩

theorem strayed_settled :
    Settled strayed (claimedAll.answers strayed) [voteEvent, ruleEvent] := by
  apply settled_of_keys
  intro event hevent part hparse
  rcases List.mem_pair.1 hevent with rfl | rfl
  · obtain rfl := Option.some.inj (parse_voteEvent.symm.trans hparse)
    rfl
  · obtain rfl := Option.some.inj (parse_ruleEvent.symm.trans hparse)
    rfl

theorem rule_settled : Settled strayed (claimedAll.answers strayed) [ruleEvent] :=
  fun event hevent => strayed_settled event (List.mem_cons_of_mem _ hevent)

/-- The vote is authentic, and its proposal is not there. -/
theorem voteEvent_orphan (s : Inner) (h : s.getProposal (composeId 1 7) = none) :
    isOrphan strayed (claimedAll.answers strayed) voteEvent s = true := by
  have hauthentic : authenticate strayed (claimedAll.answers strayed) voteEvent = .ok strayVote :=
    authenticate_of_parse rfl rfl parse_strayed.1
  have hclass : classify strayVote.entity strayVote.payload = .viaProposal (composeId 1 7) := rfl
  rw [isOrphan_eq_missing hauthentic hclass, h, Option.isNone_none]

theorem ruleEvent_not_orphan (s : Inner) :
    isOrphan strayed (claimedAll.answers strayed) ruleEvent s = false := by
  have hauthentic : authenticate strayed (claimedAll.answers strayed) ruleEvent = .ok laterRule :=
    authenticate_of_parse rfl rfl parse_strayed.2
  exact isOrphan_of_owned hauthentic rfl s

end Agora

theorem polls_pass_rule :
    ∃ n, (∀ event ∈ [Agora.ruleEvent], claimedSeq Agora.strayed event ≤
        ((poll Agora.strayed (Agora.claimedAll.answers Agora.strayed) 1
          [Agora.ruleEvent] 500)^[n] (.empty 3)).cursors 1) ∧
      ∃ cursors, (poll Agora.strayed (Agora.claimedAll.answers Agora.strayed) 1
          [Agora.ruleEvent] 500)^[n] (.empty 3) =
        (drain Agora.strayed (Agora.claimedAll.answers Agora.strayed)
          (ahead Agora.strayed [Agora.ruleEvent] ((Inner.empty 3).cursors 1))
          (startOf 1 (.empty 3))).replica.withCursors cursors := by
  apply (polls_pass_iff Agora.strayed (Agora.claimedAll.answers Agora.strayed) 1 [Agora.ruleEvent]
    500 (.empty 3) (List.pairwise_singleton _ _) Agora.rule_settled).2
  intro before event after hahead
  have hevent : event ∈ ahead Agora.strayed [Agora.ruleEvent] ((Inner.empty 3).cursors 1) := by
    rw [hahead]
    exact List.mem_append_right _ List.mem_cons_self
  obtain rfl := List.mem_singleton.1 (List.mem_filter.1 hevent).1
  exact Agora.ruleEvent_not_orphan _

/-- The vote is never passed, so the rule is never applied. -/
theorem stray_vote_stalls :
    Settled Agora.strayed (Agora.claimedAll.answers Agora.strayed)
        [Agora.voteEvent, Agora.ruleEvent] ∧
      ¬ ∃ n, ∀ event ∈ [Agora.voteEvent, Agora.ruleEvent], claimedSeq Agora.strayed event ≤
        ((poll Agora.strayed (Agora.claimedAll.answers Agora.strayed) 1
          [Agora.voteEvent, Agora.ruleEvent] 500)^[n] (.empty 3)).cursors 1 := by
  refine ⟨Agora.strayed_settled, ?_⟩
  rintro ⟨n, hpast⟩
  refine not_past_of_stops _ 1 Agora.strayed_ascends 500 n (.empty 3) ?_ hpast
  have hahead : ahead Agora.strayed [Agora.voteEvent, Agora.ruleEvent]
      ((Inner.empty 3).cursors 1) = [Agora.voteEvent, Agora.ruleEvent] := by
    apply List.filter_eq_self.2
    intro event hevent
    rcases List.mem_pair.1 hevent with rfl | rfl
    · rw [Agora.claimedSeq_strayed.1]
      rfl
    · rw [Agora.claimedSeq_strayed.2]
      rfl
  have hturn : handle Agora.strayed (Agora.claimedAll.answers Agora.strayed) Agora.voteEvent
      (startOf 1 (.empty 3)) = none :=
    (handle_eq_none_iff Agora.strayed_settled List.mem_cons_self _).2
      (Agora.voteEvent_orphan _ rfl)
  rw [hahead, stops, hturn]

end Democrachat.Federation
