import Democrachat.Federation.History
import Democrachat.Properties.Unauthentic

/-!
# Replayed events

`ingest` leaves it to its caller that what it is given lies past the cursor.
-/

namespace Democrachat.Federation

/-- An event is applied only past the cursor that the consumer began with and past
every event of its node that was handled before. -/
def NoReplay (s : Inner) (log : List Handled) : Prop :=
  (∀ e ∈ log, e.isApplied = true → s.cursors e.part.node < e.part.seq) ∧
    log.Pairwise (fun e e' => e'.isApplied = true → e.part.node = e'.part.node →
      e.part.seq < e'.part.seq)

/-- At its turn, an event that is let through is of the peer and past the position
reached, and one that is skipped for good is at least of the peer. -/
def isInOrder (wire : Wire) (registry : Registry) (peer : NodeId) (event : ChangeEvent)
    (p : Progress) : Bool :=
  match authorize wire registry (storeResolver p.replica) event with
  | .ok part => part.node == peer && decide (p.high < part.seq)
  | .error e =>
    isTransient e ||
      match authenticate wire registry event with
      | .ok part => part.node == peer
      | .error _ => true

/-- Every event of a batch that has its turn is in order. -/
def allInOrder (wire : Wire) (registry : Registry) (peer : NodeId) :
    List ChangeEvent → Progress → Bool
  | [], _ => true
  | event :: events, p =>
    isInOrder wire registry peer event p &&
      match handle wire registry event p with
      | some p' => allInOrder wire registry peer events p'
      | none => true

/-- Every batch of a sequence of calls is in order. -/
def Ordered (wire : Wire) : List Call → Inner → Prop
  | [], _ => True
  | c :: calls, s =>
    allInOrder wire c.registry c.peer c.events (startOf c.peer s) = true ∧
      Ordered wire calls (c.run wire s)

section

variable {wire : Wire} {registry : Registry} {peer : NodeId}

theorem handledBy_of_inOrder {event : ChangeEvent} {p p' : Progress} {e : Handled}
    (horder : isInOrder wire registry peer event p = true)
    (hturn : handle wire registry event p = some p')
    (he : handledBy wire registry event p = some e) :
    e.part.node = peer ∧ (e.isApplied = true → p.high < e.part.seq) ∧ e.part.seq ≤ p'.high := by
  obtain ⟨hauthentic, happlied, hseq⟩ := handledBy_spec hturn he
  unfold isInOrder at horder
  cases hauthorize : authorize wire registry (storeResolver p.replica) event with
  | ok part =>
    have hpart : part = e.part := by
      have hauthentic' := (authorize_eq_ok.1 hauthorize).1
      rw [hauthentic] at hauthentic'
      exact (Except.ok.inj hauthentic').symm
    simp only [hauthorize, hpart, Bool.and_eq_true, beq_iff_eq, decide_eq_true_eq] at horder
    exact ⟨horder.1, fun _ => horder.2, hseq⟩
  | error e' =>
    rw [hauthorize] at happlied
    have hnot : e.isApplied ≠ true := fun h => by cases happlied h
    unfold handle at hturn
    simp only [hauthorize] at horder hturn
    by_cases htransient : isTransient e' = true
    · simp only [htransient, if_true, reduceCtorEq] at hturn
    · simp only [htransient, hauthentic, Bool.false_or, beq_iff_eq] at horder
      exact ⟨horder, fun h => absurd h hnot, hseq⟩

/-- What a batch that is in order leaves on record: events of the peer between where
it started and where it ended, each applied one past all before it. -/
theorem drainLog_of_inOrder (events : List ChangeEvent) (p : Progress)
    (horder : allInOrder wire registry peer events p = true) :
    (∀ e ∈ drainLog wire registry events p, e.part.node = peer ∧
        (e.isApplied = true → p.high < e.part.seq) ∧
        e.part.seq ≤ (drain wire registry events p).high) ∧
      (drainLog wire registry events p).Pairwise (fun e e' => e'.isApplied = true →
        e.part.node = e'.part.node → e.part.seq < e'.part.seq) := by
  induction events generalizing p with
  | nil => exact ⟨fun e he => (nomatch he), List.Pairwise.nil⟩
  | cons event events ih =>
    cases hturn : handle wire registry event p with
    | none =>
      simp only [drainLog, hturn]
      exact ⟨fun e he => (nomatch he), List.Pairwise.nil⟩
    | some p' =>
      simp only [drainLog, drain, hturn]
      simp only [allInOrder, hturn, Bool.and_eq_true] at horder
      obtain ⟨hlater, hpairs⟩ := ih p' horder.2
      have hhigh := (handle_eq_some wire registry hturn).1
      have hend := (drain_high_cursors wire registry events p').1
      have hfirst : ∀ e ∈ (handledBy wire registry event p).toList, e.part.node = peer ∧
          (e.isApplied = true → p.high < e.part.seq) ∧ e.part.seq ≤ p'.high := by
        intro e he
        exact handledBy_of_inOrder horder.1 hturn (Option.mem_toList.1 he)
      constructor
      · intro e he
        rcases List.mem_append.1 he with he | he
        · obtain ⟨hnode, hpast, hseq⟩ := hfirst e he
          exact ⟨hnode, hpast, by omega⟩
        · obtain ⟨hnode, hpast, hseq⟩ := hlater e he
          refine ⟨hnode, fun happlied => ?_, hseq⟩
          have hlt := hpast happlied
          omega
      · apply List.pairwise_append.2
        refine ⟨?_, hpairs, fun e he e' he' happlied _ => ?_⟩
        · cases handledBy wire registry event p with
          | none => exact List.Pairwise.nil
          | some e => exact List.pairwise_singleton _ e
        · have hseq := (hfirst e he).2.2
          have hpast := (hlater e' he').2.1 happlied
          omega

end

/-- The cursor of a node only moves forward. -/
theorem Call.cursors_le_run (wire : Wire) (c : Call) (s : Inner) (n : NodeId) :
    s.cursors n ≤ (c.run wire s).cursors n := by
  rw [Call.run_cursors]
  by_cases hn : n = c.peer
  · rw [hn, if_pos rfl]
    exact (drain_high_cursors wire c.registry c.events (startOf c.peer s)).1
  · rw [if_neg hn]

/-- Where every batch holds only what its peer signed, in ascending order and past the
position reached, no event is ever applied again and none that is older than one
handled before. -/
theorem no_replay_of_ordered (wire : Wire) (calls : List Call) (s : Inner)
    (hordered : Ordered wire calls s) : NoReplay s (history wire calls s) := by
  -- The cursor is above all that is on record of its node.
  induction calls generalizing s with
  | nil => exact ⟨fun e he => (nomatch he), List.Pairwise.nil⟩
  | cons c calls ih =>
    obtain ⟨horder, hrest⟩ := hordered
    obtain ⟨hfirst, hpairs⟩ := drainLog_of_inOrder c.events (startOf c.peer s) horder
    obtain ⟨hpast, hlater⟩ := ih (c.run wire s) hrest
    constructor
    · intro e he happlied
      rcases List.mem_append.1 he with he | he
      · obtain ⟨hnode, hseq, -⟩ := hfirst e he
        rw [hnode]
        exact hseq happlied
      · have hcursor := hpast e he happlied
        have hle := Call.cursors_le_run wire c s e.part.node
        omega
    · apply List.pairwise_append.2
      refine ⟨hpairs, hlater, fun e he e' he' happlied hsame => ?_⟩
      obtain ⟨hnode, -, hseq⟩ := hfirst e he
      have hcursor := hpast e' he' happlied
      rw [← hsame, hnode, Call.run_cursors, if_pos rfl] at hcursor
      omega

section

variable {wire : Wire} {registry : Registry} {event event' : ChangeEvent} {part part' : SignedPart}
  (h : ∀ s, authorize wire registry (storeResolver s) event = .ok part)
  (h' : ∀ s, authorize wire registry (storeResolver s) event' = .ok part')

include h h'

/-- Two accepted events of one feed, one batch each. -/
theorem ordered_pair (s : Inner) (hpast : s.cursors part.node < part.seq)
    (hnode : part'.node = part.node) (hseq : part.seq < part'.seq) :
    Ordered wire [⟨registry, part.node, [event]⟩, ⟨registry, part.node, [event']⟩] s := by
  have hend : ((⟨registry, part.node, [event]⟩ : Call).run wire s).cursors part.node = part.seq := by
    rw [Call.run_cursors, if_pos rfl]
    simp only [drain, handle, startOf, h]
    omega
  refine ⟨?_, ?_, trivial⟩
  · simp only [allInOrder, isInOrder, startOf, handle, h, beq_self_eq_true, hpast, decide_true,
      Bool.and_self]
  · simp only [allInOrder, isInOrder, startOf, handle, h', hend, hnode, beq_self_eq_true, hseq,
      decide_true, Bool.and_self]

/-- Presented once more, the first of two accepted events is applied once more. -/
theorem history_of_replay (peer : NodeId) (s : Inner)
    (happlied : ∀ s, (applyIncoming wire part s).1 = .ok ())
    (happlied' : ∀ s, (applyIncoming wire part' s).1 = .ok ()) :
    history wire [⟨registry, peer, [event, event']⟩, ⟨registry, peer, [event]⟩] s =
      [⟨part, true⟩, ⟨part', true⟩, ⟨part, true⟩] := by
  simp [history, Call.log, drainLog, handle, handledBy, h, h', happlied, happlied']

end

namespace Agora

/-- The first rule of node 1's server, and what it is amended to. -/
def first : SignedPart := rulePart 1 1 1 (rule 1 1 1)

def second : SignedPart := rulePart 1 1 2 { rule 1 1 1 with text := "be fair" }

def both : Wire := wire [first, second]

def firstEvent : ChangeEvent := both.signEvent (keypair 1) first

def secondEvent : ChangeEvent := both.signEvent (keypair 1) second

/-- A batch of node 1's feed. -/
def pulled (events : List ChangeEvent) : Call := ⟨owned.answers both, 1, events⟩

theorem texts_differ : (renderPart first == renderPart second) = false := by
  decide +kernel

theorem first_accepted (s : Inner) :
    authorize both (owned.answers both) (storeResolver s) firstEvent = .ok first := by
  apply accepted_of_parse
  · rfl
  · exact Nat.le_refl 1
  · rfl
  · exact (parse_pair texts_differ).1

theorem second_accepted (s : Inner) :
    authorize both (owned.answers both) (storeResolver s) secondEvent = .ok second := by
  apply accepted_of_parse
  · rfl
  · exact Nat.le_refl 1
  · rfl
  · exact (parse_pair texts_differ).2

end Agora

theorem no_replay_agora :
    NoReplay (.empty 3) (history Agora.both
      [Agora.pulled [Agora.firstEvent], Agora.pulled [Agora.secondEvent]] (.empty 3)) :=
  no_replay_of_ordered Agora.both _ (.empty 3)
    (ordered_pair Agora.first_accepted Agora.second_accepted (.empty 3) (by decide) rfl (by decide))

/-- The event of the first text, captured and presented once more, brings it back. -/
theorem replay_reverts :
    ¬ NoReplay (.empty 3) (history Agora.both
      [Agora.pulled [Agora.firstEvent, Agora.secondEvent], Agora.pulled [Agora.firstEvent]]
      (.empty 3)) := by
  unfold Agora.pulled
  rw [history_of_replay Agora.first_accepted Agora.second_accepted 1 (.empty 3) (fun _ => rfl)
    (fun _ => rfl)]
  intro hnone
  have hpairs := hnone.2
  simp [Agora.first, Agora.second, Agora.rulePart] at hpairs

end Democrachat.Federation
