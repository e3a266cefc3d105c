import Democrachat.Federation.Replicator

/-!
# A batch as a sequence of turns

What `ingest` does to the replica and to the cursor, one event at a time, with
its report left out.
-/

namespace Democrachat.Federation

/-- How far a batch has come: the highest handled position and the replica. -/
@[ext] structure Progress where
  high : Nat
  replica : Inner

/-- Where a batch for the peer starts. -/
def startOf (peer : NodeId) (s : Inner) : Progress := ⟨s.cursors peer, s⟩

section

variable (wire : Wire) (registry : Registry)

/-- The position that an event claims for itself. -/
def claimedSeq (event : ChangeEvent) : Nat :=
  match wire.peek event with
  | .ok part => part.seq
  | .error _ => 0

theorem claimedSeq_of_authenticate {wire : Wire} {registry : Registry} {event : ChangeEvent}
    {part : SignedPart} (h : authenticate wire registry event = .ok part) :
    claimedSeq wire event = part.seq := by
  obtain ⟨key, hkey, hverify⟩ := authenticate_eq_ok.1 h
  have hparse := (Wire.verify_eq_ok.1 hverify).1
  simp only [claimedSeq, Wire.peek, hparse]

/-- What one event does, or nothing where it stops the batch. -/
def handle (event : ChangeEvent) (p : Progress) : Option Progress :=
  match authorize wire registry (storeResolver p.replica) event with
  | .ok part => some ⟨max p.high part.seq, (applyIncoming wire part p.replica).2⟩
  | .error e =>
    if isTransient e then none else some ⟨max p.high (claimedSeq wire event), p.replica⟩

/-- The batch, up to the first event that stops it. -/
def drain : List ChangeEvent → Progress → Progress
  | [], p => p
  | event :: events, p =>
    match handle wire registry event p with
    | some p' => drain events p'
    | none => p

/-- Some event stops the batch. -/
def stops : List ChangeEvent → Progress → Bool
  | [], _ => false
  | event :: events, p =>
    match handle wire registry event p with
    | some p' => stops events p'
    | none => true

theorem drain_append (events events' : List ChangeEvent) (p : Progress) :
    drain wire registry (events ++ events') p =
      if stops wire registry events p then drain wire registry events p
      else drain wire registry events' (drain wire registry events p) := by
  induction events generalizing p with
  | nil => simp [drain, stops]
  | cons event events ih =>
    cases hturn : handle wire registry event p with
    | none => simp only [List.cons_append, drain, stops, hturn, if_true]
    | some p' =>
      simp only [List.cons_append, drain, stops, hturn]
      exact ih p'

/-- What every event that is let in keeps, the batch keeps. -/
theorem drain_invariant (I : Inner → Prop) (events : List ChangeEvent)
    (hkeeps : ∀ event ∈ events, ∀ part s,
      authorize wire registry (storeResolver s) event = .ok part → I s →
        I (applyIncoming wire part s).2)
    {p : Progress} (h : I p.replica) : I (drain wire registry events p).replica := by
  induction events generalizing p with
  | nil => exact h
  | cons event events ih =>
    have hrest : ∀ p', I p'.replica → I (drain wire registry events p').replica := by
      intro p' hp'
      exact ih (fun e he => hkeeps e (List.mem_cons_of_mem _ he)) hp'
    rw [drain]
    cases hturn : handle wire registry event p with
    | none => exact h
    | some p' =>
      apply hrest
      unfold handle at hturn
      split at hturn
      next part hpart =>
        obtain rfl := Option.some.inj hturn
        exact hkeeps event List.mem_cons_self part p.replica hpart h
      next =>
        split at hturn
        next => cases hturn
        next =>
          obtain rfl := Option.some.inj hturn
          exact h

/-- An error leaves the replica as it was. -/
theorem applyIncoming_error {part : SignedPart} {s : Inner} {e : String}
    (h : (applyIncoming wire part s).1 = .error e) : (applyIncoming wire part s).2 = s := by
  cases hchange : wire.change part with
  | ok c =>
    rw [applyIncoming_of_change hchange] at h
    cases h
  | error e => rw [applyIncoming_of_error hchange]

theorem ingestLoop_eq (events : List ChangeEvent) (high : Nat) (s : Inner) (out : Ingested) :
    (ingestLoop wire registry events high s out).1 =
        (drain wire registry events ⟨high, s⟩).high ∧
      (ingestLoop wire registry events high s out).2.1 =
        (drain wire registry events ⟨high, s⟩).replica := by
  induction events generalizing high s out with
  | nil => exact ⟨rfl, rfl⟩
  | cons event events ih =>
    simp only [ingestLoop, drain, handle]
    cases authorize wire registry (storeResolver s) event with
    | ok part =>
      cases hresult : applyIncoming wire part s with
      | mk result s' =>
        cases result with
        | ok _ =>
          simp only [hresult]
          exact ih _ _ _
        | error e =>
          simp only [hresult]
          exact ih _ _ _
    | error e =>
      by_cases he : isTransient e = true
      · simp [he]
      · simp only [he]
        exact ih _ _ _

/-- The store after `ingest`. -/
theorem ingest_store (peer : NodeId) (events : List ChangeEvent) (s : Inner) :
    (ingest wire registry peer events s).2 =
      (drain wire registry events ⟨s.cursors peer, s⟩).replica.advanceCursor peer
        (drain wire registry events ⟨s.cursors peer, s⟩).high := by
  obtain ⟨hhigh, hreplica⟩ := ingestLoop_eq wire registry events (s.cursors peer) s .none
  have hingest : (ingest wire registry peer events s).2 =
      (ingestLoop wire registry events (s.cursors peer) s .none).2.1.advanceCursor peer
        (ingestLoop wire registry events (s.cursors peer) s .none).1 := rfl
  rw [hingest, hhigh, hreplica]

/-- One event that is let in. -/
theorem ingest_singleton {peer : NodeId} {event : ChangeEvent} {s : Inner} {part : SignedPart}
    (h : authorize wire registry (storeResolver s) event = .ok part) :
    (ingest wire registry peer [event] s).2 =
      (applyIncoming wire part s).2.advanceCursor peer (max (s.cursors peer) part.seq) := by
  rw [ingest_store]
  simp only [drain, handle, h]

/-! ## What a turn leaves alone -/

/-- What a peer's rows leave alone: the cursors and this node's own outbox. -/
def ownOf (s : Inner) : (NodeId → Nat) × List Democrachat.ChangeRecord × Nat :=
  (s.cursors, s.outbox, s.nextOutbox)

theorem put_own (s : Inner) (r : Row) : ownOf (s.put r) = ownOf s := by
  cases r <;> unfold Inner.put <;> first | rfl | (simp only; split <;> rfl)

theorem drop_own (s : Inner) (r : Row) : ownOf (s.drop r) = ownOf s := by
  cases r <;> rfl

theorem applyIncoming_own (part : SignedPart) (s : Inner) :
    ownOf (applyIncoming wire part s).2 = ownOf s := by
  cases hchange : wire.change part with
  | error e => rw [applyIncoming_of_error hchange]
  | ok c =>
    rw [applyIncoming_of_change hchange]
    cases c with
    | put row => exact put_own s row
    | drop row => exact drop_own s row
    | unreact p => rfl

/-- A turn never moves back and touches nothing of this node's own. -/
theorem handle_eq_some {event : ChangeEvent} {p p' : Progress}
    (h : handle wire registry event p = some p') :
    p.high ≤ p'.high ∧ ownOf p'.replica = ownOf p.replica := by
  unfold handle at h
  split at h
  next part _ =>
    obtain rfl := Option.some.inj h
    exact ⟨Nat.le_max_left _ _, applyIncoming_own wire part p.replica⟩
  next =>
    split at h
    next => cases h
    next =>
      obtain rfl := Option.some.inj h
      exact ⟨Nat.le_max_left _ _, rfl⟩

theorem drain_high_own (events : List ChangeEvent) (p : Progress) :
    p.high ≤ (drain wire registry events p).high ∧
      ownOf (drain wire registry events p).replica = ownOf p.replica := by
  induction events generalizing p with
  | nil => exact ⟨Nat.le_refl _, rfl⟩
  | cons event events ih =>
    rw [drain]
    cases hturn : handle wire registry event p with
    | none => exact ⟨Nat.le_refl _, rfl⟩
    | some p' =>
      obtain ⟨hhigh, hown⟩ := handle_eq_some wire registry hturn
      obtain ⟨hhigh', hown'⟩ := ih p'
      exact ⟨Nat.le_trans hhigh hhigh', hown'.trans hown⟩

theorem drain_high_cursors (events : List ChangeEvent) (p : Progress) :
    p.high ≤ (drain wire registry events p).high ∧
      (drain wire registry events p).replica.cursors = p.replica.cursors := by
  obtain ⟨hhigh, hown⟩ := drain_high_own wire registry events p
  exact ⟨hhigh, congrArg Prod.fst hown⟩

/-- Nothing that is ingested is echoed into this node's own outbox. -/
theorem ingest_outbox (peer : NodeId) (events : List ChangeEvent) (s : Inner) :
    (ingest wire registry peer events s).2.outbox = s.outbox ∧
      (ingest wire registry peer events s).2.nextOutbox = s.nextOutbox := by
  have hown := (drain_high_own wire registry events ⟨s.cursors peer, s⟩).2
  rw [ingest_store]
  exact ⟨congrArg (fun own => own.2.1) hown, congrArg (fun own => own.2.2) hown⟩

/-- The cursor ends where the batch did. -/
theorem ingest_cursor (peer : NodeId) (events : List ChangeEvent) (s : Inner) :
    (ingest wire registry peer events s).2.cursors peer =
      (drain wire registry events ⟨s.cursors peer, s⟩).high := by
  obtain ⟨hhigh, hcursors⟩ := drain_high_cursors wire registry events ⟨s.cursors peer, s⟩
  rw [ingest_store, Inner.advanceCursor]
  simp only [Function.update_self, hcursors]
  exact Nat.max_eq_right hhigh

end

end Democrachat.Federation
