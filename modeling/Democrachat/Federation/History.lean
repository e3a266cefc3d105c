import Democrachat.Federation.Ingest

/-!
# What a consumer has handled

The authentic events that had their turn over a sequence of batches, in order,
each with whether its change was applied.
-/

namespace Democrachat.Federation

/-- An authentic event that had its turn. -/
structure Handled where
  part : SignedPart
  isApplied : Bool

section

variable (wire : Wire) (registry : Registry)

/-- What the turn of an event leaves on record. -/
def handledBy (event : ChangeEvent) (p : Progress) : Option Handled :=
  match authorize wire registry (storeResolver p.replica) event with
  | .ok part =>
    match (applyIncoming wire part p.replica).1 with
    | .ok _ => some ⟨part, true⟩
    | .error _ => some ⟨part, false⟩
  | .error e =>
    if isTransient e then none
    else
      match authenticate wire registry event with
      | .ok part => some ⟨part, false⟩
      | .error _ => none

/-- The records of a batch, up to the event that stops it. -/
def drainLog : List ChangeEvent → Progress → List Handled
  | [], _ => []
  | event :: events, p =>
    match handle wire registry event p with
    | some p' => (handledBy wire registry event p).toList ++ drainLog events p'
    | none => []

/-- A part that was applied, and the scope under which it was accepted. -/
structure Application where
  part : SignedPart
  scope : OwnedScope

/-- What the turn of an event applies. -/
def appliedBy (event : ChangeEvent) (p : Progress) : Option Application :=
  match authorize wire registry (storeResolver p.replica) event with
  | .ok part =>
    match (classify part.entity part.payload).resolve (storeResolver p.replica),
        (applyIncoming wire part p.replica).1 with
    | .ok scope, .ok _ => some ⟨part, scope⟩
    | _, _ => none
  | .error _ => none

/-- What a batch applies, up to the event that stops it. -/
def applications : List ChangeEvent → Progress → List Application
  | [], _ => []
  | event :: events, p =>
    match handle wire registry event p with
    | some p' => (appliedBy wire registry event p).toList ++ applications events p'
    | none => []

end

/-- One call of `ingest`: what the registry answers, whose feed, and the batch. -/
structure Call where
  registry : Registry
  peer : NodeId
  events : List ChangeEvent

def Call.log (wire : Wire) (c : Call) (s : Inner) : List Handled :=
  drainLog wire c.registry c.events (startOf c.peer s)

def Call.run (wire : Wire) (c : Call) (s : Inner) : Inner :=
  (ingest wire c.registry c.peer c.events s).2

/-- The records of a sequence of calls. -/
def history (wire : Wire) : List Call → Inner → List Handled
  | [], _ => []
  | c :: calls, s => c.log wire s ++ history wire calls (c.run wire s)

section

variable {wire : Wire} {registry : Registry} {event : ChangeEvent} {p p' : Progress}

/-- A record is of an authentic event, which was authorized if it was applied, and
the batch has come at least as far. -/
theorem handledBy_spec {e : Handled} (hturn : handle wire registry event p = some p')
    (he : handledBy wire registry event p = some e) :
    authenticate wire registry event = .ok e.part ∧
      (e.isApplied = true →
        authorize wire registry (storeResolver p.replica) event = .ok e.part) ∧
      e.part.seq ≤ p'.high := by
  unfold handle at hturn
  unfold handledBy at he
  cases hauthorize : authorize wire registry (storeResolver p.replica) event with
  | ok part =>
    simp only [hauthorize, Option.some.injEq] at hturn he
    have hpart : e.part = part := by
      split at he
      next =>
        obtain rfl := Option.some.inj he
        rfl
      next =>
        obtain rfl := Option.some.inj he
        rfl
    rw [hpart, ← hturn]
    have hauthentic := (authorize_eq_ok.1 hauthorize).1
    exact ⟨hauthentic, fun _ => rfl, Nat.le_max_right _ _⟩
  | error e' =>
    simp only [hauthorize] at hturn he
    by_cases htransient : isTransient e' = true
    · simp only [htransient, if_true, reduceCtorEq] at hturn
    · simp only [htransient, Bool.false_eq_true, if_false, Option.some.injEq] at hturn he
      cases hauthentic : authenticate wire registry event with
      | error e'' => simp only [hauthentic, reduceCtorEq] at he
      | ok part =>
        simp only [hauthentic, Option.some.injEq] at he
        subst he
        subst hturn
        have hseq := claimedSeq_of_authenticate hauthentic
        refine ⟨rfl, fun happlied => ?_, ?_⟩
        · cases happlied
        · change part.seq ≤ max p.high (claimedSeq wire event)
          omega

theorem appliedBy_eq_some {event : ChangeEvent} {p : Progress} {a : Application} :
    appliedBy wire registry event p = some a ↔
      authorize wire registry (storeResolver p.replica) event = .ok a.part ∧
        (classify a.part.entity a.part.payload).resolve (storeResolver p.replica) = .ok a.scope ∧
        ∃ c, wire.change a.part = .ok c := by
  unfold appliedBy
  cases hauthorize : authorize wire registry (storeResolver p.replica) event with
  | error e => simp
  | ok part =>
    simp only [Except.ok.injEq]
    constructor
    · intro h
      cases hscope : (classify part.entity part.payload).resolve (storeResolver p.replica) with
      | error e => simp only [hscope, reduceCtorEq] at h
      | ok scope =>
        cases hchange : wire.change part with
        | error e =>
          simp only [hscope, applyIncoming_of_error hchange, reduceCtorEq] at h
        | ok c =>
          simp only [hscope, applyIncoming_of_change hchange, Option.some.injEq] at h
          subst h
          exact ⟨rfl, hscope, c, hchange⟩
    · rintro ⟨rfl, hscope, c, hchange⟩
      simp only [hscope, applyIncoming_of_change hchange]

theorem handle_of_appliedBy {event : ChangeEvent} {p : Progress} {a : Application}
    (h : appliedBy wire registry event p = some a) : handle wire registry event p ≠ none := by
  obtain ⟨hauthorize, -, -⟩ := appliedBy_eq_some.1 h
  unfold handle
  simp only [hauthorize, ne_eq, reduceCtorEq, not_false_eq_true]

/-- Each application has a turn of its own. -/
theorem mem_applications {events : List ChangeEvent} {p : Progress} {a : Application} :
    a ∈ applications wire registry events p ↔
      ∃ before event after, events = before ++ event :: after ∧
        stops wire registry before p = false ∧
        appliedBy wire registry event (drain wire registry before p) = some a := by
  induction events generalizing p with
  | nil => simp [applications]
  | cons event events ih =>
    cases hturn : handle wire registry event p with
    | none =>
      simp only [applications, hturn, List.not_mem_nil, false_iff]
      rintro ⟨before, event', after, hevents, hstops, happlied⟩
      cases before with
      | nil =>
        obtain ⟨rfl, -⟩ := List.cons.inj hevents
        exact handle_of_appliedBy happlied hturn
      | cons event'' before =>
        obtain ⟨rfl, -⟩ := List.cons.inj hevents
        simp only [stops, hturn, Bool.true_eq_false] at hstops
    | some p' =>
      simp only [applications, hturn, List.mem_append, Option.mem_toList, ih]
      constructor
      · rintro (hnow | ⟨before, event', after, hevents, hstops, happlied⟩)
        · exact ⟨[], event, events, rfl, rfl, hnow⟩
        · refine ⟨event :: before, event', after, congrArg _ hevents, ?_⟩
          simp only [stops, drain, hturn]
          exact ⟨hstops, happlied⟩
      · rintro ⟨before, event', after, hevents, hstops, happlied⟩
        cases before with
        | nil =>
          obtain ⟨rfl, -⟩ := List.cons.inj hevents
          exact .inl happlied
        | cons event'' before =>
          obtain ⟨rfl, hrest⟩ := List.cons.inj hevents
          simp only [stops, drain, hturn] at hstops happlied
          exact .inr ⟨before, event', after, hrest, hstops, happlied⟩

end

/-- A call moves no cursor but that of its peer. -/
theorem Call.run_cursors (wire : Wire) (c : Call) (s : Inner) (n : NodeId) :
    (c.run wire s).cursors n =
      if n = c.peer then (drain wire c.registry c.events (startOf c.peer s)).high
      else s.cursors n := by
  by_cases hn : n = c.peer
  · rw [hn, if_pos rfl]
    exact ingest_cursor wire c.registry c.peer c.events s
  · have hcursors := (drain_high_cursors wire c.registry c.events (startOf c.peer s)).2
    rw [if_neg hn, Call.run, ingest_store, Inner.advanceCursor]
    simp only [Function.update_of_ne hn]
    exact congrFun hcursors n

end Democrachat.Federation
