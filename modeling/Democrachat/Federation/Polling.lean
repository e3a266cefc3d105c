import Democrachat.Federation.Ingest
import Democrachat.Library.Ascending
import Mathlib.Logic.Function.Iterate

/-!
# Repeated polls of one feed

A feed that stays as it is, polled again and again: which of its events are still
ahead of the cursor, and what one poll leaves of them.
-/

namespace Democrachat

/-- Only the cursors differ. -/
def Inner.withCursors (s : Inner) (cursors : NodeId → Nat) : Inner :=
  { s with cursors := cursors }

theorem Inner.put_withCursors (s : Inner) (row : Row) (cursors : NodeId → Nat) :
    (s.withCursors cursors).put row = (s.put row).withCursors cursors := by
  cases row <;> unfold Inner.put Inner.withCursors <;> first
    | rfl
    | (simp only; split <;> rfl)

namespace Federation

open Library

theorem Change.apply_withCursors (c : Change) (s : Inner) (cursors : NodeId → Nat) :
    c.apply (s.withCursors cursors) = (c.apply s).withCursors cursors := by
  cases c with
  | put row => exact Inner.put_withCursors s row cursors
  | drop row => cases row <;> rfl
  | unreact p => rfl

def Progress.withCursors (p : Progress) (cursors : NodeId → Nat) : Progress :=
  ⟨p.high, p.replica.withCursors cursors⟩

section

variable (wire : Wire) (registry : Registry)

/-! ## The cursors play no part in a turn -/

theorem applyIncoming_withCursors (part : SignedPart) (s : Inner) (cursors : NodeId → Nat) :
    (applyIncoming wire part (s.withCursors cursors)).2 =
      (applyIncoming wire part s).2.withCursors cursors := by
  cases hchange : wire.change part with
  | error e => rw [applyIncoming_of_error hchange, applyIncoming_of_error hchange]
  | ok c =>
    rw [applyIncoming_of_change hchange, applyIncoming_of_change hchange]
    exact c.apply_withCursors s cursors

theorem handle_withCursors (event : ChangeEvent) (p : Progress) (cursors : NodeId → Nat) :
    handle wire registry event (p.withCursors cursors) =
      (handle wire registry event p).map (fun q => q.withCursors cursors) := by
  have hresolver : storeResolver (p.withCursors cursors).replica = storeResolver p.replica := rfl
  unfold handle
  rw [hresolver]
  cases authorize wire registry (storeResolver p.replica) event with
  | ok part =>
    have happly := applyIncoming_withCursors wire part p.replica cursors
    simp only [Progress.withCursors, happly, Option.map_some]
  | error e =>
    by_cases he : isTransient e = true
    · simp only [he, if_true, Option.map_none]
    · simp only [he, Bool.false_eq_true, if_false, Option.map_some]
      rfl

theorem stops_withCursors (events : List ChangeEvent) (p : Progress) (cursors : NodeId → Nat) :
    stops wire registry events (p.withCursors cursors) = stops wire registry events p := by
  induction events generalizing p with
  | nil => rfl
  | cons event events ih =>
    rw [stops, stops, handle_withCursors]
    cases handle wire registry event p with
    | none => rfl
    | some p' => exact ih p'

theorem drain_withCursors (events : List ChangeEvent) (p : Progress) (cursors : NodeId → Nat) :
    drain wire registry events (p.withCursors cursors) =
      (drain wire registry events p).withCursors cursors := by
  induction events generalizing p with
  | nil => rfl
  | cons event events ih =>
    rw [drain, drain, handle_withCursors]
    cases handle wire registry event p with
    | none => rfl
    | some p' => exact ih p'

/-! ## Where a batch stops -/

theorem stops_append (events events' : List ChangeEvent) (p : Progress) :
    stops wire registry (events ++ events') p =
      (stops wire registry events p ||
        stops wire registry events' (drain wire registry events p)) := by
  induction events generalizing p with
  | nil => rfl
  | cons event events ih =>
    cases hturn : handle wire registry event p with
    | none => simp only [List.cons_append, stops, hturn, Bool.true_or]
    | some p' =>
      simp only [List.cons_append, stops, drain, hturn]
      exact ih p'

/-- A batch comes as far as its events before the one that stops it. -/
theorem exists_done (events : List ChangeEvent) (p : Progress) :
    ∃ done rest, events = done ++ rest ∧ stops wire registry done p = false ∧
      drain wire registry events p = drain wire registry done p ∧
      stops wire registry rest (drain wire registry done p) = stops wire registry events p ∧
      (stops wire registry events p = false → rest = []) := by
  induction events generalizing p with
  | nil => exact ⟨[], [], rfl, rfl, rfl, rfl, fun _ => rfl⟩
  | cons event events ih =>
    cases hturn : handle wire registry event p with
    | none =>
      have hstops : stops wire registry (event :: events) p = true := by
        simp only [stops, hturn]
      refine ⟨[], event :: events, rfl, rfl, ?_, rfl, fun h => ?_⟩
      · simp only [drain, hturn]
      · rw [hstops] at h
        cases h
    | some p' =>
      obtain ⟨done, rest, hevents, hdone, hdrain, hrest, hend⟩ := ih p'
      refine ⟨event :: done, rest, congrArg _ hevents, ?_⟩
      simp only [stops, drain, hturn]
      exact ⟨hdone, hdrain, hrest, hend⟩

variable {wire registry}

theorem stops_eq_false_iff {events : List ChangeEvent} {p : Progress} :
    stops wire registry events p = false ↔
      ∀ before event after, events = before ++ event :: after →
        handle wire registry event (drain wire registry before p) ≠ none := by
  constructor
  · rintro h before event after rfl hturn
    rw [stops_append, Bool.or_eq_false_iff] at h
    have hstops := h.2
    simp only [stops, hturn, Bool.true_eq_false] at hstops
  · intro h
    induction events generalizing p with
    | nil => rfl
    | cons event events ih =>
      have hfirst := h [] event events rfl
      cases hturn : handle wire registry event p with
      | none => exact absurd hturn hfirst
      | some p' =>
        simp only [stops, hturn]
        apply ih
        intro before event' after hevents
        have hlater := h (event :: before) event' after (congrArg _ hevents)
        simpa only [drain, hturn] using hlater

/-! ## How far a batch comes -/

theorem handle_high {event : ChangeEvent} {p p' : Progress}
    (h : handle wire registry event p = some p') :
    p'.high = max p.high (claimedSeq wire event) := by
  unfold handle at h
  cases hauthorize : authorize wire registry (storeResolver p.replica) event with
  | ok part =>
    have hseq := claimedSeq_of_authenticate (authorize_eq_ok.1 hauthorize).1
    simp only [hauthorize, Option.some.injEq] at h
    rw [← h, hseq]
  | error e =>
    simp only [hauthorize] at h
    by_cases he : isTransient e = true
    · simp only [he, if_true, reduceCtorEq] at h
    · simp only [he, Bool.false_eq_true, if_false, Option.some.injEq] at h
      rw [← h]

theorem drain_high (events : List ChangeEvent) (p : Progress)
    (h : stops wire registry events p = false) :
    (drain wire registry events p).high =
      events.foldl (fun high event => max high (claimedSeq wire event)) p.high := by
  induction events generalizing p with
  | nil => rfl
  | cons event events ih =>
    cases hturn : handle wire registry event p with
    | none =>
      simp only [stops, hturn, Bool.true_eq_false] at h
    | some p' =>
      simp only [stops, hturn] at h
      simp only [drain, hturn, List.foldl_cons]
      rw [ih p' h, handle_high hturn]

end

/-! ## A feed that stays as it is -/

section

variable (wire : Wire) (registry : Registry) (peer : NodeId) (stream : List ChangeEvent)

/-- What is still ahead of a position. -/
def ahead (since : Nat) : List ChangeEvent :=
  stream.filter (fun event => since < claimedSeq wire event)

/-- A page of the feed; the peer clamps the limit of a request. -/
def servePage (since limit : Nat) : Except String (List ChangeEvent) :=
  .ok ((ahead wire stream since).take (min (max limit 1) 5000))

/-- One poll of the feed. -/
def poll (limit : Nat) (s : Inner) : Inner :=
  (pollPeer wire registry peer (servePage wire stream) limit s).2

variable {wire registry peer stream}

theorem startOf_ingest (events : List ChangeEvent) (s : Inner) :
    startOf peer (ingest wire registry peer events s).2 =
      (drain wire registry events (startOf peer s)).withCursors
        (ingest wire registry peer events s).2.cursors := by
  apply Progress.ext
  · exact ingest_cursor wire registry peer events s
  · have hstore := ingest_store wire registry peer events s
    change (ingest wire registry peer events s).2 =
      (drain wire registry events (startOf peer s)).replica.withCursors
        (ingest wire registry peer events s).2.cursors
    rw [hstore]
    rfl

theorem ingest_nil (s : Inner) : (ingest wire registry peer [] s).2 = s := by
  rw [ingest_store, drain, Inner.advanceCursor, Nat.max_self, Function.update_eq_self]

/-- A poll ingests the page; an empty page changes nothing. -/
theorem poll_eq_ingest (limit : Nat) (s : Inner) :
    poll wire registry peer stream limit s =
      (ingest wire registry peer
        ((ahead wire stream (s.cursors peer)).take (min (max limit 1) 5000)) s).2 := by
  unfold poll pollPeer servePage Inner.replicationCursor
  cases (ahead wire stream (s.cursors peer)).take (min (max limit 1) 5000) with
  | nil => exact (ingest_nil s).symm
  | cons event events => rfl

/-- One poll handles some of the events ahead, in order, and at least the first of them
where nothing stops it; the rest stays ahead. -/
theorem exists_polled (hstream : stream.Pairwise (fun e e' => claimedSeq wire e < claimedSeq wire e'))
    (limit : Nat) (s : Inner) :
    ∃ done rest, ahead wire stream (s.cursors peer) = done ++ rest ∧
      stops wire registry done (startOf peer s) = false ∧
      ahead wire stream ((poll wire registry peer stream limit s).cursors peer) = rest ∧
      (∃ cursors, startOf peer (poll wire registry peer stream limit s) =
        (drain wire registry done (startOf peer s)).withCursors cursors) ∧
      (stops wire registry (ahead wire stream (s.cursors peer)) (startOf peer s) = false →
        rest ≠ [] → done ≠ []) := by
  have hpage : ∃ page later, ahead wire stream (s.cursors peer) = page ++ later ∧
      (later ≠ [] → page ≠ []) ∧
      poll wire registry peer stream limit s = (ingest wire registry peer page s).2 := by
    refine ⟨_, _, (List.take_append_drop (min (max limit 1) 5000) _).symm, ?_,
      poll_eq_ingest limit s⟩
    intro hlater hpage
    have hnone := List.take_eq_nil_iff.1 hpage
    have hahead : ahead wire stream (s.cursors peer) = [] := by
      rcases hnone with hzero | hahead
      · omega
      · exact hahead
    rw [hahead, List.drop_nil] at hlater
    exact hlater rfl
  obtain ⟨page, later, hahead, hnonempty, hpoll⟩ := hpage
  obtain ⟨done, rest, hdone, hstops, hdrain, hrest, hend⟩ :=
    exists_done wire registry page (startOf peer s)
  have hstart : startOf peer (poll wire registry peer stream limit s) =
      (drain wire registry done (startOf peer s)).withCursors
        (poll wire registry peer stream limit s).cursors := by
    rw [hpoll, startOf_ingest, hdrain]
  have hsplit : ahead wire stream (s.cursors peer) = done ++ (rest ++ later) := by
    rw [hahead, hdone, List.append_assoc]
  refine ⟨done, rest ++ later, hsplit, hstops, ?_, ⟨_, hstart⟩, ?_⟩
  · have hhigh : (poll wire registry peer stream limit s).cursors peer =
        done.foldl (fun high event => max high (claimedSeq wire event)) (s.cursors peer) := by
      have hhigh := congrArg Progress.high hstart
      exact hhigh.trans (drain_high done (startOf peer s) hstops)
    unfold ahead
    rw [hhigh]
    exact filter_lt_of_append hstream hsplit
  · intro hnot hne
    rw [hahead, stops_append, Bool.or_eq_false_iff] at hnot
    have hnil := hend hnot.1
    rw [hnil, List.nil_append] at hne
    rw [hnil, List.append_nil] at hdone
    rw [← hdone]
    exact hnonempty hne

end

end Federation

end Democrachat
