import Democrachat.Federation.Ingest
import Democrachat.Properties.FeedProgress

/-!
# Unauthenticated events

The position of a refused event is read before its signature is checked, a
refusal for want of a key stops the batch, and an event of another node goes
through the same gate as one of the peer.
-/

namespace Democrachat.Federation

section

variable (wire : Wire) (registry : Registry)

/-- Signed by the published key of its node, and of the peer who sent it. -/
def isGenuine (peer : NodeId) (event : ChangeEvent) : Bool :=
  match authenticate wire registry event with
  | .ok part => part.node == peer
  | .error _ => false

/-- The turn of the event moves the position or changes the replica. -/
def HasEffect (event : ChangeEvent) (p : Progress) : Prop :=
  match authorize wire registry (storeResolver p.replica) event with
  | .ok part => p.high < part.seq ∨ (applyIncoming wire part p.replica).2 ≠ p.replica
  | .error e => isTransient e = false ∧ p.high < claimedSeq wire event

/-- The event is refused until something else has happened. -/
def IsHeldUp (event : ChangeEvent) (p : Progress) : Prop :=
  ∃ e, authorize wire registry (storeResolver p.replica) event = .error e ∧ isTransient e = true

/-- The event has no effect, and keeps none from having one. -/
def Harmless (event : ChangeEvent) (p : Progress) : Prop :=
  ¬ HasEffect wire registry event p ∧
    (IsHeldUp wire registry event p → ∀ event', ¬ HasEffect wire registry event' p)

variable {wire registry} {event : ChangeEvent} {p : Progress}

theorem handle_eq_none : handle wire registry event p = none ↔ IsHeldUp wire registry event p := by
  unfold handle IsHeldUp
  cases authorize wire registry (storeResolver p.replica) event with
  | ok part => simp
  | error e => simp

theorem ne_iff {q : Progress} :
    (∃ p', some q = some p' ∧ p' ≠ p) ↔ q.high ≠ p.high ∨ q.replica ≠ p.replica := by
  rw [← not_and_or, ← Progress.ext_iff]
  constructor
  · rintro ⟨p', hq, hne⟩
    obtain rfl := Option.some.inj hq
    exact hne
  · exact fun hne => ⟨q, rfl, hne⟩

theorem hasEffect_iff :
    HasEffect wire registry event p ↔ ∃ p', handle wire registry event p = some p' ∧ p' ≠ p := by
  unfold HasEffect handle
  cases authorize wire registry (storeResolver p.replica) event with
  | ok part =>
    rw [ne_iff]
    have hhigh : p.high < part.seq ↔ max p.high part.seq ≠ p.high := by omega
    simp only [hhigh]
  | error e =>
    by_cases he : isTransient e = true
    · simp [he]
    · simp only [Bool.not_eq_true] at he
      simp only [he, Bool.false_eq_true, if_false]
      rw [ne_iff]
      have hhigh : p.high < claimedSeq wire event ↔ max p.high (claimedSeq wire event) ≠ p.high := by
        omega
      simp only [hhigh, true_and, ne_eq, not_true_eq_false, or_false]

theorem drain_cons_of_hasEffect (h : HasEffect wire registry event p) :
    drain wire registry [event] p ≠ p := by
  obtain ⟨p', hturn, hne⟩ := hasEffect_iff.1 h
  simp only [drain, hturn]
  exact hne

/-- A turn without an effect is the identity, unless it stops the batch. -/
theorem handle_of_not_hasEffect (h : ¬ HasEffect wire registry event p)
    (hheld : ¬ IsHeldUp wire registry event p) : handle wire registry event p = some p := by
  cases hturn : handle wire registry event p with
  | none => exact absurd (handle_eq_none.1 hturn) hheld
  | some p' =>
    by_contra hne
    exact h (hasEffect_iff.2 ⟨p', hturn, fun heq => hne (congrArg some heq)⟩)

theorem drain_eq_self (events : List ChangeEvent)
    (h : ∀ event, ¬ HasEffect wire registry event p) : drain wire registry events p = p := by
  induction events with
  | nil => rfl
  | cons event events ih =>
    rw [drain]
    by_cases hheld : IsHeldUp wire registry event p
    · rw [handle_eq_none.2 hheld]
    · rw [handle_of_not_hasEffect (h event) hheld]
      exact ih

/-- An event can be left out of every batch exactly when it is harmless. -/
theorem drain_cons_eq_iff :
    (∀ events, drain wire registry (event :: events) p = drain wire registry events p) ↔
      Harmless wire registry event p := by
  constructor
  · intro h
    refine ⟨fun heffect => drain_cons_of_hasEffect heffect (h []), fun hheld event' heffect => ?_⟩
    have hstop := h [event']
    rw [drain, handle_eq_none.2 hheld] at hstop
    exact drain_cons_of_hasEffect heffect hstop.symm
  · rintro ⟨hnone, hlater⟩ events
    rw [drain]
    by_cases hheld : IsHeldUp wire registry event p
    · rw [handle_eq_none.2 hheld]
      exact (drain_eq_self events (hlater hheld)).symm
    · rw [handle_of_not_hasEffect hnone hheld]

/-- An event refused for its bytes or its signature is harmless where it claims
no position beyond the one reached. -/
theorem harmless_of_fed {e : FedError} (h : authenticate wire registry event = .error (.fed e))
    (hseq : claimedSeq wire event ≤ p.high) : Harmless wire registry event p := by
  have hauthorize : authorize wire registry (storeResolver p.replica) event = .error (.fed e) := by
    rw [authorize, h]
    rfl
  constructor
  · unfold HasEffect
    rw [hauthorize]
    rintro ⟨-, hlt⟩
    exact Nat.not_lt.2 hseq hlt
  · rintro ⟨e', he', htransient⟩
    rw [hauthorize] at he'
    obtain rfl := Except.error.inj he'
    cases htransient

/-- Harmless events can be left out all together. -/
theorem drain_filter_eq {genuine : ChangeEvent → Bool} (events : List ChangeEvent)
    (h : ∀ before event after, events = before ++ event :: after → genuine event = false →
      stops wire registry before p = true ∨
        Harmless wire registry event (drain wire registry before p)) :
    drain wire registry events p = drain wire registry (events.filter genuine) p := by
  induction events generalizing p with
  | nil => rfl
  | cons event events ih =>
    cases hgenuine : genuine event with
    | true =>
      rw [List.filter_cons_of_pos hgenuine, drain, drain]
      cases hturn : handle wire registry event p with
      | none => rfl
      | some p' =>
        refine ih (fun before event' after hevents hfalse => ?_)
        have hlater := h (event :: before) event' after (congrArg _ hevents) hfalse
        simpa only [stops, drain, hturn] using hlater
    | false =>
      have hfirst : Harmless wire registry event p := by
        have hhead := h [] event events rfl hgenuine
        simpa only [stops, drain, Bool.false_eq_true, false_or] using hhead
      rw [List.filter_cons_of_neg (by simp [hgenuine]), drain_cons_eq_iff.2 hfirst]
      refine ih (fun before event' after hevents hfalse => ?_)
      have hlater := h (event :: before) event' after (congrArg _ hevents) hfalse
      by_cases hheld : IsHeldUp wire registry event p
      · have hidle := hfirst.2 hheld
        right
        rw [drain_eq_self before hidle]
        exact ⟨hidle event', fun _ => hidle⟩
      · simpa only [stops, drain, handle_of_not_hasEffect hfirst.1 hheld] using hlater

end

/-! ## In the store -/

section Store

variable (wire : Wire) (registry : Registry) (peer : NodeId) (s : Inner)

/-- Two batches leave the same store exactly when they come equally far. -/
theorem ingest_eq_iff (events events' : List ChangeEvent) :
    (ingest wire registry peer events s).2 = (ingest wire registry peer events' s).2 ↔
      drain wire registry events (startOf peer s) = drain wire registry events' (startOf peer s) := by
  constructor
  · intro h
    refine Progress.ext ?_ ?_
    · have hcursor := ingest_cursor wire registry peer events s
      have hcursor' := ingest_cursor wire registry peer events' s
      rw [h, hcursor'] at hcursor
      exact hcursor.symm
    · -- The stores differ from the replicas in the cursors alone.
      have hcursors : (drain wire registry events ⟨s.cursors peer, s⟩).replica.cursors =
          s.cursors :=
        (drain_high_cursors wire registry events (startOf peer s)).2
      have hcursors' : (drain wire registry events' ⟨s.cursors peer, s⟩).replica.cursors =
          s.cursors :=
        (drain_high_cursors wire registry events' (startOf peer s)).2
      have hrest := congrArg (fun t : Inner => { t with cursors := s.cursors }) h
      simp only [ingest_store, Inner.advanceCursor] at hrest
      have hself : ∀ t : Inner, t.cursors = s.cursors → { t with cursors := s.cursors } = t := by
        intro t ht
        rw [← ht]
      rw [hself _ hcursors, hself _ hcursors'] at hrest
      exact hrest
  · intro h
    have h : drain wire registry events ⟨s.cursors peer, s⟩ =
        drain wire registry events' ⟨s.cursors peer, s⟩ := h
    rw [ingest_store, ingest_store, h]

end Store

/-- At any point of any batch: an event that is not genuine can be left out,
whatever follows it, exactly when the batch stopped before or its own turn is
harmless; and a batch whose events that are not genuine are all so leaves the store
that its genuine events alone leave. -/
theorem unauthentic_inert_iff (wire : Wire) (registry : Registry) (peer : NodeId) (s : Inner) :
    (∀ before event, isGenuine wire registry peer event = false →
      ((∀ after, (ingest wire registry peer (before ++ event :: after) s).2 =
          (ingest wire registry peer (before ++ after) s).2) ↔
        stops wire registry before (startOf peer s) = true ∨
          Harmless wire registry event (drain wire registry before (startOf peer s)))) ∧
    ∀ events,
      (∀ before event after, events = before ++ event :: after →
        isGenuine wire registry peer event = false →
        stops wire registry before (startOf peer s) = true ∨
          Harmless wire registry event (drain wire registry before (startOf peer s))) →
      (ingest wire registry peer events s).2 =
        (ingest wire registry peer (events.filter (isGenuine wire registry peer)) s).2 := by
  have hevent : ∀ before event,
      (∀ after, drain wire registry (before ++ event :: after) (startOf peer s) =
          drain wire registry (before ++ after) (startOf peer s)) ↔
        stops wire registry before (startOf peer s) = true ∨
          Harmless wire registry event (drain wire registry before (startOf peer s)) := by
    intro before event
    simp only [drain_append]
    by_cases hstop : stops wire registry before (startOf peer s) = true
    · simp [hstop]
    · simp only [hstop, Bool.false_eq_true, if_false, false_or]
      exact drain_cons_eq_iff
  refine ⟨fun before event _ => ?_, fun events h => ?_⟩
  · simp only [ingest_eq_iff]
    exact hevent before event
  · rw [ingest_eq_iff]
    exact drain_filter_eq events h

namespace Agora

/-- The signed part of a rule in a feed. -/
def rulePart (node : NodeId) (epoch seq : Nat) (r : Rule) : SignedPart :=
  ⟨node, epoch, seq, .server r.serverId, "rules", .upsert, rulePayload r⟩

/-- Node 1 owns its first server. -/
def owned : InMemoryRegistry := (keyed.claim (server 1) 1).2

/-- The rule under a signature of zeros, at the last position there is. -/
def forged : ChangeEvent :=
  ⟨renderPart (rulePart 1 1 (2 ^ 64 - 1) (rule 1 1 1)), toHex (List.replicate 64 0)⟩

def forgery : Wire := wire [rulePart 1 1 (2 ^ 64 - 1) (rule 1 1 1)]

/-- What node 1 signs is authentic wherever its key is published, as far as it reads back. -/
theorem authenticate_of_parse {parts : List SignedPart} {part : SignedPart}
    {r : InMemoryRegistry} (hkeys : r.keys = keyed.keys) (hnode : part.node = 1)
    (hparse : (wire parts).parse (renderPart part) = some part) :
    authenticate (wire parts) (r.answers (wire parts))
      ((wire parts).signEvent (keypair 1) part) = .ok part := by
  have hanswer : (r.answers (wire parts)).publicKey part.node =
      .ok (some ((wire parts).public_ (keypair 1))) := by
    rw [hnode]
    exact publicKey_of_keys (.inl rfl) hkeys
  apply authenticate_eq_ok.2
  exact ⟨_, hanswer, Wire.verify_signEvent (wire_signs parts) hnode hparse⟩

/-- What it signs for a scope that it owns is accepted. -/
theorem accepted_of_owner {parts : List SignedPart} {part : SignedPart} {s : Inner}
    {r : InMemoryRegistry} {scope : OwnedScope} {epoch : Nat} (hkeys : r.keys = keyed.keys)
    (hnode : part.node = 1) (howner : r.owners scope = some (1, epoch)) (hepoch : epoch ≤ part.epoch)
    (hscope : (classify part.entity part.payload).resolve (storeResolver s) = .ok scope)
    (hparse : (wire parts).parse (renderPart part) = some part) :
    authorize (wire parts) (r.answers (wire parts)) (storeResolver s)
      ((wire parts).signEvent (keypair 1) part) = .ok part := by
  have hanswer : (r.answers (wire parts)).ownerOf scope = .ok (some ⟨scope, 1, epoch⟩) := by
    change Except.ok (r.ownerOf scope) = _
    rw [InMemoryRegistry.ownerOf, howner]
    rfl
  apply authorize_eq_ok.2
  constructor
  · exact authenticate_of_parse hkeys hnode hparse
  · exact ⟨scope, hscope, checkOwner_eq_ok.2 ⟨rfl, _, hanswer, hnode.symm, hepoch⟩⟩

theorem accepted_of_parse {parts : List SignedPart} {part : SignedPart} {s : Inner}
    (hnode : part.node = 1) (hepoch : 1 ≤ part.epoch)
    (hscope : (classify part.entity part.payload).resolve (storeResolver s) = .ok (server 1))
    (hparse : (wire parts).parse (renderPart part) = some part) :
    authorize (wire parts) (owned.answers (wire parts)) (storeResolver s)
      ((wire parts).signEvent (keypair 1) part) = .ok part :=
  accepted_of_owner rfl hnode rfl hepoch hscope hparse

/-- The wire with other readers of accounts and of friendships. -/
def widened (parts : List SignedPart) (user : Value → Except String User)
    (friendship : Value → Except String Friendship) : Wire :=
  { wire parts with user, friendship }

section Widened

variable (user : Value → Except String User) (friendship : Value → Except String Friendship)

theorem widened_signs (parts : List SignedPart) : (widened parts user friendship).Signs where
  length := (wire_signs parts).length
  verify := (wire_signs parts).verify

/-- The readers play no part in what is accepted. -/
theorem widened_accepted {part : SignedPart} {s : Inner} {r : InMemoryRegistry}
    {scope : OwnedScope} {epoch : Nat} (hkeys : r.keys = keyed.keys) (hnode : part.node = 1)
    (howner : r.owners scope = some (1, epoch)) (hepoch : epoch ≤ part.epoch)
    (hscope : (classify part.entity part.payload).resolve (storeResolver s) = .ok scope) :
    authorize (widened [part] user friendship) (r.answers (widened [part] user friendship))
      (storeResolver s) ((widened [part] user friendship).signEvent (keypair 1) part) =
        .ok part := by
  have hparse : (widened [part] user friendship).parse (renderPart part) = some part := by
    simp [widened, wire]
  have hkey : (r.answers (widened [part] user friendship)).publicKey part.node =
      .ok (some ((widened [part] user friendship).public_ (keypair 1))) := by
    have hanswer : (r.answers (wire [part])).publicKey 1 =
        .ok (some ((wire [part]).public_ (keypair 1))) := publicKey_of_keys (.inl rfl) hkeys
    rw [hnode]
    exact hanswer
  have hanswer : (r.answers (widened [part] user friendship)).ownerOf scope =
      .ok (some ⟨scope, 1, epoch⟩) := by
    change Except.ok (r.ownerOf scope) = _
    rw [InMemoryRegistry.ownerOf, howner]
    rfl
  apply authorize_eq_ok.2
  constructor
  · apply authenticate_eq_ok.2
    exact ⟨_, hkey, Wire.verify_signEvent (widened_signs user friendship [part]) hnode hparse⟩
  · exact ⟨scope, hscope, checkOwner_eq_ok.2 ⟨rfl, _, hanswer, hnode.symm, hepoch⟩⟩

end Widened

/-- Bytes that are no signed part at all. -/
def garbled : ChangeEvent := ⟨"not json", "00"⟩

end Agora

theorem unauthentic_inert_garbled :
    (ingest Agora.forgery (Agora.owned.answers Agora.forgery) 1 ([] ++ Agora.garbled :: [])
        (.empty 2)).2 =
      (ingest Agora.forgery (Agora.owned.answers Agora.forgery) 1 ([] ++ []) (.empty 2)).2 :=
  ((unauthentic_inert_iff Agora.forgery (Agora.owned.answers Agora.forgery) 1 (.empty 2)).1 []
    Agora.garbled (by decide +kernel)).2
    (.inr (harmless_of_fed (e := .badBody) (by rfl) (by decide +kernel))) []

/-- A forged event takes the cursor to the end of the feed. -/
theorem forgery_moves_cursor :
    isGenuine Agora.forgery (Agora.owned.answers Agora.forgery) 1 Agora.forged = false ∧
    ¬ (ingest Agora.forgery (Agora.owned.answers Agora.forgery) 1 [Agora.forged] (.empty 2)).2.cursors 1 =
      (ingest Agora.forgery (Agora.owned.answers Agora.forgery) 1 [] (.empty 2)).2.cursors 1 := by
  decide +kernel

end Democrachat.Federation
