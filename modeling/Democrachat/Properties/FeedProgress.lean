import Democrachat.Federation.Authorize
import Democrachat.Library.Ascending

/-!
# Progress of the feed

A page of the feed is cut out of the outbox before the rows that this node may
not sign are left out, so a run of such rows can fill the page.
-/

namespace Democrachat.Federation

open Library

section Feed

variable (wire : Wire) (registry : Registry) (resolver : ScopeResolver) (keypair : NodeKeypair)

/-- The row has a scope, and it is this node's. -/
def servable (r : ChangeRecord) : Bool :=
  (signRecord wire registry resolver keypair r).isSome

/-- The records right behind a position that this node may not sign. -/
def blocked (outbox : List ChangeRecord) (since : Nat) : List ChangeRecord :=
  (outbox.filter (fun r => r.seq > since)).takeWhile
    (fun r => !servable wire registry resolver keypair r)

theorem signFeed_ne_nil_iff (outbox : List ChangeRecord) (since limit : Nat) :
    signFeed wire registry resolver outbox keypair since limit ≠ [] ↔
      ∃ r ∈ changesSince outbox since limit, servable wire registry resolver keypair r = true := by
  rw [signFeed, Ne, List.filterMap_eq_nil_iff]
  simp only [servable, Option.isSome_iff_ne_none, not_forall, exists_prop]

theorem signFeed_ne_nil_iff_blocked (outbox : List ChangeRecord) (since limit : Nat) :
    signFeed wire registry resolver outbox keypair since limit ≠ [] ↔
      (∃ r ∈ outbox, since < r.seq ∧ servable wire registry resolver keypair r = true) ∧
        (blocked wire registry resolver keypair outbox since).length < limit := by
  rw [signFeed_ne_nil_iff, changesSince, exists_mem_take_iff, blocked]
  simp only [List.mem_filter, decide_eq_true_eq, gt_iff_lt, and_assoc]

/-! ## Repeated pulls -/

/-- The highest position on the page, where the next pull resumes. -/
def nextSince (outbox : List ChangeRecord) (limit since : Nat) : Nat :=
  ((changesSince outbox since limit).filter (servable wire registry resolver keypair)).foldl
    (fun high r => max high r.seq) since

/-- The events of so many pulls, each from where the one before it ended. -/
def pulls (outbox : List ChangeRecord) (limit : Nat) : Nat → Nat → List ChangeEvent
  | 0, _ => []
  | n + 1, since =>
    signFeed wire registry resolver outbox keypair since limit ++
      pulls outbox limit n (nextSince wire registry resolver keypair outbox limit since)

variable {wire registry resolver keypair} {outbox : List ChangeRecord} {limit since : Nat}

/-- A page with a hit moves the position past it, and never past a record that
the page does not have. -/
theorem nextSince_between (houtbox : outbox.Pairwise (fun r r' => r.seq < r'.seq))
    (hhit : ∃ r ∈ changesSince outbox since limit,
      servable wire registry resolver keypair r = true)
    {r : ChangeRecord} (hr : r ∈ outbox) (hafter : since < r.seq)
    (hout : r ∉ changesSince outbox since limit) :
    since < nextSince wire registry resolver keypair outbox limit since ∧
      nextSince wire registry resolver keypair outbox limit since < r.seq := by
  have hsorted : (outbox.filter (fun r => r.seq > since)).Pairwise (fun r r' => r.seq < r'.seq) :=
    houtbox.filter _
  constructor
  · obtain ⟨r', hr', hservable⟩ := hhit
    have hpage := List.mem_filter.2 ⟨hr', hservable⟩
    have hle := (le_foldl_max ChangeRecord.seq _ since).2 r' hpage
    have hsince : since < r'.seq := by
      simpa using (List.mem_filter.1 (List.mem_of_mem_take hr')).2
    exact Nat.lt_of_lt_of_le hsince hle
  · refine foldl_max_lt hafter (fun r' hr' => ?_)
    exact lt_of_mem_take hsorted (List.mem_filter.1 hr').1
      (List.mem_filter.2 ⟨hr, by simpa using hafter⟩) hout

/-- Pulls that find a hit on every page deliver every record there is. -/
theorem exists_mem_pulls (houtbox : outbox.Pairwise (fun r r' => r.seq < r'.seq))
    (hprogress : ∀ since', since ≤ since' →
      (∃ r ∈ outbox, since' < r.seq ∧ servable wire registry resolver keypair r = true) →
      (blocked wire registry resolver keypair outbox since').length < limit)
    {r : ChangeRecord} (hr : r ∈ outbox) (hafter : since < r.seq) {event : ChangeEvent}
    (hevent : signRecord wire registry resolver keypair r = some event) :
    ∃ n, event ∈ pulls wire registry resolver keypair outbox limit n since := by
  -- By induction on how far the record lies ahead.
  induction hgap : r.seq - since using Nat.strongRecOn generalizing since with
  | _ gap ih =>
    have hservable : servable wire registry resolver keypair r = true := by
      rw [servable, hevent]
      rfl
    by_cases hpage : r ∈ changesSince outbox since limit
    · have hfeed : event ∈ signFeed wire registry resolver outbox keypair since limit :=
        List.mem_filterMap.2 ⟨r, hpage, hevent⟩
      exact ⟨1, List.mem_append_left _ hfeed⟩
    · have hsome : ∃ r ∈ outbox, since < r.seq ∧
          servable wire registry resolver keypair r = true := ⟨r, hr, hafter, hservable⟩
      have hhit := (signFeed_ne_nil_iff wire registry resolver keypair outbox since limit).1
        ((signFeed_ne_nil_iff_blocked wire registry resolver keypair outbox since limit).2
          ⟨hsome, hprogress since (Nat.le_refl _) hsome⟩)
      obtain ⟨hforward, hbefore⟩ := nextSince_between houtbox hhit hr hafter hpage
      obtain ⟨n, hn⟩ := ih _ (by omega)
        (fun since' hle => hprogress since' (Nat.le_of_lt (Nat.lt_of_lt_of_le hforward hle)))
        hbefore rfl
      exact ⟨n + 1, List.mem_append_right _ hn⟩

end Feed

/-- A pull finds something whenever there is something to sign exactly when the
records that this node may not sign, right behind the position, do not fill a
page; and where they never do, repeated pulls deliver every record that this
node may sign. -/
theorem feed_progress_iff (wire : Wire) (registry : Registry) (resolver : ScopeResolver)
    (keypair : NodeKeypair) (outbox : List ChangeRecord) (limit : Nat) :
    (∀ since,
      ((∃ r ∈ outbox, since < r.seq ∧ servable wire registry resolver keypair r = true) →
        signFeed wire registry resolver outbox keypair since limit ≠ []) ↔
      ((∃ r ∈ outbox, since < r.seq ∧ servable wire registry resolver keypair r = true) →
        (blocked wire registry resolver keypair outbox since).length < limit)) ∧
    (outbox.Pairwise (fun r r' => r.seq < r'.seq) → ∀ since,
      (∀ since', since ≤ since' →
        (∃ r ∈ outbox, since' < r.seq ∧ servable wire registry resolver keypair r = true) →
        (blocked wire registry resolver keypair outbox since').length < limit) →
      ∀ r ∈ outbox, since < r.seq →
        ∀ event, signRecord wire registry resolver keypair r = some event →
          ∃ n, event ∈ pulls wire registry resolver keypair outbox limit n since) := by
  refine ⟨fun since => ?_, fun houtbox since hprogress r hr hafter event hevent =>
    exists_mem_pulls houtbox hprogress hr hafter hevent⟩
  rw [signFeed_ne_nil_iff_blocked]
  exact ⟨fun h hsome => (h hsome).2, fun h hsome => ⟨hsome, h hsome⟩⟩

namespace Agora

/-- A rule of one of the servers that a node minted. -/
def rule (minter : NodeId) (server n : Nat) : Rule :=
  ⟨composeId minter n, composeId minter server, "be kind", ⟨0⟩⟩

/-- The outbox record of that rule. -/
def ruleRecord (seq : Nat) (r : Rule) : ChangeRecord :=
  ⟨seq, "rules", .upsert, rulePayload r⟩

def keypair (node : NodeId) : NodeKeypair := ⟨node, List.replicate 32 (UInt8.ofNat node.val)⟩

/-- Nodes 1 and 2 have published their keys. -/
def keyed : InMemoryRegistry :=
  { InMemoryRegistry.empty with
    keys := fun node => if node = 1 ∨ node = 2 then some (toHex (keypair node).seed) else none }

/-- Their keys are answered wherever these are published. -/
theorem publicKey_of_keys {parts : List SignedPart} {r : InMemoryRegistry} {node : NodeId}
    (hnode : node = 1 ∨ node = 2) (hkeys : r.keys = keyed.keys) :
    (r.answers (wire parts)).publicKey node = .ok (some ((wire parts).public_ (keypair node))) := by
  have hlength : (keypair node).seed.length = 32 := List.length_replicate
  have haccepted : (wire parts).isVerifyingKey (keypair node).seed = true := by
    change ((keypair node).seed.length == 32) = true
    rw [hlength]
    rfl
  have hkey : (wire parts).publicKey node (toHex (keypair node).seed) =
      .ok ((wire parts).public_ (keypair node)) := by
    rw [Wire.publicKey, fromHex_toHex hlength]
    simp only [bind, Except.bind, haccepted, if_true]
    rfl
  have hpublished : r.keys node = some (toHex (keypair node).seed) := by
    rw [hkeys]
    exact if_pos hnode
  change r.publicKey (wire parts) node = _
  rw [InMemoryRegistry.publicKey, hpublished]
  simp only [hkey]

def server (n : Nat) : OwnedScope := .server (composeId 1 n)

def noParents : ScopeResolver := ⟨fun _ => none, fun _ => none⟩

/-- Node 1 owns its second server and has handed the first one over. -/
def handedOver : InMemoryRegistry := ((keyed.claim (server 2) 1).2.claim (server 1) 2).2

/-- Two rules of the first server, then one of the second. -/
def outbox : List ChangeRecord :=
  [ruleRecord 1 (rule 1 1 1), ruleRecord 2 (rule 1 1 2), ruleRecord 3 (rule 1 2 3)]

end Agora

theorem feed_progress_agora :
    signFeed (Agora.wire []) (Agora.handedOver.answers (Agora.wire [])) Agora.noParents
      Agora.outbox (Agora.keypair 1) 0 3 ≠ [] :=
  ((feed_progress_iff (Agora.wire []) (Agora.handedOver.answers (Agora.wire [])) Agora.noParents
    (Agora.keypair 1) Agora.outbox 3).1 0).2 (by decide +kernel) (by decide +kernel)

/-- With two to a page, the rows of the server that was handed over hide the third. -/
theorem feed_starves :
    ¬ ((∃ r ∈ Agora.outbox, 0 < r.seq ∧ servable (Agora.wire [])
        (Agora.handedOver.answers (Agora.wire [])) Agora.noParents (Agora.keypair 1) r = true) →
      signFeed (Agora.wire []) (Agora.handedOver.answers (Agora.wire [])) Agora.noParents
        Agora.outbox (Agora.keypair 1) 0 2 ≠ []) := by
  decide +kernel

end Democrachat.Federation
