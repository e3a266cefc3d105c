import Democrachat.Library.Runs
import Democrachat.Federation.History

/-!
# The network

Nodes that write to their own outboxes, claim and release scopes in one control
plane, and pull each other's feeds.  A pull is two steps: the page is signed by the
peer as things stand then, and ingested as they stand later.
-/

namespace Democrachat

/-- The table of a row. -/
def Row.kind : Row → Federation.RowKind
  | user _ => .users
  | server _ => .servers
  | invite _ => .invites
  | membership _ => .memberships
  | channel _ => .channels
  | message _ => .messages
  | reaction _ => .reactions
  | proposal _ => .proposals
  | vote _ => .votes
  | rule _ => .rules
  | role _ => .roles
  | roleAssignment _ => .roleAssignments
  | emoji _ => .emojis
  | emojiVote _ => .emojiVotes
  | dm _ => .dms
  | block _ => .blocks
  | friendship _ => .friendships
  | userKeys _ => .userKeys
  | channelGrant _ => .channelGrants

/-- A local change of the tables. -/
def Inner.withTables (s tables : Inner) : Inner :=
  { tables with
    node := s.node
    outbox := s.outbox
    nextOutbox := s.nextOutbox
    cursors := s.cursors }

namespace Federation

/-- The outbox as the feed reads it. -/
def feedRecords (wire : Wire) (s : Inner) : List ChangeRecord :=
  s.outbox.map (fun r => ⟨r.seq, r.payload.kind.name, r.op, wire.toPayload r.payload⟩)

section

variable (registry : Registry) (resolver : ScopeResolver) (node : NodeId)

/-- What a node signs for a record, if anything. -/
def signedPart (r : ChangeRecord) : Option SignedPart :=
  match (classify r.entity r.payload).resolve resolver with
  | .error _ => none
  | .ok owned =>
    (epochOf registry node owned).map
      (fun epoch => ⟨node, epoch, r.seq, owned.toEvent, r.entity, r.op, r.payload⟩)

/-- The parts of one page. -/
def signedPage (outbox : List ChangeRecord) (since limit : Nat) : List SignedPart :=
  (changesSince outbox since (min (max limit 1) 5000)).filterMap (signedPart registry resolver node)

variable {registry resolver node} in
theorem signedPart_seq {r : ChangeRecord} {part : SignedPart}
    (h : signedPart registry resolver node r = some part) : part.seq = r.seq := by
  unfold signedPart at h
  split at h
  next => cases h
  next =>
    obtain ⟨epoch, -, rfl⟩ := Option.map_eq_some_iff.1 h
    rfl

variable {registry resolver node} in
theorem signedPart_eq_some {r : ChangeRecord} {part : SignedPart} :
    signedPart registry resolver node r = some part ↔
      ∃ scope epoch, (classify r.entity r.payload).resolve resolver = .ok scope ∧
        epochOf registry node scope = some epoch ∧
        part = ⟨node, epoch, r.seq, scope.toEvent, r.entity, r.op, r.payload⟩ := by
  unfold signedPart
  cases (classify r.entity r.payload).resolve resolver with
  | error e => simp
  | ok scope =>
    simp only [Option.map_eq_some_iff]
    constructor
    · rintro ⟨epoch, hepoch, rfl⟩
      exact ⟨scope, epoch, rfl, hepoch, rfl⟩
    · rintro ⟨scope', epoch, hscope, hepoch, rfl⟩
      obtain rfl := Except.ok.inj hscope
      exact ⟨epoch, hepoch, rfl⟩

variable {registry resolver node} in
theorem mem_signedPage {outbox : List ChangeRecord} {since limit : Nat} {part : SignedPart} :
    part ∈ signedPage registry resolver node outbox since limit ↔
      ∃ r ∈ changesSince outbox since (min (max limit 1) 5000), ∃ scope epoch,
        (classify r.entity r.payload).resolve resolver = .ok scope ∧
          epochOf registry node scope = some epoch ∧
          part = ⟨node, epoch, r.seq, scope.toEvent, r.entity, r.op, r.payload⟩ := by
  unfold signedPage
  rw [List.mem_filterMap]
  exact exists_congr fun r => and_congr_right fun _ => signedPart_eq_some

/-- A page is in the order of the outbox, past the position that was asked for. -/
theorem signedPage_pairwise {outbox : List ChangeRecord} {since limit : Nat}
    (h : outbox.Pairwise (fun r r' => r.seq < r'.seq)) :
    (signedPage registry resolver node outbox since limit).Pairwise
      (fun part part' => part.seq < part'.seq) := by
  unfold signedPage changesSince
  apply List.Pairwise.filterMap _ _ ((h.filter _).take)
  intro r r' hlt part hpart part' hpart'
  rw [signedPart_seq hpart, signedPart_seq hpart']
  exact hlt

/-- What is on the wire for a record is the signature of its part. -/
theorem signRecord_eq_map (wire : Wire) (keypair : NodeKeypair) (r : ChangeRecord) :
    signRecord wire registry resolver keypair r =
      (signedPart registry resolver keypair.node r).map (wire.signEvent keypair) := by
  unfold signRecord signedPart
  cases (classify r.entity r.payload).resolve resolver with
  | error e => rfl
  | ok owned =>
    simp only
    cases epochOf registry keypair.node owned <;> rfl

theorem changesHandler_eq (wire : Wire) (outbox : List ChangeRecord) (keypair : NodeKeypair)
    (since limit : Nat) :
    changesHandler wire registry resolver outbox keypair (some since) (some limit) =
      (signedPage registry resolver keypair.node outbox since limit).map (wire.signEvent keypair) := by
  unfold changesHandler signFeed signedPage
  rw [List.map_filterMap]
  apply List.filterMap_congr
  intro r _
  exact signRecord_eq_map registry resolver wire keypair r

end

theorem epochOf_eq_some {wire : Wire} {r : InMemoryRegistry} {node : NodeId} {scope : OwnedScope}
    {epoch : Nat} :
    epochOf (r.answers wire) node scope = some epoch ↔ r.owners scope = some (node, epoch) := by
  have hanswer : (r.answers wire).ownerOf scope =
      .ok ((r.owners scope).map (fun o => ⟨scope, o.1, o.2⟩)) := rfl
  unfold epochOf
  rw [hanswer]
  cases r.owners scope with
  | none => simp
  | some owner =>
    obtain ⟨owner, epoch'⟩ := owner
    by_cases howner : owner = node
    · simp [howner]
    · simp [howner]

theorem owners_of_ownerOf {wire : Wire} {r : InMemoryRegistry} {scope : OwnedScope}
    {owner : Ownership} (h : (r.answers wire).ownerOf scope = .ok (some owner)) :
    r.owners scope = some (owner.owner, owner.epoch) := by
  obtain ⟨found, hfound, rfl⟩ := Option.map_eq_some_iff.1 (Except.ok.inj h)
  exact hfound

/-! ## States and steps -/

structure Network where
  registry : InMemoryRegistry
  /-- The store of each node: its replica, its outbox and its cursors. -/
  store : NodeId → Inner
  /-- The page that a consumer has fetched from a peer and not yet ingested. -/
  inFlight : NodeId → NodeId → List SignedPart

inductive Action where
  /-- A local change, with the record that it appends, if any. -/
  | write (node : NodeId) (tables : Inner) (recorded : Option (ChangeOp × Row))
  | claim (scope : OwnedScope) (node : NodeId)
  | release (scope : OwnedScope) (node : NodeId)
  | fetch (consumer peer : NodeId) (limit : Nat)
  | ingest (consumer peer : NodeId)

section

variable (wire : Wire) (keypair : NodeId → NodeKeypair)

namespace Network

/-- The page that the peer serves the consumer now. -/
def page (net : Network) (consumer peer : NodeId) (limit : Nat) : List SignedPart :=
  signedPage (net.registry.answers wire) (storeResolver (net.store peer)) peer
    (feedRecords wire (net.store peer)) ((net.store consumer).replicationCursor peer) limit

/-- The batch in flight, as signed. -/
def batch (net : Network) (consumer peer : NodeId) : List ChangeEvent :=
  (net.inFlight consumer peer).map (wire.signEvent (keypair peer))

def ingested (net : Network) (consumer peer : NodeId) : Inner :=
  (ingest wire (net.registry.answers wire) peer (net.batch wire keypair consumer peer)
    (net.store consumer)).2

def setStore (net : Network) (node : NodeId) (s : Inner) : Network :=
  { net with store := Function.update net.store node s }

def setInFlight (net : Network) (consumer peer : NodeId) (parts : List SignedPart) : Network :=
  { net with
    inFlight := Function.update net.inFlight consumer
      (Function.update (net.inFlight consumer) peer parts) }

def step (net : Network) : Action → Network
  | .write node tables none => net.setStore node ((net.store node).withTables tables)
  | .write node tables (some (op, row)) =>
    net.setStore node (((net.store node).withTables tables).record op row)
  | .claim scope node => { net with registry := (net.registry.claim scope node).2 }
  | .release scope node => { net with registry := net.registry.release scope node }
  | .fetch consumer peer limit =>
    net.setInFlight consumer peer (net.page wire consumer peer limit)
  | .ingest consumer peer =>
    (net.setStore consumer (net.ingested wire keypair consumer peer)).setInFlight consumer peer []

theorem setInFlight_inFlight (net : Network) (consumer peer : NodeId) (parts : List SignedPart)
    (consumer' peer' : NodeId) :
    (net.setInFlight consumer peer parts).inFlight consumer' peer' =
      if consumer' = consumer ∧ peer' = peer then parts else net.inFlight consumer' peer' := by
  unfold setInFlight
  by_cases hconsumer : consumer' = consumer
  · by_cases hpeer : peer' = peer
    · simp [hconsumer, hpeer]
    · simp [hconsumer, hpeer]
  · simp [hconsumer]

/-- What is in flight after a fetch is what the peer's endpoint answered. -/
theorem batch_fetch (net : Network) (consumer peer : NodeId) (limit : Nat)
    (hkeypair : (keypair peer).node = peer) :
    (net.step wire keypair (.fetch consumer peer limit)).batch wire keypair consumer peer =
      changesHandler wire (net.registry.answers wire) (storeResolver (net.store peer))
        (feedRecords wire (net.store peer)) (keypair peer)
        (some ((net.store consumer).replicationCursor peer)) (some limit) := by
  rw [changesHandler_eq, hkeypair, batch, step, setInFlight]
  simp only [Function.update_self]
  rfl

/-- What a step applies, and under which scope. -/
def applied (net : Network) (consumer peer : NodeId) : List Application :=
  applications wire (net.registry.answers wire) (net.batch wire keypair consumer peer)
    (startOf peer (net.store consumer))

theorem setStore_self (net : Network) (node : NodeId) (s : Inner) :
    (net.setStore node s).store node = s :=
  Function.update_self _ _ _

theorem setStore_of_ne (net : Network) {node node' : NodeId} (s : Inner) (h : node' ≠ node) :
    (net.setStore node s).store node' = net.store node' :=
  Function.update_of_ne h _ _

/-- A step leaves a node's outbox as it is, unless the node records a change of its own. -/
theorem step_outbox (net : Network) (action : Action) (node : NodeId) :
    (∃ tables op row, action = .write node tables (some (op, row)) ∧
        feedRecords wire ((net.step wire keypair action).store node) =
          feedRecords wire (net.store node) ++
            [⟨(net.store node).nextOutbox + 1, row.kind.name, op, wire.toPayload row⟩] ∧
        ((net.step wire keypair action).store node).nextOutbox =
          (net.store node).nextOutbox + 1) ∨
      (feedRecords wire ((net.step wire keypair action).store node) =
          feedRecords wire (net.store node) ∧
        ((net.step wire keypair action).store node).nextOutbox = (net.store node).nextOutbox) := by
  cases action with
  | write node' tables recorded =>
    by_cases hnode : node' = node
    · subst hnode
      cases recorded with
      | none =>
        right
        simp only [step, setStore_self]
        exact ⟨rfl, rfl⟩
      | some recorded =>
        left
        refine ⟨tables, recorded.1, recorded.2, rfl, ?_⟩
        simp only [step, setStore_self, feedRecords, Inner.record, List.map_append]
        exact ⟨rfl, rfl⟩
    · right
      cases recorded with
      | none =>
        simp only [step, setStore_of_ne _ _ (Ne.symm hnode), and_self]
      | some recorded =>
        simp only [step, setStore_of_ne _ _ (Ne.symm hnode), and_self]
  | ingest consumer peer =>
    right
    by_cases hnode : node = consumer
    · subst hnode
      have hstore : (net.step wire keypair (.ingest node peer)).store node =
          net.ingested wire keypair node peer :=
        setStore_self net node _
      obtain ⟨houtbox, hnext⟩ := ingest_outbox wire (net.registry.answers wire) peer
        (net.batch wire keypair node peer) (net.store node)
      rw [hstore]
      exact ⟨congrArg (List.map _) houtbox, hnext⟩
    · have hstore : (net.step wire keypair (.ingest consumer peer)).store node = net.store node :=
        setStore_of_ne net _ hnode
      rw [hstore]
      exact ⟨rfl, rfl⟩
  | _ => exact .inr ⟨rfl, rfl⟩

/-- Only an ingest moves a cursor, and only that of its peer. -/
theorem step_cursors (net : Network) (action : Action) (node peer : NodeId)
    (h : action ≠ .ingest node peer) :
    ((net.step wire keypair action).store node).cursors peer = (net.store node).cursors peer := by
  cases action with
  | write node' tables recorded =>
    by_cases hnode : node = node'
    · subst hnode
      cases recorded with
      | none =>
        simp only [step, setStore_self]
        rfl
      | some recorded =>
        simp only [step, setStore_self]
        rfl
    · cases recorded with
      | none => simp only [step, setStore_of_ne _ _ hnode]
      | some recorded => simp only [step, setStore_of_ne _ _ hnode]
  | ingest node' peer' =>
    by_cases hnode : node = node'
    · subst hnode
      have hpeer : peer ≠ peer' := by
        rintro rfl
        exact h rfl
      have hstore : (net.step wire keypair (.ingest node peer')).store node =
          (⟨net.registry.answers wire, peer', net.batch wire keypair node peer'⟩ : Call).run wire
            (net.store node) :=
        setStore_self net node _
      rw [hstore, Call.run_cursors, if_neg hpeer]
    · have hstore : (net.step wire keypair (.ingest node' peer')).store node = net.store node :=
        setStore_of_ne net _ hnode
      rw [hstore]
  | _ => rfl

/-- Only a fetch or an ingest of the pair changes what is in flight between them. -/
theorem step_inFlight (net : Network) (action : Action) (node peer : NodeId)
    (hfetch : ∀ limit, action ≠ .fetch node peer limit) (hingest : action ≠ .ingest node peer) :
    (net.step wire keypair action).inFlight node peer = net.inFlight node peer := by
  cases action with
  | write node' tables recorded => cases recorded <;> rfl
  | fetch node' peer' limit =>
    have hother : ¬ (node = node' ∧ peer = peer') := by
      rintro ⟨rfl, rfl⟩
      exact hfetch limit rfl
    exact (setInFlight_inFlight net node' peer' _ node peer).trans (if_neg hother)
  | ingest node' peer' =>
    have hother : ¬ (node = node' ∧ peer = peer') := by
      rintro ⟨rfl, rfl⟩
      exact hingest rfl
    exact (setInFlight_inFlight _ node' peer' _ node peer).trans (if_neg hother)
  | _ => rfl

end Network

/-- What a consumer ingests reads back as it was signed. -/
def ReadsBack (net : Network) : Action → Prop
  | .ingest consumer peer =>
    ∀ part ∈ net.inFlight consumer peer, wire.parse (wire.render part) = some part
  | _ => True

end

theorem applied_of_single {wire : Wire} {keypair : NodeId → NodeKeypair} {net : Network}
    {consumer peer : NodeId} {part : SignedPart} {scope : OwnedScope} {c : Change}
    (haccepted : authorize wire (net.registry.answers wire) (storeResolver (net.store consumer))
      (wire.signEvent (keypair peer) part) = .ok part)
    (hscope : (classify part.entity part.payload).resolve (storeResolver (net.store consumer)) =
      .ok scope)
    (hchange : wire.change part = .ok c) (hflight : net.inFlight consumer peer = [part]) :
    ⟨part, scope⟩ ∈ net.applied wire keypair consumer peer := by
  have hbatch : net.batch wire keypair consumer peer = [wire.signEvent (keypair peer) part] := by
    rw [Network.batch, hflight, List.map_singleton]
  apply mem_applications.2
  refine ⟨[], _, [], hbatch, rfl, appliedBy_eq_some.2 ⟨haccepted, hscope, c, hchange⟩⟩

/-- What is applied was in flight. -/
theorem inFlight_of_applied {wire : Wire} {keypair : NodeId → NodeKeypair} {net : Network}
    {consumer peer : NodeId} {a : Application} (ha : a ∈ net.applied wire keypair consumer peer)
    (hnode : ∀ part ∈ net.inFlight consumer peer, part.node = (keypair peer).node)
    (hreads : ReadsBack wire net (.ingest consumer peer)) :
    a.part ∈ net.inFlight consumer peer := by
  obtain ⟨before, event, after, hbatch, -, happlied⟩ := mem_applications.1 ha
  have hevent : event ∈ net.batch wire keypair consumer peer := by
    rw [hbatch]
    exact List.mem_append_right _ List.mem_cons_self
  obtain ⟨part, hpart, rfl⟩ := List.mem_map.1 hevent
  have hbody : (wire.signEvent (keypair peer) part).body = wire.render part :=
    Wire.signEvent_body (hnode part hpart)
  obtain ⟨hauthorize, -, -⟩ := appliedBy_eq_some.1 happlied
  obtain ⟨key, -, hverify⟩ := authenticate_eq_ok.1 (authorize_eq_ok.1 hauthorize).1
  have hparse := (Wire.verify_eq_ok.1 hverify).1
  rw [hbody, hreads part hpart] at hparse
  rw [← Option.some.inj hparse]
  exact hpart

/-- A part that is accepted brings the cursor to its position. -/
theorem cursor_of_single {wire : Wire} {keypair : NodeId → NodeKeypair} {net : Network}
    {consumer peer : NodeId} {part : SignedPart}
    (haccepted : authorize wire (net.registry.answers wire) (storeResolver (net.store consumer))
      (wire.signEvent (keypair peer) part) = .ok part)
    (hflight : net.inFlight consumer peer = [part]) :
    ((net.step wire keypair (.ingest consumer peer)).store consumer).cursors peer =
      max ((net.store consumer).cursors peer) part.seq := by
  have hstore : (net.step wire keypair (.ingest consumer peer)).store consumer =
      net.ingested wire keypair consumer peer :=
    net.setStore_self consumer _
  have hturn : handle wire (net.registry.answers wire) (wire.signEvent (keypair peer) part)
      (startOf peer (net.store consumer)) =
        some ⟨max ((net.store consumer).cursors peer) part.seq,
          (applyIncoming wire part (net.store consumer)).2⟩ := by
    have hresolver : (startOf peer (net.store consumer)).replica = net.store consumer := rfl
    unfold handle
    rw [hresolver, haccepted]
    rfl
  rw [hstore, Network.ingested, ingest_cursor, Network.batch, hflight, List.map_singleton]
  change (drain wire (net.registry.answers wire) [wire.signEvent (keypair peer) part]
    (startOf peer (net.store consumer))).high = _
  simp only [drain, hturn]

end Federation

end Democrachat
