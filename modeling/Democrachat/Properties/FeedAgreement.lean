import Democrachat.Federation.Network
import Democrachat.Properties.Unauthentic

/-!
# Producer and consumer agree

Every event of a node's signed feed passes the consumer's gate against the same
control plane, under the scope and the epoch that it is stamped with; nothing
that the node signs for a scope of somebody else ever does.
-/

namespace Democrachat.Federation

section

variable (registry : Registry) (resolver : ScopeResolver) (node : NodeId)

/-- The parts that the feed carries past a position. -/
def feedParts (outbox : List ChangeRecord) (afterSeq limit : Nat) : List SignedPart :=
  (changesSince outbox afterSeq limit).filterMap (signedPart registry resolver node)

theorem signFeed_eq_map (wire : Wire) (outbox : List ChangeRecord) (keypair : NodeKeypair)
    (afterSeq limit : Nat) :
    signFeed wire registry resolver outbox keypair afterSeq limit =
      (feedParts registry resolver keypair.node outbox afterSeq limit).map
        (wire.signEvent keypair) := by
  unfold signFeed feedParts
  rw [List.map_filterMap]
  apply List.filterMap_congr
  intro r _
  exact signRecord_eq_map registry resolver wire keypair r

/-- The feed keeps the order of the outbox. -/
theorem feedParts_pairwise {outbox : List ChangeRecord} {afterSeq limit : Nat}
    (h : outbox.Pairwise (fun r r' => r.seq < r'.seq)) :
    (feedParts registry resolver node outbox afterSeq limit).Pairwise
      (fun part part' => part.seq < part'.seq) := by
  unfold feedParts changesSince
  apply List.Pairwise.filterMap _ _ ((h.filter _).take)
  intro r r' hlt part hpart part' hpart'
  rw [signedPart_seq hpart, signedPart_seq hpart']
  exact hlt

end

section

variable {wire : Wire} {registry : Registry} {keypair : NodeKeypair}

/-- The lookups of a consumer's parents answer as the producer's do. -/
structure ScopeResolver.Agrees (consumer producer : ScopeResolver) : Prop where
  proposal : ∀ id, consumer.proposalServer id = producer.proposalServer id
  message : ∀ id, consumer.messageServer id = producer.messageServer id

theorem ScopeResolver.Agrees.resolve_eq {consumer producer : ScopeResolver}
    (h : consumer.Agrees producer) (derived : DerivedScope) :
    derived.resolve consumer = derived.resolve producer := by
  cases derived with
  | owned scope => rfl
  | viaProposal id => simp only [DerivedScope.resolve, h.proposal]
  | viaMessage id => simp only [DerivedScope.resolve, h.message]
  | indeterminate => rfl

/-- The node owns the scope under the epoch that it stamps. -/
theorem ownerOf_of_epochOf {node : NodeId} {scope : OwnedScope} {epoch : Nat}
    (h : epochOf registry node scope = some epoch) :
    ∃ owner, registry.ownerOf scope = .ok (some owner) ∧ owner.owner = node ∧
      owner.epoch = epoch := by
  unfold epochOf at h
  split at h
  next owner howner =>
    split at h
    next hnode => exact ⟨owner, howner, hnode, Option.some.inj h⟩
    next => cases h
  next => cases h

/-- What the node signs for a record is accepted as it was signed. -/
theorem authorize_signedPart (hwire : wire.Signs)
    (hkey : registry.publicKey keypair.node = .ok (some (wire.public_ keypair)))
    {producer consumer : ScopeResolver} (hparents : consumer.Agrees producer)
    {r : ChangeRecord} {part : SignedPart}
    (hpart : signedPart registry producer keypair.node r = some part)
    (hparse : wire.parse (wire.render part) = some part) :
    authorize wire registry consumer (wire.signEvent keypair part) = .ok part ∧
      ∃ scope owner, (classify part.entity part.payload).resolve consumer = .ok scope ∧
        part.scope = scope.toEvent ∧ registry.ownerOf scope = .ok (some owner) ∧
        owner.owner = keypair.node ∧ part.epoch = owner.epoch := by
  obtain ⟨scope, epoch, hscope, hepoch, rfl⟩ := signedPart_eq_some.1 hpart
  obtain ⟨owner, howner, hnode, rfl⟩ := ownerOf_of_epochOf hepoch
  have hresolve : (classify r.entity r.payload).resolve consumer = .ok scope := by
    rw [hparents.resolve_eq, hscope]
  constructor
  · apply authorize_eq_ok.2
    constructor
    · apply authenticate_eq_ok.2
      exact ⟨wire.public_ keypair, hkey, Wire.verify_signEvent hwire rfl hparse⟩
    · exact ⟨scope, hresolve, checkOwner_eq_ok.2 ⟨rfl, owner, howner, hnode, le_refl _⟩⟩
  · exact ⟨scope, owner, hresolve, rfl, howner, hnode, rfl⟩

/-- What verifies under the node's key is never accepted for a scope of another node. -/
theorem authorize_ne_ok_of_other_owner {event : ChangeEvent} {part : SignedPart}
    (hverify : wire.verify event (wire.public_ keypair) = .ok part) {resolver : ScopeResolver}
    {scope : OwnedScope} (hscope : (classify part.entity part.payload).resolve resolver = .ok scope)
    {owner : Ownership} (howner : registry.ownerOf scope = .ok (some owner))
    (hother : owner.owner ≠ keypair.node) (accepted : SignedPart) :
    authorize wire registry resolver event ≠ .ok accepted := by
  intro hauthorize
  obtain ⟨hauthentic, scope', hscope', hcheck⟩ := authorize_eq_ok.1 hauthorize
  obtain ⟨key, -, hverify'⟩ := authenticate_eq_ok.1 hauthentic
  obtain ⟨hparse, hnode, -⟩ := Wire.verify_eq_ok.1 hverify
  obtain ⟨hparse', -⟩ := Wire.verify_eq_ok.1 hverify'
  obtain rfl : part = accepted := Option.some.inj (hparse.symm.trans hparse')
  obtain rfl : scope = scope' := Except.ok.inj (hscope.symm.trans hscope')
  obtain ⟨-, owner', howner', howned, -⟩ := checkOwner_eq_ok.1 hcheck
  obtain rfl : owner = owner' := Option.some.inj (Except.ok.inj (howner.symm.trans howner'))
  exact hother (howned.trans hnode.symm)

end

namespace Agora

/-- The one rule that node 1 may sign of its outbox after the hand-over. -/
def stillOwned : SignedPart := rulePart 1 1 3 (rule 1 2 3)

end Agora

end Democrachat.Federation
