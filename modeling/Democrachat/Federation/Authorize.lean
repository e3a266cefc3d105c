import Democrachat.Federation.Registry

/-!
# Classification, authorization and the signed feed

`federation/src`: `classify.rs`, `authorize.rs` and `sign_feed.rs`.
-/

namespace Democrachat.Federation

/-! ## The replicated entities -/

/-- The tables of the replication set. -/
inductive RowKind where
  | users | servers | channels | messages | proposals | memberships | rules | roles
  | roleAssignments | emojis | emojiVotes | channelGrants | invites | votes | reactions
  | userKeys | dms | friendships | blocks
deriving DecidableEq

namespace RowKind

def name : RowKind → String
  | users => "users"
  | servers => "servers"
  | channels => "channels"
  | messages => "messages"
  | proposals => "proposals"
  | memberships => "memberships"
  | rules => "rules"
  | roles => "roles"
  | roleAssignments => "role_assignments"
  | emojis => "emojis"
  | emojiVotes => "emoji_votes"
  | channelGrants => "channel_grants"
  | invites => "invites"
  | votes => "votes"
  | reactions => "reactions"
  | userKeys => "user_keys"
  | dms => "dms"
  | friendships => "friendships"
  | blocks => "blocks"

def all : List RowKind :=
  [users, servers, channels, messages, proposals, memberships, rules, roles, roleAssignments,
    emojis, emojiVotes, channelGrants, invites, votes, reactions, userKeys, dms, friendships, blocks]

/-- The table of this name. -/
def ofName? (entity : String) : Option RowKind := all.find? (fun k => k.name == entity)

theorem ofName?_name (k : RowKind) : ofName? k.name = some k := by
  cases k <;> decide

end RowKind

/-! ## Classification -/

/-- The scope a row belongs to, as its payload has it. -/
inductive DerivedScope where
  | owned (scope : OwnedScope)
  | viaProposal (id : ProposalId)
  | viaMessage (id : MessageId)
  | indeterminate
deriving DecidableEq

/-- The identifier that a number packs. -/
def idOfU64 {e : Entity} (n : Nat) : Id e :=
  ⟨⟨n / 2 ^ 48 % 2 ^ 16, originNode_lt n⟩, n % 2 ^ 48⟩

def payloadId {e : Entity} (payload : Value) (key : String) : Option (Id e) :=
  (payloadU64 payload key).map idOfU64

def classifyServer (payload : Value) (key : String) : DerivedScope :=
  match payloadId payload key with
  | some id => .owned (.server id)
  | none => .indeterminate

def classifyHome (payload : Value) (key : String) : DerivedScope :=
  match payloadId payload key with
  | some id => .owned (.userHome id)
  | none => .indeterminate

/-- It reads the payload only. -/
def classify (entity : String) (payload : Value) : DerivedScope :=
  match RowKind.ofName? entity with
  | some .servers => classifyServer payload "id"
  | some .channels | some .messages | some .proposals | some .memberships | some .rules
  | some .roles | some .roleAssignments | some .emojis | some .emojiVotes | some .channelGrants
  | some .invites => classifyServer payload "server_id"
  | some .votes =>
    match payloadId payload "proposal_id" with
    | some id => .viaProposal id
    | none => .indeterminate
  | some .reactions =>
    match payloadId payload "message_id" with
    | some id => .viaMessage id
    | none => .indeterminate
  | some .users => classifyHome payload "id"
  | some .userKeys => classifyHome payload "user_id"
  | some .dms => classifyHome payload "sender"
  | some .friendships => classifyHome payload "requester"
  | some .blocks => classifyHome payload "blocker"
  | none => .indeterminate

/-! ## Authorization -/

/-- `trait ScopeResolver`. -/
structure ScopeResolver where
  proposalServer : ProposalId → Option ServerId
  messageServer : MessageId → Option ServerId

inductive AuthError where
  | fed (e : FedError)
  | unknownNode
  | notOwner
  | staleEpoch
  | unowned
  | scopeMismatch
  | registry (message : String)
deriving DecidableEq

/-- The scope of a classified row, its parent looked up. -/
def DerivedScope.resolve (resolver : ScopeResolver) : DerivedScope → Except AuthError OwnedScope
  | .owned scope => .ok scope
  | .viaProposal id =>
    match resolver.proposalServer id with
    | some server => .ok (.server server)
    | none => .error .unowned
  | .viaMessage id =>
    match resolver.messageServer id with
    | some server => .ok (.server server)
    | none => .error .unowned
  | .indeterminate => .error .scopeMismatch

section

variable (wire : Wire) (registry : Registry) (resolver : ScopeResolver)

/-- Steps of `authorize` that only ask who signed: the verified part. -/
def authenticate (event : ChangeEvent) : Except AuthError SignedPart :=
  match wire.peek event with
  | .error e => .error (.fed e)
  | .ok claimed =>
    match registry.publicKey claimed.node with
    | .error e => .error (.registry e.message)
    | .ok none => .error .unknownNode
    | .ok (some key) =>
      match wire.verify event key with
      | .error e => .error (.fed e)
      | .ok part => .ok part

/-- The rightful owner of the scope signed, at an epoch that is not stale. -/
def checkOwner (owned : OwnedScope) (part : SignedPart) : Except AuthError SignedPart :=
  match registry.ownerOf owned with
  | .error e => .error (.registry e.message)
  | .ok none => .error .unowned
  | .ok (some owner) =>
    if owner.owner ≠ part.node then .error .notOwner
    else if part.epoch < owner.epoch then .error .staleEpoch
    else .ok part

/-- The gate before applying any replicated event. -/
def authorize (event : ChangeEvent) : Except AuthError SignedPart := do
  let part ← authenticate wire registry event
  let owned ← (classify part.entity part.payload).resolve resolver
  checkOwner registry owned part

variable {wire registry resolver}

/-- Signed by the published key of the node that the text names. -/
theorem authenticate_eq_ok {event : ChangeEvent} {part : SignedPart} :
    authenticate wire registry event = .ok part ↔
      ∃ key, registry.publicKey part.node = .ok (some key) ∧ wire.verify event key = .ok part := by
  unfold authenticate Wire.peek
  constructor
  · intro h
    cases hparse : wire.parse event.body with
    | none => simp only [hparse, reduceCtorEq] at h
    | some claimed =>
      simp only [hparse] at h
      cases hkey : registry.publicKey claimed.node with
      | error e => simp only [hkey, reduceCtorEq] at h
      | ok found =>
        cases found with
        | none => simp only [hkey, reduceCtorEq] at h
        | some key =>
          simp only [hkey] at h
          cases hverify : wire.verify event key with
          | error e => simp only [hverify, reduceCtorEq] at h
          | ok part' =>
            simp only [hverify, Except.ok.injEq] at h
            subst h
            have hclaimed := (Wire.verify_eq_ok.1 hverify).1
            obtain rfl := Option.some.inj (hparse.symm.trans hclaimed)
            exact ⟨key, hkey, hverify⟩
  · rintro ⟨key, hkey, hverify⟩
    have hparse := (Wire.verify_eq_ok.1 hverify).1
    simp only [hparse, hkey, hverify]

theorem checkOwner_eq_ok {scope : OwnedScope} {part part' : SignedPart} :
    checkOwner registry scope part = .ok part' ↔
      part = part' ∧ ∃ owner, registry.ownerOf scope = .ok (some owner) ∧
        owner.owner = part.node ∧ owner.epoch ≤ part.epoch := by
  unfold checkOwner
  cases howner : registry.ownerOf scope with
  | error e => simp
  | ok found =>
    cases found with
    | none => simp
    | some owner =>
      simp only [Except.ok.injEq, Option.some.injEq, exists_eq_left']
      split
      next hnode => simp [hnode]
      next hnode =>
        split
        next hepoch => simp only [reduceCtorEq, false_iff]; omega
        next hepoch => simp [not_not.1 hnode, Nat.not_lt.1 hepoch]

/-- Authentic, and by the owner of the scope of the payload at an epoch that is not stale. -/
theorem authorize_eq_ok {event : ChangeEvent} {part : SignedPart} :
    authorize wire registry resolver event = .ok part ↔
      authenticate wire registry event = .ok part ∧
        ∃ scope, (classify part.entity part.payload).resolve resolver = .ok scope ∧
          checkOwner registry scope part = .ok part := by
  unfold authorize
  cases hauthentic : authenticate wire registry event with
  | error e => simp [bind, Except.bind]
  | ok part' =>
    simp only [bind, Except.bind, Except.ok.injEq]
    constructor
    · intro h
      cases hscope : (classify part'.entity part'.payload).resolve resolver with
      | error e => simp only [hscope, reduceCtorEq] at h
      | ok scope =>
        simp only [hscope] at h
        obtain ⟨rfl, -⟩ := checkOwner_eq_ok.1 h
        exact ⟨rfl, scope, hscope, h⟩
    · rintro ⟨rfl, scope, hscope, h⟩
      simp only [hscope, h]

variable (wire registry resolver)

/-! ## The signed feed -/

/-- `changes_since` of an outbox. -/
def changesSince (outbox : List ChangeRecord) (afterSeq limit : Nat) : List ChangeRecord :=
  (outbox.filter (fun r => r.seq > afterSeq)).take limit

/-- The epoch under which the node owns the scope now. -/
def epochOf (node : NodeId) (owned : OwnedScope) : Option Nat :=
  match registry.ownerOf owned with
  | .ok (some o) => if o.owner = node then some o.epoch else none
  | _ => none

/-- The event of one record, or nothing where the row has no scope or its scope
is not this node's. -/
def signRecord (keypair : NodeKeypair) (r : ChangeRecord) : Option ChangeEvent :=
  match (classify r.entity r.payload).resolve resolver with
  | .error _ => none
  | .ok owned =>
    match epochOf registry keypair.node owned with
    | none => none
    | some epoch =>
      some (wire.signEvent keypair ⟨keypair.node, epoch, r.seq, owned.toEvent, r.entity, r.op, r.payload⟩)

/-- The records of a page that this node may sign, in order; the limit is
applied before the rest is left out. -/
def signFeed (outbox : List ChangeRecord) (keypair : NodeKeypair) (afterSeq limit : Nat) :
    List ChangeEvent :=
  (changesSince outbox afterSeq limit).filterMap (signRecord wire registry resolver keypair)

/-- The epochs that one call has looked up so far. -/
abbrev EpochCache := List (OwnedScope × Option Nat)

/-- One lookup in the control plane for each scope of a page. -/
def cachedEpoch (node : NodeId) (owned : OwnedScope) (cache : EpochCache) :
    Option Nat × EpochCache :=
  match cache.lookup owned with
  | some cached => (cached, cache)
  | none =>
    let mine := epochOf registry node owned
    (mine, (owned, mine) :: cache)

/-- The loop of `sign_feed`, from the epochs known and the events pushed so far. -/
def signFeedLoop (keypair : NodeKeypair) :
    List ChangeRecord → EpochCache → List ChangeEvent → List ChangeEvent
  | [], _, out => out
  | r :: records, cache, out =>
    match (classify r.entity r.payload).resolve resolver with
    | .error _ => signFeedLoop keypair records cache out
    | .ok owned =>
      match cachedEpoch registry keypair.node owned cache with
      | (none, cache) => signFeedLoop keypair records cache out
      | (some epoch, cache) =>
        signFeedLoop keypair records cache
          (out ++ [wire.signEvent keypair
            ⟨keypair.node, epoch, r.seq, owned.toEvent, r.entity, r.op, r.payload⟩])

/-- The cache holds what the control plane answers. -/
def EpochCache.IsCurrent (node : NodeId) (cache : EpochCache) : Prop :=
  ∀ owned cached, cache.lookup owned = some cached → cached = epochOf registry node owned

theorem cachedEpoch_isCurrent {node : NodeId} (owned : OwnedScope) {cache : EpochCache}
    (h : cache.IsCurrent registry node) :
    (cachedEpoch registry node owned cache).1 = epochOf registry node owned ∧
      (cachedEpoch registry node owned cache).2.IsCurrent registry node := by
  unfold cachedEpoch
  cases hlookup : cache.lookup owned with
  | some cached => exact ⟨h owned cached hlookup, h⟩
  | none =>
    refine ⟨rfl, fun other cached hother => ?_⟩
    rw [List.lookup_cons] at hother
    by_cases hsame : other = owned
    · subst hsame
      simpa using hother.symm
    · have hdiffers : (other == owned) = false := beq_false_of_ne hsame
      rw [hdiffers] at hother
      exact h other cached hother

/-- The cache spares lookups and changes nothing else. -/
theorem signFeedLoop_eq (keypair : NodeKeypair) (records : List ChangeRecord) (cache : EpochCache)
    (out : List ChangeEvent) (h : cache.IsCurrent registry keypair.node) :
    signFeedLoop wire registry resolver keypair records cache out =
      out ++ records.filterMap (signRecord wire registry resolver keypair) := by
  induction records generalizing cache out with
  | nil => rw [signFeedLoop, List.filterMap_nil, List.append_nil]
  | cons r records ih =>
    rw [signFeedLoop, List.filterMap_cons, signRecord]
    cases hscope : (classify r.entity r.payload).resolve resolver with
    | error e => exact ih cache out h
    | ok owned =>
      obtain ⟨hanswer, hcurrent⟩ := cachedEpoch_isCurrent registry owned h
      rcases hcached : cachedEpoch registry keypair.node owned cache with ⟨cached, cache'⟩
      rw [hcached] at hanswer hcurrent
      dsimp only at hanswer hcurrent ⊢
      rw [hcached, ← hanswer]
      cases cached with
      | none => exact ih cache' out hcurrent
      | some epoch =>
        dsimp only
        rw [ih cache' _ hcurrent, List.append_assoc]
        rfl

/-- `sign_feed` as it runs. -/
theorem signFeedLoop_nil (outbox : List ChangeRecord) (keypair : NodeKeypair)
    (afterSeq limit : Nat) :
    signFeedLoop wire registry resolver keypair (changesSince outbox afterSeq limit) [] [] =
      signFeed wire registry resolver outbox keypair afterSeq limit := by
  have hempty : EpochCache.IsCurrent registry keypair.node [] := fun _ _ h => (nomatch h)
  rw [signFeedLoop_eq wire registry resolver keypair _ [] [] hempty, List.nil_append, signFeed]

/-- `changes_handler`: the limit of a request is clamped. -/
def changesHandler (outbox : List ChangeRecord) (keypair : NodeKeypair) (since limit : Option Nat) :
    List ChangeEvent :=
  signFeed wire registry resolver outbox keypair (since.getD 0)
    (min (max (limit.getD 500) 1) 5000)

end

end Democrachat.Federation
