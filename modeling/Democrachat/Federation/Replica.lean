import Democrachat.Federation.Authorize
import Democrachat.Store.Ports

/-!
# Applying a peer's rows

`apply_row`, `replication_cursor`, `advance_cursor` and `apply_incoming` of
`adapter-store-memory/src/lib.rs`, and `adapter-federation/src/store_resolver.rs`.
An applied row is not recorded in this node's own outbox.
-/

namespace Democrachat

open Library

namespace Inner

/-- The write of an upserted row. -/
def put (s : Inner) : Row → Inner
  | .user u => { s with users := s.users.insert u }
  | .server g => { s with servers := s.servers.insert g }
  | .invite i => { s with invites := s.invites.insert i }
  | .membership m => { s with memberships := s.memberships.insert m }
  | .channel c => { s with channels := s.channels.insert c }
  | .message m => { s with messages := s.messages.insert m }
  | .reaction r =>
    if s.reactions.any (fun x => x.messageId == r.messageId && x.user == r.user &&
        x.emoji == r.emoji) then s
    else { s with reactions := s.reactions ++ [r] }
  | .proposal p => { s with proposals := s.proposals.insert p }
  | .vote v => { s with votes := recordVote s.votes v }
  | .rule r => { s with rules := s.rules.insert r }
  | .role r => { s with roles := s.roles.insert r }
  | .roleAssignment a =>
    if s.roleAssignments.any (fun x => x.roleId == a.roleId && x.user == a.user) then s
    else { s with roleAssignments := s.roleAssignments ++ [a] }
  | .emoji e => { s with emojis := s.emojis.insert e }
  | .emojiVote v =>
    { s with emojiVotes :=
        s.emojiVotes.filter (fun x => !(x.emojiId == v.emojiId && x.voter == v.voter)) ++ [v] }
  | .dm m => if s.dms.any (fun x => x.id == m.id) then s else { s with dms := s.dms ++ [m] }
  | .block b =>
    if s.blocks.any (fun x => x.blocker == b.blocker && x.blocked == b.blocked) then s
    else { s with blocks := s.blocks ++ [b] }
  | .friendship f =>
    { s with friends :=
        s.friends.filter (fun x => !x.isBetween f.requester f.addressee) ++ [f] }
  | .userKeys k => { s with userKeys := s.userKeys.insert k }
  | .channelGrant g => { s with channelGrants := s.channelGrants.insert g }

/-- The write of a deleted row, for the tables that have one. -/
def drop (s : Inner) : Row → Inner
  | .user u => { s with users := s.users.erase u.id }
  | .server g => { s with servers := s.servers.erase g.id }
  | .membership m => { s with memberships := s.memberships.erase m.key }
  | .channel c =>
    { s with
      channels := s.channels.erase c.id
      messages := s.messages.retain (fun m => m.channelId != c.id) }
  | .message m => { s with messages := s.messages.erase m.id }
  | .proposal p => { s with proposals := s.proposals.erase p.id }
  | .rule r => { s with rules := s.rules.erase r.id }
  | .role r =>
    { s with
      roles := s.roles.erase r.id
      roleAssignments := s.roleAssignments.filter (fun a => a.roleId != r.id) }
  | .roleAssignment a =>
    { s with roleAssignments :=
        s.roleAssignments.filter (fun x => !(x.roleId == a.roleId && x.user == a.user)) }
  | _ => s

/-- `replication_cursor`. -/
def replicationCursor (s : Inner) (peer : NodeId) : Nat := s.cursors peer

/-- A lower position never moves the cursor back. -/
def advanceCursor (s : Inner) (peer : NodeId) (seq : Nat) : Inner :=
  { s with cursors := Function.update s.cursors peer (max (s.cursors peer) seq) }

end Inner

namespace Federation

/-- A row of this table. -/
def Wire.row (wire : Wire) (kind : RowKind) (p : Value) : Except String Row :=
  match kind with
  | .users => (wire.user p).map .user
  | .servers => (wire.server p).map .server
  | .channels => (wire.channel p).map .channel
  | .messages => (wire.message p).map .message
  | .proposals => (wire.proposal p).map .proposal
  | .memberships => (wire.membership p).map .membership
  | .rules => (wire.rule p).map .rule
  | .roles => (wire.role p).map .role
  | .roleAssignments => (wire.roleAssignment p).map .roleAssignment
  | .emojis => (wire.emoji p).map .emoji
  | .emojiVotes => (wire.emojiVote p).map .emojiVote
  | .channelGrants => (wire.channelGrant p).map .channelGrant
  | .invites => (wire.invite p).map .invite
  | .votes => (wire.vote p).map .vote
  | .reactions => (wire.reaction p).map .reaction
  | .userKeys => (wire.userKeys p).map .userKeys
  | .dms => (wire.dm p).map .dm
  | .friendships => (wire.friendship p).map .friendship
  | .blocks => (wire.block p).map .block

/-- The tables whose rows `apply_row` deletes by decoding them. -/
def RowKind.isDeletable : RowKind → Bool
  | .users | .servers | .memberships | .channels | .messages | .proposals | .rules | .roles
  | .roleAssignments => true
  | _ => false

/-- Whether a stored reaction is the one whose three fields the payload has. -/
def matchesReaction (p : Value) (r : Reaction) : Bool :=
  ((p.get "message_id").bind Value.asU64).map idOfU64 == some r.messageId &&
    ((p.get "user").bind Value.asU64).map idOfU64 == some r.user &&
    (p.get "emoji").bind Value.asStr == some r.emoji

def unknownEntity (entity : String) : String := "unknown replicated entity `" ++ entity ++ "`"

/-- Apply one authorized change; an error leaves the store as it was. -/
def applyRow (wire : Wire) (s : Inner) (part : SignedPart) : Except String Inner :=
  match RowKind.ofName? part.entity with
  | none => .error (unknownEntity part.entity)
  | some kind =>
    match part.op with
    | .upsert => (wire.row kind part.payload).map s.put
    | .delete =>
      if kind = .reactions then
        .ok { s with reactions := s.reactions.filter (fun r => !matchesReaction part.payload r) }
      else if kind.isDeletable then (wire.row kind part.payload).map s.drop
      else .error (unknownEntity part.entity)

/-- `MemoryStore::apply_incoming`. -/
def applyIncoming (wire : Wire) (part : SignedPart) (s : Inner) : Except String Unit × Inner :=
  match applyRow wire s part with
  | .ok s' => (.ok (), s')
  | .error e => (.error e, s)

/-! ## What a part says -/

/-- A decoded change. -/
inductive Change where
  | put (row : Row)
  | drop (row : Row)
  | unreact (payload : Value)

def Change.apply (s : Inner) : Change → Inner
  | put row => s.put row
  | drop row => s.drop row
  | unreact p => { s with reactions := s.reactions.filter (fun r => !matchesReaction p r) }

/-- The change that a part carries; it depends on no state. -/
def Wire.change (wire : Wire) (part : SignedPart) : Except String Change :=
  match RowKind.ofName? part.entity with
  | none => .error (unknownEntity part.entity)
  | some kind =>
    match part.op with
    | .upsert => (wire.row kind part.payload).map .put
    | .delete =>
      if kind = .reactions then .ok (.unreact part.payload)
      else if kind.isDeletable then (wire.row kind part.payload).map .drop
      else .error (unknownEntity part.entity)

theorem applyRow_eq (wire : Wire) (s : Inner) (part : SignedPart) :
    applyRow wire s part = (wire.change part).map (Change.apply s) := by
  have hmap : ∀ (f : Row → Change) (p : Value) (kind : RowKind),
      ((wire.row kind p).map f).map (Change.apply s) =
        (wire.row kind p).map (fun row => (f row).apply s) := by
    intro f p kind
    cases wire.row kind p <;> rfl
  unfold applyRow Wire.change
  cases RowKind.ofName? part.entity with
  | none => rfl
  | some kind =>
    cases part.op with
    | upsert => exact (hmap .put part.payload kind).symm
    | delete =>
      simp only
      split
      next => rfl
      next =>
        split
        next => exact (hmap .drop part.payload kind).symm
        next => rfl

theorem applyIncoming_of_change {wire : Wire} {part : SignedPart} {c : Change}
    (h : wire.change part = .ok c) (s : Inner) :
    applyIncoming wire part s = (.ok (), c.apply s) := by
  rw [applyIncoming, applyRow_eq, h]
  rfl

theorem applyIncoming_of_error {wire : Wire} {part : SignedPart} {e : String}
    (h : wire.change part = .error e) (s : Inner) : applyIncoming wire part s = (.error e, s) := by
  rw [applyIncoming, applyRow_eq, h]
  rfl

/-- A vote's server is its proposal's and a reaction's its message's, as this
replica has them. -/
def storeResolver (s : Inner) : ScopeResolver where
  proposalServer id := (s.getProposal id).map (·.serverId)
  messageServer id := (s.getMessage id).map (·.serverId)

end Federation

end Democrachat
