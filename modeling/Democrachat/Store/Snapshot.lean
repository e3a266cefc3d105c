import Democrachat.Store.Ports

/-!
# The saved dataset

`to_json`, `from_json` and `with_node` of `adapter-store-memory/src/lib.rs`.  The
JSON text of a snapshot is a parameter.
-/

namespace Democrachat

open Library

/-- A flat view of the store. -/
structure Snapshot where
  users : List User
  servers : List Server
  memberships : List Membership
  channels : List Channel
  messages : List Message
  reactions : List Reaction
  proposals : List Proposal
  votes : List Vote
  emojis : List Emoji
  emojiVotes : List EmojiVote
  rules : List Rule
  dms : List DmMessage
  blocks : List Block
  friends : List Friendship
  roles : List Role
  roleAssignments : List RoleAssignment
  invites : List Invite
  userKeys : List UserKeys
  channelGrants : List ChannelKeyGrant
  nonces : List SeenNonce
  verificationTokens : List VerificationToken
  nextUser : Nat
  nextServer : Nat
  nextChannel : Nat
  nextMessage : Nat
  nextProposal : Nat
  nextRule : Nat
  nextDm : Nat
  nextRole : Nat
  nextEmoji : Nat

namespace Inner

def toSnapshot (s : Inner) : Snapshot where
  users := s.users.rows
  servers := s.servers.rows
  memberships := s.memberships.rows
  channels := s.channels.rows
  messages := s.messages.rows
  reactions := s.reactions
  proposals := s.proposals.rows
  votes := s.votes
  emojis := s.emojis.rows
  emojiVotes := s.emojiVotes
  rules := s.rules.rows
  dms := s.dms
  blocks := s.blocks
  friends := s.friends
  roles := s.roles.rows
  roleAssignments := s.roleAssignments
  invites := s.invites.rows
  userKeys := s.userKeys.rows
  channelGrants := s.channelGrants.rows
  nonces := s.nonces.rows
  verificationTokens := s.verificationTokens.rows
  nextUser := s.nextUser
  nextServer := s.nextServer
  nextChannel := s.nextChannel
  nextMessage := s.nextMessage
  nextProposal := s.nextProposal
  nextRule := s.nextRule
  nextDm := s.nextDm
  nextRole := s.nextRole
  nextEmoji := s.nextEmoji

/-- What a snapshot has no field for is as in `Inner::default()`. -/
def ofSnapshot (snap : Snapshot) : Inner :=
  { empty 0 with
    users := .ofRows snap.users
    servers := .ofRows snap.servers
    memberships := .ofRows snap.memberships
    channels := .ofRows snap.channels
    messages := .ofRows snap.messages
    reactions := snap.reactions
    proposals := .ofRows snap.proposals
    votes := snap.votes
    emojis := .ofRows snap.emojis
    emojiVotes := snap.emojiVotes
    rules := .ofRows snap.rules
    dms := snap.dms
    blocks := snap.blocks
    friends := snap.friends
    roles := .ofRows snap.roles
    roleAssignments := snap.roleAssignments
    invites := .ofRows snap.invites
    userKeys := .ofRows snap.userKeys
    channelGrants := .ofRows snap.channelGrants
    nonces := .ofRows snap.nonces
    verificationTokens := .ofRows snap.verificationTokens
    nextUser := snap.nextUser
    nextServer := snap.nextServer
    nextChannel := snap.nextChannel
    nextMessage := snap.nextMessage
    nextProposal := snap.nextProposal
    nextRule := snap.nextRule
    nextDm := snap.nextDm
    nextRole := snap.nextRole
    nextEmoji := snap.nextEmoji }

def withNode (s : Inner) (node : NodeId) : Inner := { s with node := node }

/-- What is left of a store after a restart of its node. -/
def reloaded (s : Inner) : Inner :=
  { s with
    media := .empty
    mediaSeq := 0
    outbox := []
    nextOutbox := 0
    cursors := fun _ => 0 }

theorem withNode_ofSnapshot (s : Inner) : (ofSnapshot s.toSnapshot).withNode s.node = s.reloaded := by
  simp only [ofSnapshot, toSnapshot, withNode, reloaded, empty, Table.ofRows_rows]

end Inner

/-- Snapshots as text. -/
structure SnapshotText where
  render : Snapshot → String
  parse : String → Except String Snapshot

namespace SnapshotText

variable (text : SnapshotText)

def toJson (s : Inner) : String := text.render s.toSnapshot

def fromJson (json : String) : Except String Inner := (text.parse json).map Inner.ofSnapshot

/-- The store of a node that comes up again on the text that it saved. -/
def restart (node : NodeId) (s : Inner) : Except String Inner :=
  (text.fromJson (text.toJson s)).map (·.withNode node)

/-- `serde` of the rows of a snapshot. -/
def ReadsBack (snap : Snapshot) : Prop := text.parse (text.render snap) = .ok snap

variable {text}

theorem restart_eq {s : Inner} (htext : text.ReadsBack s.toSnapshot) :
    text.restart s.node s = .ok s.reloaded := by
  rw [restart, fromJson, toJson, htext]
  exact congrArg Except.ok s.withNode_ofSnapshot

end SnapshotText

end Democrachat
