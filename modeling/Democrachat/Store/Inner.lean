import Democrachat.Library.Table
import Democrachat.Domain.Chat
import Democrachat.Domain.Server
import Democrachat.Domain.Social
import Mathlib.Data.String.Basic

/-!
# The in-memory store: tables and change capture

`struct Inner` of `adapter-store-memory/src/lib.rs`.  Its hash maps are keyed
tables; where the source iterates over one in hash order, the model goes
through it in key order.
-/

namespace Democrachat

open Library

/-- A replicated row, as the outbox carries it. -/
inductive Row where
  | user (row : User)
  | server (row : Server)
  | invite (row : Invite)
  | membership (row : Membership)
  | channel (row : Channel)
  | message (row : Message)
  | reaction (row : Reaction)
  | proposal (row : Proposal)
  | vote (row : Vote)
  | rule (row : Rule)
  | role (row : Role)
  | roleAssignment (row : RoleAssignment)
  | emoji (row : Emoji)
  | emojiVote (row : EmojiVote)
  | dm (row : DmMessage)
  | block (row : Block)
  | friendship (row : Friendship)
  | userKeys (row : UserKeys)
  | channelGrant (row : ChannelKeyGrant)
deriving DecidableEq

inductive ChangeOp where
  | upsert | delete
deriving DecidableEq

structure ChangeRecord where
  seq : Nat
  op : ChangeOp
  payload : Row
deriving DecidableEq

structure VerificationToken where
  tokenHash : String
  userId : UserId
  expiresAt : Int
deriving DecidableEq

/-- A forwarded command's nonce, and when it may be forgotten. -/
structure SeenNonce where
  node : NodeId
  nonce : String
  expiry : Int64
deriving DecidableEq

def SeenNonce.key (n : SeenNonce) : NodeId ×ₗ String := toLex (n.node, n.nonce)

structure Blob where
  key : String
  contentType : String
  bytes : List UInt8
deriving DecidableEq

/-- The memberships table. -/
abbrev Roster := Table Membership.key

/-- The nonces that an owner remembers. -/
abbrev NonceLog := Table SeenNonce.key

structure Inner where
  users : Table User.id
  servers : Table Server.id
  memberships : Roster
  channels : Table Channel.id
  messages : Table Message.id
  reactions : List Reaction
  proposals : Table Proposal.id
  votes : List Vote
  rules : Table Rule.id
  roles : Table Role.id
  roleAssignments : List RoleAssignment
  emojis : Table Emoji.id
  emojiVotes : List EmojiVote
  dms : List DmMessage
  blocks : List Block
  friends : List Friendship
  userKeys : Table UserKeys.userId
  channelGrants : Table ChannelKeyGrant.key
  invites : Table Invite.codeHash
  media : Table Blob.key
  mediaSeq : Nat
  verificationTokens : Table VerificationToken.tokenHash
  nonces : NonceLog
  nextUser : Nat
  nextServer : Nat
  nextChannel : Nat
  nextMessage : Nat
  nextProposal : Nat
  nextRule : Nat
  nextRole : Nat
  nextDm : Nat
  nextEmoji : Nat
  node : NodeId
  outbox : List ChangeRecord
  nextOutbox : Nat
  /-- For each peer, how far into its feed this node has come. -/
  cursors : NodeId → Nat

namespace Inner

/-- `MemoryStore::new().with_node(node)`. -/
def empty (node : NodeId) : Inner where
  users := .empty
  servers := .empty
  memberships := .empty
  channels := .empty
  messages := .empty
  reactions := []
  proposals := .empty
  votes := []
  rules := .empty
  roles := .empty
  roleAssignments := []
  emojis := .empty
  emojiVotes := []
  dms := []
  blocks := []
  friends := []
  userKeys := .empty
  channelGrants := .empty
  invites := .empty
  media := .empty
  mediaSeq := 0
  verificationTokens := .empty
  nonces := .empty
  nextUser := 0
  nextServer := 0
  nextChannel := 0
  nextMessage := 0
  nextProposal := 0
  nextRule := 0
  nextRole := 0
  nextDm := 0
  nextEmoji := 0
  node := node
  outbox := []
  nextOutbox := 0
  cursors := fun _ => 0

/-- Append one mutation to the outbox. -/
def record (s : Inner) (op : ChangeOp) (payload : Row) : Inner :=
  { s with
    nextOutbox := s.nextOutbox + 1
    outbox := s.outbox ++ [⟨s.nextOutbox + 1, op, payload⟩] }

end Inner

end Democrachat
