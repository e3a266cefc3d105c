import Democrachat.Store.Inner

/-!
# The ports of the in-memory store

One function for each method of `impl … for MemoryStore` in
`adapter-store-memory/src/lib.rs`.  Each runs under the store's one lock, so
each is one atomic step of the services.
-/

namespace Democrachat

open Library

namespace Roster

def member (r : Roster) (user : UserId) (server : ServerId) : Option Membership :=
  r.get (toLex (user, server))

def citizenCount (r : Roster) (server : ServerId) : Nat :=
  r.rows.countP (fun m => m.serverId == server && m.isCitizen)

def admittedSince (r : Roster) (server : ServerId) (since : Timestamp) : Nat :=
  r.rows.countP (fun m => m.serverId == server && m.enfranchisedAt.any (fun at_ => at_ ≥ since))

end Roster

/-- A new ballot replaces the voter's earlier one and goes to the end. -/
def recordVote (votes : List Vote) (vote : Vote) : List Vote :=
  votes.filter (fun v => !(v.proposalId == vote.proposalId && v.voter == vote.voter)) ++ [vote]

/-- Expired nonces are pruned first; the nonce is new where none is left under it. -/
def NonceLog.remember (log : NonceLog) (node : NodeId) (nonce : String) (now expiryAt : Int64) :
    Bool × NonceLog :=
  let live := log.retain (fun n => n.expiry > now)
  ((live.get (toLex (node, nonce))).isNone, live.insert ⟨node, nonce, expiryAt⟩)

def recordEmojiVote (votes : List EmojiVote) (vote : EmojiVote) : List EmojiVote :=
  votes.filter (fun v => !(v.emojiId == vote.emojiId && v.voter == vote.voter)) ++ [vote]

/-- The first record between the two users of the new one gives way to it, in its place. -/
def replaceFriendship (f : Friendship) : List Friendship → List Friendship
  | [] => []
  | g :: gs =>
    if g.isBetween f.requester f.addressee then f :: gs else g :: replaceFriendship f gs

namespace Inner

/-! ## `UserStore` -/

def nextUserId (s : Inner) : UserId × Inner :=
  (composeId s.node (s.nextUser + 1), { s with nextUser := s.nextUser + 1 })

def insertUser (s : Inner) (user : User) : Inner :=
  let s := s.record .upsert (.user user)
  { s with users := s.users.insert user }

def updateUser (s : Inner) (user : User) : Inner :=
  let s := s.record .upsert (.user user)
  { s with users := s.users.insert user }

def getUser (s : Inner) (id : UserId) : Option User := s.users.get id

def findByHandle (s : Inner) (handle : String) : Option User :=
  s.users.rows.find? (fun u => u.handle == handle)

def listUsers (s : Inner) : List User := s.users.rows

/-! ## `ServerStore` -/

def nextServerId (s : Inner) : ServerId × Inner :=
  (composeId s.node (s.nextServer + 1), { s with nextServer := s.nextServer + 1 })

def insertServer (s : Inner) (server : Server) : Inner :=
  let s := s.record .upsert (.server server)
  { s with servers := s.servers.insert server }

def updateServer (s : Inner) (server : Server) : Inner :=
  let s := s.record .upsert (.server server)
  { s with servers := s.servers.insert server }

def getServer (s : Inner) (id : ServerId) : Option Server := s.servers.get id

def findBySlug (s : Inner) (slug : String) : Option Server :=
  s.servers.rows.find? (fun g => g.slug == slug)

/-! ## `MembershipStore` -/

def upsertMembership (s : Inner) (membership : Membership) : Inner :=
  let s := s.record .upsert (.membership membership)
  { s with memberships := s.memberships.insert membership }

def getMembership (s : Inner) (user : UserId) (server : ServerId) : Option Membership :=
  s.memberships.member user server

/-- `MembershipStore::list_for_server`. -/
def listMembers (s : Inner) (server : ServerId) : List Membership :=
  s.memberships.rows.filter (fun m => m.serverId == server)

def citizenCount (s : Inner) (server : ServerId) : Nat := s.memberships.citizenCount server

def admittedSince (s : Inner) (server : ServerId) (since : Timestamp) : Nat :=
  s.memberships.admittedSince server since

/-! ## `ChannelStore` -/

def nextChannelId (s : Inner) : ChannelId × Inner :=
  (composeId s.node (s.nextChannel + 1), { s with nextChannel := s.nextChannel + 1 })

def insertChannel (s : Inner) (channel : Channel) : Inner :=
  let s := s.record .upsert (.channel channel)
  { s with channels := s.channels.insert channel }

def getChannel (s : Inner) (id : ChannelId) : Option Channel := s.channels.get id

def findByName (s : Inner) (server : ServerId) (name : String) : Option Channel :=
  s.channels.rows.find? (fun c => c.serverId == server && c.name == name)

/-- The messages of the channel go with it. -/
def removeChannel (s : Inner) (id : ChannelId) : Bool × Inner :=
  match s.channels.get id with
  | none => (false, s)
  | some removed =>
    let s := { s with channels := s.channels.erase id }
    let s := s.record .delete (.channel removed)
    (true, { s with messages := s.messages.retain (fun m => m.channelId != id) })

/-! ## `MessageStore` -/

def nextMessageId (s : Inner) : MessageId × Inner :=
  (composeId s.node (s.nextMessage + 1), { s with nextMessage := s.nextMessage + 1 })

def insertMessage (s : Inner) (message : Message) : Inner :=
  let s := s.record .upsert (.message message)
  { s with messages := s.messages.insert message }

def updateMessage (s : Inner) (message : Message) : Inner :=
  let s := s.record .upsert (.message message)
  { s with messages := s.messages.insert message }

def getMessage (s : Inner) (id : MessageId) : Option Message := s.messages.get id

/-- In the order of the ids. -/
def listForChannel (s : Inner) (channel : ChannelId) : List Message :=
  s.messages.rows.filter (fun m => m.channelId == channel)

/-! ## `ReactionStore` -/

def addReaction (s : Inner) (reaction : Reaction) : Bool × Inner :=
  if s.reactions.any (fun r => r.messageId == reaction.messageId && r.user == reaction.user &&
      r.emoji == reaction.emoji) then
    (false, s)
  else
    let s := s.record .upsert (.reaction reaction)
    (true, { s with reactions := s.reactions ++ [reaction] })

def removeReaction (s : Inner) (message : MessageId) (user : UserId) (emoji : String) :
    Bool × Inner :=
  let kept := s.reactions.filter
    (fun r => !(r.messageId == message && r.user == user && r.emoji == emoji))
  if kept.length != s.reactions.length then
    let s := { s with reactions := kept }
    (true, s.record .delete (.reaction ⟨message, user, emoji⟩))
  else
    (false, { s with reactions := kept })

/-- `ReactionStore::list_for_message`. -/
def listReactions (s : Inner) (message : MessageId) : List Reaction :=
  s.reactions.filter (fun r => r.messageId == message)

def userHasAny (s : Inner) (message : MessageId) (user : UserId) : Bool :=
  s.reactions.any (fun r => r.messageId == message && r.user == user)

/-! ## `ProposalStore` and `VoteStore` -/

def nextProposalId (s : Inner) : ProposalId × Inner :=
  (composeId s.node (s.nextProposal + 1), { s with nextProposal := s.nextProposal + 1 })

def insertProposal (s : Inner) (proposal : Proposal) : Inner :=
  let s := s.record .upsert (.proposal proposal)
  { s with proposals := s.proposals.insert proposal }

def updateProposal (s : Inner) (proposal : Proposal) : Inner :=
  let s := s.record .upsert (.proposal proposal)
  { s with proposals := s.proposals.insert proposal }

def getProposal (s : Inner) (id : ProposalId) : Option Proposal := s.proposals.get id

def listProposalsForServer (s : Inner) (server : ServerId) : List Proposal :=
  s.proposals.rows.filter (fun p => p.serverId == server)

def upsertVote (s : Inner) (vote : Vote) : Inner :=
  let s := s.record .upsert (.vote vote)
  { s with votes := recordVote s.votes vote }

def listForProposal (s : Inner) (proposal : ProposalId) : List Vote :=
  s.votes.filter (fun v => v.proposalId == proposal)

/-! ## `EmojiStore` and `EmojiVoteStore` -/

def nextEmojiId (s : Inner) : EmojiId × Inner :=
  (composeId s.node (s.nextEmoji + 1), { s with nextEmoji := s.nextEmoji + 1 })

def insertEmoji (s : Inner) (emoji : Emoji) : Inner :=
  let s := s.record .upsert (.emoji emoji)
  { s with emojis := s.emojis.insert emoji }

def getEmoji (s : Inner) (id : EmojiId) : Option Emoji := s.emojis.get id

def findEmoji (s : Inner) (server : ServerId) (name : String) : Option Emoji :=
  s.emojis.rows.find? (fun e => e.serverId == server && e.name == name)

/-- `EmojiStore::list_for_server`, in the order of the ids. -/
def listEmojis (s : Inner) (server : ServerId) : List Emoji :=
  s.emojis.rows.filter (fun e => e.serverId == server)

def upsertEmojiVote (s : Inner) (vote : EmojiVote) : Inner :=
  let s := s.record .upsert (.emojiVote vote)
  { s with emojiVotes := recordEmojiVote s.emojiVotes vote }

def emojiVotesForServer (s : Inner) (server : ServerId) : List EmojiVote :=
  s.emojiVotes.filter (fun v => v.serverId == server)

def myEmojiVote (s : Inner) (emoji : EmojiId) (voter : UserId) : Option Bool :=
  (s.emojiVotes.find? (fun v => v.emojiId == emoji && v.voter == voter)).map (·.isUp)

/-! ## `RuleStore` -/

def nextRuleId (s : Inner) : RuleId × Inner :=
  (composeId s.node (s.nextRule + 1), { s with nextRule := s.nextRule + 1 })

def insertRule (s : Inner) (rule : Rule) : Inner :=
  let s := s.record .upsert (.rule rule)
  { s with rules := s.rules.insert rule }

def removeRule (s : Inner) (id : RuleId) : Bool × Inner :=
  match s.rules.get id with
  | some removed =>
    let s := { s with rules := s.rules.erase id }
    (true, s.record .delete (.rule removed))
  | none => (false, s)

/-! ## `RoleStore` -/

def nextRoleId (s : Inner) : RoleId × Inner :=
  (composeId s.node (s.nextRole + 1), { s with nextRole := s.nextRole + 1 })

def insertRole (s : Inner) (role : Role) : Inner :=
  let s := s.record .upsert (.role role)
  { s with roles := s.roles.insert role }

def getRole (s : Inner) (id : RoleId) : Option Role := s.roles.get id

def findRole (s : Inner) (server : ServerId) (name : String) : Option Role :=
  s.roles.rows.find? (fun r => r.serverId == server && r.name == name)

/-- The assignments to the role go with it. -/
def removeRole (s : Inner) (id : RoleId) : Bool × Inner :=
  match s.roles.get id with
  | none => (false, s)
  | some removed =>
    let s := { s with roles := s.roles.erase id }
    let s := s.record .delete (.role removed)
    (true, { s with roleAssignments := s.roleAssignments.filter (fun a => a.roleId != id) })

def assign (s : Inner) (assignment : RoleAssignment) : Bool × Inner :=
  if s.roleAssignments.any
      (fun a => a.roleId == assignment.roleId && a.user == assignment.user) then
    (false, s)
  else
    let s := s.record .upsert (.roleAssignment assignment)
    (true, { s with roleAssignments := s.roleAssignments ++ [assignment] })

def unassign (s : Inner) (role : RoleId) (user : UserId) : Bool × Inner :=
  match s.roleAssignments.find? (fun a => a.roleId == role && a.user == user) with
  | none => (false, s)
  | some assignment =>
    let kept := s.roleAssignments.filter (fun a => !(a.roleId == role && a.user == user))
    let s := { s with roleAssignments := kept }
    (true, s.record .delete (.roleAssignment assignment))

def holders (s : Inner) (role : RoleId) : List UserId :=
  (s.roleAssignments.filter (fun a => a.roleId == role)).map (·.user)

/-! ## `InviteStore` -/

def addInvite (s : Inner) (invite : Invite) : Inner :=
  let s := s.record .upsert (.invite invite)
  { s with invites := s.invites.insert invite }

def inviteByHash (s : Inner) (codeHash : String) : Option Invite := s.invites.get codeHash

def revokeInvite (s : Inner) (codeHash : String) : Inner :=
  match s.invites.get codeHash with
  | some invite =>
    let invite := { invite with isRevoked := true }
    let s := s.record .upsert (.invite invite)
    { s with invites := s.invites.insert invite }
  | none => s

/-! ## `KeyDirectoryStore` and `ChannelKeyStore` -/

def putKeys (s : Inner) (keys : UserKeys) : Inner :=
  let s := s.record .upsert (.userKeys keys)
  { s with userKeys := s.userKeys.insert keys }

def putGrant (s : Inner) (grant : ChannelKeyGrant) : Inner :=
  let s := s.record .upsert (.channelGrant grant)
  { s with channelGrants := s.channelGrants.insert grant }

/-! ## `DmStore`, `BlockStore` and `FriendStore` -/

def nextDmId (s : Inner) : DmId × Inner :=
  (composeId s.node (s.nextDm + 1), { s with nextDm := s.nextDm + 1 })

def insertDm (s : Inner) (message : DmMessage) : Inner :=
  let s := s.record .upsert (.dm message)
  { s with dms := s.dms ++ [message] }

/-- In the order of the ids. -/
def conversation (s : Inner) (a b : UserId) : List DmMessage :=
  (s.dms.filter (fun m => m.isBetween a b)).mergeSort (fun m m' => m.id ≤ m'.id)

def addBlock (s : Inner) (block : Block) : Bool × Inner :=
  if s.blocks.any (fun b => b.blocker == block.blocker && b.blocked == block.blocked) then
    (false, s)
  else
    let s := s.record .upsert (.block block)
    (true, { s with blocks := s.blocks ++ [block] })

def blocksInvolving (s : Inner) (who : UserId) : List Block :=
  s.blocks.filter (fun b => b.blocker == who || b.blocked == who)

def addFriendship (s : Inner) (friendship : Friendship) : Bool × Inner :=
  if s.friends.any (fun f => f.isBetween friendship.requester friendship.addressee) then (false, s)
  else
    let s := s.record .upsert (.friendship friendship)
    (true, { s with friends := s.friends ++ [friendship] })

def updateFriendship (s : Inner) (friendship : Friendship) : Inner :=
  if s.friends.any (fun f => f.isBetween friendship.requester friendship.addressee) then
    { s with friends := replaceFriendship friendship s.friends }.record .upsert
      (.friendship friendship)
  else s

def friendshipBetween (s : Inner) (a b : UserId) : Option Friendship :=
  s.friends.find? (fun f => f.isBetween a b)

def friendshipsInvolving (s : Inner) (who : UserId) : List Friendship :=
  s.friends.filter (fun f => f.requester == who || f.addressee == who)

/-! ## `MediaStore` and `VerificationTokenStore` -/

/-- `format!("{n:x}")`. -/
def hex (n : Nat) : String := String.ofList (Nat.toDigits 16 n)

/-- The storage key is made of the system clock's nanoseconds and a counter. -/
def putMedia (s : Inner) (nanos : Nat) (contentType : String) (bytes : List UInt8) :
    String × Inner :=
  let seq := s.mediaSeq + 1
  let key := hex nanos ++ hex seq
  (key, { s with mediaSeq := seq, media := s.media.insert ⟨key, contentType, bytes⟩ })

def getMedia (s : Inner) (key : String) : Option Blob := s.media.get key

def deleteMedia (s : Inner) (key : String) : Inner :=
  { s with media := s.media.erase key }

def addToken (s : Inner) (token : VerificationToken) : Inner :=
  { s with verificationTokens := s.verificationTokens.insert token }

/-- Expired tokens are pruned first, then the token is spent. -/
def takeToken (s : Inner) (tokenHash : String) (now : Int) : Option UserId × Inner :=
  let live := s.verificationTokens.retain (fun t => t.expiresAt > now)
  ((live.get tokenHash).map (·.userId), { s with verificationTokens := live.erase tokenHash })

def rememberNonce (s : Inner) (node : NodeId) (nonce : String) (now expiryAt : Int64) :
    Bool × Inner :=
  match s.nonces.remember node nonce now expiryAt with
  | (isNew, nonces) => (isNew, { s with nonces := nonces })

end Inner

end Democrachat
