import Democrachat.Domain.Governance

/-!
# Servers, their invites, rules, roles and emojis

`domain/src/server/server.rs`, `domain/src/server/invite.rs`,
`domain/src/rules.rs`, `domain/src/roles`, `domain/src/emoji.rs` and
`domain/src/emoji_vote.rs`.
-/

namespace Democrachat

structure Server where
  id : ServerId
  slug : String
  name : String
  founderId : UserId
  createdAt : Timestamp
  criteria : FranchiseCriteria
  enabledBallots : Finset BallotKind
  jurySizing : JurySizing
  voteWeighting : VoteWeighting
  weightingScope : WeightingScope
  isRehomingDisabled : Bool
  isPrivate : Bool
  invitePolicy : InvitePolicy
deriving DecidableEq

namespace Server

def new (id : ServerId) (slug name : String) (founderId : UserId) (createdAt : Timestamp) :
    Server where
  id := id
  slug := slug
  name := name
  founderId := founderId
  createdAt := createdAt
  criteria := .platformDefault
  enabledBallots := BallotKind.platformDefaultSurface
  jurySizing := .default
  voteWeighting := .equal
  weightingScope := .both
  isRehomingDisabled := false
  isPrivate := false
  invitePolicy := .open_

def allowsMemberInvites (s : Server) : Bool := s.invitePolicy.isOpen

def governs (s : Server) (kind : BallotKind) : Bool := decide (kind ∈ s.enabledBallots)

/-- The always-on kinds stay on, whatever the ballot listed. -/
def setGovernanceSurface (s : Server) (enabled : Finset BallotKind) : Server :=
  { s with enabledBallots := enabled ∪ BallotKind.alwaysOn }

/-- The scheme a ballot is counted under: the server's weighting where its scope
covers ballots, one citizen one vote elsewhere. -/
def ballotWeighting (s : Server) : VoteWeighting :=
  if s.weightingScope.appliesToBallots then s.voteWeighting else .equal

end Server

structure Invite where
  codeHash : String
  serverId : ServerId
  createdBy : UserId
  createdAt : Timestamp
  isRevoked : Bool
deriving DecidableEq

namespace Invite

def new (codeHash : String) (serverId : ServerId) (createdBy : UserId)
    (createdAt : Timestamp) : Invite :=
  ⟨codeHash, serverId, createdBy, createdAt, false⟩

def isLive (i : Invite) : Bool := !i.isRevoked

end Invite

structure Rule where
  id : RuleId
  serverId : ServerId
  text : String
  addedAt : Timestamp
deriving DecidableEq

structure Role where
  id : RoleId
  serverId : ServerId
  name : String
  createdAt : Timestamp
deriving DecidableEq

structure RoleAssignment where
  serverId : ServerId
  roleId : RoleId
  user : UserId
deriving DecidableEq

structure Emoji where
  id : EmojiId
  serverId : ServerId
  name : String
  url : String
  addedBy : UserId
  addedAt : Timestamp
deriving DecidableEq

structure EmojiVote where
  serverId : ServerId
  emojiId : EmojiId
  voter : UserId
  isUp : Bool
deriving DecidableEq

end Democrachat
