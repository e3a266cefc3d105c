import Democrachat.Domain.Membership

/-!
# What the services answer when they refuse

`app/src/error` and `app/src/outcome.rs`.
-/

namespace Democrachat

inductive RegisterError where
  | handleTaken (handle : String)
  | emptyHandle
  | weakPassword (reason : String)
  | invalidEmail (reason : String)
  | emailTaken
  | hashFailed
deriving DecidableEq

inductive FoundError where
  | noSuchUser (handle : String)
  | slugTaken (slug : String)
  | emptyName
  | founderBarred
deriving DecidableEq

inductive InviteError where
  | noSuchUser (handle : String)
  | noSuchServer (slug : String)
  | notMember (slug : String)
  | closed (slug : String)
  | invalidCode
  | alreadyMember (slug : String)
deriving DecidableEq

inductive JoinError where
  | noSuchUser (handle : String)
  | noSuchServer (slug : String)
  | alreadyMember (slug : String)
deriving DecidableEq

inductive EnfranchiseError where
  | noSuchUser (handle : String)
  | noSuchServer (slug : String)
  | notAMember (handle : String)
  | alreadyCitizen (handle : String)
deriving DecidableEq

inductive EnfranchiseOutcome where
  | admitted
  | notEligible (unmet : List Unmet)
  | rateCapped (admittedThisWindow : Nat)
deriving DecidableEq

inductive ChannelError where
  | noSuchUser (handle : String)
  | noSuchServer (slug : String)
  | emptyName
  | nameTaken (name : String)
  | notProvisionable
deriving DecidableEq

inductive MessageError where
  | noSuchUser (handle : String)
  | noSuchServer (slug : String)
  | noSuchChannel (name : String)
  | noSuchMessage (id : MessageId)
  | notAMember (handle : String)
  | sanctioned (handle : String)
  | notTheAuthor
  | emptyBody
  | crossChannelReply
  | channelEncrypted
  | notEncrypted
deriving DecidableEq

inductive MediaError where
  | empty
  | tooLarge
  | unsupportedType (contentType : String)
deriving DecidableEq

inductive ReactionError where
  | noSuchUser (handle : String)
  | noSuchMessage (id : MessageId)
  | notAMember (handle : String)
  | emptyEmoji
deriving DecidableEq

inductive ProposeError where
  | noSuchUser (handle : String)
  | noSuchServer (slug : String)
  | notACitizen
  | notGoverned
  | notAllowedInPhase
deriving DecidableEq

inductive VoteError where
  | noSuchUser (handle : String)
  | noSuchProposal (id : ProposalId)
  | notACitizen
  | closed
deriving DecidableEq

inductive DmError where
  | noSuchUser (handle : String)
  | self_
  | notAllowed
  | emptyBody
deriving DecidableEq

inductive SocialError where
  | noSuchUser (handle : String)
  | self_
  | noPendingRequest
deriving DecidableEq

inductive ChannelKeyError where
  | noSuchUser (handle : String)
  | noSuchServer (slug : String)
  | noSuchChannel (name : String)
  | notAMember (handle : String)
  | notACitizen
  | notEncrypted
  | emptySeal
deriving DecidableEq

inductive KeyError where
  | noSuchUser (handle : String)
  /-- With the text of the hex decoder, which is not part of the repository. -/
  | badPublicKey
deriving DecidableEq

inductive EmojiError where
  | noSuchUser (handle : String)
  | noSuchServer (slug : String)
  | notACitizen
  | badName
  | nameTaken (name : String)
  | noSuchEmoji (id : EmojiId)
deriving DecidableEq

/-! ## Their texts, where a forwarder gets to see them -/

def noSuchUserText (handle : String) : String := "no such user: '" ++ handle ++ "'"

def VoteError.display : VoteError → String
  | noSuchUser handle => noSuchUserText handle
  | noSuchProposal id => "no such proposal: " ++ id.display
  | notACitizen => "only a citizen of this server may vote"
  | closed => "this proposal is closed"

def DmError.display : DmError → String
  | noSuchUser handle => noSuchUserText handle
  | self_ => "cannot send a direct message to yourself"
  | notAllowed => "you can't message this user"
  | emptyBody => "message body cannot be empty"

def SocialError.display : SocialError → String
  | noSuchUser handle => noSuchUserText handle
  | self_ => "cannot do that to yourself"
  | noPendingRequest => "no pending friend request from that user"

end Democrachat
