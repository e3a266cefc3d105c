import Democrachat.App.Errors
import Democrachat.App.World
import Democrachat.Domain.Text

/-!
# Direct messages, blocks and friendships

`app/src/social_service.rs`.  A use-case that a forwarded command runs comes in
two forms, by handle and by id, over one core.
-/

namespace Democrachat

open Library Req

/-! ## Direct messages -/

/-- The gate reads what involves the recipient, and only metadata. -/
def mayDm (sender recipient : User) : Prog World Bool := do
  let blocks ← ask (·.blocksInvolving recipient.id)
  let friendships ← ask (·.friendshipsInvolving recipient.id)
  return canDm sender.id recipient.id recipient.dmPolicy blocks friendships

def sendSealedDmCore (sender recipient : User) (sealedForRecipient sealedForSender : String) :
    Req World DmError DmMessage := do
  ensure (sender.id != recipient.id) .self_
  ensure (!((trim sealedForRecipient).isEmpty || (trim sealedForSender).isEmpty)) .emptyBody
  let allowed ← mayDm sender recipient
  ensure allowed .notAllowed
  let id ← transact (·.nextDmId)
  let now ← clockNow
  let message : DmMessage :=
    ⟨id, sender.id, recipient.id, trim sealedForRecipient, trim sealedForSender, now⟩
  write (·.insertDm message)
  return message

def sendSealedDm (fromHandle toHandle sealedForRecipient sealedForSender : String) :
    Req World DmError DmMessage := do
  let sender ← okOr (← ask (·.findByHandle (trim fromHandle))) (.noSuchUser fromHandle)
  let recipient ← okOr (← ask (·.findByHandle (trim toHandle))) (.noSuchUser toHandle)
  sendSealedDmCore sender recipient sealedForRecipient sealedForSender

def sendSealedDmById (fromId toId : UserId) (sealedForRecipient sealedForSender : String) :
    Req World DmError DmMessage := do
  let sender ← okOr (← ask (·.getUser fromId)) (.noSuchUser fromId.display)
  let recipient ← okOr (← ask (·.getUser toId)) (.noSuchUser toId.display)
  sendSealedDmCore sender recipient sealedForRecipient sealedForSender

def setDmPolicy (handle : String) (policy : DmPolicy) : Req World SocialError Unit := do
  let user ← okOr (← ask (·.findByHandle (trim handle))) (.noSuchUser handle)
  write (·.updateUser { user with dmPolicy := policy })

/-! ## Blocks and friendships -/

/-- The two users by their handles. -/
def pairByHandle (handle other : String) : Req World SocialError (User × User) := do
  let user ← okOr (← ask (·.findByHandle (trim handle))) (.noSuchUser handle)
  let otherUser ← okOr (← ask (·.findByHandle (trim other))) (.noSuchUser other)
  return (user, otherUser)

/-- The two users by their ids. -/
def pairById (id other : UserId) : Req World SocialError (User × User) := do
  let user ← okOr (← ask (·.getUser id)) (.noSuchUser id.display)
  let otherUser ← okOr (← ask (·.getUser other)) (.noSuchUser other.display)
  return (user, otherUser)

def blockBetween (blocker blocked : User) : Req World SocialError Unit := do
  ensure (blocker.id != blocked.id) .self_
  let now ← clockNow
  let _ ← transact (·.addBlock ⟨blocker.id, blocked.id, now⟩)
  return ()

def blockUser (blockerHandle blockedHandle : String) : Req World SocialError Unit := do
  let (blocker, blocked) ← pairByHandle blockerHandle blockedHandle
  blockBetween blocker blocked

def blockUserById (blockerId blockedId : UserId) : Req World SocialError Unit := do
  let (blocker, blocked) ← pairById blockerId blockedId
  blockBetween blocker blocked

/-- A record between the two stays as it is. -/
def requestFriendBetween (requester addressee : User) : Req World SocialError Unit := do
  ensure (requester.id != addressee.id) .self_
  let now ← clockNow
  let _ ← transact (·.addFriendship (.request requester.id addressee.id now))
  return ()

def requestFriend (requesterHandle addresseeHandle : String) : Req World SocialError Unit := do
  let (requester, addressee) ← pairByHandle requesterHandle addresseeHandle
  requestFriendBetween requester addressee

def requestFriendById (requesterId addresseeId : UserId) : Req World SocialError Unit := do
  let (requester, addressee) ← pairById requesterId addresseeId
  requestFriendBetween requester addressee

/-- Only the addressee of a pending request accepts it. -/
def acceptFriendBetween (me other : User) : Req World SocialError Unit := do
  let found ← ask (·.friendshipBetween me.id other.id)
  let friendship ← okOr
    (found.filter (fun f => !f.areFriends && f.requester == other.id && f.addressee == me.id))
    .noPendingRequest
  write (·.updateFriendship friendship.accept)

def acceptFriend (meHandle otherHandle : String) : Req World SocialError Unit := do
  let (me, other) ← pairByHandle meHandle otherHandle
  acceptFriendBetween me other

def acceptFriendById (accepterId requesterId : UserId) : Req World SocialError Unit := do
  let (me, other) ← pairById accepterId requesterId
  acceptFriendBetween me other

end Democrachat
