import Democrachat.Domain.User

/-!
# The social graph

`domain/src/social` and `domain/src/keys`: what belongs to users and to no
server.
-/

namespace Democrachat

structure DmMessage where
  id : DmId
  sender : UserId
  recipient : UserId
  sealedForRecipient : String
  sealedForSender : String
  createdAt : Timestamp
deriving DecidableEq

def DmMessage.isBetween (m : DmMessage) (a b : UserId) : Bool :=
  (m.sender == a && m.recipient == b) || (m.sender == b && m.recipient == a)

structure Block where
  blocker : UserId
  blocked : UserId
  createdAt : Timestamp
deriving DecidableEq

inductive FriendStatus where
  | pending | accepted
deriving DecidableEq

structure Friendship where
  requester : UserId
  addressee : UserId
  status : FriendStatus
  createdAt : Timestamp
deriving DecidableEq

def Block.isBetween (block : Block) (a b : UserId) : Bool :=
  (block.blocker == a && block.blocked == b) || (block.blocker == b && block.blocked == a)

namespace Friendship

def request (requester addressee : UserId) (createdAt : Timestamp) : Friendship :=
  ⟨requester, addressee, .pending, createdAt⟩

def accept (f : Friendship) : Friendship := { f with status := .accepted }

def areFriends (f : Friendship) : Bool := f.status == .accepted

/-- The record concerns the two, in either role. -/
def isBetween (f : Friendship) (a b : UserId) : Bool :=
  (f.requester == a && f.addressee == b) || (f.requester == b && f.addressee == a)

end Friendship

/-- A block in either direction silences the two; a friends-only recipient hears
accepted friends alone. -/
def canDm (sender recipient : UserId) (recipientPolicy : DmPolicy) (blocks : List Block)
    (friendships : List Friendship) : Bool :=
  if blocks.any (fun b => b.isBetween sender recipient) then false
  else
    match recipientPolicy with
    | .everyone => true
    | .friendsOnly => friendships.any (fun f => f.areFriends && f.isBetween sender recipient)

/-- A device key, wrapped under the user's password. -/
structure WrappedKey where
  salt : String
  nonce : String
  ciphertext : String
deriving DecidableEq

structure UserKeys where
  userId : UserId
  publicKey : String
  wrappedSecret : WrappedKey
deriving DecidableEq

end Democrachat
