import Democrachat.Domain.Ids

/-!
# Accounts

`domain/src/user/user.rs` and `domain/src/social/dm_policy.rs`.
-/

namespace Democrachat

inductive DmPolicy where
  | everyone | friendsOnly
deriving DecidableEq

/-- A platform-wide account; standing within a server lives in `Membership`. -/
structure User where
  id : UserId
  handle : String
  createdAt : Timestamp
  isFranchiseBarred : Bool
  dmPolicy : DmPolicy
  passwordHash : String
  emailEnc : String
  emailVerified : Bool
deriving DecidableEq

namespace User

def new (id : UserId) (handle : String) (createdAt : Timestamp) : User where
  id := id
  handle := handle
  createdAt := createdAt
  isFranchiseBarred := false
  dmPolicy := .everyone
  passwordHash := ""
  emailEnc := ""
  emailVerified := false

def accountAgeDays (u : User) (now : Timestamp) : Int := now.daysSince u.createdAt

end User

end Democrachat
