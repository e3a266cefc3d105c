import Democrachat.App.Accounts

/-!
# Founding, inviting and joining

The server use-cases of `app/src/services.rs`.
-/

namespace Democrachat

open Library Req

/-- The founder becomes citizen number one: the only way in that is not
`tryEnfranchise`. -/
def foundServerWithVisibility (founderHandle name : String) (isPrivate : Bool) :
    Req World FoundError Server := do
  let founder ← okOr (← ask (·.findByHandle (trim founderHandle))) (.noSuchUser founderHandle)
  ensure (!founder.isFranchiseBarred) .founderBarred
  let slug := slugify name
  ensure (!slug.isEmpty) .emptyName
  let taken ← ask (·.findBySlug slug)
  ensure taken.isNone (.slugTaken slug)
  let now ← clockNow
  let id ← transact (·.nextServerId)
  let server := { Server.new id slug (trim name) founder.id now with isPrivate := isPrivate }
  write (·.insertServer server)
  write (·.upsertMembership
    { Membership.joined founder.id server.id now with
      tier := .citizen, enfranchisedAt := some now })
  return server

def foundServer (founderHandle name : String) : Req World FoundError Server :=
  foundServerWithVisibility founderHandle name false

/-- Join as an ordinary member, with no vote. -/
def joinServer (handle serverSlug : String) : Req World JoinError Membership := do
  let user ← okOr (← ask (·.findByHandle (trim handle))) (.noSuchUser handle)
  let server ← okOr (← ask (·.findBySlug (trim serverSlug))) (.noSuchServer serverSlug)
  let existing ← ask (·.getMembership user.id server.id)
  ensure existing.isNone (.alreadyMember serverSlug)
  let now ← clockNow
  let m := Membership.joined user.id server.id now
  write (·.upsertMembership m)
  return m

namespace Services

variable (services : Services)

/-- `code` is the raw code drawn for this invite; only its digest is stored. -/
def createInvite (code handle serverSlug : String) : Req World InviteError String := do
  let user ← okOr (← ask (·.findByHandle (trim handle))) (.noSuchUser handle)
  let server ← okOr (← ask (·.findBySlug (trim serverSlug))) (.noSuchServer serverSlug)
  let membership ← ask (·.getMembership user.id server.id)
  ensure membership.isSome (.notMember serverSlug)
  ensure server.allowsMemberInvites (.closed serverSlug)
  let now ← clockNow
  write (·.addInvite (.new (services.hashCode code) server.id user.id now))
  return code

def acceptInvite (handle code : String) : Req World InviteError Membership := do
  let user ← okOr (← ask (·.findByHandle (trim handle))) (.noSuchUser handle)
  let found ← ask (·.inviteByHash (services.hashCode code))
  let invite ← okOr (found.filter Invite.isLive) .invalidCode
  let server ← okOr (← ask (·.getServer invite.serverId)) .invalidCode
  ensure server.allowsMemberInvites (.closed server.slug)
  let existing ← ask (·.getMembership user.id server.id)
  ensure existing.isNone (.alreadyMember server.slug)
  let now ← clockNow
  let m := Membership.joined user.id server.id now
  write (·.upsertMembership m)
  return m

end Services

def revokeInvite (handle serverSlug codeHash : String) : Req World InviteError Unit := do
  let user ← okOr (← ask (·.findByHandle (trim handle))) (.noSuchUser handle)
  let server ← okOr (← ask (·.findBySlug (trim serverSlug))) (.noSuchServer serverSlug)
  let membership ← ask (·.getMembership user.id server.id)
  ensure membership.isSome (.notMember serverSlug)
  let invite ← ask (·.inviteByHash codeHash)
  if invite.any (fun i => i.serverId == server.id) then
    write (·.revokeInvite codeHash)
  else
    return ()

end Democrachat
