import Democrachat.App.World
import Democrachat.Domain.Mentions

/-!
# Who a message body addresses

The reading side of `app/src/role_service.rs` and `app/src/mention.rs`, as it answers on one
state of the store.
-/

namespace Democrachat

inductive MentionKind where
  | user | standingRole | role | unknown
deriving DecidableEq

def MentionKind.asStr : MentionKind → String
  | user => "user"
  | standingRole => "standing_role"
  | role => "role"
  | unknown => "unknown"

structure ResolvedMention where
  token : String
  kind : MentionKind
  handles : List String
deriving DecidableEq

def ResolvedMention.isResolved (m : ResolvedMention) : Bool := m.kind != .unknown

namespace Inner

variable (s : Inner)

/-- The handles of those of the accounts that there are. -/
def handlesOf (users : List UserId) : List String :=
  (users.filterMap s.getUser).map (·.handle)

def membersAdmittedBy (sid : ServerId) (standing : StandingRole) : List String :=
  s.handlesOf (((s.listMembers sid).filter (fun m => standing.admits m.tier)).map (·.userId))

/-- A standing role before a custom role, and a role before a member. -/
def resolveOne (sid : ServerId) (token : String) : ResolvedMention :=
  match StandingRole.fromToken token with
  | some standing => ⟨token, .standingRole, s.membersAdmittedBy sid standing⟩
  | none =>
    match s.findRole sid token with
    | some role => ⟨token, .role, s.handlesOf (s.holders role.id)⟩
    | none =>
      match s.findByHandle token with
      | some user =>
        if (s.getMembership user.id sid).isSome then ⟨token, .user, [user.handle]⟩
        else ⟨token, .unknown, []⟩
      | none => ⟨token, .unknown, []⟩

def resolveMentions (serverSlug body : String) : List ResolvedMention :=
  match s.findBySlug (trim serverSlug) with
  | some server => (parseMentions body).map (s.resolveOne server.id)
  | none => []

/-- The handles that the mentions address, each one once. -/
def mentionedHandles (serverSlug body : String) : List String :=
  ((s.resolveMentions serverSlug body).flatMap (·.handles)).foldl pushNew []

end Inner

end Democrachat
