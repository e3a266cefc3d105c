import Democrachat.App.Listing
import Democrachat.Domain.EmojiImage
import Democrachat.System.UseCases
import Democrachat.Web.Auth

/-!
# The handlers that write

`adapter-web/src/handlers.rs` and `social_handlers.rs` on a node without routers, behind
`middleware/csrf.rs`.  A request is what the extractors have made of it; what a use-case answers
and what is sent on to other browsers is left out.
-/

namespace Democrachat

open Library Req

/-! ## What the handlers look up -/

namespace Inner

variable (s : Inner)

def memberContribution (handle serverSlug : String) : Option Int := do
  let user ← s.findByHandle (trim handle)
  let server ← s.findBySlug (trim serverSlug)
  (s.getMembership user.id server.id).map (·.contribution)

def listRoles (serverSlug : String) : List Role :=
  match s.findBySlug (trim serverSlug) with
  | some server => s.roles.rows.filter (fun r => r.serverId == server.id)
  | none => []

def resolveMember (handle : String) : Except String UserId :=
  match s.findByHandle (trim handle) with
  | some user => .ok user.id
  | none => .error ("no such user: " ++ handle)

def resolveRole (serverSlug name : String) : Except String RoleId :=
  match (s.listRoles serverSlug).find? (fun r => r.name == normalizeRoleName name) with
  | some role => .ok role.id
  | none => .error ("no such role: " ++ name)

end Inner

namespace BallotKind

def all : List BallotKind :=
  [removeContent, ban, timeout, «recall», createChannel, deleteChannel, addRule, removeRule,
    amendCriteria, setJurySizing, setVoteWeighting, setWeightingScope, grantVoteWeight,
    setGovernanceSurface, manageRoles, setRehomingPolicy, setInvitePolicy]

/-- The name of the variant, as `Debug` writes it. -/
def debug : BallotKind → String
  | removeContent => "RemoveContent"
  | ban => "Ban"
  | timeout => "Timeout"
  | «recall» => "Recall"
  | createChannel => "CreateChannel"
  | deleteChannel => "DeleteChannel"
  | addRule => "AddRule"
  | removeRule => "RemoveRule"
  | amendCriteria => "AmendCriteria"
  | setJurySizing => "SetJurySizing"
  | setVoteWeighting => "SetVoteWeighting"
  | setWeightingScope => "SetWeightingScope"
  | grantVoteWeight => "GrantVoteWeight"
  | setGovernanceSurface => "SetGovernanceSurface"
  | manageRoles => "ManageRoles"
  | setRehomingPolicy => "SetRehomingPolicy"
  | setInvitePolicy => "SetInvitePolicy"

def fromName (name : String) : Option BallotKind := all.find? (fun k => k.debug == name)

end BallotKind

def VoteWeighting.fromName : String → Option VoteWeighting
  | "Equal" => some .equal
  | "ByContribution" => some .byContribution
  | "ByTenure" => some .byTenure
  | "ByRole" => some .byRole
  | _ => none

def WeightingScope.fromName : String → Option WeightingScope
  | "Both" => some .both
  | "JuriesOnly" => some .juriesOnly
  | "BallotsOnly" => some .ballotsOnly
  | "None" => some .none
  | _ => Option.none

inductive ProposeKindReq where
  | addRule (text : String)
  | removeRule (rule : RuleId)
  | createChannel (name topic : String)
  | deleteChannel (name : String)
  | ban (handle : String)
  | createRole (name : String)
  | deleteRole (role : String)
  | assignRole (handle role : String)
  | unassignRole (handle role : String)
  | setRehomingPolicy (isDisabled : Bool)
  | setInvitePolicy (isOpen : Bool)
  | amendCriteria (minAccountAgeDays minMembershipDays minContribution : Int)
  | setVoteWeighting (scheme : String)
  | setWeightingScope (scope : String)
  | setJurySizing (mode : String) (post comment : Nat)
  | setGovernanceSurface (kinds : List String)

def toProposalKind (s : Inner) (slug : String) : ProposeKindReq → Except String ProposalKind
  | .addRule text => .ok (.addRule text)
  | .removeRule rule => .ok (.removeRule rule)
  | .createChannel name topic => .ok (.createChannel name topic)
  | .deleteChannel name => .ok (.deleteChannel name)
  | .ban handle => (s.resolveMember handle).map .ban
  | .createRole name => .ok (.createRole name)
  | .deleteRole role => (s.resolveRole slug role).map .deleteRole
  | .assignRole handle role => do
    let user ← s.resolveMember handle
    let role ← s.resolveRole slug role
    return .assignRole user role
  | .unassignRole handle role => do
    let user ← s.resolveMember handle
    let role ← s.resolveRole slug role
    return .unassignRole user role
  | .setRehomingPolicy isDisabled => .ok (.setRehomingPolicy isDisabled)
  | .setInvitePolicy isOpen => .ok (.setInvitePolicy (if isOpen then .open_ else .closed))
  | .amendCriteria minAccountAgeDays minMembershipDays minContribution =>
    .ok (.amendCriteria ⟨minAccountAgeDays, minMembershipDays, minContribution⟩)
  | .setVoteWeighting scheme =>
    match VoteWeighting.fromName scheme with
    | some weighting => .ok (.setVoteWeighting weighting)
    | none => .error ("unknown vote weighting: " ++ scheme)
  | .setWeightingScope scope =>
    match WeightingScope.fromName scope with
    | some found => .ok (.setWeightingScope found)
    | none => .error ("unknown weighting scope: " ++ scope)
  | .setJurySizing mode post comment =>
    match mode with
    | "Sqrt" => .ok (.setJurySizing (.sqrt post comment))
    | "Proportion" => .ok (.setJurySizing (.proportion post comment))
    | "Fixed" => .ok (.setJurySizing (.fixed post comment))
    | other => .error ("unknown jury sizing mode: " ++ other)
  | .setGovernanceSurface kinds =>
    .ok (.setGovernanceSurface (kinds.filterMap BallotKind.fromName).toFinset)

structure AttachmentReq where
  key : String
  contentType : String
  caption : String
  isSpoiler : Bool

/-- What is no supported medium is dropped. -/
def AttachmentReq.attachment (a : AttachmentReq) : Option Attachment :=
  let base := trim (beforeFirst ';' a.contentType)
  (MediaKind.fromContentType base).map fun kind =>
    { key := a.key, contentType := base, kind, caption := a.caption, isSpoiler := a.isSpoiler }

/-! ## The application -/

structure WebApp where
  services : Services
  signer : SessionSigner
  /-- Argon2id: the password fits the hash. -/
  verifyPassword : String → String → Bool
  /-- The standard alphabet, with padding. -/
  base64 : String → Option (List UInt8)
  isDev : Bool
  secureCookies : Bool

namespace WebApp

/-- What only somebody who is signed in can ask for; the path of a social action names them. -/
inductive Action where
  | foundServer (name : String) (isPrivate : Bool)
  | createInvite (slug : String)
  | revokeInvite (slug codeHash : String)
  | acceptInvite (code : String)
  | joinServer (slug : String)
  | createChannel (slug name topic : String)
  | enfranchise (slug : String)
  | setHistorySharing (slug : String) (shares : Bool)
  | postMessage (slug channel body : String) (parent : Option MessageId)
      (attachments : List AttachmentReq)
  | uploadMedia (contentType : Option String) (bytes : List UInt8)
  | postSealedMessage (slug channel ciphertext : String) (keyEpoch : Nat)
      (parent : Option MessageId)
  | enableChannelEncryption (slug channel historyMode : String)
  | grantChannelKey (slug channel : String) (epoch : Nat) (member sealedKey : String)
  | react (id : MessageId) (emoji : String)
  | propose (slug : String) (kind : ProposeKindReq)
  | vote (id : ProposalId) (isAye : Bool)
  | addEmoji (slug name url : String) (image : Option String)
  | voteEmoji (slug : String) (id : EmojiId) (isUp : Bool)
  | publishKeys (publicKey : String) (wrappedSecret : WrappedKey)
  | devEndorse (slug : String)
  | setPolicy (self : String) (isFriendsOnly : Bool)
  | sendDm (self other sealedForRecipient sealedForSender : String)
  | block (self other : String)
  | requestFriend (self other : String)
  | acceptFriend (self other : String)

inductive Route where
  | login (handle password : String)
  | register (handle email password : String)
  | verify (token : String)
  | resend (handle : String)
  | logout
  | listProposals (slug : String)
  | advanceClock (days : Int)
  | act (action : Action)

/-- Whether the route is a `POST` or a `DELETE`. -/
def Route.isMutation : Route → Bool
  | verify _ | listProposals _ => false
  | _ => true

/-- What a request may draw at random. -/
structure Draws where
  account : Drawn
  code : String
  nanos : Nat

structure Request where
  route : Route
  cookies : Option String
  /-- `x-dc-csrf-token`. -/
  csrfHeader : Option String
  draws : Draws

inductive Answer where
  | refused (status : Nat) (text : String)
  | signedIn (session : UserSession)
  | signedOut
  /-- What the use-case answers, or its error. -/
  | served
deriving DecidableEq

/-- The header repeats the cookie. -/
def Request.passesCsrf (r : Request) : Bool :=
  match r.cookies.bind (cookieValue · "dc_csrf"), r.csrfHeader with
  | some c, some h => c ≠ "" ∧ c = h
  | _, _ => false

def sessionTtlSeconds : Int := 30 * 24 * 60 * 60

variable (app : WebApp)

/-! ## Signing in -/

def authenticate (w : World) (handle password : String) : Option User :=
  (w.store.findByHandle (trim handle)).filter fun user =>
    !user.passwordHash.isEmpty && app.verifyPassword password user.passwordHash

/-- The session that an account is given. -/
def newSession (w : World) (uid : UserId) : UserSession := ⟨uid, w.now.secs + sessionTtlSeconds⟩

def secureSuffix : String := if app.secureCookies then "; Secure" else ""

/-- The `Set-Cookie` header. -/
def sessionCookie (session : UserSession) : String :=
  "sid=" ++ app.signer.sign session ++ "; Path=/; HttpOnly; SameSite=Lax; Max-Age=" ++
    toString sessionTtlSeconds ++ app.secureSuffix

def clearSessionCookie : String :=
  "sid=; Path=/; HttpOnly; SameSite=Lax; Max-Age=0" ++ app.secureSuffix

/-! ## What a request asks of the services -/

/-- The image of a custom emoji: the uploaded one, or the one at the address. -/
def emojiUrl (url : String) (image : Option String) : Except String String :=
  match (image.map trim).filter (fun b64 => !b64.isEmpty) with
  | some b64 =>
    match app.base64 b64 with
    | none => .error "err.emoji_image_not_base64"
    | some bytes =>
      match validateEmojiImage bytes with
      | .error e => .error e.display
      | .ok format => .ok ("data:" ++ format.mime ++ ";base64," ++ b64)
  | none => if (trim url).isEmpty then .error "err.emoji_image_required" else .ok (trim url)

def Action.isDevOnly : Action → Bool
  | devEndorse _ => true
  | _ => false

/-- The user that the path of a social action names. -/
def Action.self? : Action → Option String
  | setPolicy self _ | sendDm self .. | block self _ | requestFriend self _ | acceptFriend self _ =>
    some self
  | _ => none

def Action.useCase (draws : Draws) (me : String) (s : Inner) : Action → Except String UseCase
  | foundServer name isPrivate => .ok (.op (.foundServer me name isPrivate))
  | createInvite slug => .ok (.op (.createInvite draws.code me slug))
  | revokeInvite slug codeHash => .ok (.op (.revokeInvite me slug codeHash))
  | acceptInvite code => .ok (.op (.acceptInvite me code))
  | joinServer slug => .ok (.op (.joinServer me slug))
  | createChannel slug name topic => .ok (.op (.createChannel me slug name topic))
  | enfranchise slug => .ok (.op (.tryEnfranchise me slug))
  | setHistorySharing slug shares => .ok (.op (.setHistorySharing me slug shares))
  | postMessage slug channel body parent attachments =>
    match parent, attachments.filterMap AttachmentReq.attachment with
    | some parent, _ => .ok (.op (.replyMessage me parent body))
    | none, [] => .ok (.op (.postMessage me slug channel body))
    | none, attached => .ok (.op (.postMessageWithAttachments me slug channel body attached))
  | uploadMedia contentType bytes =>
    .ok (.op (.storeMedia draws.nanos (contentType.getD "application/octet-stream") bytes))
  | postSealedMessage slug channel ciphertext keyEpoch parent =>
    .ok (.op (.postSealedMessage me slug channel ciphertext keyEpoch parent))
  | enableChannelEncryption slug channel historyMode =>
    .ok (.enableChannelEncryption me slug channel
      (if trim historyMode = "ephemeral" then .ephemeral else .open_))
  | grantChannelKey slug channel epoch member sealedKey =>
    .ok (.grantChannelKey me slug channel epoch member sealedKey)
  | react id emoji => .ok (.op (.react me id emoji))
  | propose slug kind => (toProposalKind s slug kind).map (fun kind => .op (.openProposal me slug kind))
  | vote id isAye => .ok (.op (.castVote me id isAye))
  | addEmoji slug name url image =>
    (app.emojiUrl url image).map (fun url => .addEmoji me slug name url)
  | voteEmoji slug id isUp => .ok (.voteEmoji me slug id isUp)
  | publishKeys publicKey wrappedSecret => .ok (.publishKeys me publicKey wrappedSecret)
  | devEndorse slug =>
    .ok (.op (.setContribution me slug ((s.memberContribution me slug).getD 0 + 5)))
  | setPolicy self isFriendsOnly =>
    .ok (.setDmPolicy self (if isFriendsOnly then .friendsOnly else .everyone))
  | sendDm self other sealedForRecipient sealedForSender =>
    .ok (.social (.sendSealedDm self other sealedForRecipient sealedForSender))
  | block self other => .ok (.social (.blockUser self other))
  | requestFriend self other => .ok (.social (.requestFriend self other))
  | acceptFriend self other => .ok (.social (.acceptFriend self other))

/-! ## The answer -/

/-- `require_actor` and, where the path names somebody, `require_self`. -/
def actorFor (w : World) (r : Request) (action : Action) : Except (Nat × String) String := do
  if action.isDevOnly && !app.isDev then .error (403, "err.dev_disabled")
  let me ← requireActor app.signer w r.cookies
  match action.self? with
  | none => return me
  | some self => if me = self then return me else .error (403, "err.forbidden_not_self")

def respond (w : World) (r : Request) : Answer × World :=
  if r.route.isMutation && !r.passesCsrf then (.refused 403 "CSRF check failed", w)
  else
    match r.route with
    | .login handle password =>
      match app.authenticate w handle password with
      | none => (.refused 401 "err.invalid_credentials", w)
      | some user =>
        if app.services.emailVerification.requiresVerification && !user.emailVerified then
          (.refused 403 "err.email_unverified", w)
        else (.signedIn (newSession w user.id), w)
    | .register handle email password =>
      match (app.services.registerWithPassword r.draws.account handle email password).exec w with
      | (.error _, w') => (.served, w')
      | (.ok registered, w') =>
        match registered.verificationToken with
        | some _ => (.served, w')
        | none => (.signedIn (newSession w' registered.user.id), w')
    | .verify token => (.served, app.services.serve w (.op (.verifyEmail token)))
    | .resend handle => (.served, app.services.serve w (.op (.issueResend r.draws.account handle)))
    | .logout => (.signedOut, w)
    | .listProposals slug => (.served, app.services.serve w (.op (.listProposals slug)))
    | .advanceClock days =>
      if app.isDev then (.served, app.services.serve w (.op (.setClock (w.now.plusDays days))))
      else (.refused 403 "err.dev_disabled", w)
    | .act action =>
      match app.actorFor w r action with
      | .error e => (.refused e.1 e.2, w)
      | .ok me =>
        match action.useCase app r.draws me w.store with
        | .error text => (.refused 400 text, w)
        | .ok u => (.served, app.services.serve w u)

/-! ## Traffic -/

/-- A request comes in, or time passes. -/
inductive Visit where
  | wait (now : Timestamp)
  | request (r : Request)

def visit (w : World) : Visit → World
  | .wait now => { w with now }
  | .request r => (app.respond w r).2

def run (w : World) (visits : List Visit) : World := visits.foldl app.visit w

end WebApp

end Democrachat
