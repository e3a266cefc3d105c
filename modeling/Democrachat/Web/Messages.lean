import Democrachat.App.Listing
import Democrachat.App.Mentions
import Democrachat.Web.Auth

/-!
# The listing of a channel

`list_messages` of `adapter-web/src/handlers.rs` with the answers of `adapter-web/src/dto.rs`.
-/

namespace Democrachat

/-! ## What is sent -/

structure MentionDto where
  token : String
  kind : String
deriving DecidableEq

structure ReplyRefDto where
  id : MessageId
  author : String
  excerpt : String
deriving DecidableEq

structure AttachmentDto where
  url : String
  contentType : String
  kind : String
  caption : String
  isSpoiler : Bool
deriving DecidableEq

structure MessageDto where
  id : MessageId
  author : String
  body : String
  keyEpoch : Option Nat
  ts : Int
  parent : Option MessageId
  isDeleted : Bool
  edited : Bool
  reactions : List (String × Nat)
  mentions : List MentionDto
  mentionsMe : Bool
  replyTo : Option ReplyRefDto
  attachments : List AttachmentDto
deriving DecidableEq

/-! ## The handler -/

/-- `split_whitespace` joined by single blanks. -/
def flatten (body : String) : List Char :=
  List.intercalate [' '] ((body.toList.splitOnP isWhitespace).filter (· ≠ []))

/-- The first eighty characters, and a mark where there are more. -/
def excerpt (body : String) : String :=
  let flat := flatten body
  String.ofList (flat.take 80 ++ if flat.length > 80 then ['\u2026'] else [])

def Inner.authorName (s : Inner) (author : UserId) : String :=
  (s.userHandle author).getD ("user" ++ author.display)

/-- The quote of the message that is answered, if it is among those listed. -/
def Inner.replyRef (s : Inner) (listed : List Message) (m : Message) : Option ReplyRefDto := do
  let pid ← m.parent
  let p ← listed.find? (fun p => p.id == pid)
  return {
    id := p.id
    author := s.authorName p.author
    excerpt :=
      if p.isDeleted then "[deleted]"
      else if p.keyEpoch.isSome then "🔒 encrypted"
      else excerpt p.body }

def AttachmentDto.of (a : Attachment) : AttachmentDto :=
  ⟨"/media/" ++ a.key, a.contentType, a.kind.asStr, a.caption, a.isSpoiler⟩

def buildMessageDto (s : Inner) (slug viewer : String) (listed : List Message) (m : Message) :
    MessageDto :=
  let replyTo := s.replyRef listed m
  let repliesToViewer := !viewer.isEmpty && replyTo.any (fun r => r.author == viewer)
  -- A sealed body is opaque: its mentions are resolved by the clients.
  let resolved := if m.isDeleted || m.keyEpoch.isSome then [] else s.resolveMentions slug m.body
  { id := m.id
    author := s.authorName m.author
    body := if m.isDeleted then "[deleted]" else m.body
    keyEpoch := m.keyEpoch
    ts := m.createdAt.secs
    parent := m.parent
    isDeleted := m.isDeleted
    edited := m.editedAt.isSome
    reactions := s.messageReactions m.id
    mentions := (resolved.filter (·.isResolved)).map (fun r => ⟨r.token, r.kind.asStr⟩)
    mentionsMe := repliesToViewer ||
      (!viewer.isEmpty && resolved.any (fun r => r.handles.any (· == viewer)))
    replyTo := replyTo
    attachments := m.attachments.map AttachmentDto.of }

/-- Who is not signed in has the empty handle. -/
def listMessages (signer : SessionSigner) (w : World) (cookies : Option String)
    (slug channel : String) : Except (Nat × String) (List MessageDto) :=
  let viewer := (currentActor signer w cookies).getD ""
  match w.channelMessagesFor viewer slug channel with
  | .ok messages => .ok (messages.map (buildMessageDto w.store slug viewer messages))
  | .error e => .error (400, e.display)

end Democrachat
