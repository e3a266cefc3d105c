import Democrachat.App.Servers

/-!
# Channels, messages and reactions

`app/src/chat_service.rs`.  A citizen's first reaction to somebody else's
message endorses its author, which is where `contribution` comes from.
-/

namespace Democrachat

open Library Req

def createChannel (founderHandle serverSlug name topic : String) :
    Req World ChannelError Channel := do
  let user ← okOr (← ask (·.findByHandle (trim founderHandle))) (.noSuchUser founderHandle)
  let server ← okOr (← ask (·.findBySlug (trim serverSlug))) (.noSuchServer serverSlug)
  let citizens ← ask (·.citizenCount server.id)
  let phase := Phase.fromCitizenCount citizens
  ensure (phase.founderMayProvision && user.id == server.founderId) .notProvisionable
  let name := normalizeChannelName name
  ensure (!name.isEmpty) .emptyName
  let taken ← ask (·.findByName server.id name)
  ensure taken.isNone (.nameTaken name)
  let id ← transact (·.nextChannelId)
  let now ← clockNow
  let channel := Channel.new id server.id name (trim topic) now
  write (·.insertChannel channel)
  return channel

/-- A member who may post: not missing, not sanctioned. -/
def ensureMayPost (membership : Option Membership) (handle : String) :
    Req World MessageError Unit :=
  match membership with
  | none => throw (.notAMember handle)
  | some m => ensure (!m.isSanctioned) (.sanctioned handle)

def resolvePoster (handle serverSlug channelName : String) :
    Req World MessageError (Channel × UserId) := do
  let user ← okOr (← ask (·.findByHandle (trim handle))) (.noSuchUser handle)
  let server ← okOr (← ask (·.findBySlug (trim serverSlug))) (.noSuchServer serverSlug)
  ensureMayPost (← ask (·.getMembership user.id server.id)) handle
  let name := normalizeChannelName channelName
  let channel ← okOr (← ask (·.findByName server.id name)) (.noSuchChannel channelName)
  return (channel, user.id)

/-- Plaintext may not enter an encrypted channel, and a message carries text or
an attachment. -/
def insertMessage (author : UserId) (channel : Channel) (body : String)
    (parent : Option MessageId) (attachments : List Attachment) :
    Req World MessageError Message := do
  ensure (!channel.isEncrypted) .channelEncrypted
  let body := trim body
  ensure (!(body.isEmpty && attachments.isEmpty)) .emptyBody
  let id ← transact (·.nextMessageId)
  let now ← clockNow
  let message := { Message.new id channel.id channel.serverId author body parent now with
    attachments := attachments }
  write (·.insertMessage message)
  return message

def postMessage (handle serverSlug channelName body : String) :
    Req World MessageError Message := do
  let (channel, author) ← resolvePoster handle serverSlug channelName
  insertMessage author channel body none []

def postMessageWithAttachments (handle serverSlug channelName body : String)
    (attachments : List Attachment) : Req World MessageError Message := do
  let (channel, author) ← resolvePoster handle serverSlug channelName
  insertMessage author channel body none attachments

/-- The thread parent of a sealed message has to stand in the same channel. -/
def resolveParent (channel : ChannelId) (parent : Option MessageId) :
    Req World MessageError (Option MessageId) :=
  match parent with
  | none => return none
  | some pid => do
    let p ← okOr (← ask (·.getMessage pid)) (.noSuchMessage pid)
    ensure (p.channelId == channel) .crossChannelReply
    return some p.id

def postSealedMessage (handle serverSlug channelName ciphertext : String) (keyEpoch : Nat)
    (parent : Option MessageId) : Req World MessageError Message := do
  let (channel, author) ← resolvePoster handle serverSlug channelName
  ensure channel.isEncrypted .notEncrypted
  let ciphertext := trim ciphertext
  ensure (!ciphertext.isEmpty) .emptyBody
  let parent ← resolveParent channel.id parent
  let id ← transact (·.nextMessageId)
  let now ← clockNow
  let message := Message.sealed_ id channel.id channel.serverId author ciphertext keyEpoch parent now
  write (·.insertMessage message)
  return message

def replyMessage (handle : String) (parentId : MessageId) (body : String) :
    Req World MessageError Message := do
  let parent ← okOr (← ask (·.getMessage parentId)) (.noSuchMessage parentId)
  let channel ← okOr (← ask (·.getChannel parent.channelId))
    (.noSuchChannel parent.channelId.display)
  let server ← okOr (← ask (·.getServer parent.serverId))
    (.noSuchServer parent.serverId.display)
  let user ← okOr (← ask (·.findByHandle (trim handle))) (.noSuchUser handle)
  ensureMayPost (← ask (·.getMembership user.id server.id)) handle
  insertMessage user.id channel body (some parent.id) []

def authoredMessage (handle : String) (messageId : MessageId) :
    Req World MessageError Message := do
  let user ← okOr (← ask (·.findByHandle (trim handle))) (.noSuchUser handle)
  let message ← okOr (← ask (·.getMessage messageId)) (.noSuchMessage messageId)
  ensure (message.author == user.id) .notTheAuthor
  return message

def editMessage (handle : String) (messageId : MessageId) (body : String) :
    Req World MessageError Message := do
  let body := trim body
  ensure (!body.isEmpty) .emptyBody
  let message ← authoredMessage handle messageId
  let now ← clockNow
  let message := message.edit body now
  write (·.updateMessage message)
  return message

def deleteBlobs : List Attachment → Prog World Unit
  | [] => return ()
  | a :: as => do
    write (·.deleteMedia a.key)
    deleteBlobs as

def deleteMessage (handle : String) (messageId : MessageId) : Req World MessageError Unit := do
  let message ← authoredMessage handle messageId
  deleteBlobs message.attachments
  write (·.updateMessage message.tombstone)

def maxMediaBytes : Nat := 25 * 1024 * 1024

/-- `content_type.split(sep).next()`. -/
def beforeFirst (sep : Char) (s : String) : String :=
  String.ofList (s.toList.takeWhile (· != sep))

def MediaKind.fromContentType (contentType : String) : Option MediaKind :=
  match toAsciiLowercase (trim (beforeFirst '/' contentType)) with
  | "image" => some .image
  | "video" => some .video
  | "audio" => some .audio
  | _ => none

/-- `nanos` is the system clock's reading, which is not the injected clock. -/
def storeMedia (nanos : Nat) (contentType : String) (bytes : List UInt8) :
    Req World MediaError (String × MediaKind) := do
  ensure (!bytes.isEmpty) .empty
  ensure (decide (bytes.length ≤ maxMediaBytes)) .tooLarge
  let base := toAsciiLowercase (trim (beforeFirst ';' contentType))
  ensure (base != "image/svg+xml") (.unsupportedType base)
  let kind ← okOr (MediaKind.fromContentType base) (.unsupportedType base)
  let key ← transact (·.putMedia nanos base bytes)
  return (key, kind)

def setHistorySharing (handle serverSlug : String) (shares : Bool) :
    Req World MessageError Unit := do
  let user ← okOr (← ask (·.findByHandle (trim handle))) (.noSuchUser handle)
  let server ← okOr (← ask (·.findBySlug (trim serverSlug))) (.noSuchServer serverSlug)
  let m ← okOr (← ask (·.getMembership user.id server.id)) (.notAMember handle)
  write (·.upsertMembership { m with sharesHistoryWithNewcomers := shares })

/-- Read a membership and, where there is one, write it back changed. -/
def editMembership (user : UserId) (server : ServerId) (f : Membership → Membership) :
    Prog World Unit := do
  match ← ask (·.getMembership user server) with
  | some m => write (·.upsertMembership (f m))
  | none => return ()

def adjustContribution (author : UserId) (server : ServerId) (delta : Int) : Prog World Unit :=
  editMembership author server (fun m => { m with contribution := max (m.contribution + delta) 0 })

def react (handle : String) (messageId : MessageId) (emoji : String) :
    Req World ReactionError Unit := do
  let emoji := trim emoji
  ensure (!emoji.isEmpty) .emptyEmoji
  let user ← okOr (← ask (·.findByHandle (trim handle))) (.noSuchUser handle)
  let message ← okOr (← ask (·.getMessage messageId)) (.noSuchMessage messageId)
  let reactor ← okOr (← ask (·.getMembership user.id message.serverId)) (.notAMember handle)
  let hasAny ← ask (·.userHasAny message.id user.id)
  let endorses := !hasAny && reactor.isFranchised && user.id != message.author
  let added ← transact (·.addReaction ⟨message.id, user.id, emoji⟩)
  if added && endorses then
    adjustContribution message.author message.serverId 1
  else
    return ()

def unreact (handle : String) (messageId : MessageId) (emoji : String) :
    Req World ReactionError Unit := do
  let emoji := trim emoji
  let user ← okOr (← ask (·.findByHandle (trim handle))) (.noSuchUser handle)
  let message ← okOr (← ask (·.getMessage messageId)) (.noSuchMessage messageId)
  let removed ← transact (·.removeReaction message.id user.id emoji)
  if removed then
    let stillReacting ← ask (·.userHasAny message.id user.id)
    let reactor ← ask (·.getMembership user.id message.serverId)
    if reactor.any (fun r => !stillReacting && r.isFranchised && user.id != message.author) then
      adjustContribution message.author message.serverId (-1)
    else
      return ()
  else
    return ()

end Democrachat
