import Democrachat.Domain.Ids

/-!
# Channels, messages and reactions

`domain/src/chat`.
-/

namespace Democrachat

inductive HistoryMode where
  | open_ | ephemeral
deriving DecidableEq

structure Channel where
  id : ChannelId
  serverId : ServerId
  name : String
  topic : String
  createdAt : Timestamp
  isEncrypted : Bool
  historyMode : HistoryMode
deriving DecidableEq

def Channel.new (id : ChannelId) (serverId : ServerId) (name topic : String)
    (createdAt : Timestamp) : Channel :=
  ⟨id, serverId, name, topic, createdAt, false, .open_⟩

/-- Only the stored policy: the channel key is made and handed out by the clients. -/
def Channel.enableEncryption (c : Channel) (historyMode : HistoryMode) : Channel :=
  { c with isEncrypted := true, historyMode := historyMode }

inductive MediaKind where
  | image | video | audio
deriving DecidableEq

def MediaKind.asStr : MediaKind → String
  | image => "image"
  | video => "video"
  | audio => "audio"

structure Attachment where
  key : String
  contentType : String
  kind : MediaKind
  caption : String
  isSpoiler : Bool
deriving DecidableEq

structure Message where
  id : MessageId
  channelId : ChannelId
  serverId : ServerId
  author : UserId
  body : String
  keyEpoch : Option Nat
  parent : Option MessageId
  createdAt : Timestamp
  editedAt : Option Timestamp
  isDeleted : Bool
  attachments : List Attachment
deriving DecidableEq

namespace Message

def new (id : MessageId) (channelId : ChannelId) (serverId : ServerId) (author : UserId)
    (body : String) (parent : Option MessageId) (createdAt : Timestamp) : Message where
  id := id
  channelId := channelId
  serverId := serverId
  author := author
  body := body
  keyEpoch := none
  parent := parent
  createdAt := createdAt
  editedAt := none
  isDeleted := false
  attachments := []

def sealed_ (id : MessageId) (channelId : ChannelId) (serverId : ServerId) (author : UserId)
    (ciphertext : String) (keyEpoch : Nat) (parent : Option MessageId)
    (createdAt : Timestamp) : Message :=
  { new id channelId serverId author ciphertext parent createdAt with keyEpoch := some keyEpoch }

def edit (m : Message) (body : String) (at_ : Timestamp) : Message :=
  { m with body := body, editedAt := some at_ }

/-- Deleted messages stay in place so that replies keep theirs. -/
def tombstone (m : Message) : Message :=
  { m with body := "", attachments := [], isDeleted := true }

end Message

structure Reaction where
  messageId : MessageId
  user : UserId
  emoji : String
deriving DecidableEq

/-- One member's sealed copy of an encrypted channel's key. -/
structure ChannelKeyGrant where
  serverId : ServerId
  channelId : ChannelId
  epoch : Nat
  member : UserId
  sealedKey : String
deriving DecidableEq

/-- The primary key of the grants table; the server is no part of it. -/
def ChannelKeyGrant.key (g : ChannelKeyGrant) : ChannelId ×ₗ (Nat ×ₗ UserId) :=
  toLex (g.channelId, toLex (g.epoch, g.member))

end Democrachat
