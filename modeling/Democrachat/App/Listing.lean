import Democrachat.App.Errors
import Democrachat.App.World
import Democrachat.Domain.Text

/-!
# Messages as they are read

The reading side of `app/src/chat_service.rs` and `domain/src/chat/reaction.rs`, and the
conversations of `app/src/social_service.rs`, as they answer in one state.
-/

namespace Democrachat

open Library

def MessageError.display : MessageError → String
  | noSuchUser handle => noSuchUserText handle
  | noSuchServer slug => "no such server: '" ++ slug ++ "'"
  | noSuchChannel name => "no such channel: '#" ++ name ++ "'"
  | noSuchMessage id => "no such message: " ++ id.display
  | notAMember handle => "'" ++ handle ++ "' is not a member of this server and cannot post"
  | sanctioned handle => "'" ++ handle ++ "' is banned from this server"
  | notTheAuthor => "only the author may edit or delete their message"
  | emptyBody => "message body must not be empty"
  | crossChannelReply => "cannot reply to a message in a different channel"
  | channelEncrypted => "this channel is encrypted; post a sealed message"
  | notEncrypted => "this channel is not encrypted"

/-! ## Reactions -/

/-- How often each emoji stands there, in the order of the emojis. -/
abbrev EmojiCounts := Table (Prod.fst : String × Nat → String)

def EmojiCounts.count (counts : EmojiCounts) (r : Reaction) : EmojiCounts :=
  counts.insert (r.emoji, ((counts.get r.emoji).map Prod.snd).getD 0 + 1)

def summarizeReactions (reactions : List Reaction) : List (String × Nat) :=
  (reactions.foldl EmojiCounts.count .empty).rows

def Inner.messageReactions (s : Inner) (messageId : MessageId) : List (String × Nat) :=
  summarizeReactions (s.listReactions messageId)

/-! ## Messages -/

def Inner.channelMessages (s : Inner) (serverSlug channelName : String) :
    Except MessageError (List Message) := do
  let server ← (s.findBySlug (trim serverSlug)).elim (.error (.noSuchServer serverSlug)) .ok
  let channel ← (s.findByName server.id (normalizeChannelName channelName)).elim
    (.error (.noSuchChannel channelName)) .ok
  return s.listForChannel channel.id

/-- Whether the viewer gets to see the message, of which only the author and the time count. -/
def Inner.isVisible (s : Inner) (sid : ServerId) (viewerId : Option UserId)
    (viewerJoined : Timestamp) (m : Message) : Bool :=
  if viewerId = some m.author then true
  else
    match s.getMembership m.author sid with
    | some author => author.showsMessageTo m.createdAt viewerJoined
    | none => true

/-- Who is no member is taken to join now. -/
def World.channelMessagesFor (w : World) (viewerHandle serverSlug channelName : String) :
    Except MessageError (List Message) := do
  let all ← w.store.channelMessages serverSlug channelName
  let server ← (w.store.findBySlug (trim serverSlug)).elim (.error (.noSuchServer serverSlug)) .ok
  let viewerId := (w.store.findByHandle (trim viewerHandle)).map (·.id)
  let viewerJoined := ((viewerId.bind (fun id => w.store.getMembership id server.id)).map
    (·.joinedAt)).getD w.now
  return all.filter (w.store.isVisible server.id viewerId viewerJoined)

/-! ## Direct messages -/

/-- Between users that are both known. -/
def World.conversation (w : World) (aHandle bHandle : String) : List DmMessage :=
  match w.store.findByHandle (trim aHandle), w.store.findByHandle (trim bHandle) with
  | some a, some b => w.store.conversation a.id b.id
  | _, _ => []

end Democrachat
