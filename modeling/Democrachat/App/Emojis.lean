import Democrachat.App.Errors
import Democrachat.App.World
import Democrachat.Domain.Text

/-!
# Custom emojis

The writing use-cases of `app/src/emoji_service.rs`.
-/

namespace Democrachat

open Library Req

def addEmoji (adderHandle serverSlug name url : String) : Req World EmojiError Emoji := do
  let server ← okOr (← ask (·.findBySlug (trim serverSlug))) (.noSuchServer serverSlug)
  let user ← okOr (← ask (·.findByHandle (trim adderHandle))) (.noSuchUser adderHandle)
  let membership ← ask (·.getMembership user.id server.id)
  let _ ← okOr (membership.filter Membership.isFranchised) .notACitizen
  let name := normalizeEmojiName name
  ensure (!name.isEmpty) .badName
  let taken ← ask (·.findEmoji server.id name)
  ensure taken.isNone (.nameTaken name)
  let id ← transact (·.nextEmojiId)
  let now ← clockNow
  let emoji : Emoji := ⟨id, server.id, name, url, user.id, now⟩
  write (·.insertEmoji emoji)
  return emoji

def voteEmoji (voterHandle serverSlug : String) (emojiId : EmojiId) (isUp : Bool) :
    Req World EmojiError Unit := do
  let server ← okOr (← ask (·.findBySlug (trim serverSlug))) (.noSuchServer serverSlug)
  let user ← okOr (← ask (·.findByHandle (trim voterHandle))) (.noSuchUser voterHandle)
  let membership ← ask (·.getMembership user.id server.id)
  let _ ← okOr (membership.filter Membership.isFranchised) .notACitizen
  let found ← ask (·.getEmoji emojiId)
  let emoji ← okOr (found.filter (fun e => e.serverId == server.id)) (.noSuchEmoji emojiId)
  write (·.upsertEmojiVote ⟨server.id, emoji.id, user.id, isUp⟩)

end Democrachat
