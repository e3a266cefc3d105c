import Democrachat.App.World
import Democrachat.Domain.EmojiRanking
import Democrachat.Domain.Text

/-!
# The emojis as they are ranked

`ranked_emojis` of `app/src/emoji_service.rs`, as it answers in one state.
-/

namespace Democrachat

open Library

structure RankedEmoji where
  id : EmojiId
  name : String
  url : String
  score : Int
  standing : EmojiStanding
  myVote : Option Bool
deriving DecidableEq

/-- The net votes of each emoji that has been voted on. -/
abbrev EmojiScores := Table (Prod.fst : EmojiId × Int → EmojiId)

def EmojiScores.scoreOf (scores : EmojiScores) (id : EmojiId) : Int :=
  ((scores.get id).map Prod.snd).getD 0

def EmojiScores.add (scores : EmojiScores) (v : EmojiVote) : EmojiScores :=
  scores.insert (v.emojiId, scores.scoreOf v.emojiId + if v.isUp then 1 else -1)

/-- The highest score first, of equal ones the older emoji. -/
def RankedEmoji.isBefore (a b : RankedEmoji) : Bool :=
  decide (b.score < a.score) || (decide (b.score = a.score) && decide (a.id ≤ b.id))

namespace Inner

variable (s : Inner)

/-- The franchised members of the server. -/
def emojiCitizens (server : ServerId) : List UserId :=
  ((s.listMembers server).filter (·.isFranchised)).map (·.userId)

def emojiScores (server : ServerId) : EmojiScores :=
  ((s.emojiVotesForServer server).filter
    (fun v => (s.emojiCitizens server).contains v.voter)).foldl EmojiScores.add .empty

def rankedEmojis (serverSlug viewerHandle : String) : List RankedEmoji :=
  match s.findBySlug (trim serverSlug) with
  | none => []
  | some server =>
    let emojis := (s.listEmojis server.id).mergeSort (fun a b => decide (a.id ≤ b.id))
    let scores := emojis.map (fun e => (s.emojiScores server.id).scoreOf e.id)
    let standings := rankEmojis scores
    let viewer := (s.findByHandle (trim viewerHandle)).map (·.id)
    let items := (emojis.zipIdx.filter
      (fun p => (standings.getD p.2 .archived).isListed)).map (fun p =>
        { id := p.1.id
          name := p.1.name
          url := p.1.url
          score := scores.getD p.2 0
          standing := standings.getD p.2 .archived
          myVote := viewer.bind (s.myEmojiVote p.1.id) })
    items.mergeSort RankedEmoji.isBefore

end Inner

end Democrachat
