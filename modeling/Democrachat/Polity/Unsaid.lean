import Democrachat.System.Mutations

/-!
# Requests that post nothing

Only a few requests write messages or reactions; any other leaves the reactions and the
counter of messages as they were, and makes no message anybody's.
-/

namespace Democrachat

open Library

/-- Who posted a message, and in which server. -/
def World.byline (w : World) (id : MessageId) : Option (UserId × ServerId) :=
  (w.store.getMessage id).map (fun m => (m.author, m.serverId))

structure Unsaid (w w' : World) : Prop where
  reactions : w'.store.reactions = w.store.reactions
  nextMessage : w'.store.nextMessage = w.store.nextMessage
  bylines : ∀ {id b}, w'.byline id = some b → w.byline id = some b

theorem Unsaid.refl (w : World) : Unsaid w w := ⟨rfl, rfl, fun h => h⟩

theorem Unsaid.trans (w w' w'' : World) (h : Unsaid w w') (h' : Unsaid w' w'') : Unsaid w w'' :=
  ⟨h'.reactions.trans h.reactions, h'.nextMessage.trans h.nextMessage,
    fun hid => h.bylines (h'.bylines hid)⟩

/-- A request that writes neither messages nor reactions. -/
theorem Touches.unsaid {parts : List Part} {w w' : World} (h : Touches parts w w')
    (hmessages : parts.contains .messages = false)
    (hreactions : parts.contains .reactions = false) : Unsaid w w' where
  reactions := h.spares.reactions hreactions
  nextMessage := h.spares.nextMessage hmessages
  bylines := by
    intro id b hid
    obtain ⟨m, hm, hbyline⟩ := Option.map_eq_some_iff.1 hid
    exact Option.map_eq_some_iff.2 ⟨m, h.get_messages hmessages hm, hbyline⟩

end Democrachat
