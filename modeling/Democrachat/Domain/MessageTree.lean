import Democrachat.Domain.Chat
import Democrachat.Library.Forest

/-!
# Threads

`domain/src/chat/message_node.rs` and `domain/src/chat/build_message_tree.rs`.
-/

namespace Democrachat

open Library

/-- A message, the node's value, with the replies that stand below it. -/
abbrev MessageNode := Rose Message

/-- The `HashMap` of `build_message_tree`; a key that it does not have lists nothing. -/
abbrev Children := Option MessageId → List Message

/-- `children.entry(key).or_default().push(m)`. -/
def Children.push (children : Children) (key : Option MessageId) (m : Message) : Children :=
  Function.update children key (children key ++ [m])

/-- A reply to a message that is not there is a root. -/
def threadKey (present : List MessageId) (m : Message) : Option MessageId :=
  match m.parent with
  | some p => if present.contains p then some p else none
  | none => none

def childrenOf (messages : List Message) : Children :=
  let present := messages.map (·.id)
  let children := messages.foldl (fun c m => Children.push c (threadKey present m) m) (fun _ => [])
  fun key => (children key).mergeSort (fun a b => a.id ≤ b.id)

/-- The source recurses without a bound; `none` says that `depth` levels are not enough. -/
def buildLevel (depth : Nat) (parent : Option MessageId) (children : Children) :
    Option (List MessageNode) :=
  grow (·.id) children depth parent

def buildMessageTree (depth : Nat) (messages : List Message) : Option (List MessageNode) :=
  buildLevel depth none (childrenOf messages)

end Democrachat
