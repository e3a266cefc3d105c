import Democrachat.Federation.Command
import Democrachat.Library.Rounds

/-!
# The write router

`adapter-federation/src/command/write_router.rs`: a command goes to every node that
owns one of its scopes, one after another, and the first failure ends it.  Between the
router and an owner stand `http/command_client.rs` and `http/command_router.rs`.
-/

namespace Democrachat.Federation

open Library

/-- Every node's store and clock. -/
abbrev Fleet := NodeId → World

/-- What becomes of one call of an owner's endpoint.  A message is what the client reports. -/
inductive Fate where
  | unreachable (message : String)
  | answered
  | answerLost (message : String)
deriving DecidableEq

/-- `unix_now`, on the clock that the services read too. -/
def unixNow (w : World) : Int64 := Int64.ofInt w.now.secs

structure WriteRouter where
  node : NodeId
  registry : Registry
  keypair : NodeKeypair
  /-- The owners to whose endpoint there is a client. -/
  hasPeer : NodeId → Bool

/-- What the client makes of the status that an owner's endpoint answers with. -/
def answerOf : Except ForwardError Unit → Except ForwardError Unit
  | .ok () => .ok ()
  | .error .unowned => .error .unowned
  | .error (.ownerUnreachable _) => .error (.ownerUnreachable "HTTP 502 Bad Gateway")
  | .error (.rejected _) => .error (.rejected "HTTP 422 Unprocessable Entity")

theorem answerOf_eq_ok {result : Except ForwardError Unit} :
    answerOf result = .ok () ↔ result = .ok () := by
  rcases result with (_ | _ | _) | _ <;> simp [answerOf]

def noRoute (owner : NodeId) : ForwardError :=
  .ownerUnreachable ("no route to owner node " ++ toString owner.val)

namespace WriteRouter

variable (wire : Wire) (text : CommandText) (router : WriteRouter)

/-- The owner of every scope, each node once. -/
def resolveOwners (registry : Registry) :
    List OwnedScope → List NodeId → Except ForwardError (List NodeId)
  | [], owners => .ok owners
  | scope :: scopes, owners =>
    match registry.ownerOf scope with
    | .error e => .error (.ownerUnreachable e.message)
    | .ok none => .error .unowned
    | .ok (some o) =>
      resolveOwners registry scopes (if o.owner ∈ owners then owners else owners ++ [o.owner])

/-- The nodes that have to commit the command. -/
def owners (cmd : Command) (fleet : Fleet) : Except ForwardError (List NodeId) :=
  match cmd.targetScopes (storeResolver (fleet router.node).store) with
  | [] => .error .unowned
  | scopes => resolveOwners router.registry scopes []

/-- `CommandClient::forward`, with what it does at the owner. -/
def forward (signed : SignedCommand) (fate : Fate) (owner : NodeId) (w : World) :
    Except ForwardError Unit × World :=
  match fate with
  | .unreachable message => (.error (.ownerUnreachable message), w)
  | .answered =>
    match (execute wire text router.registry owner signed (unixNow w)).exec w with
    | (result, w) => (answerOf result, w)
  | .answerLost message =>
    match (execute wire text router.registry owner signed (unixNow w)).exec w with
    | (_, w) => (.error (.ownerUnreachable message), w)

/-- One pass of the loop: here, or by the owner's endpoint. -/
def commit (fates : NodeId → Fate) (cmd : Command) (signed : SignedCommand) (owner : NodeId)
    (w : World) : Except ForwardError Unit × World :=
  if owner = router.node then cmd.run.exec w
  else if router.hasPeer owner then router.forward wire text signed (fates owner) owner w
  else (.error (noRoute owner), w)

/-- The nonce is the fresh one of this submission. -/
def submit (fates : NodeId → Fate) (nonce : String) (cmd : Command) (fleet : Fleet) :
    Except ForwardError Unit × Fleet :=
  match router.owners cmd fleet with
  | .error e => (.error e, fleet)
  | .ok owners =>
    let signed := cmd.signAt wire text router.keypair (unixNow (fleet router.node)) nonce
    visitEach (router.commit wire text fates cmd signed) owners fleet

end WriteRouter

end Democrachat.Federation
