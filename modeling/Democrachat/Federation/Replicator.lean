import Democrachat.Federation.Replica

/-!
# The replicator

`adapter-federation/src/replicator.rs`, `is_transient.rs` and
`http/poll_peer.rs`.
-/

namespace Democrachat.Federation

/-- The failure is expected to resolve on its own. -/
def isTransient : AuthError → Bool
  | .unowned | .unknownNode | .registry _ => true
  | _ => false

/-- What one `ingest` reports. -/
structure Ingested where
  applied : Nat
  rejected : List AuthError
  applyErrors : List String
deriving DecidableEq

def Ingested.none : Ingested := ⟨0, [], []⟩

/-- The loop of `ingest`, from the highest handled position and the replica so far. -/
def ingestLoop (wire : Wire) (registry : Registry) :
    List ChangeEvent → Nat → Inner → Ingested → Nat × Inner × Ingested
  | [], high, s, out => (high, s, out)
  | event :: events, high, s, out =>
    let seq := match wire.peek event with
      | .ok part => part.seq
      | .error _ => 0
    match authorize wire registry (storeResolver s) event with
    | .ok part =>
      match applyIncoming wire part s with
      | (.ok _, s') =>
        ingestLoop wire registry events (max high part.seq) s' { out with applied := out.applied + 1 }
      | (.error e, s') =>
        ingestLoop wire registry events (max high part.seq) s'
          { out with applyErrors := out.applyErrors ++ [e] }
    | .error e =>
      if isTransient e then (high, s, { out with rejected := out.rejected ++ [e] })
      else
        ingestLoop wire registry events (max high seq) s
          { out with rejected := out.rejected ++ [e] }

/-- Authorize the events in order, apply the authorized ones and advance the
peer's cursor over the handled prefix. -/
def ingest (wire : Wire) (registry : Registry) (peer : NodeId) (events : List ChangeEvent)
    (s : Inner) : Ingested × Inner :=
  match ingestLoop wire registry events (s.replicationCursor peer) s .none with
  | (high, s', out) => (out, s'.advanceCursor peer high)

/-- `poll_peer`: one page from the peer, from this node's cursor for it, and how many
events it applied. -/
def pollPeer (wire : Wire) (registry : Registry) (peer : NodeId)
    (changesSince : Nat → Nat → Except String (List ChangeEvent)) (limit : Nat) (s : Inner) :
    Except String Nat × Inner :=
  match changesSince (s.replicationCursor peer) limit with
  | .error e => (.error e, s)
  | .ok [] => (.ok 0, s)
  | .ok events =>
    match ingest wire registry peer events s with
    | (out, s') => (.ok out.applied, s')

end Democrachat.Federation
