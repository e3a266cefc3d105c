import Democrachat.Federation.EtcdRegistry
import Democrachat.Federation.Rehoming

/-!
# The rest of the control plane in etcd

`adapter-control-etcd/src/lib.rs`: the standbys of a scope, the nodes' loads and the lookup of
their keys; and the calls of `trait OwnershipRegistry`, here and in memory.  `serde_json` is a
parameter.
-/

namespace Democrachat.Federation

open Library Req

/-- JSON, for the values of etcd that are no plain text. -/
structure PlaneText (Rate : Type) where
  renderNodes : List NodeId → String
  parseNodes : String → Except RegistryError (List NodeId)
  renderLoad : NodeLoad Rate → String
  parseLoad : String → Except RegistryError (NodeLoad Rate)

/-- An `EtcdRegistry` belongs to one node, and writes under its lease. -/
structure Seat where
  node : NodeId
  lease : LeaseId

namespace EtcdRegistry

def nodeOf (node : NodeId) : String := keyPrefix ++ "/nodes/" ++ toString node.val

def standbysOf (scope : OwnedScope) : String :=
  keyPrefix ++ "/owners/" ++ scopeKey scope ++ "/standbys"

/-- A get by prefix goes through the keys in their order. -/
def nodesByKey : List NodeId :=
  (List.finRange (2 ^ 16)).mergeSort (fun a b => nodeOf a ≤ nodeOf b)

section

variable {Rate : Type} (text : PlaneText Rate)

def readStandbys : Option (String × Nat) → Req Etcd RegistryError (List NodeId)
  | some (json, _) => orElse (text.parseNodes json) id
  | none => return []

/-- The write is guarded: this node holds the scope. -/
def setStandby (seat : Seat) (scope : OwnedScope) (node : NodeId) :
    Req Etcd RegistryError Unit := do
  let list ← readStandbys text (← getStr (standbysOf scope))
  if node ∈ list then return ()
  else
    let succeeded ← txn [.value (holderOf scope) (toString seat.node.val)]
      [.put (standbysOf scope) (text.renderNodes (list ++ [node])) none] none
    ensure succeeded
      ⟨"refusing to set a standby: this node is not the scope's current owner"⟩

def standbys (scope : OwnedScope) : Req Etcd RegistryError (List NodeId) := do
  readStandbys text (← getStr (standbysOf scope))

/-- The load goes with the lease. -/
def reportLoad (seat : Seat) (node : NodeId) (load : NodeLoad Rate) :
    Req Etcd RegistryError Unit := do
  let _ ← txn [] [.put (nodeOf node) (text.renderLoad load) (some seat.lease)] none
  return ()

/-- One value that is no load spoils the answer. -/
def readLoads (s : Etcd) : List NodeId → Except RegistryError (List (NodeStatus Rate))
  | [] => .ok []
  | node :: nodes =>
    match s.kv.entries (nodeOf node) with
    | none => readLoads s nodes
    | some e => do
      let load ← text.parseLoad e.value
      let rest ← readLoads s nodes
      return ⟨node, load⟩ :: rest

def liveNodes : Req Etcd RegistryError (List (NodeStatus Rate)) :=
  call (fun s => (readLoads text s nodesByKey, s))

end

def publicKey (wire : Wire) (node : NodeId) : Req Etcd RegistryError (Option NodePublicKey) := do
  match ← getStr (keyOf node) with
  | none => return none
  | some (hex, _) =>
    let key ← orElse (wire.publicKey node hex) (fun e => ⟨InMemoryRegistry.fedErrorText e⟩)
    return some key

end EtcdRegistry

/-! ## The calls of the trait -/

inductive PlaneCall (Rate : Type) where
  | ownerOf (scope : OwnedScope)
  | claim (scope : OwnedScope) (node : NodeId)
  | release (scope : OwnedScope) (node : NodeId)
  | setStandby (scope : OwnedScope) (node : NodeId)
  | standbys (scope : OwnedScope)
  | canRehome (scope : OwnedScope)
  | setRehoming (scope : OwnedScope) (enabled : Bool)
  | renew (node : NodeId)
  | publishKey (node : NodeId) (publicHex : String)
  | publicKey (node : NodeId)
  | reportLoad (node : NodeId) (load : NodeLoad Rate)
  | liveNodes

inductive PlaneAnswer (Rate : Type) where
  | done
  | owner (owner : Option Ownership)
  | outcome (outcome : ClaimOutcome)
  | nodes (nodes : List NodeId)
  | flag (value : Bool)
  | key (key : Option NodePublicKey)
  | live (live : List (NodeStatus Rate))

section

variable {Rate : Type} (wire : Wire)

/-- `impl OwnershipRegistry for EtcdRegistry`. -/
def PlaneCall.etcd (text : PlaneText Rate) (seat : Seat) :
    PlaneCall Rate → Req Etcd RegistryError (PlaneAnswer Rate)
  | ownerOf scope => do return .owner (← EtcdRegistry.ownerOf scope)
  | claim scope node => do return .outcome (← EtcdRegistry.claim seat.lease scope node)
  | release scope node => do
    EtcdRegistry.release scope node
    return .done
  | setStandby scope node => do
    EtcdRegistry.setStandby text seat scope node
    return .done
  | standbys scope => do return .nodes (← EtcdRegistry.standbys text scope)
  | canRehome scope => do return .flag (← EtcdRegistry.canRehome scope)
  | setRehoming scope enabled => do
    EtcdRegistry.setRehoming scope enabled
    return .done
  | renew _ => return .done
  | publishKey node publicHex => do
    EtcdRegistry.publishKey node publicHex
    return .done
  | publicKey node => do return .key (← EtcdRegistry.publicKey wire node)
  | reportLoad node load => do
    EtcdRegistry.reportLoad text seat node load
    return .done
  | liveNodes => do return .live (← EtcdRegistry.liveNodes text)

/-- `impl OwnershipRegistry for InMemoryRegistry`. -/
def ControlPlane.answer (plane : ControlPlane Rate) :
    PlaneCall Rate → Except RegistryError (PlaneAnswer Rate) × ControlPlane Rate
  | .ownerOf scope => (.ok (.owner (plane.registry.ownerOf scope)), plane)
  | .claim scope node => (.ok (.outcome (plane.claim scope node).1), (plane.claim scope node).2)
  | .release scope node => (.ok .done, plane.release scope node)
  | .setStandby scope node => (.ok .done, plane.setStandby scope node)
  | .standbys scope => (.ok (.nodes (plane.standbys scope)), plane)
  | .canRehome scope => (.ok (.flag (!plane.isRehomingDisabled scope)), plane)
  | .setRehoming scope enabled => (.ok .done, plane.setRehoming scope enabled)
  | .renew _ => (.ok .done, plane)
  | .publishKey node publicHex =>
    ((plane.registry.publishKey node publicHex).1.map (fun _ => .done),
      plane.publishKey node publicHex)
  | .publicKey node => ((plane.registry.publicKey wire node).map .key, plane)
  | .reportLoad node load => (.ok .done, plane.reportLoad node load)
  | .liveNodes => (.ok (.live plane.loads), plane)

end

end Democrachat.Federation
