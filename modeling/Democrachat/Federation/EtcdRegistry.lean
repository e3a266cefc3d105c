import Democrachat.Federation.WriteRouter
import Democrachat.Library.RelyGuarantee
import Democrachat.Library.Revisions

/-!
# The registry in etcd

`adapter-control-etcd/src/lib.rs`: ownership, the rehoming policy and the published keys.
Every get and every transaction is one step of etcd, and any other node may make a step
between two of them.
-/

namespace Democrachat.Federation

open Library Req

abbrev LeaseId := Int64

/-- etcd, what becomes of the next call, and what has been granted so far. -/
structure Etcd where
  kv : Kv String String LeaseId
  fate : Fate
  /-- Who got which scope under which epoch.  Nothing in the program reads it. -/
  granted : List Ownership

namespace Etcd

def empty : Etcd := ⟨.empty, .answered, []⟩

end Etcd

namespace EtcdRegistry

/-! ## Keys and values -/

def keyPrefix : String := "democrachat"

def scopeKey : OwnedScope → String
  | .server id => "s/" ++ id.display
  | .userHome id => "u/" ++ id.display

def keyOf (node : NodeId) : String := keyPrefix ++ "/keys/" ++ toString node.val

def holderOf (scope : OwnedScope) : String :=
  keyPrefix ++ "/owners/" ++ scopeKey scope ++ "/holder"

def epochOf (scope : OwnedScope) : String :=
  keyPrefix ++ "/owners/" ++ scopeKey scope ++ "/epoch"

def rehomingOf (scope : OwnedScope) : String := keyPrefix ++ "/rehoming/" ++ scopeKey scope

/-- `str::parse::<u16>`. -/
def parseNode (s : String) : Option NodeId :=
  (parseU64 s).bind (fun n => if h : n < 2 ^ 16 then some ⟨n, h⟩ else none)

/-- The text of the `ParseIntError`. -/
def parseError (s : String) : RegistryError :=
  if s = "" then ⟨"cannot parse integer from empty string"⟩
  else if s.toList.all Char.isDigit then ⟨"number too large to fit in target type"⟩
  else ⟨"invalid digit found in string"⟩

/-! ## Calls of etcd -/

def call {α : Type} (f : Etcd → Except RegistryError α × Etcd) : Req Etcd RegistryError α where
  run := Prog.call (fun s =>
    match s.fate with
    | .unreachable message => (.error ⟨message⟩, s)
    | .answered => f s
    | .answerLost message => (.error ⟨message⟩, (f s).2))

/-- The value of a key and the revision of its last write. -/
def getStr (key : String) : Req Etcd RegistryError (Option (String × Nat)) :=
  call (fun s => (.ok ((s.kv.entries key).map (fun e => (e.value, e.modRevision))), s))

/-- Whether the conditions held; then `grant` has been granted. -/
def runTxn (compares : List (Compare String String)) (ops : List (TxnOp String String LeaseId))
    (grant : Option Ownership) (s : Etcd) : Except RegistryError Bool × Etcd :=
  match s.kv.txn compares ops with
  | (none, _) => (.error ⟨"requested lease not found"⟩, s)
  | (some false, _) => (.ok false, s)
  | (some true, kv) => (.ok true, { s with kv, granted := s.granted ++ grant.toList })

def txn (compares : List (Compare String String)) (ops : List (TxnOp String String LeaseId))
    (grant : Option Ownership) : Req Etcd RegistryError Bool :=
  call (runTxn compares ops grant)

/-! ## `impl OwnershipRegistry for EtcdRegistry` -/

def readEpoch : Option (String × Nat) → Req Etcd RegistryError Nat
  | some (e, _) => okOr (parseU64 e) (parseError e)
  | none => return 0

def ownerOf (scope : OwnedScope) : Req Etcd RegistryError (Option Ownership) := do
  match ← getStr (holderOf scope) with
  | none => return none
  | some (holder, _) =>
    let owner ← okOr (parseNode holder) (parseError holder)
    let epoch ← readEpoch (← getStr (epochOf scope))
    return some ⟨scope, owner, epoch⟩

/-- The loop of `claim` with so many rounds left. -/
def claimLoop (lease : LeaseId) (scope : OwnedScope) (node : NodeId) :
    Nat → Req Etcd RegistryError ClaimOutcome
  | 0 => throw ⟨"claim contended out after retries"⟩
  | rounds + 1 => do
    match ← getStr (holderOf scope) with
    | some (holder, _) =>
      let by_ ← okOr (parseNode holder) (parseError holder)
      let epoch ← getStr (epochOf scope)
      return .held by_ ((epoch.bind (fun e => parseU64 e.1)).getD 0)
    | none =>
      let found ← getStr (epochOf scope)
      let curEpoch ← readEpoch found
      -- An epoch is a `u64`; past the last one the task panics.
      ensure (decide (curEpoch + 1 < 2 ^ 64)) ⟨"attempt to add with overflow"⟩
      let succeeded ← txn
        [.createRevision (holderOf scope) 0,
          .modRevision (epochOf scope) ((found.map Prod.snd).getD 0)]
        [.put (holderOf scope) (toString node.val) (some lease),
          .put (epochOf scope) (toString (curEpoch + 1)) none]
        (some ⟨scope, node, curEpoch + 1⟩)
      if succeeded then return .claimed (curEpoch + 1)
      else claimLoop lease scope node rounds

def claim (lease : LeaseId) (scope : OwnedScope) (node : NodeId) :
    Req Etcd RegistryError ClaimOutcome :=
  claimLoop lease scope node 8

def release (scope : OwnedScope) (node : NodeId) : Req Etcd RegistryError Unit := do
  let _ ← txn [.value (holderOf scope) (toString node.val)] [.delete (holderOf scope)] none
  return ()

def canRehome (scope : OwnedScope) : Req Etcd RegistryError Bool := do
  let found ← getStr (rehomingOf scope)
  return found.isNone

def setRehoming (scope : OwnedScope) (enabled : Bool) : Req Etcd RegistryError Unit := do
  let _ ← txn []
    [if enabled then .delete (rehomingOf scope) else .put (rehomingOf scope) "off" none] none
  return ()

def publishKey (node : NodeId) (publicHex : String) : Req Etcd RegistryError Unit := do
  match ← getStr (keyOf node) with
  | some (existing, _) =>
    ensure (existing == publicHex)
      ⟨"node key already published; refusing to overwrite it (first-write-wins)"⟩
  | none =>
    let succeeded ← txn [.createRevision (keyOf node) 0] [.put (keyOf node) publicHex none] none
    ensure succeeded ⟨"node key was published concurrently; refusing to overwrite it"⟩

end EtcdRegistry

/-! ## Everybody's calls -/

inductive EtcdCall where
  | ownerOf (scope : OwnedScope)
  | claim (lease : LeaseId) (scope : OwnedScope) (node : NodeId)
  | release (scope : OwnedScope) (node : NodeId)
  | canRehome (scope : OwnedScope)
  | setRehoming (scope : OwnedScope) (enabled : Bool)
  | publishKey (node : NodeId) (publicHex : String)
  /-- A lease runs out. -/
  | expire (lease : LeaseId)
  /-- The network treats the calls differently from now on. -/
  | turn (fate : Fate)

inductive EtcdAnswer where
  | owner (scope : OwnedScope) (result : Except RegistryError (Option Ownership))
  | claim (scope : OwnedScope) (node : NodeId) (result : Except RegistryError ClaimOutcome)
  | other

def EtcdCall.prog : EtcdCall → Prog Etcd EtcdAnswer
  | ownerOf scope => EtcdAnswer.owner scope <$> (EtcdRegistry.ownerOf scope).run
  | claim lease scope node =>
    EtcdAnswer.claim scope node <$> (EtcdRegistry.claim lease scope node).run
  | release scope node => (fun _ => .other) <$> (EtcdRegistry.release scope node).run
  | canRehome scope => (fun _ => .other) <$> (EtcdRegistry.canRehome scope).run
  | setRehoming scope enabled => (fun _ => .other) <$> (EtcdRegistry.setRehoming scope enabled).run
  | publishKey node publicHex => (fun _ => .other) <$> (EtcdRegistry.publishKey node publicHex).run
  | expire lease =>
    (fun _ => .other) <$> Prog.modify (fun s : Etcd => { s with kv := s.kv.expire lease })
  | turn fate => (fun _ => .other) <$> Prog.modify (fun s : Etcd => { s with fate })

end Democrachat.Federation
