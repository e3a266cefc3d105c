import Democrachat.Federation.Event

/-!
# The control plane

`federation/src/ownership`: who owns a scope under which epoch, and the nodes'
published keys.  `Registry` is what the feed reads of `trait OwnershipRegistry`;
`InMemoryRegistry` is the implementation in this repository.
-/

namespace Democrachat.Federation

open Library

/-- A scope that a node can own. -/
inductive OwnedScope where
  | server (id : ServerId)
  | userHome (id : UserId)
deriving DecidableEq

def OwnedScope.toEvent : OwnedScope → EventScope
  | server id => .server id
  | userHome id => .userHome id

structure Ownership where
  scope : OwnedScope
  owner : NodeId
  epoch : Nat
deriving DecidableEq

structure RegistryError where
  message : String
deriving DecidableEq

/-- The answers of the control plane while a call of the feed runs. -/
structure Registry where
  publicKey : NodeId → Except RegistryError (Option NodePublicKey)
  ownerOf : OwnedScope → Except RegistryError (Option Ownership)

inductive ClaimOutcome where
  | claimed (epoch : Nat)
  | held (by_ : NodeId) (epoch : Nat)
deriving DecidableEq

/-- `RegistryState`, as far as ownership and keys go. -/
structure InMemoryRegistry where
  /-- The owner of a scope and its epoch. -/
  owners : OwnedScope → Option (NodeId × Nat)
  /-- The highest epoch ever assigned to a scope. -/
  maxEpoch : OwnedScope → Nat
  /-- The published keys, in hex. -/
  keys : NodeId → Option String

namespace InMemoryRegistry

def empty : InMemoryRegistry where
  owners := fun _ => none
  maxEpoch := fun _ => 0
  keys := fun _ => none

def ownerOf (r : InMemoryRegistry) (scope : OwnedScope) : Option Ownership :=
  (r.owners scope).map (fun o => ⟨scope, o.1, o.2⟩)

/-- A claim of an unowned scope bumps past the highest epoch it ever had. -/
def claim (r : InMemoryRegistry) (scope : OwnedScope) (node : NodeId) :
    ClaimOutcome × InMemoryRegistry :=
  match r.owners scope with
  | some (by_, epoch) => (.held by_ epoch, r)
  | none =>
    let epoch := r.maxEpoch scope + 1
    (.claimed epoch,
      { r with
        owners := Function.update r.owners scope (some (node, epoch))
        maxEpoch := Function.update r.maxEpoch scope epoch })

def release (r : InMemoryRegistry) (scope : OwnedScope) (node : NodeId) : InMemoryRegistry :=
  if (r.owners scope).map Prod.fst = some node then
    { r with owners := Function.update r.owners scope none }
  else r

/-- A claim changes nothing, or takes a scope that nobody has under a new epoch. -/
theorem claim_cases (r : InMemoryRegistry) (scope : OwnedScope) (node : NodeId) :
    (r.claim scope node).2 = r ∨
      (r.owners scope = none ∧
        (r.claim scope node).2.owners =
          Function.update r.owners scope (some (node, r.maxEpoch scope + 1)) ∧
        (r.claim scope node).2.maxEpoch =
          Function.update r.maxEpoch scope (r.maxEpoch scope + 1)) := by
  unfold claim
  cases howner : r.owners scope with
  | some owner => exact .inl rfl
  | none => exact .inr ⟨rfl, rfl, rfl⟩

theorem maxEpoch_claim_le (r : InMemoryRegistry) (scope scope' : OwnedScope) (node : NodeId) :
    (r.claim scope node).2.maxEpoch scope' ≤ r.maxEpoch scope' + 1 := by
  rcases claim_cases r scope node with hsame | ⟨-, -, hepochs⟩
  · rw [hsame]
    omega
  · rw [hepochs, Function.update_apply]
    split
    next hscope => rw [hscope]
    next => omega

theorem release_maxEpoch (r : InMemoryRegistry) (scope : OwnedScope) (node : NodeId) :
    (r.release scope node).maxEpoch = r.maxEpoch := by
  unfold release
  split
  next => rfl
  next => rfl

/-- A release leaves an owner where it was, or leaves the scope to nobody. -/
theorem release_owners (r : InMemoryRegistry) (scope scope' : OwnedScope) (node : NodeId) :
    (r.release scope node).owners scope' = r.owners scope' ∨
      (r.release scope node).owners scope' = none := by
  unfold release
  split
  next =>
    by_cases h : scope' = scope
    · rw [h]
      exact .inr (Function.update_self _ _ _)
    · exact .inl (Function.update_of_ne h _ _)
  next => exact .inl rfl

/-- The owner of a scope holds it under the highest epoch the scope ever had. -/
def Fenced (r : InMemoryRegistry) : Prop :=
  ∀ scope owner epoch, r.owners scope = some (owner, epoch) → epoch = r.maxEpoch scope

theorem Fenced.claim {r : InMemoryRegistry} (h : r.Fenced) (scope : OwnedScope) (node : NodeId) :
    (r.claim scope node).2.Fenced := by
  rcases claim_cases r scope node with hsame | ⟨-, howners, hepochs⟩
  · rw [hsame]
    exact h
  · intro scope' owner epoch howner
    rw [howners] at howner
    rw [hepochs]
    by_cases hscope : scope' = scope
    · rw [hscope, Function.update_self] at howner ⊢
      exact (Prod.mk.inj (Option.some.inj howner)).2.symm
    · rw [Function.update_of_ne hscope] at howner ⊢
      exact h scope' owner epoch howner

theorem Fenced.release {r : InMemoryRegistry} (h : r.Fenced) (scope : OwnedScope) (node : NodeId) :
    (r.release scope node).Fenced := by
  intro scope' owner epoch howner
  rw [release_maxEpoch]
  rcases release_owners r scope scope' node with hsame | hnone
  · rw [hsame] at howner
    exact h scope' owner epoch howner
  · rw [hnone] at howner
    cases howner

/-- The first key published for a node stays. -/
def publishKey (r : InMemoryRegistry) (node : NodeId) (publicHex : String) :
    Except RegistryError Unit × InMemoryRegistry :=
  match r.keys node with
  | some existing =>
    if existing = publicHex then (.ok (), r)
    else (.error ⟨"node key already published; refusing to overwrite it (first-write-wins)"⟩, r)
  | none => (.ok (), { r with keys := Function.update r.keys node (some publicHex) })

theorem publishKey_owners (r : InMemoryRegistry) (node : NodeId) (publicHex : String) :
    (r.publishKey node publicHex).2.owners = r.owners ∧
      (r.publishKey node publicHex).2.maxEpoch = r.maxEpoch := by
  unfold publishKey
  split
  next =>
    split
    next => exact ⟨rfl, rfl⟩
    next => exact ⟨rfl, rfl⟩
  next => exact ⟨rfl, rfl⟩

theorem Fenced.publishKey {r : InMemoryRegistry} (h : r.Fenced) (node : NodeId)
    (publicHex : String) : (r.publishKey node publicHex).2.Fenced := by
  obtain ⟨howners, hepochs⟩ := publishKey_owners r node publicHex
  intro scope owner epoch howner
  rw [howners] at howner
  rw [hepochs]
  exact h scope owner epoch howner

def fedErrorText : FedError → String
  | .badHex what => "malformed hex for " ++ what
  | .badKey => "invalid verifying key"
  | .badSignature => "signature verification failed"
  | .badBody => "malformed signed body"

def publicKey (wire : Wire) (r : InMemoryRegistry) (node : NodeId) :
    Except RegistryError (Option NodePublicKey) :=
  match r.keys node with
  | none => .ok none
  | some hex =>
    match wire.publicKey node hex with
    | .ok key => .ok (some key)
    | .error e => .error ⟨fedErrorText e⟩

/-- What the feed reads of it. -/
def answers (wire : Wire) (r : InMemoryRegistry) : Registry where
  publicKey := r.publicKey wire
  ownerOf := fun scope => .ok (r.ownerOf scope)

end InMemoryRegistry

end Democrachat.Federation
