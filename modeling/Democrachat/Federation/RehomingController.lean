import Democrachat.Federation.EtcdPlane

/-!
# The controller and its registry

`federation/src/rehome/rehoming_controller.rs` over any registry: the one in memory, whose calls
can be taken together, and the one in etcd.
-/

namespace Democrachat.Federation

open Library

/-- `trait OwnershipRegistry`, as far as the controller calls it. -/
structure OwnershipRegistry (σ Rate : Type) where
  ownerOf : OwnedScope → Req σ RegistryError (Option Ownership)
  claim : OwnedScope → NodeId → Req σ RegistryError ClaimOutcome
  setStandby : OwnedScope → NodeId → Req σ RegistryError Unit
  standbys : OwnedScope → Req σ RegistryError (List NodeId)
  canRehome : OwnedScope → Req σ RegistryError Bool
  liveNodes : Req σ RegistryError (List (NodeStatus Rate))

section

variable {σ Rate : Type} (partialCmp : Rate → Rate → Option Ordering)

namespace RehomingController

/-- What becomes of a new standby does not matter. -/
def protect (registry : OwnershipRegistry σ Rate) (scope : OwnedScope) :
    Option NodeId → Req σ RegistryError Unit
  | some sb => do
    let _ ← (liftM (registry.setStandby scope sb).run : Req σ RegistryError _)
    return ()
  | none => return ()

def consider (registry : OwnershipRegistry σ Rate) (node : NodeId) (scope : OwnedScope) :
    Req σ RegistryError RehomeOutcome := do
  if (← registry.ownerOf scope).isSome then return .stillOwned scope
  else if !(← registry.canRehome scope) then return .rehomingDisabled scope
  else
    let standbys ← registry.standbys scope
    let loads ← registry.liveNodes
    match chooseNewOwner partialCmp standbys loads with
    | none => return .stranded scope
    | some winner =>
      if winner ≠ node then return .yielded scope winner
      else
        match ← registry.claim scope node with
        | .claimed epoch =>
          protect registry scope (chooseNewStandby partialCmp [node] loads)
          return .promoted scope epoch
        | .held by_ _ => return .yielded scope by_

/-- A scope about which the registry fails is left out. -/
def tick (registry : OwnershipRegistry σ Rate) (node : NodeId) :
    List OwnedScope → Prog σ (List RehomeOutcome)
  | [] => return []
  | scope :: candidates => do
    let result ← (consider partialCmp registry node scope).run
    let outcomes ← tick registry node candidates
    match result with
    | .ok outcome => return outcome :: outcomes
    | .error _ => return outcomes

end RehomingController

/-- A property of every call of the registry. -/
structure OwnershipRegistry.Every (P : ∀ {α : Type}, Prog σ α → Prop)
    (registry : OwnershipRegistry σ Rate) : Prop where
  ownerOf : ∀ scope, P (registry.ownerOf scope).run
  claim : ∀ scope node, P (registry.claim scope node).run
  setStandby : ∀ scope node, P (registry.setStandby scope node).run
  standbys : ∀ scope, P (registry.standbys scope).run
  canRehome : ∀ scope, P (registry.canRehome scope).run
  liveNodes : P registry.liveNodes.run

section

variable {P : ∀ {α : Type}, Prog σ α → Prop} (hP : Prog.Closed P)
  {registry : OwnershipRegistry σ Rate} (h : registry.Every P)

include hP h

theorem OwnershipRegistry.Every.consider (node : NodeId) (scope : OwnedScope) :
    P (RehomingController.consider partialCmp registry node scope).run := by
  refine hP.req_bind (h.ownerOf scope) (fun owner => Prog.Closed.req_ite (hP.req_pure _) ?_)
  refine hP.req_bind (h.canRehome scope) (fun can => Prog.Closed.req_ite (hP.req_pure _) ?_)
  refine hP.req_bind (h.standbys scope) (fun standbys => hP.req_bind h.liveNodes ?_)
  intro loads
  cases chooseNewOwner partialCmp standbys loads with
  | none => exact hP.req_pure _
  | some winner =>
    refine Prog.Closed.req_ite (hP.req_pure _) (hP.req_bind (h.claim scope node) ?_)
    rintro (epoch | ⟨by_, epoch⟩)
    · refine hP.req_bind ?_ (fun _ => hP.req_pure _)
      cases chooseNewStandby partialCmp [node] loads with
      | none => exact hP.req_pure _
      | some sb =>
        exact hP.req_bind (hP.req_liftM (h.setStandby scope sb)) (fun _ => hP.req_pure _)
    · exact hP.req_pure _

theorem OwnershipRegistry.Every.tick (node : NodeId) (candidates : List OwnedScope) :
    P (RehomingController.tick partialCmp registry node candidates) := by
  induction candidates with
  | nil => exact hP.pure _
  | cons scope candidates ih =>
    refine hP.bind (h.consider partialCmp hP node scope) (fun result => hP.bind ih ?_)
    intro outcomes
    cases result with
    | ok outcome => exact hP.pure _
    | error e => exact hP.pure _

end

/-! ## In memory -/

/-- A call under the lock, which does not fail. -/
def ControlPlane.locked {α : Type} (f : ControlPlane Rate → α × ControlPlane Rate) :
    Req (ControlPlane Rate) RegistryError α :=
  liftM (Prog.call f)

def ControlPlane.asRegistry : OwnershipRegistry (ControlPlane Rate) Rate where
  ownerOf scope := ControlPlane.locked (fun plane => (plane.registry.ownerOf scope, plane))
  claim scope node := ControlPlane.locked (fun plane => plane.claim scope node)
  setStandby scope node := ControlPlane.locked (fun plane => ((), plane.setStandby scope node))
  standbys scope := ControlPlane.locked (fun plane => (plane.standbys scope, plane))
  canRehome scope := ControlPlane.locked (fun plane => (!plane.isRehomingDisabled scope, plane))
  liveNodes := ControlPlane.locked (fun plane => (plane.loads, plane))

@[simp] theorem ControlPlane.exec_locked_bind {α β : Type}
    (f : ControlPlane Rate → α × ControlPlane Rate)
    (k : α → Req (ControlPlane Rate) RegistryError β) (plane : ControlPlane Rate) :
    (ControlPlane.locked f >>= k).exec plane = (k (f plane).1).exec (f plane).2 :=
  Req.exec_liftM_bind _ k plane

theorem ControlPlane.exec_protect_bind (scope : OwnedScope) (sb : Option NodeId) {β : Type}
    (k : Unit → Req (ControlPlane Rate) RegistryError β) (plane : ControlPlane Rate) :
    (RehomingController.protect ControlPlane.asRegistry scope sb >>= k).exec plane =
      (k ()).exec (sb.elim plane (fun sb => plane.setStandby scope sb)) := by
  cases sb with
  | none => rfl
  | some sb => rfl

/-- Alone, the controller does what its calls do together. -/
theorem ControlPlane.exec_consider (node : NodeId) (scope : OwnedScope)
    (plane : ControlPlane Rate) :
    (RehomingController.consider partialCmp ControlPlane.asRegistry node scope).exec plane =
      (.ok (plane.consider partialCmp node scope).1, (plane.consider partialCmp node scope).2) := by
  unfold RehomingController.consider ControlPlane.consider
  rw [ControlPlane.asRegistry, ControlPlane.exec_locked_bind]
  simp only [InMemoryRegistry.ownerOf, Option.isSome_map]
  by_cases howner : (plane.registry.owners scope).isSome = true
  · rw [if_pos howner, if_pos howner]
    rfl
  · rw [if_neg howner, if_neg howner, ControlPlane.exec_locked_bind]
    cases hdisabled : plane.isRehomingDisabled scope with
    | true => rfl
    | false =>
      simp only [Bool.not_false, Bool.not_true, Bool.false_eq_true, if_false]
      rw [ControlPlane.exec_locked_bind, ControlPlane.exec_locked_bind]
      simp only []
      cases chooseNewOwner partialCmp (plane.standbys scope) plane.loads with
      | none => rfl
      | some winner =>
        by_cases hnode : winner = node
        · simp only [hnode, ne_eq, not_true_eq_false, if_false]
          rw [ControlPlane.exec_locked_bind]
          rcases plane.claim scope node with ⟨outcome, plane'⟩
          cases outcome with
          | held by_ epoch => rfl
          | claimed epoch =>
            change (RehomingController.protect ControlPlane.asRegistry scope _ >>= _).exec plane' = _
            rw [ControlPlane.exec_protect_bind]
            cases chooseNewStandby partialCmp [node] plane.loads with
            | none => rfl
            | some sb => rfl
        · simp only [ne_eq, hnode, not_false_eq_true, if_true]
          rfl

theorem ControlPlane.exec_tick (node : NodeId) (candidates : List OwnedScope)
    (plane : ControlPlane Rate) :
    (RehomingController.tick partialCmp ControlPlane.asRegistry node candidates).exec plane =
      plane.tick partialCmp node candidates := by
  induction candidates generalizing plane with
  | nil => rfl
  | cons scope candidates ih =>
    have hconsider := plane.exec_consider partialCmp node scope
    rw [Req.exec] at hconsider
    rw [RehomingController.tick, Prog.exec_bind, hconsider, Prog.exec_bind, ih,
      ControlPlane.tick_cons]
    rfl

/-! ## In etcd -/

def EtcdRegistry.asRegistry (text : PlaneText Rate) (seat : Seat) :
    OwnershipRegistry Etcd Rate where
  ownerOf := EtcdRegistry.ownerOf
  claim := EtcdRegistry.claim seat.lease
  setStandby := EtcdRegistry.setStandby text seat
  standbys := EtcdRegistry.standbys text
  canRehome := EtcdRegistry.canRehome
  liveNodes := EtcdRegistry.liveNodes text

end

end Democrachat.Federation
