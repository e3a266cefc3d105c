import Democrachat.Federation.Registry

/-!
# Rehoming

`federation/src/rehome`: what a node does about a scope that nobody owns, and what it reads
of the control plane for that (`federation/src/ownership`).
-/

namespace Democrachat.Federation

/-- `Iterator::min_by`: the first of the least elements. -/
def minBy {α : Type} (compare : α → α → Ordering) : List α → Option α
  | [] => none
  | a :: as => some (as.foldl (fun x y => if compare x y = .gt then y else x) a)

/-- The rate is an `f64` in the source. -/
structure NodeLoad (Rate : Type) where
  hostedScopes : Nat
  requestsPerSec : Rate

/-- A live node and its last load. -/
structure NodeStatus (Rate : Type) where
  node : NodeId
  load : NodeLoad Rate

inductive RehomeOutcome where
  | stillOwned (scope : OwnedScope)
  | promoted (scope : OwnedScope) (epoch : Nat)
  | yielded (scope : OwnedScope) (to_ : NodeId)
  | stranded (scope : OwnedScope)
  | rehomingDisabled (scope : OwnedScope)
deriving DecidableEq

/-- The registry with what rehoming reads of it. -/
structure ControlPlane (Rate : Type) where
  registry : InMemoryRegistry
  /-- The reported loads, in the order in which `live_nodes` lists them. -/
  loads : List (NodeStatus Rate)
  standbys : OwnedScope → List NodeId
  isRehomingDisabled : OwnedScope → Bool

section

variable {Rate : Type} (partialCmp : Rate → Rate → Option Ordering)

/-- From least to most busy; what does not compare counts as most busy. -/
def busier (a b : NodeLoad Rate) : Ordering :=
  ((partialCmp a.requestsPerSec b.requestsPerSec).getD .gt).then
    (compare a.hostedScopes b.hostedScopes)

def quieter (a b : NodeStatus Rate) : Ordering :=
  (busier partialCmp a.load b.load).then (compare a.node.val b.node.val)

/-- The quietest of the standbys that are live. -/
def chooseNewOwner (standbys : List NodeId) (loads : List (NodeStatus Rate)) : Option NodeId :=
  (minBy (quieter partialCmp)
    (standbys.filterMap (fun sb => loads.find? (fun s => s.node = sb)))).map (·.node)

/-- The quietest live node that is not excluded. -/
def chooseNewStandby (exclude : List NodeId) (loads : List (NodeStatus Rate)) : Option NodeId :=
  (minBy (quieter partialCmp) (loads.filter (fun s => s.node ∉ exclude))).map (·.node)

/-- A node is found under the one load that it has reported. -/
theorem find?_node_eq_some {loads : List (NodeStatus Rate)} (hnodes : (loads.map (·.node)).Nodup)
    {node : NodeId} {s : NodeStatus Rate} :
    loads.find? (fun t => t.node = node) = some s ↔ s ∈ loads ∧ s.node = node := by
  constructor
  · intro hfound
    exact ⟨List.mem_of_find?_eq_some hfound, by simpa using List.find?_some hfound⟩
  · rintro ⟨hs, rfl⟩
    have hsome : (loads.find? (fun t => t.node = s.node)).isSome = true :=
      List.find?_isSome.2 ⟨s, hs, decide_eq_true rfl⟩
    obtain ⟨t, ht⟩ := Option.isSome_iff_exists.1 hsome
    have hnode : t.node = s.node := by simpa using List.find?_some ht
    rw [ht, List.inj_on_of_nodup_map hnodes (List.mem_of_find?_eq_some ht) hs hnode]

namespace ControlPlane

def claim (scope : OwnedScope) (node : NodeId) (plane : ControlPlane Rate) :
    ClaimOutcome × ControlPlane Rate :=
  match plane.registry.claim scope node with
  | (outcome, registry) => (outcome, { plane with registry })

def empty : ControlPlane Rate where
  registry := .empty
  loads := []
  standbys := fun _ => []
  isRehomingDisabled := fun _ => false

def publishKey (node : NodeId) (publicHex : String) (plane : ControlPlane Rate) :
    ControlPlane Rate :=
  { plane with registry := (plane.registry.publishKey node publicHex).2 }

def release (scope : OwnedScope) (node : NodeId) (plane : ControlPlane Rate) :
    ControlPlane Rate :=
  { plane with registry := plane.registry.release scope node }

def setStandby (scope : OwnedScope) (node : NodeId) (plane : ControlPlane Rate) :
    ControlPlane Rate :=
  if node ∈ plane.standbys scope then plane
  else
    { plane with
      standbys := Function.update plane.standbys scope (plane.standbys scope ++ [node]) }

def setRehoming (scope : OwnedScope) (enabled : Bool) (plane : ControlPlane Rate) :
    ControlPlane Rate :=
  { plane with isRehomingDisabled := Function.update plane.isRehomingDisabled scope (!enabled) }

def reportLoad (node : NodeId) (load : NodeLoad Rate) (plane : ControlPlane Rate) :
    ControlPlane Rate :=
  { plane with loads := plane.loads.filter (fun s => s.node ≠ node) ++ [⟨node, load⟩] }

/-- `RehomingController::consider`, its calls of the registry taken together. -/
def consider (node : NodeId) (scope : OwnedScope) (plane : ControlPlane Rate) :
    RehomeOutcome × ControlPlane Rate :=
  if (plane.registry.owners scope).isSome then (.stillOwned scope, plane)
  else if plane.isRehomingDisabled scope then (.rehomingDisabled scope, plane)
  else
    match chooseNewOwner partialCmp (plane.standbys scope) plane.loads with
    | none => (.stranded scope, plane)
    | some winner =>
      if winner ≠ node then (.yielded scope winner, plane)
      else
        match plane.claim scope node with
        | (.held by_ _, plane') => (.yielded scope by_, plane')
        | (.claimed epoch, plane') =>
          match chooseNewStandby partialCmp [node] plane.loads with
          | some sb => (.promoted scope epoch, plane'.setStandby scope sb)
          | none => (.promoted scope epoch, plane')

/-- `RehomingController::tick`. -/
def tick (node : NodeId) :
    List OwnedScope → ControlPlane Rate → List RehomeOutcome × ControlPlane Rate
  | [], plane => ([], plane)
  | scope :: candidates, plane =>
    match plane.consider partialCmp node scope with
    | (outcome, plane') =>
      match tick node candidates plane' with
      | (outcomes, plane'') => (outcome :: outcomes, plane'')

/-- The node would be promoted. -/
def promotes (node : NodeId) (scope : OwnedScope) (plane : ControlPlane Rate) : Bool :=
  (plane.registry.owners scope).isNone && !plane.isRehomingDisabled scope &&
    chooseNewOwner partialCmp (plane.standbys scope) plane.loads == some node

@[simp] theorem setStandby_registry (scope : OwnedScope) (node : NodeId)
    (plane : ControlPlane Rate) : (plane.setStandby scope node).registry = plane.registry := by
  unfold setStandby
  split
  next => rfl
  next => rfl

@[simp] theorem setStandby_loads (scope : OwnedScope) (node : NodeId)
    (plane : ControlPlane Rate) : (plane.setStandby scope node).loads = plane.loads := by
  unfold setStandby
  split
  next => rfl
  next => rfl

@[simp] theorem claim_registry (scope : OwnedScope) (node : NodeId) (plane : ControlPlane Rate) :
    (plane.claim scope node).2.registry = (plane.registry.claim scope node).2 := rfl

@[simp] theorem setStandby_isRehomingDisabled (scope : OwnedScope) (node : NodeId)
    (plane : ControlPlane Rate) :
    (plane.setStandby scope node).isRehomingDisabled = plane.isRehomingDisabled := by
  unfold setStandby
  split
  next => rfl
  next => rfl

/-- Considering a scope leaves all as it is, or promotes the node. -/
theorem consider_cases (node : NodeId) (scope : OwnedScope) (plane : ControlPlane Rate) :
    (plane.promotes partialCmp node scope = false ∧
        (plane.consider partialCmp node scope).2 = plane ∧
        ∀ scope' epoch, (plane.consider partialCmp node scope).1 ≠ .promoted scope' epoch) ∨
      (plane.promotes partialCmp node scope = true ∧
        (plane.consider partialCmp node scope).1 =
          .promoted scope (plane.registry.maxEpoch scope + 1) ∧
        ((plane.consider partialCmp node scope).2 = (plane.claim scope node).2 ∨
          ∃ sb, (plane.consider partialCmp node scope).2 =
            (plane.claim scope node).2.setStandby scope sb)) := by
  unfold consider promotes
  cases howner : plane.registry.owners scope with
  | some owner => exact .inl ⟨rfl, rfl, nofun⟩
  | none =>
    cases hdisabled : plane.isRehomingDisabled scope with
    | true => exact .inl ⟨rfl, rfl, nofun⟩
    | false =>
      cases hwinner : chooseNewOwner partialCmp (plane.standbys scope) plane.loads with
      | none => exact .inl ⟨rfl, rfl, nofun⟩
      | some winner =>
        by_cases hnode : winner = node
        · subst hnode
          right
          have hclaimed : plane.claim scope winner =
              (.claimed (plane.registry.maxEpoch scope + 1), (plane.claim scope winner).2) := by
            simp only [claim, InMemoryRegistry.claim, howner]
          rw [hclaimed]
          cases chooseNewStandby partialCmp [winner] plane.loads with
          | none => simp
          | some sb => exact ⟨by simp, by simp, .inr ⟨sb, by simp⟩⟩
        · left
          simp [hnode]

/-- All that considering a scope does to who owns what is the claim of the node that is promoted. -/
theorem consider_registry (node : NodeId) (scope : OwnedScope) (plane : ControlPlane Rate) :
    (plane.consider partialCmp node scope).2.registry =
      if plane.promotes partialCmp node scope then (plane.registry.claim scope node).2
      else plane.registry := by
  rcases plane.consider_cases partialCmp node scope with
    ⟨hpromotes, hsame, -⟩ | ⟨hpromotes, -, hclaim | ⟨sb, hclaim⟩⟩
  · rw [hpromotes, hsame]
    rfl
  · rw [hpromotes, hclaim]
    rfl
  · rw [hpromotes, hclaim, setStandby_registry]
    rfl

theorem consider_isRehomingDisabled (node : NodeId) (scope : OwnedScope)
    (plane : ControlPlane Rate) :
    (plane.consider partialCmp node scope).2.isRehomingDisabled = plane.isRehomingDisabled := by
  rcases plane.consider_cases partialCmp node scope with
    ⟨-, hsame, -⟩ | ⟨-, -, hclaim | ⟨sb, hclaim⟩⟩
  · rw [hsame]
  · rw [hclaim]
    rfl
  · rw [hclaim, setStandby_isRehomingDisabled]
    rfl

theorem consider_promoted {node : NodeId} {scope scope' : OwnedScope} {epoch : Nat}
    {plane : ControlPlane Rate} :
    (plane.consider partialCmp node scope).1 = .promoted scope' epoch ↔
      plane.promotes partialCmp node scope = true ∧ scope' = scope ∧
        epoch = plane.registry.maxEpoch scope + 1 := by
  rcases plane.consider_cases partialCmp node scope with
    ⟨hpromotes, -, hnone⟩ | ⟨hpromotes, houtcome, -⟩
  · rw [hpromotes]
    constructor
    · exact fun h => absurd h (hnone scope' epoch)
    · rintro ⟨h, -⟩
      cases h
  · rw [houtcome, hpromotes]
    constructor
    · intro h
      cases h
      exact ⟨rfl, rfl, rfl⟩
    · rintro ⟨-, rfl, rfl⟩
      rfl

theorem promotes_iff {node : NodeId} {scope : OwnedScope} {plane : ControlPlane Rate} :
    plane.promotes partialCmp node scope = true ↔
      plane.registry.owners scope = none ∧ plane.isRehomingDisabled scope = false ∧
        chooseNewOwner partialCmp (plane.standbys scope) plane.loads = some node := by
  simp [promotes, and_assoc]

/-! ## A tick -/

theorem tick_cons (node : NodeId) (scope : OwnedScope) (candidates : List OwnedScope)
    (plane : ControlPlane Rate) :
    tick partialCmp node (scope :: candidates) plane =
      ((plane.consider partialCmp node scope).1 ::
          (tick partialCmp node candidates (plane.consider partialCmp node scope).2).1,
        (tick partialCmp node candidates (plane.consider partialCmp node scope).2).2) := rfl

/-- What is left of the candidates meets what the first ones have left. -/
theorem tick_append (node : NodeId) (as bs : List OwnedScope) (plane : ControlPlane Rate) :
    tick partialCmp node (as ++ bs) plane =
      ((tick partialCmp node as plane).1 ++
          (tick partialCmp node bs (tick partialCmp node as plane).2).1,
        (tick partialCmp node bs (tick partialCmp node as plane).2).2) := by
  induction as generalizing plane with
  | nil => rfl
  | cons scope as ih =>
    rw [List.cons_append, tick_cons, ih, tick_cons]
    rfl

end ControlPlane

end

end Democrachat.Federation
