import Democrachat.Federation.Rehoming
import Democrachat.Federation.WriteRouter

/-!
# The loops that keep scopes owned

`democrachat/src/federation.rs`: a node claims the scopes that it has minted, and takes over
those whose home is down.  Every call of the control plane is a step of its own, which may fail
before or after it has got there.
-/

namespace Democrachat.Federation

open Library Req

/-- What a node is told by the control plane, as far as its loops act on it. -/
inductive Heard (Rate : Type) where
  /-- `live_nodes` at the beginning of a round of rehoming, when these were live. -/
  | round (truth : List (NodeStatus Rate)) (live : Except RegistryError (List (NodeStatus Rate)))
  /-- The foreign scopes of that round. -/
  | foreign (scopes : List OwnedScope)
  /-- `live_nodes` while a scope with these standbys is considered. -/
  | live (scope : OwnedScope) (standbys : List NodeId)
      (live : Except RegistryError (List (NodeStatus Rate)))
  | claim (scope : OwnedScope)
  /-- The policy of a scope is written while this is its owner. -/
  | policy (scope : OwnedScope) (enabled : Bool) (owner : Option (NodeId × Nat))

/-- What the loops of one node work on. -/
structure Site (Rate : Type) where
  plane : ControlPlane Rate
  /-- What becomes of the next call of the control plane. -/
  fate : Fate
  store : Inner
  /-- Nothing in the program reads it. -/
  heard : List (Heard Rate)

/-! ## Scopes -/

/-- `origin_node` of the id. -/
def scopeHome : OwnedScope → NodeId
  | .server id => id.node
  | .userHome id => id.node

namespace Upkeep

variable {Rate : Type} (partialCmp : Rate → Rate → Option Ordering)

def serversWhere (p : NodeId → Bool) (s : Inner) : List OwnedScope :=
  (s.servers.rows.filter (fun r => p r.id.node)).map (fun r => .server r.id)

def usersWhere (p : NodeId → Bool) (s : Inner) : List OwnedScope :=
  (s.users.rows.filter (fun r => p r.id.node)).map (fun r => .userHome r.id)

def listed (f : Inner → List OwnedScope) : Prog (Site Rate) (List OwnedScope) :=
  Prog.query (fun s => f s.store)

/-- The scopes that this node has minted. -/
def ownedScopes (node : NodeId) : Prog (Site Rate) (List OwnedScope) := do
  let servers ← listed (serversWhere (· = node))
  let users ← listed (usersWhere (· = node))
  return servers ++ users

/-- The replicated scopes that other nodes have minted. -/
def foreignScopes (node : NodeId) : Prog (Site Rate) (List OwnedScope) := do
  let servers ← listed (serversWhere (· ≠ node))
  Prog.call (fun s =>
    (servers ++ usersWhere (· ≠ node) s.store,
      { s with heard := s.heard ++ [.foreign (servers ++ usersWhere (· ≠ node) s.store)] }))

/-! ## Calls of the control plane -/

/-- A call, and what is noted of its answer. -/
def call {α : Type} (f : ControlPlane Rate → α × ControlPlane Rate)
    (note : ControlPlane Rate → Except RegistryError α → List (Heard Rate)) :
    Req (Site Rate) RegistryError α where
  run := Prog.call (fun s =>
    match s.fate with
    | .unreachable message =>
      (.error ⟨message⟩, { s with heard := s.heard ++ note s.plane (.error ⟨message⟩) })
    | .answered =>
      (.ok (f s.plane).1,
        { s with
          plane := (f s.plane).2
          heard := s.heard ++ note s.plane (.ok (f s.plane).1) })
    | .answerLost message =>
      (.error ⟨message⟩,
        { s with
          plane := (f s.plane).2
          heard := s.heard ++ note s.plane (.error ⟨message⟩) }))

def unnoted {α : Type} (_ : ControlPlane Rate) (_ : Except RegistryError α) : List (Heard Rate) := []

def ask {α : Type} (f : ControlPlane Rate → α) : Req (Site Rate) RegistryError α :=
  call (fun plane => (f plane, plane)) unnoted

def tell (f : ControlPlane Rate → ControlPlane Rate) : Req (Site Rate) RegistryError Unit :=
  call (fun plane => ((), f plane)) unnoted

def liveNodes (note : ControlPlane Rate → Except RegistryError (List (NodeStatus Rate)) →
    List (Heard Rate)) : Req (Site Rate) RegistryError (List (NodeStatus Rate)) :=
  call (fun plane => (plane.loads, plane)) note

def claim (scope : OwnedScope) (node : NodeId) : Req (Site Rate) RegistryError ClaimOutcome :=
  call (fun plane => plane.claim scope node) (fun _ _ => [.claim scope])

def setRehoming (scope : OwnedScope) (enabled : Bool) : Req (Site Rate) RegistryError Unit :=
  call (fun plane => ((), plane.setRehoming scope enabled))
    (fun plane _ => [.policy scope enabled (plane.registry.owners scope)])

def setStandby (scope : OwnedScope) (node : NodeId) : Req (Site Rate) RegistryError Unit :=
  tell (·.setStandby scope node)

/-- A call whose answer does not matter. -/
def ignore (r : Req (Site Rate) RegistryError Unit) : Prog (Site Rate) Unit := (fun _ => ()) <$> r.run

/-! ## Rehoming -/

/-- `RehomingController::consider`, call by call. -/
def consider (node : NodeId) (scope : OwnedScope) : Req (Site Rate) RegistryError RehomeOutcome := do
  let owner ← ask (fun plane => plane.registry.ownerOf scope)
  if owner.isSome then return .stillOwned scope
  else
    let canRehome ← ask (fun plane => !plane.isRehomingDisabled scope)
    if !canRehome then return .rehomingDisabled scope
    else
      let standbys ← ask (fun plane => plane.standbys scope)
      let loads ← liveNodes (fun _ answer => [.live scope standbys answer])
      match chooseNewOwner partialCmp standbys loads with
      | none => return .stranded scope
      | some winner =>
        if winner ≠ node then return .yielded scope winner
        else
          match ← claim scope node with
          | .claimed epoch =>
            match chooseNewStandby partialCmp [node] loads with
            | some sb =>
              liftM (ignore (setStandby scope sb) : Prog (Site Rate) Unit)
              return .promoted scope epoch
            | none => return .promoted scope epoch
          | .held by_ _ => return .yielded scope by_

/-- `RehomingController::tick`: a scope for which a call fails is left out of the result. -/
def tick (node : NodeId) : List OwnedScope → Prog (Site Rate) (List RehomeOutcome)
  | [] => return []
  | scope :: candidates => do
    match ← (consider partialCmp node scope).run with
    | .ok outcome => return outcome :: (← tick node candidates)
    | .error _ => tick node candidates

/-- The foreign scopes whose home is not live, as far as the answer goes. -/
def candidates (live : Except RegistryError (List (NodeStatus Rate))) (scopes : List OwnedScope) :
    List OwnedScope :=
  match live with
  | .ok statuses => scopes.filter (fun scope => scopeHome scope ∉ statuses.map (·.node))
  | .error _ => scopes

/-- One round of the rehoming loop. -/
def rehomingRound (node : NodeId) : Prog (Site Rate) Unit := do
  let live ← (liveNodes (fun plane answer => [.round plane.loads answer])).run
  let scopes ← foreignScopes node
  if (candidates live scopes).isEmpty then return ()
  else
    let _ ← tick partialCmp node (candidates live scopes)
    return ()

/-! ## Reconciling -/

variable (zero : Rate)

/-- The body of the loop of `reconcile_claims`. -/
def reconcileScope (node : NodeId) (standby : Option NodeId) (scope : OwnedScope) :
    Prog (Site Rate) Unit := do
  match ← (claim scope node).run with
  | .error _ => return ()
  | .ok _ =>
    match scope with
    | .server id =>
      let isDisabled ← Prog.query (fun s => (s.store.servers.get id).any (·.isRehomingDisabled))
      if isDisabled then ignore (setRehoming scope false)
    | .userHome _ => pure ()
    match standby with
    | some sb => ignore (setStandby scope sb)
    | none => return ()

def reconcileScopes (node : NodeId) (standby : Option NodeId) :
    List OwnedScope → Prog (Site Rate) Unit
  | [] => return ()
  | scope :: owned => do
    reconcileScope node standby scope
    reconcileScopes node standby owned

def reconcileClaims (node : NodeId) : Prog (Site Rate) Unit := do
  let owned ← ownedScopes node
  -- The count of hosted scopes is cut to a `u32`.
  ignore (tell (·.reportLoad node ⟨owned.length % 2 ^ 32, zero⟩))
  let live ← (liveNodes unnoted).run
  let standby := live.toOption.bind (chooseNewStandby partialCmp [node])
  reconcileScopes node standby owned

/-! ## Where every call gets through -/

theorem exec_call {α : Type} (f : ControlPlane Rate → α × ControlPlane Rate)
    (note : ControlPlane Rate → Except RegistryError α → List (Heard Rate)) {s : Site Rate}
    (h : s.fate = .answered) :
    (call f note).run.exec s =
      (.ok (f s.plane).1,
        { s with
          plane := (f s.plane).2
          heard := s.heard ++ note s.plane (.ok (f s.plane).1) }) := by
  rw [call, Prog.exec_call, h]

theorem exec_ignore (r : Req (Site Rate) RegistryError Unit) (s : Site Rate) :
    (ignore r).exec s = ((), (r.run.exec s).2) :=
  Prog.exec_map _ _ _

/-- What reconciling a scope does to the policies: the server of a row that disables rehoming. -/
def pins (store : Inner) : OwnedScope → Bool
  | .server id => (store.servers.get id).any (·.isRehomingDisabled)
  | .userHome _ => false

/-- The site when a scope has been reconciled. -/
structure Reconciled (node : NodeId) (scope : OwnedScope) (s t : Site Rate) : Prop where
  fate : t.fate = s.fate
  store : t.store = s.store
  registry : t.plane.registry = (s.plane.registry.claim scope node).2
  policy : t.plane.isRehomingDisabled =
    if pins s.store scope then Function.update s.plane.isRehomingDisabled scope true
    else s.plane.isRehomingDisabled
  heard : t.heard = s.heard ++ (.claim scope ::
    if pins s.store scope then [.policy scope false (t.plane.registry.owners scope)] else [])

/-- The standby is designated last. -/
theorem reconciled_standby {node : NodeId} {scope : OwnedScope} {s t : Site Rate}
    (h : Reconciled node scope s t) (hfate : s.fate = .answered) (standby : Option NodeId) :
    Reconciled node scope s
      (Prog.exec (match standby with
        | some sb => ignore (setStandby scope sb)
        | none => return ()) t).2 := by
  cases standby with
  | none => exact h
  | some sb =>
    dsimp only
    have hanswered : t.fate = .answered := h.fate.trans hfate
    rw [exec_ignore, setStandby, tell, exec_call _ _ hanswered, unnoted, List.append_nil]
    refine ⟨h.fate, h.store, ?_, ?_, ?_⟩
    · exact (ControlPlane.setStandby_registry scope sb t.plane).trans h.registry
    · exact (ControlPlane.setStandby_isRehomingDisabled scope sb t.plane).trans h.policy
    · rw [ControlPlane.setStandby_registry]
      exact h.heard

theorem reconciled_scope {s : Site Rate} (hfate : s.fate = .answered) (node : NodeId)
    (standby : Option NodeId) (scope : OwnedScope) :
    Reconciled node scope s ((reconcileScope node standby scope).exec s).2 := by
  unfold reconcileScope
  rw [Prog.exec_bind, claim, exec_call _ _ hfate]
  dsimp only
  cases scope with
  | userHome id =>
    have hclaimed : Reconciled node (.userHome id) s
        { s with
          plane := (s.plane.claim (.userHome id) node).2
          heard := s.heard ++ [.claim (.userHome id)] } :=
      ⟨rfl, rfl, rfl, rfl, rfl⟩
    exact reconciled_standby hclaimed hfate standby
  | server id =>
    rw [Prog.exec_bind, Prog.exec_query]
    dsimp only
    cases hpins : (s.store.servers.get id).any (·.isRehomingDisabled) with
    | false =>
      have hclaimed : Reconciled node (.server id) s
          { s with
            plane := (s.plane.claim (.server id) node).2
            heard := s.heard ++ [.claim (.server id)] } := by
        refine ⟨rfl, rfl, rfl, ?_, ?_⟩
        · simp only [pins, hpins]
          rfl
        · simp only [pins, hpins]
          rfl
      exact reconciled_standby hclaimed hfate standby
    | true =>
      have hanswered : ({ s with
          plane := (s.plane.claim (.server id) node).2
          heard := s.heard ++ [.claim (.server id)] } : Site Rate).fate = .answered := hfate
      rw [if_pos rfl, Prog.exec_bind, exec_ignore, setRehoming, exec_call _ _ hanswered]
      have hwritten : Reconciled node (.server id) s
          { s with
            plane := (s.plane.claim (.server id) node).2.setRehoming (.server id) false
            heard := s.heard ++ [.claim (.server id)] ++
              [.policy (.server id) false ((s.plane.claim (.server id) node).2.registry.owners
                (.server id))] } := by
        refine ⟨rfl, rfl, rfl, ?_, ?_⟩
        · simp only [pins, hpins]
          rfl
        · simp only [pins, hpins]
          exact List.append_assoc _ _ _
      exact reconciled_standby hwritten hfate standby

end Upkeep

end Democrachat.Federation
