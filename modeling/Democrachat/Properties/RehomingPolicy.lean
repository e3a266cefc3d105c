import Democrachat.App.Governance
import Democrachat.Properties.Failover
import Democrachat.System.Upkeep

/-!
# The rehoming policy

A community decides by ballot whether its server may be rehomed.  The reconciler of a node writes
that into the control plane: for the servers that the node has minted, whoever owns them, and
only where the row disables rehoming.
-/

namespace Democrachat.Federation

open Library

/-! ## Runs -/

/-- The nodes' stores and their control plane. -/
structure Commons where
  stores : NodeId → Inner
  plane : ControlPlane Binary64

inductive PolicyOp where
  /-- A passed `SetRehomingPolicy` takes effect at the node. -/
  | ballot (node : NodeId) (server : ServerId) (isDisabled : Bool) (now : Timestamp)
  /-- The row of a server comes to the node: founded there, or replicated. -/
  | row (node : NodeId) (server : Server)
  /-- Claims, releases, promotions and all else that happens to the plane. -/
  | plane (op : PlaneOp Binary64)
  /-- A tick of `reconcile_claims`. -/
  | reconcile (node : NodeId)

namespace Commons

/-- What a tick of the node works on, when every call of the control plane succeeds. -/
def site (c : Commons) (node : NodeId) : Site Binary64 := ⟨c.plane, .answered, c.stores node, []⟩

/-- The site after that tick.  The rate reported is zero. -/
def reconciled (c : Commons) (node : NodeId) : Site Binary64 :=
  ((Upkeep.reconcileClaims Binary64.partialCmp ⟨0⟩ node).exec (c.site node)).2

def step (c : Commons) : PolicyOp → Commons
  | .ballot node server isDisabled now =>
    { c with
      stores := Function.update c.stores node
        ((enact server (.setRehomingPolicy isDisabled) now).exec
          ⟨c.stores node, now, []⟩).2.store }
  | .row node server =>
    { c with
      stores := Function.update c.stores node
        { c.stores node with servers := (c.stores node).servers.insert server } }
  | .plane op => { c with plane := c.plane.step Binary64.partialCmp op }
  | .reconcile node => { c with plane := (c.reconciled node).plane }

def run (ops : List PolicyOp) : Commons := ops.foldl step ⟨Inner.empty, .empty⟩

/-- After a tick of the node, every server that it owns may be rehomed as its row says, and the tick
has written the policy of no server that it does not own. -/
structure Mirrored (c : Commons) (node : NodeId) : Prop where
  policy : ∀ id row, (c.stores node).servers.get id = some row →
    ((c.reconciled node).plane.registry.owners (.server id)).map Prod.fst = some node →
      (c.reconciled node).plane.isRehomingDisabled (.server id) = row.isRehomingDisabled
  writes : ∀ scope enabled owner, .policy scope enabled owner ∈ (c.reconciled node).heard →
    owner.map Prod.fst = some node

/-- The node owns the server, or will: it has minted it and nobody owns it. -/
def WillOwn (c : Commons) (node : NodeId) (id : ServerId) : Prop :=
  (c.plane.registry.owners (.server id)).map Prod.fst = some node ∨
    c.plane.registry.owners (.server id) = none ∧ id.node = node

/-- The policies agree already with what the tick leaves as it is, and nobody else owns what it
writes. -/
structure Aligned (c : Commons) (node : NodeId) : Prop where
  policy : ∀ id row, (c.stores node).servers.get id = some row → c.WillOwn node id →
    (id.node = node ∧ row.isRehomingDisabled = true) ∨
      c.plane.isRehomingDisabled (.server id) = row.isRehomingDisabled
  writes : ∀ id row, (c.stores node).servers.get id = some row → id.node = node →
    row.isRehomingDisabled = true → ∀ owner,
      c.plane.registry.owners (.server id) = some owner → owner.1 = node

end Commons

/-! ## A tick, scope by scope -/

namespace Upkeep

variable {Rate : Type}

/-- The site when all these scopes have been reconciled. -/
structure ReconciledAll (node : NodeId) (owned : List OwnedScope) (s t : Site Rate) : Prop where
  tended : s.plane.registry.Tended t.plane.registry
  owners : ∀ scope, (t.plane.registry.owners scope).map Prod.fst =
    if scope ∈ owned ∧ s.plane.registry.owners scope = none then some node
    else (s.plane.registry.owners scope).map Prod.fst
  policy : ∀ scope, t.plane.isRehomingDisabled scope =
    if scope ∈ owned ∧ pins s.store scope = true then true
    else s.plane.isRehomingDisabled scope
  written : ∀ scope enabled owner, .policy scope enabled owner ∈ t.heard →
    .policy scope enabled owner ∈ s.heard ∨
      scope ∈ owned ∧ pins s.store scope = true ∧ owner = t.plane.registry.owners scope
  writes : ∀ scope, scope ∈ owned → pins s.store scope = true →
    .policy scope false (t.plane.registry.owners scope) ∈ t.heard
  heard : s.heard ⊆ t.heard

theorem owners_claim (r : InMemoryRegistry) (scope scope' : OwnedScope) (node : NodeId) :
    ((r.claim scope node).2.owners scope').map Prod.fst =
      if scope' = scope ∧ r.owners scope' = none then some node
      else (r.owners scope').map Prod.fst := by
  by_cases hscope : scope' = scope
  · subst hscope
    unfold InMemoryRegistry.claim
    cases howner : r.owners scope' with
    | none =>
      rw [if_pos ⟨rfl, rfl⟩]
      simp only [Function.update_self, Option.map_some]
    | some owner =>
      rw [if_neg (by simp)]
      simp only [howner]
  · rw [if_neg (fun h => hscope h.1), (r.claim_of_ne node hscope).1]

theorem claim_isSome (r : InMemoryRegistry) (scope : OwnedScope) (node : NodeId) :
    ∃ owner, (r.claim scope node).2.owners scope = some owner := by
  unfold InMemoryRegistry.claim
  cases howner : r.owners scope with
  | none => exact ⟨_, Function.update_self _ _ _⟩
  | some owner => exact ⟨owner, howner⟩

theorem reconciled_scopes {s : Site Rate} (hfate : s.fate = .answered) (node : NodeId)
    (standby : Option NodeId) (owned : List OwnedScope) :
    ReconciledAll node owned s ((reconcileScopes node standby owned).exec s).2 := by
  induction owned generalizing s with
  | nil =>
    refine ⟨.refl _, ?_, ?_, ?_, ?_, List.Subset.refl _⟩
    · intro scope
      rw [if_neg (fun h => List.not_mem_nil h.1)]
      rfl
    · intro scope
      rw [if_neg (fun h => List.not_mem_nil h.1)]
      rfl
    · exact fun _ _ _ h => .inl h
    · exact fun _ h => absurd h List.not_mem_nil
  | cons scope owned ih =>
    rw [reconcileScopes, Prog.exec_bind]
    have hfirst := reconciled_scope hfate node standby scope
    generalize ((reconcileScope node standby scope).exec s).2 = u at hfirst ⊢
    have hrest := ih (hfirst.fate.trans hfate)
    generalize ((reconcileScopes node standby owned).exec u).2 = t at hrest ⊢
    have hclaim := s.plane.registry.tended_claim scope node
    rw [← hfirst.registry] at hclaim
    -- From the claim to the end of the tick the scope stays with its owner.
    have hkept : t.plane.registry.owners scope = u.plane.registry.owners scope := by
      obtain ⟨owner, howner⟩ := claim_isSome s.plane.registry scope node
      rw [← hfirst.registry] at howner
      rw [howner, hrest.tended.owned scope owner howner]
    have hgrows : s.heard ⊆ u.heard := by
      rw [hfirst.heard]
      exact List.subset_append_left _ _
    refine ⟨hclaim.trans hrest.tended, ?_, ?_, ?_, ?_, List.Subset.trans hgrows hrest.heard⟩
    · intro scope'
      have hthen := owners_claim s.plane.registry scope scope' node
      rw [← hfirst.registry] at hthen
      have hnone : u.plane.registry.owners scope' = none ↔
          scope' ≠ scope ∧ s.plane.registry.owners scope' = none := by
        rw [← Option.map_eq_none_iff, hthen]
        split
        next h => simp [h.1]
        next h =>
          rw [Option.map_eq_none_iff]
          constructor
          · exact fun hfree => ⟨fun hscope => h ⟨hscope, hfree⟩, hfree⟩
          · exact fun hfree => hfree.2
      rw [hrest.owners, hthen]
      simp only [hnone, List.mem_cons]
      by_cases hscope : scope' = scope
      · simp [hscope]
      · simp [hscope]
    · intro scope'
      rw [hrest.policy, hfirst.store, hfirst.policy]
      simp only [List.mem_cons]
      by_cases hscope : scope' = scope
      · subst hscope
        cases hpins : pins s.store scope' with
        | true => simp
        | false => simp
      · cases hpins : pins s.store scope with
        | true => simp [hscope]
        | false => simp [hscope]
    · intro scope' enabled owner hmem
      rcases hrest.written scope' enabled owner hmem with hbefore | ⟨howned, hpins, howner⟩
      · rw [hfirst.heard] at hbefore
        rcases List.mem_append.1 hbefore with hold | hnew
        · exact .inl hold
        · right
          rcases List.mem_cons.1 hnew with he | hnew
          · cases he
          · split at hnew
            next hpins =>
              cases List.mem_singleton.1 hnew
              exact ⟨List.mem_cons_self, hpins, hkept.symm⟩
            next => cases hnew
      · rw [hfirst.store] at hpins
        exact .inr ⟨List.mem_cons_of_mem _ howned, hpins, howner⟩
    · intro scope' hmem hpins
      rcases List.mem_cons.1 hmem with rfl | howned
      · apply hrest.heard
        rw [hfirst.heard, if_pos hpins, hkept]
        exact List.mem_append_right _ (List.mem_cons_of_mem _ (List.mem_singleton_self _))
      · apply hrest.writes scope' howned
        rw [hfirst.store, hpins]

/-- The scopes that the reconciler of the node goes through. -/
def ownedBy (node : NodeId) (store : Inner) : List OwnedScope :=
  serversWhere (· = node) store ++ usersWhere (· = node) store

theorem server_mem_ownedBy {node : NodeId} {store : Inner} {id : ServerId} :
    .server id ∈ ownedBy node store ↔ ∃ row, store.servers.get id = some row ∧ id.node = node := by
  simp only [ownedBy, serversWhere, usersWhere, List.mem_append, List.mem_map, List.mem_filter,
    decide_eq_true_eq, reduceCtorEq, and_false, exists_false, or_false, OwnedScope.server.injEq]
  constructor
  · rintro ⟨row, ⟨hmem, hnode⟩, rfl⟩
    exact ⟨row, Table.mem_iff.1 hmem, hnode⟩
  · rintro ⟨row, hget, hnode⟩
    have hid : row.id = id := Table.key_of_get hget
    exact ⟨row, ⟨Table.mem_of_get hget, hid ▸ hnode⟩, hid⟩

end Upkeep

namespace Commons

open Upkeep

theorem reconciledAll (c : Commons) (node : NodeId) :
    ReconciledAll node (ownedBy node (c.stores node)) (c.site node) (c.reconciled node) := by
  -- Reporting a load and asking who is live leaves owners, policies and what is heard.
  have hsite : ∀ load, ({ c.site node with plane := (c.site node).plane.reportLoad node load } :
      Site Binary64).fate = .answered := fun _ => rfl
  rw [reconciled, reconcileClaims, Prog.exec_bind]
  change ReconciledAll node _ _ (Prog.exec (ignore _ >>= _) (c.site node)).2
  rw [Prog.exec_bind, exec_ignore, Upkeep.tell, exec_call _ _ rfl, unnoted, Prog.exec_bind, liveNodes,
    exec_call _ _ rfl, unnoted]
  have hall := reconciled_scopes (hsite ⟨(ownedBy node (c.stores node)).length % 2 ^ 32, ⟨0⟩⟩) node
    (chooseNewStandby Binary64.partialCmp [node]
      ((c.site node).plane.reportLoad node
        ⟨(ownedBy node (c.stores node)).length % 2 ^ 32, ⟨0⟩⟩).loads) (ownedBy node (c.stores node))
  exact ⟨hall.tended, hall.owners, hall.policy, hall.written, hall.writes, hall.heard⟩

variable {c : Commons} {node : NodeId}

theorem mem_ownedBy {id : ServerId} {row : Server} (h : (c.stores node).servers.get id = some row) :
    .server id ∈ ownedBy node (c.stores node) ↔ id.node = node := by
  rw [server_mem_ownedBy]
  exact ⟨fun ⟨_, _, hnode⟩ => hnode, fun hnode => ⟨row, h, hnode⟩⟩

theorem pins_server {id : ServerId} {row : Server}
    (h : (c.stores node).servers.get id = some row) :
    pins (c.stores node) (.server id) = row.isRehomingDisabled := by
  rw [pins, h]
  rfl

/-- Who owns a server after the tick. -/
theorem willOwn_iff {id : ServerId} {row : Server}
    (h : (c.stores node).servers.get id = some row) :
    ((c.reconciled node).plane.registry.owners (.server id)).map Prod.fst = some node ↔
      c.WillOwn node id := by
  rw [(c.reconciledAll node).owners]
  simp only [mem_ownedBy h, site, WillOwn]
  by_cases hfree : c.plane.registry.owners (.server id) = none
  · by_cases hnode : id.node = node
    · simp [hfree, hnode]
    · simp [hfree, hnode]
  · simp [hfree]

theorem policy_iff {id : ServerId} {row : Server}
    (h : (c.stores node).servers.get id = some row) :
    (c.reconciled node).plane.isRehomingDisabled (.server id) = row.isRehomingDisabled ↔
      (id.node = node ∧ row.isRehomingDisabled = true) ∨
        c.plane.isRehomingDisabled (.server id) = row.isRehomingDisabled := by
  have hpins : pins (c.site node).store (.server id) = row.isRehomingDisabled := pins_server h
  rw [(c.reconciledAll node).policy, hpins]
  simp only [mem_ownedBy h, site]
  split
  next hwritten => simp [hwritten]
  next hkept => simp [hkept]

theorem mirrored_iff (c : Commons) (node : NodeId) : c.Mirrored node ↔ c.Aligned node := by
  have hall := c.reconciledAll node
  constructor
  · intro h
    refine ⟨?_, ?_⟩
    · exact fun id row hrow hown => (policy_iff hrow).1 (h.policy id row hrow ((willOwn_iff hrow).2 hown))
    · intro id row hrow hnode hdisabled owner howner
      have hpins : pins (c.site node).store (.server id) = true := (pins_server hrow).trans hdisabled
      have hwritten := hall.writes (.server id) ((mem_ownedBy hrow).2 hnode) hpins
      rw [hall.tended.owned (.server id) owner howner] at hwritten
      exact Option.some.inj (h.writes _ _ _ hwritten)
  · intro h
    refine ⟨?_, ?_⟩
    · exact fun id row hrow hown => (policy_iff hrow).2 (h.policy id row hrow ((willOwn_iff hrow).1 hown))
    · intro scope enabled owner hwritten
      rcases hall.written scope enabled owner hwritten with hbefore | ⟨howned, hpins, rfl⟩
      · cases hbefore
      · cases scope with
        | userHome id => cases hpins
        | server id =>
          obtain ⟨row, hrow, hnode⟩ := server_mem_ownedBy.1 howned
          have hdisabled : row.isRehomingDisabled = true := (pins_server hrow).symm.trans hpins
          rw [willOwn_iff hrow, WillOwn]
          cases howner : c.plane.registry.owners (.server id) with
          | none => exact .inr ⟨rfl, hnode⟩
          | some owner =>
            have hmine := h.writes id row hrow hnode hdisabled owner howner
            exact .inl (congrArg some hmine)

end Commons

/-- In every run, the ticks of the reconciler mirror the policies exactly where each of them finds
aligned what it does not write itself. -/
theorem policies_mirrored_iff (ops : List PolicyOp) :
    (∀ earlier node later, ops = earlier ++ .reconcile node :: later →
      (Commons.run earlier).Mirrored node) ↔
    (∀ earlier node later, ops = earlier ++ .reconcile node :: later →
      (Commons.run earlier).Aligned node) := by
  constructor
  · exact fun h earlier node later hsplit => (Commons.mirrored_iff _ _).1 (h earlier node later hsplit)
  · exact fun h earlier node later hsplit => (Commons.mirrored_iff _ _).2 (h earlier node later hsplit)

/-- Node 1 founds a server, whose citizens disable rehoming and then enable it again. -/
def wavering : List PolicyOp :=
  [.row 1 (.new ⟨1, 1⟩ "agora" "Agora" ⟨1, 1⟩ ⟨0⟩), .ballot 1 ⟨1, 1⟩ true ⟨0⟩, .reconcile 1,
    .ballot 1 ⟨1, 1⟩ false ⟨0⟩]

/-- The second decision does not reach the control plane. -/
theorem reenabling_lost : ¬ ∀ ops earlier node later, ops = earlier ++ .reconcile node :: later →
    (Commons.run earlier).Mirrored node := by
  intro hall
  have h := (hall (wavering ++ [.reconcile 1]) wavering 1 [] rfl).policy ⟨1, 1⟩
    (.new ⟨1, 1⟩ "agora" "Agora" ⟨1, 1⟩ ⟨0⟩) rfl rfl
  cases h

end Democrachat.Federation
