import Democrachat.Federation.EtcdPlane
import Democrachat.Federation.Grants
import Democrachat.Library.Lines

/-!
# The control plane as etcd stores it

What the registry in memory knows, as values under keys of etcd, and the calls of etcd in a
state that mirrors it.
-/

namespace Democrachat.Federation

open Library

/-- The packed number of the scope has room for its sequence, as every minted one has. -/
def OwnedScope.Fits : OwnedScope → Prop
  | server id => id.sequence < 2 ^ 48
  | userHome id => id.sequence < 2 ^ 48

abbrev PackedScope := { scope : OwnedScope // scope.Fits }

/-! ## Keys -/

/-- What etcd has a key for. -/
inductive PlaneKey where
  | holder (scope : PackedScope)
  | epoch (scope : PackedScope)
  | standbys (scope : PackedScope)
  | rehoming (scope : PackedScope)
  | publicKey (node : NodeId)
  | load (node : NodeId)
deriving DecidableEq

namespace EtcdRegistry

theorem display_injective {e : Entity} {i j : Id e} (hi : i.sequence < 2 ^ 48)
    (hj : j.sequence < 2 ^ 48) (h : i.display = j.display) : i = j := by
  have hnumber : i.node.val * 2 ^ 48 + i.sequence = j.node.val * 2 ^ 48 + j.sequence := by
    have hvalue := congrArg (fun s : String => Nat.ofDigitChars 10 s.toList 0) h
    simpa [Id.display, Nat.toString_eq_ofList_toDigits] using hvalue
  apply Id.ext
  · apply Fin.ext
    omega
  · omega

theorem toString_node_injective {node node' : NodeId}
    (h : toString node.val = toString node'.val) : node = node' := by
  have hnode := parseNode_toString node
  rw [h, parseNode_toString] at hnode
  exact (Option.some.inj hnode).symm

/-- Where the kinds of keys part: after the prefix, and at the end. -/
def mark (key : String) : Option Char × Option Char :=
  (key.toList[12]?, if key.toList[12]? = some 'o' then key.toList.getLast? else none)

section

variable (scope : OwnedScope) (node : NodeId)

@[simp] theorem mark_holderOf : mark (holderOf scope) = (some 'o', some 'r') := by
  simp [mark, holderOf, keyPrefix, String.toList_append, List.getLast?_cons, List.getLast?_append]

@[simp] theorem mark_epochOf : mark (epochOf scope) = (some 'o', some 'h') := by
  simp [mark, epochOf, keyPrefix, String.toList_append, List.getLast?_cons, List.getLast?_append]

@[simp] theorem mark_standbysOf : mark (standbysOf scope) = (some 'o', some 's') := by
  simp [mark, standbysOf, keyPrefix, String.toList_append, List.getLast?_cons,
    List.getLast?_append]

@[simp] theorem mark_rehomingOf : mark (rehomingOf scope) = (some 'r', none) := by
  simp [mark, rehomingOf, keyPrefix, String.toList_append]

@[simp] theorem mark_keyOf : mark (keyOf node) = (some 'k', none) := by
  simp [mark, keyOf, keyPrefix, String.toList_append]

@[simp] theorem mark_nodeOf : mark (nodeOf node) = (some 'n', none) := by
  simp [mark, nodeOf, keyPrefix, String.toList_append]

end

theorem standbysOf_inj {scope scope' : OwnedScope} :
    standbysOf scope = standbysOf scope' ↔ scopeKey scope = scopeKey scope' := by
  rw [standbysOf, standbysOf, String.append_left_inj, String.append_right_inj]

theorem scopeKey_injective {scope scope' : OwnedScope} (h : scope.Fits) (h' : scope'.Fits)
    (hkey : scopeKey scope = scopeKey scope') : scope = scope' := by
  have hlist := congrArg String.toList hkey
  cases scope with
  | server i =>
    cases scope' with
    | server j =>
      simp only [scopeKey, String.toList_append, List.append_cancel_left_eq] at hlist
      rw [display_injective h h' (String.toList_inj.1 hlist)]
    | userHome j => simp [scopeKey, String.toList_append] at hlist
  | userHome i =>
    cases scope' with
    | server j => simp [scopeKey, String.toList_append] at hlist
    | userHome j =>
      simp only [scopeKey, String.toList_append, List.append_cancel_left_eq] at hlist
      rw [display_injective h h' (String.toList_inj.1 hlist)]

end EtcdRegistry

namespace PlaneKey

def text : PlaneKey → String
  | holder scope => EtcdRegistry.holderOf scope.1
  | epoch scope => EtcdRegistry.epochOf scope.1
  | standbys scope => EtcdRegistry.standbysOf scope.1
  | rehoming scope => EtcdRegistry.rehomingOf scope.1
  | publicKey node => EtcdRegistry.keyOf node
  | load node => EtcdRegistry.nodeOf node

theorem mark_text (key : PlaneKey) :
    EtcdRegistry.mark key.text =
      match key with
      | holder _ => (some 'o', some 'r')
      | epoch _ => (some 'o', some 'h')
      | standbys _ => (some 'o', some 's')
      | rehoming _ => (some 'r', none)
      | publicKey _ => (some 'k', none)
      | load _ => (some 'n', none) := by
  cases key <;> simp [text]

theorem text_injective : Function.Injective text := by
  intro key key' h
  have hmark := congrArg EtcdRegistry.mark h
  rw [mark_text, mark_text] at hmark
  cases key with
  | holder scope =>
    cases key' with
    | holder scope' =>
      rw [Subtype.ext (EtcdRegistry.scopeKey_injective scope.2 scope'.2
        (EtcdRegistry.holderOf_inj.1 h))]
    | _ => simp at hmark
  | epoch scope =>
    cases key' with
    | epoch scope' =>
      rw [Subtype.ext (EtcdRegistry.scopeKey_injective scope.2 scope'.2
        (EtcdRegistry.epochOf_inj.1 h))]
    | _ => simp at hmark
  | standbys scope =>
    cases key' with
    | standbys scope' =>
      rw [Subtype.ext (EtcdRegistry.scopeKey_injective scope.2 scope'.2
        (EtcdRegistry.standbysOf_inj.1 h))]
    | _ => simp at hmark
  | rehoming scope =>
    cases key' with
    | rehoming scope' =>
      have hscope := (String.append_right_inj _).1 h
      rw [Subtype.ext (EtcdRegistry.scopeKey_injective scope.2 scope'.2 hscope)]
    | _ => simp at hmark
  | publicKey node =>
    cases key' with
    | publicKey node' =>
      rw [EtcdRegistry.toString_node_injective ((String.append_right_inj _).1 h)]
    | _ => simp at hmark
  | load node =>
    cases key' with
    | load node' => rw [EtcdRegistry.toString_node_injective ((String.append_right_inj _).1 h)]
    | _ => simp at hmark

end PlaneKey

/-! ## What a plane stores -/

section

variable {Rate : Type}

/-- What `serde_json` reads back of what it has written. -/
structure PlaneText.ReadsNodes (text : PlaneText Rate) : Prop where
  nodes : ∀ nodes, text.parseNodes (text.renderNodes nodes) = .ok nodes

def ControlPlane.loadOf (plane : ControlPlane Rate) (node : NodeId) : Option (NodeStatus Rate) :=
  plane.loads.find? (fun s => s.node = node)

/-- The value under each key. -/
def ControlPlane.stored (text : PlaneText Rate) (plane : ControlPlane Rate) :
    PlaneKey → Option String
  | .holder scope => (plane.registry.owners scope.1).map (fun o => toString o.1.val)
  | .epoch scope =>
    if plane.registry.maxEpoch scope.1 = 0 then none
    else some (toString (plane.registry.maxEpoch scope.1))
  | .standbys scope =>
    if plane.standbys scope.1 = [] then none
    else some (text.renderNodes (plane.standbys scope.1))
  | .rehoming scope => if plane.isRehomingDisabled scope.1 then some "off" else none
  | .publicKey node => plane.registry.keys node
  | .load node => (plane.loadOf node).map (fun s => text.renderLoad s.load)

end

namespace Etcd

def stored (kv : Kv String String LeaseId) (key : PlaneKey) : Option String := kv.value key.text

section

variable {Rate : Type} {text : PlaneText Rate}

/-- Etcd holds what the registry in memory knows, and so many more calls find room for an epoch. -/
structure Mirrors (text : PlaneText Rate) (calls : Nat) (s : Etcd) (plane : ControlPlane Rate) :
    Prop where
  answered : s.fate = .answered
  stamped : s.kv.Stamped
  live : ∀ lease, s.kv.isExpired lease = false
  stored : Etcd.stored s.kv = plane.stored text
  fenced : plane.registry.Fenced
  room : ∀ scope, plane.registry.maxEpoch scope + calls < 2 ^ 64
  nodes : (plane.loads.map (·.node)).Nodup
  readable : ∀ status ∈ plane.loads, text.parseLoad (text.renderLoad status.load) = .ok status.load

theorem mirrors_empty {calls : Nat} (h : calls < 2 ^ 64) :
    empty.Mirrors text calls (ControlPlane.empty : ControlPlane Rate) where
  answered := rfl
  stamped := Kv.stamped_empty
  live := fun _ => rfl
  stored := by
    ext key : 1
    cases key <;> rfl
  fenced := nofun
  room := by
    intro scope
    change 0 + calls < 2 ^ 64
    omega
  nodes := List.nodup_nil
  readable := nofun

variable {calls : Nat} {s : Etcd} {plane : ControlPlane Rate}

theorem Mirrors.fewer (h : s.Mirrors text (calls + 1) plane) : s.Mirrors text calls plane where
  answered := h.answered
  stamped := h.stamped
  live := h.live
  stored := h.stored
  fenced := h.fenced
  room := by
    intro scope
    have hroom := h.room scope
    omega
  nodes := h.nodes
  readable := h.readable

end

/-! ## Calls that are answered -/

theorem stored_applyOp (kv : Kv String String LeaseId) {op : TxnOp String String LeaseId}
    {key : PlaneKey} (hop : op.key = key.text) (revision : Nat) :
    stored (kv.applyOp revision op) = Function.update (stored kv) key op.written := by
  ext key' : 1
  rw [stored, Kv.value_applyOp, hop]
  by_cases hkey : key' = key
  · rw [hkey, Function.update_self, Function.update_self]
  · rw [Function.update_of_ne (fun h => hkey (PlaneKey.text_injective h)),
      Function.update_of_ne hkey, stored]

theorem stored_put (kv : Kv String String LeaseId) (revision : Nat) (key : PlaneKey) (v : String)
    (lease : Option LeaseId) :
    stored (kv.applyOp revision (.put key.text v lease)) =
      Function.update (stored kv) key (some v) :=
  stored_applyOp kv rfl revision

theorem stored_delete (kv : Kv String String LeaseId) (revision : Nat) (key : PlaneKey) :
    stored (kv.applyOp revision (.delete key.text)) = Function.update (stored kv) key none :=
  stored_applyOp kv rfl revision

section

variable {α β : Type} {s : Etcd} (hfate : s.fate = .answered)

include hfate

theorem exec_call_bind (f : Etcd → Except RegistryError α × Etcd)
    (k : α → Req Etcd RegistryError β) :
    (EtcdRegistry.call f >>= k).exec s =
      match f s with
      | (.ok a, t) => (k a).exec t
      | (.error e, t) => (.error e, t) := by
  rw [Req.exec_bind]
  have hcall : (EtcdRegistry.call f).exec s = f s := by
    rw [Req.exec, EtcdRegistry.call, Prog.exec_call, hfate]
  rw [hcall]
  rcases f s with ⟨e | a, t⟩
  · rfl
  · rfl

theorem exec_getStr_none {key : String} (hvalue : s.kv.value key = none)
    (k : Option (String × Nat) → Req Etcd RegistryError β) :
    (EtcdRegistry.getStr key >>= k).exec s = (k none).exec s := by
  have hentry : s.kv.entries key = none := Option.map_eq_none_iff.1 hvalue
  rw [EtcdRegistry.getStr, exec_call_bind hfate, hentry]
  rfl

theorem exec_getStr_some {key v : String} (hvalue : s.kv.value key = some v)
    (k : Option (String × Nat) → Req Etcd RegistryError β) :
    (EtcdRegistry.getStr key >>= k).exec s =
      (k (some (v, s.kv.modRevision key))).exec s := by
  obtain ⟨e, hentry, rfl⟩ := Option.map_eq_some_iff.1 hvalue
  rw [EtcdRegistry.getStr, exec_call_bind hfate, Kv.modRevision, hentry]
  rfl

theorem exec_txn_bind (hlive : ∀ lease, s.kv.isExpired lease = false)
    (compares : List (Compare String String)) (ops : List (TxnOp String String LeaseId))
    (grant : Option Ownership) (k : Bool → Req Etcd RegistryError β) :
    (EtcdRegistry.txn compares ops grant >>= k).exec s =
      if compares.all s.kv.holds then
        (k true).exec
          { s with
            kv := ops.foldl (Kv.applyOp (s.kv.revision + 1)) s.kv
            granted := s.granted ++ grant.toList }
      else (k false).exec s := by
  have hlease : ops.any s.kv.lacksLease = false := by
    rw [List.any_eq_false]
    intro op _
    cases op with
    | put key v lease => cases lease <;> simp [Kv.lacksLease, hlive]
    | delete key => simp [Kv.lacksLease]
  rw [EtcdRegistry.txn, exec_call_bind hfate, EtcdRegistry.runTxn, Kv.txn, hlease]
  by_cases hall : compares.all s.kv.holds = true
  · rw [if_pos hall, if_pos hall]
    rfl
  · rw [if_neg hall, if_neg hall]

end

/-! ## Each call -/

section

variable {Rate : Type} {text : PlaneText Rate} {calls : Nat} {s : Etcd}
  {plane : ControlPlane Rate}

theorem Mirrors.value (h : s.Mirrors text calls plane) (key : PlaneKey) :
    s.kv.value key.text = plane.stored text key :=
  congrFun h.stored key

/-- Reading the epoch of a scope gives the highest it ever had. -/
theorem Mirrors.readEpoch (h : s.Mirrors text calls plane) (scope : PackedScope) {β : Type} :
    ∃ found : Option (String × Nat),
      (∀ k : Option (String × Nat) → Req Etcd RegistryError β,
        (EtcdRegistry.getStr (EtcdRegistry.epochOf scope.1) >>= k).exec s = (k found).exec s) ∧
      (found.map Prod.snd).getD 0 = s.kv.modRevision (EtcdRegistry.epochOf scope.1) ∧
      (found.bind (fun e => parseU64 e.1)).getD 0 = plane.registry.maxEpoch scope.1 ∧
      ∀ k : Nat → Req Etcd RegistryError β,
        (EtcdRegistry.readEpoch found >>= k).exec s =
          (k (plane.registry.maxEpoch scope.1)).exec s := by
  have hepoch := h.value (.epoch scope)
  have hroom := h.room scope.1
  simp only [PlaneKey.text, ControlPlane.stored] at hepoch
  split at hepoch
  next hzero =>
    have hentry := Option.map_eq_none_iff.1 hepoch
    refine ⟨none, exec_getStr_none h.answered hepoch, ?_, ?_, ?_⟩
    · rw [Kv.modRevision, hentry]
      rfl
    · rw [hzero]
      rfl
    · intro k
      rw [hzero]
      rfl
  next hzero =>
    have hparse : parseU64 (toString (plane.registry.maxEpoch scope.1)) =
        some (plane.registry.maxEpoch scope.1) :=
      EtcdRegistry.parseU64_toString (by omega)
    refine ⟨_, exec_getStr_some h.answered hepoch, rfl, ?_, ?_⟩
    · rw [Option.bind_some, hparse]
      rfl
    · intro k
      rw [EtcdRegistry.readEpoch, Req.exec_okOr_bind, hparse]

theorem Mirrors.ownerOf (h : s.Mirrors text calls plane) (scope : PackedScope) :
    (EtcdRegistry.ownerOf scope.1).exec s = (.ok (plane.registry.ownerOf scope.1), s) := by
  have hholder := h.value (.holder scope)
  simp only [PlaneKey.text, ControlPlane.stored] at hholder
  rw [EtcdRegistry.ownerOf, InMemoryRegistry.ownerOf]
  cases howner : plane.registry.owners scope.1 with
  | none =>
    rw [howner] at hholder
    rw [exec_getStr_none h.answered hholder]
    rfl
  | some owner =>
    obtain ⟨node, epoch⟩ := owner
    obtain ⟨found, hread, -, -, hepoch⟩ := h.readEpoch scope
    rw [howner] at hholder
    rw [exec_getStr_some h.answered hholder]
    simp only [EtcdRegistry.parseNode_toString, Req.exec_okOr_bind]
    rw [hread, hepoch, h.fenced scope.1 node epoch howner]
    rfl

/-- After the operations of a transaction. -/
theorem Mirrors.after (h : s.Mirrors text calls plane)
    (ops : List (TxnOp String String LeaseId)) (granted : List Ownership)
    {plane' : ControlPlane Rate} {calls' : Nat}
    (hstored : Etcd.stored (ops.foldl (Kv.applyOp (s.kv.revision + 1)) s.kv) =
      plane'.stored text)
    (hfenced : plane'.registry.Fenced)
    (hroom : ∀ scope, plane'.registry.maxEpoch scope + calls' < 2 ^ 64)
    (hnodes : (plane'.loads.map (·.node)).Nodup)
    (hreadable : ∀ status ∈ plane'.loads,
      text.parseLoad (text.renderLoad status.load) = .ok status.load) :
    Mirrors text calls' ⟨ops.foldl (Kv.applyOp (s.kv.revision + 1)) s.kv, s.fate, granted⟩
      plane' where
  answered := h.answered
  stamped := Kv.stamped_foldl h.stamped ops
  live := by
    intro lease
    change (ops.foldl (Kv.applyOp (s.kv.revision + 1)) s.kv).isExpired lease = false
    rw [Kv.isExpired_foldl]
    exact h.live lease
  stored := hstored
  fenced := hfenced
  room := hroom
  nodes := hnodes
  readable := hreadable

theorem stored_claim {scope : PackedScope} (howner : plane.registry.owners scope.1 = none)
    (node : NodeId) :
    (plane.claim scope.1 node).2.stored text =
      Function.update
        (Function.update (plane.stored text) (.holder scope) (some (toString node.val)))
        (.epoch scope) (some (toString (plane.registry.maxEpoch scope.1 + 1))) := by
  have hclaim : (plane.claim scope.1 node).2 =
      { plane with
        registry :=
          { plane.registry with
            owners := Function.update plane.registry.owners scope.1
              (some (node, plane.registry.maxEpoch scope.1 + 1))
            maxEpoch := Function.update plane.registry.maxEpoch scope.1
              (plane.registry.maxEpoch scope.1 + 1) } } := by
    simp only [ControlPlane.claim, InMemoryRegistry.claim, howner]
  rw [hclaim]
  ext key : 1
  cases key with
  | holder scope' =>
    simp only [ControlPlane.stored, Function.update_apply, Subtype.ext_iff, PlaneKey.holder.injEq,
      reduceCtorEq, if_false]
    split
    next => rfl
    next => rfl
  | epoch scope' =>
    simp only [ControlPlane.stored, Function.update_apply, Subtype.ext_iff, PlaneKey.epoch.injEq,
      reduceCtorEq, if_false]
    split
    next => rfl
    next => rfl
  | _ => rfl

/-- Nobody stands between a claim and its transaction. -/
theorem Mirrors.claim (h : s.Mirrors text (calls + 1) plane) (lease : LeaseId)
    (scope : PackedScope) (node : NodeId) :
    ∃ t, (EtcdRegistry.claim lease scope.1 node).exec s = (.ok (plane.claim scope.1 node).1, t) ∧
      t.Mirrors text calls (plane.claim scope.1 node).2 := by
  have hholder := h.value (.holder scope)
  have hroom := h.room scope.1
  obtain ⟨found, hread, hrevision, hparse, hepoch⟩ := h.readEpoch scope
  simp only [PlaneKey.text, ControlPlane.stored] at hholder
  rw [EtcdRegistry.claim, EtcdRegistry.claimLoop]
  cases howner : plane.registry.owners scope.1 with
  | some owner =>
    obtain ⟨by_, epoch⟩ := owner
    have hfenced := h.fenced scope.1 by_ epoch howner
    refine ⟨s, ?_, ?_⟩
    · rw [howner] at hholder
      rw [exec_getStr_some h.answered hholder]
      simp only [EtcdRegistry.parseNode_toString, Req.exec_okOr_bind]
      rw [hread, hparse, ← hfenced]
      simp only [ControlPlane.claim, InMemoryRegistry.claim, howner]
      rfl
    · simp only [ControlPlane.claim, InMemoryRegistry.claim, howner]
      exact h.fewer
  | none =>
    rw [howner] at hholder
    rw [exec_getStr_none h.answered hholder]
    simp only []
    have hfree : s.kv.createRevision (EtcdRegistry.holderOf scope.1) = 0 :=
      (Kv.createRevision_eq_zero h.stamped).2 hholder
    have hall : (Compare.createRevision (EtcdRegistry.holderOf scope.1) 0 ::
        [.modRevision (EtcdRegistry.epochOf scope.1) ((found.map Prod.snd).getD 0)] :
          List (Compare String String)).all s.kv.holds = true := by
      simp [Kv.holds, hfree, hrevision]
    rw [hread, hepoch, Req.exec_ensure_bind, if_pos (decide_eq_true (by omega)),
      exec_txn_bind h.answered h.live, if_pos hall]
    refine ⟨s.grant lease ⟨scope.1, node, plane.registry.maxEpoch scope.1 + 1⟩, ?_, ?_⟩
    · simp only [ControlPlane.claim, InMemoryRegistry.claim, howner]
      rfl
    · refine h.after _ _ ?_ (h.fenced.claim scope.1 node) ?_ h.nodes h.readable
      · rw [stored_claim howner, ← h.stored]
        have hfirst := stored_put s.kv (s.kv.revision + 1) (.holder scope) (toString node.val) lease
        rw [← hfirst]
        exact stored_put _ _ (.epoch scope) _ none
      · intro scope'
        have hgrows := InMemoryRegistry.maxEpoch_claim_le plane.registry scope.1 scope' node
        have hroom' := h.room scope'
        rw [ControlPlane.claim_registry]
        omega

/-- The text of a node stands for no other. -/
theorem map_toString_eq {owner : Option (NodeId × Nat)} {node : NodeId} :
    owner.map (fun o => toString o.1.val) = some (toString node.val) ↔
      owner.map Prod.fst = some node := by
  cases owner with
  | none => simp
  | some o =>
    simp only [Option.map_some, Option.some.injEq]
    constructor
    · exact EtcdRegistry.toString_node_injective
    · intro h
      rw [h]

theorem Mirrors.holds_holder (h : s.Mirrors text calls plane) (scope : PackedScope)
    (node : NodeId) :
    [Compare.value (EtcdRegistry.holderOf scope.1) (toString node.val)].all s.kv.holds = true ↔
      (plane.registry.owners scope.1).map Prod.fst = some node := by
  have hholder := h.value (.holder scope)
  simp only [PlaneKey.text, ControlPlane.stored] at hholder
  rw [List.all_cons, List.all_nil, Bool.and_true, Kv.holds_value_iff, hholder, map_toString_eq]

theorem stored_release {scope : PackedScope} {node : NodeId}
    (howner : (plane.registry.owners scope.1).map Prod.fst = some node) :
    (plane.release scope.1 node).stored text =
      Function.update (plane.stored text) (.holder scope) none := by
  rw [ControlPlane.release, InMemoryRegistry.release, if_pos howner]
  ext key : 1
  cases key with
  | holder scope' =>
    simp only [ControlPlane.stored, Function.update_apply, Subtype.ext_iff, PlaneKey.holder.injEq]
    split
    next => rfl
    next => rfl
  | _ => rfl

theorem Mirrors.release (h : s.Mirrors text calls plane) (scope : PackedScope)
    (node : NodeId) :
    ∃ t, (EtcdRegistry.release scope.1 node).exec s = (.ok (), t) ∧
      t.Mirrors text calls (plane.release scope.1 node) := by
  rw [EtcdRegistry.release, exec_txn_bind h.answered h.live]
  by_cases howner : (plane.registry.owners scope.1).map Prod.fst = some node
  · rw [if_pos ((h.holds_holder scope node).2 howner)]
    refine ⟨_, rfl, h.after [.delete (PlaneKey.holder scope).text] _ ?_
      (h.fenced.release scope.1 node) ?_ h.nodes h.readable⟩
    · rw [stored_release howner, ← h.stored]
      exact stored_delete _ _ _
    · intro scope'
      rw [ControlPlane.release, InMemoryRegistry.release_maxEpoch]
      exact h.room scope'
  · rw [if_neg (fun hholds => howner ((h.holds_holder scope node).1 hholds))]
    have hsame : plane.release scope.1 node = plane := by
      rw [ControlPlane.release, InMemoryRegistry.release, if_neg howner]
    rw [hsame]
    exact ⟨s, rfl, h⟩

/-! ### Standbys -/

theorem Mirrors.readStandbys (h : s.Mirrors text calls plane) (htext : text.ReadsNodes)
    (scope : PackedScope) {β : Type} (k : List NodeId → Req Etcd RegistryError β) :
    (EtcdRegistry.getStr (EtcdRegistry.standbysOf scope.1) >>= fun found =>
        EtcdRegistry.readStandbys text found >>= k).exec s =
      (k (plane.standbys scope.1)).exec s := by
  have hstandbys := h.value (.standbys scope)
  simp only [PlaneKey.text, ControlPlane.stored] at hstandbys
  split at hstandbys
  next hnone =>
    rw [exec_getStr_none h.answered hstandbys, hnone]
    rfl
  next =>
    rw [exec_getStr_some h.answered hstandbys, EtcdRegistry.readStandbys, htext.nodes]
    rfl

theorem Mirrors.standbys (h : s.Mirrors text calls plane) (htext : text.ReadsNodes)
    (scope : PackedScope) :
    (EtcdRegistry.standbys text scope.1).exec s = (.ok (plane.standbys scope.1), s) := by
  have hread := h.readStandbys htext scope (fun nodes => (pure nodes : Req Etcd RegistryError _))
  rw [← Req.bind_assoc, Req.exec_bind] at hread
  rw [EtcdRegistry.standbys]
  split at hread
  next nodes t hexec =>
    rw [hexec]
    exact hread
  next e t hexec => cases hread

theorem stored_setStandby {scope : PackedScope} {node : NodeId}
    (hnew : node ∉ plane.standbys scope.1) :
    (plane.setStandby scope.1 node).stored text =
      Function.update (plane.stored text) (.standbys scope)
        (some (text.renderNodes (plane.standbys scope.1 ++ [node]))) := by
  rw [ControlPlane.setStandby, if_neg hnew]
  ext key : 1
  cases key with
  | standbys scope' =>
    simp only [ControlPlane.stored, Function.update_apply, Subtype.ext_iff,
      PlaneKey.standbys.injEq]
    split
    next => simp
    next => rfl
  | _ => rfl

/-- Whoever does not own the scope lists nobody. -/
theorem Mirrors.setStandby (h : s.Mirrors text calls plane) (htext : text.ReadsNodes)
    (seat : Seat) (scope : PackedScope) (node : NodeId) :
    ∃ t, (EtcdRegistry.setStandby text seat scope.1 node).exec s =
        (if node ∈ plane.standbys scope.1 ∨
            (plane.registry.owners scope.1).map Prod.fst = some seat.node then .ok ()
          else .error
            ⟨"refusing to set a standby: this node is not the scope's current owner"⟩, t) ∧
      t.Mirrors text calls
        (if (plane.registry.owners scope.1).map Prod.fst = some seat.node then
          plane.setStandby scope.1 node else plane) := by
  rw [EtcdRegistry.setStandby, h.readStandbys htext]
  by_cases hlisted : node ∈ plane.standbys scope.1
  · have hsame : plane.setStandby scope.1 node = plane := by
      rw [ControlPlane.setStandby, if_pos hlisted]
    rw [if_pos hlisted, if_pos (.inl hlisted), hsame, ite_self]
    exact ⟨s, rfl, h⟩
  · rw [if_neg hlisted, exec_txn_bind h.answered h.live]
    by_cases howner : (plane.registry.owners scope.1).map Prod.fst = some seat.node
    · rw [if_pos ((h.holds_holder scope seat.node).2 howner), if_pos (.inr howner),
        if_pos howner]
      refine ⟨_, rfl, h.after [.put (PlaneKey.standbys scope).text _ none] _ ?_ ?_ ?_ ?_ ?_⟩
      · rw [stored_setStandby hlisted, ← h.stored]
        exact stored_put _ _ _ _ _
      · rw [ControlPlane.setStandby_registry]
        exact h.fenced
      · rw [ControlPlane.setStandby_registry]
        exact h.room
      · rw [ControlPlane.setStandby_loads]
        exact h.nodes
      · rw [ControlPlane.setStandby_loads]
        exact h.readable
    · rw [if_neg (fun hholds => howner ((h.holds_holder scope seat.node).1 hholds)),
        if_neg (not_or.2 ⟨hlisted, howner⟩), if_neg howner]
      exact ⟨s, rfl, h⟩

/-! ### The policy, keys and loads -/

theorem Mirrors.canRehome (h : s.Mirrors text calls plane) (scope : PackedScope) :
    (EtcdRegistry.canRehome scope.1).exec s = (.ok (!plane.isRehomingDisabled scope.1), s) := by
  have hpolicy := h.value (.rehoming scope)
  simp only [PlaneKey.text, ControlPlane.stored] at hpolicy
  rw [EtcdRegistry.canRehome]
  split at hpolicy
  next hdisabled =>
    rw [exec_getStr_some h.answered hpolicy, hdisabled]
    rfl
  next hdisabled =>
    rw [exec_getStr_none h.answered hpolicy, Bool.not_eq_true _ |>.mp hdisabled]
    rfl

theorem stored_setRehoming (scope : PackedScope) (enabled : Bool) :
    (plane.setRehoming scope.1 enabled).stored text =
      Function.update (plane.stored text) (.rehoming scope)
        (if enabled then none else some "off") := by
  ext key : 1
  cases key with
  | rehoming scope' =>
    simp only [ControlPlane.stored, ControlPlane.setRehoming, Function.update_apply,
      Subtype.ext_iff, PlaneKey.rehoming.injEq]
    split
    next => cases enabled <;> rfl
    next => rfl
  | _ => rfl

theorem Mirrors.setRehoming (h : s.Mirrors text calls plane) (scope : PackedScope)
    (enabled : Bool) :
    ∃ t, (EtcdRegistry.setRehoming scope.1 enabled).exec s = (.ok (), t) ∧
      t.Mirrors text calls (plane.setRehoming scope.1 enabled) := by
  rw [EtcdRegistry.setRehoming, exec_txn_bind h.answered h.live, if_pos List.all_nil]
  refine ⟨_, rfl, h.after _ _ ?_ h.fenced h.room h.nodes h.readable⟩
  rw [stored_setRehoming, ← h.stored]
  cases enabled with
  | true => exact stored_delete _ _ (.rehoming scope)
  | false => exact stored_put _ _ (.rehoming scope) _ _

theorem stored_publishKey {node : NodeId} (hnone : plane.registry.keys node = none)
    (publicHex : String) :
    (plane.publishKey node publicHex).stored text =
      Function.update (plane.stored text) (.publicKey node) (some publicHex) := by
  have hpublish : plane.publishKey node publicHex =
      { plane with
        registry :=
          { plane.registry with
            keys := Function.update plane.registry.keys node (some publicHex) } } := by
    simp only [ControlPlane.publishKey, InMemoryRegistry.publishKey, hnone]
  rw [hpublish]
  ext key : 1
  cases key with
  | publicKey node' =>
    simp only [ControlPlane.stored, Function.update_apply, PlaneKey.publicKey.injEq]
  | _ => rfl

theorem Mirrors.publishKey (h : s.Mirrors text calls plane) (node : NodeId)
    (publicHex : String) :
    ∃ t, (EtcdRegistry.publishKey node publicHex).exec s =
        ((plane.registry.publishKey node publicHex).1, t) ∧
      t.Mirrors text calls (plane.publishKey node publicHex) := by
  have hkey := h.value (.publicKey node)
  simp only [PlaneKey.text, ControlPlane.stored] at hkey
  rw [EtcdRegistry.publishKey]
  cases hpublished : plane.registry.keys node with
  | some existing =>
    rw [hpublished] at hkey
    have hsame : plane.publishKey node publicHex = plane := by
      simp only [ControlPlane.publishKey, InMemoryRegistry.publishKey, hpublished]
      split
      next => rfl
      next => rfl
    refine ⟨s, ?_, ?_⟩
    · rw [exec_getStr_some h.answered hkey]
      simp only [InMemoryRegistry.publishKey, hpublished]
      by_cases heq : existing = publicHex
      · rw [if_pos heq, heq, beq_self_eq_true]
        rfl
      · rw [if_neg heq, beq_eq_false_iff_ne.2 heq]
        rfl
    · rw [hsame]
      exact h
  | none =>
    rw [hpublished] at hkey
    have hfree : [Compare.createRevision (EtcdRegistry.keyOf node) 0].all s.kv.holds = true := by
      simp [Kv.holds, (Kv.createRevision_eq_zero h.stamped).2 hkey]
    rw [exec_getStr_none h.answered hkey]
    simp only []
    rw [exec_txn_bind h.answered h.live, if_pos hfree]
    simp only [InMemoryRegistry.publishKey, hpublished]
    refine ⟨_, rfl, h.after [.put (PlaneKey.publicKey node).text publicHex none] _ ?_
      (h.fenced.publishKey node publicHex) ?_ h.nodes h.readable⟩
    · rw [stored_publishKey hpublished, ← h.stored]
      exact stored_put _ _ _ _ _
    · rw [ControlPlane.publishKey,
        (InMemoryRegistry.publishKey_owners plane.registry node publicHex).2]
      exact h.room

theorem Mirrors.publicKey (h : s.Mirrors text calls plane) (wire : Wire) (node : NodeId) :
    (EtcdRegistry.publicKey wire node).exec s = (plane.registry.publicKey wire node, s) := by
  have hkey := h.value (.publicKey node)
  simp only [PlaneKey.text, ControlPlane.stored] at hkey
  rw [EtcdRegistry.publicKey, InMemoryRegistry.publicKey]
  cases hpublished : plane.registry.keys node with
  | none =>
    rw [hpublished] at hkey
    rw [exec_getStr_none h.answered hkey]
    rfl
  | some hex =>
    rw [hpublished] at hkey
    rw [exec_getStr_some h.answered hkey]
    simp only [Req.exec_orElse_bind]
    cases wire.publicKey node hex with
    | ok key => rfl
    | error e => rfl

/-! ### Loads -/

theorem loadOf_eq_some (hnodes : (plane.loads.map (·.node)).Nodup) {node : NodeId}
    {status : NodeStatus Rate} :
    plane.loadOf node = some status ↔ status ∈ plane.loads ∧ status.node = node :=
  find?_node_eq_some hnodes

theorem loadOf_reportLoad (node node' : NodeId) (load : NodeLoad Rate) :
    (plane.reportLoad node load).loadOf node' =
      if node' = node then some ⟨node, load⟩ else plane.loadOf node' := by
  rw [ControlPlane.loadOf, ControlPlane.reportLoad, List.find?_append, List.find?_filter]
  split
  next heq =>
    subst heq
    have hgone : plane.loads.find?
        (fun s => decide (s.node ≠ node' ∧ s.node = node')) = none := by
      rw [List.find?_eq_none]
      intro status _
      simp
    simp only [decide_eq_true_eq]
    rw [hgone]
    simp
  next hne =>
    have hskip : (fun s : NodeStatus Rate => decide (s.node ≠ node ∧ s.node = node')) =
        fun s => decide (s.node = node') := by
      ext s
      by_cases hs : s.node = node'
      · simp [hs, hne]
      · simp [hs]
    simp only [decide_eq_true_eq, hskip]
    rw [ControlPlane.loadOf]
    cases plane.loads.find? (fun s => s.node = node') with
    | none => simp [Ne.symm hne]
    | some status => rfl

theorem stored_reportLoad (node : NodeId) (load : NodeLoad Rate) :
    (plane.reportLoad node load).stored text =
      Function.update (plane.stored text) (.load node) (some (text.renderLoad load)) := by
  ext key : 1
  cases key with
  | load node' =>
    simp only [ControlPlane.stored, loadOf_reportLoad, Function.update_apply, PlaneKey.load.injEq]
    split
    next => rfl
    next => rfl
  | _ => rfl

theorem Mirrors.reportLoad (h : s.Mirrors text calls plane) (seat : Seat) (node : NodeId)
    {load : NodeLoad Rate} (hload : text.parseLoad (text.renderLoad load) = .ok load) :
    ∃ t, (EtcdRegistry.reportLoad text seat node load).exec s = (.ok (), t) ∧
      t.Mirrors text calls (plane.reportLoad node load) := by
  rw [EtcdRegistry.reportLoad, exec_txn_bind h.answered h.live, if_pos List.all_nil]
  refine ⟨_, rfl, h.after [.put (PlaneKey.load node).text (text.renderLoad load) _] _ ?_ h.fenced
    h.room ?_ ?_⟩
  · rw [stored_reportLoad, ← h.stored]
    exact stored_put _ _ (.load node) _ _
  · rw [ControlPlane.reportLoad, List.map_append, List.nodup_append]
    refine ⟨h.nodes.sublist (List.filter_sublist.map _), List.nodup_singleton _, ?_⟩
    intro a ha b hb
    obtain ⟨status, hstatus, rfl⟩ := List.mem_map.1 ha
    obtain rfl := List.mem_singleton.1 hb
    exact of_decide_eq_true (List.mem_filter.1 hstatus).2
  · intro status hstatus
    rcases List.mem_append.1 hstatus with hold | hnew
    · exact h.readable status (List.mem_filter.1 hold).1
    · rw [List.mem_singleton.1 hnew]
      exact hload

/-- What is read of the loads, in the order of the nodes. -/
theorem Mirrors.readLoads (h : s.Mirrors text calls plane) (nodes : List NodeId) :
    EtcdRegistry.readLoads text s nodes = .ok (nodes.filterMap plane.loadOf) := by
  induction nodes with
  | nil => rfl
  | cons node nodes ih =>
    have hload := h.value (.load node)
    simp only [PlaneKey.text, ControlPlane.stored] at hload
    rw [EtcdRegistry.readLoads]
    cases hfound : plane.loadOf node with
    | none =>
      rw [hfound] at hload
      rw [Option.map_eq_none_iff.1 hload, List.filterMap_cons_none hfound]
      exact ih
    | some status =>
      rw [hfound] at hload
      obtain ⟨e, hentry, hvalue⟩ := Option.map_eq_some_iff.1 hload
      obtain ⟨hmem, hnode⟩ := (loadOf_eq_some h.nodes).1 hfound
      rw [hentry, List.filterMap_cons_some hfound]
      simp only [hvalue, h.readable status hmem, ih, ← hnode]
      rfl

theorem Mirrors.liveNodes (h : s.Mirrors text calls plane) :
    ∃ live, (EtcdRegistry.liveNodes text).exec s = (.ok live, s) ∧ live.Perm plane.loads := by
  refine ⟨EtcdRegistry.nodesByKey.filterMap plane.loadOf, ?_, ?_⟩
  · rw [EtcdRegistry.liveNodes, Req.exec, EtcdRegistry.call, Prog.exec_call, h.answered]
    simp only []
    rw [h.readLoads]
  · have hall : EtcdRegistry.nodesByKey.Perm (List.finRange (2 ^ 16)) := List.mergeSort_perm _ _
    rw [List.perm_ext_iff_of_nodup]
    · intro status
      rw [List.mem_filterMap]
      constructor
      · rintro ⟨node, -, hfound⟩
        exact ((loadOf_eq_some h.nodes).1 hfound).1
      · intro hmem
        exact ⟨status.node, hall.mem_iff.2 (List.mem_finRange _),
          (loadOf_eq_some h.nodes).2 ⟨hmem, rfl⟩⟩
    · refine (hall.nodup_iff.2 (List.nodup_finRange _)).filterMap ?_
      intro node node' status hnode hnode'
      rw [← ((loadOf_eq_some h.nodes).1 hnode).2, ← ((loadOf_eq_some h.nodes).1 hnode').2]
    · exact h.nodes.of_map

end

end Etcd

namespace Agora

/-! A list of nodes is an array of numbers, and a load that nothing weighs is an object. -/

def renderNodes (nodes : List NodeId) : String :=
  String.ofList ('[' :: ([','].intercalate (nodes.map (fun n => (toString n.val).toList)) ++ [']']))

def parseNodes (json : String) : Except RegistryError (List NodeId) :=
  match json.toList.drop 1 |>.dropLast with
  | [] => .ok []
  | digits =>
    match (digits.splitOn ',').mapM (fun part => EtcdRegistry.parseNode (String.ofList part)) with
    | some nodes => .ok nodes
    | none => .error ⟨"invalid type"⟩

def idle : NodeLoad Nat := ⟨0, 0⟩

def planeText : PlaneText Nat where
  renderNodes := renderNodes
  parseNodes := parseNodes
  renderLoad load :=
    "\x7b\"hosted_scopes\":" ++ toString load.hostedScopes ++ ",\"requests_per_sec\":" ++
      toString load.requestsPerSec ++ ".0\x7d"
  parseLoad json :=
    if json = "\x7b\"hosted_scopes\":0,\"requests_per_sec\":0.0\x7d" then .ok idle
    else .error ⟨"missing field"⟩

theorem toString_node_ne_nil (node : NodeId) : (toString node.val).toList ≠ [] := by
  change (Nat.repr node.val).toList ≠ []
  rw [Nat.toList_repr]
  exact Nat.toDigits_ne_nil

theorem comma_notMem_toString (node : NodeId) : ',' ∉ (toString node.val).toList := by
  change ',' ∉ (Nat.repr node.val).toList
  rw [Nat.toList_repr]
  intro h
  have hdigit := Nat.isDigit_of_mem_toDigits (by omega) (by omega) h
  cases hdigit

theorem mapM_parseNode (nodes : List NodeId) :
    (nodes.map (fun n => (toString n.val).toList)).mapM
      (fun part => EtcdRegistry.parseNode (String.ofList part)) = some nodes := by
  induction nodes with
  | nil => rfl
  | cons node nodes ih =>
    rw [List.map_cons, List.mapM_cons, String.ofList_toList, EtcdRegistry.parseNode_toString, ih]
    rfl

theorem readsNodes_planeText : planeText.ReadsNodes := by
  constructor
  intro nodes
  change parseNodes (renderNodes nodes) = .ok nodes
  rw [parseNodes, renderNodes, String.toList_ofList, List.drop_one, List.tail_cons,
    List.dropLast_concat]
  cases nodes with
  | nil => rfl
  | cons node nodes =>
    have hparts : ∀ part ∈ (node :: nodes).map (fun n => (toString n.val).toList),
        ',' ∉ part := by
      intro part hpart
      obtain ⟨n, -, rfl⟩ := List.mem_map.1 hpart
      exact comma_notMem_toString n
    have hsplit := List.splitOn_intercalate ',' hparts (List.cons_ne_nil _ _)
    split
    next hnil =>
      rw [hnil] at hsplit
      exact absurd (List.cons.inj hsplit).1.symm (toString_node_ne_nil node)
    next =>
      rw [hsplit, mapM_parseNode]

end Agora

end Democrachat.Federation
