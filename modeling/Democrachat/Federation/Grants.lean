import Democrachat.Federation.EtcdRegistry

/-!
# What etcd grants

The epoch that is stored for a scope is that of its last grant, and whoever is stored as its
holder got that grant.  A claim that finds the epoch under the revision under which it has
read it therefore grants the next one.
-/

namespace Democrachat.Federation

open Library

namespace EtcdRegistry

/-! ## Keys -/

theorem toList_holderOf (scope : OwnedScope) :
    (holderOf scope).toList =
      "democrachat/owners/".toList ++ ((scopeKey scope).toList ++ "/holder".toList) := by
  simp [holderOf, keyPrefix, String.toList_append]

theorem toList_epochOf (scope : OwnedScope) :
    (epochOf scope).toList =
      "democrachat/owners/".toList ++ ((scopeKey scope).toList ++ "/epoch".toList) := by
  simp [epochOf, keyPrefix, String.toList_append]

theorem holderOf_inj {scope scope' : OwnedScope} :
    holderOf scope = holderOf scope' ↔ scopeKey scope = scopeKey scope' := by
  constructor
  · intro h
    have hlist := congrArg String.toList h
    rw [toList_holderOf, toList_holderOf, List.append_cancel_left_eq,
      List.append_cancel_right_eq] at hlist
    exact String.toList_inj.1 hlist
  · intro h
    rw [holderOf, h, holderOf]

theorem epochOf_inj {scope scope' : OwnedScope} :
    epochOf scope = epochOf scope' ↔ scopeKey scope = scopeKey scope' := by
  constructor
  · intro h
    have hlist := congrArg String.toList h
    rw [toList_epochOf, toList_epochOf, List.append_cancel_left_eq,
      List.append_cancel_right_eq] at hlist
    exact String.toList_inj.1 hlist
  · intro h
    rw [epochOf, h, epochOf]

theorem holderOf_ne_epochOf (scope scope' : OwnedScope) : holderOf scope ≠ epochOf scope' := by
  intro h
  have hlast := congrArg (fun s : String => s.toList.reverse.head?) h
  simp [toList_holderOf, toList_epochOf] at hlast

/-- The keys that ownership is kept under. -/
def IsOwnership (key : String) : Prop := "democrachat/owners/".toList <+: key.toList

theorem isOwnership_holderOf (scope : OwnedScope) : IsOwnership (holderOf scope) :=
  ⟨_, (toList_holderOf scope).symm⟩

theorem isOwnership_epochOf (scope : OwnedScope) : IsOwnership (epochOf scope) :=
  ⟨_, (toList_epochOf scope).symm⟩

theorem not_isOwnership_rehomingOf (scope : OwnedScope) : ¬ IsOwnership (rehomingOf scope) := by
  rintro ⟨rest, h⟩
  simp [rehomingOf, keyPrefix, String.toList_append] at h

theorem not_isOwnership_keyOf (node : NodeId) : ¬ IsOwnership (keyOf node) := by
  rintro ⟨rest, h⟩
  simp [keyOf, keyPrefix, String.toList_append] at h

/-! ## Values -/

theorem parseU64_toString {n : Nat} (h : n < 2 ^ 64) : parseU64 (toString n) = some n := by
  have hdigit : ∀ c ∈ Nat.toDigits 10 n, c.isDigit = true := fun c hc =>
    Nat.isDigit_of_mem_toDigits (by omega) (by omega) hc
  have hlist : (toString n).toList = Nat.toDigits 10 n := Nat.toList_repr
  have hvalue : (Nat.toDigits 10 n).foldl (fun n c => 10 * n + (c.toNat - '0'.toNat)) 0 = n :=
    Nat.ofDigitChars_ten_toDigits
  unfold parseU64
  rw [hlist]
  split
  next cs hplus =>
    have hsign := hdigit '+' (by rw [hplus]; exact List.mem_cons_self)
    cases hsign
  next =>
    dsimp only
    rw [if_pos ⟨Nat.toDigits_ne_nil, List.all_eq_true.2 hdigit⟩, hvalue, if_pos h]

theorem parseNode_toString (node : NodeId) : parseNode (toString node.val) = some node := by
  have hnode : node.val < 2 ^ 64 := lt_trans node.isLt (by decide)
  rw [parseNode, parseU64_toString hnode, Option.bind_some, dif_pos node.isLt]

end EtcdRegistry

open EtcdRegistry

namespace Etcd

/-! ## The grants of a scope -/

/-- Who holds the scope. -/
def storedHolder (s : Etcd) (scope : OwnedScope) : Option NodeId :=
  (s.kv.entries (holderOf scope)).bind (fun e => parseNode e.value)

def storedEpoch (s : Etcd) (scope : OwnedScope) : Nat :=
  ((s.kv.entries (EtcdRegistry.epochOf scope)).bind (fun e => parseU64 e.value)).getD 0

/-- The scopes have the same keys. -/
def grants (s : Etcd) (scope : OwnedScope) : List Ownership :=
  s.granted.filter (fun g => scopeKey g.scope == scopeKey scope)

def lastGrant (s : Etcd) (scope : OwnedScope) : Option Ownership := (s.grants scope).getLast?

/-- The stored epoch is that of the last grant, the holder is who got it, and the epochs rise. -/
structure Inv (s : Etcd) : Prop where
  stamped : s.kv.Stamped
  epoch : ∀ scope, (s.kv.entries (EtcdRegistry.epochOf scope)).map (fun e => (e.value, e.lease)) =
    (s.lastGrant scope).map (fun g => (toString g.epoch, none))
  holder : ∀ scope e, s.kv.entries (holderOf scope) = some e →
    ∃ g, s.lastGrant scope = some g ∧ e.value = toString g.owner.val
  rising : ∀ scope, (s.grants scope).Pairwise (fun g g' => g.epoch < g'.epoch)
  bounded : ∀ g ∈ s.granted, g.epoch < 2 ^ 64

/-- From the first state to the second, with nothing lost of what was granted. -/
structure Grows (s t : Etcd) : Prop where
  inv : t.Inv
  follows : s.kv.Follows t.kv
  granted : s.granted <+: t.granted

/-- What every call may do. -/
def Leads (s t : Etcd) : Prop := s.Inv → s.Grows t

theorem inv_empty : empty.Inv where
  stamped := Kv.stamped_empty
  epoch := fun _ => rfl
  holder := nofun
  rising := fun _ => List.Pairwise.nil
  bounded := nofun

theorem Leads.refl (s : Etcd) : s.Leads s :=
  fun hs => ⟨hs, .refl s.kv, List.prefix_refl _⟩

theorem Leads.trans (s t u : Etcd) (h : s.Leads t) (h' : t.Leads u) : s.Leads u := by
  intro hs
  have hst := h hs
  have htu := h' hst.inv
  exact ⟨htu.inv, hst.follows.trans htu.follows, hst.granted.trans htu.granted⟩

theorem lastGrant_mem {s : Etcd} {scope : OwnedScope} {g : Ownership}
    (h : s.lastGrant scope = some g) : g ∈ s.grants scope :=
  List.mem_of_getLast? h

theorem storedEpoch_eq {s : Etcd} (hs : s.Inv) (scope : OwnedScope) :
    s.storedEpoch scope = ((s.lastGrant scope).map (·.epoch)).getD 0 := by
  have hepoch := hs.epoch scope
  unfold storedEpoch
  cases hentry : s.kv.entries (EtcdRegistry.epochOf scope) with
  | none =>
    rw [hentry] at hepoch
    rw [Option.map_eq_none_iff.1 hepoch.symm]
    rfl
  | some e =>
    rw [hentry] at hepoch
    obtain ⟨g, hlast, hvalue⟩ := Option.map_eq_some_iff.1 hepoch.symm
    have hbound := hs.bounded g (List.mem_filter.1 (lastGrant_mem hlast)).1
    have htext : e.value = toString g.epoch := (Prod.mk.inj hvalue).1.symm
    rw [hlast, Option.bind_some, htext, parseU64_toString hbound]
    rfl

theorem storedHolder_eq {s : Etcd} (hs : s.Inv) {scope : OwnedScope}
    {e : KeyValue String LeaseId} (h : s.kv.entries (holderOf scope) = some e) :
    ∃ g, s.lastGrant scope = some g ∧ s.storedHolder scope = some g.owner := by
  obtain ⟨g, hlast, hvalue⟩ := hs.holder scope e h
  refine ⟨g, hlast, ?_⟩
  rw [storedHolder, h, Option.bind_some, hvalue, parseNode_toString]

/-- No grant of the scope has a higher epoch than its last one. -/
theorem epoch_le_stored {s : Etcd} (hs : s.Inv) {scope : OwnedScope} {g : Ownership}
    (hg : g ∈ s.grants scope) : g.epoch ≤ s.storedEpoch scope := by
  rw [storedEpoch_eq hs, lastGrant]
  have hrising := hs.rising scope
  obtain ⟨before, after, hsplit⟩ := List.append_of_mem hg
  rw [hsplit] at hrising ⊢
  have hafter := (List.pairwise_append.1 hrising).2.1
  cases hlast : after.getLast? with
  | none =>
    rw [List.getLast?_eq_none_iff.1 hlast]
    simp
  | some g' =>
    have hmem : g' ∈ after := List.mem_of_getLast? hlast
    have hlater := (List.pairwise_cons.1 hafter).1 g' hmem
    have hend : (before ++ g :: after).getLast? = some g' := by
      rw [List.getLast?_append, List.getLast?_cons, hlast]
      simp
    rw [hend]
    simp only [Option.map_some, Option.getD_some]
    omega

/-! ## Steps that grant nothing -/

theorem Inv.of_kept {s t : Etcd} (hs : s.Inv) (hstamped : t.kv.Stamped)
    (hepoch : ∀ scope, t.kv.entries (EtcdRegistry.epochOf scope) =
      s.kv.entries (EtcdRegistry.epochOf scope))
    (hholder : ∀ scope e, t.kv.entries (holderOf scope) = some e →
      s.kv.entries (holderOf scope) = some e)
    (hgranted : t.granted = s.granted) : t.Inv := by
  have hgrants : ∀ scope, t.grants scope = s.grants scope := by
    intro scope
    rw [grants, hgranted, grants]
  have hlast : ∀ scope, t.lastGrant scope = s.lastGrant scope := by
    intro scope
    rw [lastGrant, hgrants, lastGrant]
  constructor
  · exact hstamped
  · intro scope
    rw [hepoch, hlast]
    exact hs.epoch scope
  · intro scope e h
    rw [hlast]
    exact hs.holder scope e (hholder scope e h)
  · intro scope
    rw [hgrants]
    exact hs.rising scope
  · rw [hgranted]
    exact hs.bounded

/-- One operation away from what ownership is kept under, or the end of a holder. -/
theorem leads_applyOp {s t : Etcd} {op : TxnOp String String LeaseId}
    (hop : ¬ IsOwnership op.key ∨ ∃ scope, op = .delete (holderOf scope))
    (hkv : t.kv = s.kv.applyOp (s.kv.revision + 1) op) (hgranted : t.granted = s.granted) :
    s.Leads t := by
  intro hs
  have hduring : s.kv.During (s.kv.revision + 1) t.kv := by
    rw [hkv]
    exact Kv.During.applyOp hs.stamped rfl ⟨.inl rfl, fun _ _ h => .inl h⟩ op
  have hepochKey : ∀ scope, EtcdRegistry.epochOf scope ≠ op.key := by
    intro scope hkey
    rcases hop with hop | ⟨scope', rfl⟩
    · exact hop (hkey ▸ isOwnership_epochOf scope)
    · exact holderOf_ne_epochOf scope' scope hkey.symm
  refine ⟨hs.of_kept (hduring.isStamped hs.stamped) ?_ ?_ hgranted, hduring.follows, ?_⟩
  · intro scope
    rw [hkv, Kv.entries_applyOp_of_ne (hepochKey scope)]
  · intro scope e h
    by_cases hkey : holderOf scope = op.key
    · rcases hop with hop | ⟨scope', rfl⟩
      · exact absurd (hkey ▸ isOwnership_holderOf scope) hop
      · rw [hkey, hkv] at h
        simp only [Kv.applyOp, TxnOp.key] at h
        split at h
        next =>
          simp only [Function.update_self] at h
          cases h
        next =>
          rw [hkey]
          exact h
    · rwa [hkv, Kv.entries_applyOp_of_ne hkey] at h
  · rw [hgranted]

theorem leads_expire (lease : LeaseId) (s : Etcd) :
    s.Leads { s with kv := s.kv.expire lease } := by
  intro hs
  refine ⟨hs.of_kept (Kv.stamped_expire hs.stamped lease) ?_ ?_ rfl, Kv.follows_expire lease s.kv,
    List.prefix_refl _⟩
  · -- An epoch is written under no lease.
    intro scope
    have hepoch := hs.epoch scope
    change (s.kv.entries (EtcdRegistry.epochOf scope)).filter _ = _
    cases hentry : s.kv.entries (EtcdRegistry.epochOf scope) with
    | none => rfl
    | some e =>
      rw [hentry] at hepoch
      obtain ⟨g, -, hvalue⟩ := Option.map_eq_some_iff.1 hepoch.symm
      have hlease : e.lease = none := (Prod.mk.inj hvalue).2.symm
      simp [hlease]
  · intro scope e h
    exact (Option.filter_eq_some_iff.1 h).1

theorem leads_turn (fate : Fate) (s : Etcd) : s.Leads { s with fate } :=
  fun hs => ⟨hs.of_kept hs.stamped (fun _ => rfl) (fun _ _ h => h) rfl, .refl s.kv,
    List.prefix_refl _⟩

/-! ## Steps that grant -/

/-- The writes of a claim that goes through. -/
def grantOps (lease : LeaseId) (grant : Ownership) : List (TxnOp String String LeaseId) :=
  [.put (holderOf grant.scope) (toString grant.owner.val) (some lease),
    .put (EtcdRegistry.epochOf grant.scope) (toString grant.epoch) none]

def grant (s : Etcd) (lease : LeaseId) (grant : Ownership) : Etcd :=
  { s with
    kv := (grantOps lease grant).foldl (Kv.applyOp (s.kv.revision + 1)) s.kv
    granted := s.granted ++ [grant] }

section

variable {s : Etcd} {lease : LeaseId} {g : Ownership}

theorem entries_put_of_ne {kv : Kv String String LeaseId} {revision : Nat} {key key' value : String}
    {lease? : Option LeaseId} (h : key' ≠ key) :
    (kv.applyOp revision (.put key value lease?)).entries key' = kv.entries key' := by
  have hkey : key' ≠ TxnOp.key (.put key value lease? : TxnOp String String LeaseId) := h
  exact Kv.entries_applyOp_of_ne hkey

theorem grant_kv : (s.grant lease g).kv =
    (s.kv.applyOp (s.kv.revision + 1)
        (.put (holderOf g.scope) (toString g.owner.val) (some lease))).applyOp
      (s.kv.revision + 1) (.put (EtcdRegistry.epochOf g.scope) (toString g.epoch) none) := rfl

theorem holder_grant (s : Etcd) (lease : LeaseId) {scope : OwnedScope}
    (h : scopeKey scope = scopeKey g.scope) :
    ∃ e, (s.grant lease g).kv.entries (holderOf scope) = some e ∧
      e.value = toString g.owner.val := by
  obtain ⟨e, hentry, hvalue, -⟩ := Kv.entries_applyOp_put (s.kv.revision + 1) s.kv
    (holderOf g.scope) (toString g.owner.val) (some lease)
  refine ⟨e, ?_, hvalue⟩
  rw [holderOf_inj.2 h, grant_kv, entries_put_of_ne (holderOf_ne_epochOf _ _), hentry]

theorem epoch_grant (s : Etcd) (lease : LeaseId) {scope : OwnedScope}
    (h : scopeKey scope = scopeKey g.scope) :
    ∃ e, (s.grant lease g).kv.entries (EtcdRegistry.epochOf scope) = some e ∧
      e.value = toString g.epoch ∧ e.lease = none := by
  rw [epochOf_inj.2 h]
  exact Kv.entries_applyOp_put _ _ _ _ _

/-- The keys of other scopes stay. -/
theorem entries_grant {scope : OwnedScope} (h : scopeKey scope ≠ scopeKey g.scope) :
    (s.grant lease g).kv.entries (holderOf scope) = s.kv.entries (holderOf scope) ∧
      (s.grant lease g).kv.entries (EtcdRegistry.epochOf scope) =
        s.kv.entries (EtcdRegistry.epochOf scope) := by
  have hholder : holderOf scope ≠ holderOf g.scope := fun hkey => h (holderOf_inj.1 hkey)
  have hepoch : EtcdRegistry.epochOf scope ≠ EtcdRegistry.epochOf g.scope :=
    fun hkey => h (epochOf_inj.1 hkey)
  rw [grant_kv]
  constructor
  · rw [entries_put_of_ne (holderOf_ne_epochOf _ _), entries_put_of_ne hholder]
  · rw [entries_put_of_ne hepoch, entries_put_of_ne (holderOf_ne_epochOf _ _).symm]

theorem grants_grant {scope : OwnedScope} :
    (s.grant lease g).grants scope =
      s.grants scope ++ if scopeKey g.scope = scopeKey scope then [g] else [] := by
  rw [grants, grant, List.filter_append, grants]
  split
  next h => simp [h]
  next h => simp [h]

theorem lastGrant_grant {scope : OwnedScope} :
    (s.grant lease g).lastGrant scope =
      if scopeKey g.scope = scopeKey scope then some g else s.lastGrant scope := by
  rw [lastGrant, grants_grant]
  split
  next => exact List.getLast?_concat
  next => rw [List.append_nil, lastGrant]

/-- Granting the next epoch keeps everything as it should be. -/
theorem grows_grant (hs : s.Inv) (hnext : g.epoch = s.storedEpoch g.scope + 1)
    (hbound : g.epoch < 2 ^ 64) : s.Grows (s.grant lease g) := by
  have hduring : s.kv.During (s.kv.revision + 1) (s.grant lease g).kv :=
    Kv.During.foldl hs.stamped rfl ⟨.inl rfl, fun _ _ h => .inl h⟩ (grantOps lease g)
  refine ⟨⟨hduring.isStamped hs.stamped, ?_, ?_, ?_, ?_⟩, hduring.follows,
    List.prefix_append _ _⟩
  · intro scope
    rw [lastGrant_grant]
    split
    next hkey =>
      obtain ⟨e, hentry, hvalue, hlease⟩ := epoch_grant s lease hkey.symm
      rw [hentry, Option.map_some, Option.map_some, hvalue, hlease]
    next hkey =>
      rw [(entries_grant (fun h => hkey h.symm)).2]
      exact hs.epoch scope
  · intro scope e hentry
    rw [lastGrant_grant]
    split
    next hkey =>
      obtain ⟨e', hentry', hvalue⟩ := holder_grant s lease hkey.symm
      obtain rfl := Option.some.inj (hentry.symm.trans hentry')
      exact ⟨g, rfl, hvalue⟩
    next hkey =>
      rw [(entries_grant (fun h => hkey h.symm)).1] at hentry
      exact hs.holder scope e hentry
  · intro scope
    rw [grants_grant]
    split
    next hkey =>
      have hgrants : s.grants scope = s.grants g.scope := by
        simp only [grants, hkey]
      refine List.pairwise_append.2 ⟨hs.rising scope, List.pairwise_singleton _ _, ?_⟩
      intro g' hg' g'' hg''
      rw [List.mem_singleton.1 hg'', hnext]
      rw [hgrants] at hg'
      have hle := epoch_le_stored hs hg'
      omega
    next =>
      rw [List.append_nil]
      exact hs.rising scope
  · intro g' hg'
    rcases List.mem_append.1 hg' with hold | hnew
    · exact hs.bounded g' hold
    · rw [List.mem_singleton.1 hnew]
      exact hbound

theorem storedHolder_grant : (s.grant lease g).storedHolder g.scope = some g.owner := by
  obtain ⟨e, hentry, hvalue⟩ := holder_grant s lease rfl
  rw [storedHolder, hentry, Option.bind_some, hvalue, parseNode_toString]

end

end Etcd

/-! ## Calls -/

section

variable {α β : Type} {A : Except RegistryError β → Etcd → Etcd → Prop}
  (hA : ∀ e prev s, A (.error e) prev s) {prev s : Etcd} (hs : s.Inv)

include hA hs

/-- A call is made in a state to which the others have led, and its answer may be lost. -/
theorem commits_call_bind {f : Etcd → Except RegistryError α × Etcd}
    {k : α → Req Etcd RegistryError β} (hstep : ∀ t, s.Grows t → t.Leads (f t).2)
    (hnext : ∀ t a, s.Grows t → (f t).1 = .ok a →
      Prog.Commits Etcd.Leads A (k a).run t (f t).2) :
    Prog.Commits Etcd.Leads A (call f >>= k).run prev s := by
  intro t hst
  have hgrows := hst hs
  cases hfate : t.fate with
  | unreachable message =>
    simp only [hfate]
    exact ⟨.refl t, hA _ _ _⟩
  | answered =>
    simp only [hfate]
    refine ⟨hstep t hgrows, ?_⟩
    cases hresult : (f t).1 with
    | error e => exact hA _ _ _
    | ok a => exact hnext t a hgrows hresult
  | answerLost message =>
    simp only [hfate]
    exact ⟨hstep t hgrows, hA _ _ _⟩

theorem commits_getStr_bind {key : String} {k : Option (String × Nat) → Req Etcd RegistryError β}
    (hnext : ∀ t, s.Grows t → Prog.Commits Etcd.Leads A
      (k ((t.kv.entries key).map (fun e => (e.value, e.modRevision)))).run t t) :
    Prog.Commits Etcd.Leads A (getStr key >>= k).run prev s := by
  refine commits_call_bind hA hs (fun t _ => .refl t) ?_
  intro t a hgrows hresult
  obtain rfl := Except.ok.inj hresult
  exact hnext t hgrows

omit hs

theorem commits_okOr_bind {o : Option α} {e : RegistryError} {k : α → Req Etcd RegistryError β}
    (hnext : ∀ a, o = some a → Prog.Commits Etcd.Leads A (k a).run prev s) :
    Prog.Commits Etcd.Leads A (Req.okOr o e >>= k).run prev s := by
  cases o with
  | none => exact hA _ _ _
  | some a => exact hnext a rfl

/-- The epoch that is read is the one that is stored. -/
theorem commits_readEpoch_bind {u : Etcd} {scope : OwnedScope}
    {k : Nat → Req Etcd RegistryError β}
    (hnext : Prog.Commits Etcd.Leads A (k (u.storedEpoch scope)).run prev s) :
    Prog.Commits Etcd.Leads A
      (readEpoch ((u.kv.entries (EtcdRegistry.epochOf scope)).map
        (fun e => (e.value, e.modRevision))) >>= k).run prev s := by
  unfold Etcd.storedEpoch at hnext
  cases hentry : u.kv.entries (EtcdRegistry.epochOf scope) with
  | none =>
    rw [hentry] at hnext
    exact hnext
  | some e =>
    rw [hentry] at hnext
    refine commits_okOr_bind hA ?_
    intro epoch hparse
    rw [Option.bind_some, hparse] at hnext
    exact hnext

theorem commits_ensure_bind {c : Bool} {e : RegistryError} {k : Unit → Req Etcd RegistryError β}
    (hnext : c = true → Prog.Commits Etcd.Leads A (k ()).run prev s) :
    Prog.Commits Etcd.Leads A (Req.ensure c e >>= k).run prev s := by
  cases c with
  | false => exact hA _ _ _
  | true => exact hnext rfl

end

/-- A transaction changes nothing, or goes through as a whole. -/
theorem runTxn_cases (compares : List (Compare String String))
    (ops : List (TxnOp String String LeaseId)) (grant : Option Ownership) (s : Etcd) :
    (runTxn compares ops grant s).1 ≠ .ok true ∧ (runTxn compares ops grant s).2 = s ∨
      (runTxn compares ops grant s).1 = .ok true ∧
        (∀ compare ∈ compares, s.kv.holds compare = true) ∧
        (runTxn compares ops grant s).2 =
          { s with
            kv := ops.foldl (Kv.applyOp (s.kv.revision + 1)) s.kv
            granted := s.granted ++ grant.toList } := by
  unfold runTxn
  rcases Kv.txn_cases compares ops s.kv with ⟨hresult, hsame⟩ | ⟨hresult, hholds, happlied⟩
  · rcases htxn : s.kv.txn compares ops with ⟨_ | _ | _, kv⟩
    · exact .inl ⟨nofun, rfl⟩
    · exact .inl ⟨nofun, rfl⟩
    · rw [htxn] at hresult
      exact absurd rfl hresult
  · rcases htxn : s.kv.txn compares ops with ⟨result, kv⟩
    rw [htxn] at hresult happlied
    dsimp only at hresult happlied
    subst hresult happlied
    exact .inr ⟨rfl, hholds, rfl⟩

/-- The transaction of a claim grants the next epoch, or nothing. -/
theorem claim_txn {u v : Etcd} (hu : u.Inv) (huv : u.Grows v) (lease : LeaseId)
    (scope : OwnedScope) (node : NodeId) (hbound : u.storedEpoch scope + 1 < 2 ^ 64) :
    let step := runTxn
      [.createRevision (holderOf scope) 0, .modRevision (EtcdRegistry.epochOf scope)
        (u.kv.modRevision (EtcdRegistry.epochOf scope))]
      (Etcd.grantOps lease ⟨scope, node, u.storedEpoch scope + 1⟩)
      (some ⟨scope, node, u.storedEpoch scope + 1⟩) v
    v.Grows step.2 ∧ (step.1 = .ok true → v.storedEpoch scope = u.storedEpoch scope ∧
      step.2 = v.grant lease ⟨scope, node, u.storedEpoch scope + 1⟩) := by
  intro step
  rcases runTxn_cases _ _ _ v with ⟨hresult, hsame⟩ | ⟨hresult, hholds, happlied⟩
  · constructor
    · rw [hsame]
      exact Etcd.Leads.refl v huv.inv
    · exact fun hok => absurd hok hresult
  · have hrevision : v.kv.modRevision (EtcdRegistry.epochOf scope) =
        u.kv.modRevision (EtcdRegistry.epochOf scope) := by
      have hholds := hholds _ (List.mem_cons_of_mem _ (List.mem_singleton_self _))
      exact beq_iff_eq.1 hholds
    have hread := huv.follows.entries_eq hu.stamped huv.inv.stamped hrevision
    have hsame : v.storedEpoch scope = u.storedEpoch scope := by
      rw [Etcd.storedEpoch, hread, Etcd.storedEpoch]
    have hgrant : step.2 = v.grant lease ⟨scope, node, u.storedEpoch scope + 1⟩ := happlied
    constructor
    · rw [hgrant]
      exact Etcd.grows_grant huv.inv (by rw [hsame]) hbound
    · exact fun _ => ⟨hsame, hgrant⟩

/-- What an answer says about the step that gave it. -/
def Told : EtcdAnswer → Etcd → Etcd → Prop
  | .claim scope node (.ok (.claimed epoch)), prev, s =>
    epoch = prev.storedEpoch scope + 1 ∧ ∃ lease, s = prev.grant lease ⟨scope, node, epoch⟩
  | _, _, _ => True

/-- What a claim says. -/
def ClaimTold (scope : OwnedScope) (node : NodeId) (result : Except RegistryError ClaimOutcome)
    (prev s : Etcd) : Prop :=
  Told (.claim scope node result) prev s

theorem commits_claimLoop (lease : LeaseId) (scope : OwnedScope) (node : NodeId) (rounds : Nat)
    {prev s : Etcd} (hs : s.Inv) :
    Prog.Commits Etcd.Leads (ClaimTold scope node) (claimLoop lease scope node rounds).run prev s := by
  have hA : ∀ e prev s, ClaimTold scope node (.error e) prev s := fun _ _ _ => trivial
  induction rounds generalizing prev s with
  | zero => exact hA _ _ _
  | succ rounds ih =>
    rw [claimLoop]
    refine commits_getStr_bind hA hs ?_
    intro t hst
    cases hholder : t.kv.entries (holderOf scope) with
    | some e =>
      refine commits_okOr_bind hA ?_
      intro by_ hby
      exact commits_getStr_bind hA hst.inv (fun u htu => trivial)
    | none =>
      refine commits_getStr_bind hA hst.inv ?_
      intro u htu
      have hrevision : (((u.kv.entries (EtcdRegistry.epochOf scope)).map
          (fun e => (e.value, e.modRevision))).map Prod.snd).getD 0 =
            u.kv.modRevision (EtcdRegistry.epochOf scope) := by
        rw [Option.map_map]
        rfl
      rw [hrevision]
      refine commits_readEpoch_bind hA ?_
      refine commits_ensure_bind hA ?_
      intro hbound
      have hbound := of_decide_eq_true hbound
      refine commits_call_bind hA htu.inv ?_ ?_
      · intro v huv _
        exact (claim_txn htu.inv huv lease scope node hbound).1
      · intro v succeeded huv hresult
        obtain ⟨hgrows, htold⟩ := claim_txn htu.inv huv lease scope node hbound
        cases succeeded with
        | true =>
          obtain ⟨hepoch, hgrant⟩ := htold hresult
          exact ⟨by rw [hepoch], lease, hgrant⟩
        | false => exact ih hgrows.inv

/-- A transaction of one operation that grants nothing. -/
theorem leads_runTxn (op : TxnOp String String LeaseId)
    (hop : ¬ IsOwnership op.key ∨ ∃ scope, op = .delete (holderOf scope))
    (compares : List (Compare String String)) (s : Etcd) :
    s.Leads (runTxn compares [op] none s).2 := by
  rcases runTxn_cases compares [op] none s with ⟨-, hsame⟩ | ⟨-, -, happlied⟩
  · rw [hsame]
    exact .refl s
  · rw [happlied]
    exact Etcd.leads_applyOp hop rfl (List.append_nil _)

theorem leads_put {key : String} (hkey : ¬ IsOwnership key)
    (compares : List (Compare String String)) (value : String) (lease : Option LeaseId) (s : Etcd) :
    s.Leads (runTxn compares [.put key value lease] none s).2 :=
  leads_runTxn (.put key value lease) (.inl hkey) compares s

theorem leads_delete {key : String} (hkey : ¬ IsOwnership key)
    (compares : List (Compare String String)) (s : Etcd) :
    s.Leads (runTxn compares [.delete key] none s).2 :=
  leads_runTxn (.delete key) (.inl hkey) compares s

/-- Whatever a node calls, it keeps what has been granted, and claims grant what they say. -/
theorem EtcdCall.commits (call : EtcdCall) {prev s : Etcd} (hs : s.Inv) :
    Prog.Commits Etcd.Leads Told call.prog prev s := by
  have hother : ∀ (e : RegistryError) (prev s : Etcd), True := fun _ _ _ => trivial
  cases call with
  | ownerOf scope =>
    apply Prog.Commits.map
    refine commits_getStr_bind (A := fun _ _ _ => True) hother hs ?_
    intro t hst
    cases t.kv.entries (holderOf scope) with
    | none => trivial
    | some e =>
      refine commits_okOr_bind (A := fun _ _ _ => True) hother ?_
      intro owner _
      refine commits_getStr_bind (A := fun _ _ _ => True) hother hst.inv ?_
      intro u _
      exact commits_readEpoch_bind (A := fun _ _ _ => True) hother trivial
  | claim lease scope node => exact Prog.Commits.map _ (commits_claimLoop lease scope node 8 hs)
  | release scope node =>
    apply Prog.Commits.map
    refine commits_call_bind (A := fun _ _ _ => True) hother hs ?_ (fun _ _ _ _ => trivial)
    exact fun t _ => leads_runTxn _ (.inr ⟨scope, rfl⟩) _ t
  | canRehome scope =>
    apply Prog.Commits.map
    exact commits_getStr_bind (A := fun _ _ _ => True) hother hs (fun _ _ => trivial)
  | setRehoming scope enabled =>
    apply Prog.Commits.map
    refine commits_call_bind (A := fun _ _ _ => True) hother hs ?_ (fun _ _ _ _ => trivial)
    intro t _
    cases enabled with
    | true => exact leads_delete (not_isOwnership_rehomingOf scope) _ t
    | false => exact leads_put (not_isOwnership_rehomingOf scope) _ _ _ t
  | publishKey node publicHex =>
    apply Prog.Commits.map
    refine commits_getStr_bind (A := fun _ _ _ => True) hother hs ?_
    intro t hst
    cases t.kv.entries (keyOf node) with
    | some e =>
      have hensure : Prog.Commits Etcd.Leads (fun _ _ _ => True)
          (Req.ensure (e.value == publicHex)
            ⟨"node key already published; refusing to overwrite it (first-write-wins)"⟩ :
              Req Etcd RegistryError Unit).run t t := by
        cases e.value == publicHex with
        | true => trivial
        | false => trivial
      exact hensure
    | none =>
      refine commits_call_bind (A := fun _ _ _ => True) hother hst.inv ?_ ?_
      · exact fun u _ => leads_put (not_isOwnership_keyOf node) _ _ _ u
      · intro u succeeded _ _
        cases succeeded with
        | true => trivial
        | false => trivial
  | expire lease => exact fun t _ => ⟨Etcd.leads_expire lease t, trivial⟩
  | turn fate => exact fun t _ => ⟨Etcd.leads_turn fate t, trivial⟩

/-! ## Single steps -/

/-- One step of etcd grants nothing, or one scope to one node. -/
def Etcd.Granting (s t : Etcd) : Prop :=
  t.granted = s.granted ∨ ∃ lease g, t = s.grant lease g

theorem Etcd.Granting.refl (s : Etcd) : s.Granting s := .inl rfl

theorem granting_call {α : Type} {f : Etcd → Except RegistryError α × Etcd}
    (h : ∀ s : Etcd, s.Granting (f s).2) : Req.WritesOnly Etcd.Granting (call f) := by
  constructor
  apply Prog.guarantees_call
  intro s
  split
  · exact .refl s
  · exact h s
  · exact h s

theorem granting_getStr (key : String) : Req.WritesOnly Etcd.Granting (getStr key) :=
  granting_call .refl

/-- A transaction that announces no grant. -/
theorem granting_txn (compares : List (Compare String String))
    (ops : List (TxnOp String String LeaseId)) :
    Req.WritesOnly Etcd.Granting (txn compares ops none) := by
  apply granting_call
  intro s
  left
  rcases runTxn_cases compares ops none s with ⟨-, hsame⟩ | ⟨-, -, happlied⟩
  · rw [hsame]
  · rw [happlied]
    exact List.append_nil _

theorem granting_readEpoch (found : Option (String × Nat)) :
    Req.WritesOnly Etcd.Granting (readEpoch found) := by
  cases found with
  | none => exact .pure 0
  | some e => exact ⟨Req.guarantees_okOr _ _⟩

theorem granting_claimLoop (lease : LeaseId) (scope : OwnedScope) (node : NodeId) (rounds : Nat) :
    Req.WritesOnly Etcd.Granting (claimLoop lease scope node rounds) := by
  induction rounds with
  | zero => exact ⟨trivial⟩
  | succ rounds ih =>
    rw [claimLoop]
    refine .bind (granting_getStr _) ?_
    rintro (_ | ⟨holder, revision⟩)
    · refine .bind (granting_getStr _) (fun found => ?_)
      refine .bind (granting_readEpoch found) (fun epoch => .ensure (.bind ?_ ?_))
      · apply granting_call
        intro s
        rcases runTxn_cases _ _ (some ⟨scope, node, epoch + 1⟩) s with
          ⟨-, hsame⟩ | ⟨-, -, happlied⟩
        · exact .inl (by rw [hsame])
        · exact .inr ⟨lease, ⟨scope, node, epoch + 1⟩, happlied⟩
      · intro succeeded
        cases succeeded with
        | true => exact .pure _
        | false => exact ih
    · exact .okOr (fun by_ => .bind (granting_getStr _) (fun _ => .pure _))

theorem EtcdCall.granting (call : EtcdCall) : call.prog.Guarantees Etcd.Granting := by
  have hmap : ∀ {α : Type} {r : Req Etcd RegistryError α} (f : Except RegistryError α → EtcdAnswer),
      Req.WritesOnly Etcd.Granting r → (f <$> r.run).Guarantees Etcd.Granting :=
    fun f hr => Prog.Guarantees.bind hr.guarantees (fun _ => trivial)
  cases call with
  | ownerOf scope =>
    apply hmap
    refine .bind (granting_getStr _) ?_
    rintro (_ | ⟨holder, revision⟩)
    · exact .pure _
    · refine .okOr (fun owner => .bind (granting_getStr _) (fun found => ?_))
      exact .bind (granting_readEpoch found) (fun _ => .pure _)
  | claim lease scope node => exact hmap _ (granting_claimLoop lease scope node 8)
  | release scope node => exact hmap _ (.bind (granting_txn _ _) (fun _ => .pure _))
  | canRehome scope => exact hmap _ (.bind (granting_getStr _) (fun _ => .pure _))
  | setRehoming scope enabled => exact hmap _ (.bind (granting_txn _ _) (fun _ => .pure _))
  | publishKey node publicHex =>
    apply hmap
    refine .bind (granting_getStr _) ?_
    rintro (_ | ⟨existing, revision⟩)
    · exact .bind (granting_txn _ _) (fun succeeded => ⟨Req.guarantees_ensure _ _⟩)
    · exact ⟨Req.guarantees_ensure _ _⟩
  | expire lease => exact ⟨fun s => .inl rfl, fun _ => trivial⟩
  | turn fate => exact ⟨fun s => .inl rfl, fun _ => trivial⟩

theorem committing_calls (calls : List EtcdCall) :
    Prog.Committing Etcd.Leads Told (calls.map EtcdCall.prog, Etcd.empty) := by
  intro p hp _
  obtain ⟨call, -, rfl⟩ := List.mem_map.1 hp
  exact call.commits Etcd.inv_empty

end Democrachat.Federation
