import Mathlib.Logic.Function.Basic

/-!
# A key-value store with revisions and leases

Every write of the store has a revision of its own, the writes of one transaction share
theirs, and a key remembers the revision in which it was last written.  A key that was
written under a lease goes when the lease expires.  Whoever finds a key under the revision
under which he has read it finds what he has read.
-/

namespace Library

structure KeyValue (V L : Type) where
  value : V
  createRevision : Nat
  modRevision : Nat
  lease : Option L

structure Kv (K V L : Type) where
  entries : K → Option (KeyValue V L)
  revision : Nat
  isExpired : L → Bool

/-- A condition of a transaction.  An absent key has revision 0 and no value. -/
inductive Compare (K V : Type) where
  | createRevision (key : K) (revision : Nat)
  | modRevision (key : K) (revision : Nat)
  | value (key : K) (value : V)

inductive TxnOp (K V L : Type) where
  | put (key : K) (value : V) (lease : Option L)
  | delete (key : K)

def TxnOp.key {K V L : Type} : TxnOp K V L → K
  | .put key _ _ | .delete key => key

/-- What the operation leaves under its key. -/
def TxnOp.written {K V L : Type} : TxnOp K V L → Option V
  | .put _ value _ => some value
  | .delete _ => none

namespace Kv

variable {K V L : Type}

/-- Nothing has been written yet. -/
def empty : Kv K V L := ⟨fun _ => none, 0, fun _ => false⟩

def modRevision (s : Kv K V L) (key : K) : Nat := ((s.entries key).map (·.modRevision)).getD 0

def createRevision (s : Kv K V L) (key : K) : Nat :=
  ((s.entries key).map (·.createRevision)).getD 0

/-! ## Stamps -/

/-- Every key carries a revision that has been. -/
def Stamped (s : Kv K V L) : Prop :=
  ∀ key e, s.entries key = some e →
    1 ≤ e.createRevision ∧ e.createRevision ≤ e.modRevision ∧ e.modRevision ≤ s.revision

/-- What `t` holds is as it was in `s`, or has been written since. -/
structure Follows (s t : Kv K V L) : Prop where
  revision : s.revision ≤ t.revision
  entries : ∀ key e, t.entries key = some e → e.modRevision ≤ s.revision → s.entries key = some e

theorem stamped_empty : (empty : Kv K V L).Stamped := by
  intro key e h
  cases h

theorem Follows.refl (s : Kv K V L) : s.Follows s := ⟨Nat.le_refl _, fun _ _ h _ => h⟩

theorem Follows.trans {s t u : Kv K V L} (h : s.Follows t) (h' : t.Follows u) : s.Follows u where
  revision := Nat.le_trans h.revision h'.revision
  entries := by
    intro key e hkey hold
    exact h.entries key e (h'.entries key e hkey (Nat.le_trans hold h.revision)) hold

/-- A key that still has the revision under which it was read is as it was read. -/
theorem Follows.entries_eq {s t : Kv K V L} (h : s.Follows t) (hs : s.Stamped) (ht : t.Stamped)
    {key : K} (hsame : t.modRevision key = s.modRevision key) : t.entries key = s.entries key := by
  unfold modRevision at hsame
  cases hkey : t.entries key with
  | none =>
    cases hread : s.entries key with
    | none => rfl
    | some e =>
      have hpos := hs key e hread
      rw [hkey, hread] at hsame
      simp only [Option.map_none, Option.getD_none, Option.map_some, Option.getD_some] at hsame
      omega
  | some e =>
    cases hread : s.entries key with
    | none =>
      have hpos := ht key e hkey
      rw [hkey, hread] at hsame
      simp only [Option.map_none, Option.getD_none, Option.map_some, Option.getD_some] at hsame
      omega
    | some e' =>
      have hold := hs key e' hread
      rw [hkey, hread] at hsame
      simp only [Option.map_some, Option.getD_some] at hsame
      rw [← hread]
      exact (h.entries key e hkey (by omega)).symm

/-! ## Transactions -/

/-- A state in the middle of a transaction of revision `revision`, from `s`. -/
structure During (s : Kv K V L) (revision : Nat) (t : Kv K V L) : Prop where
  now : t.revision = s.revision ∨ t.revision = revision
  entries : ∀ key e, t.entries key = some e →
    s.entries key = some e ∨
      1 ≤ e.createRevision ∧ e.createRevision ≤ revision ∧ e.modRevision = revision ∧
        t.revision = revision

theorem During.follows {s t : Kv K V L} (h : s.During (s.revision + 1) t) : s.Follows t where
  revision := by
    rcases h.now with h | h
    · omega
    · omega
  entries := by
    intro key e hkey hold
    rcases h.entries key e hkey with hsame | ⟨-, -, hmod, -⟩
    · exact hsame
    · omega

theorem During.isStamped {s t : Kv K V L} (hs : s.Stamped) (h : s.During (s.revision + 1) t) :
    t.Stamped := by
  intro key e hkey
  have hgrows := h.follows.revision
  rcases h.entries key e hkey with hsame | ⟨hpos, hle, hmod, hrevision⟩
  · have hstamp := hs key e hsame
    omega
  · omega

section

variable [DecidableEq K]

/-- One operation of the transaction with this revision. -/
def applyOp (revision : Nat) (s : Kv K V L) : TxnOp K V L → Kv K V L
  | .put key value lease =>
    { s with
      entries := Function.update s.entries key
        (some ⟨value, (s.entries key).elim revision (·.createRevision), revision, lease⟩)
      revision }
  | .delete key =>
    if (s.entries key).isSome then
      { s with entries := Function.update s.entries key none, revision }
    else s

/-- The lease that the operation needs is gone. -/
def lacksLease (s : Kv K V L) : TxnOp K V L → Bool
  | .put _ _ lease => lease.any s.isExpired
  | .delete _ => false

theorem entries_applyOp_of_ne {revision : Nat} {s : Kv K V L} {op : TxnOp K V L} {key : K}
    (h : key ≠ TxnOp.key op) : (s.applyOp revision op).entries key = s.entries key := by
  cases op with
  | put key' value lease => exact Function.update_of_ne h _ _
  | delete key' =>
    simp only [applyOp]
    split
    next => exact Function.update_of_ne h _ _
    next => rfl

theorem entries_applyOp_put (revision : Nat) (s : Kv K V L) (key : K) (value : V)
    (lease : Option L) :
    ∃ e, (s.applyOp revision (.put key value lease)).entries key = some e ∧ e.value = value ∧
      e.lease = lease :=
  ⟨_, Function.update_self _ _ _, rfl, rfl⟩

theorem During.applyOp {s t : Kv K V L} (hs : s.Stamped) {revision : Nat}
    (hnew : revision = s.revision + 1) (h : s.During revision t) (op : TxnOp K V L) :
    s.During revision (t.applyOp revision op) := by
  cases op with
  | put key value lease =>
    refine ⟨.inr rfl, ?_⟩
    intro key' e hkey
    simp only [Kv.applyOp, Function.update_apply] at hkey
    split at hkey
    next =>
      right
      obtain rfl := Option.some.inj hkey
      have hcreated : 1 ≤ (t.entries key).elim revision (·.createRevision) ∧
          (t.entries key).elim revision (·.createRevision) ≤ revision := by
        cases hbefore : t.entries key with
        | none =>
          rw [Option.elim_none]
          omega
        | some e' =>
          rw [Option.elim_some]
          rcases h.entries key e' hbefore with hold | ⟨hpos, hle, -, -⟩
          · have hstamp := hs key e' hold
            omega
          · omega
      exact ⟨hcreated.1, hcreated.2, rfl, rfl⟩
    next =>
      rcases h.entries key' e hkey with hold | ⟨hpos, hle, hmod, -⟩
      · exact .inl hold
      · exact .inr ⟨hpos, hle, hmod, rfl⟩
  | delete key =>
    simp only [Kv.applyOp]
    split
    next =>
      refine ⟨.inr rfl, ?_⟩
      intro key' e hkey
      simp only [Function.update_apply] at hkey
      split at hkey
      next => cases hkey
      next =>
        rcases h.entries key' e hkey with hold | ⟨hpos, hle, hmod, -⟩
        · exact .inl hold
        · exact .inr ⟨hpos, hle, hmod, rfl⟩
    next => exact h

theorem During.foldl {s t : Kv K V L} (hs : s.Stamped) {revision : Nat}
    (hnew : revision = s.revision + 1) (h : s.During revision t) (ops : List (TxnOp K V L)) :
    s.During revision (ops.foldl (Kv.applyOp revision) t) := by
  induction ops generalizing t with
  | nil => exact h
  | cons op ops ih => exact ih (h.applyOp hs hnew op)

variable [DecidableEq V]

def holds (s : Kv K V L) : Compare K V → Bool
  | .createRevision key revision => s.createRevision key == revision
  | .modRevision key revision => s.modRevision key == revision
  | .value key value => (s.entries key).any (fun e => e.value == value)

/-- The answer of a transaction: whether its conditions held, and nothing where it needs a lease
that is gone. -/
def txn (compares : List (Compare K V)) (ops : List (TxnOp K V L)) (s : Kv K V L) :
    Option Bool × Kv K V L :=
  if compares.all s.holds then
    if ops.any s.lacksLease then (none, s)
    else (some true, ops.foldl (applyOp (s.revision + 1)) s)
  else (some false, s)

/-- A transaction changes nothing, or lets its operations through as one. -/
theorem txn_cases (compares : List (Compare K V)) (ops : List (TxnOp K V L)) (s : Kv K V L) :
    (txn compares ops s).1 ≠ some true ∧ (txn compares ops s).2 = s ∨
      (txn compares ops s).1 = some true ∧ (∀ compare ∈ compares, s.holds compare = true) ∧
        (txn compares ops s).2 = ops.foldl (applyOp (s.revision + 1)) s := by
  unfold txn
  split
  next hall =>
    split
    next => exact .inl ⟨nofun, rfl⟩
    next => exact .inr ⟨rfl, List.all_eq_true.1 hall, rfl⟩
  next =>
    left
    constructor
    · intro h
      cases h
    · rfl

end

/-! ## What is stored -/

def value (s : Kv K V L) (key : K) : Option V := (s.entries key).map (·.value)

theorem createRevision_eq_zero {s : Kv K V L} (hs : s.Stamped) {key : K} :
    s.createRevision key = 0 ↔ s.value key = none := by
  unfold createRevision value
  cases hkey : s.entries key with
  | none => simp
  | some e =>
    have hstamp := hs key e hkey
    constructor
    · intro h
      simp only [Option.map_some, Option.getD_some] at h
      omega
    · intro h
      cases h

theorem holds_value_iff [DecidableEq V] {s : Kv K V L} {key : K} {v : V} :
    s.holds (.value key v) = true ↔ s.value key = some v := by
  cases hkey : s.entries key with
  | none => simp [holds, value, hkey]
  | some e => simp [holds, value, hkey]

section

variable [DecidableEq K]

/-- An operation leaves its value under its key, and nothing where it deletes. -/
theorem value_applyOp (revision : Nat) (s : Kv K V L) (op : TxnOp K V L) :
    (s.applyOp revision op).value = Function.update s.value op.key op.written := by
  ext key : 1
  by_cases hkey : key = op.key
  · subst hkey
    rw [Function.update_self]
    cases op with
    | put key v lease => simp [value, applyOp, TxnOp.key, TxnOp.written]
    | delete key =>
      unfold value
      simp only [applyOp, TxnOp.key, TxnOp.written]
      split
      next => simp
      next hnone =>
        rw [Bool.not_eq_true, Option.isSome_eq_false_iff, Option.isNone_iff_eq_none] at hnone
        rw [hnone]
        rfl
  · rw [Function.update_of_ne hkey, value, entries_applyOp_of_ne hkey]
    rfl

theorem isExpired_applyOp (revision : Nat) (s : Kv K V L) (op : TxnOp K V L) :
    (s.applyOp revision op).isExpired = s.isExpired := by
  cases op with
  | put key value lease => rfl
  | delete key =>
    simp only [applyOp]
    split
    next => rfl
    next => rfl

theorem isExpired_foldl (revision : Nat) (s : Kv K V L) (ops : List (TxnOp K V L)) :
    (ops.foldl (applyOp revision) s).isExpired = s.isExpired := by
  induction ops generalizing s with
  | nil => rfl
  | cons op ops ih => rw [List.foldl_cons, ih, isExpired_applyOp]

/-- A transaction leaves alone what it does not name. -/
theorem value_foldl_of_notMem {revision : Nat} {s : Kv K V L} {ops : List (TxnOp K V L)} {key : K}
    (h : ∀ op ∈ ops, op.key ≠ key) : (ops.foldl (applyOp revision) s).value key = s.value key := by
  induction ops generalizing s with
  | nil => rfl
  | cons op ops ih =>
    obtain ⟨hop, hops⟩ := List.forall_mem_cons.1 h
    rw [List.foldl_cons, ih hops, value_applyOp, Function.update_of_ne (Ne.symm hop)]

theorem stamped_foldl {s : Kv K V L} (hs : s.Stamped) (ops : List (TxnOp K V L)) :
    (ops.foldl (applyOp (s.revision + 1)) s).Stamped :=
  (During.foldl hs rfl ⟨.inl rfl, fun _ _ h => .inl h⟩ ops).isStamped hs

end

/-! ## Leases -/

/-- No key of the kind goes with a lease. -/
def Unleased (P : K → Prop) (s : Kv K V L) : Prop :=
  ∀ key e, P key → s.entries key = some e → e.lease = none

section

variable [DecidableEq K] {P : K → Prop}

/-- What the operation writes under a key of the kind lasts. -/
def IsLasting (P : K → Prop) : TxnOp K V L → Prop
  | .put key _ lease => P key → lease = none
  | .delete _ => True

theorem Unleased.applyOp {s : Kv K V L} (h : s.Unleased P) (revision : Nat) {op : TxnOp K V L}
    (hop : IsLasting P op) : (s.applyOp revision op).Unleased P := by
  intro key e hkey he
  by_cases hsame : key = op.key
  · subst hsame
    cases op with
    | put key v lease =>
      obtain ⟨e', he', -, hlease⟩ := entries_applyOp_put revision s key v lease
      rw [TxnOp.key, he'] at he
      rw [← Option.some.inj he, hlease]
      exact hop hkey
    | delete key =>
      have hvalue := congrFun (value_applyOp revision s (.delete key)) key
      rw [value, TxnOp.key, Function.update_self, TxnOp.written] at hvalue
      rw [TxnOp.key, Option.map_eq_none_iff.1 hvalue] at he
      cases he
  · rw [entries_applyOp_of_ne hsame] at he
    exact h key e hkey he

theorem Unleased.foldl {s : Kv K V L} (h : s.Unleased P) (revision : Nat)
    {ops : List (TxnOp K V L)} (hops : ∀ op ∈ ops, IsLasting P op) :
    (ops.foldl (Kv.applyOp revision) s).Unleased P := by
  induction ops generalizing s with
  | nil => exact h
  | cons op ops ih =>
    obtain ⟨hop, hrest⟩ := List.forall_mem_cons.1 hops
    exact ih (h.applyOp revision hop) hrest

end

section

variable [DecidableEq L]

/-- Everything that was written under the lease goes. -/
def expire (lease : L) (s : Kv K V L) : Kv K V L where
  entries := fun key => (s.entries key).filter (fun e => e.lease ≠ some lease)
  revision := s.revision + 1
  isExpired := Function.update s.isExpired lease true

theorem Unleased.expire {P : K → Prop} {s : Kv K V L} (h : s.Unleased P) (lease : L) :
    (s.expire lease).Unleased P :=
  fun key e hkey he => h key e hkey (Option.filter_eq_some_iff.1 he).1

theorem Unleased.value_expire {P : K → Prop} {s : Kv K V L} (h : s.Unleased P) (lease : L)
    {key : K} (hkey : P key) : (s.expire lease).value key = s.value key := by
  have hkept : (s.entries key).filter (fun e => e.lease ≠ some lease) = s.entries key := by
    cases he : s.entries key with
    | none => rfl
    | some e =>
      have hlease := h key e hkey he
      simp [Option.filter, hlease]
  exact congrArg (Option.map (·.value)) hkept

theorem follows_expire (lease : L) (s : Kv K V L) : s.Follows (s.expire lease) where
  revision := Nat.le_succ _
  entries := by
    intro key e hkey _
    exact (Option.filter_eq_some_iff.1 hkey).1

theorem stamped_expire {s : Kv K V L} (hs : s.Stamped) (lease : L) : (s.expire lease).Stamped := by
  intro key e hkey
  have hstamp := hs key e (Option.filter_eq_some_iff.1 hkey).1
  have hgrows : (s.expire lease).revision = s.revision + 1 := rfl
  omega

end

end Kv

end Library
