import Democrachat.Federation.PlaneStore
import Democrachat.Federation.RehomingController

/-!
# Keys and heirs in etcd

Any nodes call etcd at the same time, leases run out and answers get lost.  A published key stays
for good, and only who holds a scope names its heirs.
-/

namespace Democrachat.Federation

open Library EtcdRegistry

/-- What a node does, or what happens to etcd. -/
inductive EtcdTurn (Rate : Type) where
  | call (seat : Seat) (call : PlaneCall Rate)
  | tick (seat : Seat) (candidates : List OwnedScope)
  | expire (lease : LeaseId)
  | turn (fate : Fate)

section

variable {Rate : Type} (partialCmp : Rate → Rate → Option Ordering) (wire : Wire)
  (text : PlaneText Rate)

namespace EtcdTurn

def seat? : EtcdTurn Rate → Option Seat
  | call seat _ | tick seat _ => some seat
  | expire _ | turn _ => none

def prog : EtcdTurn Rate → Prog Etcd Unit
  | call seat c => (fun _ => ()) <$> (c.etcd wire text seat).run
  | tick seat candidates =>
    (fun _ => ()) <$>
      RehomingController.tick partialCmp (EtcdRegistry.asRegistry text seat) seat.node candidates
  | expire lease => Prog.modify (fun s => { s with kv := s.kv.expire lease })
  | turn fate => Prog.modify (fun s => { s with fate })

end EtcdTurn

end

/-! ## What lasts -/

/-- The published keys and the lists of heirs. -/
def Lasts (key : String) : Prop := mark key = (some 'k', none) ∨ mark key = (some 'o', some 's')

theorem lasts_keyOf (node : NodeId) : Lasts (keyOf node) := .inl (mark_keyOf node)

theorem lasts_standbysOf (scope : OwnedScope) : Lasts (standbysOf scope) :=
  .inr (mark_standbysOf scope)

structure Etcd.Lasting (s : Etcd) : Prop where
  stamped : s.kv.Stamped
  unleased : s.kv.Unleased Lasts

theorem Etcd.lasting_empty : empty.Lasting := ⟨Kv.stamped_empty, nofun⟩

/-- The seat holds the scope. -/
def Etcd.IsHeldBy (s : Etcd) (scope : OwnedScope) (seat : Seat) : Prop :=
  s.kv.value (holderOf scope) = some (toString seat.node.val)

/-- What one step of a seat leaves: what lasts, each published key, and the heirs of each scope
that the seat does not hold. -/
structure Etcd.Confined (seat : Option Seat) (s t : Etcd) : Prop where
  lasting : t.Lasting
  keys : ∀ node key, s.kv.value (keyOf node) = some key → t.kv.value (keyOf node) = some key
  standbys : ∀ scope, t.kv.value (standbysOf scope) ≠ s.kv.value (standbysOf scope) →
    ∃ by_, seat = some by_ ∧ s.IsHeldBy scope by_

/-- From any state in which it lasts. -/
def Etcd.Confines (seat : Option Seat) (s t : Etcd) : Prop := s.Lasting → Etcd.Confined seat s t

section

variable {seat : Option Seat} {s : Etcd}

theorem Etcd.Confines.refl (seat : Option Seat) (s : Etcd) : Etcd.Confines seat s s :=
  fun hs => ⟨hs, fun _ _ h => h, fun _ h => absurd rfl h⟩

theorem Etcd.confines_of_values {t : Etcd} (hlasting : s.Lasting → t.Lasting)
    (hkeys : ∀ node, t.kv.value (keyOf node) = s.kv.value (keyOf node))
    (hstandbys : ∀ scope, t.kv.value (standbysOf scope) = s.kv.value (standbysOf scope)) :
    Etcd.Confines seat s t := by
  intro hs
  refine ⟨hlasting hs, ?_, fun scope h => absurd (hstandbys scope) h⟩
  intro node key h
  rw [hkeys, h]

/-- A transaction that goes through, and keeps what lasts. -/
theorem Etcd.Lasting.txn (hs : s.Lasting) {ops : List (TxnOp String String LeaseId)}
    (hops : ∀ op ∈ ops, Kv.IsLasting Lasts op) (granted : List Ownership) :
    Etcd.Lasting ⟨ops.foldl (Kv.applyOp (s.kv.revision + 1)) s.kv, s.fate, granted⟩ :=
  ⟨Kv.stamped_foldl hs.stamped ops, hs.unleased.foldl _ hops⟩

/-- A transaction on nothing that lasts. -/
theorem confines_passing (compares : List (Compare String String))
    {ops : List (TxnOp String String LeaseId)} (hops : ∀ op ∈ ops, ¬ Lasts op.key)
    (grant : Option Ownership) (s : Etcd) :
    Etcd.Confines seat s (runTxn compares ops grant s).2 := by
  rcases runTxn_cases compares ops grant s with ⟨-, hsame⟩ | ⟨-, -, happlied⟩
  · rw [hsame]
    exact .refl seat s
  · rw [happlied]
    have hne : ∀ {key}, Lasts key → ∀ op ∈ ops, op.key ≠ key :=
      fun hkey op hop h => hops op hop (h ▸ hkey)
    apply Etcd.confines_of_values
    · refine fun hs => hs.txn ?_ _
      intro op hop
      cases op with
      | put key v lease => exact fun hkey => absurd hkey (hops _ hop)
      | delete key => trivial
    · exact fun node => Kv.value_foldl_of_notMem (hne (lasts_keyOf node))
    · exact fun scope => Kv.value_foldl_of_notMem (hne (lasts_standbysOf scope))

/-- A key is published where none is. -/
theorem confines_publish (node : NodeId) (publicHex : String) (s : Etcd) :
    Etcd.Confines seat s
      (runTxn [.createRevision (keyOf node) 0] [.put (keyOf node) publicHex none] none s).2 := by
  intro hs
  rcases runTxn_cases [.createRevision (keyOf node) 0] [.put (keyOf node) publicHex none] none s
    with ⟨-, hsame⟩ | ⟨-, hholds, happlied⟩
  · rw [hsame]
    exact Etcd.Confines.refl seat s hs
  · rw [happlied]
    have hfree := hholds _ (List.mem_singleton.2 rfl)
    rw [Kv.holds, beq_iff_eq, Kv.createRevision_eq_zero hs.stamped] at hfree
    refine ⟨hs.txn (fun op hop => ?_) _, ?_, ?_⟩
    · rw [List.mem_singleton.1 hop]
      exact fun _ => rfl
    · intro node' key h
      by_cases hsame : keyOf node = keyOf node'
      · rw [← hsame, hfree] at h
        cases h
      · rw [← h]
        exact Kv.value_foldl_of_notMem (fun op hop => by rwa [List.mem_singleton.1 hop])
    · intro scope h
      have hne : keyOf node ≠ standbysOf scope := by
        intro hsame
        have hmark := congrArg mark hsame
        simp at hmark
      exact absurd (Kv.value_foldl_of_notMem (fun op hop => by rwa [List.mem_singleton.1 hop])) h

/-- Heirs are listed by who holds the scope. -/
theorem confines_nominate (by_ : Seat) (scope : OwnedScope) (json : String) (s : Etcd) :
    Etcd.Confines (some by_) s
      (runTxn [.value (holderOf scope) (toString by_.node.val)]
        [.put (standbysOf scope) json none] none s).2 := by
  intro hs
  rcases runTxn_cases [.value (holderOf scope) (toString by_.node.val)]
      [.put (standbysOf scope) json none] none s with ⟨-, hsame⟩ | ⟨-, hholds, happlied⟩
  · rw [hsame]
    exact Etcd.Confines.refl (some by_) s hs
  · rw [happlied]
    have hholder := Kv.holds_value_iff.1 (hholds _ (List.mem_singleton.2 rfl))
    refine ⟨hs.txn (fun op hop => ?_) _, ?_, ?_⟩
    · rw [List.mem_singleton.1 hop]
      exact fun _ => rfl
    · intro node key h
      have hne : standbysOf scope ≠ keyOf node := by
        intro hsame
        have hmark := congrArg mark hsame
        simp at hmark
      rw [← h]
      exact Kv.value_foldl_of_notMem (fun op hop => by rwa [List.mem_singleton.1 hop])
    · intro scope' h
      refine ⟨by_, rfl, ?_⟩
      by_cases hsame : standbysOf scope = standbysOf scope'
      · rw [Etcd.IsHeldBy, ← holderOf_inj.2 (standbysOf_inj.1 hsame)]
        exact hholder
      · exact absurd (Kv.value_foldl_of_notMem
          (fun op hop => by rwa [List.mem_singleton.1 hop])) h

theorem confines_expire (lease : LeaseId) (s : Etcd) :
    Etcd.Confines seat s { s with kv := s.kv.expire lease } := by
  intro hs
  have hvalue : ∀ {key}, Lasts key → (s.kv.expire lease).value key = s.kv.value key :=
    hs.unleased.value_expire lease
  apply Etcd.confines_of_values _ _ _ hs
  · exact fun hs => ⟨Kv.stamped_expire hs.stamped lease, hs.unleased.expire lease⟩
  · exact fun node => hvalue (lasts_keyOf node)
  · exact fun scope => hvalue (lasts_standbysOf scope)

/-! ## Calls -/

variable (seat) in
theorem confines_call {α : Type} {f : Etcd → Except RegistryError α × Etcd}
    (h : ∀ s : Etcd, Etcd.Confines seat s (f s).2) :
    Req.WritesOnly (Etcd.Confines seat) (call f) := by
  constructor
  apply Prog.guarantees_call
  intro s
  split
  · exact .refl seat s
  · exact h s
  · exact h s

variable (seat) in
theorem confines_getStr (key : String) : Req.WritesOnly (Etcd.Confines seat) (getStr key) :=
  confines_call seat (fun s => .refl seat s)

theorem confines_txn (compares : List (Compare String String))
    {ops : List (TxnOp String String LeaseId)} (hops : ∀ op ∈ ops, ¬ Lasts op.key)
    (grant : Option Ownership) :
    Req.WritesOnly (Etcd.Confines seat) (txn compares ops grant) :=
  confines_call seat (confines_passing compares hops grant)

theorem confines_readEpoch (found : Option (String × Nat)) :
    Req.WritesOnly (Etcd.Confines seat) (readEpoch found) := by
  cases found with
  | none => exact .pure 0
  | some e => exact ⟨Req.guarantees_okOr _ _⟩

theorem confines_ownerOf (scope : OwnedScope) :
    Req.WritesOnly (Etcd.Confines seat) (EtcdRegistry.ownerOf scope) := by
  refine .bind (confines_getStr seat _) ?_
  rintro (_ | ⟨holder, revision⟩)
  · exact .pure _
  · refine .okOr (fun owner => .bind (confines_getStr seat _) (fun found => ?_))
    exact .bind (confines_readEpoch found) (fun _ => .pure _)

theorem confines_claimLoop (lease : LeaseId) (scope : OwnedScope) (node : NodeId)
    (rounds : Nat) :
    Req.WritesOnly (Etcd.Confines seat) (claimLoop lease scope node rounds) := by
  induction rounds with
  | zero => exact ⟨trivial⟩
  | succ rounds ih =>
    rw [claimLoop]
    refine .bind (confines_getStr seat _) ?_
    rintro (_ | ⟨holder, revision⟩)
    · refine .bind (confines_getStr seat _) (fun found => ?_)
      refine .bind (confines_readEpoch found) (fun epoch => .ensure (.bind ?_ ?_))
      · apply confines_txn
        intro op hop
        simp only [List.mem_cons, List.not_mem_nil, or_false] at hop
        rcases hop with rfl | rfl
        · simp [Lasts, TxnOp.key]
        · simp [Lasts, TxnOp.key]
      · intro succeeded
        cases succeeded with
        | true => exact .pure _
        | false => exact ih
    · exact .okOr (fun by_ => .bind (confines_getStr seat _) (fun _ => .pure _))

theorem confines_release (scope : OwnedScope) (node : NodeId) :
    Req.WritesOnly (Etcd.Confines seat) (EtcdRegistry.release scope node) := by
  refine .bind (confines_txn _ ?_ none) (fun _ => .pure _)
  intro op hop
  rw [List.mem_singleton.1 hop]
  simp [Lasts, TxnOp.key]

theorem confines_setRehoming (scope : OwnedScope) (enabled : Bool) :
    Req.WritesOnly (Etcd.Confines seat) (EtcdRegistry.setRehoming scope enabled) := by
  refine .bind (confines_txn _ ?_ none) (fun _ => .pure _)
  intro op hop
  rw [List.mem_singleton.1 hop]
  cases enabled with
  | true => simp [Lasts, TxnOp.key]
  | false => simp [Lasts, TxnOp.key]

theorem confines_reportLoad {Rate : Type} (text : PlaneText Rate) (by_ : Seat) (node : NodeId)
    (load : NodeLoad Rate) :
    Req.WritesOnly (Etcd.Confines seat) (EtcdRegistry.reportLoad text by_ node load) := by
  refine .bind (confines_txn _ ?_ none) (fun _ => .pure _)
  intro op hop
  rw [List.mem_singleton.1 hop]
  simp [Lasts, TxnOp.key]

theorem confines_publishKey (node : NodeId) (publicHex : String) :
    Req.WritesOnly (Etcd.Confines seat) (EtcdRegistry.publishKey node publicHex) := by
  refine .bind (confines_getStr seat _) ?_
  rintro (_ | ⟨existing, revision⟩)
  · exact .bind (confines_call seat (confines_publish node publicHex))
      (fun succeeded => ⟨Req.guarantees_ensure _ _⟩)
  · exact ⟨Req.guarantees_ensure _ _⟩

theorem confines_publicKey (wire : Wire) (node : NodeId) :
    Req.WritesOnly (Etcd.Confines seat) (EtcdRegistry.publicKey wire node) := by
  refine .bind (confines_getStr seat _) ?_
  rintro (_ | ⟨hex, revision⟩)
  · exact .pure _
  · exact .orElse (fun _ => .pure _)

theorem confines_canRehome (scope : OwnedScope) :
    Req.WritesOnly (Etcd.Confines seat) (EtcdRegistry.canRehome scope) :=
  .bind (confines_getStr seat _) (fun _ => .pure _)

section

variable {Rate : Type} (text : PlaneText Rate)

theorem confines_readStandbys (found : Option (String × Nat)) :
    Req.WritesOnly (Etcd.Confines seat) (readStandbys text found) := by
  cases found with
  | none => exact .pure _
  | some e => exact ⟨Req.guarantees_orElse _ _⟩

theorem confines_standbys (scope : OwnedScope) :
    Req.WritesOnly (Etcd.Confines seat) (EtcdRegistry.standbys text scope) :=
  .bind (confines_getStr seat _) (fun found => confines_readStandbys text found)

theorem confines_liveNodes :
    Req.WritesOnly (Etcd.Confines seat) (EtcdRegistry.liveNodes text) :=
  confines_call seat (fun s => .refl seat s)

theorem confines_setStandby (by_ : Seat) (scope : OwnedScope) (node : NodeId) :
    Req.WritesOnly (Etcd.Confines (some by_)) (EtcdRegistry.setStandby text by_ scope node) := by
  refine .bind (confines_getStr _ _) (fun found => .bind (confines_readStandbys text found) ?_)
  intro list
  refine .ite (.pure _) (.bind ?_ (fun _ => ⟨Req.guarantees_ensure _ _⟩))
  exact confines_call _ (fun s => confines_nominate by_ scope _ s)

/-- Whatever a node calls, but for a standby. -/
theorem confines_etcd (wire : Wire) (by_ : Seat) {call : PlaneCall Rate}
    (hother : ∀ scope node, call ≠ .setStandby scope node) :
    Req.WritesOnly (Etcd.Confines seat) (call.etcd wire text by_) := by
  cases call with
  | ownerOf scope => exact .bind (confines_ownerOf scope) (fun _ => .pure _)
  | claim scope node => exact .bind (confines_claimLoop by_.lease scope node 8) (fun _ => .pure _)
  | release scope node => exact .bind (confines_release scope node) (fun _ => .pure _)
  | setStandby scope node => exact absurd rfl (hother scope node)
  | standbys scope => exact .bind (confines_standbys text scope) (fun _ => .pure _)
  | canRehome scope => exact .bind (confines_canRehome scope) (fun _ => .pure _)
  | setRehoming scope enabled => exact .bind (confines_setRehoming scope enabled) (fun _ => .pure _)
  | renew node => exact .pure _
  | publishKey node publicHex =>
    exact .bind (confines_publishKey node publicHex) (fun _ => .pure _)
  | publicKey node => exact .bind (confines_publicKey wire node) (fun _ => .pure _)
  | reportLoad node load => exact .bind (confines_reportLoad text by_ node load) (fun _ => .pure _)
  | liveNodes => exact .bind (confines_liveNodes text) (fun _ => .pure _)

theorem every_confines (by_ : Seat) :
    (asRegistry text by_).Every
      (fun {α} (p : Prog Etcd α) => p.Guarantees (Etcd.Confines (some by_))) where
  ownerOf scope := (confines_ownerOf scope).guarantees
  claim scope node := (confines_claimLoop by_.lease scope node 8).guarantees
  setStandby scope node := (confines_setStandby text by_ scope node).guarantees
  standbys scope := (confines_standbys text scope).guarantees
  canRehome scope := (confines_canRehome scope).guarantees
  liveNodes := (confines_liveNodes text).guarantees

variable (partialCmp : Rate → Rate → Option Ordering) (wire : Wire)

theorem EtcdTurn.confines (turn : EtcdTurn Rate) :
    (turn.prog partialCmp wire text).Guarantees (Etcd.Confines turn.seat?) := by
  have hclosed := Prog.closed_guarantees (Etcd.Confines turn.seat?)
  cases turn with
  | call by_ call =>
    refine hclosed.map _ ?_
    by_cases hstandby : ∃ scope node, call = .setStandby scope node
    · obtain ⟨scope, node, rfl⟩ := hstandby
      exact (Req.WritesOnly.bind (confines_setStandby text by_ scope node)
        (fun _ => .pure _)).guarantees
    · exact (confines_etcd text wire by_ (fun scope node h => hstandby ⟨scope, node, h⟩)).guarantees
  | tick by_ candidates =>
    exact hclosed.map _ ((every_confines text by_).tick partialCmp hclosed by_.node candidates)
  | expire lease => exact Prog.guarantees_modify (confines_expire lease)
  | turn fate =>
    refine Prog.guarantees_modify (fun s => ?_)
    exact Etcd.confines_of_values (fun hs => ⟨hs.stamped, hs.unleased⟩) (fun _ => rfl)
      (fun _ => rfl)

end

end

/-! ## Lists of heirs -/

section

variable {Rate : Type} (text : PlaneText Rate)

/-- Every list of heirs can be read, and names nobody twice. -/
structure Etcd.Listed (s : Etcd) : Prop where
  lasting : s.Lasting
  heirs : ∀ scope json, s.kv.value (standbysOf scope) = some json →
    ∃ nodes, text.parseNodes json = .ok nodes ∧ nodes.Nodup

variable {text}

theorem Etcd.Listed.confines {s t : Etcd} (hs : s.Listed text) (h : Etcd.Confines none s t) :
    t.Listed text := by
  obtain ⟨hlasting, -, hstandbys⟩ := h hs.lasting
  refine ⟨hlasting, fun scope json hjson => hs.heirs scope json ?_⟩
  by_cases hsame : t.kv.value (standbysOf scope) = s.kv.value (standbysOf scope)
  · rw [← hsame, hjson]
  · obtain ⟨by_, hby, -⟩ := hstandbys scope hsame
    cases hby

theorem Etcd.Listed.nominate (htext : text.ReadsNodes) {s : Etcd} (hs : s.Listed text)
    (by_ : Seat) (scope : OwnedScope) {nodes : List NodeId} (hnodes : nodes.Nodup) :
    (runTxn [.value (holderOf scope) (toString by_.node.val)]
      [.put (standbysOf scope) (text.renderNodes nodes) none] none s).2.Listed text := by
  have hconfined := confines_nominate by_ scope (text.renderNodes nodes) s hs.lasting
  refine ⟨hconfined.lasting, ?_⟩
  rcases runTxn_cases [.value (holderOf scope) (toString by_.node.val)]
      [.put (standbysOf scope) (text.renderNodes nodes) none] none s with
    ⟨-, hsame⟩ | ⟨-, -, happlied⟩
  · rw [hsame]
    exact hs.heirs
  · rw [happlied]
    intro scope' json hjson
    simp only [List.foldl_cons, List.foldl_nil, Kv.value_applyOp, TxnOp.key, TxnOp.written,
      Function.update_apply] at hjson
    split at hjson
    next =>
      rw [← Option.some.inj hjson]
      exact ⟨nodes, htext.nodes nodes, hnodes⟩
    next => exact hs.heirs scope' json hjson

theorem maintains_call_bind {α β : Type} {I : Etcd → Prop}
    {f : Etcd → Except RegistryError α × Etcd} {k : α → Req Etcd RegistryError β}
    (h : ∀ s, I s → I (f s).2 ∧ ∀ a, (f s).1 = .ok a → (k a).run.Maintains I) :
    (call f >>= k).run.Maintains I := by
  apply Prog.maintains_call_bind
  intro s hs
  obtain ⟨hkept, hnext⟩ := h s hs
  cases s.fate with
  | unreachable message => exact ⟨hs, Prog.maintains_pure _⟩
  | answered =>
    refine ⟨hkept, ?_⟩
    cases hresult : (f s).1 with
    | ok a => exact hnext a hresult
    | error e => exact Prog.maintains_pure _
  | answerLost message => exact ⟨hkept, Prog.maintains_pure _⟩

/-- What is written is what was read, and one more. -/
theorem maintains_setStandby (htext : text.ReadsNodes) (by_ : Seat) (scope : OwnedScope)
    (node : NodeId) :
    (EtcdRegistry.setStandby text by_ scope node).run.Maintains (Etcd.Listed text) := by
  have hclosed := Prog.closed_maintains (Etcd.Listed text)
  apply maintains_call_bind
  intro s hs
  refine ⟨hs, ?_⟩
  rintro found hfound
  have hlist : ∃ nodes, nodes.Nodup ∧
      readStandbys text found = (pure nodes : Req Etcd RegistryError (List NodeId)) := by
    obtain rfl := Except.ok.inj hfound
    cases hentry : s.kv.entries (standbysOf scope) with
    | none => exact ⟨[], List.nodup_nil, rfl⟩
    | some e =>
      have hvalue : s.kv.value (standbysOf scope) = some e.value := by rw [Kv.value, hentry]; rfl
      obtain ⟨nodes, hread, hnodes⟩ := hs.heirs scope e.value hvalue
      refine ⟨nodes, hnodes, ?_⟩
      simp only [Option.map_some, readStandbys, hread]
      rfl
  obtain ⟨nodes, hnodes, hread⟩ := hlist
  have hnext : ∀ k : List NodeId → Req Etcd RegistryError Unit, (pure nodes >>= k) = k nodes :=
    fun _ => rfl
  rw [hread, hnext]
  by_cases hlisted : node ∈ nodes
  · rw [if_pos hlisted]
    exact hclosed.req_pure ()
  · rw [if_neg hlisted]
    apply maintains_call_bind
    intro s hs
    refine ⟨hs.nominate htext by_ scope ?_, ?_⟩
    · rw [List.nodup_append]
      refine ⟨hnodes, List.nodup_singleton node, ?_⟩
      rintro a ha b hb rfl
      exact hlisted (List.mem_singleton.1 hb ▸ ha)
    · intro succeeded _
      cases succeeded with
      | true => exact hclosed.req_pure ()
      | false => exact Prog.maintains_pure _

theorem Req.WritesOnly.maintains {α : Type} {r : Req Etcd RegistryError α}
    (h : Req.WritesOnly (Etcd.Confines none) r) : r.run.Maintains (Etcd.Listed text) :=
  Prog.Guarantees.maintains (fun _ _ hs hst => hs.confines hst) h.guarantees

theorem every_maintains (htext : text.ReadsNodes) (by_ : Seat) :
    (asRegistry text by_).Every
      (fun {α} (p : Prog Etcd α) => p.Maintains (Etcd.Listed text)) where
  ownerOf scope := Req.WritesOnly.maintains (confines_ownerOf scope)
  claim scope node := Req.WritesOnly.maintains (confines_claimLoop by_.lease scope node 8)
  setStandby := maintains_setStandby htext by_
  standbys scope := Req.WritesOnly.maintains (confines_standbys text scope)
  canRehome scope := Req.WritesOnly.maintains (confines_canRehome scope)
  liveNodes := Req.WritesOnly.maintains (confines_liveNodes text)

variable (partialCmp : Rate → Rate → Option Ordering) (wire : Wire)

theorem EtcdTurn.maintains (htext : text.ReadsNodes) (turn : EtcdTurn Rate) :
    (turn.prog partialCmp wire text).Maintains (Etcd.Listed text) := by
  have hclosed := Prog.closed_maintains (Etcd.Listed text)
  have hmodify : ∀ {f : Etcd → Etcd}, (∀ s, Etcd.Confines none s (f s)) →
      (Prog.modify f).Maintains (Etcd.Listed text) :=
    fun hf => Prog.Guarantees.maintains (fun _ _ hs hst => hs.confines hst)
      (Prog.guarantees_modify hf)
  cases turn with
  | call by_ call =>
    refine hclosed.map _ ?_
    by_cases hstandby : ∃ scope node, call = .setStandby scope node
    · obtain ⟨scope, node, rfl⟩ := hstandby
      exact hclosed.req_bind (maintains_setStandby htext by_ scope node)
        (fun _ => hclosed.req_pure _)
    · exact Req.WritesOnly.maintains
        (confines_etcd text wire by_ (fun scope node h => hstandby ⟨scope, node, h⟩))
  | tick by_ candidates =>
    exact hclosed.map _ ((every_maintains htext by_).tick partialCmp hclosed by_.node candidates)
  | expire lease => exact hmodify (confines_expire lease)
  | turn fate =>
    refine hmodify (fun s => ?_)
    exact Etcd.confines_of_values (fun hs => ⟨hs.stamped, hs.unleased⟩) (fun _ => rfl)
      (fun _ => rfl)

variable (text) in
/-- What turn number `i` leaves where it moves from `s` to `t`. -/
structure Etcd.Nominated (turns : List (EtcdTurn Rate)) (i : Nat) (s t : Etcd) : Prop where
  /-- A published key stays. -/
  keys : ∀ node key, s.kv.value (keyOf node) = some key → t.kv.value (keyOf node) = some key
  /-- Whoever changes the heirs of a scope holds it. -/
  standbys : ∀ scope, t.kv.value (standbysOf scope) ≠ s.kv.value (standbysOf scope) →
    ∃ turn by_, turns[i]? = some turn ∧ turn.seat? = some by_ ∧ s.IsHeldBy scope by_
  /-- The list of heirs can be read, with nobody on it twice. -/
  heirs : ∀ scope json, t.kv.value (standbysOf scope) = some json →
    ∃ nodes, text.parseNodes json = .ok nodes ∧ nodes.Nodup

/-- At every step of every schedule. -/
theorem heirs_named_by_holder (htext : text.ReadsNodes) (turns : List (EtcdTurn Rate))
    (is : List Nat) (i : Nat) :
    Etcd.Nominated text turns i
      (Prog.schedule is (turns.map (EtcdTurn.prog partialCmp wire text), Etcd.empty)).2
      (Prog.schedule (is ++ [i]) (turns.map (EtcdTurn.prog partialCmp wire text), Etcd.empty)).2 := by
  have hmaintains : ∀ p ∈ turns.map (EtcdTurn.prog partialCmp wire text),
      p.Maintains (Etcd.Listed text) := by
    intro p hp
    obtain ⟨turn, -, rfl⟩ := List.mem_map.1 hp
    exact turn.maintains partialCmp wire htext
  have hempty : Etcd.empty.Listed text := ⟨Etcd.lasting_empty, nofun⟩
  have hlisted := Prog.maintains_schedule (c := (_, Etcd.empty)) hmaintains hempty
  have heach : ∀ (j : Nat) (p : Prog Etcd Unit),
      (turns.map (EtcdTurn.prog partialCmp wire text))[j]? = some p →
        p.Guarantees (Etcd.Confines (turns[j]?.bind EtcdTurn.seat?)) := by
    intro j p hp
    rw [List.getElem?_map] at hp
    obtain ⟨turn, hturn, rfl⟩ := Option.map_eq_some_iff.1 hp
    rw [hturn]
    exact turn.confines text partialCmp wire
  obtain ⟨hstep, -⟩ := Prog.guarantees_tick_each
    (Prog.guarantees_schedule_each (c := (_, Etcd.empty)) heach is) i
  have hnext := (hlisted (is ++ [i])).heirs
  rw [Prog.schedule_append, Prog.schedule_cons, Prog.schedule_nil] at hnext ⊢
  rcases hstep with hsame | hconfines
  · refine ⟨fun node key h => ?_, fun scope h => absurd ?_ h, hnext⟩
    · rw [hsame]
      exact h
    · rw [hsame]
  · obtain ⟨-, hkeys, hstandbys⟩ := hconfines (hlisted is).lasting
    refine ⟨hkeys, fun scope h => ?_, hnext⟩
    obtain ⟨by_, hby, hholds⟩ := hstandbys scope h
    obtain ⟨turn, hturn, hseat⟩ := Option.bind_eq_some_iff.1 hby
    exact ⟨turn, by_, hturn, hseat, hholds⟩

end

namespace Agora

/-- Node 1 lists node 2 while node 3 tries for itself and node 1's lease runs out. -/
def contest : List (EtcdTurn Nat) :=
  [.call ⟨1, 100⟩ (.claim (.server ⟨1, 7⟩) 1), .call ⟨1, 100⟩ (.setStandby (.server ⟨1, 7⟩) 2),
    .call ⟨3, 300⟩ (.setStandby (.server ⟨1, 7⟩) 3), .expire 100]

theorem contest_named_by_holder :
    Etcd.Nominated planeText contest 2
      (Prog.schedule [0, 0, 0, 2, 1, 1, 3] (contest.map (EtcdTurn.prog
        (fun a b => some (compare a b)) (wire []) planeText), Etcd.empty)).2
      (Prog.schedule ([0, 0, 0, 2, 1, 1, 3] ++ [2]) (contest.map (EtcdTurn.prog
        (fun a b => some (compare a b)) (wire []) planeText), Etcd.empty)).2 :=
  heirs_named_by_holder _ (wire []) readsNodes_planeText contest [0, 0, 0, 2, 1, 1, 3] 2

end Agora

end Democrachat.Federation
