import Democrachat.Properties.Failover
import Mathlib.Algebra.Order.Ring.Rat

/-!
# The choice of an heir

The new owner of a scope and its fresh standby are the least of those that may be chosen, in an
order that is linear on nodes.  Whoever chooses among the same nodes chooses the same one, in
whatever order the registry lists them.
-/

namespace Democrachat.Federation

open Library

section

variable {Rate K : Type} [LinearOrder K] (partialCmp : Rate → Rate → Option Ordering)
  (value : Rate → K)

/-! ## The order of the choice -/

/-- Requests per second, then hosted scopes, then the node. -/
def NodeStatus.busyness (s : NodeStatus Rate) : K ×ₗ Nat ×ₗ Nat :=
  toLex (value s.load.requestsPerSec, toLex (s.load.hostedScopes, s.node.val))

/-- The reported rates compare with each other as their values do. -/
def Comparable (loads : List (NodeStatus Rate)) : Prop :=
  ∀ s ∈ loads, ∀ t ∈ loads, partialCmp s.load.requestsPerSec t.load.requestsPerSec =
    some (compare (value s.load.requestsPerSec) (value t.load.requestsPerSec))

/-- Of the nodes that may be chosen the least busy one is, and nobody where there is none. -/
structure Chosen (eligible : NodeStatus Rate → Prop) (choice : Option NodeId) : Prop where
  some_iff : ∀ node, choice = some node ↔ ∃ s, eligible s ∧ s.node = node ∧
    ∀ t, eligible t → s.busyness value ≤ t.busyness value
  none_iff : choice = none ↔ ∀ s, ¬ eligible s

variable {partialCmp value}

theorem Chosen.unique {eligible eligible' : NodeStatus Rate → Prop} {choice choice' : Option NodeId}
    (h : Chosen value eligible choice) (h' : Chosen value eligible' choice')
    (hsame : ∀ s, eligible s ↔ eligible' s) : choice = choice' := by
  obtain rfl : eligible = eligible' := funext fun s => propext (hsame s)
  apply Option.ext
  intro node
  exact (h.some_iff node).trans (h'.some_iff node).symm

omit [LinearOrder K] in
/-- Two nodes are never as busy as each other. -/
theorem node_eq_of_busyness_eq {s t : NodeStatus Rate} (h : s.busyness value = t.busyness value) :
    s.node = t.node := by
  simp only [NodeStatus.busyness, EmbeddingLike.apply_eq_iff_eq, Prod.mk.injEq] at h
  exact Fin.val_injective h.2.2

theorem quieter_eq_gt {s t : NodeStatus Rate}
    (h : partialCmp s.load.requestsPerSec t.load.requestsPerSec =
      some (compare (value s.load.requestsPerSec) (value t.load.requestsPerSec))) :
    quieter partialCmp s t = .gt ↔ t.busyness value < s.busyness value := by
  rw [quieter, busier, h, Option.getD_some, compare_then_eq_gt]
  rfl

/-! ## Rates that compare -/

/-- Rational rates, among which there is no NaN. -/
def rationalCmp (a b : ℚ) : Option Ordering := some (compare a b)

theorem comparable_rational (loads : List (NodeStatus ℚ)) : Comparable rationalCmp id loads :=
  fun _ _ _ _ => rfl

theorem comparable_of_not_reportsNaN {loads : List (NodeStatus Binary64)}
    (h : ∀ s ∈ loads, ¬ s.ReportsNaN) : Comparable Binary64.partialCmp Binary64.key loads :=
  fun s hs t ht => Binary64.partialCmp_of_not_isNaN (h s hs) (h t ht)

/-! ## Both choices -/

/-- Where the rates compare, the least of a list is the least busy one. -/
theorem minBy_eq_argmin {l : List (NodeStatus Rate)} (h : Comparable partialCmp value l) :
    minBy (quieter partialCmp) l = l.argmin (NodeStatus.busyness value) := by
  cases l with
  | nil => rfl
  | cons a as =>
    apply foldl_select_eq_argmin
    exact fun s hs t ht => quieter_eq_gt (h s hs t ht)

theorem chosen_minBy {l : List (NodeStatus Rate)} (h : Comparable partialCmp value l) :
    Chosen value (· ∈ l) ((minBy (quieter partialCmp) l).map (·.node)) := by
  rw [minBy_eq_argmin h]
  constructor
  · intro node
    exact map_argmin_eq_some (fun s _ t _ => node_eq_of_busyness_eq)
  · rw [Option.map_eq_none_iff, List.argmin_eq_none, List.eq_nil_iff_forall_not_mem]

section

variable {loads : List (NodeStatus Rate)}

theorem chosen_owner (hnodes : (loads.map (·.node)).Nodup)
    (hrates : Comparable partialCmp value loads) (standbys : List NodeId) :
    Chosen value (fun s => s ∈ loads ∧ s.node ∈ standbys)
      (chooseNewOwner partialCmp standbys loads) := by
  have hlive : ∀ s, s ∈ standbys.filterMap (fun sb => loads.find? (fun t => t.node = sb)) ↔
      s ∈ loads ∧ s.node ∈ standbys := by
    intro s
    simp only [List.mem_filterMap, find?_node_eq_some hnodes]
    constructor
    · rintro ⟨sb, hsb, hs, rfl⟩
      exact ⟨hs, hsb⟩
    · rintro ⟨hs, hsb⟩
      exact ⟨s.node, hsb, hs, rfl⟩
  have hcompare : Comparable partialCmp value
      (standbys.filterMap (fun sb => loads.find? (fun t => t.node = sb))) :=
    fun s hs t ht => hrates s ((hlive s).1 hs).1 t ((hlive t).1 ht).1
  rw [← funext fun s => propext (hlive s)]
  exact chosen_minBy hcompare

theorem chosen_standby (hrates : Comparable partialCmp value loads) (exclude : List NodeId) :
    Chosen value (fun s => s ∈ loads ∧ s.node ∉ exclude)
      (chooseNewStandby partialCmp exclude loads) := by
  have hleft : ∀ s, s ∈ loads.filter (fun s => s.node ∉ exclude) ↔
      s ∈ loads ∧ s.node ∉ exclude := by
    intro s
    rw [List.mem_filter, decide_eq_true_eq]
  have hcompare : Comparable partialCmp value (loads.filter (fun s => s.node ∉ exclude)) :=
    fun s hs t ht => hrates s ((hleft s).1 hs).1 t ((hleft t).1 ht).1
  rw [← funext fun s => propext (hleft s)]
  exact chosen_minBy hcompare

theorem Comparable.perm {loads' : List (NodeStatus Rate)} (h : Comparable partialCmp value loads)
    (hperm : loads'.Perm loads) : Comparable partialCmp value loads' :=
  fun s hs t ht => h s (hperm.mem_iff.1 hs) t (hperm.mem_iff.1 ht)

theorem nodup_nodes_of_perm {loads' : List (NodeStatus Rate)}
    (hnodes : (loads.map (·.node)).Nodup) (hperm : loads'.Perm loads) :
    (loads'.map (·.node)).Nodup :=
  (hperm.map (·.node)).nodup_iff.2 hnodes

theorem chooseNewOwner_perm (hnodes : (loads.map (·.node)).Nodup)
    (hrates : Comparable partialCmp value loads) {standbys standbys' : List NodeId}
    {loads' : List (NodeStatus Rate)} (hstandbys : standbys'.Perm standbys)
    (hloads : loads'.Perm loads) :
    chooseNewOwner partialCmp standbys' loads' = chooseNewOwner partialCmp standbys loads := by
  have hchosen := chosen_owner (nodup_nodes_of_perm hnodes hloads) (hrates.perm hloads) standbys'
  apply hchosen.unique (chosen_owner hnodes hrates standbys)
  intro s
  rw [hloads.mem_iff, hstandbys.mem_iff]

theorem chooseNewStandby_perm (hrates : Comparable partialCmp value loads)
    {exclude exclude' : List NodeId} {loads' : List (NodeStatus Rate)}
    (hexclude : exclude'.Perm exclude) (hloads : loads'.Perm loads) :
    chooseNewStandby partialCmp exclude' loads' = chooseNewStandby partialCmp exclude loads := by
  have hchosen := chosen_standby (hrates.perm hloads) exclude'
  apply hchosen.unique (chosen_standby hrates exclude)
  intro s
  rw [hloads.mem_iff, hexclude.mem_iff]

/-! ## Nodes that read the same plane -/

variable (partialCmp) in
/-- What `consider` asks of the node before it claims the scope. -/
def ControlPlane.IsWinner (node : NodeId) (scope : OwnedScope) (plane : ControlPlane Rate) : Prop :=
  chooseNewOwner partialCmp (plane.standbys scope) plane.loads = some node

/-- The two list the same standbys of the scope, and the same loads. -/
structure ControlPlane.Relisted (scope : OwnedScope) (plane plane' : ControlPlane Rate) : Prop where
  standbys : (plane'.standbys scope).Perm (plane.standbys scope)
  loads : plane'.loads.Perm plane.loads

theorem ControlPlane.Relisted.winner_unique {scope : OwnedScope} {plane plane' : ControlPlane Rate}
    (h : plane.Relisted scope plane') (hnodes : (plane.loads.map (·.node)).Nodup)
    (hrates : Comparable partialCmp value plane.loads) {node node' : NodeId}
    (hwins : plane.IsWinner partialCmp node scope)
    (hwins' : plane'.IsWinner partialCmp node' scope) : node = node' := by
  have hsame := chooseNewOwner_perm hnodes hrates h.standbys h.loads
  rw [hwins', hwins] at hsame
  exact (Option.some.inj hsame).symm

end

variable (partialCmp value) in
/-- What those that read these loads choose by them. -/
structure HeirsAgreed (loads : List (NodeStatus Rate)) : Prop where
  owner : ∀ standbys, Chosen value (fun s => s ∈ loads ∧ s.node ∈ standbys)
    (chooseNewOwner partialCmp standbys loads)
  standby : ∀ exclude, Chosen value (fun s => s ∈ loads ∧ s.node ∉ exclude)
    (chooseNewStandby partialCmp exclude loads)
  sameOwner : ∀ standbys standbys' loads', standbys'.Perm standbys → loads'.Perm loads →
    chooseNewOwner partialCmp standbys' loads' = chooseNewOwner partialCmp standbys loads
  sameStandby : ∀ exclude exclude' loads', exclude'.Perm exclude → loads'.Perm loads →
    chooseNewStandby partialCmp exclude' loads' = chooseNewStandby partialCmp exclude loads
  oneWinner : ∀ (plane plane' : ControlPlane Rate) scope, plane.loads = loads →
    plane.Relisted scope plane' → ∀ node node', node ≠ node' →
      ¬ (plane.IsWinner partialCmp node scope ∧ plane'.IsWinner partialCmp node' scope)

/-- Nodes that have reported rates which compare are chosen from as they are, not as they are
listed. -/
theorem heirs_agreed {loads : List (NodeStatus Rate)} (hnodes : (loads.map (·.node)).Nodup)
    (hrates : Comparable partialCmp value loads) : HeirsAgreed partialCmp value loads := by
  refine ⟨chosen_owner hnodes hrates, chosen_standby hrates, ?_, ?_, ?_⟩
  · intro standbys standbys' loads' hstandbys hloads
    exact chooseNewOwner_perm hnodes hrates hstandbys hloads
  · intro exclude exclude' loads' hexclude hloads
    exact chooseNewStandby_perm hrates hexclude hloads
  · rintro plane plane' scope rfl hrelisted node node' hne ⟨hwins, hwins'⟩
    exact hne (hrelisted.winner_unique hnodes hrates hwins hwins')

end

/-- Nodes 3 and 4 are as quiet as each other, and node 3 hosts less. -/
def trio : List (NodeStatus ℚ) := [⟨2, 5, 10⟩, ⟨3, 1, 2⟩, ⟨4, 9, 2⟩]

/-- The bits of 2 and of 1 request per second. -/
def duo : List (NodeStatus Binary64) :=
  [⟨3, 1, ⟨0x4000000000000000⟩⟩, ⟨2, 5, ⟨0x3ff0000000000000⟩⟩]

theorem heirs_agreed_trio : (HeirsAgreed rationalCmp id trio ∧
      chooseNewOwner rationalCmp [4, 3, 2] trio.reverse = some 3) ∧
    HeirsAgreed Binary64.partialCmp Binary64.key duo ∧
      chooseNewStandby Binary64.partialCmp [2] duo.reverse = some 3 := by
  have h : HeirsAgreed rationalCmp id trio :=
    heirs_agreed (by decide) (comparable_rational trio)
  have howner := h.sameOwner [2, 3, 4] [4, 3, 2] trio.reverse (by decide) trio.reverse_perm
  have hnumbers : ∀ s ∈ duo, ¬ s.load.requestsPerSec.isNaN = true := by decide
  have h' : HeirsAgreed Binary64.partialCmp Binary64.key duo :=
    heirs_agreed (by decide) (comparable_of_not_reportsNaN hnumbers)
  have hstandby := h'.sameStandby [2] [2] duo.reverse (.refl _) duo.reverse_perm
  exact ⟨⟨h, howner.trans (by decide)⟩, h', hstandby.trans (by decide)⟩

/-! ## Runs -/

section

variable {Rate K : Type} [LinearOrder K] (partialCmp : Rate → Rate → Option Ordering)

namespace ControlPlane

theorem tick_loads (node : NodeId) (candidates : List OwnedScope) (plane : ControlPlane Rate) :
    (plane.tick partialCmp node candidates).2.loads = plane.loads := by
  induction candidates generalizing plane with
  | nil => rfl
  | cons scope candidates ih =>
    rw [tick_cons, ih]
    rcases plane.consider_cases partialCmp node scope with
      ⟨-, hsame, -⟩ | ⟨-, -, hclaim | ⟨sb, hclaim⟩⟩
    · rw [hsame]
    · rw [hclaim]
      rfl
    · rw [hclaim, setStandby_loads]
      rfl

/-- A node that reports again is listed again under its new load only. -/
theorem nodup_nodes_step {plane : ControlPlane Rate} (h : (plane.loads.map (·.node)).Nodup)
    (op : PlaneOp Rate) : ((plane.step partialCmp op).loads.map (·.node)).Nodup := by
  cases op with
  | tick node candidates =>
    rw [step, tick_loads]
    exact h
  | claim scope node => exact h
  | release scope node => exact h
  | setStandby scope node =>
    rw [step, setStandby_loads]
    exact h
  | setRehoming scope enabled => exact h
  | reportLoad node load =>
    have hkept : (plane.loads.filter (fun s => s.node ≠ node)).Sublist plane.loads :=
      List.filter_sublist
    have hothers := h.sublist (hkept.map (·.node))
    have hloads : (plane.step partialCmp (.reportLoad node load)).loads =
        plane.loads.filter (fun s => s.node ≠ node) ++ [⟨node, load⟩] := rfl
    rw [hloads, List.map_append, List.nodup_append]
    refine ⟨hothers, List.nodup_singleton _, ?_⟩
    intro other hother new hnew
    obtain ⟨s, hs, rfl⟩ := List.mem_map.1 hother
    have hne : s.node ≠ node := by simpa using (List.mem_filter.1 hs).2
    rwa [List.mem_singleton.1 hnew]
  | publishKey node publicHex => exact h
  | relist listing => exact nodup_nodes_of_perm h (listing.perm plane.loads)

theorem nodup_nodes_run (ops : List (PlaneOp Rate)) :
    ((run partialCmp ops).loads.map (·.node)).Nodup := by
  induction ops using List.reverseRecOn with
  | nil => exact List.nodup_nil
  | append_singleton ops op ih =>
    rw [run, List.foldl_append]
    exact nodup_nodes_step partialCmp ih op

variable {partialCmp} {value : Rate → K}

/-- Of the nodes that read the plane after a run, each in an order of its own, at most one would
be promoted. -/
theorem one_promoted {ops : List (PlaneOp Rate)}
    (hrates : Comparable partialCmp value (run partialCmp ops).loads) {scope : OwnedScope}
    {plane plane' : ControlPlane Rate} (hplane : (run partialCmp ops).Relisted scope plane)
    (hplane' : (run partialCmp ops).Relisted scope plane') {node node' : NodeId}
    (h : plane.promotes partialCmp node scope = true)
    (h' : plane'.promotes partialCmp node' scope = true) : node = node' := by
  obtain ⟨-, -, hwins⟩ := (promotes_iff partialCmp).1 h
  obtain ⟨-, -, hwins'⟩ := (promotes_iff partialCmp).1 h'
  have hnodes := nodup_nodes_of_perm (nodup_nodes_run partialCmp ops) hplane.loads
  have hrelisted : plane.Relisted scope plane' :=
    ⟨hplane'.standbys.trans hplane.standbys.symm, hplane'.loads.trans hplane.loads.symm⟩
  exact hrelisted.winner_unique hnodes (hrates.perm hplane.loads) hwins hwins'

end ControlPlane

end

end Democrachat.Federation
