import Democrachat.Federation.Authorize
import Democrachat.Federation.Rehoming
import Democrachat.Library.Selection
import Mathlib.Data.Int.ConditionallyCompleteOrder
import Mathlib.Order.ConditionallyCompleteLattice.Basic

/-!
# Fail-over

Nodes tick over scopes they replicate, among claims, releases, standbys, policies and loads.
The winner of a scope is the least loaded of its live standbys, unless a standby that is listed
behind that one has reported NaN.
-/

namespace Democrachat.Federation

open Library

/-! ## Runs of a control plane -/

/-- The order in which the map of the loads happens to list them. -/
structure Listing (Rate : Type) where
  order : List (NodeStatus Rate) → List (NodeStatus Rate)
  perm : ∀ loads, (order loads).Perm loads

inductive PlaneOp (Rate : Type) where
  | tick (node : NodeId) (candidates : List OwnedScope)
  | claim (scope : OwnedScope) (node : NodeId)
  | release (scope : OwnedScope) (node : NodeId)
  | setStandby (scope : OwnedScope) (node : NodeId)
  | setRehoming (scope : OwnedScope) (enabled : Bool)
  | reportLoad (node : NodeId) (load : NodeLoad Rate)
  | publishKey (node : NodeId) (publicHex : String)
  /-- The loads are listed otherwise from now on. -/
  | relist (listing : Listing Rate)

/-- What a registry may become: the highest epochs grow, and owners hold theirs under them. -/
structure InMemoryRegistry.Ages (r r' : InMemoryRegistry) : Prop where
  epochs : ∀ scope, r.maxEpoch scope ≤ r'.maxEpoch scope
  fenced : r.Fenced → r'.Fenced

/-- And whoever owns a scope keeps it. -/
structure InMemoryRegistry.Tended (r r' : InMemoryRegistry) : Prop extends r.Ages r' where
  owned : ∀ scope owner, r.owners scope = some owner → r'.owners scope = some owner

namespace InMemoryRegistry

theorem Ages.refl (r : InMemoryRegistry) : r.Ages r := ⟨fun _ => Nat.le_refl _, id⟩

theorem Ages.trans {r r' r'' : InMemoryRegistry} (h : r.Ages r') (h' : r'.Ages r'') :
    r.Ages r'' :=
  ⟨fun scope => (h.epochs scope).trans (h'.epochs scope), fun hr => h'.fenced (h.fenced hr)⟩

theorem Tended.refl (r : InMemoryRegistry) : r.Tended r := ⟨.refl r, fun _ _ h => h⟩

theorem Tended.trans {r r' r'' : InMemoryRegistry} (h : r.Tended r') (h' : r'.Tended r'') :
    r.Tended r'' :=
  ⟨h.toAges.trans h'.toAges, fun scope owner hr => h'.owned scope owner (h.owned scope owner hr)⟩

theorem tended_claim (r : InMemoryRegistry) (scope : OwnedScope) (node : NodeId) :
    r.Tended (r.claim scope node).2 := by
  refine ⟨⟨?_, fun h => h.claim scope node⟩, ?_⟩
  · intro scope'
    rcases claim_cases r scope node with hsame | ⟨-, -, hepochs⟩
    · rw [hsame]
    · rw [hepochs]
      by_cases hscope : scope' = scope
      · rw [hscope, Function.update_self]
        omega
      · rw [Function.update_of_ne hscope]
  · intro scope' owner howner
    rcases claim_cases r scope node with hsame | ⟨hfree, howners, -⟩
    · rw [hsame, howner]
    · have hscope : scope' ≠ scope := by
        rintro rfl
        rw [hfree] at howner
        cases howner
      rw [howners, Function.update_of_ne hscope, howner]

/-- A claim of one scope says nothing about another. -/
theorem claim_of_ne (r : InMemoryRegistry) {scope scope' : OwnedScope} (node : NodeId)
    (h : scope' ≠ scope) :
    (r.claim scope node).2.owners scope' = r.owners scope' ∧
      (r.claim scope node).2.maxEpoch scope' = r.maxEpoch scope' := by
  rcases claim_cases r scope node with hsame | ⟨-, howners, hepochs⟩
  · rw [hsame]
    exact ⟨rfl, rfl⟩
  · rw [howners, hepochs, Function.update_of_ne h, Function.update_of_ne h]
    exact ⟨rfl, rfl⟩

end InMemoryRegistry

section

variable {Rate : Type} (partialCmp : Rate → Rate → Option Ordering)

namespace ControlPlane

def step (plane : ControlPlane Rate) : PlaneOp Rate → ControlPlane Rate
  | .tick node candidates => (plane.tick partialCmp node candidates).2
  | .claim scope node => (plane.claim scope node).2
  | .release scope node => plane.release scope node
  | .setStandby scope node => plane.setStandby scope node
  | .setRehoming scope enabled => plane.setRehoming scope enabled
  | .reportLoad node load => plane.reportLoad node load
  | .publishKey node publicHex => plane.publishKey node publicHex
  | .relist listing => { plane with loads := listing.order plane.loads }

/-- The plane that candidate number `k` of a tick meets. -/
def before (node : NodeId) (candidates : List OwnedScope) (k : Nat) (plane : ControlPlane Rate) :
    ControlPlane Rate :=
  (plane.tick partialCmp node (candidates.take k)).2

/-! ## Ticks -/

variable (node : NodeId) (scope : OwnedScope) (candidates : List OwnedScope)
  (plane : ControlPlane Rate)

theorem tended_consider :
    plane.registry.Tended (plane.consider partialCmp node scope).2.registry := by
  rw [consider_registry]
  split
  · exact plane.registry.tended_claim scope node
  · exact .refl _

theorem tended_tick : plane.registry.Tended (plane.tick partialCmp node candidates).2.registry := by
  induction candidates generalizing plane with
  | nil => exact .refl _
  | cons scope candidates ih =>
    rw [tick_cons]
    exact (plane.tended_consider partialCmp node scope).trans (ih _)

/-- A scope that may not be rehomed is not claimed. -/
theorem tick_of_disabled {scope : OwnedScope} (h : plane.isRehomingDisabled scope = true) :
    (plane.tick partialCmp node candidates).2.registry.owners scope = plane.registry.owners scope ∧
      (plane.tick partialCmp node candidates).2.registry.maxEpoch scope =
        plane.registry.maxEpoch scope := by
  induction candidates generalizing plane with
  | nil => exact ⟨rfl, rfl⟩
  | cons scope' candidates ih =>
    have hlater := ih (plane.consider partialCmp node scope').2
      (by rw [consider_isRehomingDisabled, h])
    rw [tick_cons, hlater.1, hlater.2, consider_registry]
    split
    next hpromotes =>
      have hscope : scope ≠ scope' := by
        rintro rfl
        rw [(promotes_iff partialCmp).1 hpromotes |>.2.1] at h
        cases h
      exact plane.registry.claim_of_ne node hscope
    next => exact ⟨rfl, rfl⟩

/-- What a tick says of a candidate is what considering it says, at its turn. -/
theorem getElem?_tick (k : Nat) :
    (plane.tick partialCmp node candidates).1[k]? = candidates[k]?.map (fun scope =>
      ((plane.before partialCmp node candidates k).consider partialCmp node scope).1) := by
  induction candidates generalizing plane k with
  | nil => rfl
  | cons scope candidates ih =>
    rw [tick_cons]
    cases k with
    | zero => rfl
    | succ k =>
      rw [List.getElem?_cons_succ, List.getElem?_cons_succ, ih]
      rfl

/-- Candidate number `k`, and then the others. -/
theorem tended_after {k : Nat} {scope : OwnedScope} (h : candidates[k]? = some scope) :
    ((plane.before partialCmp node candidates k).consider partialCmp node scope).2.registry.Tended
      (plane.tick partialCmp node candidates).2.registry := by
  obtain ⟨hlt, hscope⟩ := List.getElem?_eq_some_iff.1 h
  have hsplit : candidates = candidates.take k ++ scope :: candidates.drop (k + 1) := by
    rw [← hscope, List.cons_getElem_drop_succ, List.take_append_drop]
  have htick := tick_append partialCmp node (candidates.take k) (scope :: candidates.drop (k + 1)) plane
  rw [← hsplit, tick_cons] at htick
  rw [htick]
  exact tended_tick partialCmp node _ _

/-- Every step of a plane lets its registry age. -/
theorem ages_step (op : PlaneOp Rate) : plane.registry.Ages (plane.step partialCmp op).registry := by
  cases op with
  | tick node candidates => exact (plane.tended_tick partialCmp node candidates).toAges
  | claim scope node => exact (plane.registry.tended_claim scope node).toAges
  | release scope node =>
    refine ⟨fun scope' => ?_, fun h => h.release scope node⟩
    exact (congrFun (plane.registry.release_maxEpoch scope node) scope').ge
  | setStandby scope node =>
    rw [step, setStandby_registry]
    exact .refl _
  | setRehoming scope enabled => exact .refl _
  | reportLoad node load => exact .refl _
  | publishKey node publicHex =>
    obtain ⟨howners, hepochs⟩ := plane.registry.publishKey_owners node publicHex
    refine ⟨fun scope => (congrFun hepochs scope).ge, ?_⟩
    intro h scope owner epoch howner
    change (plane.registry.publishKey node publicHex).2.owners scope = _ at howner
    change epoch = (plane.registry.publishKey node publicHex).2.maxEpoch scope
    rw [howners] at howner
    rw [hepochs]
    exact h scope owner epoch howner
  | relist listing => exact .refl _

/-- A run from the empty plane. -/
def run (ops : List (PlaneOp Rate)) : ControlPlane Rate := ops.foldl (step partialCmp) empty

theorem ages_foldl (ops : List (PlaneOp Rate)) :
    plane.registry.Ages (ops.foldl (step partialCmp) plane).registry := by
  induction ops generalizing plane with
  | nil => exact .refl _
  | cons op ops ih => exact (plane.ages_step partialCmp op).trans (ih _)

theorem fenced_run (ops : List (PlaneOp Rate)) : (run partialCmp ops).registry.Fenced :=
  (ages_foldl partialCmp empty ops).fenced nofun

end ControlPlane

end

/-! ## The least loaded standby -/

/-- From least to most busy as documented: NaN is most busy, and ties go by node. -/
def NodeStatus.rank (s : NodeStatus Binary64) : WithTop Int ×ₗ Nat ×ₗ Nat :=
  toLex (s.load.requestsPerSec.rank, toLex (s.load.hostedScopes, s.node.val))

def NodeStatus.ReportsNaN (s : NodeStatus Binary64) : Prop := s.load.requestsPerSec.isNaN = true

theorem selects_quieter :
    Selects (quieter Binary64.partialCmp) NodeStatus.rank NodeStatus.ReportsNaN where
  gt_iff := by
    intro x y hx hy
    rw [quieter, busier, Binary64.partialCmp_of_not_isNaN hx hy, Option.getD_some,
      compare_then_eq_gt, NodeStatus.rank, NodeStatus.rank, Binary64.rank_of_not_isNaN hx,
      Binary64.rank_of_not_isNaN hy]
    simp only [Prod.Lex.toLex_lt_toLex, WithTop.coe_lt_coe, WithTop.coe_inj]
  gt_of_odd := by
    intro x y h
    rw [quieter, busier, Binary64.partialCmp_of_isNaN h]
    rfl
  above := by
    intro x y hx hy
    rw [NodeStatus.rank, NodeStatus.rank, Binary64.rank_of_not_isNaN hx, Binary64.rank_of_isNaN hy,
      Prod.Lex.toLex_lt_toLex]
    exact .inl (WithTop.coe_lt_top _)

namespace ControlPlane

/-- The standbys of a scope that are live, in the order in which they were set. -/
def liveStandbys (scope : OwnedScope) (plane : ControlPlane Binary64) : List (NodeStatus Binary64) :=
  (plane.standbys scope).filterMap (fun sb => plane.loads.find? (fun s => s.node = sb))

/-- No live standby is less busy. -/
def LeastLoaded (node : NodeId) (scope : OwnedScope) (plane : ControlPlane Binary64) : Prop :=
  ∃ s ∈ plane.liveStandbys scope, s.node = node ∧ ∀ x ∈ plane.liveStandbys scope, s.rank ≤ x.rank

/-- No standby that is listed behind a least loaded one has reported NaN. -/
def LeastStands (scope : OwnedScope) (plane : ControlPlane Binary64) : Prop :=
  ∃ s, (∀ x ∈ plane.liveStandbys scope, s.rank ≤ x.rank) ∧
    Standing NodeStatus.ReportsNaN s (plane.liveStandbys scope)

/-- A node is live under one load. -/
theorem liveStandbys_unique {scope : OwnedScope} {plane : ControlPlane Binary64}
    {s t : NodeStatus Binary64} (hs : s ∈ plane.liveStandbys scope)
    (ht : t ∈ plane.liveStandbys scope) (h : s.node = t.node) : s = t := by
  obtain ⟨sb, -, hfound⟩ := List.mem_filterMap.1 hs
  obtain ⟨sb', -, hfound'⟩ := List.mem_filterMap.1 ht
  have hsb : s.node = sb := by simpa using List.find?_some hfound
  have hsb' : t.node = sb' := by simpa using List.find?_some hfound'
  rw [← hsb, h, hsb', hfound'] at hfound
  exact (Option.some.inj hfound).symm

/-- The new owner is least loaded exactly where a least loaded standby stands. -/
theorem leastLoaded_iff {node : NodeId} {scope : OwnedScope} {plane : ControlPlane Binary64}
    (h : chooseNewOwner Binary64.partialCmp (plane.standbys scope) plane.loads = some node) :
    plane.LeastLoaded node scope ↔ plane.LeastStands scope := by
  unfold chooseNewOwner at h
  change (minBy (quieter Binary64.partialCmp) (plane.liveStandbys scope)).map (·.node) = some node at h
  obtain ⟨winner, hwinner, rfl⟩ := Option.map_eq_some_iff.1 h
  unfold LeastLoaded LeastStands
  have hunique : ∀ {s t}, s ∈ plane.liveStandbys scope → t ∈ plane.liveStandbys scope →
      s.node = t.node → s = t := liveStandbys_unique
  generalize plane.liveStandbys scope = live at hwinner hunique ⊢
  cases live with
  | nil => cases hwinner
  | cons a as =>
    have hfold : as.foldl (select (quieter Binary64.partialCmp)) a = winner := Option.some.inj hwinner
    have hiff := selects_quieter.least_iff a as
    obtain ⟨⟨hsplit⟩, -⟩ := selects_quieter.foldl a as
    rw [hfold] at hiff hsplit
    have hmem : winner ∈ a :: as := by
      obtain ⟨front, back, hsplit, -⟩ := hsplit
      rw [hsplit]
      exact List.mem_append_right _ List.mem_cons_self
    rw [← hiff]
    constructor
    · rintro ⟨s, hs, hnode, hleast⟩
      rwa [hunique hs hmem hnode] at hleast
    · exact fun hleast => ⟨winner, hmem, rfl, hleast⟩

end ControlPlane

/-! ## What fail-over promises -/

section

variable (ops : List (PlaneOp Binary64)) (node : NodeId) (candidates : List OwnedScope)

/-- The plane after a run, the tick that follows it, and the plane after that. -/
abbrev planeOf : ControlPlane Binary64 := .run Binary64.partialCmp ops

abbrev tickOf : List RehomeOutcome × ControlPlane Binary64 :=
  (planeOf ops).tick Binary64.partialCmp node candidates

abbrev meets (k : Nat) : ControlPlane Binary64 :=
  (planeOf ops).before Binary64.partialCmp node candidates k

/-- The node has been promoted for candidate number `k`. -/
structure Promoted (k : Nat) (scope : OwnedScope) (epoch : Nat) : Prop where
  least : (meets ops node candidates k).LeastLoaded node scope
  owner : (tickOf ops node candidates).2.registry.owners scope = some (node, epoch)
  newer : ∀ earlier, earlier <+: ops → ∀ owner older,
    (planeOf earlier).registry.owners scope = some (owner, older) → older < epoch
  /-- As long as it stays the owner, it is the only one whose events are let through. -/
  fences : ∀ later, (planeOf (ops ++ .tick node candidates :: later)).registry.owners scope =
      some (node, epoch) →
    ∀ wire resolver event part,
      authorize wire ((planeOf (ops ++ .tick node candidates :: later)).registry.answers wire)
        resolver event = .ok part →
      (classify part.entity part.payload).resolve resolver = .ok scope →
        part.node = node ∧ epoch ≤ part.epoch

/-- The tick takes no scope from its owner, none that may not be rehomed, and the others as it
should. -/
structure FailsOver : Prop where
  owned : ∀ scope owner, (planeOf ops).registry.owners scope = some owner →
    (tickOf ops node candidates).2.registry.owners scope = some owner
  disabled : ∀ scope, (planeOf ops).isRehomingDisabled scope = true →
    (tickOf ops node candidates).2.registry.owners scope = (planeOf ops).registry.owners scope ∧
      (tickOf ops node candidates).2.registry.maxEpoch scope = (planeOf ops).registry.maxEpoch scope
  promoted : ∀ k scope epoch,
    (tickOf ops node candidates).1[k]? = some (.promoted scope epoch) →
      candidates[k]? = some scope ∧ Promoted ops node candidates k scope epoch

variable {ops node candidates}

theorem promoted_iff {k : Nat} {scope : OwnedScope} {epoch : Nat} :
    (tickOf ops node candidates).1[k]? = some (.promoted scope epoch) ↔
      candidates[k]? = some scope ∧
        (meets ops node candidates k).promotes Binary64.partialCmp node scope = true ∧
        epoch = (meets ops node candidates k).registry.maxEpoch scope + 1 := by
  rw [tickOf, ControlPlane.getElem?_tick, Option.map_eq_some_iff]
  constructor
  · rintro ⟨scope', hscope', hpromoted⟩
    obtain ⟨hpromotes, rfl, hepoch⟩ := (ControlPlane.consider_promoted _).1 hpromoted
    exact ⟨hscope', hpromotes, hepoch⟩
  · rintro ⟨hscope, hpromotes, hepoch⟩
    exact ⟨scope, hscope, (ControlPlane.consider_promoted _).2 ⟨hpromotes, rfl, hepoch⟩⟩

/-- The gate lets through what the owner of the scope has signed. -/
theorem authorize_owner {r : InMemoryRegistry} {wire : Wire} {resolver : ScopeResolver}
    {event : ChangeEvent} {part : SignedPart} {scope : OwnedScope} {owner : NodeId} {epoch : Nat}
    (howner : r.owners scope = some (owner, epoch))
    (h : authorize wire (r.answers wire) resolver event = .ok part)
    (hscope : (classify part.entity part.payload).resolve resolver = .ok scope) :
    part.node = owner ∧ epoch ≤ part.epoch := by
  obtain ⟨-, scope', hscope', hcheck⟩ := authorize_eq_ok.1 h
  obtain rfl : scope = scope' := Except.ok.inj (hscope.symm.trans hscope')
  obtain ⟨-, o, hanswer, hnode, hepoch⟩ := checkOwner_eq_ok.1 hcheck
  have hsame : r.ownerOf scope = some o := Except.ok.inj hanswer
  rw [InMemoryRegistry.ownerOf, howner] at hsame
  obtain rfl := Option.some.inj hsame
  exact ⟨hnode.symm, hepoch⟩

/-- All but the choice of the standby holds of every promotion. -/
theorem promoted_of_leastLoaded {k : Nat} {scope : OwnedScope} {epoch : Nat}
    (h : (tickOf ops node candidates).1[k]? = some (.promoted scope epoch))
    (hleast : (meets ops node candidates k).LeastLoaded node scope) :
    Promoted ops node candidates k scope epoch := by
  obtain ⟨hscope, hpromotes, rfl⟩ := promoted_iff.1 h
  obtain ⟨hfree, -, -⟩ := (ControlPlane.promotes_iff _).1 hpromotes
  refine ⟨hleast, ?_, ?_, ?_⟩
  · apply (ControlPlane.tended_after _ _ _ _ hscope).owned
    rw [ControlPlane.consider_registry, if_pos hpromotes]
    simp only [InMemoryRegistry.claim, hfree, Function.update_self]
  · rintro earlier ⟨rest, rfl⟩ owner older howner
    have holder := ControlPlane.fenced_run Binary64.partialCmp earlier scope owner older howner
    have hrun := ControlPlane.ages_foldl Binary64.partialCmp (planeOf earlier) rest
    have hrest : planeOf (earlier ++ rest) = rest.foldl (.step Binary64.partialCmp) (planeOf earlier) :=
      List.foldl_append
    have hbefore := (planeOf (earlier ++ rest)).tended_tick Binary64.partialCmp node
      (candidates.take k)
    have hle := hrun.epochs scope
    have hle' := hbefore.epochs scope
    rw [← hrest] at hle
    exact Nat.lt_succ_of_le (holder ▸ hle.trans hle')
  · intro later howner wire resolver event part hauthorized hpart
    exact authorize_owner howner hauthorized hpart

end

/-- A tick of any node after any run fails over as it should exactly where, for every scope that it
promotes the node for, no standby behind a least loaded one has reported NaN. -/
theorem failsOver_iff (ops : List (PlaneOp Binary64)) (node : NodeId)
    (candidates : List OwnedScope) :
    FailsOver ops node candidates ↔
      ∀ k scope, candidates[k]? = some scope →
        (meets ops node candidates k).promotes Binary64.partialCmp node scope = true →
          (meets ops node candidates k).LeastStands scope := by
  constructor
  · intro h k scope hscope hpromotes
    obtain ⟨-, -, hwinner⟩ := (ControlPlane.promotes_iff _).1 hpromotes
    have hpromoted := promoted_iff.2 ⟨hscope, hpromotes, rfl⟩
    exact (ControlPlane.leastLoaded_iff hwinner).1 (h.promoted k scope _ hpromoted).2.least
  · intro h
    refine ⟨?_, ?_, ?_⟩
    · exact ((planeOf ops).tended_tick Binary64.partialCmp node candidates).owned
    · exact fun scope hdisabled =>
        (planeOf ops).tick_of_disabled Binary64.partialCmp node candidates hdisabled
    · intro k scope epoch hpromoted
      obtain ⟨hscope, hpromotes, -⟩ := promoted_iff.1 hpromoted
      obtain ⟨-, -, hwinner⟩ := (ControlPlane.promotes_iff _).1 hpromotes
      have hleast := (ControlPlane.leastLoaded_iff hwinner).2 (h k scope hscope hpromotes)
      exact ⟨hscope, promoted_of_leastLoaded hpromoted hleast⟩

/-- Nodes 2, 3 and 4 are standbys of a server; node 3 has reported NaN, and node 2 less than
node 4. -/
def unquiet : List (PlaneOp Binary64) :=
  [.setStandby (.server ⟨1, 1⟩) 2, .setStandby (.server ⟨1, 1⟩) 3, .setStandby (.server ⟨1, 1⟩) 4,
    .reportLoad 2 ⟨0, ⟨0x3ff0000000000000⟩⟩, .reportLoad 3 ⟨0, ⟨0x7ff8000000000000⟩⟩,
    .reportLoad 4 ⟨0, ⟨0x4000000000000000⟩⟩]

/-- Node 4 is promoted all the same. -/
theorem busier_standby_promoted : ¬ ∀ ops node candidates, FailsOver ops node candidates := by
  intro hall
  have hpromoted : (tickOf unquiet 4 [.server ⟨1, 1⟩]).1[0]? =
      some (.promoted (.server ⟨1, 1⟩) 1) := by decide
  obtain ⟨-, h⟩ := (hall unquiet 4 [.server ⟨1, 1⟩]).promoted 0 _ _ hpromoted
  obtain ⟨s, hs, hnode, hleast⟩ := h.least
  have hlive : (meets unquiet 4 [.server ⟨1, 1⟩] 0).liveStandbys (.server ⟨1, 1⟩) =
      [⟨2, 0, ⟨0x3ff0000000000000⟩⟩, ⟨3, 0, ⟨0x7ff8000000000000⟩⟩,
        ⟨4, 0, ⟨0x4000000000000000⟩⟩] := rfl
  rw [hlive] at hs hleast
  have hfour : s = ⟨4, 0, ⟨0x4000000000000000⟩⟩ := by
    rcases List.mem_cons.1 hs with rfl | hs
    · cases hnode
    · rcases List.mem_cons.1 hs with rfl | hs
      · cases hnode
      · exact List.mem_singleton.1 hs
  subst hfour
  have hle := hleast _ List.mem_cons_self
  exact absurd hle (by decide)

end Democrachat.Federation
