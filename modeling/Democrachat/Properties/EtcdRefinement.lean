import Democrachat.Federation.PlaneStore
import Democrachat.Federation.RehomingController
import Democrachat.Library.Simulation
import Democrachat.Properties.Heirs

/-!
# Etcd in place of the registry in memory

Nodes that call etcd one after another are answered as the registry in memory answers them, but
for the standbys: only who owns a scope lists one.  What a node does about the scopes that nobody
owns is therefore the same over both.
-/

namespace Democrachat.Federation

open Library

section

variable {Rate : Type}

/-- The scope of the call, if it has one, is one whose key is its own. -/
def PlaneCall.Fits : PlaneCall Rate → Prop
  | .ownerOf scope | .claim scope _ | .release scope _ | .setStandby scope _ | .standbys scope
  | .canRehome scope | .setRehoming scope _ => scope.Fits
  | .renew _ | .publishKey _ _ | .publicKey _ | .reportLoad _ _ | .liveNodes => True

/-- JSON can say the load that is reported; there is no number for a rate that is none. -/
def PlaneCall.IsReadable (text : PlaneText Rate) : PlaneCall Rate → Prop
  | .reportLoad _ load => text.parseLoad (text.renderLoad load) = .ok load
  | _ => True

/-- The registry in memory, with the guard of etcd: who does not own the scope lists nobody. -/
def ControlPlane.guarded (wire : Wire) (plane : ControlPlane Rate) :
    Seat × PlaneCall Rate → Except RegistryError (PlaneAnswer Rate) × ControlPlane Rate
  | (seat, .setStandby scope node) =>
    if node ∈ plane.standbys scope ∨
        (plane.registry.owners scope).map Prod.fst = some seat.node then
      plane.answer wire (.setStandby scope node)
    else
      (.error ⟨"refusing to set a standby: this node is not the scope's current owner"⟩, plane)
  | (_, call) => plane.answer wire call

/-- The registry in memory keeps no order among the live nodes. -/
def PlaneAnswer.Agree :
    Except RegistryError (PlaneAnswer Rate) → Except RegistryError (PlaneAnswer Rate) → Prop
  | .ok (.live loads), answer' => ∃ loads', answer' = .ok (.live loads') ∧ loads.Perm loads'
  | answer, answer' => answer = answer'

variable {wire : Wire} {text : PlaneText Rate} {calls : Nat} {s : Etcd}
  {plane : ControlPlane Rate}

section

variable {seat : Seat} {scope : OwnedScope} {node : NodeId}

theorem guarded_of_allowed (h : node ∈ plane.standbys scope ∨
    (plane.registry.owners scope).map Prod.fst = some seat.node) :
    plane.guarded wire (seat, .setStandby scope node) =
      (.ok .done, plane.setStandby scope node) :=
  if_pos h

theorem guarded_of_refused (h : ¬ (node ∈ plane.standbys scope ∨
    (plane.registry.owners scope).map Prod.fst = some seat.node)) :
    plane.guarded wire (seat, .setStandby scope node) =
      (.error ⟨"refusing to set a standby: this node is not the scope's current owner"⟩, plane) :=
  if_neg h

end

section

variable {α : Type} {r : Req Etcd RegistryError α} {t : Etcd}

theorem exec_return {result : Except RegistryError α} (h : r.exec s = (result, t)) {β : Type}
    (f : α → β) :
    (do return f (← r) : Req Etcd RegistryError β).exec s = (result.map f, t) := by
  rw [Req.exec_bind, h]
  cases result with
  | ok a => rfl
  | error e => rfl

end

theorem agree_map {α : Type} {result : Except RegistryError α} {f : α → PlaneAnswer Rate}
    (hf : ∀ a loads, f a ≠ .live loads) :
    PlaneAnswer.Agree (result.map f) (result.map f) := by
  cases result with
  | error e => rfl
  | ok a =>
    have hother := hf a
    change PlaneAnswer.Agree (.ok (f a)) (.ok (f a))
    cases h : f a with
    | live loads => exact absurd h (hother loads)
    | _ => rfl

/-- One call, whoever makes it. -/
theorem Etcd.Mirrors.call (h : s.Mirrors text (calls + 1) plane) (htext : text.ReadsNodes)
    (seat : Seat) {call : PlaneCall Rate} (hfits : call.Fits) (hreadable : call.IsReadable text) :
    PlaneAnswer.Agree ((call.etcd wire text seat).exec s).1 (plane.guarded wire (seat, call)).1 ∧
      ((call.etcd wire text seat).exec s).2.Mirrors text calls
        (plane.guarded wire (seat, call)).2 := by
  unfold PlaneCall.etcd
  cases call with
  | ownerOf scope =>
    rw [exec_return (h.ownerOf ⟨scope, hfits⟩)]
    exact ⟨rfl, h.fewer⟩
  | claim scope node =>
    obtain ⟨t, hexec, hmirrors⟩ := h.claim seat.lease ⟨scope, hfits⟩ node
    rw [exec_return hexec]
    exact ⟨rfl, hmirrors⟩
  | release scope node =>
    obtain ⟨t, hexec, hmirrors⟩ := h.release ⟨scope, hfits⟩ node
    rw [exec_return hexec]
    exact ⟨rfl, hmirrors.fewer⟩
  | setStandby scope node =>
    obtain ⟨t, hexec, hmirrors⟩ := h.setStandby htext seat ⟨scope, hfits⟩ node
    rw [exec_return hexec]
    by_cases howner : (plane.registry.owners scope).map Prod.fst = some seat.node
    · rw [if_pos howner] at hmirrors
      rw [if_pos (.inr howner), guarded_of_allowed (.inr howner)]
      exact ⟨rfl, hmirrors.fewer⟩
    · rw [if_neg howner] at hmirrors
      by_cases hlisted : node ∈ plane.standbys scope
      · have hsame : plane.setStandby scope node = plane := if_pos hlisted
        rw [if_pos (.inl hlisted), guarded_of_allowed (.inl hlisted), hsame]
        exact ⟨rfl, hmirrors.fewer⟩
      · have hrefused := not_or.2 ⟨hlisted, howner⟩
        rw [if_neg hrefused, guarded_of_refused hrefused]
        exact ⟨rfl, hmirrors.fewer⟩
  | standbys scope =>
    rw [exec_return (h.standbys htext ⟨scope, hfits⟩)]
    exact ⟨rfl, h.fewer⟩
  | canRehome scope =>
    rw [exec_return (h.canRehome ⟨scope, hfits⟩)]
    exact ⟨rfl, h.fewer⟩
  | setRehoming scope enabled =>
    obtain ⟨t, hexec, hmirrors⟩ := h.setRehoming ⟨scope, hfits⟩ enabled
    rw [exec_return hexec]
    exact ⟨rfl, hmirrors.fewer⟩
  | renew node => exact ⟨rfl, h.fewer⟩
  | publishKey node publicHex =>
    obtain ⟨t, hexec, hmirrors⟩ := h.publishKey node publicHex
    rw [exec_return hexec]
    exact ⟨agree_map (fun _ _ h => by cases h), hmirrors.fewer⟩
  | publicKey node =>
    rw [exec_return (h.publicKey wire node)]
    exact ⟨agree_map (fun _ _ h => by cases h), h.fewer⟩
  | reportLoad node load =>
    obtain ⟨t, hexec, hmirrors⟩ := h.reportLoad seat node hreadable
    rw [exec_return hexec]
    exact ⟨rfl, hmirrors.fewer⟩
  | liveNodes =>
    obtain ⟨live, hexec, hperm⟩ := h.liveNodes
    rw [exec_return hexec]
    exact ⟨⟨plane.loads, rfl, hperm⟩, h.fewer⟩

/-! ## The controller -/

/-- JSON has no number for a rate that does not compare. -/
def PlaneText.RatesCompare {K : Type} [LinearOrder K] (text : PlaneText Rate)
    (partialCmp : Rate → Rate → Option Ordering) (value : Rate → K) : Prop :=
  ∀ load load', text.parseLoad (text.renderLoad load) = .ok load →
    text.parseLoad (text.renderLoad load') = .ok load' →
    partialCmp load.requestsPerSec load'.requestsPerSec =
      some (compare (value load.requestsPerSec) (value load'.requestsPerSec))

theorem exec_bind_ok {α β : Type} {r : Req Etcd RegistryError α} {a : α} {t : Etcd}
    (h : r.exec s = (.ok a, t)) (k : α → Req Etcd RegistryError β) :
    (r >>= k).exec s = (k a).exec t := by
  rw [Req.exec_bind, h]

section

variable {K : Type} [LinearOrder K] {partialCmp : Rate → Rate → Option Ordering} {value : Rate → K}

theorem owner_of_claimed {scope : OwnedScope} {node : NodeId} {epoch : Nat}
    {plane' : ControlPlane Rate} (h : plane.claim scope node = (.claimed epoch, plane')) :
    (plane'.registry.owners scope).map Prod.fst = some node := by
  cases howner : plane.registry.owners scope with
  | some owner => simp [ControlPlane.claim, InMemoryRegistry.claim, howner] at h
  | none =>
    simp only [ControlPlane.claim, InMemoryRegistry.claim, howner, Prod.mk.injEq] at h
    rw [← h.2]
    simp

/-- A node that was promoted owns the scope, so that it may list the next heir. -/
theorem Etcd.Mirrors.protect (h : s.Mirrors text calls plane) (htext : text.ReadsNodes)
    {seat : Seat} {scope : PackedScope}
    (howner : (plane.registry.owners scope.1).map Prod.fst = some seat.node) (sb : Option NodeId) :
    ∃ t, (RehomingController.protect (EtcdRegistry.asRegistry text seat) scope.1 sb).exec s = (.ok (), t) ∧
      t.Mirrors text calls (sb.elim plane (fun sb => plane.setStandby scope.1 sb)) := by
  cases sb with
  | none => exact ⟨s, rfl, h⟩
  | some sb =>
    obtain ⟨t, hexec, hmirrors⟩ := h.setStandby htext seat scope sb
    rw [if_pos howner] at hmirrors
    refine ⟨t, ?_, hmirrors⟩
    rw [RehomingController.protect, Req.exec_liftM_bind]
    rw [Req.exec] at hexec
    simp only [EtcdRegistry.asRegistry, hexec]
    rfl

theorem Etcd.Mirrors.consider (h : s.Mirrors text (calls + 1) plane) (htext : text.ReadsNodes)
    (hrates : text.RatesCompare partialCmp value) (seat : Seat) (scope : PackedScope) :
    ∃ t, (RehomingController.consider partialCmp (EtcdRegistry.asRegistry text seat) seat.node
          scope.1).exec s =
        (.ok (plane.consider partialCmp seat.node scope.1).1, t) ∧
      t.Mirrors text calls (plane.consider partialCmp seat.node scope.1).2 := by
  have hcompare : Comparable partialCmp value plane.loads :=
    fun a ha b hb => hrates a.load b.load (h.readable a ha) (h.readable b hb)
  obtain ⟨live, hlive, hperm⟩ := h.liveNodes
  have hownerOf : ((EtcdRegistry.asRegistry text seat).ownerOf scope.1).exec s = _ :=
    h.ownerOf scope
  have hcanRehome : ((EtcdRegistry.asRegistry text seat).canRehome scope.1).exec s = _ :=
    h.canRehome scope
  have hstandbys : ((EtcdRegistry.asRegistry text seat).standbys scope.1).exec s = _ :=
    h.standbys htext scope
  have hliveNodes : (EtcdRegistry.asRegistry text seat).liveNodes.exec s = _ := hlive
  unfold RehomingController.consider ControlPlane.consider
  rw [exec_bind_ok hownerOf]
  simp only [InMemoryRegistry.ownerOf, Option.isSome_map]
  by_cases howner : (plane.registry.owners scope.1).isSome = true
  · rw [if_pos howner, if_pos howner]
    exact ⟨s, rfl, h.fewer⟩
  · rw [if_neg howner, if_neg howner, exec_bind_ok hcanRehome]
    cases hdisabled : plane.isRehomingDisabled scope.1 with
    | true => exact ⟨s, rfl, h.fewer⟩
    | false =>
      simp only [Bool.not_false, Bool.not_true, Bool.false_eq_true, if_false]
      rw [exec_bind_ok hstandbys, exec_bind_ok hliveNodes,
        chooseNewOwner_perm h.nodes hcompare (.refl _) hperm,
        chooseNewStandby_perm hcompare (.refl _) hperm]
      cases chooseNewOwner partialCmp (plane.standbys scope.1) plane.loads with
      | none => exact ⟨s, rfl, h.fewer⟩
      | some winner =>
        by_cases hnode : winner = seat.node
        · obtain ⟨t, hexec, hmirrors⟩ := h.claim seat.lease scope seat.node
          have hclaim : ((EtcdRegistry.asRegistry text seat).claim scope.1 seat.node).exec s = _ :=
            hexec
          simp only [hnode, ne_eq, not_true_eq_false, if_false]
          rw [exec_bind_ok hclaim]
          generalize hresult : plane.claim scope.1 seat.node = result at hmirrors
          obtain ⟨outcome, plane'⟩ := result
          cases outcome with
          | held by_ epoch => exact ⟨t, rfl, hmirrors⟩
          | claimed epoch =>
            obtain ⟨u, hprotect, hprotected⟩ := hmirrors.protect htext
              (owner_of_claimed hresult) (chooseNewStandby partialCmp [seat.node] plane.loads)
            refine ⟨u, ?_, ?_⟩
            · simp only []
              rw [exec_bind_ok hprotect]
              cases chooseNewStandby partialCmp [seat.node] plane.loads with
              | none => rfl
              | some sb => rfl
            · revert hprotected
              cases chooseNewStandby partialCmp [seat.node] plane.loads with
              | none => exact id
              | some sb => exact id
        · simp only [ne_eq, hnode, not_false_eq_true, if_true]
          exact ⟨s, rfl, h.fewer⟩

theorem Etcd.Mirrors.tick (htext : text.ReadsNodes)
    (hrates : text.RatesCompare partialCmp value) (seat : Seat) {candidates : List OwnedScope}
    (hfits : ∀ scope ∈ candidates, scope.Fits)
    (h : s.Mirrors text (calls + candidates.length) plane) :
    ((RehomingController.tick partialCmp (EtcdRegistry.asRegistry text seat) seat.node
          candidates).exec s).1 = (plane.tick partialCmp seat.node candidates).1 ∧
      ((RehomingController.tick partialCmp (EtcdRegistry.asRegistry text seat) seat.node
          candidates).exec s).2.Mirrors text calls
        (plane.tick partialCmp seat.node candidates).2 := by
  induction candidates generalizing s plane with
  | nil => exact ⟨rfl, h⟩
  | cons scope candidates ih =>
    obtain ⟨hscope, hrest⟩ := List.forall_mem_cons.1 hfits
    obtain ⟨t, hexec, hmirrors⟩ := h.consider htext hrates seat ⟨scope, hscope⟩
    obtain ⟨hanswers, hlast⟩ := ih hrest hmirrors
    rw [Req.exec] at hexec
    rw [RehomingController.tick, Prog.exec_bind, hexec, Prog.exec_bind, ControlPlane.tick_cons]
    exact ⟨congrArg _ hanswers, hlast⟩

end

/-! ## Runs -/

/-- What a node does with the registry: it calls it, or lets the controller look at its scopes. -/
inductive Duty (Rate : Type) where
  | call (call : PlaneCall Rate)
  | tick (candidates : List OwnedScope)

inductive DutyAnswer (Rate : Type) where
  | call (answer : Except RegistryError (PlaneAnswer Rate))
  | tick (outcomes : List RehomeOutcome)

namespace Duty

def Fits : Duty Rate → Prop
  | call c => c.Fits
  | tick candidates => ∀ scope ∈ candidates, scope.Fits

def IsReadable (text : PlaneText Rate) : Duty Rate → Prop
  | call c => c.IsReadable text
  | tick _ => True

/-- So many epochs it may take. -/
def claims : Duty Rate → Nat
  | call _ => 1
  | tick candidates => candidates.length

end Duty

def DutyAnswer.Agree : DutyAnswer Rate → DutyAnswer Rate → Prop
  | .call answer, .call answer' => PlaneAnswer.Agree answer answer'
  | .tick outcomes, .tick outcomes' => outcomes = outcomes'
  | _, _ => False

section

variable (partialCmp : Rate → Rate → Option Ordering) (wire : Wire)

def Etcd.machine (text : PlaneText Rate) : Machine Etcd (Seat × Duty Rate) (DutyAnswer Rate)
  | s, (seat, .call call) => ((call.etcd wire text seat).exec s).map .call id
  | s, (seat, .tick candidates) =>
    ((RehomingController.tick partialCmp (EtcdRegistry.asRegistry text seat) seat.node
      candidates).exec s).map .tick id

def ControlPlane.machine :
    Machine (ControlPlane Rate) (Seat × Duty Rate) (DutyAnswer Rate)
  | plane, (seat, .call call) => (plane.guarded wire (seat, call)).map .call id
  | plane, (seat, .tick candidates) =>
    ((RehomingController.tick partialCmp ControlPlane.asRegistry seat.node
      candidates).exec plane).map .tick id

variable {K : Type} [LinearOrder K] {partialCmp} {value : Rate → K}

theorem simulates_registry (htext : text.ReadsNodes)
    (hrates : text.RatesCompare partialCmp value) :
    Machine.Simulates (Etcd.machine partialCmp wire text)
      (ControlPlane.machine partialCmp wire) (fun d => d.2.claims)
      (fun d => d.2.Fits ∧ d.2.IsReadable text) DutyAnswer.Agree
      (fun calls s plane => s.Mirrors text calls plane) := by
  constructor
  rintro calls s plane ⟨seat, duty⟩ h ⟨hfits, hreadable⟩
  cases duty with
  | call call => exact h.call htext seat hfits hreadable
  | tick candidates =>
    have htick := Etcd.Mirrors.tick htext hrates seat hfits h
    rw [← ControlPlane.exec_tick] at htick
    exact htick

/-- Whatever nodes do one after another, etcd answers as the registry in memory would, and ends up
with what it would know. -/
theorem etcd_refines_registry (htext : text.ReadsNodes)
    (hrates : text.RatesCompare partialCmp value) {run : List (Seat × Duty Rate)}
    (hfits : ∀ d ∈ run, d.2.Fits) (hreadable : ∀ d ∈ run, d.2.IsReadable text)
    (hroom : (run.map (fun d => d.2.claims)).sum < 2 ^ 64) :
    List.Forall₂ DutyAnswer.Agree
        ((Etcd.machine partialCmp wire text).run Etcd.empty run).1
        ((ControlPlane.machine partialCmp wire).run ControlPlane.empty run).1 ∧
      ((Etcd.machine partialCmp wire text).run Etcd.empty run).2.Mirrors text 0
        ((ControlPlane.machine partialCmp wire).run ControlPlane.empty run).2 := by
  apply (simulates_registry wire htext hrates).run
  · exact fun d hd => ⟨hfits d hd, hreadable d hd⟩
  · rw [Nat.zero_add]
    exact Etcd.mirrors_empty hroom

end

end

namespace Agora

theorem ratesCompare_planeText :
    planeText.RatesCompare (fun a b => some (compare a b)) id := fun _ _ _ _ => rfl

/-- The founder's node lists an heir, which no other node may; then it leaves. -/
def handover : List (Seat × Duty Nat) :=
  let scope : OwnedScope := .server ⟨1, 7⟩
  [(⟨1, 100⟩, .call (.publishKey 1 "ab")), (⟨1, 100⟩, .call (.claim scope 1)),
    (⟨3, 300⟩, .call (.setStandby scope 3)), (⟨1, 100⟩, .call (.setStandby scope 2)),
    (⟨2, 200⟩, .call (.reportLoad 2 idle)), (⟨1, 100⟩, .call (.release scope 1)),
    (⟨3, 300⟩, .tick [scope]), (⟨2, 200⟩, .tick [scope]), (⟨3, 300⟩, .call (.ownerOf scope)),
    (⟨3, 300⟩, .call (.publicKey 1)), (⟨3, 300⟩, .call .liveNodes)]

theorem handover_in_etcd :
    List.Forall₂ DutyAnswer.Agree
        ((Etcd.machine (fun a b => some (compare a b)) (wire []) planeText).run Etcd.empty
          handover).1
        ((ControlPlane.machine (fun a b => some (compare a b)) (wire [])).run ControlPlane.empty
          handover).1 ∧
      ((Etcd.machine (fun a b => some (compare a b)) (wire []) planeText).run Etcd.empty
          handover).2.Mirrors planeText 0
        ((ControlPlane.machine (fun a b => some (compare a b)) (wire [])).run ControlPlane.empty
          handover).2 := by
  have hfits : (7 : Nat) < 2 ^ 48 := by decide
  apply etcd_refines_registry (wire []) readsNodes_planeText ratesCompare_planeText
  · intro d hd
    simp only [handover, List.mem_cons, List.not_mem_nil, or_false] at hd
    rcases hd with rfl | rfl | rfl | rfl | rfl | rfl | rfl | rfl | rfl | rfl | rfl
    all_goals first
      | exact hfits
      | trivial
      | exact fun scope hscope => by rw [List.mem_singleton.1 hscope]; exact hfits
  · intro d hd
    simp only [handover, List.mem_cons, List.not_mem_nil, or_false] at hd
    rcases hd with rfl | rfl | rfl | rfl | rfl | rfl | rfl | rfl | rfl | rfl | rfl
    all_goals trivial
  · decide

end Agora

end Democrachat.Federation
