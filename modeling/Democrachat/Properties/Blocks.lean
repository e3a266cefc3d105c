import Democrachat.Library.Runs
import Democrachat.Properties.Consent
import Democrachat.System.Cluster

/-!
# Blocks

A block commits on the homes that its two users have at that time.  Whoever owns a home
later decides by his own copy.
-/

namespace Democrachat

open Federation

/-- A block silences the two. -/
def Inner.hasBlock (s : Inner) (a b : UserId) : Bool := s.blocks.any (fun x => x.isBetween a b)

theorem Block.isBetween_comm (x : Block) (a b : UserId) : x.isBetween a b = x.isBetween b a := by
  simp [Block.isBetween, Bool.or_comm]

theorem Inner.hasBlock_comm (s : Inner) (a b : UserId) : s.hasBlock a b = s.hasBlock b a := by
  simp only [hasBlock, Block.isBetween_comm _ a b]

theorem Inner.hasBlock_mono {s t : Inner} {a b : UserId} (h : s.blocks ⊆ t.blocks)
    (hs : s.hasBlock a b = true) : t.hasBlock a b = true := by
  obtain ⟨x, hx, hbetween⟩ := List.any_eq_true.1 hs
  exact List.any_eq_true.2 ⟨x, h hx, hbetween⟩

/-- Where there is a block, no direct message gets through. -/
theorem accepts_sendDm_of_hasBlock {s : Inner} {sender recipient : UserId}
    (h : s.hasBlock sender recipient = true) (sealedForRecipient sealedForSender : String) :
    (Command.sendDm sender recipient sealedForRecipient sealedForSender).accepts s = false := by
  obtain ⟨x, hx, hbetween⟩ := List.any_eq_true.1 h
  have hinvolving : x ∈ s.blocksInvolving recipient := by
    apply List.mem_filter.2
    refine ⟨hx, ?_⟩
    simp only [Block.isBetween, Bool.or_eq_true, Bool.and_eq_true, beq_iff_eq] at hbetween ⊢
    rcases hbetween with ⟨-, hblocked⟩ | ⟨hblocker, -⟩
    · exact .inr hblocked
    · exact .inl hblocker
  have hany : (s.blocksInvolving recipient).any (fun x => x.isBetween sender recipient) = true :=
    List.any_eq_true.2 ⟨x, hinvolving, hbetween⟩
  simp [Command.accepts, canDm, hany]

/-- A block that is committed is there. -/
theorem hasBlock_effect (a b : UserId) (now : Timestamp) (s : Inner) :
    ((Command.block a b).effect now s).hasBlock a b = true := by
  simp only [Command.effect, Inner.addBlock]
  split
  next hany =>
    obtain ⟨x, hx, hsame⟩ := List.any_eq_true.1 hany
    exact List.any_eq_true.2 ⟨x, hx, by rw [Block.isBetween, hsame, Bool.true_or]⟩
  next =>
    apply List.any_eq_true.2
    exact ⟨_, List.mem_append_right _ (List.mem_singleton_self _), by simp [Block.isBetween]⟩

namespace Federation

open Library

theorem blocks_subset_run (cmd : Command) (w : World) :
    w.store.blocks ⊆ (cmd.run.exec w).2.store.blocks := by
  cases haccepts : cmd.accepts w.store with
  | true =>
    rw [Command.run_of_accepts haccepts]
    exact blocks_subset_effect cmd w.now w.store
  | false =>
    obtain ⟨e, hrun⟩ := Command.run_of_refused haccepts
    rw [hrun]
    exact List.Subset.refl _

section

variable {services : Services} {wire : Wire} {text : CommandText} {registry : Registry}
  {node : NodeId}

theorem blocks_subset_execute (signed : SignedCommand) (now : Int64) (w : World) :
    w.store.blocks ⊆ ((execute wire text registry node signed now).exec w).2.store.blocks := by
  rcases hrun : (execute wire text registry node signed now).exec w with ⟨e | u, w'⟩
  · rw [(Attested.execute_error wire text node hrun).blocks]
    exact List.Subset.refl _
  · obtain ⟨cmd, -, -, -, -, -, rfl⟩ := execute_eq_ok.1 hrun
    exact blocks_subset_effect cmd w.now (admitting signed now w.store)

theorem blocks_subset_ingest (peer : NodeId) (events : List ChangeEvent) (s : Inner) :
    s.blocks ⊆ (Federation.ingest wire registry peer events s).2.blocks := by
  rw [ingest_store]
  apply drain_invariant wire registry (fun t => s.blocks ⊆ t.blocks) events _
    (p := ⟨s.cursors peer, s⟩) (List.Subset.refl _)
  intro event _ part t _ ht
  exact List.Subset.trans ht blocks_subset_applyIncoming

/-- No node forgets a block. -/
theorem blocks_subset_activity (activity : Activity) (w : World) :
    w.store.blocks ⊆ (activity.run services wire text registry node w).store.blocks := by
  cases activity with
  | operate op =>
    rw [Activity.run, (civil_step services w op).sameSocial.blocks]
    exact List.Subset.refl _
  | setDmPolicy handle policy =>
    have hcivil := (Touches.of_writesOnly (touches_setDmPolicy handle policy) w).civil rfl
    rw [Activity.run, hcivil.sameSocial.blocks]
    exact List.Subset.refl _
  | socialize op =>
    rw [Activity.run, op.step_eq]
    split
    next cmd _ => exact blocks_subset_run cmd w
    next => exact List.Subset.refl _
  | perform cmd => exact blocks_subset_run cmd w
  | execute signed now => exact blocks_subset_execute signed now w
  | ingest peer events => exact blocks_subset_ingest peer events w.store

theorem hasBlock_commit {router : WriteRouter} {fates : NodeId → Fate} {a b : UserId}
    {signed : SignedCommand} {owner : NodeId} {w w' : World}
    (hparse : text.parse signed.body = some (.block a b))
    (h : router.commit wire text fates (.block a b) signed owner w = (.ok (), w')) :
    w'.store.hasBlock a b = true := by
  unfold WriteRouter.commit at h
  split at h
  next =>
    rw [(Command.run_eq_ok.1 h).2]
    exact hasBlock_effect a b w.now w.store
  next =>
    split at h
    next =>
      unfold WriteRouter.forward at h
      cases hfate : fates owner with
      | unreachable message =>
        rw [hfate] at h
        cases h
      | answerLost message =>
        rw [hfate] at h
        cases h
      | answered =>
        rcases hexec : (execute wire text router.registry owner signed (unixNow w)).exec w with
          ⟨result, w''⟩
        rw [hfate, hexec] at h
        obtain ⟨hanswer, rfl⟩ := Prod.mk.inj h
        obtain rfl := answerOf_eq_ok.1 hanswer
        obtain ⟨cmd, hverified, -, -, -, -, rfl⟩ := execute_eq_ok.1 hexec
        obtain rfl := Option.some.inj (hparse.symm.trans (verifySigned_eq_ok.1 hverified).1)
        exact hasBlock_effect a b w.now (admitting signed (unixNow w) w.store)
    next => cases h

end

/-! ## The submission and the homes -/

namespace Submission

/-- The owners that the submission knows and that have not committed. -/
def pending : Submission → List NodeId
  | .resolving _ owners | .committing _ owners => owners
  | _ => []

/-- The submission rests on whoever owns the scope. -/
def restsOn (scope : OwnedScope) : Submission → Bool
  | .idle => false
  | .resolving scopes _ => scope ∉ scopes
  | .committing _ _ => true
  | .returned result => result.isOk

end Submission

namespace Cluster

section

variable {Rate : Type} (partialCmp : Rate → Rate → Option Ordering) (services : Services)
  (wire : Wire) (text : CommandText) (writer : Writer) (a b : UserId) (c : Cluster Rate)

/-- The scope that changes hands, and who has it then. -/
def takes : ClusterStep Rate → Option (OwnedScope × NodeId)
  | .claim scope node => if (c.plane.registry.owners scope).isNone then some (scope, node) else none
  | .consider node scope =>
    if c.plane.promotes partialCmp node scope then some (scope, node) else none
  | _ => none

/-- The node has the block, or is going to commit it before the submission succeeds. -/
def Stands (node : NodeId) : Prop :=
  node ∈ c.submission.pending ∨ (c.world node).store.hasBlock a b = true

/-- Once the submission rests on a home of the two, nobody takes it over without the block. -/
def Kept (step : ClusterStep Rate) : Prop :=
  ∀ scope node, c.takes partialCmp step = some (scope, node) →
    scope = .userHome a ∨ scope = .userHome b → c.submission.restsOn scope = true →
      c.Stands a b node

instance decidableKept (step : ClusterStep Rate) : Decidable (c.Kept partialCmp a b step) :=
  match h : c.takes partialCmp step with
  | none => .isTrue (fun _ _ htakes => nomatch h.symm.trans htakes)
  | some (scope, node) =>
    decidable_of_iff
      (scope = .userHome a ∨ scope = .userHome b → c.submission.restsOn scope = true →
        node ∈ c.submission.pending ∨ (c.world node).store.hasBlock a b = true) (by
      constructor
      · intro hkept scope' node' htakes
        obtain ⟨rfl, rfl⟩ := Prod.mk.inj (Option.some.inj (h.symm.trans htakes))
        exact hkept
      · exact fun hkept => hkept scope node h)

/-- The owner of the sender's home refuses whatever one of the two sends to the other, his own
users' as well as what is forwarded to him. -/
def Silenced : Prop :=
  ∀ sender recipient, (sender = a ∧ recipient = b ∨ sender = b ∧ recipient = a) →
    ∀ node epoch, c.plane.registry.owners (.userHome sender) = some (node, epoch) →
      ∀ sealedForRecipient sealedForSender,
        ((Command.sendDm sender recipient sealedForRecipient sealedForSender).run.exec
          (c.world node)).1.isOk = false ∧
        ∀ signed now,
          verifySigned wire text (c.plane.registry.answers wire) signed =
              .ok (.sendDm sender recipient sealedForRecipient sealedForSender) →
            ((execute wire text (c.plane.registry.answers wire) node signed now).exec
              (c.world node)).1.isOk = false

/-- The homes that the submission rests on are where the block is or is going to be. -/
structure IsKept : Prop where
  stands : ∀ scope, scope = .userHome a ∨ scope = .userHome b →
    c.submission.restsOn scope = true →
      ∀ node epoch, c.plane.registry.owners scope = some (node, epoch) → c.Stands a b node
  signs : ∀ signed owners, c.submission = .committing signed owners →
    signed.body = text.render (.block a b)

variable {partialCmp services wire text writer a b c}

/-- Whoever owns a scope after a step has owned it before or takes it. -/
theorem owners_step {step : ClusterStep Rate} {scope : OwnedScope} {node : NodeId} {epoch : Nat}
    (h : (c.step partialCmp services wire text writer step).plane.registry.owners scope =
      some (node, epoch)) :
    c.plane.registry.owners scope = some (node, epoch) ∨
      c.takes partialCmp step = some (scope, node) := by
  have hclaim : ∀ scope' node',
      (c.plane.registry.claim scope' node').2.owners scope = some (node, epoch) →
        c.plane.registry.owners scope = some (node, epoch) ∨
          c.plane.registry.owners scope' = none ∧ scope' = scope ∧ node' = node := by
    intro scope' node' h
    rcases c.plane.registry.claim_cases scope' node' with hsame | ⟨hnone, howners, -⟩
    · rw [hsame] at h
      exact .inl h
    · rw [howners, Function.update_apply] at h
      split at h
      next hscope =>
        right
        exact ⟨hnone, hscope.symm, (Prod.mk.inj (Option.some.inj h)).1⟩
      next => exact .inl h
  cases step with
  | act node' activity => exact .inl h
  | setRehoming scope' enabled => exact .inl h
  | reportLoad node' load => exact .inl h
  | setStandby scope' node' =>
    left
    rwa [Cluster.step, ControlPlane.setStandby_registry] at h
  | publishKey node' publicHex =>
    left
    simp only [Cluster.step, InMemoryRegistry.publishKey] at h
    split at h
    next =>
      split at h
      next => exact h
      next => exact h
    next => exact h
  | release scope' node' =>
    left
    rcases c.plane.registry.release_owners scope' scope node' with hsame | hnone
    · exact hsame.symm.trans h
    · cases hnone.symm.trans h
  | claim scope' node' =>
    rcases hclaim scope' node' h with hold | ⟨hnone, rfl, rfl⟩
    · exact .inl hold
    · right
      rw [takes, hnone]
      rfl
  | consider node' scope' =>
    rw [Cluster.step, ControlPlane.consider_registry] at h
    split at h
    next hpromotes =>
      rcases hclaim scope' node' h with hold | ⟨hnone, rfl, rfl⟩
      · exact .inl hold
      · right
        rw [takes, if_pos hpromotes]
    next => exact .inl h
  | advance fates nonce =>
    left
    rwa [Cluster.step, advance_plane] at h

theorem Stands.act {node node' : NodeId} (h : c.Stands a b node) (activity : Activity) :
    (c.step partialCmp services wire text writer (.act node' activity)).Stands a b node := by
  rcases h with hpending | hblock
  · exact .inl hpending
  · right
    change (Function.update c.world node' _ node).store.hasBlock a b = true
    rw [Function.update_apply]
    split
    next hnode =>
      subst hnode
      exact Inner.hasBlock_mono (blocks_subset_activity activity _) hblock
    next => exact hblock

/-- Nothing rests on a submission that has failed. -/
theorem isKept_of_failed {e : ForwardError} (h : c.submission = .returned (.error e)) :
    c.IsKept text a b where
  stands := by
    intro scope _ hrests
    rw [h] at hrests
    cases hrests
  signs := by
    intro signed owners hcommitting
    rw [h] at hcommitting
    cases hcommitting

/-- The owner of one more scope is known. -/
theorem IsKept.resolve (hc : c.IsKept text a b) {scope : OwnedScope} {scopes : List OwnedScope}
    {owners : List NodeId} {o : Ownership}
    (hsubmission : c.submission = .resolving (scope :: scopes) owners)
    (howner : (c.plane.registry.answers wire).ownerOf scope = .ok (some o)) :
    (c.setSubmission (.resolving scopes
      (if o.owner ∈ owners then owners else owners ++ [o.owner]))).IsKept text a b where
  stands := by
    intro scope' hhome hrests node epoch hnode
    have hknown : o.owner ∈ (if o.owner ∈ owners then owners else owners ++ [o.owner]) := by
      split
      next hmem => exact hmem
      next => exact List.mem_append_right _ (List.mem_singleton_self _)
    have hgrows : owners ⊆ (if o.owner ∈ owners then owners else owners ++ [o.owner]) := by
      split
      next => exact List.Subset.refl _
      next => exact List.subset_append_left _ _
    by_cases hscope : scope' = scope
    · left
      have hsame : c.plane.registry.owners scope = some (o.owner, o.epoch) := by
        obtain ⟨owner, hfound, hrecord⟩ := Option.map_eq_some_iff.1 (Except.ok.inj howner)
        rw [hfound, ← hrecord]
      rw [hscope] at hnode
      obtain ⟨rfl, -⟩ := Prod.mk.inj (Option.some.inj (hnode.symm.trans hsame))
      exact hknown
    · have hrests' : c.submission.restsOn scope' = true := by
        rw [hsubmission]
        have hnew : scope' ∉ scopes := of_decide_eq_true hrests
        simp [Submission.restsOn, hscope, hnew]
      rcases hc.stands scope' hhome hrests' node epoch hnode with hpending | hblock
      · rw [hsubmission] at hpending
        exact .inl (hgrows hpending)
      · exact .inr hblock
  signs := by
    intro signed owners' hcommitting
    cases hcommitting

/-- One more owner has committed. -/
theorem IsKept.commit (hc : c.IsKept text a b) {signed : SignedCommand} {owner : NodeId}
    {owners : List NodeId} {fates : NodeId → Fate} {w : World}
    (hparse : text.parse (text.render (.block a b)) = some (.block a b))
    (hsubmission : c.submission = .committing signed (owner :: owners))
    (hcommit : (c.router wire writer).commit wire text fates (.block a b) signed owner
      (c.world owner) = (.ok (), w)) :
    ((c.setWorld owner w).setSubmission (.committing signed owners)).IsKept text a b where
  stands := by
    intro scope hhome _ node epoch hnode
    have hrests : c.submission.restsOn scope = true := by
      rw [hsubmission]
      rfl
    have hhere : w.store.hasBlock a b = true := by
      have hbody := hc.signs _ _ hsubmission
      exact hasBlock_commit (by rw [hbody]; exact hparse) hcommit
    by_cases howner : node = owner
    · right
      change (Function.update c.world owner w node).store.hasBlock a b = true
      rw [howner, Function.update_self]
      exact hhere
    · rcases hc.stands scope hhome hrests node epoch hnode with hpending | hblock
      · left
        rw [hsubmission] at hpending
        exact (List.mem_cons.1 hpending).resolve_left howner
      · right
        change (Function.update c.world owner w node).store.hasBlock a b = true
        rwa [Function.update_of_ne howner]
  signs := by
    intro signed' owners' hcommitting
    obtain ⟨rfl, -⟩ := Submission.committing.inj hcommitting
    exact hc.signs _ _ hsubmission

/-- A step that leaves the submission where it is. -/
theorem IsKept.of_step (hc : c.IsKept text a b) {step : ClusterStep Rate}
    (hkept : c.Kept partialCmp a b step)
    (hsubmission : (c.step partialCmp services wire text writer step).submission = c.submission)
    (hstands : ∀ node, c.Stands a b node →
      (c.step partialCmp services wire text writer step).Stands a b node) :
    (c.step partialCmp services wire text writer step).IsKept text a b where
  stands := by
    intro scope hhome hrests node epoch hnode
    rw [hsubmission] at hrests
    apply hstands
    rcases owners_step hnode with hold | htakes
    · exact hc.stands scope hhome hrests node epoch hold
    · exact hkept scope node htakes hhome hrests
  signs := by
    intro signed owners hcommitting
    rw [hsubmission] at hcommitting
    exact hc.signs signed owners hcommitting

section

variable (hcmd : writer.cmd = .block a b)
  (hparse : text.parse (text.render (.block a b)) = some (.block a b))

include hcmd hparse

theorem IsKept.advance (hc : c.IsKept text a b) (fates : NodeId → Fate) (nonce : String) :
    (c.advance wire text writer fates nonce).IsKept text a b := by
  unfold Cluster.advance
  rw [hcmd]
  split
  next hidle =>
    change (c.setSubmission (.resolving [.userHome a, .userHome b] [])).IsKept text a b
    constructor
    · rintro scope (rfl | rfl) hrests
      · simp [setSubmission, Submission.restsOn] at hrests
      · simp [setSubmission, Submission.restsOn] at hrests
    · intro signed owners hcommitting
      cases hcommitting
  next owners hresolved =>
    constructor
    · intro scope hhome _ node epoch hnode
      have hstands := hc.stands scope hhome (by rw [hresolved]; rfl) node epoch hnode
      rwa [Stands, hresolved] at hstands
    · intro signed owners' hcommitting
      obtain ⟨rfl, -⟩ := Submission.committing.inj hcommitting
      rfl
  next scope scopes owners hresolving =>
    split
    next => exact isKept_of_failed rfl
    next => exact isKept_of_failed rfl
    next o howner => exact hc.resolve hresolving howner
  next signed hcommitted =>
    constructor
    · intro scope hhome _ node epoch hnode
      have hstands := hc.stands scope hhome (by rw [hcommitted]; rfl) node epoch hnode
      rwa [Stands, hcommitted] at hstands
    · intro signed' owners' hcommitting
      cases hcommitting
  next signed owner owners hcommitting =>
    split
    next w hcommit => exact hc.commit hparse hcommitting hcommit
    next => exact isKept_of_failed rfl
  next => exact hc

theorem IsKept.step (hc : c.IsKept text a b) {step : ClusterStep Rate}
    (hkept : c.Kept partialCmp a b step) :
    (c.step partialCmp services wire text writer step).IsKept text a b := by
  cases step with
  | advance fates nonce => exact hc.advance hcmd hparse fates nonce
  | act node activity => exact hc.of_step hkept rfl (fun _ h => h.act activity)
  | _ => exact hc.of_step hkept rfl (fun _ h => h)

end

theorem IsKept.silenced (hc : c.IsKept text a b) (hreturned : c.submission = .returned (.ok ())) :
    c.Silenced wire text a b := by
  intro sender recipient hpair node epoch hnode sealedForRecipient sealedForSender
  have hhome : OwnedScope.userHome sender = .userHome a ∨
      OwnedScope.userHome sender = .userHome b := by
    rcases hpair with ⟨rfl, -⟩ | ⟨rfl, -⟩
    · exact .inl rfl
    · exact .inr rfl
  have hblock : (c.world node).store.hasBlock sender recipient = true := by
    have hstands := hc.stands _ hhome (by rw [hreturned]; rfl) node epoch hnode
    rw [Stands, hreturned] at hstands
    have hhas := hstands.resolve_left List.not_mem_nil
    rcases hpair with ⟨rfl, rfl⟩ | ⟨rfl, rfl⟩
    · exact hhas
    · rwa [Inner.hasBlock_comm]
  constructor
  · have hrefused := accepts_sendDm_of_hasBlock hblock sealedForRecipient sealedForSender
    obtain ⟨e, hrun⟩ := Command.run_of_refused hrefused
    rw [hrun]
    rfl
  · intro signed now hverified
    rcases hrun : (execute wire text (c.plane.registry.answers wire) node signed now).exec
      (c.world node) with ⟨e | u, w⟩
    · rfl
    · obtain ⟨cmd, hverified', -, -, -, haccepts, -⟩ := execute_eq_ok.1 hrun
      obtain rfl := Except.ok.inj (hverified.symm.trans hverified')
      have hthere : (admitting signed now (c.world node).store).hasBlock sender recipient = true :=
        hblock
      rw [accepts_sendDm_of_hasBlock hthere] at haccepts
      cases haccepts

end

end Cluster

/-- Where nobody takes a home of the two over without the block, once the submission rests on
that home, a block that has been accepted is kept by every later owner. -/
theorem block_holds_of_kept {Rate : Type} (partialCmp : Rate → Rate → Option Ordering)
    (services : Services) (wire : Wire) (text : CommandText) {a b : UserId}
    (hparse : text.parse (text.render (.block a b)) = some (.block a b)) {writer : Writer}
    (hcmd : writer.cmd = .block a b) {c : Cluster Rate} (hidle : c.submission = .idle)
    {steps : List (ClusterStep Rate)}
    (hkept : Along (Cluster.step partialCmp services wire text writer)
      (Cluster.Kept partialCmp a b) c steps) :
    ∀ done, done <+: steps →
      (done.foldl (Cluster.step partialCmp services wire text writer) c).submission =
          .returned (.ok ()) →
        (done.foldl (Cluster.step partialCmp services wire text writer) c).Silenced
          wire text a b := by
  rintro done ⟨rest, rfl⟩ hreturned
  have hstart : c.IsKept text a b := by
    constructor
    · intro scope _ hrests
      rw [hidle] at hrests
      cases hrests
    · intro signed owners hcommitting
      rw [hidle] at hcommitting
      cases hcommitting
  have hdone := (along_append.1 hkept).1.invariant
    (fun _ _ hs hstep => Cluster.IsKept.step hcmd hparse hs hstep) hstart
  exact hdone.silenced hreturned

namespace Agora

/-- Node 1 blocks Bob for Ann. -/
def blocker : Writer := ⟨1, keypair 1, fun _ => true, .block ann bob⟩

/-- Both are at home on node 1; node 3 replicates Ann's home and stands by. -/
def neighbours : Cluster Nat where
  plane := {
    registry := homes
    loads := [⟨3, ⟨0, 0⟩⟩]
    standbys := fun _ => [3]
    isRehomingDisabled := fun _ => false }
  world := fun _ => guestbook
  submission := .idle

def reachable : NodeId → Fate := fun _ => .answered

/-- The block commits on node 1. -/
def blockingRun : List (ClusterStep Nat) := List.replicate 6 (.advance reachable "1-0")

/-- Node 1 loses its lease and claims Ann's home again. -/
def resumed : List (ClusterStep Nat) :=
  blockingRun ++ [.release (.userHome ann) 1, .claim (.userHome ann) 1]

/-- Node 3 takes Ann's home over and has not heard of the block. -/
def failedOver : List (ClusterStep Nat) :=
  blockingRun ++ [.release (.userHome ann) 1, .consider 3 (.userHome ann)]

def compareRates (a b : Nat) : Option Ordering := some (compare a b)

theorem resumed_kept :
    Along (Cluster.step compareRates Agora.services (wire []) (commandText [.block ann bob])
      blocker) (Cluster.Kept compareRates ann bob) neighbours resumed := by
  decide +kernel

theorem resumed_returned :
    (resumed.foldl (Cluster.step compareRates Agora.services (wire [])
      (commandText [.block ann bob]) blocker) neighbours).submission = .returned (.ok ()) := by
  rfl

theorem failedOver_returned :
    (failedOver.foldl (Cluster.step compareRates Agora.services (wire [])
      (commandText [.block ann bob]) blocker) neighbours).submission = .returned (.ok ()) := by
  rfl

end Agora

theorem block_holds_resumed :
    (Agora.resumed.foldl (Cluster.step Agora.compareRates Agora.services (Agora.wire [])
        (Agora.commandText [.block Agora.ann Agora.bob]) Agora.blocker)
      Agora.neighbours).Silenced (Agora.wire []) (Agora.commandText [.block Agora.ann Agora.bob])
        Agora.ann Agora.bob :=
  block_holds_of_kept Agora.compareRates Agora.services (Agora.wire [])
    (Agora.commandText [.block Agora.ann Agora.bob]) (Agora.parse_commandText _) rfl rfl
    Agora.resumed_kept _ (List.prefix_refl _) Agora.resumed_returned

/-- The replica that is promoted lets Ann write to Bob. -/
theorem block_lost_in_failover :
    ¬ ∀ (c : Cluster Nat) (steps : List (ClusterStep Nat)), c.submission = .idle →
      ∀ done, done <+: steps →
        (done.foldl (Cluster.step Agora.compareRates Agora.services (Agora.wire [])
            (Agora.commandText [.block Agora.ann Agora.bob]) Agora.blocker) c).submission =
          .returned (.ok ()) →
        (done.foldl (Cluster.step Agora.compareRates Agora.services (Agora.wire [])
            (Agora.commandText [.block Agora.ann Agora.bob]) Agora.blocker) c).Silenced
          (Agora.wire []) (Agora.commandText [.block Agora.ann Agora.bob]) Agora.ann Agora.bob := by
  intro hall
  have hsilenced := hall Agora.neighbours Agora.failedOver rfl _ (List.prefix_refl _)
    Agora.failedOver_returned
  have hrefused := (hsilenced Agora.ann Agora.bob (.inl ⟨rfl, rfl⟩) 3 2 (by decide +kernel)
    "x" "y").1
  have haccepted : ((Command.sendDm Agora.ann Agora.bob "x" "y").run.exec
      ((Agora.failedOver.foldl (Cluster.step Agora.compareRates Agora.services (Agora.wire [])
        (Agora.commandText [.block Agora.ann Agora.bob]) Agora.blocker)
          Agora.neighbours).world 3)).1.isOk = true := by
    decide +kernel
  rw [haccepted] at hrefused
  cases hrefused

end Federation

end Democrachat
