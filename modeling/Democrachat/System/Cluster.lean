import Democrachat.Federation.Rehoming
import Democrachat.Federation.WriteRouter
import Democrachat.System.Social

/-!
# The cluster

All nodes with their stores, the control plane, and one submission of a command.  The
submission is taken apart into the calls that it makes: one look at the control plane for
every scope, then one commit at every owner.  Between any two of them everybody may act.
-/

namespace Democrachat.Federation

open Library

/-! ## What a node does -/

inductive Activity where
  | operate (op : Op)
  | setDmPolicy (handle : String) (policy : DmPolicy)
  | socialize (op : SocialOp)
  /-- A command that the node submits and commits on itself. -/
  | perform (cmd : Command)
  | execute (signed : SignedCommand) (now : Int64)
  | ingest (peer : NodeId) (events : List ChangeEvent)

/-- Who submits which command, and the owners to whose endpoint there is a client. -/
structure Writer where
  node : NodeId
  keypair : NodeKeypair
  hasPeer : NodeId → Bool
  cmd : Command

/-- How far the submission has come. -/
inductive Submission where
  | idle
  | resolving (scopes : List OwnedScope) (owners : List NodeId)
  | committing (signed : SignedCommand) (owners : List NodeId)
  | returned (result : Except ForwardError Unit)

structure Cluster (Rate : Type) where
  plane : ControlPlane Rate
  world : Fleet
  submission : Submission

inductive ClusterStep (Rate : Type) where
  | act (node : NodeId) (activity : Activity)
  | consider (node : NodeId) (scope : OwnedScope)
  | claim (scope : OwnedScope) (node : NodeId)
  | release (scope : OwnedScope) (node : NodeId)
  | setStandby (scope : OwnedScope) (node : NodeId)
  | setRehoming (scope : OwnedScope) (enabled : Bool)
  | reportLoad (node : NodeId) (load : NodeLoad Rate)
  | publishKey (node : NodeId) (publicHex : String)
  /-- The submission makes its next call. -/
  | advance (fates : NodeId → Fate) (nonce : String)

section

variable {Rate : Type} (partialCmp : Rate → Rate → Option Ordering) (services : Services)
  (wire : Wire) (text : CommandText) (writer : Writer)

def Activity.run (registry : Registry) (node : NodeId) (w : World) : Activity → World
  | operate op => services.step w op
  | setDmPolicy handle policy => ((Democrachat.setDmPolicy handle policy).exec w).2
  | socialize op => op.step w
  | perform cmd => (cmd.run.exec w).2
  | execute signed now => ((Federation.execute wire text registry node signed now).exec w).2
  | ingest peer events => w.mapStore (fun s => (Federation.ingest wire registry peer events s).2)

namespace Cluster

variable (c : Cluster Rate)

/-- The router of the submission, with the answers that the control plane gives now. -/
def router : WriteRouter :=
  ⟨writer.node, c.plane.registry.answers wire, writer.keypair, writer.hasPeer⟩

def setWorld (node : NodeId) (w : World) : Cluster Rate :=
  { c with world := Function.update c.world node w }

def setSubmission (submission : Submission) : Cluster Rate := { c with submission }

def advance (fates : NodeId → Fate) (nonce : String) : Cluster Rate :=
  match c.submission with
  | .idle =>
    match writer.cmd.targetScopes (storeResolver (c.world writer.node).store) with
    | [] => c.setSubmission (.returned (.error .unowned))
    | scopes => c.setSubmission (.resolving scopes [])
  | .resolving [] owners =>
    c.setSubmission (.committing
      (writer.cmd.signAt wire text writer.keypair (unixNow (c.world writer.node)) nonce) owners)
  | .resolving (scope :: scopes) owners =>
    match (c.plane.registry.answers wire).ownerOf scope with
    | .error e => c.setSubmission (.returned (.error (.ownerUnreachable e.message)))
    | .ok none => c.setSubmission (.returned (.error .unowned))
    | .ok (some o) =>
      c.setSubmission (.resolving scopes
        (if o.owner ∈ owners then owners else owners ++ [o.owner]))
  | .committing _ [] => c.setSubmission (.returned (.ok ()))
  | .committing signed (owner :: owners) =>
    match (c.router wire writer).commit wire text fates writer.cmd signed owner (c.world owner) with
    | (.ok (), w) => (c.setWorld owner w).setSubmission (.committing signed owners)
    | (.error e, w) => (c.setWorld owner w).setSubmission (.returned (.error e))
  | .returned _ => c

def step : ClusterStep Rate → Cluster Rate
  | .act node activity =>
    c.setWorld node
      (activity.run services wire text (c.plane.registry.answers wire) node (c.world node))
  | .consider node scope => { c with plane := (c.plane.consider partialCmp node scope).2 }
  | .claim scope node => { c with plane := (c.plane.claim scope node).2 }
  | .release scope node => { c with plane := c.plane.release scope node }
  | .setStandby scope node => { c with plane := c.plane.setStandby scope node }
  | .setRehoming scope enabled => { c with plane := c.plane.setRehoming scope enabled }
  | .reportLoad node load => { c with plane := c.plane.reportLoad node load }
  | .publishKey node publicHex =>
    { c with
      plane := { c.plane with registry := (c.plane.registry.publishKey node publicHex).2 } }
  | .advance fates nonce => c.advance wire text writer fates nonce

/-- A submission asks the control plane and leaves it as it is. -/
theorem advance_plane (fates : NodeId → Fate) (nonce : String) :
    (advance wire text writer c fates nonce).plane = c.plane := by
  unfold advance
  split
  next =>
    split
    next => rfl
    next => rfl
  next => rfl
  next =>
    split
    next => rfl
    next => rfl
    next => rfl
  next => rfl
  next =>
    split
    next => rfl
    next => rfl
  next => rfl

/-! ## Undisturbed -/

variable {c} (fates : NodeId → Fate) (nonce : String)

/-- The submission is alone from where it stands: after some calls it is where it was going. -/
def Reaches (c c' : Cluster Rate) : Prop :=
  ∃ n, (fun c => advance wire text writer c fates nonce)^[n] c = c'

variable {wire text writer fates nonce}

theorem Reaches.one {c' : Cluster Rate} (h : advance wire text writer c fates nonce = c') :
    Reaches wire text writer fates nonce c c' := ⟨1, h⟩

theorem Reaches.next {c' c'' : Cluster Rate} (h : advance wire text writer c fates nonce = c')
    (h' : Reaches wire text writer fates nonce c' c'') :
    Reaches wire text writer fates nonce c c'' := by
  obtain ⟨n, hn⟩ := h'
  refine ⟨n + 1, ?_⟩
  rw [Function.iterate_succ_apply, h]
  exact hn

theorem Reaches.trans {c' c'' : Cluster Rate} (h : Reaches wire text writer fates nonce c c')
    (h' : Reaches wire text writer fates nonce c' c'') :
    Reaches wire text writer fates nonce c c'' := by
  obtain ⟨n, hn⟩ := h
  obtain ⟨m, hm⟩ := h'
  refine ⟨m + n, ?_⟩
  rw [Function.iterate_add_apply, hn]
  exact hm

theorem reaches_resolved (c : Cluster Rate) (scopes : List OwnedScope) (owners : List NodeId) :
    Reaches wire text writer fates nonce (c.setSubmission (.resolving scopes owners))
      (c.setSubmission
        (match WriteRouter.resolveOwners (c.plane.registry.answers wire) scopes owners with
        | .error e => .returned (.error e)
        | .ok owners =>
          .committing
            (writer.cmd.signAt wire text writer.keypair (unixNow (c.world writer.node)) nonce)
            owners)) := by
  induction scopes generalizing owners with
  | nil => exact .one rfl
  | cons scope scopes ih =>
    rw [WriteRouter.resolveOwners]
    cases howner : (c.plane.registry.answers wire).ownerOf scope with
    | error e =>
      apply Reaches.one
      simp only [advance, setSubmission, howner]
    | ok found =>
      cases found with
      | none =>
        apply Reaches.one
        simp only [advance, setSubmission, howner]
      | some o =>
        refine .next ?_ (ih (if o.owner ∈ owners then owners else owners ++ [o.owner]))
        simp only [advance, setSubmission, howner]

theorem reaches_committed (c : Cluster Rate) (signed : SignedCommand) (owners : List NodeId) :
    Reaches wire text writer fates nonce (c.setSubmission (.committing signed owners))
      (match visitEach ((c.router wire writer).commit wire text fates writer.cmd signed) owners
          c.world with
      | (result, world) => { c with world, submission := .returned result }) := by
  induction owners generalizing c with
  | nil => exact .one rfl
  | cons owner owners ih =>
    rw [visitEach]
    cases hcommit : (c.router wire writer).commit wire text fates writer.cmd signed owner
        (c.world owner) with
    | mk result w =>
      cases result with
      | error e =>
        apply Reaches.one
        change (match (c.router wire writer).commit wire text fates writer.cmd signed owner
            (c.world owner) with
          | (.ok (), w) => _
          | (.error e, w) => _) = _
        rw [hcommit]
        rfl
      | ok _ =>
        refine .next ?_ (ih (c.setWorld owner w))
        change (match (c.router wire writer).commit wire text fates writer.cmd signed owner
            (c.world owner) with
          | (.ok (), w) => _
          | (.error e, w) => _) = _
        rw [hcommit]
        rfl

/-- A submission that nobody disturbs does what `WriteRouter::submit` does in one go. -/
theorem reaches_submitted (c : Cluster Rate) :
    Reaches wire text writer fates nonce (c.setSubmission .idle)
      (match (c.router wire writer).submit wire text fates nonce writer.cmd c.world with
      | (result, world) => { c with world, submission := .returned result }) := by
  have howners : (c.router wire writer).owners writer.cmd c.world =
      match writer.cmd.targetScopes (storeResolver (c.world writer.node).store) with
      | [] => .error .unowned
      | scopes => WriteRouter.resolveOwners (c.plane.registry.answers wire) scopes [] := rfl
  rw [WriteRouter.submit, howners]
  cases hscopes : writer.cmd.targetScopes (storeResolver (c.world writer.node).store) with
  | nil =>
    apply Reaches.one
    simp only [advance, setSubmission, hscopes]
  | cons scope scopes =>
    have hstart : advance wire text writer (c.setSubmission .idle) fates nonce =
        c.setSubmission (.resolving (scope :: scopes) []) := by
      simp only [advance, setSubmission, hscopes]
    refine .next hstart (.trans (reaches_resolved c (scope :: scopes) []) ?_)
    dsimp only
    cases WriteRouter.resolveOwners (c.plane.registry.answers wire) (scope :: scopes) [] with
    | error e => exact ⟨0, rfl⟩
    | ok owners => exact reaches_committed c _ owners

end Cluster

end

end Democrachat.Federation
