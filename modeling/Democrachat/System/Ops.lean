import Democrachat.App.Franchise
import Democrachat.App.Governance

/-!
# Runs of the services

Every operation of the services that can change the store, and the clock.  A
run executes operations one after another, each to its end.
-/

namespace Democrachat

open Library

inductive Op where
  | setClock (now : Timestamp)
  | registerAccount (handle : String)
  | registerWithPassword (drawn : Drawn) (handle email password : String)
  | verifyEmail (rawToken : String)
  | issueResend (drawn : Drawn) (handle : String)
  | setPassword (drawn : Drawn) (handle password : String)
  | foundServer (founderHandle name : String) (isPrivate : Bool)
  | createInvite (code handle serverSlug : String)
  | acceptInvite (handle code : String)
  | revokeInvite (handle serverSlug codeHash : String)
  | joinServer (handle serverSlug : String)
  | tryEnfranchise (handle serverSlug : String)
  | setContribution (handle serverSlug : String) (contribution : Int)
  | createChannel (founderHandle serverSlug name topic : String)
  | postMessage (handle serverSlug channelName body : String)
  | postMessageWithAttachments (handle serverSlug channelName body : String)
      (attachments : List Attachment)
  | postSealedMessage (handle serverSlug channelName ciphertext : String) (keyEpoch : Nat)
      (parent : Option MessageId)
  | replyMessage (handle : String) (parentId : MessageId) (body : String)
  | editMessage (handle : String) (messageId : MessageId) (body : String)
  | deleteMessage (handle : String) (messageId : MessageId)
  | storeMedia (nanos : Nat) (contentType : String) (bytes : List UInt8)
  | setHistorySharing (handle serverSlug : String) (shares : Bool)
  | react (handle : String) (messageId : MessageId) (emoji : String)
  | unreact (handle : String) (messageId : MessageId) (emoji : String)
  | openProposal (proposerHandle serverSlug : String) (kind : ProposalKind)
  | castVote (voterHandle : String) (proposalId : ProposalId) (isAye : Bool)
  | castVoteById (voterId : UserId) (proposalId : ProposalId) (isAye : Bool)
  | resolveDue (serverSlug : String)
  | listProposals (serverSlug : String)

/-- The clock value an operation sets. -/
def Op.clock? : Op → Option Timestamp
  | .setClock now => some now
  | _ => none

namespace Services

variable (services : Services)

/-- The world after one operation. -/
def step (w : World) : Op → World
  | .setClock now => { w with now := now }
  | .registerAccount handle => ((Democrachat.registerAccount handle).exec w).2
  | .registerWithPassword drawn handle email password =>
    ((services.registerWithPassword drawn handle email password).exec w).2
  | .verifyEmail rawToken => ((services.verifyEmail rawToken).exec w).2
  | .issueResend drawn handle => ((services.issueResend drawn handle).exec w).2
  | .setPassword drawn handle password => ((setPassword drawn handle password).exec w).2
  | .foundServer founderHandle name isPrivate =>
    ((foundServerWithVisibility founderHandle name isPrivate).exec w).2
  | .createInvite code handle serverSlug =>
    ((services.createInvite code handle serverSlug).exec w).2
  | .acceptInvite handle code => ((services.acceptInvite handle code).exec w).2
  | .revokeInvite handle serverSlug codeHash =>
    ((Democrachat.revokeInvite handle serverSlug codeHash).exec w).2
  | .joinServer handle serverSlug => ((joinServer handle serverSlug).exec w).2
  | .tryEnfranchise handle serverSlug => ((tryEnfranchise handle serverSlug).exec w).2
  | .setContribution handle serverSlug contribution =>
    ((setContribution handle serverSlug contribution).exec w).2
  | .createChannel founderHandle serverSlug name topic =>
    ((createChannel founderHandle serverSlug name topic).exec w).2
  | .postMessage handle serverSlug channelName body =>
    ((postMessage handle serverSlug channelName body).exec w).2
  | .postMessageWithAttachments handle serverSlug channelName body attachments =>
    ((postMessageWithAttachments handle serverSlug channelName body attachments).exec w).2
  | .postSealedMessage handle serverSlug channelName ciphertext keyEpoch parent =>
    ((postSealedMessage handle serverSlug channelName ciphertext keyEpoch parent).exec w).2
  | .replyMessage handle parentId body => ((replyMessage handle parentId body).exec w).2
  | .editMessage handle messageId body => ((editMessage handle messageId body).exec w).2
  | .deleteMessage handle messageId => ((deleteMessage handle messageId).exec w).2
  | .storeMedia nanos contentType bytes => ((storeMedia nanos contentType bytes).exec w).2
  | .setHistorySharing handle serverSlug shares =>
    ((setHistorySharing handle serverSlug shares).exec w).2
  | .react handle messageId emoji => ((react handle messageId emoji).exec w).2
  | .unreact handle messageId emoji => ((unreact handle messageId emoji).exec w).2
  | .openProposal proposerHandle serverSlug kind =>
    ((openProposal proposerHandle serverSlug kind).exec w).2
  | .castVote voterHandle proposalId isAye => ((castVote voterHandle proposalId isAye).exec w).2
  | .castVoteById voterId proposalId isAye =>
    ((castVoteById voterId proposalId isAye).exec w).2
  | .resolveDue serverSlug => ((resolveDue serverSlug).exec w).2
  | .listProposals serverSlug => ((listProposals serverSlug).exec w).2

def run (w : World) (ops : List Op) : World := ops.foldl services.step w

/-- What a node that starts empty can come to. -/
def Reachable (w : World) : Prop :=
  ∃ node now ops, w = services.run (.empty node now) ops

@[simp] theorem run_nil (w : World) : services.run w [] = w := rfl

@[simp] theorem run_cons (w : World) (op : Op) (ops : List Op) :
    services.run w (op :: ops) = services.run (services.step w op) ops := rfl

theorem run_append (w : World) (ops ops' : List Op) :
    services.run w (ops ++ ops') = services.run (services.run w ops) ops' :=
  List.foldl_append

theorem run_concat (w : World) (ops : List Op) (op : Op) :
    services.run w (ops ++ [op]) = services.step (services.run w ops) op := by
  rw [run_append, run_cons, run_nil]

/-- Every step of the run meets the condition. -/
def Throughout (P : World → Op → Prop) : World → List Op → Prop
  | _, [] => True
  | w, op :: ops => P w op ∧ Throughout P (services.step w op) ops

theorem throughout_append {P : World → Op → Prop} (w : World) (ops ops' : List Op) :
    services.Throughout P w (ops ++ ops') ↔
      services.Throughout P w ops ∧ services.Throughout P (services.run w ops) ops' := by
  induction ops generalizing w with
  | nil => simp [Throughout]
  | cons op ops ih => simp only [List.cons_append, Throughout, run_cons, ih, and_assoc]

theorem throughout_iff {P : World → Op → Prop} (w : World) (ops : List Op) :
    services.Throughout P w ops ↔
      ∀ pre op post, ops = pre ++ op :: post → P (services.run w pre) op := by
  constructor
  · rintro h pre op post rfl
    exact ((throughout_append services w pre (op :: post)).1 h).2.1
  · induction ops generalizing w with
    | nil => exact fun _ => trivial
    | cons op ops ih =>
      intro h
      refine ⟨h [] op ops rfl, ih (services.step w op) (fun pre op' post hops => ?_)⟩
      exact h (op :: pre) op' post (congrArg (op :: ·) hops)

instance decidableThroughout {P : World → Op → Prop} [∀ w op, Decidable (P w op)] :
    (w : World) → (ops : List Op) → Decidable (services.Throughout P w ops)
  | _, [] => .isTrue trivial
  | w, op :: ops =>
    @instDecidableAnd _ _ _ (decidableThroughout (services.step w op) ops)

/-- What holds of the empty store and survives every operation holds of every
reachable world. -/
theorem Reachable.invariant {services : Services} {I : World → Prop}
    (hempty : ∀ node now, I (.empty node now))
    (hstep : ∀ w op, I w → I (services.step w op)) {w : World} (hw : services.Reachable w) :
    I w := by
  obtain ⟨node, now, ops, rfl⟩ := hw
  induction ops using List.reverseRecOn with
  | nil => exact hempty node now
  | append_singleton ops op ih =>
    rw [run_concat]
    exact hstep _ _ ih

theorem Reachable.step {services : Services} {w : World} (hw : services.Reachable w) (op : Op) :
    services.Reachable (services.step w op) := by
  obtain ⟨node, now, ops, rfl⟩ := hw
  exact ⟨node, now, ops ++ [op], (run_concat services _ ops op).symm⟩

end Services

/-! ## A first run

The founding of one server and the admission of its first members, on a node
without an email key; no digest is computed along it. -/

namespace Agora

def services : Services where
  emailVerification := .off
  hasEmailKey := false
  openEmail := fun _ => none
  hashToken := id
  hashCode := id

/-- The server that the node's first founding mints. -/
def sid : ServerId := composeId 0 1

def server : Server := .new sid "agora" "Agora" (composeId 0 1) ⟨0⟩

def day (n : Int) : Timestamp := (⟨0⟩ : Timestamp).plusDays n

def founding : List Op := [.registerAccount "zed", .foundServer "zed" "Agora" false]

def joining (handles : List String) : List Op :=
  handles.flatMap fun h =>
    [.registerAccount h, .joinServer h "agora", .setContribution h "agora" 9]

def admission (handles : List String) : List Op := handles.map (.tryEnfranchise · "agora")

/-- The members have dwelt and given enough, and nobody has been let in yet. -/
def settled (handles : List String) : World :=
  services.run (.empty 0 (day 0)) (founding ++ joining handles ++ [.setClock (day 31)])

theorem settled_reachable (handles : List String) : services.Reachable (settled handles) :=
  ⟨0, day 0, _, rfl⟩

end Agora

end Democrachat
