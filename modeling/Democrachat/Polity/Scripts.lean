import Democrachat.App.Franchise
import Democrachat.App.Governance
import Democrachat.Library.Script

/-!
# Requests that write a membership back

Each of these requests takes a copy of a membership, edits a field of the copy and
writes the whole copy back.  What it does to one row, step by step, is a script.
-/

namespace Democrachat

open Library Req

inductive Edit where
  | endorse (delta : Int)
  | sanction
  | enfranchise (now : Timestamp)
  | share (shares : Bool)
  | grant (weight : Nat)
deriving DecidableEq

/-- What a request makes of its copy. -/
def Edit.apply : Edit → Membership → Membership
  | .endorse delta, m => { m with contribution := max (m.contribution + delta) 0 }
  | .sanction, m => { m with isSanctioned := true }
  | .enfranchise now, m => m.admittedAt now
  | .share shares, m => { m with sharesHistoryWithNewcomers := shares }
  | .grant weight, m => { m with grantedWeight := weight }

theorem Edit.key_apply (i : Edit) (m : Membership) : (i.apply m).key = m.key := by
  cases i <;> rfl

/-- The row of a membership. -/
def World.row (k : UserId ×ₗ ServerId) (w : World) : Option Membership :=
  w.store.memberships.get k

/-- The program has a script that edits the row. -/
abbrev Edits (k : UserId ×ₗ ServerId) {α : Type} (v? : Option Membership) (p : Prog World α) :
    Prop :=
  Scripted (World.row k) Edit.apply v? p

/-- The request has one. -/
abbrev EditsRow (k : UserId ×ₗ ServerId) {ε α : Type} (v? : Option Membership)
    (r : Req World ε α) : Prop :=
  IsScripted (World.row k) Edit.apply v? r

variable {k : UserId ×ₗ ServerId} {v? : Option Membership}

theorem row_upsertMembership (w : World) (m : Membership) :
    (w.mapStore (·.upsertMembership m)).row k = if k = m.key then some m else w.row k := by
  have h := Table.get_insert w.store.memberships m k
  by_cases hk : k = m.key
  · rw [if_pos hk] at h ⊢
    exact h
  · rw [if_neg hk] at h ⊢
    exact h

theorem row_getMembership (w : World) (user : UserId) (sid : ServerId) :
    w.row (toLex (user, sid)) = w.store.getMembership user sid := rfl

theorem key_getMembership {w : World} {user : UserId} {sid : ServerId} {m : Membership}
    (h : w.store.getMembership user sid = some m) : m.key = toLex (user, sid) :=
  Table.key_of_get h

/-- The row that was copied is written back with an edit. -/
theorem edits_upsert (i : Edit) {m : Membership} (hm : m.key = k) :
    Edits k (some m) (write (·.upsertMembership (i.apply m))) := by
  apply Scripted.modify_edit i
  intro w
  rw [row_upsertMembership, i.key_apply, if_pos hm.symm]

/-- Other rows may be written. -/
theorem guarantees_upsert {m : Membership} (hm : m.key ≠ k) :
    (write (·.upsertMembership m)).Guarantees (SameCell (World.row k)) := by
  apply guarantees_write
  intro w
  exact (row_upsertMembership w m).trans (if_neg (Ne.symm hm))

/-- Copy, edit, write back. -/
theorem edits_editMembership (i : Edit) (user : UserId) (sid : ServerId) :
    Edits k v? (editMembership user sid i.apply) := by
  by_cases hk : toLex (user, sid) = k
  · apply Scripted.query_copy
    intro w
    dsimp only
    rw [← hk, row_getMembership]
    cases hm : w.store.getMembership user sid with
    | none => exact .pure _
    | some m => exact edits_upsert i (key_getMembership hm)
  · apply Scripted.query
    intro w
    dsimp only
    cases hm : w.store.getMembership user sid with
    | none => exact .pure _
    | some m =>
      have hne : (i.apply m).key ≠ k := by
        rw [i.key_apply, key_getMembership hm]
        exact hk
      exact .of_guarantees (guarantees_upsert hne)

theorem edits_adjustContribution (author : UserId) (sid : ServerId) (delta : Int) :
    Edits k v? (adjustContribution author sid delta) :=
  edits_editMembership (.endorse delta) author sid

/-! ## Reactions and the history preference -/

theorem sameRow_ask {α : Type} (f : Inner → α) :
    (ask f).Guarantees (SameCell (World.row k)) :=
  guarantees_ask (SameCell.refl _) f

theorem sameRow_addReaction (r : Reaction) :
    (transact (·.addReaction r)).Guarantees (SameCell (World.row k)) := by
  apply guarantees_transact
  intro w
  simp only [World.mapStore, Inner.addReaction]
  split <;> rfl

theorem editsRow_react (handle : String) (messageId : MessageId) (emoji : String) :
    EditsRow k none (react handle messageId emoji) :=
  .ensure fun _ => .step (sameRow_ask _) fun _ => .okOr fun _ _ => .step (sameRow_ask _) fun _ =>
    .okOr fun _ _ => .step (sameRow_ask _) fun _ => .okOr fun _ _ => .step (sameRow_ask _) fun _ =>
    .step (sameRow_addReaction _) fun _ =>
    .ite (.last (edits_adjustContribution _ _ 1)) (.pure _)

theorem sameRow_removeReaction (message : MessageId) (user : UserId) (emoji : String) :
    (transact (·.removeReaction message user emoji)).Guarantees (SameCell (World.row k)) := by
  apply guarantees_transact
  intro w
  simp only [World.mapStore, Inner.removeReaction]
  split <;> rfl

theorem editsRow_unreact (handle : String) (messageId : MessageId) (emoji : String) :
    EditsRow k none (unreact handle messageId emoji) :=
  .step (sameRow_ask _) fun _ => .okOr fun _ _ => .step (sameRow_ask _) fun _ => .okOr fun _ _ =>
    .step (sameRow_removeReaction _ _ _) fun _ =>
    .ite (.step (sameRow_ask _) fun _ => .step (sameRow_ask _) fun _ =>
      .ite (.last (edits_adjustContribution _ _ (-1))) (.pure _)) (.pure _)

/-- A request that looks a membership up goes on with a copy of the row, or with another
row in its hands. -/
theorem editsRow_getMembership {ε α : Type} (user : UserId) (sid : ServerId) (e : ε)
    {f : Membership → Req World ε α}
    (hcopy : ∀ m, m.key = k → EditsRow k (some m) (f m))
    (hother : ∀ m, m.key ≠ k → EditsRow k v? (f m)) :
    EditsRow k v? ((liftM (ask (·.getMembership user sid)) : Req World ε (Option Membership)) >>=
      fun m? => okOr m? e >>= f) := by
  by_cases hk : toLex (user, sid) = k
  · apply IsScripted.query_copy
    intro w
    rw [← hk, row_getMembership]
    apply IsScripted.okOr
    intro m (hm : w.store.getMembership user sid = some m)
    rw [hm, hk]
    exact hcopy m (hk ▸ key_getMembership hm)
  · apply IsScripted.query
    intro w
    apply IsScripted.okOr
    intro m (hm : w.store.getMembership user sid = some m)
    apply hother
    rw [key_getMembership hm]
    exact hk

theorem editsRow_setHistorySharing (handle serverSlug : String) (shares : Bool) :
    EditsRow k none (setHistorySharing handle serverSlug shares) := by
  refine .step (sameRow_ask _) fun _ => .okOr fun user _ => .step (sameRow_ask _) fun _ =>
    .okOr fun server _ => ?_
  apply editsRow_getMembership
  · intro m hm
    exact .last (edits_upsert (.share shares) hm)
  · intro m hm
    exact .last (.of_guarantees (guarantees_upsert hm))

theorem editsRow_tryEnfranchise (handle serverSlug : String) :
    EditsRow k none (tryEnfranchise handle serverSlug) := by
  refine .step (sameRow_ask _) fun _ => .okOr fun user _ => .step (sameRow_ask _) fun _ =>
    .okOr fun server _ => ?_
  apply editsRow_getMembership
  · intro m hm
    refine .ensure fun _ => .step (guarantees_clockNow (SameCell.refl _)) fun now =>
      .ite (.pure _) (.step (sameRow_ask _) fun _ => .step (sameRow_ask _) fun _ =>
        .ite (.pure _) (.andThen (edits_upsert (.enfranchise now) hm) fun _ => .pure _))
  · intro m hm
    refine .ensure fun _ => .step (guarantees_clockNow (SameCell.refl _)) fun now =>
      .ite (.pure _) (.step (sameRow_ask _) fun _ => .step (sameRow_ask _) fun _ =>
        .ite (.pure _) (.step (guarantees_upsert hm) fun _ => .pure _))

/-! ## Resolving what is due -/

theorem sameRow_transact {α : Type} {f : Inner → α × Inner}
    (h : ∀ s : Inner, (f s).2.memberships = s.memberships) :
    (transact f).Guarantees (SameCell (World.row k)) :=
  guarantees_transact (fun w => congrArg (fun t => Table.get t k) (h w.store))

theorem sameRow_write {f : Inner → Inner} (h : ∀ s : Inner, (f s).memberships = s.memberships) :
    (write f).Guarantees (SameCell (World.row k)) :=
  guarantees_write (fun w => congrArg (fun t => Table.get t k) (h w.store))

theorem sameRow_tallyVotes (server : Server) (weighted : Bool) (now : Timestamp)
    (vs : List Vote) (tally : Tally) :
    (tallyVotes server weighted now vs tally).Guarantees (SameCell (World.row k)) := by
  induction vs generalizing tally with
  | nil => trivial
  | cons v vs ih =>
    apply Prog.Guarantees.bind (sameRow_ask _)
    intro m
    cases m.filter Membership.isFranchised with
    | none => exact ih _
    | some m => exact ih _

theorem sameRow_editServer (server : ServerId) (f : Server → Server) :
    (editServer server f).Guarantees (SameCell (World.row k)) := by
  apply Prog.Guarantees.bind (sameRow_ask _)
  intro s
  cases s with
  | none => trivial
  | some s => exact sameRow_write (fun _ => rfl)

theorem sameRow_ifRole {α : Type} (role : RoleId) (sid : ServerId) {f : Inner → α × Inner}
    (h : ∀ s : Inner, (f s).2.memberships = s.memberships) :
    Prog.Guarantees (SameCell (World.row k)) (do
      if (← ask (·.getRole role)).any (fun r => r.serverId == sid) then
        let _ ← transact f
        return ()
      else
        return ()) := by
  apply Prog.Guarantees.bind (sameRow_ask _)
  intro r
  refine Prog.Guarantees.ite ?_ (Prog.guarantees_pure _)
  exact .bind (sameRow_transact h) fun _ => Prog.guarantees_pure _

/-- Most effects leave the memberships alone; the others edit one. -/
theorem edits_enact (sid : ServerId) (kind : ProposalKind) (now : Timestamp) :
    Edits k v? (enact sid kind now) := by
  cases kind with
  | ban user => exact edits_editMembership .sanction user sid
  | timeout user until_ => exact edits_editMembership .sanction user sid
  | grantVoteWeight user weight => exact edits_editMembership (.grant weight) user sid
  | createChannel name topic =>
    simp only [enact]
    generalize normalizeChannelName name = name
    apply Scripted.of_guarantees
    refine Prog.Guarantees.ite (Prog.guarantees_pure _) ?_
    apply Prog.Guarantees.bind (sameRow_ask _)
    intro found
    cases found with
    | some x => trivial
    | none => exact .bind (sameRow_transact fun _ => rfl) fun _ => sameRow_write fun _ => rfl
  | deleteChannel name =>
    apply Scripted.of_guarantees
    apply Prog.Guarantees.bind (sameRow_ask _)
    intro found
    cases found with
    | some x =>
      refine .bind (sameRow_transact fun s => ?_) fun _ => Prog.guarantees_pure _
      simp only [Inner.removeChannel]
      split <;> rfl
    | none => trivial
  | addRule text =>
    exact .of_guarantees (.bind (sameRow_transact fun _ => rfl) fun _ => sameRow_write fun _ => rfl)
  | removeRule rule =>
    apply Scripted.of_guarantees
    refine .bind (sameRow_transact fun s => ?_) fun _ => Prog.guarantees_pure _
    simp only [Inner.removeRule]
    split <;> rfl
  | createRole name =>
    simp only [enact]
    generalize normalizeRoleName name = name
    apply Scripted.of_guarantees
    refine Prog.Guarantees.ite (Prog.guarantees_pure _) ?_
    apply Prog.Guarantees.bind (sameRow_ask _)
    intro found
    cases found with
    | some x => trivial
    | none => exact .bind (sameRow_transact fun _ => rfl) fun _ => sameRow_write fun _ => rfl
  | deleteRole role =>
    refine .of_guarantees (sameRow_ifRole role sid fun s => ?_)
    simp only [Inner.removeRole]
    split <;> rfl
  | assignRole user role =>
    refine .of_guarantees (sameRow_ifRole role sid fun s => ?_)
    simp only [Inner.assign]
    split <;> rfl
  | unassignRole user role =>
    refine .of_guarantees (sameRow_ifRole role sid fun s => ?_)
    simp only [Inner.unassign]
    split <;> rfl
  | «recall» leader => exact .pure _
  | removeContent target => exact .pure _
  | _ => exact .of_guarantees (sameRow_editServer _ _)

theorem sameRow_closeIfDue (server : Server) (citizens : Nat) (phase : Phase) (now : Timestamp)
    (p : Proposal) :
    (closeIfDue server citizens phase now p).Guarantees (SameCell (World.row k)) := by
  refine Prog.Guarantees.ite ?_ (Prog.guarantees_pure _)
  apply Prog.Guarantees.bind
  · exact .bind (sameRow_ask _) fun _ => sameRow_tallyVotes _ _ _ _ _
  · intro tally
    exact .bind (sameRow_write fun _ => rfl) fun _ => Prog.guarantees_pure _

theorem edits_applyIfDue (now : Timestamp) (p : Proposal) : Edits k v? (applyIfDue now p) := by
  unfold applyIfDue
  split
  next effectiveAt hstatus =>
    split
    next hdue =>
      apply Scripted.bind
      · apply Scripted.bind (edits_enact _ _ _)
        intro _
        exact .of_guarantees (Prog.guarantees_modify (fun _ => rfl))
      · intro _
        exact .of_guarantees (sameRow_write fun _ => rfl)
    next => exact .pure _
  next => exact .pure _

theorem edits_sweep (server : Server) (citizens : Nat) (phase : Phase) (now : Timestamp)
    (ps : List Proposal) : Edits k none (sweep server citizens phase now ps) := by
  induction ps with
  | nil => exact .pure _
  | cons p ps ih =>
    apply Scripted.bind
    · exact .frame (sameRow_closeIfDue _ _ _ _ _) fun _ => edits_applyIfDue _ _
    · exact fun _ => ih

theorem edits_resolveDue (serverSlug : String) : Edits k none (resolveDue serverSlug) := by
  apply Scripted.frame (sameRow_ask _)
  intro server
  cases server with
  | none => exact .pure _
  | some server =>
    exact .frame (guarantees_clockNow (SameCell.refl _)) fun _ => .frame (sameRow_ask _) fun _ =>
      .frame (sameRow_ask _) fun _ => edits_sweep _ _ _ _ _

theorem edits_listProposals (serverSlug : String) : Edits k none (listProposals serverSlug) := by
  apply Scripted.bind (edits_resolveDue serverSlug)
  intro _
  apply Scripted.frame (sameRow_ask _)
  intro server
  cases server with
  | none => exact .pure _
  | some server => exact .of_guarantees (sameRow_ask _)

end Democrachat
