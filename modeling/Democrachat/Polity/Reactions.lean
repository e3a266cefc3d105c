import Democrachat.Polity.Enact
import Democrachat.Polity.Silent
import Democrachat.Polity.Unsaid

/-!
# Reactions

What `react` and `unreact` leave behind: the reaction, and a point for the author of the
message or one less.
-/

namespace Democrachat

open Library Req

/-- The user is a franchised citizen of the server of the message. -/
def World.isFranchisedOn (w : World) (p : MessageId × UserId) : Bool :=
  (w.store.getMessage p.1).any
    (fun m => (w.store.getMembership p.2 m.serverId).any Membership.isFranchised)

/-- The author's row, a point up or down, but never below nothing. -/
def Polity.adjust (c : Polity) (message : Message) (delta : Int) : Polity :=
  c.editMembership message.author message.serverId
    (fun m => { m with contribution := max (m.contribution + delta) 0 })

theorem adjust_messages (c : Polity) (message : Message) (delta : Int) :
    (c.adjust message delta).messages = c.messages := by
  unfold Polity.adjust Polity.editMembership
  split <;> rfl

section Reactions

variable (w : World)

theorem isFranchisedOn_eq {message : Message} {messageId : MessageId}
    (h : w.store.getMessage messageId = some message) (user : UserId) :
    w.isFranchisedOn (message.id, user) =
      (w.store.getMembership user message.serverId).any Membership.isFranchised := by
  have hid : message.id = messageId := Table.key_of_get h
  rw [World.isFranchisedOn, hid, h, Option.any_some]

/-- An adjustment touches the author's row and nothing that is said. -/
theorem exec_adjustContribution (message : Message) (delta : Int) :
    ((adjustContribution message.author message.serverId delta).exec w).2.polity =
        w.polity.adjust message delta ∧
      ((adjustContribution message.author message.serverId delta).exec w).2.store.reactions =
        w.store.reactions ∧
      ((adjustContribution message.author message.serverId delta).exec w).2.store.nextMessage =
        w.store.nextMessage := by
  have htouches : Touches [.members] w
      ((adjustContribution message.author message.serverId delta).exec w).2 :=
    Touches.of_guarantees (touches_editMembership rfl _ _ _) w
  have hunsaid := htouches.unsaid rfl rfl
  refine ⟨polity_editMembership w message.author message.serverId _, ?_, ?_⟩
  · exact hunsaid.reactions
  · exact hunsaid.nextMessage

/-- What `react` leaves behind. -/
structure Reacted (w w' : World) (user : User) (message : Message) (emoji : String) : Prop where
  reactions : w'.store.reactions = w.store.reactions ++ [⟨message.id, user.id, emoji⟩]
  nextMessage : w'.store.nextMessage = w.store.nextMessage
  polity : w'.polity =
    if !w.store.userHasAny message.id user.id && w.isFranchisedOn (message.id, user.id) &&
      user.id != message.author then w.polity.adjust message 1 else w.polity

/-- A reaction is added unless it is there. -/
theorem addReaction_cases (s : Inner) (r : Reaction) :
    s.addReaction r = (false, s) ∨
      ((s.addReaction r).1 = true ∧ (s.addReaction r).2.reactions = s.reactions ++ [r] ∧
        (s.addReaction r).2.nextMessage = s.nextMessage) := by
  unfold Inner.addReaction
  split
  next => exact .inl rfl
  next => exact .inr ⟨rfl, rfl, rfl⟩

/-- A reaction is removed if it is there. -/
theorem removeReaction_cases (s : Inner) (message : MessageId) (user : UserId) (emoji : String) :
    (s.removeReaction message user emoji = (false, s) ∧ ∀ r ∈ s.reactions,
        ¬ (r.messageId = message ∧ r.user = user ∧ r.emoji = emoji)) ∨
      ((s.removeReaction message user emoji).1 = true ∧ s.userHasAny message user = true ∧
        (s.removeReaction message user emoji).2.reactions = s.reactions.filter
          (fun r => !(r.messageId == message && r.user == user && r.emoji == emoji)) ∧
        (s.removeReaction message user emoji).2.nextMessage = s.nextMessage) := by
  by_cases hlength : (s.reactions.filter
      (fun r => !(r.messageId == message && r.user == user && r.emoji == emoji))).length =
        s.reactions.length
  · left
    have hkept := List.filter_eq_self.2 (List.length_filter_eq_length_iff.1 hlength)
    have hnone : (s.reactions.length != s.reactions.length) = false := bne_self_eq_false _
    constructor
    · simp only [Inner.removeReaction, hkept, hnone, Bool.false_eq_true, if_false]
    · intro r hr hmatch
      have hother := List.filter_eq_self.1 hkept r hr
      simp [hmatch] at hother
  · right
    have hsome := bne_iff_ne.2 hlength
    simp only [Inner.removeReaction, hsome, if_true]
    refine ⟨trivial, ?_, rfl, rfl⟩
    by_contra hany
    apply hlength
    apply List.length_filter_eq_length_iff.2
    intro r hr
    simp only [Inner.userHasAny, List.any_eq_true, not_exists, not_and, Bool.not_eq_true] at hany
    have hother := hany r hr
    rw [hother, Bool.false_and]
    rfl

theorem react_cases (handle : String) (messageId : MessageId) (emoji : String) :
    ((react handle messageId emoji).exec w).2 = w ∨
      ∃ user message, w.store.getMessage messageId = some message ∧
        Reacted w ((react handle messageId emoji).exec w).2 user message (trim emoji) := by
  simp only [react, exec_ensure_bind, req_ask_bind, exec_okOr_bind, req_transact_bind, exec_ite,
    exec_liftM, exec_pure]
  split
  next =>
    split
    next user _ =>
      split
      next message hmessage =>
        split
        next reactor hreactor =>
          have hfranchised : reactor.isFranchised = w.isFranchisedOn (message.id, user.id) := by
            rw [isFranchisedOn_eq w hmessage, hreactor, Option.any_some]
          have hpolity := polity_addReaction w ⟨message.id, user.id, trim emoji⟩
          rcases addReaction_cases w.store ⟨message.id, user.id, trim emoji⟩ with
            hthere | ⟨hadded, hreactions, hnext⟩
          · left
            rw [hthere]
            simp only [Bool.false_and, Bool.false_eq_true, if_false]
            simp only [World.mapStore, hthere]
          · right
            refine ⟨user, message, hmessage, ?_⟩
            rw [hadded, hfranchised, Bool.true_and]
            generalize hw' : w.mapStore (fun s =>
              (s.addReaction ⟨message.id, user.id, trim emoji⟩).2) = w' at hpolity ⊢
            have hreactions' : w'.store.reactions =
                w.store.reactions ++ [⟨message.id, user.id, trim emoji⟩] := by
              rw [← hw']
              exact hreactions
            have hnext' : w'.store.nextMessage = w.store.nextMessage := by
              rw [← hw']
              exact hnext
            split
            next hendorses =>
              obtain ⟨hadjusted, hsame, hstill⟩ := exec_adjustContribution w' message 1
              refine ⟨hsame.trans hreactions', hstill.trans hnext', ?_⟩
              rw [if_pos hendorses, ← hpolity]
              exact hadjusted
            next hendorses =>
              refine ⟨hreactions', hnext', ?_⟩
              rw [if_neg hendorses]
              exact hpolity
        next => exact .inl rfl
      next => exact .inl rfl
    next => exact .inl rfl
  next => exact .inl rfl

/-- What `unreact` leaves behind. -/
structure Unreacted (w w' : World) (user : User) (message : Message) (emoji : String) : Prop where
  reactions : w'.store.reactions = w.store.reactions.filter
    (fun r => !(r.messageId == message.id && r.user == user.id && r.emoji == emoji))
  nextMessage : w'.store.nextMessage = w.store.nextMessage
  polity : w'.polity =
    if !w'.store.userHasAny message.id user.id && w.isFranchisedOn (message.id, user.id) &&
      user.id != message.author then w.polity.adjust message (-1) else w.polity

theorem unreact_cases (handle : String) (messageId : MessageId) (emoji : String) :
    (((unreact handle messageId emoji).exec w).2 = w ∧
      ∀ user message, w.store.findByHandle (trim handle) = some user →
        w.store.getMessage messageId = some message → ∀ r ∈ w.store.reactions,
          ¬ (r.messageId = message.id ∧ r.user = user.id ∧ r.emoji = trim emoji)) ∨
      ∃ user message, w.store.findByHandle (trim handle) = some user ∧
        w.store.getMessage messageId = some message ∧
        w.store.userHasAny message.id user.id = true ∧
        Unreacted w ((unreact handle messageId emoji).exec w).2 user message (trim emoji) := by
  simp only [unreact, req_ask_bind, exec_okOr_bind, req_transact_bind, exec_ite, exec_liftM,
    exec_pure]
  split
  next user huser =>
    split
    next message hmessage =>
      have hpolity := polity_removeReaction w message.id user.id (trim emoji)
      rcases removeReaction_cases w.store message.id user.id (trim emoji) with
        ⟨hthere, hother⟩ | ⟨hremoved, hany, hreactions, hnext⟩
      · left
        constructor
        · rw [hthere]
          simp only [Bool.false_eq_true, if_false]
          simp only [World.mapStore, hthere]
        · intro user' message' huser' hmessage'
          obtain rfl := Option.some.inj (huser.symm.trans huser')
          obtain rfl := Option.some.inj (hmessage.symm.trans hmessage')
          exact hother
      · right
        refine ⟨user, message, huser, hmessage, hany, ?_⟩
        rw [hremoved, if_pos rfl]
        generalize hw' : w.mapStore (fun s =>
          (s.removeReaction message.id user.id (trim emoji)).2) = w' at hpolity ⊢
        have hreactions' : w'.store.reactions = w.store.reactions.filter (fun r =>
            !(r.messageId == message.id && r.user == user.id && r.emoji == trim emoji)) := by
          rw [← hw']
          exact hreactions
        have hnext' : w'.store.nextMessage = w.store.nextMessage := by
          rw [← hw']
          exact hnext
        have hreactor : w'.store.getMembership user.id message.serverId =
            w.store.getMembership user.id message.serverId :=
          congrArg (fun c => c.roster.member user.id message.serverId) hpolity
        have hwithdraws : (w.store.getMembership user.id message.serverId).any (fun r =>
              !w'.store.userHasAny message.id user.id && r.isFranchised &&
                user.id != message.author) =
            (!w'.store.userHasAny message.id user.id && w.isFranchisedOn (message.id, user.id) &&
              user.id != message.author) := by
          rw [isFranchisedOn_eq w hmessage]
          cases w.store.getMembership user.id message.serverId with
          | none => simp
          | some r => rfl
        rw [hreactor, hwithdraws]
        split
        next hdue =>
          obtain ⟨hadjusted, hsame, hstill⟩ := exec_adjustContribution w' message (-1)
          refine ⟨hsame.trans hreactions', hstill.trans hnext', ?_⟩
          rw [Inner.userHasAny, hsame, ← Inner.userHasAny, if_pos hdue, ← hpolity]
          exact hadjusted
        next hnot =>
          refine ⟨hreactions', hnext', ?_⟩
          rw [if_neg hnot]
          exact hpolity
    next hnone =>
      refine .inl ⟨rfl, fun user' message' _ hmessage' => ?_⟩
      rw [hnone] at hmessage'
      cases hmessage'
  next hnone =>
    refine .inl ⟨rfl, fun user' message' huser' => ?_⟩
    rw [hnone] at huser'
    cases huser'

end Reactions

end Democrachat
