import Democrachat.System.UseCases

/-!
# What every use-case does to the store

Each use-case writes through the ports of its own parts, so what all writes of those parts have
in common the use-case has too.
-/

namespace Democrachat

open Library Req

/-- The two stores of a step. -/
abbrev Stores (R : Inner → Inner → Prop) (w w' : World) : Prop := R w.store w'.store

namespace Stores

section

variable {R : Inner → Inner → Prop} {α β ε : Type} (hrefl : ∀ s, R s s)

include hrefl

theorem ask {f : Inner → α} {k : α → Req World ε β} (hk : ∀ a, WritesOnly (Stores R) (k a)) :
    WritesOnly (Stores R) ((liftM (Democrachat.ask f) : Req World ε α) >>= k) :=
  .step (guarantees_ask (fun w => hrefl w.store) f) hk

theorem clockNow {k : Timestamp → Req World ε β} (hk : ∀ a, WritesOnly (Stores R) (k a)) :
    WritesOnly (Stores R) ((liftM Democrachat.clockNow : Req World ε Timestamp) >>= k) :=
  .step (guarantees_clockNow (fun w => hrefl w.store)) hk

theorem pairByHandle {handle other : String} {k : User × User → Req World SocialError β}
    (hk : ∀ a, WritesOnly (Stores R) (k a)) :
    WritesOnly (Stores R) (Democrachat.pairByHandle handle other >>= k) :=
  .bind (ask hrefl fun _ => .okOr fun _ => ask hrefl fun _ => .okOr fun _ => .pure _) hk

theorem pairById {id other : UserId} {k : User × User → Req World SocialError β}
    (hk : ∀ a, WritesOnly (Stores R) (k a)) :
    WritesOnly (Stores R) (Democrachat.pairById id other >>= k) :=
  .bind (ask hrefl fun _ => .okOr fun _ => ask hrefl fun _ => .okOr fun _ => .pure _) hk

theorem blockBetween (hadd : ∀ s b, R s (s.addBlock b).2) (blocker blocked : User) :
    WritesOnly (Stores R) (Democrachat.blockBetween blocker blocked) :=
  .ensure <| clockNow hrefl fun _ =>
    .step (guarantees_transact fun w => hadd w.store _) fun _ => .pure _

theorem requestFriendBetween (hadd : ∀ s f, R s (s.addFriendship f).2) (requester addressee : User) :
    WritesOnly (Stores R) (Democrachat.requestFriendBetween requester addressee) :=
  .ensure <| clockNow hrefl fun _ =>
    .step (guarantees_transact fun w => hadd w.store _) fun _ => .pure _

theorem acceptFriendBetween (hupdate : ∀ s f, R s (s.updateFriendship f)) (me other : User) :
    WritesOnly (Stores R) (Democrachat.acceptFriendBetween me other) :=
  ask hrefl fun _ => .okOr fun _ => .last (guarantees_write fun w => hupdate w.store _)

theorem sendSealedDmCore (hmint : ∀ s, R s s.nextDmId.2) (hinsert : ∀ s dm, R s (s.insertDm dm))
    (sender recipient : User) (sealedForRecipient sealedForSender : String) :
    WritesOnly (Stores R)
      (Democrachat.sendSealedDmCore sender recipient sealedForRecipient sealedForSender) := by
  have hmay : (mayDm sender recipient).Guarantees (Stores R) :=
    .bind (guarantees_ask (fun w => hrefl w.store) _) fun _ =>
      .bind (guarantees_ask (fun w => hrefl w.store) _) fun _ => Prog.guarantees_pure _
  exact .ensure <| .ensure <| .step hmay fun _ => .ensure <|
    .step (guarantees_transact fun w => hmint w.store) fun _ => clockNow hrefl fun _ =>
    .step (guarantees_write fun w => hinsert w.store _) fun _ => .pure _

theorem exec (htrans : ∀ s t u, R s t → R t u → R s u) {ε α : Type} {r : Req World ε α}
    (hr : WritesOnly (Stores R) r) (w : World) : R w.store (r.exec w).2.store := by
  have hself : ∀ w : World, Stores R w w := fun w => hrefl w.store
  have hstep : ∀ w w' w'' : World, Stores R w w' → Stores R w' w'' → Stores R w w'' :=
    fun w w' w'' => htrans w.store w'.store w''.store
  exact hr.exec hself hstep w

end

end Stores

/-- What each write of these ports does to the store. -/
structure Common (parts : List Part) (R : Inner → Inner → Prop) : Prop where
  refl : ∀ s, R s s
  trans : ∀ s t u, R s t → R t u → R s u
  run : ∀ m : Mutation, parts.contains m.part = true → ∀ s, R s (m.run s)
  /-- A direct message gets its id long before it is stored. -/
  insertDm : parts.contains .social = true → ∀ s dm, R s (s.insertDm dm)

theorem Common.of_touches {parts : List Part} {R : Inner → Inner → Prop} (h : Common parts R)
    {w w' : World} (htouches : Touches parts w w') : R w.store w'.store :=
  htouches.lift h.refl h.trans h.run

/-- What the writes of its parts have in common, a use-case has. -/
theorem Services.serve_common (services : Services) {R : Inner → Inner → Prop} {u : UseCase}
    (h : Common u.parts R) (w : World) : R w.store (services.serve w u).store := by
  have hblock : UseCase.parts u = [.social] → ∀ s b, R s (s.addBlock b).2 := fun hu s b =>
    h.run (.addBlock b) (by rw [hu]; rfl) s
  have hrequest : UseCase.parts u = [.social] → ∀ s f, R s (s.addFriendship f).2 := fun hu s f =>
    h.run (.addFriendship f) (by rw [hu]; rfl) s
  have haccept : UseCase.parts u = [.social] → ∀ s f, R s (s.updateFriendship f) := fun hu s f =>
    h.run (.updateFriendship f) (by rw [hu]; rfl) s
  have hmint : UseCase.parts u = [.social] → ∀ s, R s s.nextDmId.2 := fun hu s =>
    h.run (.mint .dm) (by rw [hu]; rfl) s
  have hinsert : UseCase.parts u = [.social] → ∀ s dm, R s (s.insertDm dm) := fun hu =>
    h.insertDm (by rw [hu]; rfl)
  cases u with
  | op op => exact h.of_touches (touches_step services w op)
  | social op =>
    cases op with
    | sendSealedDm =>
      exact Stores.exec h.refl h.trans (Stores.ask h.refl fun _ => .okOr fun _ =>
        Stores.ask h.refl fun _ => .okOr fun _ =>
        Stores.sendSealedDmCore h.refl (hmint rfl) (hinsert rfl) _ _ _ _) w
    | blockUser =>
      exact Stores.exec h.refl h.trans (Stores.pairByHandle h.refl fun _ =>
        Stores.blockBetween h.refl (hblock rfl) _ _) w
    | requestFriend =>
      exact Stores.exec h.refl h.trans (Stores.pairByHandle h.refl fun _ =>
        Stores.requestFriendBetween h.refl (hrequest rfl) _ _) w
    | acceptFriend =>
      exact Stores.exec h.refl h.trans (Stores.pairByHandle h.refl fun _ =>
        Stores.acceptFriendBetween h.refl (haccept rfl) _ _) w
  | sendSealedDmById =>
    exact Stores.exec h.refl h.trans (Stores.ask h.refl fun _ => .okOr fun _ =>
      Stores.ask h.refl fun _ => .okOr fun _ =>
      Stores.sendSealedDmCore h.refl (hmint rfl) (hinsert rfl) _ _ _ _) w
  | blockUserById =>
    exact Stores.exec h.refl h.trans (Stores.pairById h.refl fun _ =>
      Stores.blockBetween h.refl (hblock rfl) _ _) w
  | requestFriendById =>
    exact Stores.exec h.refl h.trans (Stores.pairById h.refl fun _ =>
      Stores.requestFriendBetween h.refl (hrequest rfl) _ _) w
  | acceptFriendById =>
    exact Stores.exec h.refl h.trans (Stores.pairById h.refl fun _ =>
      Stores.acceptFriendBetween h.refl (haccept rfl) _ _) w
  | setDmPolicy => exact h.of_touches (.of_writesOnly (touches_setDmPolicy _ _) w)
  | publishKeys => exact h.of_touches (.of_writesOnly (touches_publishKeys _ _ _) w)
  | enableChannelEncryption =>
    exact h.of_touches (.of_writesOnly (touches_enableChannelEncryption _ _ _ _) w)
  | grantChannelKey =>
    exact h.of_touches (.of_writesOnly (touches_grantChannelKey _ _ _ _ _ _) w)
  | addEmoji => exact h.of_touches (.of_writesOnly (touches_addEmoji _ _ _ _) w)
  | voteEmoji => exact h.of_touches (.of_writesOnly (touches_voteEmoji _ _ _ _) w)

/-! ## What is left alone -/

section

variable {parts : List Part}

/-- The node keeps its name, and counts on. -/
def CountsOn (s t : Inner) : Prop :=
  t.node = s.node ∧ s.nextUser ≤ t.nextUser ∧ s.nextDm ≤ t.nextDm

theorem CountsOn.of_eq {s t : Inner} (hnode : t.node = s.node) (huser : t.nextUser = s.nextUser)
    (hdm : t.nextDm = s.nextDm) : CountsOn s t :=
  ⟨hnode, huser.ge, hdm.ge⟩

theorem common_countsOn (parts : List Part) : Common parts CountsOn where
  refl _ := .of_eq rfl rfl rfl
  trans _ _ _ h h' := ⟨h'.1.trans h.1, h.2.1.trans h'.2.1, h.2.2.trans h'.2.2⟩
  run := by
    intro m _ s
    cases m with
    | mint e =>
      cases e with
      | user => exact ⟨rfl, Nat.le_succ _, le_rfl⟩
      | dm => exact ⟨rfl, le_rfl, Nat.le_succ _⟩
      | _ => exact .of_eq rfl rfl rfl
    | sendDm => exact ⟨rfl, le_rfl, Nat.le_succ _⟩
    | addReaction | removeReaction | removeChannel | removeRule | removeRole | assign | unassign
    | revokeInvite | addBlock | addFriendship | updateFriendship =>
      -- These look first whether there is anything to do.
      simp only [Mutation.run, Inner.addReaction, Inner.removeReaction, Inner.removeChannel,
        Inner.removeRule, Inner.removeRole, Inner.assign, Inner.unassign, Inner.revokeInvite,
        Inner.addBlock, Inner.addFriendship, Inner.updateFriendship]
      split
      all_goals exact .of_eq rfl rfl rfl
    | _ => exact .of_eq rfl rfl rfl
  insertDm _ _ _ := .of_eq rfl rfl rfl

theorem common_users (h : parts.contains .accounts = false) :
    Common parts (fun s t => t.users = s.users) where
  refl _ := rfl
  trans _ _ _ h h' := h'.trans h
  run m hm s := (m.spares s).users (ne_part hm h)
  insertDm _ _ _ := rfl

theorem common_dms (h : parts.contains .social = false) :
    Common parts (fun s t => t.dms = s.dms) where
  refl _ := rfl
  trans _ _ _ h h' := h'.trans h
  run m hm s := (m.spares s).dms (ne_part hm h)
  insertDm hsocial _ _ := absurd (hsocial.symm.trans h) (by decide)

/-- Device keys and grants are written by the ports of keys alone. -/
theorem common_keys (h : parts.contains .keys = false) :
    Common parts (fun s t => t.userKeys = s.userKeys ∧ t.channelGrants = s.channelGrants) where
  refl _ := ⟨rfl, rfl⟩
  trans _ _ _ h h' := ⟨h'.1.trans h.1, h'.2.trans h.2⟩
  run := by
    intro m hm s
    have hpart : m.part ≠ .keys := ne_part hm h
    cases m with
    | mint e => cases e <;> exact ⟨rfl, rfl⟩
    | addReaction | removeReaction | removeChannel | removeRule | removeRole | assign | unassign
    | revokeInvite | addBlock | addFriendship | updateFriendship =>
      simp only [Mutation.run, Inner.addReaction, Inner.removeReaction, Inner.removeChannel,
        Inner.removeRule, Inner.removeRole, Inner.assign, Inner.unassign, Inner.revokeInvite,
        Inner.addBlock, Inner.addFriendship, Inner.updateFriendship]
      split
      all_goals exact ⟨rfl, rfl⟩
    | putKeys | putGrant => exact absurd rfl hpart
    | _ => exact ⟨rfl, rfl⟩
  insertDm _ _ _ := ⟨rfl, rfl⟩

end

/-! ## Use-cases that leave messages and device keys to their owners -/

/-- A direct message is sent, or a device key is published. -/
def UseCase.isPrivate : UseCase → Bool
  | .social (.sendSealedDm ..) | .sendSealedDmById .. | .publishKeys .. => true
  | _ => false

def SameLetters (s t : Inner) : Prop := t.dms = s.dms ∧ t.userKeys = s.userKeys

namespace SameLetters

theorem refl (s : Inner) : SameLetters s s := ⟨rfl, rfl⟩

theorem trans (s t u : Inner) (h : SameLetters s t) (h' : SameLetters t u) : SameLetters s u :=
  ⟨h'.1.trans h.1, h'.2.trans h.2⟩

theorem addBlock (s : Inner) (b : Block) : SameLetters s (s.addBlock b).2 := by
  simp only [Inner.addBlock]
  split
  all_goals exact ⟨rfl, rfl⟩

theorem addFriendship (s : Inner) (f : Friendship) : SameLetters s (s.addFriendship f).2 := by
  simp only [Inner.addFriendship]
  split
  all_goals exact ⟨rfl, rfl⟩

theorem updateFriendship (s : Inner) (f : Friendship) : SameLetters s (s.updateFriendship f) := by
  simp only [Inner.updateFriendship]
  split
  all_goals exact ⟨rfl, rfl⟩

theorem grantChannelKey (granterHandle serverSlug channelName : String) (epoch : Nat)
    (memberHandle sealedKey : String) :
    WritesOnly (Stores SameLetters)
      (Democrachat.grantChannelKey granterHandle serverSlug channelName epoch memberHandle
        sealedKey) :=
  Stores.ask refl fun _ => .okOr fun _ => Stores.ask refl fun _ => .okOr fun _ =>
    Stores.ask refl fun _ => .okOr fun _ => Stores.ask refl fun _ => .okOr fun _ => .ensure <|
    Stores.ask refl fun _ => .okOr fun _ => Stores.ask refl fun _ => .okOr fun _ => .ensure <|
    .last (guarantees_write fun _ => ⟨rfl, rfl⟩)

/-- A use-case of other parts. -/
theorem elsewhere (services : Services) (w : World) {u : UseCase}
    (hsocial : u.parts.contains .social = false) (hkeys : u.parts.contains .keys = false) :
    SameLetters w.store (services.serve w u).store :=
  ⟨services.serve_common (common_dms hsocial) w, (services.serve_common (common_keys hkeys) w).1⟩

theorem serve (services : Services) (w : World) {u : UseCase} (h : u.isPrivate = false) :
    SameLetters w.store (services.serve w u).store := by
  cases u with
  | op op => exact elsewhere services w (by cases op <;> rfl) (by cases op <;> rfl)
  | social op =>
    cases op with
    | sendSealedDm => cases h
    | blockUser =>
      exact Stores.exec refl trans (Stores.pairByHandle refl fun _ =>
        Stores.blockBetween refl addBlock _ _) w
    | requestFriend =>
      exact Stores.exec refl trans (Stores.pairByHandle refl fun _ =>
        Stores.requestFriendBetween refl addFriendship _ _) w
    | acceptFriend =>
      exact Stores.exec refl trans (Stores.pairByHandle refl fun _ =>
        Stores.acceptFriendBetween refl updateFriendship _ _) w
  | sendSealedDmById => cases h
  | blockUserById =>
    exact Stores.exec refl trans (Stores.pairById refl fun _ =>
      Stores.blockBetween refl addBlock _ _) w
  | requestFriendById =>
    exact Stores.exec refl trans (Stores.pairById refl fun _ =>
      Stores.requestFriendBetween refl addFriendship _ _) w
  | acceptFriendById =>
    exact Stores.exec refl trans (Stores.pairById refl fun _ =>
      Stores.acceptFriendBetween refl updateFriendship _ _) w
  | publishKeys => cases h
  | grantChannelKey => exact Stores.exec refl trans (grantChannelKey _ _ _ _ _ _) w
  | setDmPolicy => exact elsewhere services w rfl rfl
  | enableChannelEncryption => exact elsewhere services w rfl rfl
  | addEmoji => exact elsewhere services w rfl rfl
  | voteEmoji => exact elsewhere services w rfl rfl

end SameLetters

end Democrachat
