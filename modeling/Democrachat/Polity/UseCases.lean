import Democrachat.Polity.Invariants
import Democrachat.Polity.Roster
import Democrachat.System.UseCases

/-!
# Use-cases and the polity

Beside the operations only `enableChannelEncryption` changes the polity, and it changes one
channel's policy; so what the operations keep, all use-cases keep.
-/

namespace Democrachat

open Library Req

/-! ## Use-cases that the polity does not see -/

theorem silent_setDmPolicy (handle : String) (policy : DmPolicy) :
    Silent (setDmPolicy handle policy) :=
  Silent.ask fun _ => .okOr fun _ => .lastWrite fun _ => rfl

theorem silent_publishKeys (handle publicKey : String) (wrappedSecret : WrappedKey) :
    Silent (publishKeys handle publicKey wrappedSecret) :=
  Silent.ask fun _ => .okOr fun _ => .ensure <| .lastWrite fun _ => rfl

theorem silent_grantChannelKey (granterHandle serverSlug channelName : String) (epoch : Nat)
    (memberHandle sealedKey : String) :
    Silent (grantChannelKey granterHandle serverSlug channelName epoch memberHandle sealedKey) :=
  Silent.ask fun _ => .okOr fun _ => Silent.ask fun _ => .okOr fun _ =>
    Silent.ask fun _ => .okOr fun _ => Silent.ask fun _ => .okOr fun _ => .ensure <|
    Silent.ask fun _ => .okOr fun _ => Silent.ask fun _ => .okOr fun _ => .ensure <|
    .lastWrite fun _ => rfl

theorem silent_addEmoji (adderHandle serverSlug name url : String) :
    Silent (addEmoji adderHandle serverSlug name url) :=
  Silent.ask fun _ => .okOr fun _ => Silent.ask fun _ => .okOr fun _ =>
    Silent.ask fun _ => .okOr fun _ => .ensure <| Silent.ask fun _ => .ensure <|
    Silent.transact (fun _ => rfl) fun _ => Silent.clockNow fun _ =>
    Silent.write (fun _ => rfl) (.pure _)

theorem silent_voteEmoji (voterHandle serverSlug : String) (emojiId : EmojiId) (isUp : Bool) :
    Silent (voteEmoji voterHandle serverSlug emojiId isUp) :=
  Silent.ask fun _ => .okOr fun _ => Silent.ask fun _ => .okOr fun _ =>
    Silent.ask fun _ => .okOr fun _ => Silent.ask fun _ => .okOr fun _ =>
    .lastWrite fun _ => rfl

theorem silent_pairByHandle (handle other : String) : Silent (pairByHandle handle other) :=
  Silent.ask fun _ => .okOr fun _ => Silent.ask fun _ => .okOr fun _ => .pure _

theorem silent_pairById (id other : UserId) : Silent (pairById id other) :=
  Silent.ask fun _ => .okOr fun _ => Silent.ask fun _ => .okOr fun _ => .pure _

theorem silent_blockBetween (blocker blocked : User) : Silent (blockBetween blocker blocked) :=
  .ensure <| Silent.clockNow fun _ =>
    Silent.transact (fun w => by simp only [World.mapStore, Inner.addBlock]; split <;> rfl)
      fun _ => .pure _

theorem silent_requestFriendBetween (requester addressee : User) :
    Silent (requestFriendBetween requester addressee) :=
  .ensure <| Silent.clockNow fun _ =>
    Silent.transact (fun w => by simp only [World.mapStore, Inner.addFriendship]; split <;> rfl)
      fun _ => .pure _

theorem silent_acceptFriendBetween (me other : User) : Silent (acceptFriendBetween me other) :=
  Silent.ask fun _ => .okOr fun _ =>
    .lastWrite fun w => by simp only [World.mapStore, Inner.updateFriendship]; split <;> rfl

theorem silent_sendSealedDmCore (sender recipient : User)
    (sealedForRecipient sealedForSender : String) :
    Silent (sendSealedDmCore sender recipient sealedForRecipient sealedForSender) := by
  refine .ensure <| .ensure <| .bind ⟨guarantees_liftM ?_⟩ fun _ => .ensure <|
    Silent.transact (fun _ => rfl) fun _ => Silent.clockNow fun _ =>
    Silent.write (fun _ => rfl) (.pure _)
  exact .bind (guarantees_ask World.SamePolity.refl _) fun _ =>
    .bind (guarantees_ask World.SamePolity.refl _) fun _ => Prog.guarantees_pure _

theorem SocialOp.polity_step (w : World) (op : SocialOp) : (op.step w).polity = w.polity := by
  cases op with
  | sendSealedDm =>
    exact Silent.exec (Silent.ask fun _ => .okOr fun _ => Silent.ask fun _ => .okOr fun _ =>
      silent_sendSealedDmCore _ _ _ _) w
  | blockUser =>
    exact Silent.exec (.bind (silent_pairByHandle _ _) fun _ => silent_blockBetween _ _) w
  | requestFriend =>
    exact Silent.exec (.bind (silent_pairByHandle _ _) fun _ => silent_requestFriendBetween _ _) w
  | acceptFriend =>
    exact Silent.exec (.bind (silent_pairByHandle _ _) fun _ => silent_acceptFriendBetween _ _) w

/-! ## Sweeps -/

/-- The server that a sweep is about. -/
def Op.sweeps : Op → Option String
  | .resolveDue serverSlug | .listProposals serverSlug => some serverSlug
  | _ => none

theorem polity_sweeps (services : Services) {w : World} {op : Op} {serverSlug : String}
    (h : op.sweeps = some serverSlug) :
    (services.serve w (.op op)).polity = w.polity.resolveDue serverSlug := by
  cases op with
  | resolveDue =>
    obtain rfl := Option.some.inj h
    exact polity_resolveDue w _
  | listProposals =>
    obtain rfl := Option.some.inj h
    exact polity_listProposals w _
  | _ => cases h

theorem sweeps_of_governed {op : Op} (h : op.parts = governed) : ∃ slug, op.sweeps = some slug := by
  cases op with
  | resolveDue serverSlug => exact ⟨serverSlug, rfl⟩
  | listProposals serverSlug => exact ⟨serverSlug, rfl⟩
  | _ => cases h

theorem governed_of_sweeps {op : Op} {serverSlug : String} (h : op.sweeps = some serverSlug) :
    op.parts = governed := by
  cases op with
  | resolveDue | listProposals => rfl
  | _ => cases h

/-- Only sweeps write roles and their assignments. -/
theorem sweeps_of_roles {u : UseCase} (h : u.parts.contains .roles = true) :
    ∃ op serverSlug, u = .op op ∧ op.sweeps = some serverSlug := by
  cases u with
  | op op =>
    cases op with
    | resolveDue serverSlug => exact ⟨_, serverSlug, rfl, rfl⟩
    | listProposals serverSlug => exact ⟨_, serverSlug, rfl, rfl⟩
    | _ => cases h
  | _ => cases h

/-! ## Encrypting a channel -/

/-- The rows that `enableChannelEncryption` finds for a citizen of the server. -/
structure Encrypts (w : World) (handle serverSlug channelName : String) (server : Server)
    (x : Channel) : Prop where
  serverFound : w.store.findBySlug (trim serverSlug) = some server
  byCitizen : ∃ user m, w.store.findByHandle (trim handle) = some user ∧
    w.store.getMembership user.id server.id = some m ∧ m.isFranchised = true
  channelFound : w.store.findByName server.id (normalizeChannelName channelName) = some x

theorem enableChannelEncryption_cases (w : World) (handle serverSlug channelName : String)
    (historyMode : HistoryMode) :
    (∃ e, (enableChannelEncryption handle serverSlug channelName historyMode).exec w =
      (.error e, w)) ∨
    ∃ server x, Encrypts w handle serverSlug channelName server x ∧
      (enableChannelEncryption handle serverSlug channelName historyMode).exec w =
        (.ok (), w.mapStore (·.insertChannel (x.enableEncryption historyMode))) := by
  simp only [enableChannelEncryption, req_ask_bind, exec_okOr_bind, exec_liftM, exec_write]
  split
  next user huser =>
    split
    next server hserver =>
      split
      next m hm =>
        obtain ⟨hm, hfranchised⟩ := Option.filter_eq_some_iff.1 hm
        split
        next x hx => exact .inr ⟨server, x, ⟨hserver, ⟨user, m, huser, hm, hfranchised⟩, hx⟩, rfl⟩
        next => exact .inl ⟨_, rfl⟩
      next => exact .inl ⟨_, rfl⟩
    next => exact .inl ⟨_, rfl⟩
  next => exact .inl ⟨_, rfl⟩

def Polity.encrypt (c : Polity) (x : Channel) (historyMode : HistoryMode) : Polity :=
  { c with channels := c.channels.insert (x.enableEncryption historyMode) }

section Encrypt

variable (c : Polity) (x : Channel) (historyMode : HistoryMode)

@[simp] theorem Polity.encrypt_get_self :
    (c.encrypt x historyMode).channels.get x.id = some (x.enableEncryption historyMode) :=
  Table.get_insert_self c.channels (x.enableEncryption historyMode)

theorem Polity.encrypt_get_of_ne {id : ChannelId} (h : id ≠ x.id) :
    (c.encrypt x historyMode).channels.get id = c.channels.get id :=
  Table.get_insert_of_ne c.channels h

end Encrypt

/-- What a use-case does to the polity. -/
inductive Serves (w : World) : UseCase → Polity → Prop
  | acted {op : Op} {c : Polity} : Acts w op c → Serves w (.op op) c
  | encrypted {handle serverSlug channelName : String} {historyMode : HistoryMode}
      {server : Server} {x : Channel} : Encrypts w handle serverSlug channelName server x →
      Serves w (.enableChannelEncryption handle serverSlug channelName historyMode)
        (w.polity.encrypt x historyMode)
  | unseen {u : UseCase} : (∀ op, u ≠ .op op) → Serves w u w.polity

theorem Services.serves (services : Services) (w : World) (u : UseCase) :
    Serves w u (services.serve w u).polity := by
  have silent : ∀ {ε α : Type} {u : UseCase} {r : Req World ε α}, Silent r →
      (∀ op, u ≠ .op op) → Serves w u (r.exec w).2.polity := by
    intro ε α u r hr hu
    rw [hr.exec w]
    exact .unseen hu
  cases u with
  | op op => exact .acted (services.acts w op)
  | social op =>
    rw [show (services.serve w (.social op)).polity = w.polity from op.polity_step w]
    exact .unseen (fun _ h => (nomatch h))
  | sendSealedDmById fromId toId sealedForRecipient sealedForSender =>
    exact silent (Silent.ask fun _ => .okOr fun _ => Silent.ask fun _ => .okOr fun _ =>
      silent_sendSealedDmCore _ _ _ _) (fun _ h => (nomatch h))
  | blockUserById blockerId blockedId =>
    exact silent (.bind (silent_pairById _ _) fun _ => silent_blockBetween _ _)
      (fun _ h => (nomatch h))
  | requestFriendById requesterId addresseeId =>
    exact silent (.bind (silent_pairById _ _) fun _ => silent_requestFriendBetween _ _)
      (fun _ h => (nomatch h))
  | acceptFriendById accepterId requesterId =>
    exact silent (.bind (silent_pairById _ _) fun _ => silent_acceptFriendBetween _ _)
      (fun _ h => (nomatch h))
  | setDmPolicy handle policy => exact silent (silent_setDmPolicy _ _) (fun _ h => (nomatch h))
  | publishKeys handle publicKey wrappedSecret =>
    exact silent (silent_publishKeys _ _ _) (fun _ h => (nomatch h))
  | enableChannelEncryption handle serverSlug channelName historyMode =>
    rcases enableChannelEncryption_cases w handle serverSlug channelName historyMode with
      ⟨e, herror⟩ | ⟨server, x, hencrypts, hexec⟩
    · rw [Services.serve, herror]
      exact .unseen (fun _ h => (nomatch h))
    · rw [Services.serve, hexec]
      exact .encrypted hencrypts
  | grantChannelKey => exact silent (silent_grantChannelKey _ _ _ _ _ _) (fun _ h => (nomatch h))
  | addEmoji => exact silent (silent_addEmoji _ _ _ _) (fun _ h => (nomatch h))
  | voteEmoji => exact silent (silent_voteEmoji _ _ _ _) (fun _ h => (nomatch h))

/-! ## Invariants -/

section Keep

variable {services : Services} {I : Polity → Prop}
  (hclock : ∀ (c : Polity) now, I c → I { c with now := now })
  (hmove : ∀ c c', I c → Move c c' → I c')
  (hfound : ∀ (c : Polity) slug name founder isPrivate, I c →
    I (c.found slug name founder isPrivate))
  (hadmission : ∀ (c : Polity) m, I c → c.roster.get m.key = some m → m.isCitizen = false →
    I { c with roster := c.roster.insert (m.admittedAt c.now) })
  (hencrypt : ∀ (c : Polity) x historyMode, I c → c.channels.get x.id = some x →
    I (c.encrypt x historyMode))

include hclock hmove hfound hadmission

theorem Acts.keeps {w : World} {op : Op} {c : Polity} (h : Acts w op c) (hI : I w.polity) :
    I c := by
  have hstepped := h.stepped
  cases hstepped with
  | clock now => exact hclock _ now hI
  | moves _ h => exact h.keep hmove hI
  | founded => exact hfound _ _ _ _ _ hI
  | @admitted _ _ _ _ m hadmits =>
    exact hadmission _ m hI (roster_get_of_getMembership hadmits.memberFound) hadmits.notCitizen

include hencrypt

/-- What the operations keep and encryption keeps, every use-case keeps. -/
theorem Services.serve_keeps (w : World) (u : UseCase) (hI : I w.polity) :
    I (services.serve w u).polity := by
  have hserves := services.serves w u
  generalize (services.serve w u).polity = c at hserves ⊢
  cases hserves with
  | acted hacts => exact hacts.keeps hclock hmove hfound hadmission hI
  | encrypted hencrypts =>
    exact hencrypt _ _ _ hI (channels_get_of_findByName hencrypts.channelFound)
  | unseen => exact hI

theorem Services.Served.polity_invariant (hempty : ∀ node now, I (World.empty node now).polity)
    {w : World} (hw : services.Served w) : I w.polity := by
  have hinv := hw.invariant (fun node now => hempty node now)
    (fun w u _ hI => serve_keeps hclock hmove hfound hadmission hencrypt w u hI)
  exact hinv

end Keep

section Served

variable {services : Services} {w : World} (hw : services.Served w)
include hw

theorem Services.Served.messagesPlaced : MessagesPlaced w.polity := by
  refine polity_invariant ?_ ?_ ?_ ?_ ?_ ?_ hw
  · exact fun _ _ h => ⟨h.channels, h.messages⟩
  · exact fun _ _ h hmove => h.move hmove
  · exact fun _ _ _ _ _ h => ⟨h.channels, h.messages⟩
  · exact fun _ _ h _ _ => ⟨h.channels, h.messages⟩
  · intro c x historyMode h hx
    refine ⟨forall_insert h.channels (h.channels x (Table.mem_of_get hx)), fun m hm => ?_⟩
    obtain ⟨y, hy, hserver⟩ := h.messages m hm
    by_cases hid : m.channelId = x.id
    · rw [hid, hx] at hy
      obtain rfl := Option.some.inj hy
      rw [hid]
      exact ⟨_, c.encrypt_get_self x historyMode, hserver⟩
    · exact ⟨y, (c.encrypt_get_of_ne x historyMode hid).trans hy, hserver⟩
  · exact fun _ _ => ⟨fun _ h => (nomatch h), fun _ h => (nomatch h)⟩

theorem Services.Served.rolesPlaced : RolesPlaced w.polity := by
  refine polity_invariant ?_ ?_ ?_ ?_ ?_ ?_ hw
  · exact fun _ _ h => ⟨h.roles, h.assignments⟩
  · exact fun _ _ h hmove => h.move hmove
  · exact fun _ _ _ _ _ h => ⟨h.roles, h.assignments⟩
  · exact fun _ _ h _ _ => ⟨h.roles, h.assignments⟩
  · exact fun _ _ _ h _ => ⟨h.roles, h.assignments⟩
  · exact fun _ _ => ⟨fun _ h => (nomatch h), fun _ h => (nomatch h)⟩

end Served

/-! ## Members stay -/

/-- Nobody leaves a server. -/
theorem Services.member_serve (services : Services) {w : World} {user : UserId} {sid : ServerId}
    (h : (w.polity.roster.member user sid).isSome) (u : UseCase) :
    ((services.serve w u).polity.roster.member user sid).isSome := by
  refine Services.serve_keeps (I := fun c => (c.roster.member user sid).isSome) ?_ ?_ ?_ ?_ ?_ w u h
  · exact fun _ _ h => h
  · intro c c' h hmove
    obtain ⟨m, hm⟩ := Option.isSome_iff_exists.1 h
    obtain ⟨m', hm', -⟩ := hmove.keeps.old hm
    exact Option.isSome_iff_exists.2 ⟨m', hm'⟩
  · exact fun _ _ _ _ _ h => Table.isSome_get_insert h
  · exact fun _ _ h _ _ => Table.isSome_get_insert h
  · exact fun _ _ _ h _ => h

/-! ## One channel -/

/-- Whatever stands under the identifier, which has been minted, is as `P` says. -/
structure Slot (P : Channel → Prop) (id : ChannelId) (c : Polity) : Prop where
  minted : Minted c.node c.nextChannel id
  holds : ∀ x, c.channels.get id = some x → P x

namespace Slot

variable {P : Channel → Prop} {id : ChannelId} {c c' : Polity}

theorem addChannel (h : Slot P id c) (sid : ServerId) (name topic : String) (now : Timestamp) :
    Slot P id (c.addChannel sid name topic now) where
  minted := h.minted.succ
  holds := by
    intro x hx
    have hget := Table.get_insert_of_ne c.channels
      (v := .new (composeId c.node (c.nextChannel + 1)) sid name topic now) h.minted.ne_composeId
    exact h.holds x (hget.symm.trans hx)

theorem enacted (h : Slot P id c) {sid : ServerId} {kind : ProposalKind} {now : Timestamp}
    (he : Enacted sid kind now c c') : Slot P id c' := by
  cases he with
  | addChannel name topic _ _ => exact h.addChannel sid name topic now
  | removeChannel _ _ => exact ⟨h.minted, fun x hx => h.holds x (Table.get_of_erase hx)⟩
  | assign => unfold Polity.assign; split <;> exact ⟨h.minted, h.holds⟩
  | _ => exact ⟨h.minted, h.holds⟩

theorem move (h : Slot P id c) (hmove : Move c c') : Slot P id c' := by
  cases hmove with
  | addChannel name topic _ _ => exact h.addChannel _ name topic _
  | @apply p _ hdue =>
    rw [Polity.applyIfDue, if_pos hdue]
    have henacted := h.enacted (enacted_enact c p.serverId p.kind c.now)
    exact ⟨henacted.minted, henacted.holds⟩
  | _ => exact ⟨h.minted, h.holds⟩

theorem serve (hP : ∀ x historyMode, P x → P (x.enableEncryption historyMode)) {w : World}
    (h : Slot P id w.polity) (services : Services) (u : UseCase) :
    Slot P id (services.serve w u).polity := by
  refine Services.serve_keeps ?_ ?_ ?_ ?_ ?_ w u h
  · exact fun _ _ h => ⟨h.minted, h.holds⟩
  · exact fun _ _ h hmove => h.move hmove
  · exact fun _ _ _ _ _ h => ⟨h.minted, h.holds⟩
  · exact fun _ _ h _ _ => ⟨h.minted, h.holds⟩
  · intro c x historyMode h hx
    refine ⟨h.minted, fun y hy => ?_⟩
    by_cases hid : id = x.id
    · rw [hid, c.encrypt_get_self] at hy
      obtain rfl := Option.some.inj hy
      exact hP x historyMode (h.holds x (hid ▸ hx))
    · exact h.holds y ((c.encrypt_get_of_ne x historyMode hid).symm.trans hy)

end Slot

/-! ## Encrypted channels -/

def Polity.Encrypted (c : Polity) (id : ChannelId) : Prop :=
  ∃ x, c.channels.get id = some x ∧ x.isEncrypted = true

section Encrypted

variable {c c' : Polity} {id : ChannelId}

theorem Polity.Encrypted.of_enacted {sid : ServerId} {kind : ProposalKind} {now : Timestamp}
    (he : Enacted sid kind now c c') (h : c'.Encrypted id) : c.Encrypted id := by
  obtain ⟨x, hx, hencrypted⟩ := h
  cases he with
  | addChannel name topic _ _ =>
    rcases Table.get_of_insert hx with rfl | hold
    · cases hencrypted
    · exact ⟨x, hold, hencrypted⟩
  | removeChannel _ _ => exact ⟨x, Table.get_of_erase hx, hencrypted⟩
  | assign => unfold Polity.assign at hx; split at hx <;> exact ⟨x, hx, hencrypted⟩
  | _ => exact ⟨x, hx, hencrypted⟩

theorem Polity.Encrypted.of_move (hmove : Move c c') (h : c'.Encrypted id) : c.Encrypted id := by
  cases hmove with
  | addChannel name topic _ _ =>
    obtain ⟨x, hx, hencrypted⟩ := h
    rcases Table.get_of_insert hx with rfl | hold
    · cases hencrypted
    · exact ⟨x, hold, hencrypted⟩
  | @apply p _ hdue =>
    rw [Polity.applyIfDue, if_pos hdue] at h
    exact of_enacted (enacted_enact c p.serverId p.kind c.now) h
  | _ => exact h

/-- A channel that a use-case leaves encrypted was so before, or the use-case did it. -/
theorem Services.encrypted_serve (services : Services) {w : World} {u : UseCase}
    (h : (services.serve w u).polity.Encrypted id) :
    w.polity.Encrypted id ∨ ∃ handle serverSlug channelName historyMode server x,
      u = .enableChannelEncryption handle serverSlug channelName historyMode ∧
      Encrypts w handle serverSlug channelName server x ∧ x.id = id := by
  have hserves := services.serves w u
  generalize (services.serve w u).polity = c at hserves h
  cases hserves with
  | acted hacts =>
    refine .inl ?_
    refine hacts.keeps (I := fun c => c.Encrypted id → w.polity.Encrypted id) ?_ ?_ ?_ ?_ (fun h => h) h
    · exact fun _ _ ih => ih
    · exact fun _ _ ih hmove h => ih (.of_move hmove h)
    · exact fun _ _ _ _ _ ih => ih
    · exact fun _ _ ih _ _ => ih
  | @encrypted _ _ _ historyMode _ x hencrypts =>
    by_cases hid : id = x.id
    · exact .inr ⟨_, _, _, _, _, x, rfl, hencrypts, hid.symm⟩
    · obtain ⟨y, hy, hencrypted⟩ := h
      exact .inl ⟨y, (w.polity.encrypt_get_of_ne x historyMode hid).symm.trans hy, hencrypted⟩
  | unseen => exact .inl h

end Encrypted

end Democrachat
