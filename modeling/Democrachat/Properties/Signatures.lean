import Democrachat.Federation.Rows
import Democrachat.Polity.Ballots
import Democrachat.Polity.Posting
import Democrachat.Properties.InviteOnly
import Democrachat.Properties.Sanctions
import Democrachat.System.Frames

/-!
# In whose name the rows stand

Most rows of the store stand in somebody's name.  A use-case writes such rows in the name of
whoever asks for it, and in nobody else's.
-/

namespace Democrachat

open Library Req

/-- In whose name the row stands.  The verdict on a proposal is the server's, the acceptance of a
friend the addressee's. -/
def Row.signer : Row → Option UserId
  | message m => some m.author
  | reaction r => some r.user
  | proposal p => if p.status = .open_ then some p.proposer else none
  | vote v => some v.voter
  | emoji e => some e.addedBy
  | emojiVote v => some v.voter
  | dm m => some m.sender
  | block b => some b.blocker
  | friendship f => some (if f.areFriends then f.addressee else f.requester)
  | userKeys k => some k.userId
  | user _ | server _ | invite _ | membership _ | channel _ | rule _ | role _ | roleAssignment _ |
    channelGrant _ => none

/-- The part whose ports store the row. -/
def Row.part : Row → Part
  | user _ => .accounts
  | server _ => .servers
  | invite _ => .invites
  | membership _ => .members
  | channel _ => .channels
  | message _ => .messages
  | reaction _ => .reactions
  | proposal _ => .proposals
  | vote _ => .votes
  | rule _ => .rules
  | role _ | roleAssignment _ => .roles
  | emoji _ | emojiVote _ => .emojis
  | dm _ | block _ | friendship _ => .social
  | userKeys _ | channelGrant _ => .keys

theorem Row.part_of_signer {row : Row} {who : UserId} (h : row.signer = some who) :
    (∃ m, row = .message m) ∨ (∃ p, row = .proposal p) ∨
      row.part ∈ [.reactions, .votes, .emojis, .social, .keys] := by
  cases row with
  | message m => exact .inl ⟨m, rfl⟩
  | proposal p => exact .inr (.inl ⟨p, rfl⟩)
  | user | server | invite | membership | channel | rule | role | roleAssignment | channelGrant =>
    cases h
  | _ => exact .inr (.inr (by simp [part]))

/-- In whose name the row stands that the mutation stores. -/
def Mutation.signer : Mutation → Option UserId
  | insertMessage m | updateMessage m => (Row.message m).signer
  | addReaction r => (Row.reaction r).signer
  | insertProposal p | updateProposal p => (Row.proposal p).signer
  | upsertVote v => (Row.vote v).signer
  | insertEmoji e => (Row.emoji e).signer
  | upsertEmojiVote v => (Row.emojiVote v).signer
  | putKeys k => (Row.userKeys k).signer
  | sendDm sender _ _ _ _ => some sender
  | addBlock b => (Row.block b).signer
  | addFriendship f | updateFriendship f => (Row.friendship f).signer
  | _ => none

/-! ## One mutation -/

theorem mem_recordEmojiVote {votes : List EmojiVote} {v x : EmojiVote}
    (h : x ∈ recordEmojiVote votes v) : x ∈ votes ∨ x = v := by
  rcases List.mem_append.1 h with hold | hnew
  · exact .inl (List.mem_filter.1 hold).1
  · exact .inr (List.mem_singleton.1 hnew)

/-- A row in somebody's name was there before, or it is the one that the mutation stores. -/
theorem Mutation.signs (m : Mutation) (s : Inner) {row : Row} {who : UserId}
    (hsigner : row.signer = some who) (h : (m.run s).Holds row) :
    s.Holds row ∨ m.signer = some who ∧ m.part = row.part := by
  cases m with
  | mint e => exact .inl (by cases e <;> cases row <;> exact h)
  | insertMessage x | updateMessage x =>
    cases row with
    | message y =>
      rcases Table.mem_insert.1 h with rfl | ⟨hold, -⟩
      · exact .inr ⟨hsigner, rfl⟩
      · exact .inl hold
    | _ => exact .inl h
  | addReaction x =>
    simp only [run, Inner.addReaction] at h
    split at h
    · exact .inl h
    · cases row with
      | reaction y =>
        rcases List.mem_append.1 h with hold | hnew
        · exact .inl hold
        · obtain rfl := List.mem_singleton.1 hnew
          exact .inr ⟨hsigner, rfl⟩
      | _ => exact .inl h
  | removeReaction =>
    simp only [run, Inner.removeReaction] at h
    split at h
    all_goals
      cases row with
      | reaction y => exact .inl (List.mem_filter.1 h).1
      | _ => exact .inl h
  | removeChannel id =>
    simp only [run, Inner.removeChannel] at h
    split at h
    · exact .inl h
    · cases row with
      | message y => exact .inl (Table.mem_retain.1 h).1
      | channel y => cases hsigner
      | _ => exact .inl h
  | insertProposal x | updateProposal x =>
    cases row with
    | proposal y =>
      rcases Table.mem_insert.1 h with rfl | ⟨hold, -⟩
      · exact .inr ⟨hsigner, rfl⟩
      · exact .inl hold
    | _ => exact .inl h
  | upsertVote x =>
    cases row with
    | vote y =>
      rcases mem_recordVote.1 h with ⟨hold, -⟩ | rfl
      · exact .inl hold
      · exact .inr ⟨hsigner, rfl⟩
    | _ => exact .inl h
  | insertEmoji x =>
    cases row with
    | emoji y =>
      rcases Table.mem_insert.1 h with rfl | ⟨hold, -⟩
      · exact .inr ⟨hsigner, rfl⟩
      · exact .inl hold
    | _ => exact .inl h
  | upsertEmojiVote x =>
    cases row with
    | emojiVote y =>
      rcases mem_recordEmojiVote h with hold | rfl
      · exact .inl hold
      · exact .inr ⟨hsigner, rfl⟩
    | _ => exact .inl h
  | putKeys x =>
    cases row with
    | userKeys y =>
      rcases Table.mem_insert.1 h with rfl | ⟨hold, -⟩
      · exact .inr ⟨hsigner, rfl⟩
      · exact .inl hold
    | _ => exact .inl h
  | sendDm sender recipient sealedForRecipient sealedForSender createdAt =>
    cases row with
    | dm y =>
      rcases List.mem_append.1 h with hold | hnew
      · exact .inl hold
      · obtain rfl := List.mem_singleton.1 hnew
        exact .inr ⟨hsigner, rfl⟩
    | _ => exact .inl h
  | addBlock x =>
    simp only [run, Inner.addBlock] at h
    split at h
    · exact .inl h
    · cases row with
      | block y =>
        rcases List.mem_append.1 h with hold | hnew
        · exact .inl hold
        · obtain rfl := List.mem_singleton.1 hnew
          exact .inr ⟨hsigner, rfl⟩
      | _ => exact .inl h
  | addFriendship x =>
    simp only [run, Inner.addFriendship] at h
    split at h
    · exact .inl h
    · cases row with
      | friendship y =>
        rcases List.mem_append.1 h with hold | hnew
        · exact .inl hold
        · obtain rfl := List.mem_singleton.1 hnew
          exact .inr ⟨hsigner, rfl⟩
      | _ => exact .inl h
  | updateFriendship x =>
    simp only [run, Inner.updateFriendship] at h
    split at h
    · cases row with
      | friendship y =>
        rcases mem_replaceFriendship h with hold | rfl
        · exact .inl hold
        · exact .inr ⟨hsigner, rfl⟩
      | _ => exact .inl h
    · exact .inl h
  | removeRule | removeRole | assign | unassign | revokeInvite =>
    -- They change rows that stand in nobody's name.
    simp only [run, Inner.removeRule, Inner.removeRole, Inner.assign, Inner.unassign,
      Inner.revokeInvite] at h
    split at h
    all_goals
      cases row with
      | rule | role | roleAssignment | invite => cases hsigner
      | _ => exact .inl h
  | _ =>
    cases row with
    | user | server | membership | channel | rule | role | invite | channelGrant => cases hsigner
    | _ => exact .inl h

/-! ## What comes in -/

/-- Whatever has come in in somebody's name is in the name of one of these. -/
def SignedBy (P : UserId → Prop) (s t : Inner) : Prop :=
  ∀ (row : Row) (who : UserId), row.signer = some who → t.Holds row → s.Holds row ∨ P who

namespace SignedBy

variable {P : UserId → Prop}

theorem refl (s : Inner) : SignedBy P s s := fun _ _ _ h => .inl h

theorem trans (s t u : Inner) (h : SignedBy P s t) (h' : SignedBy P t u) : SignedBy P s u := by
  intro row who hsigner hrow
  rcases h' row who hsigner hrow with hold | hwho
  · exact h row who hsigner hold
  · exact .inr hwho

theorem run {m : Mutation} (h : ∀ who, m.signer = some who → P who) (s : Inner) :
    SignedBy P s (m.run s) := by
  intro row who hsigner hrow
  exact (m.signs s hsigner hrow).imp id fun hm => h who hm.1

theorem insertDm {dm : DmMessage} (h : P dm.sender) (s : Inner) : SignedBy P s (s.insertDm dm) := by
  intro row who hsigner hrow
  cases row with
  | dm y =>
    rcases List.mem_append.1 hrow with hold | hnew
    · exact .inl hold
    · obtain rfl := List.mem_singleton.1 hnew
      exact .inr (Option.some.inj hsigner ▸ h)
  | _ => exact .inl hrow

theorem write {m : Mutation} {f : Inner → Inner} (hf : ∀ s, f s = m.run s)
    (h : ∀ who, m.signer = some who → P who) :
    (Democrachat.write f).Guarantees (Stores (SignedBy P)) := by
  refine guarantees_write fun w => ?_
  show SignedBy P w.store (f w.store)
  rw [hf]
  exact run h w.store

theorem transact {α : Type} {m : Mutation} {f : Inner → α × Inner} (hf : ∀ s, (f s).2 = m.run s)
    (h : ∀ who, m.signer = some who → P who) :
    (Democrachat.transact f).Guarantees (Stores (SignedBy P)) := by
  refine guarantees_transact fun w => ?_
  show SignedBy P w.store (f w.store).2
  rw [hf]
  exact run h w.store

theorem ask {α β ε : Type} {f : Inner → α} {k : α → Req World ε β}
    (hk : ∀ a, WritesOnly (Stores (SignedBy P)) (k a)) :
    WritesOnly (Stores (SignedBy P)) ((liftM (Democrachat.ask f) : Req World ε α) >>= k) :=
  Stores.ask refl hk

theorem clockNow {β ε : Type} {k : Timestamp → Req World ε β}
    (hk : ∀ a, WritesOnly (Stores (SignedBy P)) (k a)) :
    WritesOnly (Stores (SignedBy P)) ((liftM Democrachat.clockNow : Req World ε Timestamp) >>= k) :=
  Stores.clockNow refl hk

theorem exec {α ε : Type} {r : Req World ε α} (hr : WritesOnly (Stores (SignedBy P)) r)
    (w : World) : SignedBy P w.store (r.exec w).2.store :=
  Stores.exec refl trans hr w

/-- The rest of a request knows what it has found. -/
theorem found {α β ε : Type} {f : Inner → Option α} {e : ε} {k : α → Req World ε β} {w : World}
    (h : ∀ a, f w.store = some a → SignedBy P w.store ((k a).exec w).2.store) :
    SignedBy P w.store
      (((liftM (Democrachat.ask f) : Req World ε (Option α)) >>= fun o => okOr o e >>= k).exec
        w).2.store := by
  rw [req_ask_bind, exec_okOr_bind]
  cases hfound : f w.store with
  | none => exact refl w.store
  | some a => exact h a hfound

theorem pairByHandle {β : Type} {handle other : String}
    {k : User × User → Req World SocialError β} {w : World}
    (h : ∀ user other, w.store.findByHandle (trim handle) = some user →
      SignedBy P w.store ((k (user, other)).exec w).2.store) :
    SignedBy P w.store ((Democrachat.pairByHandle handle other >>= k).exec w).2.store := by
  simp only [Democrachat.pairByHandle, Req.bind_assoc]
  refine found fun user huser => found fun other _ => ?_
  rw [exec_bind, exec_pure]
  exact h user other huser

theorem pairById {β : Type} {id other : UserId} {k : User × User → Req World SocialError β}
    {w : World}
    (h : ∀ user other, w.store.getUser id = some user →
      SignedBy P w.store ((k (user, other)).exec w).2.store) :
    SignedBy P w.store ((Democrachat.pairById id other >>= k).exec w).2.store := by
  simp only [Democrachat.pairById, Req.bind_assoc]
  refine found fun user huser => found fun other _ => ?_
  rw [exec_bind, exec_pure]
  exact h user other huser

theorem editMembership (user : UserId) (server : ServerId) (f : Membership → Membership) :
    (Democrachat.editMembership user server f).Guarantees (Stores (SignedBy P)) := by
  apply Prog.Guarantees.bind (guarantees_ask (fun w => refl w.store) _)
  intro m
  cases m with
  | none => trivial
  | some m => exact write (m := .upsertMembership (f m)) (fun _ => rfl) fun _ h => nomatch h

end SignedBy

/-! ## Who asks -/

/-- The account for which a forwarded command asks. -/
def UseCase.callerId : UseCase → Option UserId
  | .op (.castVoteById id _ _) | .sendSealedDmById id _ _ _ | .blockUserById id _ |
    .requestFriendById id _ | .acceptFriendById id _ => some id
  | _ => none

/-- The account asks for the use-case. -/
def UseCase.Calls (w : World) (u : UseCase) (who : UserId) : Prop :=
  u.callerId = some who ∨ ∃ handle user, u.caller = some handle ∧
    w.store.findByHandle (trim handle) = some user ∧ user.id = who

theorem UseCase.Calls.of_handle {w : World} {u : UseCase} {handle : String}
    (hcaller : u.caller = some handle) (user : User)
    (huser : w.store.findByHandle (trim handle) = some user) : u.Calls w user.id :=
  .inr ⟨handle, user, hcaller, huser, rfl⟩

theorem UseCase.Calls.of_id {w : World} {u : UseCase} {id : UserId} (hcaller : u.callerId = some id)
    (user : User) (huser : w.store.getUser id = some user) : u.Calls w user.id := by
  rw [show user.id = id from Table.key_of_get huser]
  exact .inl hcaller

/-! ## The use-cases that write in a name -/

namespace SignedBy

variable {P : UserId → Prop}

theorem signs_eq {id : UserId} (h : P id) (who : UserId) (hwho : some id = some who) : P who :=
  Option.some.inj hwho ▸ h

theorem castVoteAs {id : UserId} (h : P id) (proposalId : ProposalId) (isAye : Bool) :
    WritesOnly (Stores (SignedBy P)) (Democrachat.castVoteAs id proposalId isAye) :=
  ask fun _ => .okOr fun _ => .ensure <| ask fun _ => .ensure <|
    .last (write (m := .upsertVote _) (fun _ => rfl) (signs_eq h))

theorem sendSealedDmCore {sender : User} (h : P sender.id) (recipient : User)
    (sealedForRecipient sealedForSender : String) :
    WritesOnly (Stores (SignedBy P))
      (Democrachat.sendSealedDmCore sender recipient sealedForRecipient sealedForSender) := by
  have hmay : (mayDm sender recipient).Guarantees (Stores (SignedBy P)) :=
    .bind (guarantees_ask (fun w => refl w.store) _) fun _ =>
      .bind (guarantees_ask (fun w => refl w.store) _) fun _ => Prog.guarantees_pure _
  exact .ensure <| .ensure <| .step hmay fun _ => .ensure <|
    .step (transact (m := .mint .dm) (fun _ => rfl) fun _ h => nomatch h) fun _ =>
    clockNow fun _ => .step (guarantees_write fun w => insertDm h w.store) fun _ => .pure _

theorem blockBetween {blocker : User} (h : P blocker.id) (blocked : User) :
    WritesOnly (Stores (SignedBy P)) (Democrachat.blockBetween blocker blocked) :=
  .ensure <| clockNow fun _ =>
    .step (transact (m := .addBlock _) (fun _ => rfl) (signs_eq h)) fun _ => .pure _

theorem requestFriendBetween {requester : User} (h : P requester.id) (addressee : User) :
    WritesOnly (Stores (SignedBy P)) (Democrachat.requestFriendBetween requester addressee) :=
  .ensure <| clockNow fun _ =>
    .step (transact (m := .addFriendship (.request requester.id addressee.id _)) (fun _ => rfl)
      (signs_eq h)) fun _ => .pure _

variable {w : World}

/-- Whoever accepts is the addressee. -/
theorem acceptFriendBetween {me : User} (h : P me.id) (other : User) :
    SignedBy P w.store ((Democrachat.acceptFriendBetween me other).exec w).2.store := by
  simp only [Democrachat.acceptFriendBetween, req_ask_bind, exec_okOr_bind]
  split
  next f hfound =>
    obtain ⟨-, hpending⟩ := Option.filter_eq_some_iff.1 hfound
    simp only [Bool.and_eq_true, beq_iff_eq] at hpending
    rw [← hpending.2] at h
    exact exec (.last (write (m := .updateFriendship f.accept) (fun _ => rfl) (signs_eq h))) w
  next => exact refl w.store

section

variable {handle : String}
  (h : ∀ user, w.store.findByHandle (trim handle) = some user → P user.id)

include h

theorem react (messageId : MessageId) (emoji : String) :
    SignedBy P w.store ((Democrachat.react handle messageId emoji).exec w).2.store := by
  simp only [Democrachat.react, exec_ensure_bind]
  split
  next =>
    refine found fun user huser => exec ?_ w
    exact ask fun _ => .okOr fun _ => ask fun _ => .okOr fun _ => ask fun _ =>
      .step (transact (m := .addReaction _) (fun _ => rfl) (signs_eq (h user huser))) fun _ =>
      WritesOnly.ite (.last (editMembership _ _ _)) (.pure _)
  next => exact refl w.store

theorem openProposal (serverSlug : String) (kind : ProposalKind) :
    SignedBy P w.store ((Democrachat.openProposal handle serverSlug kind).exec w).2.store := by
  refine found fun user huser => exec ?_ w
  exact ask fun _ => .okOr fun _ => ask fun _ => .ensure <| .ensure <| ask fun _ => .ensure <|
    clockNow fun _ =>
    .step (transact (m := .mint .proposal) (fun _ => rfl) fun _ h => nomatch h) fun _ =>
    .step (write (m := .insertProposal _) (fun _ => rfl) (signs_eq (h user huser))) fun _ =>
    .pure _

theorem publishKeys (publicKey : String) (wrappedSecret : WrappedKey) :
    SignedBy P w.store ((Democrachat.publishKeys handle publicKey wrappedSecret).exec w).2.store := by
  refine found fun user huser => exec ?_ w
  exact .ensure <|
    .last (write (m := .putKeys _) (fun _ => rfl) (signs_eq (h user huser)))

theorem addEmoji (serverSlug name url : String) :
    SignedBy P w.store ((Democrachat.addEmoji handle serverSlug name url).exec w).2.store := by
  refine found fun _ _ => found fun user huser => exec ?_ w
  exact ask fun _ => .okOr fun _ => .ensure <| ask fun _ => .ensure <|
    .step (transact (m := .mint .emoji) (fun _ => rfl) fun _ h => nomatch h) fun _ =>
    clockNow fun _ =>
    .step (write (m := .insertEmoji _) (fun _ => rfl) (signs_eq (h user huser))) fun _ => .pure _

theorem voteEmoji (serverSlug : String) (emojiId : EmojiId) (isUp : Bool) :
    SignedBy P w.store ((Democrachat.voteEmoji handle serverSlug emojiId isUp).exec w).2.store := by
  refine found fun _ _ => found fun user huser => exec ?_ w
  exact ask fun _ => .okOr fun _ => ask fun _ => .okOr fun _ =>
    .last (write (m := .upsertEmojiVote _) (fun _ => rfl) (signs_eq (h user huser)))

end

/-- Nothing is written in anybody's name when a reaction is taken back. -/
theorem unreact (handle : String) (messageId : MessageId) (emoji : String) :
    WritesOnly (Stores (SignedBy P)) (Democrachat.unreact handle messageId emoji) :=
  ask fun _ => .okOr fun _ => ask fun _ => .okOr fun _ =>
    .step (transact (m := .removeReaction _ _ _) (fun _ => rfl) fun _ h => nomatch h) fun _ =>
    WritesOnly.ite
      (ask fun _ => ask fun _ => WritesOnly.ite (.last (editMembership _ _ _)) (.pure _))
      (.pure _)

/-- A grant stands in nobody's name. -/
theorem grantChannelKey (granterHandle serverSlug channelName : String) (epoch : Nat)
    (memberHandle sealedKey : String) :
    WritesOnly (Stores (SignedBy P))
      (Democrachat.grantChannelKey granterHandle serverSlug channelName epoch memberHandle
        sealedKey) :=
  ask fun _ => .okOr fun _ => ask fun _ => .okOr fun _ => ask fun _ => .okOr fun _ =>
    ask fun _ => .okOr fun _ => .ensure <| ask fun _ => .okOr fun _ => ask fun _ => .okOr fun _ =>
    .ensure <| .last (write (m := .putGrant _) (fun _ => rfl) fun _ h => nomatch h)

end SignedBy

/-! ## The sweep of proposals -/

/-- No proposal has been opened. -/
def OpensNone (c c' : Polity) : Prop :=
  ∀ p ∈ c'.proposals.rows, p.status = .open_ → p ∈ c.proposals.rows

namespace OpensNone

variable {c c' c'' : Polity}

theorem congr (h : OpensNone c c') (hproposals : c''.proposals = c'.proposals) :
    OpensNone c c'' := by
  rw [OpensNone, hproposals]
  exact h

theorem put (h : OpensNone c c') {p : Proposal} (hp : p.status ≠ .open_) :
    OpensNone c (c'.putProposal p) := by
  intro q hq hopen
  rcases Table.mem_insert.1 hq with rfl | ⟨hold, -⟩
  · exact absurd hopen hp
  · exact h q hold hopen

theorem sweepOne (h : OpensNone c c') (σ : Session) (p : Proposal) :
    OpensNone c (c'.sweepOne σ p) := by
  have hclosed : OpensNone c (c'.closeIfDue σ p) := by
    unfold Polity.closeIfDue
    split
    next hdue =>
      apply h.put
      rw [Polity.closed, if_pos hdue]
      exact p.closedStatus_ne_open _ _ _ _
    next => exact h
  unfold Polity.sweepOne Polity.applyIfDue
  split
  next hdue =>
    apply put
    · have henacted := enacted_enact (c'.closeIfDue σ p) (c'.closed σ p).serverId
        (c'.closed σ p).kind σ.now
      exact hclosed.congr henacted.sameBallots.proposals
    · intro hopen
      have hopen' : (c'.closed σ p).status = .open_ := hopen
      rw [Proposal.applyDue, hopen'] at hdue
      cases hdue
  next => exact hclosed

theorem resolveDue (c : Polity) (serverSlug : String) : OpensNone c (c.resolveDue serverSlug) := by
  unfold Polity.resolveDue
  split
  next => exact fun p hp _ => hp
  next server _ =>
    have hsweep : ∀ ps c', OpensNone c c' → OpensNone c (c'.sweep (c.session server) ps) := by
      intro ps
      induction ps with
      | nil => exact fun _ h => h
      | cons p ps ih => exact fun c' h => ih _ (h.sweepOne (c.session server) p)
    exact hsweep _ c fun p hp _ => hp

end OpensNone

/-! ## All use-cases -/

section All

variable {services : Services} {w : World}

/-- Parts that a use-case does not touch gain no rows in anybody's name. -/
theorem Services.holds_before (services : Services) {u : UseCase} {row : Row} {who : UserId}
    (hsigner : row.signer = some who) (hpart : u.parts.contains row.part = false)
    (h : (services.serve w u).store.Holds row) : w.store.Holds row := by
  have hcommon : Common u.parts (fun s t => t.Holds row → s.Holds row) := by
    refine ⟨fun _ h => h, fun _ _ _ h h' hrow => h (h' hrow), ?_, ?_⟩
    · intro m hm s hrow
      rcases m.signs s hsigner hrow with hold | ⟨-, hsame⟩
      · exact hold
      · rw [hsame, hpart] at hm
        cases hm
    · intro hsocial s dm hrow
      cases row with
      | dm y => exact absurd (hpart.symm.trans hsocial) (by decide)
      | _ => exact hrow
  exact services.serve_common hcommon w h

/-- A message that comes in or changes is its author's. -/
theorem Services.Served.message_signed (hw : services.Served w) (u : UseCase) {m : Message}
    (h : m ∈ (services.serve w u).store.messages.rows) :
    m ∈ w.store.messages.rows ∨ u.Calls w m.author := by
  have hpens := hw.pens u
  generalize services.serve w u = w' at hpens h
  have inserted : ∀ {x : Message}, w'.store.messages = w.store.messages.insert x →
      u.Calls w x.author → m ∈ w.store.messages.rows ∨ u.Calls w m.author := by
    intro x hmessages hcalls
    rw [hmessages] at h
    rcases Table.mem_insert.1 h with rfl | ⟨hold, -⟩
    · exact .inr hcalls
    · exact .inl hold
  cases hpens with
  | idle hmessages => exact .inl (hmessages ▸ h)
  | plain hcaller hdrafts hmessages _ =>
    obtain ⟨author, channel, parent, hmay, -, rfl⟩ := hdrafts.made
    obtain ⟨user, huser, hid⟩ := hmay.caller
    exact inserted hmessages (.inr ⟨_, user, hcaller, huser, hid⟩)
  | sealed_ hmay _ hmessages _ =>
    obtain ⟨user, huser, hid⟩ := hmay.caller
    exact inserted hmessages (.inr ⟨_, user, rfl, huser, hid⟩)
  | edited hauthors _ hmessages =>
    obtain ⟨user, huser, hid⟩ := hauthors.caller
    exact inserted hmessages (.inr ⟨_, user, rfl, huser, hid⟩)
  | deleted hauthors hmessages =>
    obtain ⟨user, huser, hid⟩ := hauthors.caller
    exact inserted hmessages (.inr ⟨_, user, rfl, huser, hid⟩)
  | swept _ hsifted => exact .inl (hsifted.kept m h)

/-- The use-case touches no part, that of the messages apart, whose rows stand in names. -/
def UseCase.isUnsigned (u : UseCase) : Bool :=
  [Part.proposals, .reactions, .votes, .emojis, .social, .keys].all
    fun part => !u.parts.contains part

theorem Services.Served.signed_elsewhere (hw : services.Served w) {u : UseCase}
    (hunsigned : u.isUnsigned = true) :
    SignedBy (u.Calls w) w.store (services.serve w u).store := by
  have hspared : ∀ part ∈ [Part.proposals, .reactions, .votes, .emojis, .social, .keys],
      u.parts.contains part = false := by
    intro part hpart
    simpa using List.all_eq_true.1 hunsigned part hpart
  intro row who hsigner hrow
  rcases Row.part_of_signer hsigner with ⟨m, rfl⟩ | ⟨p, rfl⟩ | hpart
  · obtain rfl := Option.some.inj hsigner
    exact hw.message_signed u hrow
  · exact .inl (services.holds_before hsigner (hspared .proposals List.mem_cons_self) hrow)
  · exact .inl (services.holds_before hsigner (hspared _ (List.mem_cons_of_mem _ hpart)) hrow)

theorem Services.Served.signed_sweep (hw : services.Served w) {op : Op} {serverSlug : String}
    (hparts : op.parts = governed)
    (hpolity : (services.step w op).polity = w.polity.resolveDue serverSlug) :
    SignedBy (UseCase.Calls w (.op op)) w.store (services.serve w (.op op)).store := by
  intro row who hsigner hrow
  rcases Row.part_of_signer hsigner with ⟨m, rfl⟩ | ⟨p, rfl⟩ | hpart
  · obtain rfl := Option.some.inj hsigner
    exact hw.message_signed _ hrow
  · have hopen : p.status = .open_ := by
      by_contra hdecided
      rw [Row.signer, if_neg hdecided] at hsigner
      cases hsigner
    have hnone := OpensNone.resolveDue w.polity serverSlug
    rw [← hpolity] at hnone
    exact .inl (hnone p hrow hopen)
  · refine .inl (services.holds_before hsigner ?_ hrow)
    show op.parts.contains row.part = false
    rw [hparts]
    revert hpart
    cases row.part <;> decide

theorem Services.Served.signed_op (hw : services.Served w) (op : Op) :
    SignedBy (UseCase.Calls w (.op op)) w.store (services.serve w (.op op)).store := by
  cases op with
  | react =>
    rw [Services.serve, Services.step]
    exact SignedBy.react (.of_handle rfl) _ _
  | unreact =>
    rw [Services.serve, Services.step]
    exact SignedBy.exec (SignedBy.unreact _ _ _) w
  | openProposal =>
    rw [Services.serve, Services.step]
    exact SignedBy.openProposal (.of_handle rfl) _ _
  | castVote =>
    rw [Services.serve, Services.step]
    refine SignedBy.found fun user huser => ?_
    exact SignedBy.exec (SignedBy.castVoteAs (.of_handle rfl user huser) _ _) w
  | castVoteById =>
    rw [Services.serve, Services.step]
    refine SignedBy.found fun user huser => ?_
    exact SignedBy.exec (SignedBy.castVoteAs (.of_id rfl user huser) _ _) w
  | resolveDue serverSlug => exact hw.signed_sweep rfl (polity_resolveDue w serverSlug)
  | listProposals serverSlug => exact hw.signed_sweep rfl (polity_listProposals w serverSlug)
  | _ => exact hw.signed_elsewhere rfl

/-- Whatever a use-case writes in somebody's name, that account has asked for. -/
theorem Services.Served.signed (hw : services.Served w) (u : UseCase) :
    SignedBy (u.Calls w) w.store (services.serve w u).store := by
  cases u with
  | op op => exact hw.signed_op op
  | social op =>
    cases op with
    | sendSealedDm =>
      refine SignedBy.found fun sender hsender => SignedBy.found fun _ _ => ?_
      exact SignedBy.exec (SignedBy.sendSealedDmCore (.of_handle rfl sender hsender) _ _ _) w
    | blockUser =>
      refine SignedBy.pairByHandle fun blocker _ hblocker => ?_
      exact SignedBy.exec (SignedBy.blockBetween (.of_handle rfl blocker hblocker) _) w
    | requestFriend =>
      refine SignedBy.pairByHandle fun requester _ hrequester => ?_
      exact SignedBy.exec (SignedBy.requestFriendBetween (.of_handle rfl requester hrequester) _) w
    | acceptFriend =>
      refine SignedBy.pairByHandle fun me other hme => ?_
      exact SignedBy.acceptFriendBetween (.of_handle rfl me hme) other
  | sendSealedDmById =>
    refine SignedBy.found fun sender hsender => SignedBy.found fun _ _ => ?_
    exact SignedBy.exec (SignedBy.sendSealedDmCore (.of_id rfl sender hsender) _ _ _) w
  | blockUserById =>
    refine SignedBy.pairById fun blocker _ hblocker => ?_
    exact SignedBy.exec (SignedBy.blockBetween (.of_id rfl blocker hblocker) _) w
  | requestFriendById =>
    refine SignedBy.pairById fun requester _ hrequester => ?_
    exact SignedBy.exec (SignedBy.requestFriendBetween (.of_id rfl requester hrequester) _) w
  | acceptFriendById =>
    refine SignedBy.pairById fun me other hme => ?_
    exact SignedBy.acceptFriendBetween (.of_id rfl me hme) other
  | publishKeys => exact SignedBy.publishKeys (.of_handle rfl) _ _
  | grantChannelKey => exact SignedBy.exec (SignedBy.grantChannelKey _ _ _ _ _ _) w
  | addEmoji => exact SignedBy.addEmoji (.of_handle rfl) _ _ _
  | voteEmoji => exact SignedBy.voteEmoji (.of_handle rfl) _ _ _
  | setDmPolicy => exact hw.signed_elsewhere rfl
  | enableChannelEncryption => exact hw.signed_elsewhere rfl

/-- An account that becomes a member has asked to found a server, to join it or to redeem an
invite of it. -/
theorem Services.calls_of_new_member (services : Services) {w : World} (u : UseCase)
    {who : UserId} {sid : ServerId} (hnone : w.store.getMembership who sid = none)
    (hsome : ((services.serve w u).store.getMembership who sid).isSome) : u.Calls w who := by
  have unchanged : ∀ {w' : World}, w'.store.memberships = w.store.memberships →
      ¬ (w'.store.getMembership who sid).isSome := by
    intro w' hsame hmember
    have hold : w'.store.getMembership who sid = none := by
      rw [← hnone]
      exact congrArg (Roster.member · who sid) hsame
    rw [hold] at hmember
    cases hmember
  by_cases hparts : u.parts.contains .members = true
  · cases u with
    | op op =>
      have henters := enters_of_new services op hnone hsome
      cases henters with
      | joined hjoins => exact .of_handle rfl _ hjoins.userFound
      | invited hredeems => exact .of_handle rfl _ hredeems.userFound
      | @founded founderHandle name isPrivate _ _ hdoor =>
        rcases foundServer_cases w founderHandle name isPrivate with
          ⟨-, hidle⟩ | ⟨founder, hfounds, -, hadded⟩
        · have hroster : (services.step w (.foundServer founderHandle name isPrivate)).polity =
              w.polity := hidle
          exact absurd hsome (unchanged (congrArg Polity.roster hroster))
        · have hstep : (services.step w (.foundServer founderHandle name isPrivate)).polity.roster =
              (w.polity.found (slugify name) (trim name) founder.id isPrivate).roster :=
            congrArg Polity.roster hadded
          have hnew : (Roster.member (services.step w (.foundServer founderHandle name
              isPrivate)).polity.roster who sid).isSome := hsome
          rw [hstep] at hnew
          obtain ⟨rfl, -⟩ := Roster.eq_of_new hnone hnew
          exact .of_handle rfl _ hfounds.userFound
    | _ => cases hparts
  · exact absurd hsome
      (unchanged ((spares_serve services w u).memberships (Bool.eq_false_iff.2 hparts)))

/-- What stands in an account's name: a row, or that it is a member. -/
inductive Mark where
  | row (row : Row)
  | member (user : UserId) (server : ServerId)

def Mark.signer : Mark → Option UserId
  | .row stored => stored.signer
  | .member user _ => some user

def Inner.Bears (s : Inner) : Mark → Prop
  | .row stored => s.Holds stored
  | .member user server => (s.getMembership user server).isSome

/-- Whatever comes to stand in somebody's name, that account has asked for. -/
theorem Services.Served.named (hw : services.Served w) (u : UseCase) {mark : Mark} {who : UserId}
    (hsigner : mark.signer = some who) (hbefore : ¬ w.store.Bears mark)
    (hafter : (services.serve w u).store.Bears mark) : u.Calls w who := by
  cases mark with
  | row row => exact (hw.signed u row who hsigner hafter).resolve_left hbefore
  | member user server =>
    obtain rfl := Option.some.inj hsigner
    exact services.calls_of_new_member u (Option.not_isSome_iff_eq_none.1 hbefore) hafter

/-- Accounts come and change, and nothing else. -/
theorem Services.unnamed (services : Services) (w : World) {u : UseCase}
    (hparts : ∀ part, part ≠ .accounts → u.parts.contains part = false) {mark : Mark}
    {who : UserId} (hsigner : mark.signer = some who)
    (hafter : (services.serve w u).store.Bears mark) : w.store.Bears mark := by
  cases mark with
  | row row =>
    apply services.holds_before hsigner (hparts row.part ?_) hafter
    intro haccounts
    cases row with
    | user => cases hsigner
    | _ => cases haccounts
  | member user server =>
    have hsame := (spares_serve services w u).memberships (hparts .members (by decide))
    have hmember : (Roster.member (services.serve w u).store.memberships user server).isSome :=
      hafter
    rw [hsame] at hmember
    exact hmember

end All

end Democrachat
