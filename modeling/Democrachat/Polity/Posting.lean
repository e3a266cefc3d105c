import Democrachat.Polity.UseCases

/-!
# What is written of messages

`Pens` lists what a use-case can do to the messages: one of the four ways of posting, an edit
and a deletion by the author, and the sweep of a removed channel.
-/

namespace Democrachat

open Library Req

section Requests

variable (w : World)

/-! ## Posting -/

/-- A plaintext request succeeded for a poster and a channel that is not encrypted. -/
structure Drafts (handle body : String) (attachments : List Attachment) (m : Message) : Prop where
  intro ::
  made : ∃ author channel parent, MayPost w handle channel author ∧
    channel.isEncrypted = false ∧ m = w.draft author channel body parent attachments

/-- What a plaintext request comes to. -/
structure Plain (handle body : String) (attachments : List Attachment)
    (r : Req World MessageError Message) : Prop where
  intro ::
  cases : (∃ e, r.exec w = (.error e, w)) ∨
    ∃ m, Drafts w handle body attachments m ∧ r.exec w = (.ok m, w.post m)

variable {w}

theorem plain_insertMessage {handle : String} {channel : Channel} {author : UserId}
    (hmay : MayPost w handle channel author) (body : String) (parent : Option MessageId)
    (attachments : List Attachment) :
    Plain w handle body attachments (insertMessage author channel body parent attachments) := by
  rcases insertMessage_cases w author channel body parent attachments with
    herror | ⟨hplain, hexec⟩
  · exact ⟨.inl herror⟩
  · exact ⟨.inr ⟨_, ⟨author, channel, parent, hmay, hplain, rfl⟩, hexec⟩⟩

theorem plain_resolvePoster {handle serverSlug channelName body : String}
    {attachments : List Attachment} {k : Channel × UserId → Req World MessageError Message}
    (h : ∀ channel author, MayPost w handle channel author →
      Plain w handle body attachments (k (channel, author))) :
    Plain w handle body attachments (resolvePoster handle serverSlug channelName >>= k) := by
  constructor
  rcases resolvePoster_cases w handle serverSlug channelName with
    ⟨e, herror⟩ | ⟨channel, author, hmay, hexec⟩
  · rw [exec_bind, herror]
    exact .inl ⟨e, rfl⟩
  · rw [exec_bind, hexec]
    exact (h channel author hmay).cases

theorem plain_postMessage (handle serverSlug channelName body : String) :
    Plain w handle body [] (postMessage handle serverSlug channelName body) :=
  plain_resolvePoster (fun _ _ hmay => plain_insertMessage hmay _ _ _)

theorem plain_postMessageWithAttachments (handle serverSlug channelName body : String)
    (attachments : List Attachment) :
    Plain w handle body attachments
      (postMessageWithAttachments handle serverSlug channelName body attachments) :=
  plain_resolvePoster (fun _ _ hmay => plain_insertMessage hmay _ _ _)

/-- The parent's server is its channel's, so the gate looks where the reply will stand. -/
theorem plain_replyMessage (hplaced : MessagesPlaced w.polity) (handle : String)
    (parentId : MessageId) (body : String) :
    Plain w handle body [] (replyMessage handle parentId body) := by
  constructor
  rcases replyMessage_cases w handle parentId body with
    herror | ⟨parent, channel, user, hreplies, hexec⟩
  · exact .inl herror
  · obtain ⟨x, hx, hserver⟩ := hplaced.messages parent (Table.mem_of_get hreplies.parentFound)
    obtain rfl := Option.some.inj (hx.symm.trans hreplies.channelFound)
    have hmay : MayPost w handle x user.id := by
      refine ⟨⟨user, hreplies.caller, rfl⟩, ?_, hreplies.channel_get⟩
      rw [hserver]
      exact hreplies.member
    rw [hexec]
    exact (plain_insertMessage hmay body (some parent.id) []).cases

variable (w)

theorem World.dropBlobs_messages (as : List Attachment) :
    (w.dropBlobs as).store.messages = w.store.messages := by
  have htouches : Touches [.media] w ((deleteBlobs as).exec w).2 :=
    Touches.of_guarantees (touches_deleteBlobs rfl as) w
  rw [exec_deleteBlobs] at htouches
  exact htouches.spares.messages rfl rfl

end Requests

/-! ## Removed channels -/

/-- Of the messages those are left whose channel is. -/
structure Sifted (c c' : Polity) : Prop where
  kept : ∀ m ∈ c'.messages.rows, m ∈ c.messages.rows
  minted : ∀ m ∈ c.messages.rows, Minted c'.node c'.nextChannel m.channelId
  lost : ∀ m ∈ c.messages.rows, m ∈ c'.messages.rows ∨ c'.channels.get m.channelId = none

namespace Sifted

variable {c c' c'' : Polity}

theorem refl (h : MessagesPlaced c) : Sifted c c where
  kept := fun _ hm => hm
  minted := by
    intro m hm
    obtain ⟨x, hx, -⟩ := h.messages m hm
    exact Table.key_of_get hx ▸ h.channels x (Table.mem_of_get hx)
  lost := fun _ hm => .inl hm

/-- A write of neither the channels nor the messages. -/
theorem congr (h : Sifted c c') (hmessages : c''.messages = c'.messages)
    (hchannels : c''.channels = c'.channels) (hnode : c''.node = c'.node)
    (hnext : c''.nextChannel = c'.nextChannel) : Sifted c c'' where
  kept := by
    rw [hmessages]
    exact h.kept
  minted := by
    rw [hnode, hnext]
    exact h.minted
  lost := by
    rw [hmessages, hchannels]
    exact h.lost

theorem enacted (h : Sifted c c') {sid : ServerId} {kind : ProposalKind} {now : Timestamp}
    (he : Enacted sid kind now c' c'') : Sifted c c'' := by
  cases he with
  | addChannel name topic _ _ =>
    refine ⟨h.kept, fun m hm => (h.minted m hm).succ, fun m hm => ?_⟩
    refine (h.lost m hm).imp id (fun hnone => ?_)
    exact (Table.get_insert_of_ne c'.channels (h.minted m hm).ne_composeId).trans hnone
  | @removeChannel x _ _ =>
    refine ⟨fun m hm => h.kept m (Table.mem_retain.1 hm).1, h.minted, fun m hm => ?_⟩
    have hgone : ∀ id, c'.channels.get id = none ∨ id = x.id →
        (c'.removeChannel x.id).channels.get id = none := by
      intro id hid
      have herase := Table.get_erase c'.channels id x.id
      rcases hid with hnone | rfl
      · rw [hnone, ite_self] at herase
        exact herase
      · rw [if_pos rfl] at herase
        exact herase
    rcases h.lost m hm with hstill | hnone
    · by_cases hid : m.channelId = x.id
      · exact .inr (hgone _ (.inr hid))
      · exact .inl (Table.mem_retain.2 ⟨hstill, by simpa using hid⟩)
    · exact .inr (hgone _ (.inl hnone))
  | assign => unfold Polity.assign; split <;> exact h.congr rfl rfl rfl rfl
  | _ => exact h.congr rfl rfl rfl rfl

end Sifted

theorem sifted_resolveDue {c : Polity} (hplaced : MessagesPlaced c) (serverSlug : String) :
    Sifted c (c.resolveDue serverSlug) := by
  apply Polity.resolveDue_keeps (I := Sifted c)
  · exact fun _ _ h => h.congr rfl rfl rfl rfl
  · exact fun _ _ _ h => h.congr rfl rfl rfl rfl
  · exact fun c' sid kind now h => h.enacted (enacted_enact c' sid kind now)
  · exact .refl hplaced

/-! ## All use-cases -/

/-- The handle that the session passes on. -/
def Op.caller : Op → Option String
  | .setClock _ | .verifyEmail _ | .storeMedia .. | .castVoteById .. | .resolveDue _ |
    .listProposals _ => none
  | .registerAccount handle | .registerWithPassword _ handle _ _ | .issueResend _ handle |
    .setPassword _ handle _ | .foundServer handle _ _ | .createInvite _ handle _ |
    .acceptInvite handle _ | .revokeInvite handle _ _ | .joinServer handle _ |
    .tryEnfranchise handle _ | .setContribution handle _ _ | .createChannel handle _ _ _ |
    .postMessage handle _ _ _ | .postMessageWithAttachments handle _ _ _ _ |
    .postSealedMessage handle _ _ _ _ _ | .replyMessage handle _ _ | .editMessage handle _ _ |
    .deleteMessage handle _ | .setHistorySharing handle _ _ | .react handle _ _ |
    .unreact handle _ _ | .openProposal handle _ _ | .castVote handle _ _ => some handle

/-- What a use-case can do to the messages. -/
inductive Pens (w : World) : UseCase → World → Prop
  | idle {u : UseCase} {w' : World} : w'.store.messages = w.store.messages → Pens w u w'
  | plain {op : Op} {w' : World} {handle body : String} {attachments : List Attachment}
      {m : Message} : op.caller = some handle → Drafts w handle body attachments m →
      w'.store.messages = w.store.messages.insert m →
      w'.store.nextMessage = w.store.nextMessage + 1 → Pens w (.op op) w'
  | sealed_ {w' : World} {handle serverSlug channelName ciphertext : String} {keyEpoch : Nat}
      {parent parent' : Option MessageId} {channel : Channel} {author : UserId} :
      MayPost w handle channel author → channel.isEncrypted = true →
      w'.store.messages =
        w.store.messages.insert (w.sealedDraft author channel ciphertext keyEpoch parent') →
      w'.store.nextMessage = w.store.nextMessage + 1 →
      Pens w (.op (.postSealedMessage handle serverSlug channelName ciphertext keyEpoch parent)) w'
  | edited {w' : World} {handle : String} {messageId : MessageId} {body : String} {m : Message} :
      Authors w handle messageId m → (trim body).isEmpty = false →
      w'.store.messages = w.store.messages.insert (m.edit (trim body) w.now) →
      Pens w (.op (.editMessage handle messageId body)) w'
  | deleted {w' : World} {handle : String} {messageId : MessageId} {m : Message} :
      Authors w handle messageId m → w'.store.messages = w.store.messages.insert m.tombstone →
      Pens w (.op (.deleteMessage handle messageId)) w'
  | swept {op : Op} {w' : World} : op.parts = governed → Sifted w.polity w'.polity →
      Pens w (.op op) w'

theorem Plain.pens {w : World} {op : Op} {handle body : String} {attachments : List Attachment}
    {r : Req World MessageError Message} (h : Plain w handle body attachments r)
    (hop : op.caller = some handle) : Pens w (.op op) (r.exec w).2 := by
  rcases h.cases with ⟨e, herror⟩ | ⟨m, hdrafts, hexec⟩
  · rw [herror]
    exact .idle rfl
  · rw [hexec]
    exact .plain hop hdrafts rfl rfl

variable {services : Services} {w : World}

theorem pens_step (hplaced : MessagesPlaced w.polity) (op : Op) :
    Pens w (.op op) (services.step w op) := by
  cases op with
  | postMessage => exact (plain_postMessage _ _ _ _).pens rfl
  | postMessageWithAttachments => exact (plain_postMessageWithAttachments _ _ _ _ _).pens rfl
  | replyMessage => exact (plain_replyMessage hplaced _ _ _).pens rfl
  | postSealedMessage handle serverSlug channelName ciphertext keyEpoch parent =>
    rcases postSealedMessage_cases w handle serverSlug channelName ciphertext keyEpoch parent with
      ⟨e, herror⟩ | ⟨author, channel, parent', hmay, hencrypted, -, hexec⟩
    · rw [Services.step, herror]
      exact .idle rfl
    · rw [Services.step, hexec]
      exact .sealed_ hmay hencrypted rfl rfl
  | editMessage handle messageId body =>
    rcases editMessage_cases w handle messageId body with
      ⟨e, herror⟩ | ⟨m, hauthors, hbody⟩
    · rw [Services.step, herror]
      exact .idle rfl
    · rw [Services.step, exec_editMessage hauthors hbody]
      exact .edited hauthors hbody rfl
  | deleteMessage handle messageId =>
    rcases deleteMessage_cases w handle messageId with ⟨e, herror⟩ | ⟨m, hauthors⟩
    · rw [Services.step, herror]
      exact .idle rfl
    · rw [Services.step, exec_deleteMessage hauthors]
      exact .deleted hauthors
        (congrArg (Table.insert · m.tombstone) (w.dropBlobs_messages m.attachments))
  | createChannel founderHandle serverSlug name topic =>
    rcases createChannel_cases w founderHandle serverSlug name topic with hsame | ⟨_, -, hadded⟩
    · rw [Services.step, hsame]
      exact .idle rfl
    · rw [Services.step, hadded]
      exact .idle rfl
  | resolveDue serverSlug =>
    refine .swept rfl ?_
    rw [Services.step, polity_resolveDue]
    exact sifted_resolveDue hplaced serverSlug
  | listProposals serverSlug =>
    refine .swept rfl ?_
    rw [Services.step, polity_listProposals]
    exact sifted_resolveDue hplaced serverSlug
  | _ => exact .idle ((touches_step services w _).spares.messages rfl rfl)

theorem Services.Served.pens (hw : services.Served w) (u : UseCase) :
    Pens w u (services.serve w u) := by
  by_cases hop : ∃ op, u = .op op
  · obtain ⟨op, rfl⟩ := hop
    exact pens_step hw.messagesPlaced op
  · refine .idle ?_
    have hserves := services.serves w u
    change (services.serve w u).polity.messages = w.polity.messages
    generalize (services.serve w u).polity = c at hserves ⊢
    cases hserves with
    | acted => exact absurd ⟨_, rfl⟩ hop
    | encrypted => rfl
    | unseen => rfl

/-! ## Identifiers of messages -/

theorem Mutation.nextMessage_le (m : Mutation) (s : Inner) :
    s.nextMessage ≤ (m.run s).nextMessage := by
  by_cases hpart : m.part = .messages
  · cases m with
    | mint e =>
      cases e with
      | message => exact Nat.le_succ _
      | _ => cases hpart
    | insertMessage | updateMessage => exact Nat.le_refl _
    | _ => cases hpart
  · exact Nat.le_of_eq ((m.spares s).nextMessage hpart).symm

theorem nextMessage_le (services : Services) (w : World) (u : UseCase) :
    w.store.nextMessage ≤ (services.serve w u).store.nextMessage := by
  cases u with
  | op op =>
    exact Touches.lift (R := fun s t => s.nextMessage ≤ t.nextMessage) (fun _ => Nat.le_refl _)
      (fun _ _ _ => Nat.le_trans) (fun m _ s => m.nextMessage_le s) (touches_step services w op)
  | _ => exact Nat.le_of_eq ((spares_serve services w _).nextMessage rfl).symm

theorem minted_serve (services : Services) {w : World} {id : MessageId}
    (h : Minted w.store.node w.store.nextMessage id) (u : UseCase) :
    Minted (services.serve w u).store.node (services.serve w u).store.nextMessage id :=
  ⟨h.node.trans (spares_serve services w u).node.symm,
    Nat.le_trans h.sequence (nextMessage_le services w u)⟩

theorem Services.Served.messagesMinted (hw : services.Served w) :
    ∀ m ∈ w.store.messages.rows, Minted w.store.node w.store.nextMessage m.id := by
  refine hw.invariant (I := fun w => ∀ m ∈ w.store.messages.rows,
    Minted w.store.node w.store.nextMessage m.id) (fun _ _ _ hm => nomatch hm) ?_
  intro w u hw ih
  have hold := fun m hm => minted_serve services (ih m hm) u
  have hnode := (spares_serve services w u).node
  have hpens := hw.pens u
  generalize services.serve w u = w' at hnode hold hpens ⊢
  cases hpens with
  | idle hmessages =>
    rw [hmessages]
    exact hold
  | plain _ hdrafts hmessages hcount =>
    obtain ⟨_, _, _, _, _, rfl⟩ := hdrafts.made
    rw [hmessages]
    exact forall_insert hold ⟨hnode.symm, Nat.le_of_eq hcount.symm⟩
  | sealed_ _ _ hmessages hcount =>
    rw [hmessages]
    exact forall_insert hold ⟨hnode.symm, Nat.le_of_eq hcount.symm⟩
  | edited hauthors _ hmessages =>
    rw [hmessages]
    have hminted := hold _ (Table.mem_of_get hauthors.found)
    exact forall_insert hold hminted
  | deleted hauthors hmessages =>
    rw [hmessages]
    have hminted := hold _ (Table.mem_of_get hauthors.found)
    exact forall_insert hold hminted
  | swept _ hsifted => exact fun m hm => hold m (hsifted.kept m hm)

/-! ## One message -/

/-- What becomes of the message under one identifier. -/
inductive Fate (w : World) (w' : World) (id : MessageId) : UseCase → Prop
  | same {u : UseCase} : w'.store.getMessage id = w.store.getMessage id → Fate w w' id u
  | plain {op : Op} {handle body : String} {attachments : List Attachment} {m : Message} :
      op.caller = some handle → Drafts w handle body attachments m → id = w.store.nextMessageId.1 →
      w.store.getMessage id = none → w'.store.getMessage id = some m → Fate w w' id (.op op)
  | sealed_ {handle serverSlug channelName ciphertext : String} {keyEpoch : Nat}
      {parent parent' : Option MessageId} {channel : Channel} {author : UserId} :
      MayPost w handle channel author → channel.isEncrypted = true →
      id = w.store.nextMessageId.1 → w.store.getMessage id = none →
      w'.store.getMessage id =
        some (w.sealedDraft author channel ciphertext keyEpoch parent') →
      Fate w w' id
        (.op (.postSealedMessage handle serverSlug channelName ciphertext keyEpoch parent))
  | edited {handle body : String} {m : Message} : Authors w handle id m →
      (trim body).isEmpty = false → w'.store.getMessage id = some (m.edit (trim body) w.now) →
      Fate w w' id (.op (.editMessage handle id body))
  | deleted {handle : String} {m : Message} : Authors w handle id m →
      w'.store.getMessage id = some m.tombstone → Fate w w' id (.op (.deleteMessage handle id))
  | lost {op : Op} {m : Message} : op.parts = governed → w.store.getMessage id = some m →
      w'.store.getMessage id = none → w'.store.getChannel m.channelId = none →
      Fate w w' id (.op op)

/-- One message is written at a time. -/
theorem getMessage_of_insert {w' : World} {m : Message} (id : MessageId)
    (h : w'.store.messages = w.store.messages.insert m) :
    (id = m.id ∧ w'.store.getMessage id = some m) ∨
      w'.store.getMessage id = w.store.getMessage id := by
  unfold Inner.getMessage
  rw [h]
  by_cases hid : id = m.id
  · rw [hid]
    exact .inl ⟨rfl, Table.get_insert_self w.store.messages m⟩
  · exact .inr (Table.get_insert_of_ne w.store.messages hid)

theorem Services.Served.fate (hw : services.Served w) (u : UseCase) (id : MessageId) :
    Fate w (services.serve w u) id u := by
  have hfree : w.store.getMessage (composeId w.store.node (w.store.nextMessage + 1)) = none :=
    get_composeId_eq_none hw.messagesMinted
  have hpens := hw.pens u
  generalize services.serve w u = w' at hpens ⊢
  cases hpens with
  | idle hmessages => exact .same (congrArg (Table.get · id) hmessages)
  | @plain _ _ _ _ _ m hcaller hdrafts hmessages _ =>
    rcases getMessage_of_insert id hmessages with ⟨hid, hget⟩ | hsame
    · have hnext : m.id = w.store.nextMessageId.1 := by
        obtain ⟨_, _, _, _, _, rfl⟩ := hdrafts.made
        rfl
      refine .plain hcaller hdrafts (hid.trans hnext) ?_ hget
      rw [hid, hnext]
      exact hfree
    · exact .same hsame
  | sealed_ hmay hencrypted hmessages _ =>
    rcases getMessage_of_insert id hmessages with ⟨hid, hget⟩ | hsame
    · refine .sealed_ hmay hencrypted hid ?_ hget
      rw [hid]
      exact hfree
    · exact .same hsame
  | @edited _ handle messageId body m hauthors hbody hmessages =>
    rcases getMessage_of_insert id hmessages with ⟨hid, hget⟩ | hsame
    · obtain rfl : id = messageId := hid.trans hauthors.id
      exact .edited hauthors hbody hget
    · exact .same hsame
  | @deleted _ handle messageId m hauthors hmessages =>
    rcases getMessage_of_insert id hmessages with ⟨hid, hget⟩ | hsame
    · obtain rfl : id = messageId := hid.trans hauthors.id
      exact .deleted hauthors hget
    · exact .same hsame
  | swept hparts hsifted =>
    -- What is left under the identifier was there before.
    have hback : ∀ {m}, w'.store.getMessage id = some m → w.store.getMessage id = some m := by
      intro m hm
      have hold := Table.mem_iff.1 (hsifted.kept m (Table.mem_of_get hm))
      rw [show m.id = id from Table.key_of_get hm] at hold
      exact hold
    cases hafter : w'.store.getMessage id with
    | some m => exact .same (hafter.trans (hback hafter).symm)
    | none =>
      cases hbefore : w.store.getMessage id with
      | none => exact .same (hafter.trans hbefore.symm)
      | some m =>
        refine .lost hparts hbefore hafter ?_
        rcases hsifted.lost m (Table.mem_of_get hbefore) with hkept | hchannel
        · have hstill := Table.mem_iff.1 hkept
          rw [show m.id = id from Table.key_of_get hbefore] at hstill
          cases hafter.symm.trans hstill
        · exact hchannel

variable (services) in
theorem serve_edit {handle : String} {messageId : MessageId} {body : String} {m : Message}
    (h : Authors w handle messageId m) (hbody : (trim body).isEmpty = false) :
    (services.serve w (.op (.editMessage handle messageId body))).store.getMessage messageId =
      some (m.edit (trim body) w.now) := by
  obtain rfl := h.id
  rw [Services.serve, Services.step, exec_editMessage h hbody]
  exact Table.get_insert_self w.store.messages (m.edit (trim body) w.now)

variable (services) in
theorem serve_delete {handle : String} {messageId : MessageId} {m : Message}
    (h : Authors w handle messageId m) (id : MessageId) :
    (services.serve w (.op (.deleteMessage handle messageId))).store.getMessage id =
      if id = m.id then some m.tombstone else w.store.getMessage id := by
  have hmessages := w.dropBlobs_messages m.attachments
  rw [Services.serve, Services.step, exec_deleteMessage h]
  split
  next hid =>
    rw [hid]
    exact Table.get_insert_self _ m.tombstone
  next hid =>
    have hget := Table.get_insert_of_ne (w.dropBlobs m.attachments).store.messages
      (v := m.tombstone) hid
    exact hget.trans (congrArg (Table.get · id) hmessages)

end Democrachat
