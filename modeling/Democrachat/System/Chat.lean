import Democrachat.App.Chat

/-!
# What the chat requests come to

A request of `chat_service.rs` that posts, rewrites or deletes fails and leaves the world as it
was, or does one thing to it.
-/

namespace Democrachat

open Library Req

/-! ## Who may write -/

/-- The author is the caller, an unsanctioned member where the channel is. -/
structure MayPost (w : World) (handle : String) (channel : Channel) (author : UserId) : Prop where
  caller : ∃ user, w.store.findByHandle (trim handle) = some user ∧ user.id = author
  member : ∃ m, w.store.getMembership author channel.serverId = some m ∧ m.isSanctioned = false
  channelFound : w.store.getChannel channel.id = some channel

/-- The message is stored, and the caller is its author. -/
structure Authors (w : World) (handle : String) (messageId : MessageId) (m : Message) : Prop where
  caller : ∃ user, w.store.findByHandle (trim handle) = some user ∧ user.id = m.author
  found : w.store.getMessage messageId = some m

theorem Authors.id {w : World} {handle : String} {messageId : MessageId} {m : Message}
    (h : Authors w handle messageId m) : m.id = messageId :=
  Table.key_of_get h.found

theorem Authors.get_self {w : World} {handle : String} {messageId : MessageId} {m : Message}
    (h : Authors w handle messageId m) : w.store.getMessage m.id = some m := by
  rw [h.id]
  exact h.found

/-- The caller and the message are looked up, and the one is the author of the other. -/
theorem any_author_iff {w : World} {handle : String} {messageId : MessageId}
    {p : User → Message → Bool} :
    (w.store.findByHandle (trim handle)).any (fun user =>
      (w.store.getMessage messageId).any (fun m => m.author == user.id && p user m)) = true ↔
    ∃ user m, Authors w handle messageId m ∧ w.store.findByHandle (trim handle) = some user ∧
      user.id = m.author ∧ p user m = true := by
  simp only [Option.any_eq_true, Bool.and_eq_true, beq_iff_eq]
  constructor
  · rintro ⟨user, huser, m, hm, hauthor, hp⟩
    exact ⟨user, m, ⟨⟨user, huser, hauthor.symm⟩, hm⟩, huser, hauthor.symm, hp⟩
  · rintro ⟨user, m, hauthors, huser, hauthor, hp⟩
    exact ⟨user, huser, m, hauthors.found, hauthor.symm, hp⟩

section Requests

variable (w : World)

theorem exec_ensureMayPost_bind {α : Type} (membership : Option Membership) (handle : String)
    (k : Unit → Req World MessageError α) :
    (ensureMayPost membership handle >>= k).exec w =
      match membership with
      | none => (.error (.notAMember handle), w)
      | some m =>
        if m.isSanctioned then (.error (.sanctioned handle), w) else (k ()).exec w := by
  cases membership with
  | none => rfl
  | some m =>
    rw [ensureMayPost, exec_ensure_bind]
    cases h : m.isSanctioned <;> simp [h]

theorem resolvePoster_cases (handle serverSlug channelName : String) :
    (∃ e, (resolvePoster handle serverSlug channelName).exec w = (.error e, w)) ∨
    ∃ channel author, MayPost w handle channel author ∧
      (resolvePoster handle serverSlug channelName).exec w = (.ok (channel, author), w) := by
  simp only [resolvePoster, req_ask_bind, exec_okOr_bind, exec_ensureMayPost_bind, exec_pure]
  split
  next user huser =>
    split
    next server _ =>
      split
      next => exact .inl ⟨_, rfl⟩
      next m hm =>
        split
        next => exact .inl ⟨_, rfl⟩
        next hsanctioned =>
          split
          next channel hchannel =>
            have hserver := List.find?_some hchannel
            simp only [Bool.and_eq_true, beq_iff_eq] at hserver
            refine .inr ⟨channel, user.id, ⟨⟨user, huser, rfl⟩, ⟨m, ?_, ?_⟩, ?_⟩, rfl⟩
            · rw [hserver.1]
              exact hm
            · simpa using hsanctioned
            · exact Table.mem_iff.1 (List.mem_of_find?_eq_some hchannel)
          next => exact .inl ⟨_, rfl⟩
    next => exact .inl ⟨_, rfl⟩
  next => exact .inl ⟨_, rfl⟩

/-! ## Posting -/

/-- A message is stored under the next identifier. -/
def World.post (m : Message) : World :=
  (w.mapStore (·.nextMessageId.2)).mapStore (·.insertMessage m)

/-- The message that `insertMessage` makes. -/
def World.draft (author : UserId) (channel : Channel) (body : String) (parent : Option MessageId)
    (attachments : List Attachment) : Message :=
  { Message.new w.store.nextMessageId.1 channel.id channel.serverId author (trim body) parent w.now
    with attachments := attachments }

theorem insertMessage_cases (author : UserId) (channel : Channel) (body : String)
    (parent : Option MessageId) (attachments : List Attachment) :
    (∃ e, (insertMessage author channel body parent attachments).exec w = (.error e, w)) ∨
    channel.isEncrypted = false ∧
      (insertMessage author channel body parent attachments).exec w =
        (.ok (w.draft author channel body parent attachments),
          w.post (w.draft author channel body parent attachments)) := by
  simp only [insertMessage, exec_ensure_bind, req_transact_bind, req_clockNow_bind,
    req_write_bind, exec_pure]
  split
  next hplain =>
    split
    next => exact .inr ⟨by simpa using hplain, rfl⟩
    next => exact .inl ⟨_, rfl⟩
  next => exact .inl ⟨_, rfl⟩

/-- The thread parent, if there is one, is a stored message. -/
def World.StoresParent (parent : Option MessageId) : Prop :=
  ∀ p ∈ parent, ∃ m, w.store.getMessage p = some m

theorem resolveParent_cases (channel : ChannelId) (parent : Option MessageId) :
    (∃ e, (resolveParent channel parent).exec w = (.error e, w)) ∨
    ∃ parent', w.StoresParent parent' ∧ (resolveParent channel parent).exec w = (.ok parent', w) := by
  cases parent with
  | none => exact .inr ⟨none, fun _ h => (nomatch h), rfl⟩
  | some pid =>
    simp only [resolveParent, req_ask_bind, exec_okOr_bind, exec_ensure_bind, exec_pure]
    split
    next p hp =>
      split
      next =>
        refine .inr ⟨some p.id, fun q hq => ⟨p, ?_⟩, rfl⟩
        rw [← Option.mem_some_iff.1 hq, show p.id = pid from Table.key_of_get hp]
        exact hp
      next => exact .inl ⟨_, rfl⟩
    next => exact .inl ⟨_, rfl⟩

/-- The message that `postSealedMessage` makes. -/
def World.sealedDraft (author : UserId) (channel : Channel) (ciphertext : String) (keyEpoch : Nat)
    (parent : Option MessageId) : Message :=
  .sealed_ w.store.nextMessageId.1 channel.id channel.serverId author (trim ciphertext) keyEpoch
    parent w.now

theorem postSealedMessage_cases (handle serverSlug channelName ciphertext : String)
    (keyEpoch : Nat) (parent : Option MessageId) :
    (∃ e, (postSealedMessage handle serverSlug channelName ciphertext keyEpoch parent).exec w =
      (.error e, w)) ∨
    ∃ author channel parent', MayPost w handle channel author ∧ channel.isEncrypted = true ∧
      w.StoresParent parent' ∧
      (postSealedMessage handle serverSlug channelName ciphertext keyEpoch parent).exec w =
        (.ok (w.sealedDraft author channel ciphertext keyEpoch parent'),
          w.post (w.sealedDraft author channel ciphertext keyEpoch parent')) := by
  unfold postSealedMessage
  rcases resolvePoster_cases w handle serverSlug channelName with
    ⟨e, herror⟩ | ⟨channel, author, hmay, hexec⟩
  · rw [exec_bind, herror]
    exact .inl ⟨e, rfl⟩
  · rw [exec_bind, hexec]
    simp only [exec_ensure_bind]
    split
    next hencrypted =>
      split
      next =>
        rw [exec_bind]
        rcases resolveParent_cases w channel.id parent with
          ⟨e, herror⟩ | ⟨parent', hstored, hresolved⟩
        · rw [herror]
          exact .inl ⟨e, rfl⟩
        · rw [hresolved]
          exact .inr ⟨author, channel, parent', hmay, hencrypted, hstored, rfl⟩
      next => exact .inl ⟨_, rfl⟩
    next => exact .inl ⟨_, rfl⟩

/-- The rows that `replyMessage` finds for a member who may reply. -/
structure Replies (handle : String) (parentId : MessageId) (parent : Message) (channel : Channel)
    (user : User) : Prop where
  parentFound : w.store.getMessage parentId = some parent
  channelFound : w.store.getChannel parent.channelId = some channel
  caller : w.store.findByHandle (trim handle) = some user
  member : ∃ m, w.store.getMembership user.id parent.serverId = some m ∧ m.isSanctioned = false

variable {w} in
theorem Replies.channel_get {handle : String} {parentId : MessageId} {parent : Message}
    {channel : Channel} {user : User} (h : Replies w handle parentId parent channel user) :
    w.store.getChannel channel.id = some channel := by
  rw [show channel.id = parent.channelId from Table.key_of_get h.channelFound]
  exact h.channelFound

theorem replyMessage_cases (handle : String) (parentId : MessageId) (body : String) :
    (∃ e, (replyMessage handle parentId body).exec w = (.error e, w)) ∨
    ∃ parent channel user, Replies w handle parentId parent channel user ∧
      (replyMessage handle parentId body).exec w =
        (insertMessage user.id channel body (some parent.id) []).exec w := by
  simp only [replyMessage, req_ask_bind, exec_okOr_bind, exec_ensureMayPost_bind]
  split
  next parent hparent =>
    split
    next channel hchannel =>
      split
      next server hserver =>
        split
        next user huser =>
          split
          next => exact .inl ⟨_, rfl⟩
          next m hm =>
            split
            next => exact .inl ⟨_, rfl⟩
            next hsanctioned =>
              have hid : server.id = parent.serverId := Table.key_of_get hserver
              rw [hid] at hm
              exact .inr ⟨parent, channel, user,
                ⟨hparent, hchannel, huser, m, hm, by simpa using hsanctioned⟩, rfl⟩
        next => exact .inl ⟨_, rfl⟩
      next => exact .inl ⟨_, rfl⟩
    next => exact .inl ⟨_, rfl⟩
  next => exact .inl ⟨_, rfl⟩

/-! ## Rewriting -/

theorem authoredMessage_cases (handle : String) (messageId : MessageId) :
    (∃ e, (authoredMessage handle messageId).exec w = (.error e, w)) ∨
    ∃ m, Authors w handle messageId m ∧
      (authoredMessage handle messageId).exec w = (.ok m, w) := by
  simp only [authoredMessage, req_ask_bind, exec_okOr_bind, exec_ensure_bind, exec_pure]
  split
  next user huser =>
    split
    next m hm =>
      split
      next hauthor => exact .inr ⟨m, ⟨⟨user, huser, (beq_iff_eq.1 hauthor).symm⟩, hm⟩, rfl⟩
      next => exact .inl ⟨_, rfl⟩
    next => exact .inl ⟨_, rfl⟩
  next => exact .inl ⟨_, rfl⟩

variable {w} in
theorem exec_authoredMessage_of_authors {handle : String} {messageId : MessageId} {m : Message}
    (h : Authors w handle messageId m) :
    (authoredMessage handle messageId).exec w = (.ok m, w) := by
  obtain ⟨user, huser, hauthor⟩ := h.caller
  simp only [authoredMessage, req_ask_bind, exec_okOr_bind, exec_ensure_bind, exec_pure, huser,
    h.found, ← hauthor, beq_self_eq_true, if_true]

variable {w} in
theorem exec_editMessage {handle : String} {messageId : MessageId} {body : String} {m : Message}
    (h : Authors w handle messageId m) (hbody : (trim body).isEmpty = false) :
    (editMessage handle messageId body).exec w =
      (.ok (m.edit (trim body) w.now), w.mapStore (·.updateMessage (m.edit (trim body) w.now))) := by
  simp only [editMessage, exec_ensure_bind, hbody, Bool.not_false, if_true]
  rw [exec_bind, exec_authoredMessage_of_authors h]
  rfl

theorem editMessage_cases (handle : String) (messageId : MessageId) (body : String) :
    (∃ e, (editMessage handle messageId body).exec w = (.error e, w)) ∨
    ∃ m, Authors w handle messageId m ∧ (trim body).isEmpty = false := by
  by_cases hbody : (trim body).isEmpty = true
  · refine .inl ⟨.emptyBody, ?_⟩
    simp [editMessage, exec_ensure_bind, hbody]
  rcases authoredMessage_cases w handle messageId with ⟨e, herror⟩ | ⟨m, hauthors, -⟩
  · refine .inl ⟨e, ?_⟩
    simp only [editMessage, exec_ensure_bind, hbody, Bool.not_false, if_true]
    rw [exec_bind, herror]
  · exact .inr ⟨m, hauthors, by simpa using hbody⟩

/-- The blobs of a list of attachments are dropped. -/
def World.dropBlobs (as : List Attachment) : World :=
  w.mapStore (fun s => as.foldl (fun s a => s.deleteMedia a.key) s)

theorem exec_deleteBlobs (as : List Attachment) :
    (deleteBlobs as).exec w = ((), w.dropBlobs as) := by
  induction as generalizing w with
  | nil => rfl
  | cons a as ih =>
    rw [deleteBlobs, exec_write_bind, ih]
    rfl

variable {w} in
theorem exec_deleteMessage {handle : String} {messageId : MessageId} {m : Message}
    (h : Authors w handle messageId m) :
    (deleteMessage handle messageId).exec w =
      (.ok (), (w.dropBlobs m.attachments).mapStore (·.updateMessage m.tombstone)) := by
  rw [deleteMessage, exec_bind, exec_authoredMessage_of_authors h]
  simp only [exec_liftM_bind, exec_deleteBlobs, exec_liftM, exec_write]

theorem deleteMessage_cases (handle : String) (messageId : MessageId) :
    (∃ e, (deleteMessage handle messageId).exec w = (.error e, w)) ∨
    ∃ m, Authors w handle messageId m := by
  rcases authoredMessage_cases w handle messageId with ⟨e, herror⟩ | ⟨m, hauthors, -⟩
  · rw [deleteMessage, exec_bind, herror]
    exact .inl ⟨e, rfl⟩
  · exact .inr ⟨m, hauthors⟩

end Requests

end Democrachat
