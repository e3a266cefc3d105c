import Democrachat.Federation.Delivery
import Democrachat.Library.Ledger
import Democrachat.Polity.Posting

/-!
# Threads

What is read as one list: the messages of a channel, or the direct messages of two users.  A
request enters one post into one thread, or none; and a replicated row brings a post that the
node which tells it has had.
-/

namespace Democrachat

open Library Federation

inductive Thread where
  | channel (id : ChannelId)
  | pair (users : Sym2 UserId)
deriving DecidableEq

/-- What the order of a list is about. -/
abbrev Post := Entry Thread NodeId Int

def Message.post (m : Message) : Post :=
  ⟨.channel m.channelId, m.id.node, m.id.sequence, m.createdAt.secs⟩

def DmMessage.post (m : DmMessage) : Post :=
  ⟨.pair s(m.sender, m.recipient), m.id.node, m.id.sequence, m.createdAt.secs⟩

def Row.post? : Row → Option Post
  | .message m => some m.post
  | .dm m => some m.post
  | _ => none

namespace Inner

variable (s : Inner)

def posts : List Post := s.messages.rows.map Message.post ++ s.dms.map DmMessage.post

/-- The counter that numbers the posts of the thread. -/
def lastOf : Thread → Nat
  | .channel _ => s.nextMessage
  | .pair _ => s.nextDm

variable {s} in
theorem mem_posts {e : Post} : e ∈ s.posts ↔
    (∃ m ∈ s.messages.rows, m.post = e) ∨ ∃ m ∈ s.dms, m.post = e := by
  simp only [posts, List.mem_append, List.mem_map]

/-- Nothing is stored or recorded that was not stored before. -/
structure Quiet (s t : Inner) : Prop where
  node : t.node = s.node
  last : ∀ thread, s.lastOf thread ≤ t.lastOf thread
  posts : ∀ e ∈ t.posts, e ∈ s.posts
  outbox : ∀ r ∈ t.outbox, r ∈ s.outbox ∨ ∀ e ∈ r.payload.post?, e ∈ s.posts

/-- One post is stored and recorded, under a new number and at this time. -/
structure Adds (now : Timestamp) (s t : Inner) (e : Post) : Prop where
  node : t.node = s.node
  last : ∀ thread, s.lastOf thread ≤ t.lastOf thread
  own : e.node = s.node
  fresh : s.lastOf e.group < e.sequence
  counted : e.sequence ≤ t.lastOf e.group
  time : e.time = now.secs
  posts : ∀ e' ∈ t.posts, e' ∈ s.posts ∨ e' = e
  added : e ∈ t.posts
  outbox : ∀ r ∈ t.outbox, r ∈ s.outbox ∨ r.payload.post? = some e

namespace Quiet

theorem refl (s : Inner) : s.Quiet s :=
  ⟨rfl, fun _ => Nat.le_refl _, fun _ h => h, fun _ h => .inl h⟩

theorem trans {s t u : Inner} (h : s.Quiet t) (h' : t.Quiet u) : s.Quiet u where
  node := h'.node.trans h.node
  last := fun thread => (h.last thread).trans (h'.last thread)
  posts := fun e he => h.posts e (h'.posts e he)
  outbox := by
    intro r hr
    rcases h'.outbox r hr with hr | hposts
    · exact h.outbox r hr
    · exact .inr (fun e he => h.posts e (hposts e he))

/-- Neither the messages nor the direct messages are written. -/
theorem of_tables {s t : Inner} (hnode : t.node = s.node)
    (hmessages : ∀ m ∈ t.messages.rows, m ∈ s.messages.rows) (hdms : t.dms = s.dms)
    (hnextMessage : t.nextMessage = s.nextMessage) (hnextDm : s.nextDm ≤ t.nextDm)
    (houtbox : ∀ r ∈ t.outbox, r ∈ s.outbox ∨ r.payload.post? = none) : s.Quiet t where
  node := hnode
  last := by
    intro thread
    cases thread with
    | channel _ => exact Nat.le_of_eq hnextMessage.symm
    | pair _ => exact hnextDm
  posts := by
    intro e he
    rw [mem_posts, hdms] at he
    rcases he with ⟨m, hm, hpost⟩ | hdm
    · exact mem_posts.2 (.inl ⟨m, hmessages m hm, hpost⟩)
    · exact mem_posts.2 (.inr hdm)
  outbox := by
    intro r hr
    refine (houtbox r hr).imp id (fun hnone e he => ?_)
    rw [hnone] at he
    cases he

end Quiet

theorem mem_record {s : Inner} {op : ChangeOp} {row : Row} {r : Democrachat.ChangeRecord}
    (h : r ∈ (s.record op row).outbox) : r ∈ s.outbox ∨ r.payload = row := by
  rcases List.mem_append.1 h with hold | hnew
  · exact .inl hold
  · rw [List.mem_singleton.1 hnew]
    exact .inr rfl

end Inner

/-- A mutation of another kind. -/
theorem quiet_run {m : Mutation} (hpart : m.part ≠ .messages)
    (hdm : ∀ a b c d t, m ≠ .sendDm a b c d t) (s : Inner) : s.Quiet (m.run s) := by
  have hrecord : ∀ {t : Inner} {op : ChangeOp} {row : Row},
      t.outbox = (s.record op row).outbox → row.post? = none →
      ∀ r ∈ t.outbox, r ∈ s.outbox ∨ r.payload.post? = none := by
    intro t op row ht hrow r hr
    rw [ht] at hr
    rcases Inner.mem_record hr with hold | rfl
    · exact .inl hold
    · exact .inr hrow
  cases m with
  | insertMessage | updateMessage => exact absurd rfl hpart
  | sendDm => exact absurd rfl (hdm _ _ _ _ _)
  | mint e =>
    cases e with
    | message => exact absurd rfl hpart
    | dm => exact .of_tables rfl (fun _ h => h) rfl rfl (Nat.le_succ _) (fun _ h => .inl h)
    | _ => exact .of_tables rfl (fun _ h => h) rfl rfl (Nat.le_refl _) (fun _ h => .inl h)
  | putMedia | deleteMedia | addToken | takeToken | rememberNonce =>
    exact .of_tables rfl (fun _ h => h) rfl rfl (Nat.le_refl _) (fun _ h => .inl h)
  | removeChannel id =>
    rw [Mutation.run, Inner.removeChannel]
    split
    next => exact .refl s
    next =>
      exact .of_tables rfl (fun _ h => (Table.mem_retain.1 h).1) rfl rfl (Nat.le_refl _)
        (hrecord rfl rfl)
  | addReaction | removeReaction | removeRule | removeRole | assign | unassign | revokeInvite |
    addBlock | addFriendship | updateFriendship =>
    -- These look first whether there is anything to do.
    simp only [Mutation.run, Inner.addReaction, Inner.removeReaction, Inner.removeRule,
      Inner.removeRole, Inner.assign, Inner.unassign, Inner.revokeInvite, Inner.addBlock,
      Inner.addFriendship, Inner.updateFriendship]
    split
    all_goals first
      | exact .of_tables rfl (fun _ h => h) rfl rfl (Nat.le_refl _) (fun _ h => .inl h)
      | exact .of_tables rfl (fun _ h => h) rfl rfl (Nat.le_refl _) (hrecord rfl rfl)
  | _ => exact .of_tables rfl (fun _ h => h) rfl rfl (Nat.le_refl _) (hrecord rfl rfl)

theorem Touches.quiet {parts : List Part} {w w' : World} (h : Touches parts w w')
    (hmessages : parts.contains .messages = false) (hsocial : parts.contains .social = false) :
    w.store.Quiet w'.store := by
  refine lift .refl (fun _ _ _ => .trans) (fun m hm s => ?_) h
  apply quiet_run (ne_part hm hmessages)
  rintro _ _ _ _ _ rfl
  exact ne_part hm hsocial rfl

/-! ## Posting -/

section Requests

variable {w : World}

theorem adds_post {m : Message} (hid : m.id = w.store.nextMessageId.1)
    (htime : m.createdAt = w.now) : w.store.Adds w.now (w.post m).store m.post where
  node := rfl
  last := by
    intro thread
    cases thread with
    | channel _ => exact Nat.le_succ _
    | pair _ => exact Nat.le_refl _
  own := congrArg Id.node hid
  fresh := by
    show w.store.nextMessage < m.id.sequence
    rw [hid]
    exact Nat.lt_succ_self _
  counted := by
    show m.id.sequence ≤ w.store.nextMessage + 1
    rw [hid]
    exact Nat.le_refl _
  time := congrArg Timestamp.secs htime
  posts := by
    intro e he
    rcases Inner.mem_posts.1 he with ⟨x, hx, rfl⟩ | hdm
    · rcases Table.mem_insert.1 hx with rfl | ⟨hold, -⟩
      · exact .inr rfl
      · exact .inl (Inner.mem_posts.2 (.inl ⟨x, hold, rfl⟩))
    · exact .inl (Inner.mem_posts.2 (.inr hdm))
  added := Inner.mem_posts.2 (.inl ⟨m, Table.mem_insert.2 (.inl rfl), rfl⟩)
  outbox := by
    intro r hr
    rcases Inner.mem_record hr with hold | hnew
    · exact .inl hold
    · exact .inr (by rw [hnew]; rfl)

/-- What a request does to the threads. -/
def Appends (now : Timestamp) (s t : Inner) : Prop := s.Quiet t ∨ ∃ e, s.Adds now t e

theorem appends_of_insertMessage {author : UserId} {channel : Channel} {body : String}
    {parent : Option MessageId} {attachments : List Attachment} :
    Appends w.now w.store
      ((insertMessage author channel body parent attachments).exec w).2.store := by
  rcases insertMessage_cases w author channel body parent attachments with
    ⟨e, herror⟩ | ⟨-, hexec⟩
  · rw [herror]
    exact .inl (.refl _)
  · rw [hexec]
    exact .inr ⟨_, adds_post rfl rfl⟩

theorem appends_resolvePoster {handle serverSlug channelName : String}
    {k : Channel × UserId → Req World MessageError Message}
    (h : ∀ p, Appends w.now w.store ((k p).exec w).2.store) :
    Appends w.now w.store ((resolvePoster handle serverSlug channelName >>= k).exec w).2.store := by
  rw [Req.exec_bind]
  rcases resolvePoster_cases w handle serverSlug channelName with
    ⟨e, herror⟩ | ⟨channel, author, -, hexec⟩
  · rw [herror]
    exact .inl (.refl _)
  · rw [hexec]
    exact h (channel, author)

theorem appends_replyMessage (handle : String) (parentId : MessageId) (body : String) :
    Appends w.now w.store ((replyMessage handle parentId body).exec w).2.store := by
  rcases replyMessage_cases w handle parentId body with
    ⟨e, herror⟩ | ⟨parent, channel, user, -, hexec⟩
  · rw [herror]
    exact .inl (.refl _)
  · rw [hexec]
    exact appends_of_insertMessage

/-- A message is rewritten that keeps its place. -/
theorem quiet_updateMessage {s : Inner} {m m' : Message} (hm : m ∈ s.messages.rows)
    (hpost : m'.post = m.post) : s.Quiet (s.updateMessage m') where
  node := rfl
  last := by
    intro thread
    cases thread <;> exact Nat.le_refl _
  posts := by
    intro e he
    rcases Inner.mem_posts.1 he with ⟨x, hx, rfl⟩ | hdm
    · rcases Table.mem_insert.1 hx with rfl | ⟨hold, -⟩
      · exact Inner.mem_posts.2 (.inl ⟨m, hm, hpost.symm⟩)
      · exact Inner.mem_posts.2 (.inl ⟨x, hold, rfl⟩)
    · exact Inner.mem_posts.2 (.inr hdm)
  outbox := by
    intro r hr
    rcases Inner.mem_record hr with hold | hnew
    · exact .inl hold
    · refine .inr (fun e he => ?_)
      rw [hnew] at he
      obtain rfl := Option.some.inj he
      exact Inner.mem_posts.2 (.inl ⟨m, hm, hpost.symm⟩)

theorem appends_editMessage (handle : String) (messageId : MessageId) (body : String) :
    Appends w.now w.store ((editMessage handle messageId body).exec w).2.store := by
  rcases editMessage_cases w handle messageId body with ⟨e, herror⟩ | ⟨m, hauthors, hbody⟩
  · rw [herror]
    exact .inl (.refl _)
  · rw [exec_editMessage hauthors hbody]
    exact .inl (quiet_updateMessage (Table.mem_of_get hauthors.found) rfl)

theorem appends_deleteMessage (handle : String) (messageId : MessageId) :
    Appends w.now w.store ((deleteMessage handle messageId).exec w).2.store := by
  rcases deleteMessage_cases w handle messageId with ⟨e, herror⟩ | ⟨m, hauthors⟩
  · rw [herror]
    exact .inl (.refl _)
  · rw [exec_deleteMessage hauthors]
    have hdropped : w.store.Quiet (w.dropBlobs m.attachments).store := by
      have htouches : Touches [.media] w ((deleteBlobs m.attachments).exec w).2 :=
        Touches.of_guarantees (touches_deleteBlobs rfl m.attachments) w
      rw [exec_deleteBlobs] at htouches
      exact htouches.quiet rfl rfl
    refine .inl (hdropped.trans (quiet_updateMessage (m := m) ?_ rfl))
    rw [w.dropBlobs_messages]
    exact Table.mem_of_get hauthors.found

theorem appends_postSealedMessage (handle serverSlug channelName ciphertext : String)
    (keyEpoch : Nat) (parent : Option MessageId) :
    Appends w.now w.store
      ((postSealedMessage handle serverSlug channelName ciphertext keyEpoch parent).exec
        w).2.store := by
  rcases postSealedMessage_cases w handle serverSlug channelName ciphertext keyEpoch parent with
    ⟨e, herror⟩ | ⟨author, channel, parent', -, -, -, hexec⟩
  · rw [herror]
    exact .inl (.refl _)
  · rw [hexec]
    exact .inr ⟨_, adds_post rfl rfl⟩

theorem appends_step (services : Services) (op : Op) :
    Appends w.now w.store (services.step w op).store := by
  by_cases hparts : op.parts.contains .messages = false ∧ op.parts.contains .social = false
  · exact .inl ((touches_step services w op).quiet hparts.1 hparts.2)
  · cases op with
    | postMessage handle serverSlug channelName body =>
      rw [Services.step, postMessage]
      exact appends_resolvePoster (fun _ => appends_of_insertMessage)
    | postMessageWithAttachments handle serverSlug channelName body attachments =>
      rw [Services.step, postMessageWithAttachments]
      exact appends_resolvePoster (fun _ => appends_of_insertMessage)
    | postSealedMessage handle serverSlug channelName ciphertext keyEpoch parent =>
      exact appends_postSealedMessage handle serverSlug channelName ciphertext keyEpoch parent
    | replyMessage handle parentId body => exact appends_replyMessage handle parentId body
    | editMessage handle messageId body =>
      rw [Services.step]
      exact appends_editMessage handle messageId body
    | deleteMessage handle messageId =>
      rw [Services.step]
      exact appends_deleteMessage handle messageId
    | _ => exact absurd ⟨rfl, rfl⟩ hparts

/-! ## Direct messages -/

theorem adds_insertDm {m : DmMessage} (hid : m.id = w.store.nextDmId.1)
    (htime : m.createdAt = w.now) :
    w.store.Adds w.now (w.store.nextDmId.2.insertDm m) m.post where
  node := rfl
  last := by
    intro thread
    cases thread with
    | channel _ => exact Nat.le_refl _
    | pair _ => exact Nat.le_succ _
  own := congrArg Id.node hid
  fresh := by
    show w.store.nextDm < m.id.sequence
    rw [hid]
    exact Nat.lt_succ_self _
  counted := by
    show m.id.sequence ≤ w.store.nextDm + 1
    rw [hid]
    exact Nat.le_refl _
  time := congrArg Timestamp.secs htime
  posts := by
    intro e he
    rcases Inner.mem_posts.1 he with hmessage | ⟨x, hx, rfl⟩
    · exact .inl (Inner.mem_posts.2 (.inl hmessage))
    · rcases List.mem_append.1 hx with hold | hnew
      · exact .inl (Inner.mem_posts.2 (.inr ⟨x, hold, rfl⟩))
      · rw [List.mem_singleton.1 hnew]
        exact .inr rfl
  added := Inner.mem_posts.2 (.inr ⟨m, List.mem_append_right _ (List.mem_singleton_self m), rfl⟩)
  outbox := by
    intro r hr
    rcases Inner.mem_record hr with hold | hnew
    · exact .inl hold
    · exact .inr (by rw [hnew]; rfl)

theorem appends_command (cmd : Command) :
    Appends w.now w.store (cmd.run.exec w).2.store := by
  cases haccepts : cmd.accepts w.store with
  | false =>
    obtain ⟨e, hrun⟩ := Command.run_of_refused haccepts
    rw [hrun]
    exact .inl (.refl _)
  | true =>
    rw [Command.run_of_accepts haccepts]
    show Appends w.now w.store (cmd.effect w.now w.store)
    cases cmd with
    | sendDm => exact .inr ⟨_, adds_insertDm rfl rfl⟩
    | castVote proposal voter aye =>
      exact .inl (quiet_run (m := .upsertVote ⟨proposal, voter, aye⟩) (by rintro ⟨⟩)
        (by rintro _ _ _ _ _ ⟨⟩) w.store)
    | block blocker blocked =>
      exact .inl (quiet_run (m := .addBlock ⟨blocker, blocked, w.now⟩) (by rintro ⟨⟩)
        (by rintro _ _ _ _ _ ⟨⟩) w.store)
    | requestFriend requester addressee =>
      exact .inl (quiet_run (m := .addFriendship (.request requester addressee w.now)) (by rintro ⟨⟩)
        (by rintro _ _ _ _ _ ⟨⟩) w.store)
    | acceptFriend accepter requester =>
      rw [Command.effect]
      split
      next f _ => exact .inl (quiet_run (m := .updateFriendship f.accept) (by rintro ⟨⟩)
        (by rintro _ _ _ _ _ ⟨⟩) w.store)
      next => exact .inl (.refl _)

/-- A request enters one post, or none. -/
theorem appends_serve (services : Services) (u : UseCase) :
    Appends w.now w.store (services.serve w u).store := by
  cases u with
  | op operation => exact appends_step services operation
  | social operation =>
    show Appends w.now w.store (operation.step w).store
    rw [SocialOp.step_eq]
    split
    next cmd _ => exact appends_command cmd
    next => exact .inl (.refl _)
  | sendSealedDmById fromId toId sealedForRecipient sealedForSender =>
    have hcommand := appends_command (w := w)
      (.sendDm fromId toId sealedForRecipient sealedForSender)
    rwa [Command.run, SocialOp.rejecting_snd] at hcommand
  | blockUserById blockerId blockedId =>
    have hcommand := appends_command (w := w) (.block blockerId blockedId)
    rwa [Command.run, SocialOp.rejecting_snd] at hcommand
  | requestFriendById requesterId addresseeId =>
    have hcommand := appends_command (w := w) (.requestFriend requesterId addresseeId)
    rwa [Command.run, SocialOp.rejecting_snd] at hcommand
  | acceptFriendById accepterId requesterId =>
    have hcommand := appends_command (w := w) (.acceptFriend accepterId requesterId)
    rwa [Command.run, SocialOp.rejecting_snd] at hcommand
  | setDmPolicy => exact .inl ((Touches.of_writesOnly (touches_setDmPolicy _ _) w).quiet rfl rfl)
  | publishKeys => exact .inl ((Touches.of_writesOnly (touches_publishKeys _ _ _) w).quiet rfl rfl)
  | enableChannelEncryption =>
    exact .inl ((Touches.of_writesOnly (touches_enableChannelEncryption _ _ _ _) w).quiet rfl rfl)
  | grantChannelKey =>
    exact .inl ((Touches.of_writesOnly (touches_grantChannelKey _ _ _ _ _ _) w).quiet rfl rfl)
  | addEmoji => exact .inl ((Touches.of_writesOnly (touches_addEmoji _ _ _ _) w).quiet rfl rfl)
  | voteEmoji => exact .inl ((Touches.of_writesOnly (touches_voteEmoji _ _ _ _) w).quiet rfl rfl)

end Requests

end Democrachat
