import Democrachat.Polity.Invariants
import Democrachat.Polity.Unsaid

/-!
# Contributions and authorship

What the operations other than `react`, `unreact` and `setContribution` do to the
contributions and to the authorship of messages: nobody gains or loses a point, a new
member starts with none, and a new message is by a member.
-/

namespace Democrachat

open Library Req

/-- What a member has contributed. -/
def Roster.credit (r : Roster) (user : UserId) (sid : ServerId) : Option Int :=
  (r.member user sid).map (·.contribution)

theorem credit_insert (r : Roster) (m : Membership) (user : UserId) (sid : ServerId) :
    Roster.credit (r.insert m) user sid =
      if toLex (user, sid) = m.key then some m.contribution else r.credit user sid := by
  unfold Roster.credit Roster.member
  rw [Table.get_insert]
  split
  next => rfl
  next => rfl

/-- Nobody's contribution changed, and whoever is new starts with none. -/
structure SameCredit (r r' : Roster) : Prop where
  credit : ∀ user sid, r'.credit user sid = r.credit user sid ∨
    (r.credit user sid = none ∧ r'.credit user sid = some 0)

namespace SameCredit

theorem refl (r : Roster) : SameCredit r r := ⟨fun _ _ => .inl rfl⟩

theorem trans {r r' r'' : Roster} (h : SameCredit r r') (h' : SameCredit r' r'') :
    SameCredit r r'' := by
  constructor
  intro user sid
  rcases h.credit user sid with hsame | ⟨hnone, hzero⟩
  · rw [← hsame]
    exact h'.credit user sid
  · right
    rcases h'.credit user sid with hsame | ⟨hnone', -⟩
    · exact ⟨hnone, hsame.trans hzero⟩
    · rw [hzero] at hnone'
      cases hnone'

/-- Rewriting a row, but not what it has contributed. -/
theorem insert_same {r : Roster} {m m' : Membership} (hm : r.get m.key = some m)
    (hkey : m'.key = m.key) (hcontribution : m'.contribution = m.contribution) :
    SameCredit r (r.insert m') := by
  constructor
  intro user sid
  left
  rw [credit_insert, hkey]
  split
  next heq =>
    rw [Roster.credit, Roster.member, heq, hm, Option.map_some, hcontribution]
  next => rfl

/-- A new member. -/
theorem insert_new {r : Roster} {m : Membership} (hnone : r.get m.key = none)
    (hzero : m.contribution = 0) : SameCredit r (r.insert m) := by
  constructor
  intro user sid
  rw [credit_insert]
  split
  next heq =>
    right
    rw [Roster.credit, Roster.member, heq, hnone, hzero]
    exact ⟨rfl, rfl⟩
  next => exact .inl rfl

end SameCredit

theorem sameCredit_editMembership (c : Polity) (user : UserId) (sid : ServerId)
    {f : Membership → Membership} (hkey : ∀ m, (f m).key = m.key)
    (hf : ∀ m, (f m).contribution = m.contribution) :
    SameCredit c.roster (c.editMembership user sid f).roster := by
  unfold Polity.editMembership
  split
  next m hm =>
    have hget : c.roster.get m.key = some m := by
      rw [show m.key = toLex (user, sid) from Table.key_of_get hm]
      exact hm
    exact .insert_same hget (hkey m) (hf m)
  next => exact .refl _

theorem editServer_roster (c : Polity) (sid : ServerId) (f : Server → Server) :
    (c.editServer sid f).roster = c.roster := by
  unfold Polity.editServer
  split <;> rfl

/-- No effect moves a contribution. -/
theorem sameCredit_enact (c : Polity) (sid : ServerId) (kind : ProposalKind) (now : Timestamp) :
    SameCredit c.roster (c.enact sid kind now).roster := by
  have hsame : ∀ {c' : Polity}, c'.roster = c.roster → SameCredit c.roster c'.roster := by
    intro c' hroster
    rw [hroster]
    exact .refl _
  cases kind with
  | createChannel name topic =>
    simp only [Polity.enact]
    generalize normalizeChannelName name = name
    apply hsame
    split
    · rfl
    · rfl
  | deleteChannel name =>
    simp only [Polity.enact]
    apply hsame
    split
    · rfl
    · rfl
  | createRole name =>
    simp only [Polity.enact]
    generalize normalizeRoleName name = name
    apply hsame
    split
    · rfl
    · rfl
  | deleteRole role =>
    simp only [Polity.enact]
    apply hsame
    split
    · rfl
    · rfl
  | assignRole user role =>
    simp only [Polity.enact, Polity.assign]
    apply hsame
    split
    · split <;> rfl
    · rfl
  | unassignRole user role =>
    simp only [Polity.enact]
    apply hsame
    split
    · rfl
    · rfl
  | ban user => exact sameCredit_editMembership c user sid (fun _ => rfl) (fun _ => rfl)
  | timeout user until_ => exact sameCredit_editMembership c user sid (fun _ => rfl) (fun _ => rfl)
  | grantVoteWeight user weight =>
    exact sameCredit_editMembership c user sid (fun _ => rfl) (fun _ => rfl)
  | addRule text => exact hsame rfl
  | removeRule rule => exact hsame rfl
  | «recall» leader => exact hsame rfl
  | removeContent target => exact hsame rfl
  | _ => exact hsame (editServer_roster c sid _)

theorem sameCredit_resolveDue (c : Polity) (serverSlug : String) :
    SameCredit c.roster (c.resolveDue serverSlug).roster := by
  apply Polity.resolveDue_keeps (I := fun c' => SameCredit c.roster c'.roster)
  · exact fun _ _ h => h
  · exact fun _ _ _ h => h
  · exact fun c' sid kind now h => h.trans (sameCredit_enact c' sid kind now)
  · exact .refl _

/-- Only the requests that credit somebody do. -/
theorem Services.Reachable.sameCredit {services : Services} {w : World}
    (hw : services.Reachable w) {op : Op} (hop : op.isCredit = false) :
    SameCredit w.polity.roster (services.step w op).polity.roster := by
  have hacts := services.acts w op
  generalize (services.step w op).polity = c at hacts ⊢
  cases hacts with
  | ordinary _ h =>
    cases h with
    | refl => exact .refl _
    | single h =>
      cases h with
      | enrol _ hnone => exact .insert_new hnone rfl
      | edit hm hsame hcontribution _ => exact .insert_same hm hsame.key hcontribution
      | _ => exact .refl _
  | credited hcredit _ =>
    rw [hop] at hcredit
    cases hcredit
  | voted _ h => cases h <;> exact .refl _
  | resolved _ => exact sameCredit_resolveDue _ _
  | founded _ _ _ =>
    apply SameCredit.insert_new _ rfl
    apply Table.get_eq_none.2
    intro m hm hkey
    have hminted := hw.serversMinted.members m hm
    exact hminted.ne_composeId (Membership.key_eq.1 hkey).2
  | admitted hadmits _ =>
    exact .insert_same (roster_get_of_getMembership hadmits.memberFound) rfl rfl
  | _ => exact .refl _

/-! ## Authorship -/

/-- Every new message has a new identifier and is by a member of its server. -/
structure Posts (w w' : World) : Prop where
  nextMessage : w.store.nextMessage ≤ w'.store.nextMessage
  bylines : ∀ {id b}, w'.byline id = some b → w.byline id = some b ∨
    (w.store.nextMessage < id.sequence ∧ id.sequence ≤ w'.store.nextMessage ∧
      (w.store.getMembership b.1 b.2).isSome)

/-- And nobody reacts. -/
structure Said (w w' : World) : Prop extends Posts w w' where
  reactions : w'.store.reactions = w.store.reactions

theorem Unsaid.said {w w' : World} (h : Unsaid w w') : Said w w' :=
  ⟨⟨Nat.le_of_eq h.nextMessage.symm, fun hid => .inl (h.bylines hid)⟩, h.reactions⟩

theorem MayPost.isSome_member {w : World} {handle : String} {channel : Channel} {author : UserId}
    (h : MayPost w handle channel author) :
    (w.store.getMembership author channel.serverId).isSome := by
  obtain ⟨m, hm, -⟩ := h.member
  rw [hm]
  rfl

section Posts

variable (w : World)

theorem byline_insert (message : Message) (id : MessageId) {b : UserId × ServerId}
    (h : (w.mapStore (·.insertMessage message)).byline id = some b) :
    (id = message.id ∧ b = (message.author, message.serverId)) ∨ w.byline id = some b := by
  obtain ⟨m, hm, hbyline⟩ := Option.map_eq_some_iff.1 h
  have hget : (w.store.messages.insert message).get id = some m := hm
  rw [Table.get_insert] at hget
  split at hget
  next hid =>
    obtain rfl := Option.some.inj hget
    exact .inl ⟨hid, hbyline.symm⟩
  next => exact .inr (Option.map_eq_some_iff.2 ⟨m, hget, hbyline⟩)

/-- A message under the next identifier. -/
theorem said_insert {message : Message}
    (hid : message.id = composeId w.store.node (w.store.nextMessage + 1))
    (hmember : (w.store.getMembership message.author message.serverId).isSome) :
    Said w ((w.mapStore (·.nextMessageId.2)).mapStore (·.insertMessage message)) := by
  refine ⟨⟨Nat.le_succ _, fun {id b} hbyline => ?_⟩, rfl⟩
  rcases byline_insert _ message id hbyline with ⟨rfl, rfl⟩ | hold
  · right
    rw [hid]
    exact ⟨Nat.lt_succ_self _, Nat.le_refl _, hmember⟩
  · exact .inl hold

theorem said_insertMessage {author : UserId} {channel : Channel}
    (hmember : (w.store.getMembership author channel.serverId).isSome) (body : String)
    (parent : Option MessageId) (attachments : List Attachment) :
    Said w ((insertMessage author channel body parent attachments).exec w).2 := by
  rcases insertMessage_cases w author channel body parent attachments with
    ⟨e, herror⟩ | ⟨-, hexec⟩
  · rw [herror]
    exact (Unsaid.refl w).said
  · rw [hexec]
    exact said_insert w rfl hmember

theorem said_resolvePoster {handle serverSlug channelName : String}
    {k : Channel × UserId → Req World MessageError Message}
    (h : ∀ channel author, (w.store.getMembership author channel.serverId).isSome →
      Said w ((k (channel, author)).exec w).2) :
    Said w ((resolvePoster handle serverSlug channelName >>= k).exec w).2 := by
  rw [exec_bind]
  rcases resolvePoster_cases w handle serverSlug channelName with
    ⟨e, herror⟩ | ⟨channel, author, hmay, hexec⟩
  · rw [herror]
    exact (Unsaid.refl w).said
  · rw [hexec]
    exact h channel author hmay.isSome_member

theorem said_postSealedMessage (handle serverSlug channelName ciphertext : String)
    (keyEpoch : Nat) (parent : Option MessageId) :
    Said w ((postSealedMessage handle serverSlug channelName ciphertext keyEpoch parent).exec
      w).2 := by
  rcases postSealedMessage_cases w handle serverSlug channelName ciphertext keyEpoch parent with
    ⟨e, herror⟩ | ⟨author, channel, parent', hmay, -, -, hexec⟩
  · rw [herror]
    exact (Unsaid.refl w).said
  · rw [hexec]
    exact said_insert w rfl hmay.isSome_member

/-- A reply goes to the server of its parent. -/
theorem said_replyMessage (hplaced : MessagesPlaced w.polity) (handle : String)
    (parentId : MessageId) (body : String) :
    Said w ((replyMessage handle parentId body).exec w).2 := by
  rcases replyMessage_cases w handle parentId body with
    ⟨e, herror⟩ | ⟨parent, channel, user, hreplies, hexec⟩
  · rw [herror]
    exact (Unsaid.refl w).said
  · obtain ⟨x, hx, hplace⟩ := hplaced.messages parent (Table.mem_of_get hreplies.parentFound)
    obtain rfl : x = channel := Option.some.inj (hx.symm.trans hreplies.channelFound)
    obtain ⟨m, hm, -⟩ := hreplies.member
    rw [hexec]
    apply said_insertMessage
    rw [hplace, hm]
    rfl

/-- A message is rewritten, but stays its author's. -/
theorem unsaid_updateMessage (m' : Message) {m : Message} (hm : w.store.getMessage m.id = some m)
    (hid : m'.id = m.id) (hauthor : m'.author = m.author) (hserver : m'.serverId = m.serverId) :
    Unsaid w (w.mapStore (·.updateMessage m')) := by
  refine ⟨rfl, rfl, fun {id b} hbyline => ?_⟩
  rcases byline_insert w m' id hbyline with ⟨rfl, rfl⟩ | hold
  · rw [hid, hauthor, hserver, World.byline, hm]
    rfl
  · exact hold

theorem said_editMessage (handle : String) (messageId : MessageId) (body : String) :
    Said w ((editMessage handle messageId body).exec w).2 := by
  rcases editMessage_cases w handle messageId body with ⟨e, herror⟩ | ⟨m, hauthors, hbody⟩
  · rw [herror]
    exact (Unsaid.refl w).said
  · rw [exec_editMessage hauthors hbody]
    exact (unsaid_updateMessage w (m.edit (trim body) w.now) hauthors.get_self rfl rfl rfl).said

theorem said_deleteMessage (handle : String) (messageId : MessageId) :
    Said w ((deleteMessage handle messageId).exec w).2 := by
  rcases deleteMessage_cases w handle messageId with ⟨e, herror⟩ | ⟨m, hauthors⟩
  · rw [herror]
    exact (Unsaid.refl w).said
  have htouches : Touches [.media] w ((deleteBlobs m.attachments).exec w).2 :=
    Touches.of_guarantees (touches_deleteBlobs rfl m.attachments) w
  have hblobs := htouches.unsaid rfl rfl
  have hmessages := congrArg Polity.messages (polity_dropBlobs w m.attachments)
  rw [exec_deleteBlobs] at hblobs
  rw [exec_deleteMessage hauthors]
  generalize w.dropBlobs m.attachments = w' at hmessages hblobs ⊢
  have hm : w'.store.getMessage m.id = some m :=
    (congrArg (Table.get · m.id) hmessages).trans hauthors.get_self
  exact (hblobs.trans _ _ _ (unsaid_updateMessage w' m.tombstone hm rfl rfl rfl)).said

end Posts

/-! ## All other operations -/

/-- The requests about reactions. -/
def Op.isReaction : Op → Bool
  | .react .. | .unreact .. => true
  | _ => false

theorem Services.Reachable.said {services : Services} {w : World} (hw : services.Reachable w)
    {op : Op} (hop : op.isReaction = false) : Said w (services.step w op) := by
  cases op with
  | postMessage handle serverSlug channelName body =>
    exact said_resolvePoster w (fun _ _ hmember => said_insertMessage w hmember _ _ _)
  | postMessageWithAttachments handle serverSlug channelName body attachments =>
    exact said_resolvePoster w (fun _ _ hmember => said_insertMessage w hmember _ _ _)
  | postSealedMessage handle serverSlug channelName ciphertext keyEpoch parent =>
    exact said_postSealedMessage w handle serverSlug channelName ciphertext keyEpoch parent
  | replyMessage handle parentId body =>
    exact said_replyMessage w hw.messagesPlaced handle parentId body
  | editMessage handle messageId body => exact said_editMessage w handle messageId body
  | deleteMessage handle messageId => exact said_deleteMessage w handle messageId
  | react handle messageId emoji => cases hop
  | unreact handle messageId emoji => cases hop
  | _ => exact ((touches_step services w _).unsaid rfl rfl).said

theorem credit_adjust (c : Polity) (message : Message) (delta : Int) (user : UserId)
    (sid : ServerId) :
    (c.adjust message delta).roster.credit user sid =
      if user = message.author ∧ sid = message.serverId then
        (c.roster.credit user sid).map (fun n => max (n + delta) 0)
      else c.roster.credit user sid := by
  unfold Polity.adjust Polity.editMembership
  split
  next m hm =>
    have hkey : m.key = toLex (message.author, message.serverId) := Table.key_of_get hm
    have hkey' : Membership.key { m with contribution := max (m.contribution + delta) 0 } =
        toLex (message.author, message.serverId) := hkey
    rw [credit_insert, hkey']
    by_cases hhere : user = message.author ∧ sid = message.serverId
    · rw [hhere.1, hhere.2, if_pos rfl, if_pos ⟨rfl, rfl⟩, Roster.credit, hm]
      rfl
    · have hne : toLex (user, sid) ≠ toLex (message.author, message.serverId) := by
        intro heq
        exact hhere (Prod.mk.inj (toLex.injective heq))
      rw [if_neg hne, if_neg hhere]
  next hnone =>
    split
    next hhere =>
      rw [hhere.1, hhere.2, Roster.credit, hnone]
      rfl
    next => rfl

end Democrachat
