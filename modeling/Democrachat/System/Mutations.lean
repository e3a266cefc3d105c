import Democrachat.System.Ops
import Democrachat.Federation.Mirror

/-!
# What the operations write

Every single write of every operation of the services is a call of one of the
writing ports, so a run of the services is a run of mutations; and every operation
calls the ports of a few parts of the store alone.
-/

namespace Democrachat

open Library Req

/-! ## The parts of the store -/

inductive Part where
  | accounts | servers | members | invites | channels | messages | reactions | media | proposals
  | votes | rules | roles | emojis | keys | social | nonces
deriving DecidableEq

def Entity.part : Entity → Part
  | .user => .accounts
  | .server => .servers
  | .channel => .channels
  | .message => .messages
  | .proposal => .proposals
  | .rule => .rules
  | .role => .roles
  | .emoji => .emojis
  | .dm => .social

/-- The part whose ports the mutation calls.  Messages go with their channel, and
assignments with their role. -/
def Mutation.part : Mutation → Part
  | mint e => e.part
  | insertUser _ | updateUser _ | addToken _ | takeToken _ _ => .accounts
  | insertServer _ | updateServer _ => .servers
  | upsertMembership _ => .members
  | addInvite _ | revokeInvite _ => .invites
  | insertChannel _ | removeChannel _ => .channels
  | insertMessage _ | updateMessage _ => .messages
  | addReaction _ | removeReaction _ _ _ => .reactions
  | putMedia _ _ _ | deleteMedia _ => .media
  | insertProposal _ | updateProposal _ => .proposals
  | upsertVote _ => .votes
  | insertRule _ | removeRule _ => .rules
  | insertRole _ | removeRole _ | assign _ | unassign _ _ => .roles
  | insertEmoji _ | upsertEmojiVote _ => .emojis
  | putKeys _ | putGrant _ => .keys
  | sendDm _ _ _ _ _ | addBlock _ | addFriendship _ | updateFriendship _ => .social
  | rememberNonce _ _ _ _ => .nonces

/-- What the ports of the part leave alone. -/
structure Part.Spares (part : Part) (s t : Inner) : Prop where
  node : t.node = s.node
  users : part ≠ .accounts → t.users = s.users
  memberships : part ≠ .members → t.memberships = s.memberships
  channels : part ≠ .channels → t.channels = s.channels
  messages : part ≠ .channels → part ≠ .messages → t.messages = s.messages
  nextMessage : part ≠ .messages → t.nextMessage = s.nextMessage
  reactions : part ≠ .reactions → t.reactions = s.reactions
  media : part ≠ .media → t.media = s.media
  mediaSeq : part ≠ .media → t.mediaSeq = s.mediaSeq
  servers : part ≠ .servers → t.servers = s.servers
  roles : part ≠ .roles → t.roles = s.roles
  roleAssignments : part ≠ .roles → t.roleAssignments = s.roleAssignments
  emojis : part ≠ .emojis → t.emojis = s.emojis
  emojiVotes : part ≠ .emojis → t.emojiVotes = s.emojiVotes
  nextEmoji : part ≠ .emojis → t.nextEmoji = s.nextEmoji
  dms : part ≠ .social → t.dms = s.dms
  blocks : part ≠ .social → t.blocks = s.blocks
  friends : part ≠ .social → t.friends = s.friends

theorem Mutation.spares (m : Mutation) (s : Inner) : m.part.Spares s (m.run s) := by
  cases m with
  | mint e => cases e <;> constructor <;> intros <;> first | rfl | exact absurd rfl ‹_›
  | addReaction | removeReaction | removeChannel | removeRule | removeRole | assign | unassign
  | revokeInvite | addBlock | addFriendship | updateFriendship =>
    -- These look first whether there is anything to do.
    simp only [run, Inner.addReaction, Inner.removeReaction, Inner.removeChannel, Inner.removeRule,
      Inner.removeRole, Inner.assign, Inner.unassign, Inner.revokeInvite, Inner.addBlock,
      Inner.addFriendship, Inner.updateFriendship]
    split <;> constructor <;> intros <;> first | rfl | exact absurd rfl ‹_›
  | _ => constructor <;> intros <;> first | rfl | exact absurd rfl ‹_›

/-- What is left alone by ports that all belong to the parts. -/
structure Spares (parts : List Part) (s t : Inner) : Prop where
  node : t.node = s.node
  users : parts.contains .accounts = false → t.users = s.users
  memberships : parts.contains .members = false → t.memberships = s.memberships
  channels : parts.contains .channels = false → t.channels = s.channels
  messages : parts.contains .channels = false → parts.contains .messages = false →
    t.messages = s.messages
  nextMessage : parts.contains .messages = false → t.nextMessage = s.nextMessage
  reactions : parts.contains .reactions = false → t.reactions = s.reactions
  media : parts.contains .media = false → t.media = s.media
  mediaSeq : parts.contains .media = false → t.mediaSeq = s.mediaSeq
  servers : parts.contains .servers = false → t.servers = s.servers
  roles : parts.contains .roles = false → t.roles = s.roles
  roleAssignments : parts.contains .roles = false → t.roleAssignments = s.roleAssignments
  emojis : parts.contains .emojis = false → t.emojis = s.emojis
  emojiVotes : parts.contains .emojis = false → t.emojiVotes = s.emojiVotes
  nextEmoji : parts.contains .emojis = false → t.nextEmoji = s.nextEmoji

theorem Spares.refl (parts : List Part) (s : Inner) : Spares parts s s := by
  constructor <;> intros <;> rfl

theorem Spares.trans {parts : List Part} {s t u : Inner} (h : Spares parts s t)
    (h' : Spares parts t u) : Spares parts s u where
  node := h'.node.trans h.node
  users := fun hp => (h'.users hp).trans (h.users hp)
  memberships := fun hp => (h'.memberships hp).trans (h.memberships hp)
  channels := fun hp => (h'.channels hp).trans (h.channels hp)
  messages := fun hc hp => (h'.messages hc hp).trans (h.messages hc hp)
  nextMessage := fun hp => (h'.nextMessage hp).trans (h.nextMessage hp)
  reactions := fun hp => (h'.reactions hp).trans (h.reactions hp)
  media := fun hp => (h'.media hp).trans (h.media hp)
  mediaSeq := fun hp => (h'.mediaSeq hp).trans (h.mediaSeq hp)
  servers := fun hp => (h'.servers hp).trans (h.servers hp)
  roles := fun hp => (h'.roles hp).trans (h.roles hp)
  roleAssignments := fun hp => (h'.roleAssignments hp).trans (h.roleAssignments hp)
  emojis := fun hp => (h'.emojis hp).trans (h.emojis hp)
  emojiVotes := fun hp => (h'.emojiVotes hp).trans (h.emojiVotes hp)
  nextEmoji := fun hp => (h'.nextEmoji hp).trans (h.nextEmoji hp)

theorem ne_part {parts : List Part} {p q : Part} (hp : parts.contains p = true)
    (hq : parts.contains q = false) : p ≠ q := by
  rintro rfl
  rw [hp] at hq
  cases hq

theorem Part.Spares.among {part : Part} {s t : Inner} (h : part.Spares s t) {parts : List Part}
    (hpart : parts.contains part = true) : Democrachat.Spares parts s t where
  node := h.node
  users := fun hp => h.users (ne_part hpart hp)
  memberships := fun hp => h.memberships (ne_part hpart hp)
  channels := fun hp => h.channels (ne_part hpart hp)
  messages := fun hc hp => h.messages (ne_part hpart hc) (ne_part hpart hp)
  nextMessage := fun hp => h.nextMessage (ne_part hpart hp)
  reactions := fun hp => h.reactions (ne_part hpart hp)
  media := fun hp => h.media (ne_part hpart hp)
  mediaSeq := fun hp => h.mediaSeq (ne_part hpart hp)
  servers := fun hp => h.servers (ne_part hpart hp)
  roles := fun hp => h.roles (ne_part hpart hp)
  roleAssignments := fun hp => h.roleAssignments (ne_part hpart hp)
  emojis := fun hp => h.emojis (ne_part hpart hp)
  emojiVotes := fun hp => h.emojiVotes (ne_part hpart hp)
  nextEmoji := fun hp => h.nextEmoji (ne_part hpart hp)

/-- The store changed by calls of the writing ports alone. -/
def Mutates (w w' : World) : Prop := ∃ ms, w'.store = Mutation.runAll w.store ms

theorem Mutation.runAll_append (s : Inner) (ms ms' : List Mutation) :
    runAll s (ms ++ ms') = runAll (runAll s ms) ms' :=
  List.foldl_append

namespace Mutates

theorem refl (w : World) : Mutates w w := ⟨[], rfl⟩

theorem trans (w w' w'' : World) (h : Mutates w w') (h' : Mutates w' w'') : Mutates w w'' := by
  obtain ⟨ms, hms⟩ := h
  obtain ⟨ms', hms'⟩ := h'
  refine ⟨ms ++ ms', ?_⟩
  rw [hms', hms, Mutation.runAll_append]

end Mutates

/-- The mutations of direct messages, blocks and friendships. -/
def Mutation.isSocial : Mutation → Bool
  | sendDm _ _ _ _ _ | addBlock _ | addFriendship _ | updateFriendship _ => true
  | _ => false

/-- The store changed by other calls than those of the social graph. -/
def Civil (w w' : World) : Prop :=
  ∃ ms : List Mutation, (∀ m ∈ ms, m.isSocial = false) ∧ w'.store = Mutation.runAll w.store ms

theorem Civil.mutates {w w' : World} (h : Civil w w') : Mutates w w' := by
  obtain ⟨ms, -, hms⟩ := h
  exact ⟨ms, hms⟩

/-- The store changed by calls of the ports of these parts alone. -/
def Touches (parts : List Part) (w w' : World) : Prop :=
  ∃ ms : List Mutation, (∀ m ∈ ms, parts.contains m.part = true) ∧
    w'.store = Mutation.runAll w.store ms

namespace Touches

variable {parts : List Part}

theorem of_store_eq {w w' : World} (h : w'.store = w.store) : Touches parts w w' :=
  ⟨[], fun _ hm => absurd hm List.not_mem_nil, h⟩

theorem refl (w : World) : Touches parts w w := of_store_eq rfl

theorem trans (w w' w'' : World) (h : Touches parts w w') (h' : Touches parts w' w'') :
    Touches parts w w'' := by
  obtain ⟨ms, hparts, hms⟩ := h
  obtain ⟨ms', hparts', hms'⟩ := h'
  refine ⟨ms ++ ms', ?_, ?_⟩
  · intro m hm
    rcases List.mem_append.1 hm with hm | hm
    · exact hparts m hm
    · exact hparts' m hm
  · rw [hms', hms, Mutation.runAll_append]

theorem ask {α β ε : Type} {f : Inner → α} {k : α → Req World ε β}
    (hk : ∀ a, WritesOnly (Touches parts) (k a)) :
    WritesOnly (Touches parts) ((liftM (Democrachat.ask f) : Req World ε α) >>= k) :=
  .step (guarantees_ask refl f) hk

theorem clockNow {β ε : Type} {k : Timestamp → Req World ε β}
    (hk : ∀ a, WritesOnly (Touches parts) (k a)) :
    WritesOnly (Touches parts) ((liftM Democrachat.clockNow : Req World ε Timestamp) >>= k) :=
  .step (guarantees_clockNow refl) hk

theorem of_mutation {w : World} {f : Inner → Inner} (m : Mutation) (h : ∀ s, f s = m.run s)
    (hpart : parts.contains m.part = true) : Touches parts w (w.mapStore f) := by
  refine ⟨[m], fun m' hm' => ?_, h w.store⟩
  rwa [List.mem_singleton.1 hm']

/-- A port that answers with more than the store. -/
theorem transact {α : Type} (m : Mutation) {f : Inner → α × Inner} (h : ∀ s, (f s).2 = m.run s)
    (hpart : parts.contains m.part = true) :
    (Democrachat.transact f).Guarantees (Touches parts) :=
  guarantees_transact (fun _ => of_mutation m h hpart)

theorem write (m : Mutation) {f : Inner → Inner} (h : ∀ s, f s = m.run s)
    (hpart : parts.contains m.part = true) : (Democrachat.write f).Guarantees (Touches parts) :=
  guarantees_write (fun _ => of_mutation m h hpart)

theorem of_writesOnly {ε α : Type} {r : Req World ε α} (hr : WritesOnly (Touches parts) r)
    (w : World) : Touches parts w (r.exec w).2 :=
  hr.exec refl trans w

theorem of_guarantees {α : Type} {p : Prog World α} (hp : p.Guarantees (Touches parts))
    (w : World) : Touches parts w (p.exec w).2 :=
  hp.exec refl trans w

/-- What each mutation of the parts does, all of them do. -/
theorem lift {R : Inner → Inner → Prop} (hrefl : ∀ s, R s s)
    (htrans : ∀ s t u, R s t → R t u → R s u)
    (hrun : ∀ m : Mutation, parts.contains m.part = true → ∀ s, R s (m.run s)) {w w' : World}
    (h : Touches parts w w') : R w.store w'.store := by
  obtain ⟨ms, hparts, hms⟩ := h
  rw [hms]
  generalize w.store = s
  clear hms
  induction ms generalizing s with
  | nil => exact hrefl s
  | cons m ms ih =>
    have hrest := ih (fun m' hm' => hparts m' (List.mem_cons_of_mem _ hm')) (m.run s)
    exact htrans _ _ _ (hrun m (hparts m List.mem_cons_self) s) hrest

theorem spares {w w' : World} (h : Touches parts w w') : Spares parts w.store w'.store :=
  lift (Spares.refl parts) (fun _ _ _ => Spares.trans) (fun m hm s => (m.spares s).among hm) h

/-- Whatever the parts, no message is written outside its own. -/
theorem get_messages {w w' : World} (h : Touches parts w w')
    (hpart : parts.contains .messages = false) {id : MessageId} {x : Message}
    (hx : w'.store.messages.get id = some x) : w.store.messages.get id = some x := by
  refine lift (R := fun s t => t.messages.get id = some x → s.messages.get id = some x)
    (fun _ => fun hs => hs) (fun _ _ _ hst htu hu => hst (htu hu)) (fun m hm s hx => ?_) h hx
  by_cases hchannels : m.part = .channels
  · cases m with
    | mint e => cases e <;> exact hx
    | insertChannel channel => exact hx
    | removeChannel channel =>
      simp only [Mutation.run, Inner.removeChannel] at hx
      split at hx
      next => exact hx
      next =>
        have hkept : (s.messages.retain (fun m => m.channelId != channel)).get id = some x := hx
        rw [Table.get_retain] at hkept
        exact (Option.filter_eq_some_iff.1 hkept).1
    | _ => cases hchannels
  · rwa [(m.spares s).messages hchannels (ne_part hm hpart)] at hx

theorem civil {w w' : World} (h : Touches parts w w') (hsocial : parts.contains .social = false) :
    Civil w w' := by
  obtain ⟨ms, hparts, hms⟩ := h
  refine ⟨ms, fun m hm => ?_, hms⟩
  have hpart := hparts m hm
  cases m with
  | sendDm | addBlock | addFriendship | updateFriendship =>
    exact absurd (hpart.symm.trans hsocial) (by decide)
  | _ => rfl

end Touches

/-- The parts that ballots govern. -/
def governed : List Part := [.servers, .members, .channels, .proposals, .rules, .roles]

section Requests

variable {parts : List Part}

/-! ## Accounts, invite codes and media -/

theorem touches_registerAccount (handle : String) :
    WritesOnly (Touches [.accounts]) (registerAccount handle) :=
  .ensure <| Touches.ask fun _ => .ensure <|
    .step (Touches.transact (.mint .user) (fun _ => rfl) rfl) fun _ => Touches.clockNow fun _ =>
    .step (Touches.write (.insertUser _) (fun _ => rfl) rfl) fun _ => .pure _

section Services

variable (services : Services)

theorem touches_sealNewEmail (drawn : Drawn) (email : String) :
    WritesOnly (Touches [.accounts]) (services.sealNewEmail drawn email) :=
  WritesOnly.ite (Touches.ask fun _ => .ensure (.pure _)) (.pure _)

theorem touches_newVerificationToken (drawn : Drawn) (user : UserId) :
    WritesOnly (Touches [.accounts]) (services.newVerificationToken drawn user) :=
  WritesOnly.ite (Touches.clockNow fun _ =>
    .step (Touches.write (.addToken _) (fun _ => rfl) rfl) fun _ => .pure _) (.pure _)

theorem touches_registerWithPassword (drawn : Drawn) (handle email password : String) :
    WritesOnly (Touches [.accounts]) (services.registerWithPassword drawn handle email password) :=
  .ensure <| .orElse fun _ => .orElse fun _ => Touches.ask fun _ => .ensure <|
    .bind (touches_sealNewEmail services drawn email) fun _ => .okOr fun _ =>
    .step (Touches.transact (.mint .user) (fun _ => rfl) rfl) fun _ => Touches.clockNow fun _ =>
    .bind (touches_newVerificationToken services drawn _) fun _ =>
    .step (Touches.write (.insertUser _) (fun _ => rfl) rfl) fun _ => .pure _

theorem touches_verifyEmail (rawToken : String) :
    WritesOnly (Touches [.accounts]) (services.verifyEmail rawToken) :=
  Touches.clockNow fun _ => .step (Touches.transact (.takeToken _ _) (fun _ => rfl) rfl) fun _ =>
    .okOr fun _ => Touches.ask fun _ => .okOr fun _ =>
    .step (Touches.write (.updateUser _) (fun _ => rfl) rfl) fun _ => .pure _

theorem touches_issueResend (drawn : Drawn) (handle : String) :
    WritesOnly (Touches [.accounts]) (services.issueResend drawn handle) :=
  .ensure <| .ensure <| Touches.ask fun _ => .okOr fun _ => .ensure <| .okOr fun _ =>
    Touches.clockNow fun _ =>
    .step (Touches.write (.addToken _) (fun _ => rfl) rfl) fun _ => .pure _

theorem touches_setPassword (drawn : Drawn) (handle password : String) :
    WritesOnly (Touches [.accounts]) (setPassword drawn handle password) :=
  .orElse fun _ => Touches.ask fun _ => .okOr fun _ => .okOr fun _ =>
    .last (Touches.write (.updateUser _) (fun _ => rfl) rfl)

theorem touches_createInvite (code handle serverSlug : String) :
    WritesOnly (Touches [.invites]) (services.createInvite code handle serverSlug) :=
  Touches.ask fun _ => .okOr fun _ => Touches.ask fun _ => .okOr fun _ =>
    Touches.ask fun _ => .ensure <| .ensure <| Touches.clockNow fun _ =>
    .step (Touches.write (.addInvite _) (fun _ => rfl) rfl) fun _ => .pure _

theorem touches_acceptInvite (handle code : String) :
    WritesOnly (Touches [.members]) (services.acceptInvite handle code) :=
  Touches.ask fun _ => .okOr fun _ => Touches.ask fun _ => .okOr fun _ =>
    Touches.ask fun _ => .okOr fun _ => .ensure <| Touches.ask fun _ => .ensure <|
    Touches.clockNow fun _ =>
    .step (Touches.write (.upsertMembership _) (fun _ => rfl) rfl) fun _ => .pure _

end Services

theorem touches_revokeInvite (handle serverSlug codeHash : String) :
    WritesOnly (Touches [.invites]) (revokeInvite handle serverSlug codeHash) :=
  Touches.ask fun _ => .okOr fun _ => Touches.ask fun _ => .okOr fun _ =>
    Touches.ask fun _ => .ensure <| Touches.ask fun _ =>
    WritesOnly.ite (.last (Touches.write (.revokeInvite _) (fun _ => rfl) rfl)) (.pure _)

theorem touches_storeMedia (nanos : Nat) (contentType : String) (bytes : List UInt8) :
    WritesOnly (Touches [.media]) (storeMedia nanos contentType bytes) :=
  .ensure <| .ensure <| .ensure <| .okOr fun _ =>
    .step (Touches.transact (.putMedia _ _ _) (fun _ => rfl) rfl) fun _ => .pure _

/-! ## Servers and members -/

theorem touches_foundServer (founderHandle name : String) (isPrivate : Bool) :
    WritesOnly (Touches [.servers, .members]) (foundServerWithVisibility founderHandle name isPrivate) :=
  Touches.ask fun _ => .okOr fun _ => .ensure <| .ensure <| Touches.ask fun _ => .ensure <|
    Touches.clockNow fun _ => .step (Touches.transact (.mint .server) (fun _ => rfl) rfl) fun _ =>
    .step (Touches.write (.insertServer _) (fun _ => rfl) rfl) fun _ =>
    .step (Touches.write (.upsertMembership _) (fun _ => rfl) rfl) fun _ => .pure _

theorem touches_joinServer (handle serverSlug : String) :
    WritesOnly (Touches [.members]) (joinServer handle serverSlug) :=
  Touches.ask fun _ => .okOr fun _ => Touches.ask fun _ => .okOr fun _ =>
    Touches.ask fun _ => .ensure <| Touches.clockNow fun _ =>
    .step (Touches.write (.upsertMembership _) (fun _ => rfl) rfl) fun _ => .pure _

theorem touches_tryEnfranchise (handle serverSlug : String) :
    WritesOnly (Touches [.members]) (tryEnfranchise handle serverSlug) :=
  Touches.ask fun _ => .okOr fun _ => Touches.ask fun _ => .okOr fun _ =>
    Touches.ask fun _ => .okOr fun _ => .ensure <| Touches.clockNow fun _ =>
    WritesOnly.ite (.pure _) <| Touches.ask fun _ => Touches.ask fun _ =>
    WritesOnly.ite (.pure _) <|
    .step (Touches.write (.upsertMembership _) (fun _ => rfl) rfl) fun _ => .pure _

theorem touches_setContribution (handle serverSlug : String) (contribution : Int) :
    WritesOnly (Touches [.members]) (setContribution handle serverSlug contribution) :=
  Touches.ask fun _ => .okOr fun _ => Touches.ask fun _ => .okOr fun _ =>
    Touches.ask fun _ => .okOr fun _ =>
    .last (Touches.write (.upsertMembership _) (fun _ => rfl) rfl)

theorem touches_setHistorySharing (handle serverSlug : String) (shares : Bool) :
    WritesOnly (Touches [.members]) (setHistorySharing handle serverSlug shares) :=
  Touches.ask fun _ => .okOr fun _ => Touches.ask fun _ => .okOr fun _ =>
    Touches.ask fun _ => .okOr fun _ =>
    .last (Touches.write (.upsertMembership _) (fun _ => rfl) rfl)

theorem touches_editMembership (hpart : parts.contains .members = true) (user : UserId)
    (server : ServerId) (f : Membership → Membership) :
    (editMembership user server f).Guarantees (Touches parts) := by
  apply Prog.Guarantees.bind (guarantees_ask Touches.refl _)
  intro m
  cases m with
  | none => trivial
  | some m => exact Touches.write (.upsertMembership _) (fun _ => rfl) hpart

/-! ## Channels, messages and reactions -/

theorem touches_createChannel (founderHandle serverSlug name topic : String) :
    WritesOnly (Touches [.channels]) (createChannel founderHandle serverSlug name topic) :=
  Touches.ask fun _ => .okOr fun _ => Touches.ask fun _ => .okOr fun _ =>
    Touches.ask fun _ => .ensure <| .ensure <| Touches.ask fun _ => .ensure <|
    .step (Touches.transact (.mint .channel) (fun _ => rfl) rfl) fun _ => Touches.clockNow fun _ =>
    .step (Touches.write (.insertChannel _) (fun _ => rfl) rfl) fun _ => .pure _

theorem touches_ensureMayPost (membership : Option Membership) (handle : String) :
    WritesOnly (Touches parts) (ensureMayPost membership handle) := by
  cases membership with
  | none => exact ⟨guarantees_throw _⟩
  | some m => exact ⟨guarantees_ensure _ _⟩

theorem touches_resolvePoster (handle serverSlug channelName : String) :
    WritesOnly (Touches parts) (resolvePoster handle serverSlug channelName) :=
  Touches.ask fun _ => .okOr fun _ => Touches.ask fun _ => .okOr fun _ =>
    Touches.ask fun _ => .bind (touches_ensureMayPost _ _) fun _ =>
    Touches.ask fun _ => .okOr fun _ => .pure _

theorem touches_insertMessage (author : UserId) (channel : Channel) (body : String)
    (parent : Option MessageId) (attachments : List Attachment) :
    WritesOnly (Touches [.messages]) (insertMessage author channel body parent attachments) :=
  .ensure <| .ensure <|
    .step (Touches.transact (.mint .message) (fun _ => rfl) rfl) fun _ => Touches.clockNow fun _ =>
    .step (Touches.write (.insertMessage _) (fun _ => rfl) rfl) fun _ => .pure _

theorem touches_postMessage (handle serverSlug channelName body : String) :
    WritesOnly (Touches [.messages]) (postMessage handle serverSlug channelName body) :=
  .bind (touches_resolvePoster _ _ _) fun _ => touches_insertMessage _ _ _ _ _

theorem touches_postMessageWithAttachments (handle serverSlug channelName body : String)
    (attachments : List Attachment) :
    WritesOnly (Touches [.messages])
      (postMessageWithAttachments handle serverSlug channelName body attachments) :=
  .bind (touches_resolvePoster _ _ _) fun _ => touches_insertMessage _ _ _ _ _

theorem touches_resolveParent (channel : ChannelId) (parent : Option MessageId) :
    WritesOnly (Touches parts) (resolveParent channel parent) := by
  cases parent with
  | none => exact .pure _
  | some pid => exact Touches.ask fun _ => .okOr fun _ => .ensure (.pure _)

theorem touches_postSealedMessage (handle serverSlug channelName ciphertext : String)
    (keyEpoch : Nat) (parent : Option MessageId) :
    WritesOnly (Touches [.messages])
      (postSealedMessage handle serverSlug channelName ciphertext keyEpoch parent) :=
  .bind (touches_resolvePoster _ _ _) fun _ => .ensure <| .ensure <|
    .bind (touches_resolveParent _ _) fun _ =>
    .step (Touches.transact (.mint .message) (fun _ => rfl) rfl) fun _ => Touches.clockNow fun _ =>
    .step (Touches.write (.insertMessage _) (fun _ => rfl) rfl) fun _ => .pure _

theorem touches_replyMessage (handle : String) (parentId : MessageId) (body : String) :
    WritesOnly (Touches [.messages]) (replyMessage handle parentId body) :=
  Touches.ask fun _ => .okOr fun _ => Touches.ask fun _ => .okOr fun _ =>
    Touches.ask fun _ => .okOr fun _ => Touches.ask fun _ => .okOr fun _ =>
    Touches.ask fun _ => .bind (touches_ensureMayPost _ _) fun _ => touches_insertMessage _ _ _ _ _

theorem touches_authoredMessage (handle : String) (messageId : MessageId) :
    WritesOnly (Touches parts) (authoredMessage handle messageId) :=
  Touches.ask fun _ => .okOr fun _ => Touches.ask fun _ => .okOr fun _ => .ensure (.pure _)

theorem touches_editMessage (handle : String) (messageId : MessageId) (body : String) :
    WritesOnly (Touches [.messages]) (editMessage handle messageId body) :=
  .ensure <| .bind (touches_authoredMessage _ _) fun _ => Touches.clockNow fun _ =>
    .step (Touches.write (.updateMessage _) (fun _ => rfl) rfl) fun _ => .pure _

theorem touches_deleteBlobs (hpart : parts.contains .media = true) (as : List Attachment) :
    (deleteBlobs as).Guarantees (Touches parts) := by
  induction as with
  | nil => trivial
  | cons a as ih => exact .bind (Touches.write (.deleteMedia _) (fun _ => rfl) hpart) fun _ => ih

theorem touches_deleteMessage (handle : String) (messageId : MessageId) :
    WritesOnly (Touches [.media, .messages]) (deleteMessage handle messageId) :=
  .bind (touches_authoredMessage _ _) fun _ => .step (touches_deleteBlobs rfl _) fun _ =>
    .last (Touches.write (.updateMessage _) (fun _ => rfl) rfl)

theorem touches_react (handle : String) (messageId : MessageId) (emoji : String) :
    WritesOnly (Touches [.reactions, .members]) (react handle messageId emoji) :=
  .ensure <| Touches.ask fun _ => .okOr fun _ => Touches.ask fun _ => .okOr fun _ =>
    Touches.ask fun _ => .okOr fun _ => Touches.ask fun _ =>
    .step (Touches.transact (.addReaction _) (fun _ => rfl) rfl) fun _ =>
    WritesOnly.ite (.last (touches_editMembership rfl _ _ _)) (.pure _)

theorem touches_unreact (handle : String) (messageId : MessageId) (emoji : String) :
    WritesOnly (Touches [.reactions, .members]) (unreact handle messageId emoji) :=
  Touches.ask fun _ => .okOr fun _ => Touches.ask fun _ => .okOr fun _ =>
    .step (Touches.transact (.removeReaction _ _ _) (fun _ => rfl) rfl) fun _ =>
    WritesOnly.ite
      (Touches.ask fun _ => Touches.ask fun _ =>
        WritesOnly.ite (.last (touches_editMembership rfl _ _ _)) (.pure _))
      (.pure _)

/-! ## Ballots -/

theorem touches_openProposal (proposerHandle serverSlug : String) (kind : ProposalKind) :
    WritesOnly (Touches [.proposals]) (openProposal proposerHandle serverSlug kind) :=
  Touches.ask fun _ => .okOr fun _ => Touches.ask fun _ => .okOr fun _ =>
    Touches.ask fun _ => .ensure <| .ensure <| Touches.ask fun _ => .ensure <|
    Touches.clockNow fun _ => .step (Touches.transact (.mint .proposal) (fun _ => rfl) rfl) fun _ =>
    .step (Touches.write (.insertProposal _) (fun _ => rfl) rfl) fun _ => .pure _

theorem touches_castVoteAs (voterId : UserId) (proposalId : ProposalId) (isAye : Bool) :
    WritesOnly (Touches [.votes]) (castVoteAs voterId proposalId isAye) :=
  Touches.ask fun _ => .okOr fun _ => .ensure <| Touches.ask fun _ => .ensure <|
    .last (Touches.write (.upsertVote _) (fun _ => rfl) rfl)

theorem touches_castVote (voterHandle : String) (proposalId : ProposalId) (isAye : Bool) :
    WritesOnly (Touches [.votes]) (castVote voterHandle proposalId isAye) :=
  Touches.ask fun _ => .okOr fun _ => touches_castVoteAs _ _ _

theorem touches_castVoteById (voterId : UserId) (proposalId : ProposalId) (isAye : Bool) :
    WritesOnly (Touches [.votes]) (castVoteById voterId proposalId isAye) :=
  Touches.ask fun _ => .okOr fun _ => touches_castVoteAs _ _ _

theorem touches_tallyVotes (server : Server) (weighted : Bool) (now : Timestamp)
    (vs : List Vote) (tally : Tally) :
    (tallyVotes server weighted now vs tally).Guarantees (Touches parts) := by
  induction vs generalizing tally with
  | nil => trivial
  | cons v vs ih =>
    apply Prog.Guarantees.bind (guarantees_ask Touches.refl _)
    intro m
    cases m.filter Membership.isFranchised with
    | none => exact ih _
    | some m => exact ih _

theorem touches_editServer (server : ServerId) (f : Server → Server) :
    (editServer server f).Guarantees (Touches governed) := by
  apply Prog.Guarantees.bind (guarantees_ask Touches.refl _)
  intro s
  cases s with
  | none => trivial
  | some s => exact Touches.write (.updateServer _) (fun _ => rfl) rfl

theorem touches_ifRole {α : Type} (role : RoleId) (sid : ServerId) {f : Inner → α × Inner}
    (m : Mutation) (h : ∀ s, (f s).2 = m.run s) (hpart : governed.contains m.part = true) :
    Prog.Guarantees (Touches governed) (do
      if (← ask (·.getRole role)).any (fun r => r.serverId == sid) then
        let _ ← transact f
        return ()
      else
        return ()) := by
  apply Prog.Guarantees.bind (guarantees_ask Touches.refl _)
  intro r
  refine Prog.Guarantees.ite ?_ (Prog.guarantees_pure _)
  exact .bind (Touches.transact m h hpart) fun _ => Prog.guarantees_pure _

theorem touches_enact (sid : ServerId) (kind : ProposalKind) (now : Timestamp) :
    (enact sid kind now).Guarantees (Touches governed) := by
  cases kind with
  | createChannel name topic =>
    simp only [enact]
    generalize normalizeChannelName name = name
    refine Prog.Guarantees.ite (Prog.guarantees_pure _) ?_
    apply Prog.Guarantees.bind (guarantees_ask Touches.refl _)
    intro found
    cases found with
    | some x => trivial
    | none =>
      exact .bind (Touches.transact (.mint .channel) (fun _ => rfl) rfl) fun _ =>
        Touches.write (.insertChannel _) (fun _ => rfl) rfl
  | deleteChannel name =>
    apply Prog.Guarantees.bind (guarantees_ask Touches.refl _)
    intro found
    cases found with
    | some x =>
      exact .bind (Touches.transact (.removeChannel _) (fun _ => rfl) rfl) fun _ =>
        Prog.guarantees_pure _
    | none => trivial
  | addRule text =>
    exact .bind (Touches.transact (.mint .rule) (fun _ => rfl) rfl) fun _ =>
      Touches.write (.insertRule _) (fun _ => rfl) rfl
  | removeRule rule =>
    exact .bind (Touches.transact (.removeRule _) (fun _ => rfl) rfl) fun _ => Prog.guarantees_pure _
  | createRole name =>
    simp only [enact]
    generalize normalizeRoleName name = name
    refine Prog.Guarantees.ite (Prog.guarantees_pure _) ?_
    apply Prog.Guarantees.bind (guarantees_ask Touches.refl _)
    intro found
    cases found with
    | some x => trivial
    | none =>
      exact .bind (Touches.transact (.mint .role) (fun _ => rfl) rfl) fun _ =>
        Touches.write (.insertRole _) (fun _ => rfl) rfl
  | deleteRole role => exact touches_ifRole role sid (.removeRole role) (fun _ => rfl) rfl
  | assignRole user role => exact touches_ifRole role sid (.assign ⟨sid, role, user⟩) (fun _ => rfl) rfl
  | unassignRole user role => exact touches_ifRole role sid (.unassign role user) (fun _ => rfl) rfl
  | ban user => exact touches_editMembership rfl _ _ _
  | timeout user until_ => exact touches_editMembership rfl _ _ _
  | grantVoteWeight user weight => exact touches_editMembership rfl _ _ _
  | «recall» leader => trivial
  | removeContent target => trivial
  | _ => exact touches_editServer _ _

theorem touches_closeIfDue (server : Server) (citizens : Nat) (phase : Phase) (now : Timestamp)
    (p : Proposal) : (closeIfDue server citizens phase now p).Guarantees (Touches governed) := by
  refine Prog.Guarantees.ite ?_ (Prog.guarantees_pure _)
  apply Prog.Guarantees.bind
  · exact .bind (guarantees_ask Touches.refl _) fun _ => touches_tallyVotes _ _ _ _ _
  · intro tally
    exact .bind (Touches.write (.updateProposal _) (fun _ => rfl) rfl) fun _ => Prog.guarantees_pure _

theorem touches_applyIfDue (now : Timestamp) (p : Proposal) :
    (applyIfDue now p).Guarantees (Touches governed) := by
  unfold applyIfDue
  split
  next =>
    refine Prog.Guarantees.ite ?_ (Prog.guarantees_pure _)
    apply Prog.Guarantees.bind
    · exact .bind (touches_enact _ _ _) fun _ => Prog.guarantees_modify (fun _ => Touches.of_store_eq rfl)
    · exact fun _ => Touches.write (.updateProposal _) (fun _ => rfl) rfl
  next => trivial

theorem touches_sweep (server : Server) (citizens : Nat) (phase : Phase) (now : Timestamp)
    (ps : List Proposal) : (sweep server citizens phase now ps).Guarantees (Touches governed) := by
  induction ps with
  | nil => trivial
  | cons p ps ih =>
    apply Prog.Guarantees.bind
    · exact .bind (touches_closeIfDue _ _ _ _ _) fun _ => touches_applyIfDue _ _
    · exact fun _ => ih

theorem touches_resolveDue (serverSlug : String) :
    (resolveDue serverSlug).Guarantees (Touches governed) := by
  apply Prog.Guarantees.bind (guarantees_ask Touches.refl _)
  intro server
  cases server with
  | none => trivial
  | some server =>
    exact .bind (guarantees_clockNow Touches.refl) fun _ =>
      .bind (guarantees_ask Touches.refl _) fun _ =>
      .bind (guarantees_ask Touches.refl _) fun _ => touches_sweep _ _ _ _ _

theorem touches_listProposals (serverSlug : String) :
    (listProposals serverSlug).Guarantees (Touches governed) := by
  apply Prog.Guarantees.bind (touches_resolveDue serverSlug)
  intro _
  apply Prog.Guarantees.bind (guarantees_ask Touches.refl _)
  intro server
  cases server with
  | none => trivial
  | some server => exact guarantees_ask Touches.refl _

end Requests

/-! ## Runs -/

def Op.parts : Op → List Part
  | .setClock _ => []
  | .registerAccount _ | .registerWithPassword .. | .verifyEmail _ | .issueResend .. |
    .setPassword .. => [.accounts]
  | .foundServer .. => [.servers, .members]
  | .createInvite .. | .revokeInvite .. => [.invites]
  | .acceptInvite .. | .joinServer .. | .tryEnfranchise .. | .setContribution .. |
    .setHistorySharing .. => [.members]
  | .createChannel .. => [.channels]
  | .postMessage .. | .postMessageWithAttachments .. | .postSealedMessage .. | .replyMessage .. |
    .editMessage .. => [.messages]
  | .deleteMessage .. => [.media, .messages]
  | .storeMedia .. => [.media]
  | .react .. | .unreact .. => [.reactions, .members]
  | .openProposal .. => [.proposals]
  | .castVote .. | .castVoteById .. => [.votes]
  | .resolveDue _ | .listProposals _ => governed

variable (services : Services)

/-- An operation writes to its own parts of the store. -/
theorem touches_step (w : World) (op : Op) : Touches op.parts w (services.step w op) := by
  cases op with
  | setClock now => exact Touches.of_store_eq rfl
  | registerAccount handle => exact Touches.of_writesOnly (touches_registerAccount _) w
  | registerWithPassword drawn handle email password =>
    exact Touches.of_writesOnly (touches_registerWithPassword services _ _ _ _) w
  | verifyEmail rawToken => exact Touches.of_writesOnly (touches_verifyEmail services _) w
  | issueResend drawn handle => exact Touches.of_writesOnly (touches_issueResend services _ _) w
  | setPassword drawn handle password => exact Touches.of_writesOnly (touches_setPassword _ _ _) w
  | foundServer founderHandle name isPrivate =>
    exact Touches.of_writesOnly (touches_foundServer _ _ _) w
  | createInvite code handle serverSlug =>
    exact Touches.of_writesOnly (touches_createInvite services _ _ _) w
  | acceptInvite handle code => exact Touches.of_writesOnly (touches_acceptInvite services _ _) w
  | revokeInvite handle serverSlug codeHash =>
    exact Touches.of_writesOnly (touches_revokeInvite _ _ _) w
  | joinServer handle serverSlug => exact Touches.of_writesOnly (touches_joinServer _ _) w
  | tryEnfranchise handle serverSlug => exact Touches.of_writesOnly (touches_tryEnfranchise _ _) w
  | setContribution handle serverSlug contribution =>
    exact Touches.of_writesOnly (touches_setContribution _ _ _) w
  | createChannel founderHandle serverSlug name topic =>
    exact Touches.of_writesOnly (touches_createChannel _ _ _ _) w
  | postMessage handle serverSlug channelName body =>
    exact Touches.of_writesOnly (touches_postMessage _ _ _ _) w
  | postMessageWithAttachments handle serverSlug channelName body attachments =>
    exact Touches.of_writesOnly (touches_postMessageWithAttachments _ _ _ _ _) w
  | postSealedMessage handle serverSlug channelName ciphertext keyEpoch parent =>
    exact Touches.of_writesOnly (touches_postSealedMessage _ _ _ _ _ _) w
  | replyMessage handle parentId body => exact Touches.of_writesOnly (touches_replyMessage _ _ _) w
  | editMessage handle messageId body => exact Touches.of_writesOnly (touches_editMessage _ _ _) w
  | deleteMessage handle messageId => exact Touches.of_writesOnly (touches_deleteMessage _ _) w
  | storeMedia nanos contentType bytes => exact Touches.of_writesOnly (touches_storeMedia _ _ _) w
  | setHistorySharing handle serverSlug shares =>
    exact Touches.of_writesOnly (touches_setHistorySharing _ _ _) w
  | react handle messageId emoji => exact Touches.of_writesOnly (touches_react _ _ _) w
  | unreact handle messageId emoji => exact Touches.of_writesOnly (touches_unreact _ _ _) w
  | openProposal proposerHandle serverSlug kind =>
    exact Touches.of_writesOnly (touches_openProposal _ _ _) w
  | castVote voterHandle proposalId isAye => exact Touches.of_writesOnly (touches_castVote _ _ _) w
  | castVoteById voterId proposalId isAye =>
    exact Touches.of_writesOnly (touches_castVoteById _ _ _) w
  | resolveDue serverSlug => exact Touches.of_guarantees (touches_resolveDue _) w
  | listProposals serverSlug => exact Touches.of_guarantees (touches_listProposals _) w

/-- No operation of a node touches the social graph. -/
theorem civil_step (w : World) (op : Op) : Civil w (services.step w op) :=
  (touches_step services w op).civil (by cases op <;> rfl)

/-- What an operation does to the store it does by mutations. -/
theorem mutates_step (w : World) (op : Op) : Mutates w (services.step w op) :=
  (civil_step services w op).mutates

end Democrachat
