import Democrachat.Domain.MessageTree
import Democrachat.Polity.Posting

/-!
# The tree of a channel

From messages with identifiers of their own and no cycle of replies the tree is built to its
end, and it has each of them once, in its place.  The messages of a channel are such: a reply
is stored after what it replies to.
-/

namespace Democrachat

open Library Req

/-! ## The table of children -/

/-- `m` is a reply to `p`, and both are there. -/
def RepliesTo (messages : List Message) (m p : Message) : Prop :=
  m ∈ messages ∧ p ∈ messages ∧ m.parent = some p.id

/-- Identifiers of their own, and no message above itself. -/
structure Threadable (messages : List Message) : Prop where
  distinct : (messages.map (·.id)).Nodup
  acyclic : ∀ m, ¬ Relation.TransGen (RepliesTo messages) m m

/-- The forest has the messages, each in its place and each level by identifier. -/
structure Threading (messages : List Message) (forest : List MessageNode) : Prop where
  complete : (Rose.flatten forest).Perm messages
  once : (Rose.flatten forest).Nodup
  root : ∀ m, m ∈ forest.map Rose.value ↔ m ∈ messages ∧ ∀ p ∈ messages, m.parent ≠ some p.id
  reply : ∀ node ∈ Rose.nodes forest, ∀ m, m ∈ node.children.map Rose.value ↔
    m ∈ messages ∧ m.parent = some node.value.id
  ascendingRoots : (forest.map Rose.value).Pairwise (fun a b => a.id < b.id)
  ascendingReplies : ∀ node ∈ Rose.nodes forest,
    (node.children.map Rose.value).Pairwise (fun a b => a.id < b.id)

section Children

variable {messages : List Message} {m : Message} {k : Option MessageId}

theorem threadKey_eq_some {k : MessageId} :
    threadKey (messages.map (·.id)) m = some k ↔ m.parent = some k ∧ ∃ p ∈ messages, p.id = k := by
  rw [threadKey]
  split
  next p hp =>
    rw [hp, Option.ite_none_right_eq_some, List.contains_iff_mem, List.mem_map, and_comm]
    refine and_congr_right (fun hk => ?_)
    rw [Option.some.inj hk]
  next hnone => simp [hnone]

theorem threadKey_eq_none :
    threadKey (messages.map (·.id)) m = none ↔ ∀ p ∈ messages, m.parent ≠ some p.id := by
  constructor
  · intro hnone p hp hparent
    have hsome := threadKey_eq_some.2 ⟨hparent, p, hp, rfl⟩
    cases hnone.symm.trans hsome
  · intro h
    rw [Option.eq_none_iff_forall_ne_some]
    intro k hk
    obtain ⟨hparent, p, hp, rfl⟩ := threadKey_eq_some.1 hk
    exact h p hp hparent

theorem foldl_push (f : Message → Option MessageId) (messages : List Message)
    (children : Children) (k : Option MessageId) :
    messages.foldl (fun c m => Children.push c (f m) m) children k =
      children k ++ messages.filter (fun m => f m = k) := by
  induction messages generalizing children with
  | nil => simp
  | cons m messages ih =>
    rw [List.foldl_cons, ih, List.filter_cons, Children.push]
    by_cases h : f m = k
    · simp [h]
    · simp [h, Function.update_of_ne (Ne.symm h)]

variable (messages k) in
theorem perm_childrenOf : (childrenOf messages k).Perm
    (messages.filter (fun m => threadKey (messages.map (·.id)) m = k)) := by
  have hfold := foldl_push (threadKey (messages.map (·.id))) messages (fun _ => []) k
  rw [List.nil_append] at hfold
  have hperm := List.mergeSort_perm
    (messages.filter (fun m => threadKey (messages.map (·.id)) m = k)) (fun a b => a.id ≤ b.id)
  rw [← hfold] at hperm ⊢
  exact hperm

theorem mem_childrenOf :
    m ∈ childrenOf messages k ↔ m ∈ messages ∧ threadKey (messages.map (·.id)) m = k := by
  rw [(perm_childrenOf messages k).mem_iff, List.mem_filter, decide_eq_true_eq]

theorem mem_childrenOf_none :
    m ∈ childrenOf messages none ↔ m ∈ messages ∧ ∀ p ∈ messages, m.parent ≠ some p.id := by
  rw [mem_childrenOf, threadKey_eq_none]

theorem mem_childrenOf_some {p : Message} (hp : p ∈ messages) :
    m ∈ childrenOf messages (some p.id) ↔ m ∈ messages ∧ m.parent = some p.id := by
  rw [mem_childrenOf, threadKey_eq_some]
  exact and_congr_right (fun _ => and_iff_left ⟨p, hp, rfl⟩)

theorem filed_childrenOf (h : (messages.map (·.id)).Nodup) :
    Filed (·.id) (threadKey (messages.map (·.id))) messages (childrenOf messages) where
  perm := perm_childrenOf messages
  above := fun _ _ _ hk => (threadKey_eq_some.1 hk).2
  nodup := h

/-- Siblings are listed by their identifiers. -/
theorem ascending_childrenOf (h : (messages.map (·.id)).Nodup) (k : Option MessageId) :
    (childrenOf messages k).Pairwise (fun a b => a.id < b.id) := by
  have hsorted : (childrenOf messages k).Pairwise (fun a b => decide (a.id ≤ b.id) = true) := by
    apply List.pairwise_mergeSort
    · intro a b c hab hbc
      exact decide_eq_true ((of_decide_eq_true hab).trans (of_decide_eq_true hbc))
    · intro a b
      simpa using le_total a.id b.id
  have hdistinct : (childrenOf messages k).Pairwise (fun a b => a.id ≠ b.id) := by
    have hfiltered := (List.pairwise_map.1 h).filter (fun m => threadKey (messages.map (·.id)) m = k)
    exact (perm_childrenOf messages k).symm.pairwise hfiltered (fun hab => hab.symm)
  exact hsorted.imp₂ (fun a b hle hne => lt_of_le_of_ne (of_decide_eq_true hle) hne) hdistinct

/-- The table does not depend on the order of the messages. -/
theorem childrenOf_eq_of_perm {l : List Message} (hperm : l.Perm messages)
    (h : (messages.map (·.id)).Nodup) : childrenOf l = childrenOf messages := by
  have hl : (l.map (·.id)).Nodup := (hperm.map _).nodup_iff.2 h
  have hkey : ∀ m, threadKey (l.map (·.id)) m = threadKey (messages.map (·.id)) m := by
    intro m
    ext k
    simp only [threadKey_eq_some, hperm.mem_iff]
  funext k
  refine Table.sorted_ext (ascending_childrenOf hl k) (ascending_childrenOf h k) (fun m => ?_)
  rw [mem_childrenOf, mem_childrenOf, hperm.mem_iff, hkey]

end Children

/-! ## Complete trees -/

section Complete

variable {messages : List Message}

/-- No reply stands above what it replies to, whether one goes up or down. -/
theorem Threadable.wellFounded_up (h : Threadable messages) :
    WellFounded (fun p m => RepliesTo messages m p) := by
  refine wellFounded_of_acyclic (l := messages) (fun p m hreply => hreply.2.1) (fun m hcycle => ?_)
  exact h.acyclic m (Relation.transGen_swap.1 hcycle)

theorem Threadable.wellFounded_down (h : Threadable messages) :
    WellFounded (RepliesTo messages) :=
  wellFounded_of_acyclic (fun _ _ hreply => hreply.1) h.acyclic

theorem Threadable.threading (h : Threadable messages) {forest : List MessageNode}
    (hforest : Grows (·.id) (childrenOf messages) none forest) : Threading messages forest := by
  have hfiled := filed_childrenOf h.distinct
  have hcomplete : (Rose.flatten forest).Perm messages := by
    refine hfiled.flatten_perm ?_ hforest
    refine Subrelation.wf (fun hreply => ?_) h.wellFounded_up
    exact ⟨hreply.2.1, hreply.1, (threadKey_eq_some.1 hreply.2.2).1⟩
  have hnode : ∀ node ∈ Rose.nodes forest, node.value ∈ messages :=
    fun node hmem => hcomplete.subset (List.mem_map_of_mem hmem)
  refine ⟨hcomplete, hcomplete.nodup_iff.2 h.distinct.of_map, ?_, ?_, ?_, ?_⟩
  · intro m
    rw [hforest.values]
    exact mem_childrenOf_none
  · intro node hmem m
    rw [hforest.children_of_mem node hmem]
    exact mem_childrenOf_some (hnode node hmem)
  · rw [hforest.values]
    exact ascending_childrenOf h.distinct none
  · intro node hmem
    rw [hforest.children_of_mem node hmem]
    exact ascending_childrenOf h.distinct (some node.value.id)

theorem Threadable.exists_forest (h : Threadable messages) :
    ∃ depth forest, Threading messages forest ∧
      ∀ d, depth ≤ d → ∀ l, l.Perm messages → buildMessageTree d l = some forest := by
  have hdown : WellFounded (fun m v : Message => m ∈ childrenOf messages (some v.id) ∧
      ∃ k, v ∈ childrenOf messages k) := by
    refine Subrelation.wf (fun hchild => ?_) h.wellFounded_down
    obtain ⟨hm, k, hv⟩ := hchild
    have hv' := (mem_childrenOf.1 hv).1
    have hreply := (mem_childrenOf_some hv').1 hm
    exact ⟨hreply.1, hv', hreply.2⟩
  obtain ⟨depth, forest, hgrows, hforest⟩ := exists_grow hdown none
  refine ⟨depth, forest, h.threading hgrows, fun d hd l hperm => ?_⟩
  rw [buildMessageTree, childrenOf_eq_of_perm hperm h.distinct]
  exact hforest d hd

end Complete

/-! ## The messages of a channel -/

section Served

variable {services : Services} {w : World}

/-- A message was there with the same parent, or it is new and what it replies to was there. -/
def Hangs (w w' : World) : Prop :=
  ∀ m ∈ w'.store.messages.rows,
    (∃ m₀ ∈ w.store.messages.rows, m₀.id = m.id ∧ m₀.parent = m.parent) ∨
      m.id = w.store.nextMessageId.1 ∧ w.StoresParent m.parent

theorem hangs_of_subset {w' : World}
    (h : ∀ m ∈ w'.store.messages.rows, m ∈ w.store.messages.rows) : Hangs w w' :=
  fun m hm => .inl ⟨m, h m hm, rfl, rfl⟩

theorem hangs_refl (w : World) : Hangs w w :=
  hangs_of_subset (fun _ hm => hm)

theorem hangs_insert {w' : World} {m : Message}
    (hmessages : w'.store.messages = w.store.messages.insert m)
    (h : (∃ m₀ ∈ w.store.messages.rows, m₀.id = m.id ∧ m₀.parent = m.parent) ∨
      m.id = w.store.nextMessageId.1 ∧ w.StoresParent m.parent) : Hangs w w' := by
  unfold Hangs
  rw [hmessages]
  exact forall_insert (fun m₀ hm₀ => .inl ⟨m₀, hm₀, rfl, rfl⟩) h

/-- A message that is written again keeps its place. -/
theorem hangs_rewrite {w' : World} {handle : String} {messageId : MessageId} {m m' : Message}
    (hauthors : Authors w handle messageId m)
    (hmessages : w'.store.messages = w.store.messages.insert m')
    (hid : m'.id = m.id) (hparent : m'.parent = m.parent) : Hangs w w' :=
  hangs_insert hmessages
    (.inl ⟨m, Table.mem_of_get hauthors.found, hid.symm, hparent.symm⟩)

theorem hangs_insertMessage (author : UserId) (channel : Channel) (body : String)
    {parent : Option MessageId} (hparent : w.StoresParent parent) (attachments : List Attachment) :
    Hangs w ((insertMessage author channel body parent attachments).exec w).2 := by
  rcases insertMessage_cases w author channel body parent attachments with
    ⟨e, herror⟩ | ⟨-, hexec⟩
  · rw [herror]
    exact hangs_refl w
  · rw [hexec]
    exact hangs_insert rfl (.inr ⟨rfl, hparent⟩)

theorem hangs_resolvePoster {handle serverSlug channelName : String}
    {k : Channel × UserId → Req World MessageError Message}
    (h : ∀ channel author, Hangs w ((k (channel, author)).exec w).2) :
    Hangs w ((resolvePoster handle serverSlug channelName >>= k).exec w).2 := by
  rw [exec_bind]
  rcases resolvePoster_cases w handle serverSlug channelName with
    ⟨e, herror⟩ | ⟨channel, author, -, hexec⟩
  · rw [herror]
    exact hangs_refl w
  · rw [hexec]
    exact h channel author

theorem hangs_step (hplaced : MessagesPlaced w.polity) (op : Op) :
    Hangs w (services.step w op) := by
  have hnone : w.StoresParent none := fun _ h => (nomatch h)
  cases op with
  | postMessage handle serverSlug channelName body =>
    exact hangs_resolvePoster (fun channel author => hangs_insertMessage author channel body hnone [])
  | postMessageWithAttachments handle serverSlug channelName body attachments =>
    exact hangs_resolvePoster
      (fun channel author => hangs_insertMessage author channel body hnone attachments)
  | replyMessage handle parentId body =>
    rcases replyMessage_cases w handle parentId body with
      ⟨e, herror⟩ | ⟨parent, channel, user, hreplies, hexec⟩
    · rw [Services.step, herror]
      exact hangs_refl w
    · rw [Services.step, hexec]
      refine hangs_insertMessage user.id channel body (fun p hp => ⟨parent, ?_⟩) []
      obtain rfl := Option.mem_some_iff.1 hp
      exact Table.mem_iff.1 (Table.mem_of_get hreplies.parentFound)
  | postSealedMessage handle serverSlug channelName ciphertext keyEpoch parent =>
    rcases postSealedMessage_cases w handle serverSlug channelName ciphertext keyEpoch parent with
      ⟨e, herror⟩ | ⟨author, channel, parent', -, -, hparent, hexec⟩
    · rw [Services.step, herror]
      exact hangs_refl w
    · rw [Services.step, hexec]
      exact hangs_insert rfl (.inr ⟨rfl, hparent⟩)
  | editMessage handle messageId body =>
    rcases editMessage_cases w handle messageId body with ⟨e, herror⟩ | ⟨m, hauthors, hbody⟩
    · rw [Services.step, herror]
      exact hangs_refl w
    · rw [Services.step, exec_editMessage hauthors hbody]
      exact hangs_rewrite hauthors rfl rfl rfl
  | deleteMessage handle messageId =>
    rcases deleteMessage_cases w handle messageId with ⟨e, herror⟩ | ⟨m, hauthors⟩
    · rw [Services.step, herror]
      exact hangs_refl w
    · rw [Services.step, exec_deleteMessage hauthors]
      exact hangs_rewrite hauthors
        (congrArg (Table.insert · m.tombstone) (w.dropBlobs_messages m.attachments)) rfl rfl
  | resolveDue serverSlug =>
    have hsifted := sifted_resolveDue hplaced serverSlug
    rw [← polity_resolveDue] at hsifted
    exact hangs_of_subset hsifted.kept
  | listProposals serverSlug =>
    have hsifted := sifted_resolveDue hplaced serverSlug
    rw [← polity_listProposals] at hsifted
    exact hangs_of_subset hsifted.kept
  | createChannel founderHandle serverSlug name topic =>
    rcases createChannel_cases w founderHandle serverSlug name topic with hsame | ⟨_, -, hadded⟩
    · rw [Services.step, hsame]
      exact hangs_refl w
    · rw [Services.step, hadded]
      exact hangs_refl w
  | _ =>
    refine hangs_of_subset ?_
    rw [(touches_step services w _).spares.messages rfl rfl]
    exact fun _ hm => hm

theorem Services.Served.hangs (hw : services.Served w) (u : UseCase) :
    Hangs w (services.serve w u) := by
  by_cases hop : ∃ op, u = .op op
  · obtain ⟨op, rfl⟩ := hop
    exact hangs_step hw.messagesPlaced op
  · have hpens := hw.pens u
    generalize services.serve w u = w' at hpens ⊢
    cases hpens with
    | idle hmessages =>
      apply hangs_of_subset
      rw [hmessages]
      exact fun _ hm => hm
    | _ => exact absurd ⟨_, rfl⟩ hop

theorem Minted.lt_composeId {e : Entity} {node : NodeId} {n : Nat} {i : Id e}
    (h : Minted node n i) : i < composeId node (n + 1) := by
  show i.rank < (composeId node (n + 1) : Id e).rank
  rw [Id.rank, Id.rank, h.node, Prod.Lex.toLex_lt_toLex]
  exact .inr ⟨rfl, Nat.lt_succ_of_le h.sequence⟩

/-- A reply has a later identifier than what it replies to. -/
theorem Services.Served.parent_lt (hw : services.Served w) :
    ∀ m ∈ w.store.messages.rows, ∀ p ∈ m.parent, p < m.id := by
  refine hw.invariant (I := fun w : World => ∀ m ∈ w.store.messages.rows, ∀ p ∈ m.parent, p < m.id)
    (fun _ _ _ hm => (nomatch hm)) ?_
  intro w u hw ih m hm p hp
  rcases hw.hangs u m hm with ⟨m₀, hm₀, hid, hparent⟩ | ⟨hid, hstored⟩
  · rw [← hid]
    exact ih m₀ hm₀ p (hparent ▸ hp)
  · obtain ⟨q, hq⟩ := hstored p hp
    have hminted := hw.messagesMinted q (Table.mem_of_get hq)
    rw [hid, ← show q.id = p from Table.key_of_get hq]
    exact hminted.lt_composeId

/-- What has later replies only has no cycle of them. -/
theorem threadable_of_parent_lt {l : List Message} (hdistinct : (l.map (·.id)).Nodup)
    (h : ∀ m ∈ l, ∀ p ∈ m.parent, p < m.id) : Threadable l := by
  refine ⟨hdistinct, fun m hcycle => ?_⟩
  have hlater : ∀ {a b : Message}, Relation.TransGen (RepliesTo l) a b → b.id < a.id := by
    intro a b hab
    induction hab with
    | single hreply => exact h a hreply.1 _ hreply.2.2
    | tail _ hreply ih => exact (h _ hreply.1 _ hreply.2.2).trans ih
  exact lt_irrefl m.id (hlater hcycle)

theorem Services.Served.threadable (hw : services.Served w) {channel : ChannelId}
    {l : List Message} (hl : l.Sublist (w.store.listForChannel channel)) : Threadable l := by
  have hrows : l.Sublist w.store.messages.rows := hl.trans List.filter_sublist
  have hids := List.pairwise_map.2 (w.store.messages.sorted.imp (fun h => h.ne))
  exact threadable_of_parent_lt (hids.sublist (hrows.map _))
    (fun m hm => hw.parent_lt m (hrows.subset hm))

end Served

theorem message_tree_complete (services : Services) :
    (∀ messages, Threadable messages → ∃ depth forest, Threading messages forest ∧
      ∀ d, depth ≤ d → ∀ l, l.Perm messages → buildMessageTree d l = some forest) ∧
    ∀ w, services.Served w → ∀ channel l, l.Sublist (w.store.listForChannel channel) →
      Threadable l :=
  ⟨fun _ h => h.exists_forest, fun _ hw _ _ hl => hw.threadable hl⟩

namespace Agora

/-- A message and a reply to it. -/
def chatting : List Op :=
  founding ++ [.createChannel "zed" "agora" "square" "", .postMessage "zed" "agora" "square" "hi",
    .replyMessage "zed" (composeId 0 1) "hi yourself"]

def chatted : World := services.serveAll (.empty 0 ⟨0⟩) (chatting.map .op)

end Agora

theorem message_tree_complete_agora :
    (Agora.chatted.store.listForChannel (composeId 0 1)).map (·.parent) =
      [none, some (composeId 0 1)] ∧
    ∃ depth forest, Threading (Agora.chatted.store.listForChannel (composeId 0 1)) forest ∧
      ∀ d, depth ≤ d → ∀ l, l.Perm (Agora.chatted.store.listForChannel (composeId 0 1)) →
        buildMessageTree d l = some forest := by
  have hcomplete := message_tree_complete Agora.services
  refine ⟨by decide +kernel, hcomplete.1 _ (hcomplete.2 Agora.chatted ?_ _ _ (.refl _))⟩
  exact ⟨0, ⟨0⟩, Agora.chatting.map .op, rfl⟩

end Democrachat
