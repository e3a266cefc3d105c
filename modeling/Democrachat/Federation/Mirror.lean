import Democrachat.Federation.Cells
import Democrachat.Federation.Network

/-!
# Mutations and what mirrors them

The writing ports of the store as one type of mutations.  Each does to the cells
what the outbox records that it appends do to the cells of a replica.
-/

namespace Democrachat

open Library

/-- A call of a writing port; a direct message is stored under an id minted for it. -/
inductive Mutation where
  | mint (e : Entity)
  | insertUser (user : User)
  | updateUser (user : User)
  | insertServer (server : Server)
  | updateServer (server : Server)
  | upsertMembership (membership : Membership)
  | insertChannel (channel : Channel)
  | removeChannel (id : ChannelId)
  | insertMessage (message : Message)
  | updateMessage (message : Message)
  | addReaction (reaction : Reaction)
  | removeReaction (message : MessageId) (user : UserId) (emoji : String)
  | insertProposal (proposal : Proposal)
  | updateProposal (proposal : Proposal)
  | upsertVote (vote : Vote)
  | insertEmoji (emoji : Emoji)
  | upsertEmojiVote (vote : EmojiVote)
  | insertRule (rule : Rule)
  | removeRule (id : RuleId)
  | insertRole (role : Role)
  | removeRole (id : RoleId)
  | assign (assignment : RoleAssignment)
  | unassign (role : RoleId) (user : UserId)
  | addInvite (invite : Invite)
  | revokeInvite (codeHash : String)
  | putKeys (keys : UserKeys)
  | putGrant (grant : ChannelKeyGrant)
  | sendDm (sender recipient : UserId) (sealedForRecipient sealedForSender : String)
      (createdAt : Timestamp)
  | addBlock (block : Block)
  | addFriendship (friendship : Friendship)
  | updateFriendship (friendship : Friendship)
  | putMedia (nanos : Nat) (contentType : String) (bytes : List UInt8)
  | deleteMedia (key : String)
  | addToken (token : VerificationToken)
  | takeToken (tokenHash : String) (now : Int)
  | rememberNonce (node : NodeId) (nonce : String) (now expiryAt : Int64)

namespace Mutation

def mintId (s : Inner) : Entity → Inner
  | .user => s.nextUserId.2
  | .server => s.nextServerId.2
  | .channel => s.nextChannelId.2
  | .message => s.nextMessageId.2
  | .proposal => s.nextProposalId.2
  | .rule => s.nextRuleId.2
  | .role => s.nextRoleId.2
  | .emoji => s.nextEmojiId.2
  | .dm => s.nextDmId.2

def run (s : Inner) : Mutation → Inner
  | mint e => mintId s e
  | insertUser user => s.insertUser user
  | updateUser user => s.updateUser user
  | insertServer server => s.insertServer server
  | updateServer server => s.updateServer server
  | upsertMembership membership => s.upsertMembership membership
  | insertChannel channel => s.insertChannel channel
  | removeChannel id => (s.removeChannel id).2
  | insertMessage message => s.insertMessage message
  | updateMessage message => s.updateMessage message
  | addReaction reaction => (s.addReaction reaction).2
  | removeReaction message user emoji => (s.removeReaction message user emoji).2
  | insertProposal proposal => s.insertProposal proposal
  | updateProposal proposal => s.updateProposal proposal
  | upsertVote vote => s.upsertVote vote
  | insertEmoji emoji => s.insertEmoji emoji
  | upsertEmojiVote vote => s.upsertEmojiVote vote
  | insertRule rule => s.insertRule rule
  | removeRule id => (s.removeRule id).2
  | insertRole role => s.insertRole role
  | removeRole id => (s.removeRole id).2
  | assign assignment => (s.assign assignment).2
  | unassign role user => (s.unassign role user).2
  | addInvite invite => s.addInvite invite
  | revokeInvite codeHash => s.revokeInvite codeHash
  | putKeys keys => s.putKeys keys
  | putGrant grant => s.putGrant grant
  | sendDm sender recipient sealedForRecipient sealedForSender createdAt =>
    match s.nextDmId with
    | (id, s) => s.insertDm ⟨id, sender, recipient, sealedForRecipient, sealedForSender, createdAt⟩
  | addBlock block => (s.addBlock block).2
  | addFriendship friendship => (s.addFriendship friendship).2
  | updateFriendship friendship => s.updateFriendship friendship
  | putMedia nanos contentType bytes => (s.putMedia nanos contentType bytes).2
  | deleteMedia key => s.deleteMedia key
  | addToken token => s.addToken token
  | takeToken tokenHash now => (s.takeToken tokenHash now).2
  | rememberNonce node nonce now expiryAt => (s.rememberNonce node nonce now expiryAt).2

def runAll (s : Inner) (ms : List Mutation) : Inner := ms.foldl run s

end Mutation

/-! ## What an outbox record does to the cells -/

/-- Of the deleted rows a reaction is known by its three fields alone. -/
def ChangeRecord.onCell (r : ChangeRecord) (k : RowKey) : CellOp Row :=
  match r.op with
  | .upsert => r.payload.putOn k
  | .delete =>
    match r.payload with
    | .reaction x => if (Row.reaction x).key = k then .write none else .keep
    | row => row.dropOn k

/-- The rows of which a deletion is recorded with the row as it was. -/
def Row.isRemoved : Row → Bool
  | channel _ | rule _ | role _ | roleAssignment _ => true
  | _ => false

/-- What is recorded: an upserted row, a removed one, or the three fields of a reaction. -/
def ChangeRecord.IsRecorded (r : ChangeRecord) : Prop :=
  r.op = .upsert ∨ r.payload.isRemoved = true ∨ ∃ x, r.payload = .reaction x

namespace Inner

/-- The second store differs from the first by what the records appended in between do to the
cells. -/
structure Mirrors (s t : Inner) (records : List ChangeRecord) : Prop where
  outbox : t.outbox = s.outbox ++ records
  cell : ∀ k, t.cell k = CellOp.runAll (records.map (ChangeRecord.onCell · k)) (s.cell k)
  node : t.node = s.node
  recorded : ∀ r ∈ records, r.IsRecorded

theorem Mirrors.refl (s : Inner) : s.Mirrors s [] where
  outbox := (List.append_nil _).symm
  cell := fun _ => rfl
  node := rfl
  recorded := fun _ hr => absurd hr List.not_mem_nil

theorem Mirrors.trans {s t u : Inner} {rs rs' : List ChangeRecord} (h : s.Mirrors t rs)
    (h' : t.Mirrors u rs') : s.Mirrors u (rs ++ rs') where
  outbox := by rw [h'.outbox, h.outbox, List.append_assoc]
  cell := by
    intro k
    rw [h'.cell, h.cell, List.map_append, CellOp.runAll_append]
  node := h'.node.trans h.node
  recorded := by
    intro r hr
    rcases List.mem_append.1 hr with hr | hr
    · exact h.recorded r hr
    · exact h'.recorded r hr

/-! ## What one mutation does -/

/-- Neither a replicated row nor the outbox changes. -/
structure Keeps (s t : Inner) : Prop where
  cell : t.cell = s.cell
  outbox : t.outbox = s.outbox
  nextOutbox : t.nextOutbox = s.nextOutbox
  node : t.node = s.node
  dms : t.dms = s.dms
  nextDm : s.nextDm ≤ t.nextDm
  distinct : s.Distinct → t.Distinct

theorem Keeps.refl (s : Inner) : s.Keeps s := ⟨rfl, rfl, rfl, rfl, rfl, le_refl _, id⟩

/-- What a writing port can do to the store. -/
inductive Changes (s : Inner) : Inner → Prop
  | kept {t : Inner} (h : s.Keeps t) : Changes s t
  | put (row : Row) (h : ∀ m, row ≠ .dm m) : Changes s ((s.record .upsert row).put row)
  | removed (row : Row) (h : row.isRemoved = true) : Changes s ((s.record .delete row).drop row)
  | unreacted (r : Reaction) :
    Changes s ({ s with
      reactions := s.reactions.filter (fun x => !(x.messageId == r.messageId && x.user == r.user &&
        x.emoji == r.emoji)) }.record .delete (.reaction r))
  | befriended (f : Friendship)
      (h : s.friends.any (fun g => g.isBetween f.requester f.addressee) = true) :
    Changes s ({ s with friends := replaceFriendship f s.friends }.record .upsert (.friendship f))
  | sent (m : DmMessage) (h : m.id = s.nextDmId.1) : Changes s (s.nextDmId.2.insertDm m)

theorem changes_addReaction (s : Inner) (r : Reaction) : s.Changes (s.addReaction r).2 := by
  unfold addReaction
  split
  next => exact .kept (.refl s)
  next hnew =>
    have hput : (s.record .upsert (.reaction r)).put (.reaction r) =
        { s.record .upsert (.reaction r) with reactions := s.reactions ++ [r] } :=
      if_neg hnew
    have hchanges := Changes.put (s := s) (.reaction r) nofun
    rw [hput] at hchanges
    exact hchanges

theorem changes_removeReaction (s : Inner) (message : MessageId) (user : UserId) (emoji : String) :
    s.Changes (s.removeReaction message user emoji).2 := by
  simp only [removeReaction]
  split
  next => exact .unreacted ⟨message, user, emoji⟩
  next hlength =>
    have hkept : s.reactions.filter
        (fun r => !(r.messageId == message && r.user == user && r.emoji == emoji)) =
          s.reactions := by
      apply List.filter_eq_self.2
      apply List.length_filter_eq_length_iff.1
      simpa only [bne_iff_ne, ne_eq, not_not] using hlength
    rw [hkept]
    exact .kept (.refl s)

theorem changes_assign (s : Inner) (a : RoleAssignment) : s.Changes (s.assign a).2 := by
  unfold assign
  split
  next => exact .kept (.refl s)
  next hnew =>
    have hput : (s.record .upsert (.roleAssignment a)).put (.roleAssignment a) =
        { s.record .upsert (.roleAssignment a) with
          roleAssignments := s.roleAssignments ++ [a] } :=
      if_neg hnew
    have hchanges := Changes.put (s := s) (.roleAssignment a) nofun
    rw [hput] at hchanges
    exact hchanges

theorem changes_addBlock (s : Inner) (b : Block) : s.Changes (s.addBlock b).2 := by
  unfold addBlock
  split
  next => exact .kept (.refl s)
  next hnew =>
    have hput : (s.record .upsert (.block b)).put (.block b) =
        { s.record .upsert (.block b) with blocks := s.blocks ++ [b] } :=
      if_neg hnew
    have hchanges := Changes.put (s := s) (.block b) nofun
    rw [hput] at hchanges
    exact hchanges

theorem changes_addFriendship (s : Inner) (f : Friendship) :
    s.Changes (s.addFriendship f).2 := by
  unfold addFriendship
  split
  next => exact .kept (.refl s)
  next hnew =>
    have hnone : s.friends.filter (fun x => !x.isBetween f.requester f.addressee) = s.friends := by
      apply List.filter_eq_self.2
      intro x hx
      rw [Bool.not_eq_true']
      by_contra hbetween
      exact hnew (List.any_eq_true.2 ⟨x, hx, Bool.not_eq_false _ ▸ hbetween⟩)
    have hput : (s.record .upsert (.friendship f)).put (.friendship f) =
        { s.record .upsert (.friendship f) with friends := s.friends ++ [f] } := by
      rw [← hnone]
      rfl
    have hchanges := Changes.put (s := s) (.friendship f) nofun
    rw [hput] at hchanges
    exact hchanges

/-- Every call of a writing port does one of these. -/
theorem changes_run (s : Inner) (m : Mutation) : s.Changes (m.run s) := by
  cases m with
  | mint e =>
    cases e with
    | dm => exact .kept ⟨rfl, rfl, rfl, rfl, rfl, Nat.le_succ _, fun h => { h with }⟩
    | _ => exact .kept ⟨rfl, rfl, rfl, rfl, rfl, le_refl _, fun h => { h with }⟩
  | insertUser user => exact .put (.user user) nofun
  | updateUser user => exact .put (.user user) nofun
  | insertServer server => exact .put (.server server) nofun
  | updateServer server => exact .put (.server server) nofun
  | upsertMembership membership => exact .put (.membership membership) nofun
  | insertChannel channel => exact .put (.channel channel) nofun
  | removeChannel id =>
    simp only [Mutation.run, removeChannel]
    split
    next => exact .kept (.refl s)
    next removed hget =>
      obtain rfl := Table.key_of_get hget
      exact .removed (.channel removed) rfl
  | insertMessage message => exact .put (.message message) nofun
  | updateMessage message => exact .put (.message message) nofun
  | addReaction reaction => exact changes_addReaction s reaction
  | removeReaction message user emoji => exact changes_removeReaction s message user emoji
  | insertProposal proposal => exact .put (.proposal proposal) nofun
  | updateProposal proposal => exact .put (.proposal proposal) nofun
  | upsertVote vote => exact .put (.vote vote) nofun
  | insertEmoji emoji => exact .put (.emoji emoji) nofun
  | upsertEmojiVote vote => exact .put (.emojiVote vote) nofun
  | insertRule rule => exact .put (.rule rule) nofun
  | removeRule id =>
    simp only [Mutation.run, removeRule]
    split
    next removed hget =>
      obtain rfl := Table.key_of_get hget
      exact .removed (.rule removed) rfl
    next => exact .kept (.refl s)
  | insertRole role => exact .put (.role role) nofun
  | removeRole id =>
    simp only [Mutation.run, removeRole]
    split
    next => exact .kept (.refl s)
    next removed hget =>
      obtain rfl := Table.key_of_get hget
      exact .removed (.role removed) rfl
  | assign assignment => exact changes_assign s assignment
  | unassign role user =>
    simp only [Mutation.run, unassign]
    split
    next => exact .kept (.refl s)
    next assignment hfind =>
      have hfound := List.find?_some hfind
      simp only [Bool.and_eq_true, beq_iff_eq] at hfound
      obtain ⟨rfl, rfl⟩ := hfound
      exact .removed (.roleAssignment assignment) rfl
  | addInvite invite => exact .put (.invite invite) nofun
  | revokeInvite codeHash =>
    simp only [Mutation.run, revokeInvite]
    split
    next invite hget => exact .put (.invite { invite with isRevoked := true }) nofun
    next => exact .kept (.refl s)
  | putKeys keys => exact .put (.userKeys keys) nofun
  | putGrant grant => exact .put (.channelGrant grant) nofun
  | sendDm sender recipient sealedForRecipient sealedForSender createdAt => exact .sent _ rfl
  | addBlock block => exact changes_addBlock s block
  | addFriendship friendship => exact changes_addFriendship s friendship
  | updateFriendship friendship =>
    simp only [Mutation.run, updateFriendship]
    split
    next hany => exact .befriended friendship hany
    next => exact .kept (.refl s)
  | putMedia nanos contentType bytes =>
    exact .kept ⟨rfl, rfl, rfl, rfl, rfl, le_refl _, fun h => { h with }⟩
  | deleteMedia key => exact .kept ⟨rfl, rfl, rfl, rfl, rfl, le_refl _, fun h => { h with }⟩
  | addToken token => exact .kept ⟨rfl, rfl, rfl, rfl, rfl, le_refl _, fun h => { h with }⟩
  | takeToken tokenHash now => exact .kept ⟨rfl, rfl, rfl, rfl, rfl, le_refl _, fun h => { h with }⟩
  | rememberNonce node nonce now expiryAt =>
    exact .kept ⟨rfl, rfl, rfl, rfl, rfl, le_refl _, fun h => { h with }⟩

/-! ## The mirror of a mutation -/

variable {s t : Inner}

theorem Keeps.mirrors (h : s.Keeps t) : s.Mirrors t [] where
  outbox := by rw [h.outbox, List.append_nil]
  cell := fun k => congrFun h.cell k
  node := h.node
  recorded := fun _ hr => absurd hr List.not_mem_nil

/-- A row recorded and written as a replica writes it. -/
theorem mirrors_put (s : Inner) (row : Row) :
    s.Mirrors ((s.record .upsert row).put row) [⟨s.nextOutbox + 1, .upsert, row⟩] where
  outbox := outbox_of_withoutRows (withoutRows_put (s.record .upsert row) row)
  cell := cell_put (s.record .upsert row) row
  node := (node_of_withoutRows (withoutRows_put (s.record .upsert row) row)).trans rfl
  recorded := by
    intro r hr
    rw [List.mem_singleton.1 hr]
    exact .inl rfl

/-- A row removed as a replica removes it. -/
theorem mirrors_drop (s : Inner) {row : Row} (hremoved : row.isRemoved = true) :
    s.Mirrors ((s.record .delete row).drop row) [⟨s.nextOutbox + 1, .delete, row⟩] where
  outbox := outbox_of_withoutRows (withoutRows_drop (s.record .delete row) row)
  cell := by
    intro k
    have hcell : (⟨s.nextOutbox + 1, .delete, row⟩ : ChangeRecord).onCell k = row.dropOn k := by
      cases row with
      | reaction x => cases hremoved
      | _ => rfl
    rw [List.map_singleton, hcell]
    exact cell_drop (s.record .delete row) row k
  node := (node_of_withoutRows (withoutRows_drop (s.record .delete row) row)).trans rfl
  recorded := by
    intro r hr
    rw [List.mem_singleton.1 hr]
    exact .inr (.inl hremoved)

theorem mirrors_unreacted (s : Inner) (r : Reaction) :
    s.Mirrors ({ s with
      reactions := s.reactions.filter (fun x => !(x.messageId == r.messageId && x.user == r.user &&
        x.emoji == r.emoji)) }.record .delete (.reaction r))
      [⟨s.nextOutbox + 1, .delete, .reaction r⟩] where
  outbox := rfl
  cell := by
    intro k
    refine (cell_filter_reactions s k).trans ?_
    cases k with
    | reaction message user emoji =>
      have hsame : (Row.reaction r).key = .reaction message user emoji ↔
          (message == r.messageId && user == r.user && emoji == r.emoji) = true := by
        simp only [Row.key, RowKey.reaction.injEq, Bool.and_eq_true, beq_iff_eq, and_assoc]
        exact and_congr eq_comm (and_congr eq_comm eq_comm)
      rw [List.map_singleton, ChangeRecord.onCell]
      dsimp only
      by_cases h : (message == r.messageId && user == r.user && emoji == r.emoji) = true
      · rw [h, if_neg (by simp), if_pos (hsame.2 h)]
        rfl
      · rw [Bool.not_eq_true] at h
        rw [h, if_pos Bool.not_false, if_neg (fun h' => by simp [hsame.1 h'] at h)]
        rfl
    | _ => rfl
  node := rfl
  recorded := by
    intro r' hr'
    rw [List.mem_singleton.1 hr']
    exact .inr (.inr ⟨r, rfl⟩)

theorem findKey_replaceFriendship (f : Friendship) (l : List Friendship) (k : Sym2 UserId) :
    findKey Friendship.key (replaceFriendship f l) k =
      if f.key = k ∧ l.any (fun g => g.isBetween f.requester f.addressee) then some f
      else findKey Friendship.key l k := by
  induction l with
  | nil => simp [replaceFriendship]
  | cons g l ih =>
    have hbetween : g.isBetween f.requester f.addressee = decide (g.key = f.key) :=
      g.isBetween_eq f.requester f.addressee
    unfold findKey at ih ⊢
    rw [replaceFriendship, hbetween]
    by_cases hkey : g.key = f.key
    · by_cases hk : f.key = k
      · simp [hkey, hk, hbetween]
      · simp [hkey, hk, hbetween]
    · rw [if_neg (by simpa using hkey), List.find?_cons, List.find?_cons, ih, List.any_cons, hbetween]
      by_cases hk : g.key = k
      · have hf : f.key ≠ k := fun h => hkey (hk.trans h.symm)
        simp [hk, hf]
      · simp [hk, hkey]

theorem map_key_replaceFriendship (f : Friendship) (l : List Friendship) :
    (replaceFriendship f l).map Friendship.key = l.map Friendship.key := by
  induction l with
  | nil => rfl
  | cons g l ih =>
    rw [replaceFriendship]
    split
    next hbetween =>
      have hkey : g.key = f.key := by
        rw [g.isBetween_eq] at hbetween
        exact of_decide_eq_true hbetween
      rw [List.map_cons, List.map_cons, hkey]
    next => rw [List.map_cons, List.map_cons, ih]

/-- The record of a pair is replaced in its place. -/
theorem mirrors_befriended (s : Inner) (f : Friendship)
    (hany : s.friends.any (fun g => g.isBetween f.requester f.addressee) = true) :
    s.Mirrors ({ s with friends := replaceFriendship f s.friends }.record .upsert (.friendship f))
      [⟨s.nextOutbox + 1, .upsert, .friendship f⟩] where
  outbox := rfl
  cell := by
    intro k
    have hput := (mirrors_put s (.friendship f)).cell k
    cases k with
    | friendship pair =>
      have hcell := findKey_replaceFriendship f s.friends pair
      have hsame : (Row.friendship f).key = .friendship pair ↔ f.key = pair := by
        simp [Row.key]
      change (findKey Friendship.key (replaceFriendship f s.friends) pair).map Row.friendship =
        ((Row.friendship f).putOn (.friendship pair)).run
          ((findKey Friendship.key s.friends pair).map Row.friendship)
      rw [hcell, hany, Row.putOn]
      by_cases hk : f.key = pair
      · rw [if_pos ⟨hk, rfl⟩, if_pos (hsame.2 hk)]
        rfl
      · rw [if_neg (fun h => hk h.1), if_neg (fun h => hk (hsame.1 h))]
        rfl
    | _ => exact hput
  node := rfl
  recorded := by
    intro r hr
    rw [List.mem_singleton.1 hr]
    exact .inl rfl

/-- A message of a new id is appended, whatever is stored under that id. -/
theorem mirrors_insertDm (s : Inner) (m : DmMessage) :
    s.Mirrors (s.insertDm m) [⟨s.nextOutbox + 1, .upsert, .dm m⟩] where
  outbox := rfl
  cell := by
    intro k
    have hput := (mirrors_put s (.dm m)).cell k
    rw [put_dm] at hput
    cases k with
    | dm id =>
      have happend : findKey DmMessage.id (s.dms ++ [m]) id =
          (findKey DmMessage.id s.dms id).or (if m.id = id then some m else none) :=
        findKey_append_singleton s.dms m id
      have hsame : (Row.dm m).key = .dm id ↔ m.id = id := by simp [Row.key]
      change (findKey DmMessage.id (s.dms ++ [m]) id).map Row.dm =
        ((Row.dm m).putOn (.dm id)).run ((findKey DmMessage.id s.dms id).map Row.dm)
      rw [happend, Row.putOn]
      by_cases hid : m.id = id
      · rw [if_pos hid, if_pos (hsame.2 hid)]
        cases findKey DmMessage.id s.dms id <;> rfl
      · rw [if_neg hid, if_neg (fun h => hid (hsame.1 h)), Option.or_none]
        rfl
    | _ => exact hput
  node := rfl
  recorded := by
    intro r hr
    rw [List.mem_singleton.1 hr]
    exact .inl rfl

theorem Changes.mirrors (h : s.Changes t) : ∃ records, s.Mirrors t records := by
  cases h with
  | kept h => exact ⟨_, h.mirrors⟩
  | put row _ => exact ⟨_, mirrors_put s row⟩
  | removed row h => exact ⟨_, mirrors_drop s h⟩
  | unreacted r => exact ⟨_, mirrors_unreacted s r⟩
  | befriended f h => exact ⟨_, mirrors_befriended s f h⟩
  | sent m _ =>
    have hmint : s.Keeps s.nextDmId.2 :=
      ⟨rfl, rfl, rfl, rfl, rfl, Nat.le_succ _, fun h => { h with }⟩
    exact ⟨_, hmint.mirrors.trans (mirrors_insertDm _ m)⟩

/-! ## Keys stay apart -/

/-- No two rows share a key, and the ids of messages were minted here. -/
structure Minted (s : Inner) : Prop where
  distinct : s.Distinct
  dmIds : ∀ m ∈ s.dms, m.id.node = s.node ∧ m.id.sequence ≤ s.nextDm

theorem Distinct.record (h : s.Distinct) (op : ChangeOp) (row : Row) : (s.record op row).Distinct :=
  { h with }

theorem Minted.put (h : s.Minted) {row : Row} (hrow : ∀ m, row ≠ .dm m) :
    ((s.record .upsert row).put row).Minted where
  distinct := (h.distinct.record .upsert row).put row
  dmIds := by
    have hdms : ((s.record .upsert row).put row).dms = s.dms := by
      cases row with
      | dm m => exact absurd rfl (hrow m)
      | reaction r => rw [put_reaction]; rfl
      | roleAssignment a => rw [put_roleAssignment]; rfl
      | block b => rw [put_block]; rfl
      | _ => rfl
    have hrest := withoutRows_put (s.record .upsert row) row
    have hnode : ((s.record .upsert row).put row).node = s.node :=
      (node_of_withoutRows hrest).trans rfl
    have hnext : ((s.record .upsert row).put row).withoutRows.nextDm = s.nextDm := by
      rw [hrest]
      rfl
    intro m hm
    rw [hdms] at hm
    rw [hnode]
    exact ⟨(h.dmIds m hm).1, hnext ▸ (h.dmIds m hm).2⟩

theorem Minted.changes (h : s.Minted) (hchanges : s.Changes t) : t.Minted := by
  cases hchanges with
  | kept hkept =>
    refine ⟨hkept.distinct h.distinct, fun m hm => ?_⟩
    rw [hkept.dms] at hm
    rw [hkept.node]
    exact ⟨(h.dmIds m hm).1, (h.dmIds m hm).2.trans hkept.nextDm⟩
  | put row hrow => exact h.put hrow
  | removed row hremoved =>
    refine ⟨(h.distinct.record .delete row).drop row, ?_⟩
    cases row <;> exact h.dmIds
  | unreacted r =>
    exact ⟨{ h.distinct with reactions := nodup_filter h.distinct.reactions _ }, h.dmIds⟩
  | befriended f hany =>
    refine ⟨{ h.distinct with friends := ?_ }, h.dmIds⟩
    change ((replaceFriendship f s.friends).map Friendship.key).Nodup
    rw [map_key_replaceFriendship]
    exact h.distinct.friends
  | sent m hm =>
    have hnew : m.id ∉ s.dms.map DmMessage.id := by
      intro hmem
      obtain ⟨m', hm', hid⟩ := List.mem_map.1 hmem
      have hold := (h.dmIds m' hm').2
      rw [hid, hm] at hold
      exact absurd hold (Nat.not_succ_le_self _)
    refine ⟨{ h.distinct with dms := ?_ }, fun m' hm' => ?_⟩
    · change ((s.dms ++ [m]).map DmMessage.id).Nodup
      rw [List.map_append, List.nodup_append]
      refine ⟨h.distinct.dms, List.nodup_singleton _, fun id hid id' hid' heq => hnew ?_⟩
      rw [List.mem_singleton.1 hid'] at heq
      exact heq ▸ hid
    · rcases List.mem_append.1 hm' with hm' | hm'
      · exact ⟨(h.dmIds m' hm').1, (h.dmIds m' hm').2.trans (Nat.le_succ _)⟩
      · rw [List.mem_singleton.1 hm', hm]
        exact ⟨rfl, le_refl _⟩

/-! ## Runs -/

theorem minted_empty (node : NodeId) : (empty node).Minted :=
  ⟨distinct_empty node, fun _ hm => (nomatch hm)⟩

/-- After any run the store is what the appended records make of the one before. -/
theorem mirrors_runAll (h : s.Minted) (ms : List Mutation) :
    (Mutation.runAll s ms).Minted ∧ ∃ records, s.Mirrors (Mutation.runAll s ms) records := by
  induction ms generalizing s with
  | nil => exact ⟨h, _, .refl s⟩
  | cons m ms ih =>
    have hchanges := changes_run s m
    obtain ⟨records, hrecords⟩ := hchanges.mirrors
    obtain ⟨hminted, later, hlater⟩ := ih (h.changes hchanges)
    exact ⟨hminted, _, hrecords.trans hlater⟩

end Inner

end Democrachat
