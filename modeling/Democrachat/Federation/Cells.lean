import Democrachat.Library.Cell
import Democrachat.Federation.Replica
import Mathlib.Data.Sym.Sym2

/-!
# The store as cells

Every row is stored under a key, so a store is a map from keys to rows; what an
upserted or a deleted row does to the store it does to each cell by itself.
-/

namespace Democrachat

open Library

/-! ## Keys -/

/-- What a row is stored under. -/
inductive RowKey where
  | user (id : UserId)
  | server (id : ServerId)
  | invite (codeHash : String)
  | membership (key : UserId ×ₗ ServerId)
  | channel (id : ChannelId)
  | message (id : MessageId)
  | reaction (message : MessageId) (user : UserId) (emoji : String)
  | proposal (id : ProposalId)
  | vote (proposal : ProposalId) (voter : UserId)
  | rule (id : RuleId)
  | role (id : RoleId)
  | roleAssignment (role : RoleId) (user : UserId)
  | emoji (id : EmojiId)
  | emojiVote (emoji : EmojiId) (voter : UserId)
  | dm (id : DmId)
  | block (blocker blocked : UserId)
  | friendship (pair : Sym2 UserId)
  | userKeys (user : UserId)
  | channelGrant (key : ChannelId ×ₗ (Nat ×ₗ UserId))
deriving DecidableEq

def Reaction.key (r : Reaction) : MessageId × UserId × String := (r.messageId, r.user, r.emoji)

def Vote.key (v : Vote) : ProposalId × UserId := (v.proposalId, v.voter)

def RoleAssignment.key (a : RoleAssignment) : RoleId × UserId := (a.roleId, a.user)

def EmojiVote.key (v : EmojiVote) : EmojiId × UserId := (v.emojiId, v.voter)

def Block.key (b : Block) : UserId × UserId := (b.blocker, b.blocked)

/-- The two users, in either order. -/
def Friendship.key (f : Friendship) : Sym2 UserId := s(f.requester, f.addressee)

theorem Reaction.same_eq (x r : Reaction) :
    (x.messageId == r.messageId && x.user == r.user && x.emoji == r.emoji) =
      decide (x.key = r.key) := by
  rw [Bool.eq_iff_iff, decide_eq_true_eq]
  simp [key, and_assoc]

theorem Vote.same_eq (x v : Vote) :
    (x.proposalId == v.proposalId && x.voter == v.voter) = decide (x.key = v.key) := by
  rw [Bool.eq_iff_iff, decide_eq_true_eq]
  simp [key]

theorem RoleAssignment.same_eq (x a : RoleAssignment) :
    (x.roleId == a.roleId && x.user == a.user) = decide (x.key = a.key) := by
  rw [Bool.eq_iff_iff, decide_eq_true_eq]
  simp [key]

theorem EmojiVote.same_eq (x v : EmojiVote) :
    (x.emojiId == v.emojiId && x.voter == v.voter) = decide (x.key = v.key) := by
  rw [Bool.eq_iff_iff, decide_eq_true_eq]
  simp [key]

theorem Block.same_eq (x b : Block) :
    (x.blocker == b.blocker && x.blocked == b.blocked) = decide (x.key = b.key) := by
  rw [Bool.eq_iff_iff, decide_eq_true_eq]
  simp [key]

theorem Friendship.isBetween_eq (f : Friendship) (a b : UserId) :
    f.isBetween a b = decide (f.key = s(a, b)) := by
  rw [Bool.eq_iff_iff, decide_eq_true_eq, key, Sym2.eq_iff]
  simp [isBetween]

def Row.key : Row → RowKey
  | user u => .user u.id
  | server g => .server g.id
  | invite i => .invite i.codeHash
  | membership m => .membership m.key
  | channel c => .channel c.id
  | message m => .message m.id
  | reaction r => .reaction r.messageId r.user r.emoji
  | proposal p => .proposal p.id
  | vote v => .vote v.proposalId v.voter
  | rule r => .rule r.id
  | role r => .role r.id
  | roleAssignment a => .roleAssignment a.roleId a.user
  | emoji e => .emoji e.id
  | emojiVote v => .emojiVote v.emojiId v.voter
  | dm m => .dm m.id
  | block b => .block b.blocker b.blocked
  | friendship f => .friendship f.key
  | userKeys k => .userKeys k.userId
  | channelGrant g => .channelGrant g.key

namespace Inner

/-- The row under a key. -/
def cell (s : Inner) : RowKey → Option Row
  | .user id => (s.users.get id).map .user
  | .server id => (s.servers.get id).map .server
  | .invite codeHash => (s.invites.get codeHash).map .invite
  | .membership key => (s.memberships.get key).map .membership
  | .channel id => (s.channels.get id).map .channel
  | .message id => (s.messages.get id).map .message
  | .reaction message user emoji =>
    (findKey Reaction.key s.reactions (message, user, emoji)).map .reaction
  | .proposal id => (s.proposals.get id).map .proposal
  | .vote proposal voter => (findKey Vote.key s.votes (proposal, voter)).map .vote
  | .rule id => (s.rules.get id).map .rule
  | .role id => (s.roles.get id).map .role
  | .roleAssignment role user =>
    (findKey RoleAssignment.key s.roleAssignments (role, user)).map .roleAssignment
  | .emoji id => (s.emojis.get id).map .emoji
  | .emojiVote emoji voter => (findKey EmojiVote.key s.emojiVotes (emoji, voter)).map .emojiVote
  | .dm id => (findKey DmMessage.id s.dms id).map .dm
  | .block blocker blocked => (findKey Block.key s.blocks (blocker, blocked)).map .block
  | .friendship pair => (findKey Friendship.key s.friends pair).map .friendship
  | .userKeys user => (s.userKeys.get user).map .userKeys
  | .channelGrant key => (s.channelGrants.get key).map .channelGrant

end Inner

/-! ## What a row does to the cells -/

/-- An upserted row of these tables does not replace what is there. -/
def Row.fills : Row → Bool
  | reaction _ | roleAssignment _ | dm _ | block _ => true
  | _ => false

def Row.putOn (row : Row) (k : RowKey) : CellOp Row :=
  if row.key = k then (if row.fills then .fill row else .write (some row)) else .keep

/-- The deletion of a row empties its cell; with a channel go its messages and with a role
its assignments. -/
def Row.dropOn (row : Row) (k : RowKey) : CellOp Row :=
  match row, k with
  | channel c, .message _ =>
    .sift (fun
      | .message m => m.channelId != c.id
      | _ => true)
  | role r, .roleAssignment roleId _ => if roleId = r.id then .write none else .keep
  | user _, k | server _, k | membership _, k | channel _, k | message _, k | proposal _, k
  | rule _, k | role _, k | roleAssignment _, k => if row.key = k then .write none else .keep
  | _, _ => .keep

section

variable {ν κ : Type} {key : ν → κ} {c : Prop} [Decidable c]

theorem run_insert [LinearOrder κ] (t : Table key) (v : ν) (k : κ) (f : ν → Row)
    (hc : c ↔ key v = k) :
    ((t.insert v).get k).map f =
      (if c then CellOp.write (some (f v)) else .keep).run ((t.get k).map f) := by
  rw [Table.get_insert]
  by_cases h : key v = k
  · rw [if_pos (hc.2 h), if_pos h.symm]
    rfl
  · rw [if_neg (fun h' => h (hc.1 h')), if_neg (Ne.symm h)]
    rfl

theorem run_erase [LinearOrder κ] (t : Table key) (k' k : κ) (f : ν → Row) (hc : c ↔ k' = k) :
    ((t.erase k').get k).map f =
      (if c then CellOp.write none else .keep).run ((t.get k).map f) := by
  rw [Table.get_erase]
  by_cases h : k' = k
  · rw [if_pos (hc.2 h), if_pos h.symm]
    rfl
  · rw [if_neg (fun h' => h (hc.1 h')), if_neg (Ne.symm h)]
    rfl

variable [DecidableEq κ]

theorem run_replace (l : List ν) (v : ν) (k : κ) (f : ν → Row) {p : ν → Bool}
    (hp : ∀ u, p u = decide (key u ≠ key v)) (hc : c ↔ key v = k) :
    (findKey key (l.filter p ++ [v]) k).map f =
      (if c then CellOp.write (some (f v)) else .keep).run ((findKey key l k).map f) := by
  obtain rfl : p = fun u => decide (key u ≠ key v) := funext hp
  rw [findKey_replace]
  by_cases h : key v = k
  · rw [if_pos (hc.2 h), if_pos h]
    rfl
  · rw [if_neg (fun h' => h (hc.1 h')), if_neg h]
    rfl

theorem run_fill (l : List ν) (v : ν) (k : κ) (f : ν → Row) {p : ν → Bool}
    (hp : ∀ u, p u = decide (key u = key v)) (hc : c ↔ key v = k) :
    (findKey key (if l.any p then l else l ++ [v]) k).map f =
      (if c then CellOp.fill (f v) else .keep).run ((findKey key l k).map f) := by
  obtain rfl : p = fun u => decide (key u = key v) := funext hp
  have hsome : (findKey key l (key v)).isSome = l.any (fun u => decide (key u = key v)) := by
    rw [findKey, List.isSome_find?]
  by_cases h : key v = k
  · subst h
    rw [if_pos (hc.2 rfl)]
    cases hfind : findKey key l (key v) with
    | some u =>
      have hany : l.any (fun u => decide (key u = key v)) = true := by
        rw [← hsome, hfind]
        rfl
      rw [if_pos hany, hfind]
      rfl
    | none =>
      have hany : l.any (fun u => decide (key u = key v)) = false := by
        rw [← hsome, hfind]
        rfl
      rw [hany, if_neg Bool.false_ne_true, findKey_append_singleton, hfind, if_pos rfl]
      rfl
  · rw [if_neg (fun h' => h (hc.1 h'))]
    split
    next => rfl
    next =>
      rw [findKey_append_singleton, if_neg h, Option.or_none]
      rfl

/-- Rows are left out by their keys. -/
theorem run_filter (l : List ν) (q : κ → Bool) (k : κ) (f : ν → Row) {p : ν → Bool}
    (hp : ∀ u, p u = q (key u)) (hc : c ↔ q k = false) :
    (findKey key (l.filter p) k).map f =
      (if c then CellOp.write none else .keep).run ((findKey key l k).map f) := by
  obtain rfl : p = fun u => q (key u) := funext hp
  rw [findKey_filter]
  by_cases h : q k = true
  · have hnot : ¬ c := fun h' => by
      rw [hc.1 h'] at h
      cases h
    rw [if_pos h, if_neg hnot]
    rfl
  · rw [if_neg h, if_pos (hc.2 (Bool.eq_false_iff.2 h))]
    rfl

end

namespace Inner

/-- A list that a row is added to unless its key is taken. -/
theorem put_reaction (s : Inner) (r : Reaction) :
    s.put (.reaction r) =
      { s with
        reactions := if s.reactions.any (fun x => x.messageId == r.messageId && x.user == r.user &&
          x.emoji == r.emoji) then s.reactions else s.reactions ++ [r] } := by
  rw [put]
  split
  next => rfl
  next => rfl

theorem put_roleAssignment (s : Inner) (a : RoleAssignment) :
    s.put (.roleAssignment a) =
      { s with
        roleAssignments :=
          if s.roleAssignments.any (fun x => x.roleId == a.roleId && x.user == a.user) then
            s.roleAssignments
          else s.roleAssignments ++ [a] } := by
  rw [put]
  split
  next => rfl
  next => rfl

theorem put_dm (s : Inner) (m : DmMessage) :
    s.put (.dm m) =
      { s with dms := if s.dms.any (fun x => x.id == m.id) then s.dms else s.dms ++ [m] } := by
  rw [put]
  split
  next => rfl
  next => rfl

theorem put_block (s : Inner) (b : Block) :
    s.put (.block b) =
      { s with
        blocks :=
          if s.blocks.any (fun x => x.blocker == b.blocker && x.blocked == b.blocked) then s.blocks
          else s.blocks ++ [b] } := by
  rw [put]
  split
  next => rfl
  next => rfl

theorem cell_put (s : Inner) (row : Row) (k : RowKey) :
    (s.put row).cell k = (row.putOn k).run (s.cell k) := by
  have hother : row.key ≠ k → (s.put row).cell k = s.cell k →
      (s.put row).cell k = (row.putOn k).run (s.cell k) := by
    intro hne hcell
    rw [Row.putOn, if_neg hne, hcell, CellOp.run]
  cases row with
  | user u =>
    cases k with
    | user id => exact run_insert s.users u id .user (by simp [Row.key])
    | _ => exact hother (by rintro ⟨⟩) rfl
  | server g =>
    cases k with
    | server id => exact run_insert s.servers g id .server (by simp [Row.key])
    | _ => exact hother (by rintro ⟨⟩) rfl
  | invite i =>
    cases k with
    | invite codeHash => exact run_insert s.invites i codeHash .invite (by simp [Row.key])
    | _ => exact hother (by rintro ⟨⟩) rfl
  | membership m =>
    cases k with
    | membership key => exact run_insert s.memberships m key .membership (by simp [Row.key])
    | _ => exact hother (by rintro ⟨⟩) rfl
  | channel c =>
    cases k with
    | channel id => exact run_insert s.channels c id .channel (by simp [Row.key])
    | _ => exact hother (by rintro ⟨⟩) rfl
  | message m =>
    cases k with
    | message id => exact run_insert s.messages m id .message (by simp [Row.key])
    | _ => exact hother (by rintro ⟨⟩) rfl
  | reaction r =>
    rw [put_reaction] at hother ⊢
    cases k with
    | reaction message user emoji =>
      exact run_fill s.reactions r (message, user, emoji) .reaction (fun x => x.same_eq r)
        (by simp [Row.key, Reaction.key])
    | _ => exact hother (by rintro ⟨⟩) rfl
  | proposal p =>
    cases k with
    | proposal id => exact run_insert s.proposals p id .proposal (by simp [Row.key])
    | _ => exact hother (by rintro ⟨⟩) rfl
  | vote v =>
    cases k with
    | vote proposal voter =>
      exact run_replace s.votes v (proposal, voter) .vote
        (fun x => by rw [x.same_eq v, decide_not]) (by simp [Row.key, Vote.key])
    | _ => exact hother (by rintro ⟨⟩) rfl
  | rule r =>
    cases k with
    | rule id => exact run_insert s.rules r id .rule (by simp [Row.key])
    | _ => exact hother (by rintro ⟨⟩) rfl
  | role r =>
    cases k with
    | role id => exact run_insert s.roles r id .role (by simp [Row.key])
    | _ => exact hother (by rintro ⟨⟩) rfl
  | roleAssignment a =>
    rw [put_roleAssignment] at hother ⊢
    cases k with
    | roleAssignment role user =>
      exact run_fill s.roleAssignments a (role, user) .roleAssignment (fun x => x.same_eq a)
        (by simp [Row.key, RoleAssignment.key])
    | _ => exact hother (by rintro ⟨⟩) rfl
  | emoji e =>
    cases k with
    | emoji id => exact run_insert s.emojis e id .emoji (by simp [Row.key])
    | _ => exact hother (by rintro ⟨⟩) rfl
  | emojiVote v =>
    cases k with
    | emojiVote emoji voter =>
      exact run_replace s.emojiVotes v (emoji, voter) .emojiVote
        (fun x => by rw [x.same_eq v, decide_not]) (by simp [Row.key, EmojiVote.key])
    | _ => exact hother (by rintro ⟨⟩) rfl
  | dm m =>
    rw [put_dm] at hother ⊢
    cases k with
    | dm id => exact run_fill s.dms m id .dm (fun x => rfl) (by simp [Row.key])
    | _ => exact hother (by rintro ⟨⟩) rfl
  | block b =>
    rw [put_block] at hother ⊢
    cases k with
    | block blocker blocked =>
      exact run_fill s.blocks b (blocker, blocked) .block (fun x => x.same_eq b)
        (by simp [Row.key, Block.key])
    | _ => exact hother (by rintro ⟨⟩) rfl
  | friendship f =>
    cases k with
    | friendship pair =>
      exact run_replace s.friends f pair .friendship
        (fun x => by rw [x.isBetween_eq, decide_not]; rfl) (by simp [Row.key])
    | _ => exact hother (by rintro ⟨⟩) rfl
  | userKeys k' =>
    cases k with
    | userKeys user => exact run_insert s.userKeys k' user .userKeys (by simp [Row.key])
    | _ => exact hother (by rintro ⟨⟩) rfl
  | channelGrant g =>
    cases k with
    | channelGrant key => exact run_insert s.channelGrants g key .channelGrant (by simp [Row.key])
    | _ => exact hother (by rintro ⟨⟩) rfl

theorem cell_drop (s : Inner) (row : Row) (k : RowKey) :
    (s.drop row).cell k = (row.dropOn k).run (s.cell k) := by
  cases row with
  | user u =>
    cases k with
    | user id => exact run_erase s.users u.id id .user (by simp [Row.key])
    | _ => rfl
  | server g =>
    cases k with
    | server id => exact run_erase s.servers g.id id .server (by simp [Row.key])
    | _ => rfl
  | membership m =>
    cases k with
    | membership key => exact run_erase s.memberships m.key key .membership (by simp [Row.key])
    | _ => rfl
  | channel c =>
    cases k with
    | channel id => exact run_erase s.channels c.id id .channel (by simp [Row.key])
    | message id =>
      have hretain := Table.get_retain s.messages (fun m => m.channelId != c.id) id
      change ((s.messages.retain (fun m => m.channelId != c.id)).get id).map Row.message =
        ((s.messages.get id).map Row.message).filter _
      rw [hretain]
      cases hget : s.messages.get id with
      | none => rfl
      | some m => cases hchannel : m.channelId != c.id <;> simp [Option.filter, hchannel]
    | _ => rfl
  | message m =>
    cases k with
    | message id => exact run_erase s.messages m.id id .message (by simp [Row.key])
    | _ => rfl
  | proposal p =>
    cases k with
    | proposal id => exact run_erase s.proposals p.id id .proposal (by simp [Row.key])
    | _ => rfl
  | rule r =>
    cases k with
    | rule id => exact run_erase s.rules r.id id .rule (by simp [Row.key])
    | _ => rfl
  | role r =>
    cases k with
    | role id => exact run_erase s.roles r.id id .role (by simp [Row.key])
    | roleAssignment role user =>
      exact run_filter s.roleAssignments (fun k => k.1 != r.id) (role, user) .roleAssignment
        (fun a => rfl) (by simp)
    | _ => rfl
  | roleAssignment a =>
    cases k with
    | roleAssignment role user =>
      have hsame : (Row.roleAssignment a).key = .roleAssignment role user ↔
          (!decide ((role, user) = a.key)) = false := by
        rw [Bool.not_eq_false', decide_eq_true_eq, RoleAssignment.key, Prod.mk.injEq, Row.key,
          RowKey.roleAssignment.injEq]
        exact and_congr eq_comm eq_comm
      exact run_filter s.roleAssignments (fun k => !decide (k = a.key)) (role, user) .roleAssignment
        (fun x => by rw [x.same_eq a]) hsame
    | _ => rfl
  | _ => cases k <;> rfl

/-- Reactions are left out by their keys. -/
theorem cell_filter_reactions (s : Inner) {p : Reaction → Bool} (k : RowKey) :
    { s with reactions := s.reactions.filter p }.cell k =
      (match k with
        | .reaction message user emoji =>
          if p ⟨message, user, emoji⟩ then .keep else .write none
        | _ => .keep : CellOp Row).run (s.cell k) := by
  cases k with
  | reaction message user emoji =>
    have hfilter : (findKey Reaction.key (s.reactions.filter p) (message, user, emoji)).map
          Row.reaction =
        (if p ⟨message, user, emoji⟩ = false then CellOp.write none else .keep).run
          ((findKey Reaction.key s.reactions (message, user, emoji)).map Row.reaction) :=
      run_filter s.reactions (fun k => p ⟨k.1, k.2.1, k.2.2⟩) _ .reaction (fun r => rfl) Iff.rfl
    refine hfilter.trans ?_
    dsimp only
    cases p ⟨message, user, emoji⟩ <;> rfl
  | _ => rfl

/-! ## What is no row -/

/-- The store without its replicated rows: its counters, its outbox and cursors, and what
is this node's alone. -/
def withoutRows (s : Inner) : Inner :=
  { s with
    users := .empty
    servers := .empty
    memberships := .empty
    channels := .empty
    messages := .empty
    reactions := []
    proposals := .empty
    votes := []
    rules := .empty
    roles := .empty
    roleAssignments := []
    emojis := .empty
    emojiVotes := []
    dms := []
    blocks := []
    friends := []
    userKeys := .empty
    channelGrants := .empty
    invites := .empty }

theorem outbox_of_withoutRows {s t : Inner} (h : s.withoutRows = t.withoutRows) :
    s.outbox = t.outbox := by
  have houtbox : s.withoutRows.outbox = t.withoutRows.outbox := by rw [h]
  exact houtbox

theorem node_of_withoutRows {s t : Inner} (h : s.withoutRows = t.withoutRows) :
    s.node = t.node := by
  have hnode : s.withoutRows.node = t.withoutRows.node := by rw [h]
  exact hnode

@[simp] theorem withoutRows_put (s : Inner) (row : Row) :
    (s.put row).withoutRows = s.withoutRows := by
  cases row with
  | reaction r => rw [put_reaction]; rfl
  | roleAssignment a => rw [put_roleAssignment]; rfl
  | dm m => rw [put_dm]; rfl
  | block b => rw [put_block]; rfl
  | _ => rfl

@[simp] theorem withoutRows_drop (s : Inner) (row : Row) :
    (s.drop row).withoutRows = s.withoutRows := by
  cases row <;> rfl

/-! ## Stores with the same rows -/

/-- No two rows of a list are stored under one key. -/
structure Distinct (s : Inner) : Prop where
  reactions : (s.reactions.map Reaction.key).Nodup
  votes : (s.votes.map Vote.key).Nodup
  roleAssignments : (s.roleAssignments.map RoleAssignment.key).Nodup
  emojiVotes : (s.emojiVotes.map EmojiVote.key).Nodup
  dms : (s.dms.map DmMessage.id).Nodup
  blocks : (s.blocks.map Block.key).Nodup
  friends : (s.friends.map Friendship.key).Nodup

theorem distinct_empty (node : NodeId) : (empty node).Distinct := by
  constructor <;> exact List.nodup_nil

theorem Distinct.put {s : Inner} (h : s.Distinct) (row : Row) : (s.put row).Distinct := by
  cases row with
  | reaction r =>
    rw [put_reaction]
    exact { h with reactions := nodup_fill h.reactions r (fun x => x.same_eq r) }
  | vote v =>
    exact { h with
      votes := nodup_replace h.votes v (fun x => by rw [x.same_eq v, decide_not]) }
  | roleAssignment a =>
    rw [put_roleAssignment]
    exact { h with roleAssignments := nodup_fill h.roleAssignments a (fun x => x.same_eq a) }
  | emojiVote v =>
    exact { h with
      emojiVotes := nodup_replace h.emojiVotes v (fun x => by rw [x.same_eq v, decide_not]) }
  | dm m =>
    rw [put_dm]
    exact { h with dms := nodup_fill h.dms m (fun x => rfl) }
  | block b =>
    rw [put_block]
    exact { h with blocks := nodup_fill h.blocks b (fun x => x.same_eq b) }
  | friendship f =>
    exact { h with
      friends := nodup_replace h.friends f (fun x => by rw [x.isBetween_eq, decide_not]; rfl) }
  | _ => exact ⟨h.reactions, h.votes, h.roleAssignments, h.emojiVotes, h.dms, h.blocks, h.friends⟩

theorem Distinct.drop {s : Inner} (h : s.Distinct) (row : Row) : (s.drop row).Distinct := by
  cases row with
  | role r => exact { h with roleAssignments := nodup_filter h.roleAssignments _ }
  | roleAssignment a => exact { h with roleAssignments := nodup_filter h.roleAssignments _ }
  | _ => exact ⟨h.reactions, h.votes, h.roleAssignments, h.emojiVotes, h.dms, h.blocks, h.friends⟩

/-- The keyed tables are equal, and the lists hold the same rows in some order. -/
structure SameRows (s t : Inner) : Prop where
  users : s.users = t.users
  servers : s.servers = t.servers
  memberships : s.memberships = t.memberships
  channels : s.channels = t.channels
  messages : s.messages = t.messages
  reactions : s.reactions.Perm t.reactions
  proposals : s.proposals = t.proposals
  votes : s.votes.Perm t.votes
  rules : s.rules = t.rules
  roles : s.roles = t.roles
  roleAssignments : s.roleAssignments.Perm t.roleAssignments
  emojis : s.emojis = t.emojis
  emojiVotes : s.emojiVotes.Perm t.emojiVotes
  dms : s.dms.Perm t.dms
  blocks : s.blocks.Perm t.blocks
  friends : s.friends.Perm t.friends
  userKeys : s.userKeys = t.userKeys
  channelGrants : s.channelGrants = t.channelGrants
  invites : s.invites = t.invites

/-- Stores with equal cells hold the same rows. -/
theorem sameRows_of_cell {s t : Inner} (hs : s.Distinct) (ht : t.Distinct)
    (h : ∀ k, s.cell k = t.cell k) : s.SameRows t := by
  have hcell : ∀ {ν : Type} {f : ν → Row} (x y : Option ν), Function.Injective f →
      x.map f = y.map f → x = y :=
    fun x y hf hxy => Option.map_injective hf hxy
  exact {
    users := Table.ext_get (fun k => hcell _ _ (fun _ _ => Row.user.inj) (h (.user k)))
    servers := Table.ext_get (fun k => hcell _ _ (fun _ _ => Row.server.inj) (h (.server k)))
    memberships :=
      Table.ext_get (fun k => hcell _ _ (fun _ _ => Row.membership.inj) (h (.membership k)))
    channels := Table.ext_get (fun k => hcell _ _ (fun _ _ => Row.channel.inj) (h (.channel k)))
    messages := Table.ext_get (fun k => hcell _ _ (fun _ _ => Row.message.inj) (h (.message k)))
    reactions := perm_of_findKey hs.reactions ht.reactions
      (fun k => hcell _ _ (fun _ _ => Row.reaction.inj) (h (.reaction k.1 k.2.1 k.2.2)))
    proposals := Table.ext_get (fun k => hcell _ _ (fun _ _ => Row.proposal.inj) (h (.proposal k)))
    votes := perm_of_findKey hs.votes ht.votes
      (fun k => hcell _ _ (fun _ _ => Row.vote.inj) (h (.vote k.1 k.2)))
    rules := Table.ext_get (fun k => hcell _ _ (fun _ _ => Row.rule.inj) (h (.rule k)))
    roles := Table.ext_get (fun k => hcell _ _ (fun _ _ => Row.role.inj) (h (.role k)))
    roleAssignments := perm_of_findKey hs.roleAssignments ht.roleAssignments
      (fun k => hcell _ _ (fun _ _ => Row.roleAssignment.inj) (h (.roleAssignment k.1 k.2)))
    emojis := Table.ext_get (fun k => hcell _ _ (fun _ _ => Row.emoji.inj) (h (.emoji k)))
    emojiVotes := perm_of_findKey hs.emojiVotes ht.emojiVotes
      (fun k => hcell _ _ (fun _ _ => Row.emojiVote.inj) (h (.emojiVote k.1 k.2)))
    dms := perm_of_findKey hs.dms ht.dms
      (fun k => hcell _ _ (fun _ _ => Row.dm.inj) (h (.dm k)))
    blocks := perm_of_findKey hs.blocks ht.blocks
      (fun k => hcell _ _ (fun _ _ => Row.block.inj) (h (.block k.1 k.2)))
    friends := perm_of_findKey hs.friends ht.friends
      (fun k => hcell _ _ (fun _ _ => Row.friendship.inj) (h (.friendship k)))
    userKeys := Table.ext_get (fun k => hcell _ _ (fun _ _ => Row.userKeys.inj) (h (.userKeys k)))
    channelGrants :=
      Table.ext_get (fun k => hcell _ _ (fun _ _ => Row.channelGrant.inj) (h (.channelGrant k)))
    invites := Table.ext_get (fun k => hcell _ _ (fun _ _ => Row.invite.inj) (h (.invite k))) }

end Inner

end Democrachat
