import Democrachat.Federation.Mirror
import Democrachat.Store.Snapshot
import Mathlib.Tactic.IntervalCases

/-!
# Restarting a node

What callers can tell of a store that is saved and loaded again: the calls of its
ports, and those of the replication protocol, with their answers.
-/

namespace Democrachat

open Library

/-- What a call returns. -/
inductive Answer where
  | done
  | flag (b : Bool)
  | minted (node : NodeId) (sequence : Nat)
  | account (user : Option UserId)
  | key (key : String)
  | blob (blob : Option Blob)
  | rows (rows : List Row)
  | records (records : List ChangeRecord)
  | seq (seq : Nat)
  | applied (result : Except String Unit)

namespace Mutation

def minted {e : Entity} (id : Id e) : Answer := .minted id.node id.sequence

def mintAnswer (s : Inner) : Entity → Answer
  | .user => minted s.nextUserId.1
  | .server => minted s.nextServerId.1
  | .channel => minted s.nextChannelId.1
  | .message => minted s.nextMessageId.1
  | .proposal => minted s.nextProposalId.1
  | .rule => minted s.nextRuleId.1
  | .role => minted s.nextRoleId.1
  | .emoji => minted s.nextEmojiId.1
  | .dm => minted s.nextDmId.1

def answer (s : Inner) : Mutation → Answer
  | mint e => mintAnswer s e
  | removeChannel id => .flag (s.removeChannel id).1
  | addReaction reaction => .flag (s.addReaction reaction).1
  | removeReaction message user emoji => .flag (s.removeReaction message user emoji).1
  | removeRule id => .flag (s.removeRule id).1
  | removeRole id => .flag (s.removeRole id).1
  | assign assignment => .flag (s.assign assignment).1
  | unassign role user => .flag (s.unassign role user).1
  | sendDm _ _ _ _ _ => minted s.nextDmId.1
  | addBlock block => .flag (s.addBlock block).1
  | addFriendship friendship => .flag (s.addFriendship friendship).1
  | putMedia nanos contentType bytes => .key (s.putMedia nanos contentType bytes).1
  | takeToken tokenHash now => .account (s.takeToken tokenHash now).1
  | rememberNonce node nonce now expiryAt => .flag (s.rememberNonce node nonce now expiryAt).1
  | _ => .done

end Mutation

/-- Every stored row, table after table. -/
def Inner.allRows (s : Inner) : List Row :=
  s.users.rows.map .user ++ s.servers.rows.map .server ++ s.invites.rows.map .invite ++
    s.memberships.rows.map .membership ++ s.channels.rows.map .channel ++
    s.messages.rows.map .message ++ s.reactions.map .reaction ++ s.proposals.rows.map .proposal ++
    s.votes.map .vote ++ s.rules.rows.map .rule ++ s.roles.rows.map .role ++
    s.roleAssignments.map .roleAssignment ++ s.emojis.rows.map .emoji ++
    s.emojiVotes.map .emojiVote ++ s.dms.map .dm ++ s.blocks.map .block ++
    s.friends.map .friendship ++ s.userKeys.rows.map .userKeys ++
    s.channelGrants.rows.map .channelGrant

/-- A call on the store; a reading port answers from the rows that it selects. -/
inductive StoreCall where
  | write (m : Mutation)
  | read (selects : Row → Bool)
  | getMedia (key : String)
  | changesSince (afterSeq limit : Nat)
  | replicationCursor (peer : NodeId)
  | advanceCursor (peer : NodeId) (seq : Nat)
  | applyIncoming (part : Federation.SignedPart)

namespace StoreCall

def call (wire : Federation.Wire) (s : Inner) : StoreCall → Answer × Inner
  | write m => (m.answer s, m.run s)
  | read selects => (.rows (s.allRows.filter selects), s)
  | getMedia key => (.blob (s.getMedia key), s)
  | changesSince afterSeq limit =>
    (.records ((s.outbox.filter (fun r => r.seq > afterSeq)).take limit), s)
  | replicationCursor peer => (.seq (s.replicationCursor peer), s)
  | advanceCursor peer seq => (.done, s.advanceCursor peer seq)
  | applyIncoming part =>
    match Federation.applyIncoming wire part s with
    | (result, s) => (.applied result, s)

/-- The answers of calls made one after another. -/
def answers (wire : Federation.Wire) (s : Inner) : List StoreCall → List Answer
  | [] => []
  | c :: cs => (c.call wire s).1 :: answers wire (c.call wire s).2 cs

/-- The calls of the media port, which the binary has answered by files. -/
def IsMedia : StoreCall → Prop
  | write (.putMedia _ _ _) | write (.deleteMedia _) | getMedia _ => True
  | _ => False

/-- No calls of this kind tell the two stores apart. -/
def Indistinguishable (wire : Federation.Wire) (kind : StoreCall → Prop) (s t : Inner) : Prop :=
  ∀ calls, (∀ c ∈ calls, kind c) → answers wire s calls = answers wire t calls

end StoreCall

/-- The stores of a node that runs and restarts. -/
inductive Reachable (text : SnapshotText) (wire : Federation.Wire) (node : NodeId) : Inner → Prop
  | new : Reachable text wire node (.empty node)
  | call {s : Inner} (h : Reachable text wire node s) (c : StoreCall) :
    Reachable text wire node (c.call wire s).2
  | restart {s t : Inner} (h : Reachable text wire node s) (ht : text.restart node s = .ok t) :
    Reachable text wire node t

/-! ## Media apart -/

namespace Inner

variable (s : Inner) (media : Table Blob.key) (mediaSeq : Nat)

def withMedia : Inner := { s with media := media, mediaSeq := mediaSeq }

theorem put_withMedia (row : Row) :
    (s.withMedia media mediaSeq).put row = (s.put row).withMedia media mediaSeq := by
  cases row with
  | reaction r => rw [put_reaction, put_reaction]; rfl
  | roleAssignment a => rw [put_roleAssignment, put_roleAssignment]; rfl
  | dm m => rw [put_dm, put_dm]; rfl
  | block b => rw [put_block, put_block]; rfl
  | _ => rfl

theorem drop_withMedia (row : Row) :
    (s.withMedia media mediaSeq).drop row = (s.drop row).withMedia media mediaSeq := by
  cases row <;> rfl

theorem apply_withMedia (c : Federation.Change) :
    c.apply (s.withMedia media mediaSeq) = (c.apply s).withMedia media mediaSeq := by
  cases c with
  | put row => exact s.put_withMedia media mediaSeq row
  | drop row => exact s.drop_withMedia media mediaSeq row
  | unreact p => rfl

theorem run_withMedia {m : Mutation} (hm : ¬ (StoreCall.write m).IsMedia) :
    m.answer (s.withMedia media mediaSeq) = m.answer s ∧
      m.run (s.withMedia media mediaSeq) = (m.run s).withMedia media mediaSeq := by
  cases m with
  | putMedia nanos contentType bytes => exact absurd trivial hm
  | deleteMedia key => exact absurd trivial hm
  | mint e => cases e <;> exact ⟨rfl, rfl⟩
  | removeChannel id =>
    simp only [Mutation.answer, Mutation.run, removeChannel, withMedia]
    cases s.channels.get id <;> exact ⟨rfl, rfl⟩
  | addReaction r =>
    by_cases h : s.reactions.any (fun x => x.messageId == r.messageId && x.user == r.user &&
        x.emoji == r.emoji) = true
    · simp [Mutation.answer, Mutation.run, addReaction, withMedia, h]
    · simp [Mutation.answer, Mutation.run, addReaction, withMedia, record, h]
  | removeReaction message user emoji =>
    by_cases h : ((s.reactions.filter (fun r => !(r.messageId == message && r.user == user &&
        r.emoji == emoji))).length != s.reactions.length) = true
    · have hs : s.removeReaction message user emoji = (true, _) := if_pos h
      have ht : (s.withMedia media mediaSeq).removeReaction message user emoji = (true, _) :=
        if_pos h
      simp only [Mutation.answer, Mutation.run, hs, ht]
      exact ⟨trivial, rfl⟩
    · have hs : s.removeReaction message user emoji = (false, _) := if_neg h
      have ht : (s.withMedia media mediaSeq).removeReaction message user emoji = (false, _) :=
        if_neg h
      simp only [Mutation.answer, Mutation.run, hs, ht]
      exact ⟨trivial, rfl⟩
  | removeRule id =>
    simp only [Mutation.answer, Mutation.run, removeRule, withMedia]
    cases s.rules.get id <;> exact ⟨rfl, rfl⟩
  | removeRole id =>
    simp only [Mutation.answer, Mutation.run, removeRole, withMedia]
    cases s.roles.get id <;> exact ⟨rfl, rfl⟩
  | assign a =>
    by_cases h : s.roleAssignments.any (fun x => x.roleId == a.roleId && x.user == a.user) = true
    · simp [Mutation.answer, Mutation.run, assign, withMedia, h]
    · simp [Mutation.answer, Mutation.run, assign, withMedia, record, h]
  | unassign role user =>
    simp only [Mutation.answer, Mutation.run, unassign, withMedia]
    cases s.roleAssignments.find? (fun a => a.roleId == role && a.user == user) <;> exact ⟨rfl, rfl⟩
  | revokeInvite codeHash =>
    simp only [Mutation.answer, Mutation.run, revokeInvite, withMedia]
    cases s.invites.get codeHash <;> exact ⟨trivial, rfl⟩
  | addBlock b =>
    by_cases h : s.blocks.any (fun x => x.blocker == b.blocker && x.blocked == b.blocked) = true
    · simp [Mutation.answer, Mutation.run, addBlock, withMedia, h]
    · simp [Mutation.answer, Mutation.run, addBlock, withMedia, record, h]
  | addFriendship f =>
    by_cases h : s.friends.any (fun x => x.isBetween f.requester f.addressee) = true
    · simp [Mutation.answer, Mutation.run, addFriendship, withMedia, h]
    · simp [Mutation.answer, Mutation.run, addFriendship, withMedia, record, h]
  | updateFriendship f =>
    by_cases h : s.friends.any (fun x => x.isBetween f.requester f.addressee) = true
    · simp [Mutation.answer, Mutation.run, updateFriendship, withMedia, record, h]
    · simp [Mutation.answer, Mutation.run, updateFriendship, withMedia, h]
  | _ => exact ⟨rfl, rfl⟩

/-- Only the calls of the media port see the media. -/
theorem call_withMedia (wire : Federation.Wire) {c : StoreCall} (hc : ¬ c.IsMedia) :
    c.call wire (s.withMedia media mediaSeq) =
      ((c.call wire s).1, (c.call wire s).2.withMedia media mediaSeq) := by
  cases c with
  | write m =>
    obtain ⟨hanswer, hrun⟩ := s.run_withMedia media mediaSeq hc
    exact Prod.ext hanswer hrun
  | getMedia key => exact absurd trivial hc
  | applyIncoming part =>
    rw [StoreCall.call, StoreCall.call]
    cases hchange : wire.change part with
    | error e =>
      rw [Federation.applyIncoming_of_error hchange, Federation.applyIncoming_of_error hchange]
    | ok c =>
      rw [Federation.applyIncoming_of_change hchange, Federation.applyIncoming_of_change hchange,
        apply_withMedia]
  | _ => rfl

theorem answers_withMedia (wire : Federation.Wire) {calls : List StoreCall}
    (hcalls : ∀ c ∈ calls, ¬ c.IsMedia) :
    StoreCall.answers wire (s.withMedia media mediaSeq) calls = StoreCall.answers wire s calls := by
  induction calls generalizing s with
  | nil => rfl
  | cons c calls ih =>
    rw [StoreCall.answers, StoreCall.answers,
      s.call_withMedia media mediaSeq wire (hcalls c List.mem_cons_self)]
    dsimp only
    rw [ih (c.call wire s).2 (fun c' hc' => hcalls c' (List.mem_cons_of_mem _ hc'))]

/-! ## What every reachable store has -/

/-- Records are numbered from 1, and upload keys too. -/
structure Numbered (node : NodeId) : Prop where
  node : s.node = node
  seq : ∀ r ∈ s.outbox, 0 < r.seq
  nextOutbox : s.outbox = [] → s.nextOutbox = 0
  media : s.mediaSeq = 0 → s.media = .empty

variable {s} {t : Inner} {node : NodeId}

/-- Of the outbox a mutation leaves all as it is, or appends one record. -/
theorem Changes.outbox (h : s.Changes t) :
    (t.outbox = s.outbox ∧ t.nextOutbox = s.nextOutbox) ∨
      ∃ op row, t.outbox = s.outbox ++ [⟨s.nextOutbox + 1, op, row⟩] := by
  cases h with
  | kept h => exact .inl ⟨h.outbox, h.nextOutbox⟩
  | put row _ => exact .inr ⟨.upsert, row, (mirrors_put s row).outbox⟩
  | removed row h => exact .inr ⟨.delete, row, (mirrors_drop s h).outbox⟩
  | unreacted r => exact .inr ⟨.delete, .reaction r, rfl⟩
  | befriended f h => exact .inr ⟨.upsert, .friendship f, rfl⟩
  | sent m _ => exact .inr ⟨.upsert, .dm m, rfl⟩

theorem Numbered.run (h : s.Numbered node) (m : Mutation) : (m.run s).Numbered node where
  node := by
    obtain ⟨records, hmirrors⟩ := (changes_run s m).mirrors
    exact hmirrors.node.trans h.node
  seq := by
    intro r hr
    rcases (changes_run s m).outbox with ⟨houtbox, -⟩ | ⟨op, row, houtbox⟩
    · rw [houtbox] at hr
      exact h.seq r hr
    · rw [houtbox] at hr
      rcases List.mem_append.1 hr with hr | hr
      · exact h.seq r hr
      · rw [List.mem_singleton.1 hr]
        exact Nat.succ_pos _
  nextOutbox := by
    intro hnil
    rcases (changes_run s m).outbox with ⟨houtbox, hnext⟩ | ⟨op, row, houtbox⟩
    · rw [hnext]
      exact h.nextOutbox (houtbox.symm.trans hnil)
    · rw [houtbox] at hnil
      exact absurd hnil (List.append_ne_nil_of_right_ne_nil _ (List.cons_ne_nil _ _))
  media := by
    intro hzero
    by_cases hm : (StoreCall.write m).IsMedia
    · cases m with
      | putMedia nanos contentType bytes => exact absurd hzero (Nat.succ_ne_zero _)
      | deleteMedia key =>
        have hempty : s.media = .empty := h.media hzero
        change s.media.erase key = .empty
        rw [hempty]
        rfl
      | _ => cases hm
    · have hrun : m.run s = (m.run s).withMedia s.media s.mediaSeq :=
        (s.run_withMedia s.media s.mediaSeq hm).2
      have hseq : (m.run s).mediaSeq = s.mediaSeq := by
        rw [hrun]
        rfl
      have hmedia : (m.run s).media = s.media := by
        rw [hrun]
        rfl
      rw [hmedia]
      exact h.media (hseq.symm.trans hzero)

/-- Applying a peer's row leaves the outbox and the media. -/
theorem Numbered.apply (h : s.Numbered node) (c : Federation.Change) : (c.apply s).Numbered node := by
  have hrest : (c.apply s).withoutRows = s.withoutRows := by
    cases c with
    | put row => exact s.withoutRows_put row
    | drop row => exact s.withoutRows_drop row
    | unreact p => rfl
  have houtbox := outbox_of_withoutRows hrest
  have happly : c.apply s = (c.apply s).withMedia s.media s.mediaSeq :=
    s.apply_withMedia s.media s.mediaSeq c
  have hmediaSeq : (c.apply s).mediaSeq = s.mediaSeq := by
    rw [happly]
    rfl
  have hmedia : (c.apply s).media = s.media := by
    rw [happly]
    rfl
  have hnext : (c.apply s).withoutRows.nextOutbox = s.nextOutbox := by
    rw [hrest]
    rfl
  refine ⟨(node_of_withoutRows hrest).trans h.node, ?_, ?_, ?_⟩
  · rw [houtbox]
    exact h.seq
  · rw [houtbox]
    exact fun hnil => hnext.trans (h.nextOutbox hnil)
  · rw [hmediaSeq]
    exact fun hzero => hmedia.trans (h.media hzero)

theorem Numbered.call (h : s.Numbered node) (wire : Federation.Wire) (c : StoreCall) :
    (c.call wire s).2.Numbered node := by
  cases c with
  | write m => exact h.run m
  | advanceCursor peer seq => exact ⟨h.node, h.seq, h.nextOutbox, h.media⟩
  | applyIncoming part =>
    rw [StoreCall.call]
    cases hchange : wire.change part with
    | error e =>
      rw [Federation.applyIncoming_of_error hchange]
      exact h
    | ok c =>
      rw [Federation.applyIncoming_of_change hchange]
      exact h.apply c
  | _ => exact h

theorem numbered_of_reachable {text : SnapshotText} {wire : Federation.Wire}
    (h : Reachable text wire node s) : s.Numbered node := by
  induction h with
  | new => exact ⟨rfl, fun r hr => absurd hr List.not_mem_nil, fun _ => rfl, fun _ => rfl⟩
  | call _ c ih => exact ih.call wire c
  | @restart s t _ ht ih =>
    rw [SnapshotText.restart, SnapshotText.fromJson] at ht
    cases hparse : text.parse (text.toJson s) with
    | error e =>
      rw [hparse] at ht
      cases ht
    | ok snap =>
      rw [hparse] at ht
      obtain rfl := Except.ok.inj ht
      exact ⟨rfl, fun r hr => absurd hr List.not_mem_nil, fun _ => rfl, fun _ => rfl⟩

end Inner

/-! ## What a restart forgets -/

/-- Only one has the one digit of one. -/
theorem eq_zero_of_hex {n : Nat} (h : Inner.hex (n + 1) = Inner.hex 1) : n = 0 := by
  have hdigits : Nat.toDigits 16 (n + 1) = Nat.toDigits 16 1 := String.ofList_injective h
  by_cases hlt : n + 1 < 16
  · rw [Nat.toDigits_of_lt_base hlt, Nat.toDigits_of_lt_base (by decide)] at hdigits
    have hn : n < 15 := by omega
    interval_cases n <;> first | rfl | exact absurd hdigits (by decide)
  · have hlength := congrArg List.length hdigits
    have hone : (Nat.toDigits 16 1).length = 1 := by decide
    rw [hone] at hlength
    have hle := (Nat.length_toDigits_le_iff (n := n + 1) (k := 1) (b := 16) (by decide)
      (by decide)).1 hlength.le
    omega

section

variable {s : Inner} {node : NodeId} (wire : Federation.Wire)

theorem outbox_of_indistinguishable (h : s.Numbered node)
    (hsame : StoreCall.Indistinguishable wire (¬ ·.IsMedia) s s.reloaded) :
    s.outbox = [] ∧ ∀ peer, s.cursors peer = 0 := by
  constructor
  · have hanswers := hsame [.changesSince 0 s.outbox.length]
      (fun c hc hmedia => by rw [List.mem_singleton.1 hc] at hmedia; exact hmedia)
    have hpage : (s.outbox.filter (fun r => r.seq > 0)).take s.outbox.length = [] := by
      simpa [StoreCall.answers, StoreCall.call, Inner.reloaded] using hanswers
    have hall : s.outbox.filter (fun r => r.seq > 0) = s.outbox :=
      List.filter_eq_self.2 (fun r hr => decide_eq_true (h.seq r hr))
    rwa [hall, List.take_length] at hpage
  · intro peer
    have hanswers := hsame [.replicationCursor peer]
      (fun c hc hmedia => by rw [List.mem_singleton.1 hc] at hmedia; exact hmedia)
    simpa [StoreCall.answers, StoreCall.call, Inner.replicationCursor, Inner.reloaded] using hanswers

theorem mediaSeq_of_indistinguishable
    (hsame : StoreCall.Indistinguishable wire (fun _ => True) s s.reloaded) : s.mediaSeq = 0 := by
  have hanswers := hsame [.write (.putMedia 0 "" [])] (fun _ _ => trivial)
  have hkey : Inner.hex 0 ++ Inner.hex (s.mediaSeq + 1) = Inner.hex 0 ++ Inner.hex 1 := by
    injection hanswers with hkey _
    injection hkey
  exact eq_zero_of_hex (String.append_right_inj _ |>.1 hkey)

theorem reloaded_eq (h : s.Numbered node) (houtbox : s.outbox = [])
    (hcursors : ∀ peer, s.cursors peer = 0) : s.reloaded = s.withMedia .empty 0 := by
  have hnext := h.nextOutbox houtbox
  have hcursors : s.cursors = fun _ => 0 := funext hcursors
  rw [Inner.reloaded, Inner.withMedia, houtbox, hnext, hcursors]

end

/-- A restart is seen by nobody exactly where the node has written and pulled nothing yet. -/
theorem restart_transparent_iff (text : SnapshotText) (wire : Federation.Wire) (node : NodeId)
    (s : Inner) (hs : Reachable text wire node s) (htext : text.ReadsBack s.toSnapshot) :
    ∃ t, text.restart node s = .ok t ∧
      (StoreCall.Indistinguishable wire (¬ ·.IsMedia) s t ↔
        s.outbox = [] ∧ ∀ peer, s.cursors peer = 0) ∧
      (StoreCall.Indistinguishable wire (fun _ => True) s t ↔
        s.outbox = [] ∧ (∀ peer, s.cursors peer = 0) ∧ s.mediaSeq = 0) := by
  have hnumbered := Inner.numbered_of_reachable hs
  have hrestart := SnapshotText.restart_eq htext
  rw [hnumbered.node] at hrestart
  refine ⟨s.reloaded, hrestart, ⟨?_, ?_⟩, ?_, ?_⟩
  · exact outbox_of_indistinguishable wire hnumbered
  · intro ⟨houtbox, hcursors⟩ calls hcalls
    rw [reloaded_eq hnumbered houtbox hcursors]
    exact (s.answers_withMedia .empty 0 wire hcalls).symm
  · intro hsame
    obtain ⟨houtbox, hcursors⟩ := outbox_of_indistinguishable wire hnumbered
      (fun calls _ => hsame calls (fun _ _ => trivial))
    exact ⟨houtbox, hcursors, mediaSeq_of_indistinguishable wire hsame⟩
  · intro ⟨houtbox, hcursors, hzero⟩ calls _
    rw [reloaded_eq hnumbered houtbox hcursors, ← hnumbered.media hzero, ← hzero]
    rfl

/-! ## A second rule that never leaves -/

namespace Agora

open Federation.Agora in
/-- Snapshots of stores that hold rules alone; a text is looked up among those in play. -/
def rulesText (snaps : List Snapshot) : SnapshotText where
  render snap := renderValue (.object [("rules", .array (snap.rules.map rulePayload))])
  parse text :=
    let render := fun snap : Snapshot =>
      renderValue (.object [("rules", .array (snap.rules.map rulePayload))])
    match snaps.find? (fun snap => render snap == text) with
    | some snap => .ok snap
    | none => .error "not a snapshot"

def charter : Rule := ⟨composeId 1 1, composeId 1 1, "be brief", ⟨0⟩⟩

/-- One rule has been written, and a peer has pulled it. -/
def pulled : Inner := (Inner.empty 1).insertRule charter

def saved : SnapshotText := rulesText [pulled.toSnapshot]

theorem saved_readsBack : saved.ReadsBack pulled.toSnapshot := by
  have hparse : ∀ text, saved.parse text =
      match [pulled.toSnapshot].find? (fun snap => saved.render snap == text) with
      | some snap => .ok snap
      | none => .error "not a snapshot" := fun _ => rfl
  rw [SnapshotText.ReadsBack, hparse]
  generalize saved.render = render
  rw [List.find?_cons, beq_self_eq_true]

theorem pulled_reachable : Reachable saved (Federation.Agora.wire []) 1 pulled :=
  .call .new (.write (.insertRule charter))

/-- Then a second rule is written, and the peer asks for what comes after the first. -/
def catchingUp : List StoreCall :=
  [.write (.insertRule { charter with id := composeId 1 2 }), .changesSince 1 100]

end Agora

theorem restart_transparent_pulled :
    ∃ t, Agora.saved.restart 1 Agora.pulled = .ok t ∧
      (StoreCall.Indistinguishable (Federation.Agora.wire []) (¬ ·.IsMedia) Agora.pulled t ↔
        Agora.pulled.outbox = [] ∧ ∀ peer, Agora.pulled.cursors peer = 0) ∧
      (StoreCall.Indistinguishable (Federation.Agora.wire []) (fun _ => True) Agora.pulled t ↔
        Agora.pulled.outbox = [] ∧ (∀ peer, Agora.pulled.cursors peer = 0) ∧
          Agora.pulled.mediaSeq = 0) :=
  restart_transparent_iff Agora.saved (Federation.Agora.wire []) 1 Agora.pulled
    Agora.pulled_reachable Agora.saved_readsBack

/-- After a restart the second rule is numbered 1 again, and the peer is told of nothing. -/
theorem restart_loses_rule :
    ¬ ∀ t, Agora.saved.restart 1 Agora.pulled = .ok t →
      StoreCall.Indistinguishable (Federation.Agora.wire []) (¬ ·.IsMedia) Agora.pulled t := by
  intro h
  have hsame := h Agora.pulled.reloaded (SnapshotText.restart_eq Agora.saved_readsBack)
    Agora.catchingUp (by
      intro c hc hmedia
      simp only [Agora.catchingUp, List.mem_cons, List.not_mem_nil, or_false] at hc
      rcases hc with rfl | rfl
      · exact hmedia
      · exact hmedia)
  injection hsame with _ hrest
  injection hrest with hpage _
  injection hpage with hrecords
  exact absurd (congrArg List.length hrecords) (by decide +kernel)

end Democrachat
