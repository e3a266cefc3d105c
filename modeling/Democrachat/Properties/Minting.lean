import Democrachat.Properties.Restart

/-!
# Minting ids

Nine counters of a store number what it mints.  A snapshot saves all of them, and nothing but
minting moves one.
-/

namespace Democrachat

open Library

/-! ## The counters -/

namespace Inner

/-- How many ids of the kind the store has minted. -/
def counter (s : Inner) : Entity → Nat
  | .user => s.nextUser
  | .server => s.nextServer
  | .channel => s.nextChannel
  | .message => s.nextMessage
  | .proposal => s.nextProposal
  | .rule => s.nextRule
  | .role => s.nextRole
  | .emoji => s.nextEmoji
  | .dm => s.nextDm

/-- All that minting reads. -/
def mint (s : Inner) : (Entity → Nat) × NodeId := (s.counter, s.node)

/-- A row moves no counter, and only an account touches the accounts. -/
theorem put_keeps (s : Inner) (row : Row) :
    (s.put row).mint = s.mint ∧ ((∀ user, row ≠ .user user) → (s.put row).users = s.users) := by
  cases row with
  | user u => exact ⟨rfl, fun h => absurd rfl (h u)⟩
  | reaction r =>
    rw [put]
    split
    · exact ⟨rfl, fun _ => rfl⟩
    · exact ⟨rfl, fun _ => rfl⟩
  | roleAssignment a =>
    rw [put]
    split
    · exact ⟨rfl, fun _ => rfl⟩
    · exact ⟨rfl, fun _ => rfl⟩
  | dm m =>
    rw [put]
    split
    · exact ⟨rfl, fun _ => rfl⟩
    · exact ⟨rfl, fun _ => rfl⟩
  | block b =>
    rw [put]
    split
    · exact ⟨rfl, fun _ => rfl⟩
    · exact ⟨rfl, fun _ => rfl⟩
  | _ => exact ⟨rfl, fun _ => rfl⟩

theorem mint_drop (s : Inner) (row : Row) : (s.drop row).mint = s.mint := by
  cases row with
  | _ => rfl

end Inner

/-- The account that a mutation puts into the store. -/
def Mutation.account : Mutation → Option User
  | .insertUser user | .updateUser user => some user
  | _ => none

/-- The kind of the id that a call mints. -/
def Mutation.mints : Mutation → Option Entity
  | .mint e => some e
  | .sendDm _ _ _ _ _ => some .dm
  | _ => none

def StoreCall.mints : StoreCall → Option Entity
  | .write m => m.mints
  | _ => none

/-- Ingesting a row moves no counter. -/
theorem mint_applyIncoming (wire : Federation.Wire) (part : Federation.SignedPart) (s : Inner) :
    (Federation.applyIncoming wire part s).2.mint = s.mint := by
  cases hchange : wire.change part with
  | error e => rw [Federation.applyIncoming_of_error hchange]
  | ok c =>
    rw [Federation.applyIncoming_of_change hchange]
    cases c with
    | put row => exact (s.put_keeps row).1
    | drop row => exact s.mint_drop row
    | unreact p => rfl

/-- Only minting moves a counter, and only an account touches the accounts. -/
theorem run_keeps (m : Mutation) (s : Inner) :
    (m.mints = none → (m.run s).mint = s.mint) ∧
      (m.account = none → (m.run s).users = s.users) := by
  have hrefl : (m.mints = none → s.mint = s.mint) ∧ (m.account = none → s.users = s.users) :=
    ⟨fun _ => rfl, fun _ => rfl⟩
  cases m with
  | mint e =>
    refine ⟨nofun, fun _ => ?_⟩
    cases e with
    | _ => rfl
  | insertUser user => exact ⟨fun _ => rfl, nofun⟩
  | updateUser user => exact ⟨fun _ => rfl, nofun⟩
  | sendDm sender recipient sealedForRecipient sealedForSender createdAt =>
    exact ⟨nofun, fun _ => rfl⟩
  | removeChannel id =>
    rw [Mutation.run, Inner.removeChannel]
    split
    · exact hrefl
    · exact ⟨fun _ => rfl, fun _ => rfl⟩
  | addReaction reaction =>
    rw [Mutation.run, Inner.addReaction]
    split
    · exact hrefl
    · exact ⟨fun _ => rfl, fun _ => rfl⟩
  | removeReaction message user emoji =>
    rw [Mutation.run, Inner.removeReaction]
    dsimp only
    split
    · exact ⟨fun _ => rfl, fun _ => rfl⟩
    · exact ⟨fun _ => rfl, fun _ => rfl⟩
  | removeRule id =>
    rw [Mutation.run, Inner.removeRule]
    split
    · exact ⟨fun _ => rfl, fun _ => rfl⟩
    · exact hrefl
  | removeRole id =>
    rw [Mutation.run, Inner.removeRole]
    split
    · exact hrefl
    · exact ⟨fun _ => rfl, fun _ => rfl⟩
  | assign assignment =>
    rw [Mutation.run, Inner.assign]
    split
    · exact hrefl
    · exact ⟨fun _ => rfl, fun _ => rfl⟩
  | unassign role user =>
    rw [Mutation.run, Inner.unassign]
    split
    · exact hrefl
    · exact ⟨fun _ => rfl, fun _ => rfl⟩
  | revokeInvite codeHash =>
    rw [Mutation.run, Inner.revokeInvite]
    split
    · exact ⟨fun _ => rfl, fun _ => rfl⟩
    · exact hrefl
  | addBlock block =>
    rw [Mutation.run, Inner.addBlock]
    split
    · exact hrefl
    · exact ⟨fun _ => rfl, fun _ => rfl⟩
  | addFriendship friendship =>
    rw [Mutation.run, Inner.addFriendship]
    split
    · exact hrefl
    · exact ⟨fun _ => rfl, fun _ => rfl⟩
  | updateFriendship friendship =>
    rw [Mutation.run, Inner.updateFriendship]
    split
    · exact ⟨fun _ => rfl, fun _ => rfl⟩
    · exact hrefl
  | _ => exact ⟨fun _ => rfl, fun _ => rfl⟩

/-- A call that mints answers with the next number, and no other one moves a counter. -/
theorem counter_call (wire : Federation.Wire) (s : Inner) (c : StoreCall) :
    (c.call wire s).2.node = s.node ∧
      (∀ e, (c.call wire s).2.counter e = s.counter e + if c.mints = some e then 1 else 0) ∧
      ∀ e, c.mints = some e → (c.call wire s).1 = .minted s.node (s.counter e + 1) := by
  have hkept : (c.call wire s).2.mint = s.mint → c.mints = none →
      (c.call wire s).2.node = s.node ∧
        (∀ e, (c.call wire s).2.counter e = s.counter e + if c.mints = some e then 1 else 0) ∧
        ∀ e, c.mints = some e → (c.call wire s).1 = .minted s.node (s.counter e + 1) := by
    intro hmint hnone
    refine ⟨congrArg Prod.snd hmint, ?_, ?_⟩
    · intro e
      have hcounter := congrFun (congrArg Prod.fst hmint) e
      rw [hnone, if_neg (by simp)]
      exact hcounter
    · intro e he
      rw [hnone] at he
      cases he
  cases c with
  | write m =>
    cases hmints : m.mints with
    | none => exact hkept ((run_keeps m s).1 hmints) hmints
    | some kind =>
      cases m with
      | mint e =>
        obtain rfl := Option.some.inj hmints
        cases e with
        | _ =>
          refine ⟨rfl, ?_, ?_⟩
          · intro e
            cases e with
            | _ => rfl
          · rintro e ⟨⟩
            rfl
      | sendDm sender recipient sealedForRecipient sealedForSender createdAt =>
        refine ⟨rfl, ?_, ?_⟩
        · intro e
          cases e with
          | _ => rfl
        · rintro e ⟨⟩
          rfl
      | _ => cases hmints
  | applyIncoming part =>
    apply hkept _ rfl
    exact mint_applyIncoming wire part s
  | read selects => exact hkept rfl rfl
  | getMedia key => exact hkept rfl rfl
  | changesSince afterSeq limit => exact hkept rfl rfl
  | replicationCursor peer => exact hkept rfl rfl
  | advanceCursor peer seq => exact hkept rfl rfl

/-! ## Nodes that mint -/

/-- An id that a node has minted. -/
structure MintedId where
  kind : Entity
  mintedBy : NodeId
  id : BitVec 64
deriving DecidableEq

/-- The stores of the nodes, and what they have minted so far. -/
structure Mint where
  stores : NodeId → Inner
  minted : List MintedId

inductive MintOp where
  | call (node : NodeId) (c : StoreCall)
  /-- The node goes down and comes up on what it has saved. -/
  | restart (node : NodeId)

namespace Mint

def start : Mint := ⟨Inner.empty, []⟩

/-- The id that a call of the node answers with. -/
def answered (node : NodeId) (c : StoreCall) : Answer → List MintedId
  | .minted origin sequence =>
    c.mints.toList.map (fun kind => ⟨kind, node, packId origin (BitVec.ofNat 64 sequence)⟩)
  | _ => []

variable (text : SnapshotText) (wire : Federation.Wire)

def step (w : Mint) : MintOp → Mint
  | .call node c =>
    match c.call wire (w.stores node) with
    | (answer, s) =>
      ⟨Function.update w.stores node s, w.minted ++ answered node c answer⟩
  | .restart node =>
    match text.restart node (w.stores node) with
    | .ok s => { w with stores := Function.update w.stores node s }
    | .error _ => w

def run (ops : List MintOp) : Mint := ops.foldl (step text wire) start

/-- What one node has minted of one kind, in order. -/
def mintedOf (w : Mint) (kind : Entity) (node : NodeId) : List MintedId :=
  w.minted.filter (fun m => m.kind = kind ∧ m.mintedBy = node)

/-- Every counter tells what has been minted: the numbers up to it, one after another. -/
structure Ledger (w : Mint) : Prop where
  node : ∀ node, (w.stores node).node = node
  ids : ∀ kind node, (w.mintedOf kind node).map (·.id) =
    (List.range ((w.stores node).counter kind)).map
      (fun k => packId node (BitVec.ofNat 64 (k + 1)))

theorem ledger_start : start.Ledger where
  node := fun _ => rfl
  ids := by
    intro kind node
    cases kind with
    | _ => rfl

variable {text wire}

theorem answered_of_none {c : StoreCall} (h : c.mints = none) (node : NodeId) (answer : Answer) :
    answered node c answer = [] := by
  cases answer with
  | minted origin sequence =>
    rw [answered, h]
    rfl
  | _ => rfl

/-- The entry of a call in the ledger. -/
theorem answered_eq {w : Mint} (h : w.Ledger) (node : NodeId) (c : StoreCall) :
    answered node c (c.call wire (w.stores node)).1 =
      c.mints.toList.map (fun kind => ⟨kind, node,
        packId node (BitVec.ofNat 64 ((w.stores node).counter kind + 1))⟩) := by
  obtain ⟨-, -, hanswer⟩ := counter_call wire (w.stores node) c
  cases hmints : c.mints with
  | none => exact answered_of_none hmints node _
  | some kind => rw [hanswer kind hmints, answered, hmints, h.node, Option.toList_some,
      List.map_singleton, List.map_singleton]

theorem Ledger.call {w : Mint} (h : w.Ledger) (node : NodeId) (c : StoreCall) :
    (w.step text wire (.call node c)).Ledger := by
  obtain ⟨hnode, hcounter, -⟩ := counter_call wire (w.stores node) c
  have hstep : w.step text wire (.call node c) =
      ⟨Function.update w.stores node (c.call wire (w.stores node)).2,
        w.minted ++ answered node c (c.call wire (w.stores node)).1⟩ := rfl
  rw [hstep, answered_eq h]
  constructor
  · intro node'
    dsimp only
    by_cases hsame : node' = node
    · rw [hsame, Function.update_self, hnode, h.node]
    · rw [Function.update_of_ne hsame, h.node]
  · intro kind node'
    have hbefore := h.ids kind node'
    rw [mintedOf, List.filter_append, List.map_append]
    rw [mintedOf] at hbefore
    rw [hbefore]
    dsimp only
    by_cases hsame : node' = node
    · subst hsame
      rw [Function.update_self, hcounter]
      by_cases hkind : c.mints = some kind
      · rw [if_pos hkind, hkind, List.range_succ, List.map_append]
        simp
      · rw [if_neg hkind, Nat.add_zero]
        have hnothing : (c.mints.toList.map (fun kind => (⟨kind, node',
            packId node' (BitVec.ofNat 64 ((w.stores node').counter kind + 1))⟩ : MintedId))).filter
              (fun m => m.kind = kind ∧ m.mintedBy = node') = [] := by
          apply List.filter_eq_nil_iff.2
          intro m hm
          obtain ⟨kind', hkind', rfl⟩ := List.mem_map.1 hm
          rw [Option.mem_toList] at hkind'
          have hne : kind' ≠ kind := by
            rintro rfl
            exact hkind hkind'
          simp [hne]
        rw [hnothing, List.map_nil, List.append_nil]
    · rw [Function.update_of_ne hsame]
      have hnothing : (c.mints.toList.map (fun kind => (⟨kind, node,
          packId node (BitVec.ofNat 64 ((w.stores node).counter kind + 1))⟩ : MintedId))).filter
            (fun m => m.kind = kind ∧ m.mintedBy = node') = [] := by
        apply List.filter_eq_nil_iff.2
        intro m hm
        obtain ⟨kind', -, rfl⟩ := List.mem_map.1 hm
        simp [Ne.symm hsame]
      rw [hnothing, List.map_nil, List.append_nil]

/-- A restart finds all counters in the snapshot. -/
theorem Ledger.restart {w : Mint} (h : w.Ledger) {node : NodeId}
    (htext : text.ReadsBack (w.stores node).toSnapshot) :
    (w.step text wire (.restart node)).Ledger := by
  have hrestart := SnapshotText.restart_eq htext
  rw [h.node] at hrestart
  have hstep : w.step text wire (.restart node) =
      { w with stores := Function.update w.stores node (w.stores node).reloaded } := by
    simp only [step, hrestart]
  rw [hstep]
  constructor
  · intro node'
    dsimp only
    by_cases hsame : node' = node
    · rw [hsame, Function.update_self]
      exact h.node node
    · rw [Function.update_of_ne hsame, h.node]
  · intro kind node'
    have hcounter : (Function.update w.stores node (w.stores node).reloaded node').counter kind =
        (w.stores node').counter kind := by
      by_cases hsame : node' = node
      · rw [hsame, Function.update_self]
        cases kind with
        | _ => rfl
      · rw [Function.update_of_ne hsame]
    dsimp only
    rw [hcounter]
    exact h.ids kind node'

variable (text wire)

/-- Whenever a node restarts, the text that it has saved reads back. -/
def RestartsClean (ops : List MintOp) : Prop :=
  ∀ earlier node later, ops = earlier ++ .restart node :: later →
    text.ReadsBack ((run text wire earlier).stores node).toSnapshot

theorem ledger_run (ops : List MintOp) (h : RestartsClean text wire ops) :
    (run text wire ops).Ledger := by
  induction ops using List.reverseRecOn with
  | nil => exact ledger_start
  | append_singleton ops op ih =>
    have hbefore : RestartsClean text wire ops := by
      rintro earlier node later rfl
      apply h earlier node (later ++ [op])
      rw [List.append_assoc, List.cons_append]
    have hrun : run text wire (ops ++ [op]) = (run text wire ops).step text wire op :=
      List.foldl_append
    rw [hrun]
    cases op with
    | call node c => exact (ih hbefore).call node c
    | restart node => exact (ih hbefore).restart (h ops node [] rfl)

variable {text wire}

theorem Ledger.counter_eq {w : Mint} (h : w.Ledger) (kind : Entity) (node : NodeId) :
    (w.stores node).counter kind = (w.mintedOf kind node).length := by
  have hlength := congrArg List.length (h.ids kind node)
  simpa using hlength.symm

/-- Every id tells who has minted it. -/
theorem Ledger.origin {w : Mint} (h : w.Ledger) {m : MintedId} (hm : m ∈ w.minted) :
    originNode m.id = m.mintedBy := by
  have hmem : m ∈ w.mintedOf m.kind m.mintedBy := List.mem_filter.2 ⟨hm, by simp⟩
  have hid := List.mem_map_of_mem (f := fun m : MintedId => m.id) hmem
  rw [h.ids] at hid
  obtain ⟨k, -, hk⟩ := List.mem_map.1 hid
  rw [← hk, originNode_packId]

/-- One node never mints an id of one kind twice. -/
theorem Ledger.nodup {w : Mint} (h : w.Ledger) {kind : Entity} {node : NodeId}
    (hfew : (w.mintedOf kind node).length < 2 ^ 48) :
    ((w.mintedOf kind node).map (·.id)).Nodup := by
  rw [h.ids, h.counter_eq]
  apply List.Nodup.map_on _ List.nodup_range
  intro i hi j hj heq
  have hi := List.mem_range.1 hi
  have hj := List.mem_range.1 hj
  have hnext := packId_injective (by omega) (by omega) heq
  omega

end Mint

/-- However the nodes' calls, restarts and ingested rows are interleaved: as long as no node has
minted 2^48 ids of a kind, the ids of a kind are distinct, and each tells who has minted it. -/
theorem ids_unique (text : SnapshotText) (wire : Federation.Wire) (ops : List MintOp)
    (hclean : Mint.RestartsClean text wire ops)
    (hfew : ∀ kind node, ((Mint.run text wire ops).mintedOf kind node).length < 2 ^ 48) :
    (Mint.run text wire ops).minted.Pairwise (fun m m' => m.kind = m'.kind → m.id ≠ m'.id) ∧
      ∀ m ∈ (Mint.run text wire ops).minted, originNode m.id = m.mintedBy := by
  have hledger := Mint.ledger_run text wire ops hclean
  refine ⟨?_, fun m hm => hledger.origin hm⟩
  rw [List.pairwise_iff_getElem]
  intro i j hi hj hlt hkind
  have hmi := List.getElem_mem hi
  have hmj := List.getElem_mem hj
  by_cases hnode : ((Mint.run text wire ops).minted[i]).mintedBy =
      ((Mint.run text wire ops).minted[j]).mintedBy
  · have hnodup := hledger.nodup (hfew ((Mint.run text wire ops).minted[i]).kind
      ((Mint.run text wire ops).minted[i]).mintedBy)
    rw [List.Nodup, List.pairwise_map, Mint.mintedOf, List.pairwise_filter,
      List.pairwise_iff_getElem] at hnodup
    exact hnodup i j hi hj hlt (by simp) (by simp [hkind, hnode])
  · intro hid
    apply hnode
    rw [← hledger.origin hmi, ← hledger.origin hmj, hid]

/-- No step mints more than one id. -/
theorem Mint.length_minted_le (text : SnapshotText) (wire : Federation.Wire) (ops : List MintOp) :
    (Mint.run text wire ops).minted.length ≤ ops.length := by
  induction ops using List.reverseRecOn with
  | nil => exact Nat.le_refl _
  | append_singleton ops op ih =>
    have hrun : run text wire (ops ++ [op]) = (run text wire ops).step text wire op :=
      List.foldl_append
    rw [hrun, List.length_append, List.length_singleton]
    generalize run text wire ops = w at ih ⊢
    cases op with
    | call node c =>
      have hone : ∀ answer, (answered node c answer).length ≤ 1 := by
        intro answer
        cases answer with
        | minted origin sequence =>
          rw [answered, List.length_map]
          cases c.mints with
          | none => exact Nat.zero_le _
          | some kind => exact Nat.le_refl _
        | _ => exact Nat.zero_le _
      change (w.minted ++ answered node c (c.call wire (w.stores node)).1).length ≤ _
      rw [List.length_append]
      have hcall := hone (c.call wire (w.stores node)).1
      omega
    | restart node =>
      unfold step
      dsimp only
      split
      · exact Nat.le_succ_of_le ih
      · exact Nat.le_succ_of_le ih

namespace Agora

/-- Snapshots of stores without rows, as `serde_json` prints them; a text is looked up among those
in play. -/
def blankText (snaps : List Snapshot) : SnapshotText :=
  let render := fun snap : Snapshot =>
    let lists := ["users", "servers", "memberships", "channels", "messages", "reactions",
      "proposals", "votes", "emojis", "emoji_votes", "rules", "dms", "blocks", "friends", "roles",
      "role_assignments", "invites", "user_keys", "channel_grants", "nonces",
      "verification_tokens"].map (fun name => "  \"" ++ name ++ "\": []")
    let counters := [("next_user", snap.nextUser), ("next_server", snap.nextServer),
      ("next_channel", snap.nextChannel), ("next_message", snap.nextMessage),
      ("next_proposal", snap.nextProposal), ("next_rule", snap.nextRule), ("next_dm", snap.nextDm),
      ("next_role", snap.nextRole), ("next_emoji", snap.nextEmoji)].map
        (fun entry => "  \"" ++ entry.1 ++ "\": " ++ toString entry.2)
    "\x7b\n" ++ ",\n".intercalate (lists ++ counters) ++ "\n\x7d"
  { render
    parse := fun text =>
      match snaps.find? (fun snap => render snap == text) with
      | some snap => .ok snap
      | none => .error "not a snapshot" }

/-- Node 1 has minted one user id. -/
def enrolled : Inner := (Inner.empty 1).nextUserId.2

def enrolment : SnapshotText := blankText [enrolled.toSnapshot]

theorem enrolment_readsBack : enrolment.ReadsBack enrolled.toSnapshot := by
  have hparse : ∀ text, enrolment.parse text =
      match [enrolled.toSnapshot].find? (fun snap => enrolment.render snap == text) with
      | some snap => .ok snap
      | none => .error "not a snapshot" := fun _ => rfl
  rw [SnapshotText.ReadsBack, hparse]
  generalize enrolment.render = render
  rw [List.find?_cons, beq_self_eq_true]

/-- Node 1 mints before and after a restart, and node 2 mints too. -/
def enrolling : List MintOp :=
  [.call 1 (.write (.mint .user)), .restart 1, .call 1 (.write (.mint .user)),
    .call 2 (.write (.mint .user))]

end Agora

theorem ids_unique_enrolling :
    (Mint.run Agora.enrolment (Federation.Agora.wire []) Agora.enrolling).minted.Pairwise
        (fun m m' => m.kind = m'.kind → m.id ≠ m'.id) ∧
      ∀ m ∈ (Mint.run Agora.enrolment (Federation.Agora.wire []) Agora.enrolling).minted,
        originNode m.id = m.mintedBy := by
  apply ids_unique
  · rintro (_ | ⟨first, _ | ⟨second, _ | ⟨third, _ | ⟨fourth, rest⟩⟩⟩⟩) node later hsplit
    · cases hsplit
    · cases hsplit
      exact Agora.enrolment_readsBack
    · cases hsplit
    · cases hsplit
    · have hlength := congrArg List.length hsplit
      simp [Agora.enrolling] at hlength
  · intro kind node
    have hle := Mint.length_minted_le Agora.enrolment (Federation.Agora.wire []) Agora.enrolling
    have hfilter := List.length_filter_le (fun m : MintedId => m.kind = kind ∧ m.mintedBy = node)
      (Mint.run Agora.enrolment (Federation.Agora.wire []) Agora.enrolling).minted
    have hops : Agora.enrolling.length = 4 := rfl
    rw [Mint.mintedOf]
    omega

end Democrachat
