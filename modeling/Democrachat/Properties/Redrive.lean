import Democrachat.Federation.Pairs
import Democrachat.Federation.WriteRouter
import Democrachat.Properties.Forwarders

/-!
# Submitting a command again

A submission that fails part of the way leaves its command applied on some of the
owners.  A ballot, a block and a friend request may be submitted again.  A direct message
is then sent twice, and an acceptance finds no pending request any more.
-/

namespace Democrachat.Federation

open Library

/-- The use-cases that do nothing new the second time. -/
def Command.isRepeatable : Command → Bool
  | castVote _ _ _ | block _ _ | requestFriend _ _ => true
  | sendDm _ _ _ _ | acceptFriend _ _ => false

/-! ## A command applied again -/

theorem SameRows.refl (s : Inner) : s.SameRows s where
  users := rfl
  servers := rfl
  memberships := rfl
  channels := rfl
  messages := rfl
  reactions := .refl _
  proposals := rfl
  votes := .refl _
  rules := rfl
  roles := rfl
  roleAssignments := .refl _
  emojis := rfl
  emojiVotes := .refl _
  dms := .refl _
  blocks := .refl _
  friends := .refl _
  userKeys := rfl
  channelGrants := rfl
  invites := rfl

theorem recordVote_recordVote (votes : List Vote) (v : Vote) :
    recordVote (recordVote votes v) v = recordVote votes v := by
  simp [recordVote, List.filter_append, List.filter_filter]

/-- A block that is there is not added again. -/
theorem addBlock_addBlock (s : Inner) (a b : UserId) (t t' : Timestamp) :
    ((s.addBlock ⟨a, b, t⟩).2.addBlock ⟨a, b, t'⟩).2 = (s.addBlock ⟨a, b, t⟩).2 := by
  have hthere : (s.addBlock ⟨a, b, t⟩).2.blocks.any (fun x => x.blocker == a && x.blocked == b) =
      true := by
    unfold Inner.addBlock
    split
    next h => exact h
    next => simp
  generalize (s.addBlock ⟨a, b, t⟩).2 = u at hthere ⊢
  rw [Inner.addBlock, if_pos hthere]

/-- Nor is a request where there is a record. -/
theorem addFriendship_addFriendship (s : Inner) (a b : UserId) (t t' : Timestamp) :
    ((s.addFriendship (.request a b t)).2.addFriendship (.request a b t')).2 =
      (s.addFriendship (.request a b t)).2 := by
  have hthere : ((s.addFriendship (.request a b t)).2.pairRecord s(a, b)).isSome = true := by
    rw [Inner.pairRecord_addFriendship, Friendship.key_request, if_pos rfl]
    simp
  generalize (s.addFriendship (.request a b t)).2 = u at hthere ⊢
  have hany := u.any_isBetween (.request a b t')
  rw [Inner.addFriendship, if_pos (hany.trans hthere)]

namespace Command

theorem sameRows_effect_effect {cmd : Command} (h : cmd.isRepeatable = true) (s : Inner)
    (t t' : Timestamp) : (cmd.effect t' (cmd.effect t s)).SameRows (cmd.effect t s) := by
  cases cmd with
  | castVote proposal voter aye =>
    have hvotes := recordVote_recordVote s.votes ⟨proposal, voter, aye⟩
    have hrows := SameRows.refl ((castVote proposal voter aye).effect t s)
    exact { hrows with votes := .of_eq hvotes }
  | block blocker blocked =>
    have hsame := addBlock_addBlock s blocker blocked t t'
    simp only [effect, hsame]
    exact SameRows.refl _
  | requestFriend requester addressee =>
    have hsame := addFriendship_addFriendship s requester addressee t t'
    simp only [effect, hsame]
    exact SameRows.refl _
  | sendDm sender recipient sealedForRecipient sealedForSender => cases h
  | acceptFriend accepter requester => cases h

theorem accepts_effect {cmd : Command} (h : cmd.isRepeatable = true) {s : Inner}
    (haccepts : cmd.accepts s = true) (t : Timestamp) :
    cmd.accepts (cmd.effect t s) = true := by
  cases cmd with
  | castVote proposal voter aye => exact haccepts
  | block blocker blocked =>
    have husers : ((block blocker blocked).effect t s).users = s.users := by
      simp only [effect, Inner.addBlock]
      split <;> rfl
    simpa only [accepts, Inner.getUser, husers] using haccepts
  | requestFriend requester addressee =>
    have husers : ((requestFriend requester addressee).effect t s).users = s.users := by
      simp only [effect, Inner.addFriendship]
      split <;> rfl
    simpa only [accepts, Inner.getUser, husers] using haccepts
  | sendDm sender recipient sealedForRecipient sealedForSender => cases h
  | acceptFriend accepter requester => cases h

/-- An accepted request is not pending any more. -/
theorem refused_after_accept {accepter requester : UserId} {s : Inner}
    (haccepts : (acceptFriend accepter requester).accepts s = true) (t : Timestamp) :
    (acceptFriend accepter requester).accepts ((acceptFriend accepter requester).effect t s) =
      false := by
  simp only [accepts, Inner.friendshipBetween_eq, Bool.and_eq_true] at haccepts
  cases hrecord : s.pairRecord s(accepter, requester) with
  | none =>
    rw [hrecord] at haccepts
    exact absurd haccepts.2 (by simp)
  | some f =>
    have hafter : ((acceptFriend accepter requester).effect t s).pairRecord
        s(accepter, requester) = some f.accept := by
      simp only [effect, Inner.friendshipBetween_eq, hrecord]
      rw [Inner.pairRecord_updateFriendship, Friendship.key_accept, Inner.pairRecord_key hrecord,
        if_pos rfl, hrecord]
      rfl
    simp only [accepts, Inner.friendshipBetween_eq, hafter]
    simp [Friendship.accept, Friendship.areFriends]

theorem length_dms_effect (sender recipient : UserId)
    (sealedForRecipient sealedForSender : String) (t : Timestamp) (s : Inner) :
    ((sendDm sender recipient sealedForRecipient sealedForSender).effect t s).dms.length =
      s.dms.length + 1 := by
  exact List.length_append

/-- What is not repeatable fails the second time, or leaves more than one application does. -/
theorem not_again {cmd : Command} (h : cmd.isRepeatable = false) {s : Inner} {t : Timestamp}
    (haccepts : cmd.accepts s = true) (hagain : cmd.accepts (cmd.effect t s) = true)
    (t' once : Timestamp) : ¬ (cmd.effect t' (cmd.effect t s)).SameRows (cmd.effect once s) := by
  intro hrows
  cases cmd with
  | castVote proposal voter aye => cases h
  | block blocker blocked => cases h
  | requestFriend requester addressee => cases h
  | sendDm sender recipient sealedForRecipient sealedForSender =>
    have hlength := hrows.dms.length_eq
    simp only [length_dms_effect] at hlength
    omega
  | acceptFriend accepter requester =>
    rw [refused_after_accept haccepts] at hagain
    cases hagain

end Command

/-! ## One owner's turn -/

def withNonces (log : NonceLog) (s : Inner) : Inner := { s with nonces := log }

theorem addBlock_withNonces (log : NonceLog) (s : Inner) (b : Block) :
    ((withNonces log s).addBlock b).2 = withNonces log (s.addBlock b).2 := by
  by_cases h : s.blocks.any (fun x => x.blocker == b.blocker && x.blocked == b.blocked) = true
  · have h' : (withNonces log s).blocks.any
        (fun x => x.blocker == b.blocker && x.blocked == b.blocked) = true := h
    rw [Inner.addBlock, Inner.addBlock, if_pos h', if_pos h]
  · have h' : ¬ (withNonces log s).blocks.any
        (fun x => x.blocker == b.blocker && x.blocked == b.blocked) = true := h
    rw [Inner.addBlock, Inner.addBlock, if_neg h', if_neg h]
    rfl

theorem addFriendship_withNonces (log : NonceLog) (s : Inner) (f : Friendship) :
    ((withNonces log s).addFriendship f).2 = withNonces log (s.addFriendship f).2 := by
  by_cases h : s.friends.any (fun x => x.isBetween f.requester f.addressee) = true
  · have h' : (withNonces log s).friends.any (fun x => x.isBetween f.requester f.addressee) =
        true := h
    rw [Inner.addFriendship, Inner.addFriendship, if_pos h', if_pos h]
  · have h' : ¬ (withNonces log s).friends.any (fun x => x.isBetween f.requester f.addressee) =
        true := h
    rw [Inner.addFriendship, Inner.addFriendship, if_neg h', if_neg h]
    rfl

theorem updateFriendship_withNonces (log : NonceLog) (s : Inner) (f : Friendship) :
    (withNonces log s).updateFriendship f = withNonces log (s.updateFriendship f) := by
  by_cases h : s.friends.any (fun x => x.isBetween f.requester f.addressee) = true
  · have h' : (withNonces log s).friends.any (fun x => x.isBetween f.requester f.addressee) =
        true := h
    rw [Inner.updateFriendship, Inner.updateFriendship, if_pos h', if_pos h]
    rfl
  · have h' : ¬ (withNonces log s).friends.any (fun x => x.isBetween f.requester f.addressee) =
        true := h
    rw [Inner.updateFriendship, Inner.updateFriendship, if_neg h', if_neg h]

namespace Command

@[simp] theorem accepts_withNonces (cmd : Command) (log : NonceLog) (s : Inner) :
    cmd.accepts (withNonces log s) = cmd.accepts s := by
  cases cmd <;> rfl

theorem effect_withNonces (cmd : Command) (log : NonceLog) (s : Inner) (t : Timestamp) :
    cmd.effect t (withNonces log s) = withNonces log (cmd.effect t s) := by
  cases cmd with
  | castVote proposal voter aye => rfl
  | sendDm sender recipient sealedForRecipient sealedForSender => rfl
  | block blocker blocked => exact addBlock_withNonces log s _
  | requestFriend requester addressee => exact addFriendship_withNonces log s _
  | acceptFriend accepter requester =>
    have hfound : (withNonces log s).friendshipBetween accepter requester =
        s.friendshipBetween accepter requester := rfl
    simp only [effect, hfound]
    cases s.friendshipBetween accepter requester with
    | none => rfl
    | some f => exact updateFriendship_withNonces log s f.accept

/-- No command changes where a command goes. -/
theorem targetScopes_effect (cmd cmd' : Command) (s : Inner) (t : Timestamp) :
    cmd.targetScopes (storeResolver (cmd'.effect t s)) = cmd.targetScopes (storeResolver s) := by
  have hproposals : (cmd'.effect t s).proposals = s.proposals := by
    cases cmd' with
    | castVote proposal voter aye => rfl
    | sendDm sender recipient sealedForRecipient sealedForSender => rfl
    | block blocker blocked =>
      simp only [effect, Inner.addBlock]
      split <;> rfl
    | requestFriend requester addressee =>
      simp only [effect, Inner.addFriendship]
      split <;> rfl
    | acceptFriend accepter requester =>
      simp only [effect, Inner.updateFriendship]
      split
      next =>
        split
        next => rfl
        next => rfl
      next => rfl
  cases cmd with
  | castVote proposal voter aye =>
    simp only [targetScopes, storeResolver, Inner.getProposal, hproposals]
  | _ => rfl

end Command

section

variable (wire : Wire) (text : CommandText)

/-- The gates in front of the use-case, replay aside, let the command in. -/
structure Passes (registry : Registry) (cmd : Command) (signed : SignedCommand) (owner : NodeId)
    (w : World) : Prop where
  verified : verifySigned wire text registry signed = .ok cmd
  answers : ∀ scope ∈ cmd.targetScopes (storeResolver w.store), registry.Answers scope
  owns : ∃ scope ∈ cmd.targetScopes (storeResolver w.store), registry.Owns owner scope
  inWindow : IsFresh signed.issuedAt (unixNow w) ∨ WrapsAround signed.issuedAt (unixNow w)

theorem passes_congr {wire : Wire} {text : CommandText} {registry : Registry} {cmd : Command}
    {signed : SignedCommand} {owner : NodeId} {w w' : World} (hnow : w'.now = w.now)
    (hscopes : cmd.targetScopes (storeResolver w'.store) =
      cmd.targetScopes (storeResolver w.store)) :
    Passes wire text registry cmd signed owner w' ↔ Passes wire text registry cmd signed owner w := by
  have hclock : unixNow w' = unixNow w := by rw [unixNow, hnow, unixNow]
  constructor
  · rintro ⟨hverified, hanswers, howns, hwindow⟩
    rw [hscopes] at hanswers howns
    rw [hclock] at hwindow
    exact ⟨hverified, hanswers, howns, hwindow⟩
  · rintro ⟨hverified, hanswers, howns, hwindow⟩
    rw [← hscopes] at hanswers howns
    rw [← hclock] at hwindow
    exact ⟨hverified, hanswers, howns, hwindow⟩

/-- The command comes to the use-case of the owner. -/
def WriteRouter.Reaches (router : WriteRouter) (fates : NodeId → Fate) (cmd : Command)
    (signed : SignedCommand) (owner : NodeId) (w : World) : Prop :=
  owner = router.node ∨
    (router.hasPeer owner = true ∧ (∀ message, fates owner ≠ .unreachable message) ∧
      Passes wire text router.registry cmd signed owner w)

variable {wire text} {registry : Registry} {cmd : Command} {signed : SignedCommand}
  {owner : NodeId} {w : World}

/-- The nonce of a command has not been seen. -/
def IsNew (signed : SignedCommand) (log : NonceLog) : Prop :=
  log.get (toLex (signed.node, signed.nonce)) = none

theorem IsNew.holds {log : NonceLog} (h : IsNew signed log) (now : Int64) :
    holds log signed.node signed.nonce now = false := by
  rw [Federation.holds, h, Option.any_none]

theorem exec_of_passes (h : Passes wire text registry cmd signed owner w)
    (hnew : IsNew signed w.store.nonces) :
    (execute wire text registry owner signed (unixNow w)).exec w =
      cmd.run.exec (w.mapStore (admitting signed (unixNow w))) := by
  have howns : ownsAScope registry owner (cmd.targetScopes (storeResolver w.store)) = .ok true :=
    ownsAScope_eq_ok.2 ⟨h.answers, iff_of_true rfl h.owns⟩
  have hscopes : ¬ (cmd.targetScopes (storeResolver w.store)).isEmpty = true := by
    obtain ⟨scope, hscope, -⟩ := h.owns
    rw [List.isEmpty_iff]
    exact List.ne_nil_of_mem hscope
  have hadmitted : (admitCommand w.store.nonces signed.node signed.nonce signed.issuedAt
      (unixNow w)).1 = .ok () := by
    rcases admitCommand_cases w.store.nonces signed.node signed.nonce signed.issuedAt
      (unixNow w) with ⟨-, -, hresult⟩ | ⟨-, hheld, -⟩ | ⟨hstale, -⟩
    · rw [hresult]
    · rw [hnew.holds] at hheld
      cases hheld
    · exact absurd h.inWindow hstale
  rw [exec_execute, h.verified]
  dsimp only
  rw [if_neg hscopes, howns, hadmitted]

/-- A gate that holds the command up leaves the owner as it was. -/
theorem exec_of_not_passes (h : ¬ Passes wire text registry cmd signed owner w)
    (hparse : text.parse signed.body = some cmd) :
    ∃ e, (execute wire text registry owner signed (unixNow w)).exec w = (.error e, w) := by
  rw [exec_execute]
  cases hverified : verifySigned wire text registry signed with
  | error e => exact ⟨e, rfl⟩
  | ok cmd' =>
    obtain rfl : cmd = cmd' := by
      have hparse' := (verifySigned_eq_ok.1 hverified).1
      exact Option.some.inj (hparse.symm.trans hparse')
    dsimp only
    by_cases hempty : (cmd.targetScopes (storeResolver w.store)).isEmpty = true
    · rw [if_pos hempty]
      exact ⟨_, rfl⟩
    · rw [if_neg hempty]
      cases howns : ownsAScope registry owner (cmd.targetScopes (storeResolver w.store)) with
      | error e => exact ⟨e, rfl⟩
      | ok owns =>
        cases owns with
        | false => exact ⟨_, rfl⟩
        | true =>
          obtain ⟨hanswers, howns⟩ := ownsAScope_eq_ok.1 howns
          have hstale : ¬ (IsFresh signed.issuedAt (unixNow w) ∨
              WrapsAround signed.issuedAt (unixNow w)) :=
            fun hpasses => h ⟨hverified, hanswers, howns.1 rfl, hpasses⟩
          rcases admitCommand_cases w.store.nonces signed.node signed.nonce signed.issuedAt
            (unixNow w) with ⟨hpasses, -, -⟩ | ⟨hpasses, -, -⟩ | ⟨-, hresult⟩
          · exact absurd hpasses hstale
          · exact absurd hpasses hstale
          · have hstore : admitting signed (unixNow w) w.store = w.store := by
              simp only [admitting, hresult]
            rw [hresult, World.mapStore, hstore]
            exact ⟨_, rfl⟩

/-- A log that has forgotten nothing about other commands, as far as they were unseen. -/
def Spares (signed : SignedCommand) (log log' : NonceLog) : Prop :=
  ∀ k, k ≠ toLex (signed.node, signed.nonce) → log.get k = none → log'.get k = none

theorem spares_admitCommand (log : NonceLog) (now : Int64) :
    Spares signed log (admitCommand log signed.node signed.nonce signed.issuedAt now).2 := by
  intro k hk hnone
  have hremember : (log.remember signed.node signed.nonce now
      (now + 2 * maxCommandSkewSecs)).2.get k = none := by
    have hother : k ≠ SeenNonce.key ⟨signed.node, signed.nonce, now + 2 * maxCommandSkewSecs⟩ := hk
    unfold NonceLog.remember
    dsimp only
    rw [Table.get_insert_of_ne _ hother, Table.get_retain, hnone]
    rfl
  rcases admitCommand_cases log signed.node signed.nonce signed.issuedAt now with
    ⟨-, -, hresult⟩ | ⟨-, -, hresult⟩ | ⟨-, hresult⟩
  · rw [hresult]
    exact hremember
  · rw [hresult]
    exact hremember
  · rw [hresult]
    exact hnone

variable {router : WriteRouter} {fates : NodeId → Fate}

/-- Where the command comes to the use-case, that decides what is left at the owner. -/
theorem commit_of_reaches (h : router.Reaches wire text fates cmd signed owner w)
    (hnew : IsNew signed w.store.nonces) :
    ∃ log, Spares signed w.store.nonces log ∧
      (router.commit wire text fates cmd signed owner w).2 =
        (cmd.run.exec (w.mapStore (withNonces log))).2 ∧
      ((router.commit wire text fates cmd signed owner w).1 = .ok () →
        (cmd.run.exec (w.mapStore (withNonces log))).1 = .ok ()) ∧
      (owner = router.node ∨ fates owner = .answered →
        (cmd.run.exec (w.mapStore (withNonces log))).1 = .ok () →
        (router.commit wire text fates cmd signed owner w).1 = .ok ()) := by
  unfold WriteRouter.commit
  by_cases hlocal : owner = router.node
  · rw [if_pos hlocal]
    exact ⟨w.store.nonces, fun _ _ hnone => hnone, rfl, id, fun _ => id⟩
  · obtain ⟨hpeer, hfate, hpasses⟩ := h.resolve_left hlocal
    have hexec := exec_of_passes hpasses hnew
    rw [if_neg hlocal, if_pos hpeer]
    refine ⟨_, spares_admitCommand w.store.nonces (unixNow w), ?_⟩
    change _ = (cmd.run.exec (w.mapStore (admitting signed (unixNow w)))).2 ∧ _
    unfold WriteRouter.forward
    cases hanswer : fates owner with
    | unreachable message => exact absurd hanswer (hfate message)
    | answered =>
      rw [hexec]
      exact ⟨rfl, answerOf_eq_ok.1, fun _ => answerOf_eq_ok.2⟩
    | answerLost message =>
      rw [hexec]
      refine ⟨rfl, fun hok => ?_, fun hanswered => ?_⟩
      · cases hok
      · rcases hanswered with hsame | hanswered
        · exact absurd hsame hlocal
        · cases hanswered

/-- And where it does not, nothing is. -/
theorem commit_of_not_reaches (h : ¬ router.Reaches wire text fates cmd signed owner w)
    (hparse : text.parse signed.body = some cmd) :
    ∃ e, router.commit wire text fates cmd signed owner w = (.error e, w) := by
  unfold WriteRouter.Reaches at h
  unfold WriteRouter.commit
  by_cases hlocal : owner = router.node
  · exact absurd (.inl hlocal) h
  · rw [if_neg hlocal]
    by_cases hpeer : router.hasPeer owner = true
    · rw [if_pos hpeer]
      unfold WriteRouter.forward
      cases hanswer : fates owner with
      | unreachable message => exact ⟨_, rfl⟩
      | answered =>
        have hpasses : ¬ Passes wire text router.registry cmd signed owner w :=
          fun hpasses => h (.inr ⟨hpeer, fun message => by rw [hanswer]; nofun, hpasses⟩)
        obtain ⟨e, hexec⟩ := exec_of_not_passes hpasses hparse
        dsimp only
        rw [hexec]
        rcases e with _ | _ | _ <;> exact ⟨_, rfl⟩
      | answerLost message =>
        have hpasses : ¬ Passes wire text router.registry cmd signed owner w :=
          fun hpasses => h (.inr ⟨hpeer, fun message => by rw [hanswer]; nofun, hpasses⟩)
        obtain ⟨e, hexec⟩ := exec_of_not_passes hpasses hparse
        dsimp only
        rw [hexec]
        exact ⟨_, rfl⟩
    · rw [if_neg hpeer]
      exact ⟨_, rfl⟩

/-- A submission leaves a store as it was or with the command applied once, and the nonces of
other commands unseen. -/
def LeftAtMostOnce (cmd : Command) (later : SignedCommand) (s s' : Inner) : Prop :=
  ∃ log, IsNew later log ∧
    (s' = withNonces log s ∨ (cmd.accepts s = true ∧ ∃ t, s' = withNonces log (cmd.effect t s)))

theorem leftAtMostOnce_refl {later : SignedCommand} {s : Inner} (hlater : IsNew later s.nonces) :
    LeftAtMostOnce cmd later s s :=
  ⟨s.nonces, hlater, .inl rfl⟩

theorem LeftAtMostOnce.isNew {later : SignedCommand} {s s' : Inner}
    (h : LeftAtMostOnce cmd later s s') : IsNew later s'.nonces := by
  obtain ⟨log, hnew, rfl | ⟨-, t, rfl⟩⟩ := h
  · exact hnew
  · exact hnew

theorem commit_store_of_reaches (h : router.Reaches wire text fates cmd signed owner w)
    (hnew : IsNew signed w.store.nonces) :
    ∃ log, Spares signed w.store.nonces log ∧
      (router.commit wire text fates cmd signed owner w).2.store =
        if cmd.accepts w.store then withNonces log (cmd.effect w.now w.store)
        else withNonces log w.store := by
  obtain ⟨log, hspares, hworld, -, -⟩ := commit_of_reaches h hnew
  refine ⟨log, hspares, ?_⟩
  rw [hworld]
  cases haccepts : cmd.accepts w.store with
  | true =>
    rw [Command.run_of_accepts (haccepts.symm ▸ cmd.accepts_withNonces log w.store)]
    exact cmd.effect_withNonces log w.store w.now
  | false =>
    obtain ⟨e, hrun⟩ := Command.run_of_refused (w := w.mapStore (withNonces log))
      ((cmd.accepts_withNonces log w.store).trans haccepts)
    rw [hrun]
    rfl

theorem leftAtMostOnce_commit {later : SignedCommand} (hnew : IsNew signed w.store.nonces)
    (hlater : IsNew later w.store.nonces)
    (hother : toLex (later.node, later.nonce) ≠ toLex (signed.node, signed.nonce))
    (hparse : text.parse signed.body = some cmd) :
    LeftAtMostOnce cmd later w.store (router.commit wire text fates cmd signed owner w).2.store := by
  by_cases h : router.Reaches wire text fates cmd signed owner w
  · obtain ⟨log, hspares, hstore⟩ := commit_store_of_reaches h hnew
    refine ⟨log, hspares _ hother hlater, ?_⟩
    rw [hstore]
    cases haccepts : cmd.accepts w.store with
    | true => exact .inr ⟨rfl, w.now, rfl⟩
    | false => exact .inl rfl
  · obtain ⟨e, hcommit⟩ := commit_of_not_reaches h hparse
    rw [hcommit]
    exact leftAtMostOnce_refl hlater

/-- With every owner reachable, an owner commits what its gates and its use-case let in. -/
theorem commit_eq_ok (hroute : owner ≠ router.node → router.hasPeer owner = true)
    (hnew : IsNew signed w.store.nonces) (hparse : text.parse signed.body = some cmd) :
    (router.commit wire text (fun _ => .answered) cmd signed owner w).1 = .ok () ↔
      (owner ≠ router.node → Passes wire text router.registry cmd signed owner w) ∧
        cmd.accepts w.store = true := by
  by_cases h : router.Reaches wire text (fun _ => .answered) cmd signed owner w
  · obtain ⟨log, -, -, hforth, hback⟩ := commit_of_reaches h hnew
    have hpasses : owner ≠ router.node → Passes wire text router.registry cmd signed owner w :=
      fun hremote => (h.resolve_left hremote).2.2
    have hrun : (cmd.run.exec (w.mapStore (withNonces log))).1 = .ok () ↔
        cmd.accepts w.store = true := by
      rw [← cmd.accepts_withNonces log w.store]
      cases haccepts : cmd.accepts (withNonces log w.store) with
      | true =>
        rw [Command.run_of_accepts (w := w.mapStore (withNonces log)) haccepts]
        simp
      | false =>
        obtain ⟨e, hrun⟩ := Command.run_of_refused (w := w.mapStore (withNonces log)) haccepts
        rw [hrun]
        simp
    constructor
    · exact fun hok => ⟨hpasses, hrun.1 (hforth hok)⟩
    · exact fun hok => hback (.inr rfl) (hrun.2 hok.2)
  · obtain ⟨e, hcommit⟩ := commit_of_not_reaches h hparse
    rw [hcommit]
    constructor
    · intro hok
      cases hok
    · rintro ⟨hpasses, -⟩
      by_cases hlocal : owner = router.node
      · exact absurd (.inl hlocal) h
      · exact absurd (.inr ⟨hroute hlocal, nofun, hpasses hlocal⟩) h

end

/-! ## The owners -/

theorem nodup_resolveOwners {registry : Registry} {scopes : List OwnedScope}
    {known owners : List NodeId} (hknown : known.Nodup)
    (h : WriteRouter.resolveOwners registry scopes known = .ok owners) : owners.Nodup := by
  induction scopes generalizing known with
  | nil =>
    obtain rfl := Except.ok.inj h
    exact hknown
  | cons scope scopes ih =>
    rw [WriteRouter.resolveOwners] at h
    cases howner : registry.ownerOf scope with
    | error e =>
      rw [howner] at h
      cases h
    | ok found =>
      rw [howner] at h
      cases found with
      | none => cases h
      | some o =>
        refine ih ?_ h
        split
        next => exact hknown
        next hnew => exact List.nodup_append.2 ⟨hknown, List.nodup_singleton _, by
          rintro a ha b hb rfl
          exact hnew (List.mem_singleton.1 hb ▸ ha)⟩

theorem nodup_owners {router : WriteRouter} {cmd : Command} {fleet : Fleet} {owners : List NodeId}
    (h : router.owners cmd fleet = .ok owners) : owners.Nodup := by
  unfold WriteRouter.owners at h
  split at h
  next => cases h
  next => exact nodup_resolveOwners List.nodup_nil h

/-- The owners depend on what the router's own store says about the scopes. -/
theorem owners_congr {router : WriteRouter} {cmd : Command} {fleet fleet' : Fleet}
    (h : cmd.targetScopes (storeResolver (fleet' router.node).store) =
      cmd.targetScopes (storeResolver (fleet router.node).store)) :
    router.owners cmd fleet' = router.owners cmd fleet := by
  unfold WriteRouter.owners
  rw [h]

/-! ## Two submissions -/

/-- Time has passed. -/
def Fleet.at_ (fleet : Fleet) (clocks : NodeId → Timestamp) : Fleet :=
  fun node => { fleet node with now := clocks node }

/-- A submission, and a second one of the same command. -/
structure Redrive where
  router : WriteRouter
  cmd : Command
  fleet : Fleet
  /-- What becomes of the calls of the first submission. -/
  fates : NodeId → Fate
  firstNonce : String
  /-- The clocks when the command is submitted again. -/
  clocks : NodeId → Timestamp
  secondNonce : String

namespace Redrive

variable (wire : Wire) (text : CommandText) (r : Redrive)

def first : Except ForwardError Unit × Fleet :=
  r.router.submit wire text r.fates r.firstNonce r.cmd r.fleet

/-- Every call is answered now. -/
def second : Except ForwardError Unit × Fleet :=
  r.router.submit wire text (fun _ => .answered) r.secondNonce r.cmd
    (Fleet.at_ (r.first wire text).2 r.clocks)

def firstSigned : SignedCommand :=
  r.cmd.signAt wire text r.router.keypair (unixNow (r.fleet r.router.node)) r.firstNonce

def secondSigned : SignedCommand :=
  r.cmd.signAt wire text r.router.keypair (Int64.ofInt (r.clocks r.router.node).secs)
    r.secondNonce

/-- The second submission succeeds, and every owner holds what one application leaves. -/
structure IsSafe (owners : List NodeId) : Prop where
  ok : (r.second wire text).1 = .ok ()
  once : ∀ owner ∈ owners, ∃ t,
    ((r.second wire text).2 owner).store.SameRows (r.cmd.effect t (r.fleet owner).store)

/-- Every owner's gates and use-case let the command in; and where it is a direct message or an
acceptance, the first submission did not come to the use-case of the first owner. -/
structure MeetsNoApplied (owners : List NodeId) : Prop where
  accepted : ∀ owner ∈ owners, r.cmd.accepts (r.fleet owner).store = true
  passes : ∀ owner ∈ owners, owner ≠ r.router.node →
    Passes wire text r.router.registry r.cmd (r.secondSigned wire text) owner
      (Fleet.at_ r.fleet r.clocks owner)
  unapplied : r.cmd.isRepeatable = false → ∀ owner ∈ owners.head?,
    ¬ r.router.Reaches wire text r.fates r.cmd (r.firstSigned wire text) owner (r.fleet owner)

/-- The nonces of the two submissions are fresh ones. -/
structure FreshNonces (owners : List NodeId) : Prop where
  ne : r.firstNonce ≠ r.secondNonce
  unseen : ∀ owner ∈ owners, ∀ nonce ∈ [r.firstNonce, r.secondNonce],
    (r.fleet owner).store.nonces.get (toLex (r.router.keypair.node, nonce)) = none

theorem FreshNonces.isNew_first {wire : Wire} {text : CommandText} {r : Redrive}
    {owners : List NodeId} (h : r.FreshNonces owners) {owner : NodeId} (howner : owner ∈ owners) :
    IsNew (r.firstSigned wire text) (r.fleet owner).store.nonces :=
  h.unseen owner howner r.firstNonce List.mem_cons_self

theorem FreshNonces.isNew_second {wire : Wire} {text : CommandText} {r : Redrive}
    {owners : List NodeId} (h : r.FreshNonces owners) {owner : NodeId} (howner : owner ∈ owners) :
    IsNew (r.secondSigned wire text) (r.fleet owner).store.nonces :=
  h.unseen owner howner r.secondNonce (List.mem_cons_of_mem _ (List.mem_singleton_self _))

section

variable {text r} {owners : List NodeId} (howners : r.router.owners r.cmd r.fleet = .ok owners)
  (hparse : text.parse (text.render r.cmd) = some r.cmd) (hnonces : r.FreshNonces owners)

include howners

theorem first_eq : r.first wire text =
    visitEach (r.router.commit wire text r.fates r.cmd (r.firstSigned wire text)) owners
      r.fleet := by
  unfold first WriteRouter.submit
  rw [howners]
  rfl

include hparse in
/-- Where the first submission did not come to the first owner, it has changed nothing. -/
theorem first_unapplied
    (h : ∀ owner ∈ owners.head?,
      ¬ r.router.Reaches wire text r.fates r.cmd (r.firstSigned wire text) owner (r.fleet owner)) :
    (r.first wire text).2 = r.fleet := by
  rw [first_eq wire howners]
  cases owners with
  | nil => rfl
  | cons owner owners =>
    obtain ⟨e, hcommit⟩ := commit_of_not_reaches (h owner rfl) hparse
    have herror : (r.router.commit wire text r.fates r.cmd (r.firstSigned wire text) owner
        (r.fleet owner)).1 = .error e := by
      rw [hcommit]
    rw [visitEach_cons_of_error herror, hcommit]
    exact Function.update_eq_self owner r.fleet

include hnonces in
/-- Where it did, the first owner holds the command applied. -/
theorem first_store_head {owner : NodeId} (hhead : owner ∈ owners.head?)
    (hreaches : r.router.Reaches wire text r.fates r.cmd (r.firstSigned wire text) owner
      (r.fleet owner)) (haccepts : r.cmd.accepts (r.fleet owner).store = true) :
    ∃ log, ((r.first wire text).2 owner).store =
      withNonces log (r.cmd.effect (r.fleet owner).now (r.fleet owner).store) := by
  have howner : owner ∈ owners := List.mem_of_mem_head? hhead
  obtain ⟨log, -, hstore⟩ := commit_store_of_reaches hreaches (hnonces.isNew_first howner)
  have hnodup := nodup_owners howners
  rw [first_eq wire howners]
  cases owners with
  | nil => cases hhead
  | cons head rest =>
    obtain rfl := Option.some.inj hhead
    rw [visitEach_head (List.nodup_cons.1 hnodup).1, hstore]
    exact ⟨log, if_pos haccepts⟩

include hparse hnonces

/-- What an owner holds between the two submissions. -/
theorem leftAtMostOnce_first {owner : NodeId} (howner : owner ∈ owners) :
    LeftAtMostOnce r.cmd (r.secondSigned wire text) (r.fleet owner).store
      ((r.first wire text).2 owner).store := by
  have hfirst : IsNew (r.firstSigned wire text) (r.fleet owner).store.nonces :=
    hnonces.isNew_first howner
  have hsecond : IsNew (r.secondSigned wire text) (r.fleet owner).store.nonces :=
    hnonces.isNew_second howner
  rw [first_eq wire howners]
  rcases visitEach_apply (nodup_owners howners) howner with hsame | hvisited
  · rw [hsame]
    exact leftAtMostOnce_refl hsecond
  · rw [hvisited]
    refine leftAtMostOnce_commit hfirst hsecond ?_ hparse
    intro hkey
    exact hnonces.ne (congrArg (fun k => (ofLex k).2) hkey).symm

theorem targetScopes_first (owner : NodeId) :
    r.cmd.targetScopes (storeResolver ((r.first wire text).2 owner).store) =
      r.cmd.targetScopes (storeResolver (r.fleet owner).store) := by
  by_cases howner : owner ∈ owners
  · obtain ⟨log, -, hstore | ⟨-, t, hstore⟩⟩ :=
      leftAtMostOnce_first wire howners hparse hnonces howner
    · rw [hstore]
      rfl
    · rw [hstore]
      exact r.cmd.targetScopes_effect r.cmd _ t
  · rw [first_eq wire howners, visitEach_of_not_mem howner]

/-- The gates stand where they stood. -/
theorem passes_first (owner : NodeId) :
    Passes wire text r.router.registry r.cmd (r.secondSigned wire text) owner
        (Fleet.at_ (r.first wire text).2 r.clocks owner) ↔
      Passes wire text r.router.registry r.cmd (r.secondSigned wire text) owner
        (Fleet.at_ r.fleet r.clocks owner) :=
  passes_congr rfl (targetScopes_first wire howners hparse hnonces owner)

theorem second_eq : r.second wire text =
    visitEach (r.router.commit wire text (fun _ => .answered) r.cmd (r.secondSigned wire text))
      owners (Fleet.at_ (r.first wire text).2 r.clocks) := by
  have hsame : r.router.owners r.cmd (Fleet.at_ (r.first wire text).2 r.clocks) = .ok owners :=
    (owners_congr (targetScopes_first wire howners hparse hnonces r.router.node)).trans howners
  unfold second WriteRouter.submit
  rw [hsame]
  rfl

variable (hroutes : ∀ owner ∈ owners, owner ≠ r.router.node → r.router.hasPeer owner = true)

include hroutes

/-- What it takes for the second submission to succeed. -/
theorem second_eq_ok :
    (r.second wire text).1 = .ok () ↔
      ∀ owner ∈ owners,
        (owner ≠ r.router.node →
          Passes wire text r.router.registry r.cmd (r.secondSigned wire text) owner
            (Fleet.at_ r.fleet r.clocks owner)) ∧
        r.cmd.accepts ((r.first wire text).2 owner).store = true := by
  rw [second_eq wire howners hparse hnonces, visitEach_eq_ok (nodup_owners howners)]
  apply forall₂_congr
  intro owner howner
  have hnew := (leftAtMostOnce_first wire howners hparse hnonces howner).isNew
  rw [← passes_first wire howners hparse hnonces owner]
  exact commit_eq_ok (hroutes owner howner) hnew hparse

/-- What the second submission leaves at an owner. -/
theorem second_store (hok : (r.second wire text).1 = .ok ()) {owner : NodeId}
    (howner : owner ∈ owners) :
    ∃ log, ((r.second wire text).2 owner).store =
      withNonces log (r.cmd.effect (r.clocks owner) ((r.first wire text).2 owner).store) := by
  obtain ⟨hpasses, haccepts⟩ :=
    (second_eq_ok wire howners hparse hnonces hroutes).1 hok owner howner
  have hnew := (leftAtMostOnce_first wire howners hparse hnonces howner).isNew
  have hreaches : r.router.Reaches wire text (fun _ => .answered) r.cmd
      (r.secondSigned wire text) owner (Fleet.at_ (r.first wire text).2 r.clocks owner) := by
    by_cases hlocal : owner = r.router.node
    · exact .inl hlocal
    · exact .inr ⟨hroutes owner howner hlocal, nofun,
        (passes_first wire howners hparse hnonces owner).2 (hpasses hlocal)⟩
  rw [second_eq wire howners hparse hnonces] at hok ⊢
  rw [visitEach_apply_of_ok (nodup_owners howners) hok howner]
  obtain ⟨log, -, hstore⟩ := commit_store_of_reaches hreaches hnew
  exact ⟨log, hstore.trans (if_pos haccepts)⟩

end

end Redrive

theorem sameRows_withNonces {log : NonceLog} {s t : Inner} :
    (withNonces log s).SameRows t ↔ s.SameRows t :=
  ⟨fun h => { h with }, fun h => { h with }⟩

/-- A command is safe to submit again exactly where every owner's gates and use-case let it in,
and it is repeatable or has been applied nowhere. -/
theorem redrive_safe_iff (wire : Wire) (text : CommandText) (r : Redrive) {owners : List NodeId}
    (howners : r.router.owners r.cmd r.fleet = .ok owners)
    (hparse : text.parse (text.render r.cmd) = some r.cmd) (hnonces : r.FreshNonces owners)
    (hroutes : ∀ owner ∈ owners, owner ≠ r.router.node → r.router.hasPeer owner = true) :
    r.IsSafe wire text owners ↔ r.MeetsNoApplied wire text owners := by
  have hleft := fun {owner} (howner : owner ∈ owners) =>
    Redrive.leftAtMostOnce_first wire howners hparse hnonces howner
  constructor
  · rintro ⟨hok, honce⟩
    have hlets := (Redrive.second_eq_ok wire howners hparse hnonces hroutes).1 hok
    have haccepted : ∀ owner ∈ owners, r.cmd.accepts (r.fleet owner).store = true := by
      intro owner howner
      have haccepts := (hlets owner howner).2
      obtain ⟨log, -, hstore | ⟨haccepted, -⟩⟩ := hleft howner
      · rwa [hstore, Command.accepts_withNonces] at haccepts
      · exact haccepted
    refine ⟨haccepted, fun owner howner => (hlets owner howner).1, ?_⟩
    intro hrepeatable owner hhead hreaches
    have howner : owner ∈ owners := List.mem_of_mem_head? hhead
    have hold := haccepted owner howner
    obtain ⟨log, hfirst⟩ := Redrive.first_store_head wire howners hnonces hhead hreaches hold
    have hagain := (hlets owner howner).2
    obtain ⟨log', hsecond⟩ := Redrive.second_store wire howners hparse hnonces hroutes hok howner
    obtain ⟨once, hrows⟩ := honce owner howner
    rw [hfirst, Command.accepts_withNonces] at hagain
    rw [hsecond, hfirst, sameRows_withNonces, Command.effect_withNonces, sameRows_withNonces]
      at hrows
    exact Command.not_again hrepeatable hold hagain _ once hrows
  · rintro ⟨haccepted, hpasses, hunapplied⟩
    have hagain : ∀ owner ∈ owners,
        r.cmd.accepts ((r.first wire text).2 owner).store = true ∧
          ∀ t, ∃ once, (r.cmd.effect t ((r.first wire text).2 owner).store).SameRows
            (r.cmd.effect once (r.fleet owner).store) := by
      intro owner howner
      have hold := haccepted owner howner
      cases hrepeatable : r.cmd.isRepeatable with
      | false =>
        rw [Redrive.first_unapplied wire howners hparse (hunapplied hrepeatable)]
        exact ⟨hold, fun t => ⟨t, SameRows.refl _⟩⟩
      | true =>
        obtain ⟨log, -, hstore | ⟨-, once, hstore⟩⟩ := hleft howner
        · rw [hstore, Command.accepts_withNonces]
          refine ⟨hold, fun t => ⟨t, ?_⟩⟩
          rw [Command.effect_withNonces, sameRows_withNonces]
          exact SameRows.refl _
        · rw [hstore, Command.accepts_withNonces]
          refine ⟨Command.accepts_effect hrepeatable hold once, fun t => ⟨once, ?_⟩⟩
          rw [Command.effect_withNonces, sameRows_withNonces]
          exact Command.sameRows_effect_effect hrepeatable _ once t
    have hok : (r.second wire text).1 = .ok () :=
      (Redrive.second_eq_ok wire howners hparse hnonces hroutes).2
        (fun owner howner => ⟨hpasses owner howner, (hagain owner howner).1⟩)
    refine ⟨hok, fun owner howner => ?_⟩
    obtain ⟨log, hstore⟩ := Redrive.second_store wire howners hparse hnonces hroutes hok howner
    obtain ⟨once, hrows⟩ := (hagain owner howner).2 (r.clocks owner)
    refine ⟨once, ?_⟩
    rw [hstore, sameRows_withNonces]
    exact hrows

namespace Agora

/-- Both nodes hold both accounts, and Ann's request to Bob. -/
def requested : Fleet := fun node =>
  ⟨(Command.requestFriend ann bob).effect ⟨0⟩ { guestbook.store with node := node }, ⟨0⟩, []⟩

/-- A router of node 1 or 2, with a route to everybody. -/
def routerOf (node : NodeId) : WriteRouter :=
  ⟨node, apart.answers (wire []), keypair node, fun _ => true⟩

/-- The command is submitted at node `node`, and the other node cannot be reached at first. -/
def halfway (node : NodeId) (cmd : Command) : Redrive where
  router := routerOf node
  cmd := cmd
  fleet := requested
  fates := fun _ => .unreachable "connection refused"
  firstNonce := "1-0"
  clocks := fun _ => ⟨60⟩
  secondNonce := "1-1"

def blocking : Command := .block ann bob

def accepting : Command := .acceptFriend bob ann

theorem owners_blocking : (routerOf 1).owners blocking requested = .ok [1, 2] := rfl

end Agora

theorem redrive_safe_block :
    (Agora.halfway 1 Agora.blocking).IsSafe (Agora.wire [])
      (Agora.commandText [Agora.blocking]) [1, 2] := by
  refine (redrive_safe_iff (Agora.wire []) (Agora.commandText [Agora.blocking])
    (Agora.halfway 1 Agora.blocking) Agora.owners_blocking (Agora.parse_commandText _) ?_ ?_).2
      ⟨?_, ?_, nofun⟩
  · constructor
    · decide
    · rw [List.forall_mem_cons, List.forall_mem_singleton]
      decide +kernel
  · exact fun _ _ _ => rfl
  · rw [List.forall_mem_cons, List.forall_mem_singleton]
    decide +kernel
  · rw [List.forall_mem_cons, List.forall_mem_singleton]
    refine ⟨fun h => absurd rfl h, fun _ => ⟨?_, ?_, ?_, ?_⟩⟩
    · apply verifySigned_signAt (Agora.wire_signs [])
      · exact Agora.publicKey_of_keys (.inl rfl) rfl
      · exact Agora.parse_commandText _
    · exact fun scope _ => ⟨_, rfl⟩
    · exact ⟨.userHome Agora.bob, by simp [Agora.halfway, Agora.blocking, Command.targetScopes],
        _, rfl, rfl⟩
    · decide +kernel

/-- Bob's home has committed his acceptance; when he repeats it, it finds no pending request. -/
theorem accept_not_redriven :
    (Agora.routerOf 2).owners Agora.accepting Agora.requested = .ok [2, 1] ∧
      (∀ owner ∈ [2, 1], Agora.accepting.accepts (Agora.requested owner).store = true) ∧
      ¬ (Agora.halfway 2 Agora.accepting).IsSafe (Agora.wire [])
        (Agora.commandText [Agora.accepting]) [2, 1] := by
  refine ⟨rfl, ?_, ?_⟩
  · rw [List.forall_mem_cons, List.forall_mem_singleton]
    decide +kernel
  · rintro ⟨hok, -⟩
    have hrefused : ((Agora.halfway 2 Agora.accepting).second (Agora.wire [])
        (Agora.commandText [Agora.accepting])).1.isOk = false := by
      decide +kernel
    rw [hok] at hrefused
    cases hrefused

end Democrachat.Federation
