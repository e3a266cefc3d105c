import Democrachat.System.Frames

/-!
# Direct messages and device keys

What the two use-cases that write them do to a node.
-/

namespace Democrachat

open Library Req

theorem Id.lt_composeId {e : Entity} {i : Id e} {node : NodeId} {sequence : Nat}
    (hnode : i.node = node) (hsequence : i.sequence < sequence) :
    i < composeId node sequence := by
  subst hnode
  show toLex (i.node, i.sequence) < toLex (i.node, sequence)
  exact Prod.Lex.toLex_lt_toLex.2 (.inr ⟨rfl, hsequence⟩)

/-- A message that comes in. -/
structure World.Posts (w w' : World) (dm : DmMessage) : Prop where
  id_eq : dm.id = composeId w.store.node (w.store.nextDm + 1)
  dms : w'.store.dms = w.store.dms ++ [dm]
  userKeys : w'.store.userKeys = w.store.userKeys
  users : w'.store.users = w.store.users
  counts : CountsOn w.store w'.store
  nextDm : w'.store.nextDm = w.store.nextDm + 1

theorem req_mayDm_bind {α : Type} (sender recipient : User) (k : Bool → Req World DmError α)
    (w : World) :
    ((liftM (mayDm sender recipient) : Req World DmError Bool) >>= k).exec w =
      (k (canDm sender.id recipient.id recipient.dmPolicy (w.store.blocksInvolving recipient.id)
        (w.store.friendshipsInvolving recipient.id))).exec w := rfl

theorem sendSealedDm_cases (me peer forRecipient forSender : String) (w : World) :
    (∃ e, (sendSealedDm me peer forRecipient forSender).exec w = (.error e, w)) ∨
      ∃ a b dm w', (sendSealedDm me peer forRecipient forSender).exec w = (.ok dm, w') ∧
        w.store.findByHandle (trim me) = some a ∧ w.store.findByHandle (trim peer) = some b ∧
        a.id ≠ b.id ∧ dm.sender = a.id ∧ dm.recipient = b.id ∧
        dm.sealedForRecipient = trim forRecipient ∧ dm.sealedForSender = trim forSender ∧
        w.Posts w' dm := by
  simp only [sendSealedDm, sendSealedDmCore, req_ask_bind, exec_okOr_bind, exec_ensure_bind,
    req_mayDm_bind, req_transact_bind, req_clockNow_bind, req_write_bind]
  cases hme : w.store.findByHandle (trim me) with
  | none => exact .inl ⟨_, rfl⟩
  | some a =>
    cases hpeer : w.store.findByHandle (trim peer) with
    | none => exact .inl ⟨_, rfl⟩
    | some b =>
      dsimp only
      split
      next hself =>
        split
        next =>
          split
          next =>
            right
            refine ⟨a, b, _, _, rfl, rfl, rfl, ?_, rfl, rfl, rfl, rfl, ?_⟩
            · exact bne_iff_ne.1 hself
            · exact ⟨rfl, rfl, rfl, rfl, ⟨rfl, le_rfl, Nat.le_succ _⟩, rfl⟩
          next => exact .inl ⟨_, rfl⟩
        next => exact .inl ⟨_, rfl⟩
      next => exact .inl ⟨_, rfl⟩

/-- A device key that comes in. -/
structure World.Publishes (w w' : World) (keys : UserKeys) : Prop where
  dms : w'.store.dms = w.store.dms
  userKeys : w'.store.userKeys = w.store.userKeys.insert keys
  users : w'.store.users = w.store.users
  counts : CountsOn w.store w'.store
  nextDm : w'.store.nextDm = w.store.nextDm

theorem publishKeys_cases (handle publicHex : String) (wrapped : WrappedKey) (w : World) :
    (∃ e, (publishKeys handle publicHex wrapped).exec w = (.error e, w)) ∨
      ∃ user w', (publishKeys handle publicHex wrapped).exec w = (.ok (), w') ∧
        w.store.findByHandle (trim handle) = some user ∧
        w.Publishes w' ⟨user.id, trim publicHex, wrapped⟩ := by
  simp only [publishKeys, req_ask_bind, exec_okOr_bind, exec_ensure_bind]
  cases hfound : w.store.findByHandle (trim handle) with
  | none => exact .inl ⟨_, rfl⟩
  | some user =>
    dsimp only
    split
    next => exact .inr ⟨user, _, rfl, rfl, rfl, rfl, rfl, .of_eq rfl rfl rfl, rfl⟩
    next => exact .inl ⟨_, rfl⟩

end Democrachat
