import Democrachat.Federation.Command
import Democrachat.System.Mutations

/-!
# The social graph on one node

What the operations of a node do to direct messages, blocks and friendships: the use-cases
of the social graph are those of the commands, and no other operation touches it.
-/

namespace Democrachat

open Library Federation

/-! ## The use-cases by handle -/

/-- The operations of the social graph, as a session calls them. -/
inductive SocialOp where
  | sendSealedDm (fromHandle toHandle sealedForRecipient sealedForSender : String)
  | blockUser (blockerHandle blockedHandle : String)
  | requestFriend (requesterHandle addresseeHandle : String)
  | acceptFriend (meHandle otherHandle : String)

namespace SocialOp

def step (w : World) : SocialOp → World
  | sendSealedDm fromHandle toHandle sealedForRecipient sealedForSender =>
    ((Democrachat.sendSealedDm fromHandle toHandle sealedForRecipient sealedForSender).exec w).2
  | blockUser blockerHandle blockedHandle =>
    ((Democrachat.blockUser blockerHandle blockedHandle).exec w).2
  | requestFriend requesterHandle addresseeHandle =>
    ((Democrachat.requestFriend requesterHandle addresseeHandle).exec w).2
  | acceptFriend meHandle otherHandle =>
    ((Democrachat.acceptFriend meHandle otherHandle).exec w).2

/-- The ids that the handles stand for. -/
def pairOf (s : Inner) (handle other : String) : Option (UserId × UserId) :=
  match s.findByHandle (trim handle), s.findByHandle (trim other) with
  | some user, some otherUser => some (user.id, otherUser.id)
  | _, _ => none

/-- The command with the same effect. -/
def command (s : Inner) : SocialOp → Option Command
  | sendSealedDm fromHandle toHandle sealedForRecipient sealedForSender =>
    (pairOf s fromHandle toHandle).map
      (fun p => .sendDm p.1 p.2 sealedForRecipient sealedForSender)
  | blockUser blockerHandle blockedHandle =>
    (pairOf s blockerHandle blockedHandle).map (fun p => .block p.1 p.2)
  | requestFriend requesterHandle addresseeHandle =>
    (pairOf s requesterHandle addresseeHandle).map (fun p => .requestFriend p.1 p.2)
  | acceptFriend meHandle otherHandle =>
    (pairOf s meHandle otherHandle).map (fun p => .acceptFriend p.1 p.2)

theorem getUser_of_findByHandle {s : Inner} {handle : String} {user : User}
    (h : s.findByHandle handle = some user) : s.getUser user.id = some user :=
  Table.get_eq_some.2 ⟨List.mem_of_find?_eq_some h, rfl⟩

theorem exec_pairByHandle_bind {β : Type} (handle other : String)
    (k : User × User → Req World SocialError β) (w : World) :
    (pairByHandle handle other >>= k).exec w =
      match w.store.findByHandle (trim handle), w.store.findByHandle (trim other) with
      | some user, some otherUser => (k (user, otherUser)).exec w
      | some _, none => (.error (.noSuchUser other), w)
      | none, _ => (.error (.noSuchUser handle), w) := by
  rw [Req.exec_bind, pairByHandle]
  simp only [req_ask_bind, Req.exec_okOr_bind]
  cases w.store.findByHandle (trim handle) with
  | none => rfl
  | some user =>
    cases w.store.findByHandle (trim other) with
    | none => rfl
    | some otherUser => rfl

theorem rejecting_snd {ε α : Type} (display : ε → String) (r : Req World ε α) (w : World) :
    ((rejecting display r).exec w).2 = (r.exec w).2 := by
  rw [exec_rejecting]
  rcases r.exec w with ⟨e | a, t⟩
  · rfl
  · rfl

/-- Over one core, the two forms of a use-case of a pair do the same. -/
theorem byHandle_eq_byId (core : User → User → Req World SocialError Unit) (handle other : String)
    (w : World) :
    ((pairByHandle handle other >>= fun p => core p.1 p.2).exec w).2 =
      match pairOf w.store handle other with
      | some p => ((pairById p.1 p.2 >>= fun p => core p.1 p.2).exec w).2
      | none => w := by
  rw [exec_pairByHandle_bind, pairOf]
  cases huser : w.store.findByHandle (trim handle) with
  | none => rfl
  | some user =>
    cases hother : w.store.findByHandle (trim other) with
    | none => rfl
    | some otherUser =>
      simp only [exec_pairById_bind, getUser_of_findByHandle huser,
        getUser_of_findByHandle hother]

theorem step_sendSealedDm (fromHandle toHandle sealedForRecipient sealedForSender : String)
    (w : World) :
    (sendSealedDm fromHandle toHandle sealedForRecipient sealedForSender).step w =
      match pairOf w.store fromHandle toHandle with
      | some p => ((sendSealedDmById p.1 p.2 sealedForRecipient sealedForSender).exec w).2
      | none => w := by
  simp only [step, Democrachat.sendSealedDm, sendSealedDmById, req_ask_bind, Req.exec_okOr_bind,
    pairOf]
  cases hsender : w.store.findByHandle (trim fromHandle) with
  | none => rfl
  | some sender =>
    cases hrecipient : w.store.findByHandle (trim toHandle) with
    | none => rfl
    | some recipient =>
      simp only [getUser_of_findByHandle hsender, getUser_of_findByHandle hrecipient]

/-- A use-case called by handle does what its command does, where both handles are known. -/
theorem step_eq (w : World) (op : SocialOp) :
    op.step w =
      match op.command w.store with
      | some cmd => (cmd.run.exec w).2
      | none => w := by
  cases op with
  | sendSealedDm fromHandle toHandle sealedForRecipient sealedForSender =>
    rw [step_sendSealedDm, command]
    cases pairOf w.store fromHandle toHandle with
    | none => rfl
    | some p => exact (rejecting_snd _ _ w).symm
  | blockUser blockerHandle blockedHandle =>
    refine (byHandle_eq_byId blockBetween blockerHandle blockedHandle w).trans ?_
    rw [command]
    cases pairOf w.store blockerHandle blockedHandle with
    | none => rfl
    | some p => exact (rejecting_snd _ _ w).symm
  | requestFriend requesterHandle addresseeHandle =>
    refine (byHandle_eq_byId requestFriendBetween requesterHandle addresseeHandle w).trans ?_
    rw [command]
    cases pairOf w.store requesterHandle addresseeHandle with
    | none => rfl
    | some p => exact (rejecting_snd _ _ w).symm
  | acceptFriend meHandle otherHandle =>
    refine (byHandle_eq_byId acceptFriendBetween meHandle otherHandle w).trans ?_
    rw [command]
    cases pairOf w.store meHandle otherHandle with
    | none => rfl
    | some p => exact (rejecting_snd _ _ w).symm

end SocialOp

/-! ## What leaves the social graph alone -/

/-- The two stores hold the same direct messages, blocks and friendships. -/
structure Inner.SameSocial (s t : Inner) : Prop where
  dms : t.dms = s.dms
  blocks : t.blocks = s.blocks
  friends : t.friends = s.friends

theorem Inner.SameSocial.refl (s : Inner) : s.SameSocial s := ⟨rfl, rfl, rfl⟩

theorem Inner.SameSocial.trans {s t u : Inner} (h : s.SameSocial t) (h' : t.SameSocial u) :
    s.SameSocial u :=
  ⟨h'.dms.trans h.dms, h'.blocks.trans h.blocks, h'.friends.trans h.friends⟩

theorem sameSocial_run {m : Mutation} (h : m.isSocial = false) (s : Inner) :
    s.SameSocial (m.run s) := by
  have hspares := m.spares s
  by_cases hpart : m.part = .social
  · cases m with
    | sendDm _ _ _ _ _ | addBlock _ | addFriendship _ | updateFriendship _ => cases h
    | mint e => cases e <;> exact ⟨rfl, rfl, rfl⟩
    | _ => cases hpart
  · exact ⟨hspares.dms hpart, hspares.blocks hpart, hspares.friends hpart⟩

theorem Civil.sameSocial {w w' : World} (h : Civil w w') : w.store.SameSocial w'.store := by
  obtain ⟨ms, hcivil, hms⟩ := h
  rw [hms]
  generalize w.store = s
  clear hms
  induction ms generalizing s with
  | nil => exact .refl s
  | cons m ms ih =>
    have hrun := sameSocial_run (hcivil m List.mem_cons_self) s
    have hrest := ih (fun m' hm' => hcivil m' (List.mem_cons_of_mem _ hm')) (m.run s)
    exact hrun.trans hrest

theorem touches_setDmPolicy (handle : String) (policy : DmPolicy) :
    Req.WritesOnly (Touches [.accounts]) (setDmPolicy handle policy) :=
  Touches.ask fun _ => .okOr fun _ => .last (Touches.write (.updateUser _) (fun _ => rfl) rfl)

/-! ## What a command writes -/

theorem mem_replaceFriendship {f g : Friendship} {l : List Friendship}
    (h : g ∈ replaceFriendship f l) : g ∈ l ∨ g = f := by
  induction l with
  | nil => exact absurd h List.not_mem_nil
  | cons x l ih =>
    rw [replaceFriendship] at h
    split at h
    next =>
      rcases List.mem_cons.1 h with hf | hl
      · exact .inr hf
      · exact .inl (List.mem_cons_of_mem _ hl)
    next =>
      rcases List.mem_cons.1 h with hx | hl
      · exact .inl (hx ▸ List.mem_cons_self)
      · rcases ih hl with hl | hf
        · exact .inl (List.mem_cons_of_mem _ hl)
        · exact .inr hf

theorem mem_friends_addFriendship {s : Inner} {f g : Friendship}
    (h : g ∈ (s.addFriendship f).2.friends) :
    g ∈ s.friends ∨ g = f ∧ s.friendshipBetween f.requester f.addressee = none := by
  unfold Inner.addFriendship at h
  split at h
  next => exact .inl h
  next hnone =>
    rcases List.mem_append.1 h with hold | hnew
    · exact .inl hold
    · refine .inr ⟨List.mem_singleton.1 hnew, ?_⟩
      rw [Inner.friendshipBetween, List.find?_eq_none]
      intro x hx hbetween
      exact hnone (List.any_eq_true.2 ⟨x, hx, hbetween⟩)

theorem mem_friends_updateFriendship {s : Inner} {f g : Friendship}
    (h : g ∈ (s.updateFriendship f).friends) : g ∈ s.friends ∨ g = f := by
  unfold Inner.updateFriendship at h
  split at h
  next => exact mem_replaceFriendship h
  next => exact .inl h

/-- Where a friendship in the store comes from that a command leaves. -/
theorem mem_friends_effect {cmd : Command} {now : Timestamp} {s : Inner} {f : Friendship}
    (h : f ∈ (cmd.effect now s).friends) :
    f ∈ s.friends ∨
      (∃ requester addressee, cmd = .requestFriend requester addressee ∧
        f = .request requester addressee now ∧ s.friendshipBetween requester addressee = none) ∨
      ∃ accepter requester g, cmd = .acceptFriend accepter requester ∧
        s.friendshipBetween accepter requester = some g ∧ f = g.accept := by
  cases cmd with
  | castVote proposal voter aye => exact .inl h
  | sendDm sender recipient sealedForRecipient sealedForSender => exact .inl h
  | block blocker blocked =>
    left
    simp only [Command.effect, Inner.addBlock] at h
    split at h
    next => exact h
    next => exact h
  | requestFriend requester addressee =>
    rcases mem_friends_addFriendship h with hold | ⟨hnew, hnone⟩
    · exact .inl hold
    · exact .inr (.inl ⟨requester, addressee, rfl, hnew, hnone⟩)
  | acceptFriend accepter requester =>
    simp only [Command.effect] at h
    cases hfound : s.friendshipBetween accepter requester with
    | none =>
      rw [hfound] at h
      exact .inl h
    | some g =>
      rw [hfound] at h
      rcases mem_friends_updateFriendship h with hold | hnew
      · exact .inl hold
      · exact .inr (.inr ⟨accepter, requester, g, rfl, hfound, hnew⟩)

/-- Only a direct message adds one. -/
theorem mem_dms_effect {cmd : Command} {now : Timestamp} {s : Inner} {m : DmMessage}
    (h : m ∈ (cmd.effect now s).dms) :
    m ∈ s.dms ∨ ∃ sender recipient sealedForRecipient sealedForSender,
      cmd = .sendDm sender recipient sealedForRecipient sealedForSender ∧ m.sender = sender ∧
        m.recipient = recipient := by
  cases cmd with
  | castVote proposal voter aye => exact .inl h
  | sendDm sender recipient sealedForRecipient sealedForSender =>
    rcases List.mem_append.1 h with hold | hnew
    · exact .inl hold
    · rw [List.mem_singleton.1 hnew]
      exact .inr ⟨sender, recipient, sealedForRecipient, sealedForSender, rfl, rfl, rfl⟩
  | block blocker blocked =>
    left
    simp only [Command.effect, Inner.addBlock] at h
    split at h
    next => exact h
    next => exact h
  | requestFriend requester addressee =>
    left
    simp only [Command.effect, Inner.addFriendship] at h
    split at h
    next => exact h
    next => exact h
  | acceptFriend accepter requester =>
    left
    simp only [Command.effect, Inner.updateFriendship] at h
    split at h
    next =>
      split at h
      next => exact h
      next => exact h
    next => exact h

/-- A block stays, whatever is done. -/
theorem blocks_subset_effect (cmd : Command) (now : Timestamp) (s : Inner) :
    s.blocks ⊆ (cmd.effect now s).blocks := by
  cases cmd with
  | castVote proposal voter aye => exact List.Subset.refl _
  | sendDm sender recipient sealedForRecipient sealedForSender => exact List.Subset.refl _
  | block blocker blocked =>
    simp only [Command.effect, Inner.addBlock]
    split
    next => exact List.Subset.refl _
    next => exact List.subset_append_left _ _
  | requestFriend requester addressee =>
    simp only [Command.effect, Inner.addFriendship]
    split
    next => exact List.Subset.refl _
    next => exact List.Subset.refl _
  | acceptFriend accepter requester =>
    simp only [Command.effect, Inner.updateFriendship]
    split
    next =>
      split
      next => exact List.Subset.refl _
      next => exact List.Subset.refl _
    next => exact List.Subset.refl _

/-! ## What a row of a feed writes -/

theorem mem_friends_put {s : Inner} {row : Row} {f : Friendship} (h : f ∈ (s.put row).friends) :
    f ∈ s.friends ∨ row = .friendship f := by
  cases row with
  | friendship g =>
    rcases List.mem_append.1 h with hold | hnew
    · exact .inl (List.mem_filter.1 hold).1
    · exact .inr (by rw [List.mem_singleton.1 hnew])
  | reaction r | roleAssignment r | dm r | block r =>
    left
    simp only [Inner.put] at h
    split at h
    next => exact h
    next => exact h
  | _ => exact .inl h

theorem mem_dms_put {s : Inner} {row : Row} {m : DmMessage} (h : m ∈ (s.put row).dms) :
    m ∈ s.dms ∨ row = .dm m := by
  cases row with
  | dm x =>
    simp only [Inner.put] at h
    split at h
    next => exact .inl h
    next =>
      rcases List.mem_append.1 h with hold | hnew
      · exact .inl hold
      · exact .inr (by rw [List.mem_singleton.1 hnew])
  | reaction r | roleAssignment r | block r =>
    left
    simp only [Inner.put] at h
    split at h
    next => exact h
    next => exact h
  | _ => exact .inl h

theorem sameSocial_drop (s : Inner) (row : Row) : s.SameSocial (s.drop row) := by
  cases row with
  | _ => exact ⟨rfl, rfl, rfl⟩

theorem blocks_subset_put (s : Inner) (row : Row) : s.blocks ⊆ (s.put row).blocks := by
  cases row with
  | block b =>
    simp only [Inner.put]
    split
    next => exact List.Subset.refl _
    next => exact List.subset_append_left _ _
  | reaction r | roleAssignment r | dm r =>
    simp only [Inner.put]
    split
    next => exact List.Subset.refl _
    next => exact List.Subset.refl _
  | _ => exact List.Subset.refl _

section

variable {wire : Wire} {registry : Registry} {part : SignedPart} {s : Inner}

/-- What comes in touches what is private to its users only by putting a row. -/
theorem social_of_incoming : s.SameSocial (applyIncoming wire part s).2 ∨
    ∃ row, wire.change part = .ok (.put row) ∧ (applyIncoming wire part s).2 = s.put row := by
  cases hchange : wire.change part with
  | error e =>
    rw [applyIncoming_of_error hchange]
    exact .inl (.refl s)
  | ok c =>
    rw [applyIncoming_of_change hchange]
    cases c with
    | put row => exact .inr ⟨row, rfl, rfl⟩
    | drop row => exact .inl (sameSocial_drop s row)
    | unreact p => exact .inl ⟨rfl, rfl, rfl⟩

theorem mem_friends_applyIncoming {f : Friendship}
    (h : f ∈ (applyIncoming wire part s).2.friends) :
    f ∈ s.friends ∨ wire.change part = .ok (.put (.friendship f)) := by
  rcases social_of_incoming with hsame | ⟨row, hchange, hput⟩
  · rw [hsame.friends] at h
    exact .inl h
  · rw [hput] at h
    rcases mem_friends_put h with hold | rfl
    · exact .inl hold
    · exact .inr hchange

theorem blocks_subset_applyIncoming : s.blocks ⊆ (applyIncoming wire part s).2.blocks := by
  rcases social_of_incoming with hsame | ⟨row, -, hput⟩
  · rw [hsame.blocks]
    exact List.Subset.refl _
  · rw [hput]
    exact blocks_subset_put s row

theorem mem_dms_applyIncoming {m : DmMessage} (h : m ∈ (applyIncoming wire part s).2.dms) :
    m ∈ s.dms ∨ wire.change part = .ok (.put (.dm m)) := by
  rcases social_of_incoming with hsame | ⟨row, hchange, hput⟩
  · rw [hsame.dms] at h
    exact .inl h
  · rw [hput] at h
    rcases mem_dms_put h with hold | rfl
    · exact .inl hold
    · exact .inr hchange

end

end Democrachat
