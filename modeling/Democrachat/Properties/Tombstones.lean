import Democrachat.Polity.Posting

/-!
# Tombstones

A deleted message keeps its tombstone as long as its channel, unless its author edits it:
`editMessage` does not look whether the message is deleted.
-/

namespace Democrachat

open Library

structure Message.IsTombstone (m : Message) : Prop where
  isDeleted : m.isDeleted = true
  body : m.body = ""
  attachments : m.attachments = []

/-- The message stands as its tombstone, or has gone with its channel. -/
def Erased (w : World) (m : Message) : Prop :=
  (∃ m', w.store.getMessage m.id = some m' ∧ m'.IsTombstone) ∨
    (w.store.getMessage m.id = none ∧ w.store.getChannel m.channelId = none)

/-- Once `deleteMessage` has succeeded on a message, it is erased in every later state. -/
def StaysDeleted (services : Services) (start : World) (us : List UseCase) : Prop :=
  ∀ pre handle m later post,
    us = pre ++ .op (.deleteMessage handle m.id) :: (later ++ post) →
    (services.serveAll start pre).store.getMessage m.id = some m →
    ((deleteMessage handle m.id).exec (services.serveAll start pre)).1 = .ok () →
      Erased (services.serveAll start (pre ++ .op (.deleteMessage handle m.id) :: later)) m

/-- The request edits a deleted message in its author's name, and not to a blank. -/
def UseCase.revives (w : World) : UseCase → Bool
  | .op (.editMessage handle messageId body) =>
    !(trim body).isEmpty && (w.store.findByHandle (trim handle)).any (fun user =>
      (w.store.getMessage messageId).any (fun m => m.author == user.id && m.isDeleted))
  | _ => false

theorem UseCase.revives_iff {w : World} {u : UseCase} :
    u.revives w = true ↔ ∃ handle messageId body m, u = .op (.editMessage handle messageId body) ∧
      Authors w handle messageId m ∧ (trim body).isEmpty = false ∧ m.isDeleted = true := by
  constructor
  · intro h
    unfold revives at h
    split at h
    next handle messageId body =>
      rw [Bool.and_eq_true, Bool.not_eq_true', any_author_iff] at h
      obtain ⟨hbody, user, m, hauthors, -, -, hdeleted⟩ := h
      exact ⟨handle, messageId, body, m, rfl, hauthors, hbody, hdeleted⟩
    next => cases h
  · rintro ⟨handle, messageId, body, m, rfl, hauthors, hbody, hdeleted⟩
    obtain ⟨user, huser, hauthor⟩ := hauthors.caller
    rw [revives, Bool.and_eq_true, Bool.not_eq_true', any_author_iff]
    exact ⟨hbody, user, m, hauthors, huser, hauthor, hdeleted⟩

section Steps

variable {services : Services} {w : World}

/-- What is known of a message from its deletion on. -/
structure Buried (w : World) (m : Message) : Prop where
  minted : Minted w.store.node w.store.nextMessage m.id
  channel : Minted w.polity.node w.polity.nextChannel m.channelId
  erased : (∃ m', w.store.getMessage m.id = some m' ∧ m'.IsTombstone ∧
      m'.channelId = m.channelId) ∨
    (w.store.getMessage m.id = none ∧ w.store.getChannel m.channelId = none)

theorem Buried.serve (hw : services.Served w) {m : Message} (h : Buried w m) {u : UseCase}
    (hu : u.revives w = false) : Buried (services.serve w u) m := by
  have hminted := minted_serve services h.minted u
  have hchannel := Slot.serve (P := fun _ => True) (fun _ _ h => h)
    ⟨h.channel, fun _ _ => trivial⟩ services u
  have hgone : w.store.getChannel m.channelId = none →
      (services.serve w u).store.getChannel m.channelId = none := by
    intro hnone
    have hslot : Slot (fun _ => False) m.channelId w.polity :=
      ⟨h.channel, fun x hx => nomatch hnone.symm.trans hx⟩
    cases hget : (services.serve w u).store.getChannel m.channelId with
    | none => rfl
    | some x => exact ((hslot.serve (fun _ _ h => h) services u).holds x hget).elim
  have hfate := hw.fate u m.id
  generalize services.serve w u = w' at hminted hchannel hgone hfate ⊢
  refine ⟨hminted, hchannel.minted, ?_⟩
  rcases h.erased with ⟨m', hm', htombstone, hplace⟩ | ⟨hnone, hlost⟩
  · cases hfate with
    | same hget => exact .inl ⟨m', hget.trans hm', htombstone, hplace⟩
    | plain _ _ _ hfree _ => cases hfree.symm.trans hm'
    | sealed_ _ _ _ hfree _ => cases hfree.symm.trans hm'
    | edited hauthors hbody _ =>
      obtain rfl := Option.some.inj (hauthors.found.symm.trans hm')
      have hrevives := UseCase.revives_iff.2
        ⟨_, _, _, _, rfl, hauthors, hbody, htombstone.isDeleted⟩
      cases hu.symm.trans hrevives
    | deleted hauthors hget =>
      obtain rfl := Option.some.inj (hauthors.found.symm.trans hm')
      exact .inl ⟨_, hget, ⟨rfl, rfl, rfl⟩, hplace⟩
    | lost _ hfound hget hremoved =>
      obtain rfl := Option.some.inj (hfound.symm.trans hm')
      exact .inr ⟨hget, hplace ▸ hremoved⟩
  · cases hfate with
    | same hget => exact .inr ⟨hget.trans hnone, hgone hlost⟩
    | plain _ _ hid => exact absurd hid h.minted.ne_composeId
    | sealed_ _ _ hid => exact absurd hid h.minted.ne_composeId
    | edited hauthors _ _ => cases hnone.symm.trans hauthors.found
    | deleted hauthors _ => cases hnone.symm.trans hauthors.found
    | lost _ hfound _ _ => cases hnone.symm.trans hfound

/-- A successful deletion buries the message. -/
theorem buried_of_deleted (hw : services.Served w) {handle : String} {m : Message}
    (hm : w.store.getMessage m.id = some m)
    (hok : ((deleteMessage handle m.id).exec w).1 = .ok ()) :
    Buried (services.serve w (.op (.deleteMessage handle m.id))) m := by
  rcases deleteMessage_cases w handle m.id with ⟨e, herror⟩ | ⟨m', hauthors⟩
  · rw [herror] at hok
    cases hok
  obtain rfl := Option.some.inj (hauthors.found.symm.trans hm)
  have hminted := hw.messagesMinted m' (Table.mem_of_get hm)
  obtain ⟨x, hx, -⟩ := hw.messagesPlaced.messages m' (Table.mem_of_get hm)
  have hchannel := hw.messagesPlaced.channels x (Table.mem_of_get hx)
  rw [show x.id = m'.channelId from Table.key_of_get hx] at hchannel
  have hslot := Slot.serve (P := fun _ => True) (fun _ _ h => h)
    ⟨hchannel, fun _ _ => trivial⟩ services (.op (.deleteMessage handle m'.id))
  refine ⟨minted_serve services hminted _, hslot.minted, .inl ⟨m'.tombstone, ?_,
    ⟨rfl, rfl, rfl⟩, rfl⟩⟩
  rw [serve_delete services hauthors, if_pos rfl]

/-- Only a successful deletion makes a message a deleted one. -/
theorem deletes_of_new (hw : services.Served w) {u : UseCase} {id : MessageId}
    (hbefore : ¬ ∃ m, w.store.getMessage id = some m ∧ m.isDeleted = true)
    (hafter : ∃ m, (services.serve w u).store.getMessage id = some m ∧ m.isDeleted = true) :
    ∃ handle m, u = .op (.deleteMessage handle id) ∧ Authors w handle id m := by
  have hfate := hw.fate u id
  obtain ⟨m, hm, hdeleted⟩ := hafter
  generalize services.serve w u = w' at hfate hm
  cases hfate with
  | same hget => exact absurd ⟨m, hget.symm.trans hm, hdeleted⟩ hbefore
  | plain _ hdrafts _ _ hget =>
    obtain rfl := Option.some.inj (hget.symm.trans hm)
    obtain ⟨_, _, _, _, _, rfl⟩ := hdrafts.made
    cases hdeleted
  | sealed_ _ _ _ _ hget =>
    obtain rfl := Option.some.inj (hget.symm.trans hm)
    cases hdeleted
  | edited hauthors _ hget =>
    obtain rfl := Option.some.inj (hget.symm.trans hm)
    exact absurd ⟨_, hauthors.found, hdeleted⟩ hbefore
  | deleted hauthors _ => exact ⟨_, _, rfl, hauthors⟩
  | lost _ _ hget _ => cases hget.symm.trans hm

end Steps

/-! ## Whole runs -/

section Runs

variable (services : Services) (node : NodeId) (now : Timestamp)

theorem StaysDeleted.never {us : List UseCase}
    (hstays : StaysDeleted services (.empty node now) us) :
    Along services.serve (fun w u => u.revives w = false) (.empty node now) us := by
  rw [along_iff]
  rintro pre u post rfl
  refine Bool.eq_false_iff.2 (fun hrevives => ?_)
  obtain ⟨handle, id, body, m, rfl, hauthors, hbody, hdeleted⟩ := UseCase.revives_iff.1 hrevives
  obtain ⟨pre', u', later, rfl, hbefore, hafter⟩ := exists_step
    (I := fun w : World => ∃ m, w.store.getMessage id = some m ∧ m.isDeleted = true)
    (by rintro ⟨_, hnone, -⟩; cases hnone) ⟨m, hauthors.found, hdeleted⟩
  have hserved : services.Served (services.serveAll (.empty node now) pre') := ⟨node, now, pre', rfl⟩
  obtain ⟨handle', m', rfl, hdeletes⟩ := deletes_of_new hserved hbefore hafter
  obtain rfl := hdeletes.id
  have herased := hstays pre' handle' m' (later ++ [.op (.editMessage handle m'.id body)]) post
    (by simp) hdeletes.found (by rw [exec_deleteMessage hdeletes])
  have hedited := serve_edit services hauthors hbody
  rw [← List.cons_append, ← List.append_assoc, services.serveAll_concat] at herased
  rcases herased with ⟨x, hx, htombstone⟩ | ⟨hnone, -⟩
  · obtain rfl := Option.some.inj (hedited.symm.trans hx)
    have hblank : trim body = "" := htombstone.body
    rw [hblank] at hbody
    cases hbody
  · cases hedited.symm.trans hnone

theorem staysDeleted_of_never {us : List UseCase}
    (hnever : Along services.serve (fun w u => u.revives w = false) (.empty node now) us) :
    StaysDeleted services (.empty node now) us := by
  rintro pre handle m later post rfl hm hok
  have hserved : services.Served (services.serveAll (.empty node now) pre) := ⟨node, now, pre, rfl⟩
  have hlater := (along_append.1 (along_append.1 hnever).2.2).1
  have hburied := hlater.invariant (I := fun w => services.Served w ∧ Buried w m)
    (fun w u h hu => ⟨h.1.serve u, h.2.serve h.1 hu⟩)
    ⟨hserved.serve _, buried_of_deleted hserved hm hok⟩
  rw [services.serveAll_append]
  refine hburied.2.erased.imp ?_ id
  rintro ⟨m', hm', htombstone, -⟩
  exact ⟨m', hm', htombstone⟩

/-- A message that was deleted stays so if, and only if, its author never edits it again. -/
theorem deleted_stays_iff (us : List UseCase) :
    StaysDeleted services (.empty node now) us ↔
      Along services.serve (fun w u => u.revives w = false) (.empty node now) us :=
  ⟨StaysDeleted.never services node now, staysDeleted_of_never services node now⟩

end Runs

namespace Agora

/-- Zed takes a word back, and then takes that back. -/
def retracted : List UseCase :=
  [.op (.registerAccount "zed"), .op (.foundServer "zed" "Agora" false),
    .op (.createChannel "zed" "agora" "square" ""), .op (.postMessage "zed" "agora" "square" "hi"),
    .op (.deleteMessage "zed" (composeId 0 1)), .op (.editMessage "zed" (composeId 0 1) "hello")]

end Agora

theorem deleted_message_edited :
    ¬ StaysDeleted Agora.services (.empty 0 (Agora.day 0)) Agora.retracted := by
  intro hstays
  have hnever := StaysDeleted.never Agora.services 0 (Agora.day 0) hstays
  revert hnever
  decide +kernel

end Democrachat
