import Democrachat.Polity.Posting

/-!
# End-to-end encryption

What stands in an encrypted channel came sealed, unless the author of a message edits it:
`editMessage` does not look whether the channel is encrypted.
-/

namespace Democrachat

open Library

/-- The request left the message with another body or key epoch than it had, and not with an
empty body. -/
structure Rewrites (w w' : World) (m : Message) : Prop where
  stored : w'.store.getMessage m.id = some m
  body : m.body ≠ ""
  changed : ∀ m', w.store.getMessage m.id = some m' →
    ¬ (m'.body = m.body ∧ m'.keyEpoch = m.keyEpoch)

/-- `postSealedMessage` wrote the body, which is the client's ciphertext under its key epoch. -/
def UseCase.Seals (u : UseCase) (m : Message) : Prop :=
  ∃ handle serverSlug channelName ciphertext keyEpoch parent,
    u = .op (.postSealedMessage handle serverSlug channelName ciphertext keyEpoch parent) ∧
    m.body = trim ciphertext ∧ m.keyEpoch = some keyEpoch

/-- `enableChannelEncryption` succeeds on the channel. -/
def UseCase.Enables (w : World) (u : UseCase) (id : ChannelId) : Prop :=
  ∃ handle serverSlug channelName historyMode server x,
    u = .enableChannelEncryption handle serverSlug channelName historyMode ∧
    ((Democrachat.enableChannelEncryption handle serverSlug channelName historyMode).exec w).1 =
      .ok () ∧
    w.store.findBySlug (trim serverSlug) = some server ∧
    w.store.findByName server.id (normalizeChannelName channelName) = some x ∧ x.id = id

/-- Bodies come sealed, those of messages with a key epoch and those of any message of a
channel on which encryption was enabled before. -/
def EndToEnd (services : Services) (start : World) (us : List UseCase) : Prop :=
  ∀ pre u post, us = pre ++ u :: post → ∀ m,
    Rewrites (services.serveAll start pre) (services.serveAll start (pre ++ [u])) m →
    (m.keyEpoch.isSome ∨ ∃ pre' v later, pre = pre' ++ v :: later ∧
      v.Enables (services.serveAll start pre') m.channelId) → u.Seals m

/-- The request edits a message of an encrypted channel in its author's name to another
text, and not to a blank. -/
def UseCase.leaks (w : World) : UseCase → Bool
  | .op (.editMessage handle messageId body) =>
    !(trim body).isEmpty && (w.store.findByHandle (trim handle)).any (fun user =>
      (w.store.getMessage messageId).any (fun m => m.author == user.id && m.body != trim body &&
        (w.store.getChannel m.channelId).any (·.isEncrypted)))
  | _ => false

theorem UseCase.leaks_iff {w : World} {u : UseCase} :
    u.leaks w = true ↔ ∃ handle messageId body m, u = .op (.editMessage handle messageId body) ∧
      Authors w handle messageId m ∧ (trim body).isEmpty = false ∧ m.body ≠ trim body ∧
      w.polity.Encrypted m.channelId := by
  constructor
  · intro h
    unfold leaks at h
    split at h
    next handle messageId body =>
      simp only [Bool.and_assoc] at h
      rw [Bool.and_eq_true, Bool.not_eq_true', any_author_iff] at h
      obtain ⟨hbody, user, m, hauthors, -, -, hleaks⟩ := h
      rw [Bool.and_eq_true, bne_iff_ne, Option.any_eq_true] at hleaks
      exact ⟨handle, messageId, body, m, rfl, hauthors, hbody, hleaks⟩
    next => cases h
  · rintro ⟨handle, messageId, body, m, rfl, hauthors, hbody, hleaks⟩
    obtain ⟨user, huser, hauthor⟩ := hauthors.caller
    simp only [leaks, Bool.and_assoc]
    rw [Bool.and_eq_true, Bool.not_eq_true', any_author_iff]
    refine ⟨hbody, user, m, hauthors, huser, hauthor, ?_⟩
    rw [Bool.and_eq_true, bne_iff_ne, Option.any_eq_true]
    exact hleaks

theorem Encrypts.enables {w : World} {handle serverSlug channelName : String} {server : Server}
    {x : Channel} (h : Encrypts w handle serverSlug channelName server x)
    (historyMode : HistoryMode) :
    (UseCase.enableChannelEncryption handle serverSlug channelName historyMode).Enables w x.id := by
  refine ⟨handle, serverSlug, channelName, historyMode, server, x, rfl, ?_, h.serverFound,
    h.channelFound, rfl⟩
  obtain ⟨user, m, huser, hm, hfranchised⟩ := h.byCitizen
  simp only [Democrachat.enableChannelEncryption, req_ask_bind, Req.exec_okOr_bind, Req.exec_liftM,
    exec_write, huser, h.serverFound, hm, Option.filter_some, hfranchised, if_true, h.channelFound]

section Steps

variable {services : Services} {w : World}

/-- The identifier is a channel's, encrypted as long as it is there. -/
abbrev Sealed (w : World) (id : ChannelId) : Prop := Slot (·.isEncrypted = true) id w.polity

theorem Sealed.serve {id : ChannelId} (h : Sealed w id) (u : UseCase) :
    Sealed (services.serve w u) id :=
  Slot.serve (fun _ _ _ => rfl) h services u

theorem Sealed.serveAll {id : ChannelId} (h : Sealed w id) (us : List UseCase) :
    Sealed (services.serveAll w us) id := by
  induction us generalizing w with
  | nil => exact h
  | cons u us ih => exact ih (h.serve u)

theorem sealed_of_encrypted (hw : services.Served w) {id : ChannelId}
    (h : w.polity.Encrypted id) : Sealed w id := by
  obtain ⟨x, hx, hencrypted⟩ := h
  have hminted := hw.messagesPlaced.channels x (Table.mem_of_get hx)
  rw [show x.id = id from Table.key_of_get hx] at hminted
  refine ⟨hminted, fun y hy => ?_⟩
  obtain rfl := Option.some.inj (hx.symm.trans hy)
  exact hencrypted

theorem UseCase.Enables.encrypted {u : UseCase} {id : ChannelId} (h : u.Enables w id) :
    (services.serve w u).polity.Encrypted id := by
  obtain ⟨handle, serverSlug, channelName, historyMode, server, x, rfl, hok, hserver, hx, rfl⟩ := h
  rcases enableChannelEncryption_cases w handle serverSlug channelName historyMode with
    ⟨e, herror⟩ | ⟨server', x', hencrypts, hexec⟩
  · rw [herror] at hok
    cases hok
  obtain rfl := Option.some.inj (hserver.symm.trans hencrypts.serverFound)
  obtain rfl := Option.some.inj (hx.symm.trans hencrypts.channelFound)
  rw [Services.serve, hexec]
  exact ⟨_, w.polity.encrypt_get_self x historyMode, rfl⟩

/-- A message with a key epoch stands in an encrypted channel. -/
theorem Services.Served.keyed (hw : services.Served w) {id : MessageId} {m : Message}
    (hm : w.store.getMessage id = some m) (hkey : m.keyEpoch.isSome) : Sealed w m.channelId := by
  revert id m
  refine hw.invariant (I := fun w => ∀ {id : MessageId} {m : Message},
    w.store.getMessage id = some m → m.keyEpoch.isSome → Sealed w m.channelId)
    (fun _ _ _ _ hm => nomatch hm) ?_
  intro w u hw ih id m hm hkey
  refine Sealed.serve ?_ u
  have hfate := hw.fate u id
  generalize services.serve w u = w' at hfate hm
  cases hfate with
  | same hget => exact ih (hget.symm.trans hm) hkey
  | plain _ hdrafts _ _ hget =>
    obtain rfl := Option.some.inj (hget.symm.trans hm)
    obtain ⟨_, _, _, _, _, rfl⟩ := hdrafts.made
    cases hkey
  | sealed_ hmay hencrypted _ _ hget =>
    obtain rfl := Option.some.inj (hget.symm.trans hm)
    exact sealed_of_encrypted hw ⟨_, hmay.channelFound, hencrypted⟩
  | edited hauthors _ hget =>
    obtain rfl := Option.some.inj (hget.symm.trans hm)
    have hold := ih hauthors.found hkey
    exact hold
  | deleted hauthors hget =>
    obtain rfl := Option.some.inj (hget.symm.trans hm)
    have hold := ih hauthors.found hkey
    exact hold
  | lost _ _ hget _ => cases hget.symm.trans hm

/-- What is rewritten where everything is encrypted is sealed or leaks. -/
theorem seals_of_rewrites (hw : services.Served w) {u : UseCase} {m : Message}
    (hrewrites : Rewrites w (services.serve w u) m)
    (hsealed : m.keyEpoch.isSome ∨ Sealed w m.channelId) (hu : u.leaks w = false) : u.Seals m := by
  have hfate := hw.fate u m.id
  obtain ⟨hm, hbody, hchanged⟩ := hrewrites
  generalize services.serve w u = w' at hfate hm
  cases hfate with
  | same hget => exact absurd ⟨rfl, rfl⟩ (hchanged m (hget.symm.trans hm))
  | plain _ hdrafts _ _ hget =>
    obtain rfl := Option.some.inj (hget.symm.trans hm)
    obtain ⟨_, channel, _, hmay, hplain, rfl⟩ := hdrafts.made
    rcases hsealed with hkey | hsealed
    · cases hkey
    · cases hplain.symm.trans (hsealed.holds channel hmay.channelFound)
  | sealed_ _ _ _ _ hget =>
    obtain rfl := Option.some.inj (hget.symm.trans hm)
    exact ⟨_, _, _, _, _, _, rfl, rfl, rfl⟩
  | edited hauthors hblank hget =>
    obtain rfl := Option.some.inj (hget.symm.trans hm)
    obtain ⟨x, hx, -⟩ := hw.messagesPlaced.messages _ (Table.mem_of_get hauthors.found)
    have hold := hw.keyed hauthors.found
    have hsealed := hsealed.elim hold id
    have hleaks := UseCase.leaks_iff.2 ⟨_, _, _, _, rfl, hauthors, hblank,
      fun hsame => hchanged _ hauthors.found ⟨hsame, rfl⟩, x, hx, hsealed.holds x hx⟩
    cases hu.symm.trans hleaks
  | deleted _ hget =>
    obtain rfl := Option.some.inj (hget.symm.trans hm)
    exact absurd rfl hbody
  | lost _ _ hget _ => cases hget.symm.trans hm

end Steps

/-! ## Whole runs -/

section Runs

variable (services : Services) (node : NodeId) (now : Timestamp)

/-- An encrypted channel was made one by a request of the run. -/
theorem enabled_of_encrypted {us : List UseCase} {id : ChannelId}
    (h : (services.serveAll (.empty node now) us).polity.Encrypted id) :
    ∃ pre v later, us = pre ++ v :: later ∧
      v.Enables (services.serveAll (.empty node now) pre) id := by
  obtain ⟨pre, v, later, rfl, hbefore, hafter⟩ := exists_step
    (I := fun w : World => w.polity.Encrypted id) (by rintro ⟨_, hnone, -⟩; cases hnone) h
  rcases services.encrypted_serve hafter with hthen |
    ⟨_, _, _, historyMode, _, x, rfl, hencrypts, rfl⟩
  · exact absurd hthen hbefore
  · exact ⟨pre, _, later, rfl, hencrypts.enables historyMode⟩

theorem EndToEnd.never {us : List UseCase} (hsealed : EndToEnd services (.empty node now) us) :
    Along services.serve (fun w u => u.leaks w = false) (.empty node now) us := by
  rw [along_iff]
  rintro pre u post rfl
  refine Bool.eq_false_iff.2 (fun hleaks => ?_)
  obtain ⟨handle, id, body, m, rfl, hauthors, hbody, hother, hencrypted⟩ :=
    UseCase.leaks_iff.1 hleaks
  obtain rfl := hauthors.id
  have hedited := serve_edit services hauthors hbody
  have hrewrites : Rewrites (services.serveAll (.empty node now) pre) (services.serveAll
      (.empty node now) (pre ++ [.op (.editMessage handle m.id body)]))
      (m.edit (trim body) (services.serveAll (.empty node now) pre).now) := by
    rw [services.serveAll_concat]
    refine ⟨hedited, fun hblank => ?_, fun m' hm' => ?_⟩
    · rw [show trim body = "" from hblank] at hbody
      cases hbody
    · obtain rfl := Option.some.inj (hauthors.found.symm.trans hm')
      exact fun hsame => hother hsame.1
  obtain ⟨_, _, _, _, _, _, hseals, -⟩ :=
    hsealed pre _ post rfl _ hrewrites (.inr (enabled_of_encrypted services node now hencrypted))
  cases hseals

theorem endToEnd_of_never {us : List UseCase}
    (hnever : Along services.serve (fun w u => u.leaks w = false) (.empty node now) us) :
    EndToEnd services (.empty node now) us := by
  rintro pre u post rfl m hrewrites hkeyed
  have hserved : services.Served (services.serveAll (.empty node now) pre) := ⟨node, now, pre, rfl⟩
  rw [services.serveAll_concat] at hrewrites
  refine seals_of_rewrites hserved hrewrites (hkeyed.imp id ?_) (along_append.1 hnever).2.1
  rintro ⟨pre', v, later, rfl, henables⟩
  have hthen : services.Served (services.serveAll (.empty node now) pre') := ⟨node, now, pre', rfl⟩
  rw [services.serveAll_append]
  exact (sealed_of_encrypted (hthen.serve v) henables.encrypted).serveAll later

/-- Encryption is never bypassed if, and only if, no author ever edits a message of an
encrypted channel. -/
theorem endToEnd_iff (us : List UseCase) :
    EndToEnd services (.empty node now) us ↔
      Along services.serve (fun w u => u.leaks w = false) (.empty node now) us :=
  ⟨EndToEnd.never services node now, endToEnd_of_never services node now⟩

end Runs

namespace Agora

/-- The channel is encrypted, and Zed corrects in the clear what he has said sealed. -/
def corrected : List UseCase :=
  [.op (.registerAccount "zed"), .op (.foundServer "zed" "Agora" false),
    .op (.createChannel "zed" "agora" "square" ""),
    .enableChannelEncryption "zed" "agora" "square" .open_,
    .op (.postSealedMessage "zed" "agora" "square" "c1f3" 0 none),
    .op (.editMessage "zed" (composeId 0 1) "hello")]

end Agora

theorem sealed_message_edited :
    ¬ EndToEnd Agora.services (.empty 0 (Agora.day 0)) Agora.corrected := by
  intro hsealed
  have hnever := EndToEnd.never Agora.services 0 (Agora.day 0) hsealed
  revert hnever
  decide +kernel

end Democrachat
