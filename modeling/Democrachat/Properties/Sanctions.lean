import Democrachat.Polity.Posting

/-!
# The silence of the sanctioned

Whoever is sanctioned in a server neither posts nor replies there; but `editMessage` does not
ask for a membership, and the author's earlier messages stay open to new words.
-/

namespace Democrachat

open Library

/-- The handle that a request is called with. -/
def UseCase.caller : UseCase → Option String
  | .op operation => operation.caller
  | .social (.sendSealedDm handle _ _ _) | .social (.blockUser handle _) |
    .social (.requestFriend handle _) | .social (.acceptFriend handle _) |
    .setDmPolicy handle _ | .publishKeys handle _ _ | .enableChannelEncryption handle _ _ _ |
    .grantChannelKey handle _ _ _ _ _ | .addEmoji handle _ _ _ | .voteEmoji handle _ _ _ =>
    some handle
  | .sendSealedDmById .. | .blockUserById .. | .requestFriendById .. | .acceptFriendById .. => none

/-- The handle is that of a sanctioned member of the server. -/
def World.Sanctioned (w : World) (handle : String) (sid : ServerId) : Prop :=
  ∃ user m, w.store.findByHandle (trim handle) = some user ∧
    w.store.getMembership user.id sid = some m ∧ m.isSanctioned = true

/-- A message of the server is new, or has a new body that is not empty. -/
def SpeaksUp (w w' : World) (sid : ServerId) : Prop :=
  ∃ m, w'.store.getMessage m.id = some m ∧ m.serverId = sid ∧
    (w.store.getMessage m.id = none ∨
      m.body ≠ "" ∧ ∀ m', w.store.getMessage m.id = some m' → m'.body ≠ m.body)

/-- Nobody speaks up through a request in the name of a sanctioned member. -/
def SanctionedSilent (services : Services) (start : World) (us : List UseCase) : Prop :=
  ∀ pre u post, us = pre ++ u :: post → ∀ handle, u.caller = some handle → ∀ sid,
    (services.serveAll start pre).Sanctioned handle sid →
      ¬ SpeaksUp (services.serveAll start pre) (services.serveAll start (pre ++ [u])) sid

/-- The request edits a message of a server in which its author is sanctioned to another text,
and not to a blank. -/
def UseCase.defies (w : World) : UseCase → Bool
  | .op (.editMessage handle messageId body) =>
    !(trim body).isEmpty && (w.store.findByHandle (trim handle)).any (fun user =>
      (w.store.getMessage messageId).any (fun m => m.author == user.id && m.body != trim body &&
        (w.store.getMembership user.id m.serverId).any (·.isSanctioned)))
  | _ => false

theorem UseCase.defies_iff {w : World} {u : UseCase} :
    u.defies w = true ↔ ∃ handle messageId body m, u = .op (.editMessage handle messageId body) ∧
      Authors w handle messageId m ∧ (trim body).isEmpty = false ∧ m.body ≠ trim body ∧
      w.Sanctioned handle m.serverId := by
  constructor
  · intro h
    unfold defies at h
    split at h
    next handle messageId body =>
      simp only [Bool.and_assoc] at h
      rw [Bool.and_eq_true, Bool.not_eq_true', any_author_iff] at h
      obtain ⟨hbody, user, m, hauthors, huser, -, hdefies⟩ := h
      rw [Bool.and_eq_true, bne_iff_ne, Option.any_eq_true] at hdefies
      obtain ⟨hother, member, hmember, hsanctioned⟩ := hdefies
      exact ⟨handle, messageId, body, m, rfl, hauthors, hbody, hother, user, member, huser, hmember,
        hsanctioned⟩
    next => cases h
  · rintro ⟨handle, messageId, body, m, rfl, hauthors, hbody, hother, user, member, huser, hmember,
      hsanctioned⟩
    obtain ⟨user', huser', hauthor⟩ := hauthors.caller
    obtain rfl := Option.some.inj (huser.symm.trans huser')
    simp only [defies, Bool.and_assoc]
    rw [Bool.and_eq_true, Bool.not_eq_true', any_author_iff]
    refine ⟨hbody, user, m, hauthors, huser, hauthor, ?_⟩
    rw [Bool.and_eq_true, bne_iff_ne, Option.any_eq_true]
    exact ⟨hother, member, hmember, hsanctioned⟩

section Steps

variable {services : Services} {w : World}

theorem MayPost.not_sanctioned {handle : String} {channel : Channel} {author : UserId}
    (h : MayPost w handle channel author) : ¬ w.Sanctioned handle channel.serverId := by
  rintro ⟨user, m, huser, hm, hsanctioned⟩
  obtain ⟨user', huser', rfl⟩ := h.caller
  obtain rfl := Option.some.inj (huser.symm.trans huser')
  obtain ⟨m', hm', hfree⟩ := h.member
  obtain rfl := Option.some.inj (hm.symm.trans hm')
  cases hsanctioned.symm.trans hfree

theorem defies_of_speaksUp (hw : services.Served w) {u : UseCase} {handle : String}
    (hcaller : u.caller = some handle) {sid : ServerId} (hsanctioned : w.Sanctioned handle sid)
    (hspeaks : SpeaksUp w (services.serve w u) sid) : u.defies w = true := by
  obtain ⟨m, hm, hserver, hnew⟩ := hspeaks
  have hfate := hw.fate u m.id
  generalize services.serve w u = w' at hfate hm
  cases hfate with
  | same hget =>
    rcases hnew with hnone | ⟨-, hchanged⟩
    · cases hnone.symm.trans (hget.symm.trans hm)
    · exact absurd rfl (hchanged m (hget.symm.trans hm))
  | plain hhandle hdrafts _ _ hget =>
    obtain rfl := Option.some.inj (hget.symm.trans hm)
    obtain rfl := Option.some.inj (hcaller.symm.trans hhandle)
    obtain ⟨_, channel, _, hmay, -, rfl⟩ := hdrafts.made
    have hplace : channel.serverId = sid := hserver
    exact absurd (hplace ▸ hsanctioned) hmay.not_sanctioned
  | @sealed_ _ _ _ _ _ _ _ channel _ hmay _ _ _ hget =>
    obtain rfl := Option.some.inj (hget.symm.trans hm)
    obtain rfl := Option.some.inj hcaller
    have hplace : channel.serverId = sid := hserver
    exact absurd (hplace ▸ hsanctioned) hmay.not_sanctioned
  | @edited _ _ m₀ hauthors hbody hget =>
    obtain rfl := Option.some.inj (hget.symm.trans hm)
    obtain rfl := Option.some.inj hcaller
    have hplace : m₀.serverId = sid := hserver
    rcases hnew with hnone | ⟨-, hchanged⟩
    · cases hnone.symm.trans hauthors.found
    · exact UseCase.defies_iff.2 ⟨_, _, _, _, rfl, hauthors, hbody, hchanged _ hauthors.found,
        hplace ▸ hsanctioned⟩
  | deleted hauthors hget =>
    obtain rfl := Option.some.inj (hget.symm.trans hm)
    rcases hnew with hnone | ⟨hbody, -⟩
    · cases hnone.symm.trans hauthors.found
    · exact absurd rfl hbody
  | lost _ _ hget _ => cases hget.symm.trans hm

theorem speaksUp_of_defies {u : UseCase} (h : u.defies w = true) :
    ∃ handle sid, u.caller = some handle ∧ w.Sanctioned handle sid ∧
      SpeaksUp w (services.serve w u) sid := by
  obtain ⟨handle, id, body, m, rfl, hauthors, hbody, hother, hsanctioned⟩ :=
    UseCase.defies_iff.1 h
  obtain rfl := hauthors.id
  refine ⟨handle, m.serverId, rfl, hsanctioned, m.edit (trim body) w.now,
    serve_edit services hauthors hbody, rfl, .inr ⟨fun hblank => ?_, fun m' hm' => ?_⟩⟩
  · rw [show trim body = "" from hblank] at hbody
    cases hbody
  · obtain rfl := Option.some.inj (hauthors.found.symm.trans hm')
    exact hother

end Steps

section Runs

variable (services : Services) (node : NodeId) (now : Timestamp)

theorem SanctionedSilent.never {us : List UseCase}
    (hsilent : SanctionedSilent services (.empty node now) us) :
    Along services.serve (fun w u => u.defies w = false) (.empty node now) us := by
  rw [along_iff]
  rintro pre u post rfl
  refine Bool.eq_false_iff.2 (fun hdefies => ?_)
  obtain ⟨handle, sid, hcaller, hsanctioned, hspeaks⟩ := speaksUp_of_defies hdefies
  have hsilence := hsilent pre u post rfl handle hcaller sid hsanctioned
  rw [services.serveAll_concat] at hsilence
  exact hsilence hspeaks

/-- The sanctioned are silent if, and only if, none of them edits a message of the server. -/
theorem sanctioned_silent_iff (us : List UseCase) :
    SanctionedSilent services (.empty node now) us ↔
      Along services.serve (fun w u => u.defies w = false) (.empty node now) us := by
  refine ⟨SanctionedSilent.never services node now, ?_⟩
  rintro hnever pre u post rfl handle hcaller sid hsanctioned hspeaks
  rw [services.serveAll_concat] at hspeaks
  have hserved : services.Served (services.serveAll (.empty node now) pre) := ⟨node, now, pre, rfl⟩
  have hdefies := defies_of_speaksUp hserved hcaller hsanctioned hspeaks
  cases hdefies.symm.trans (along_append.1 hnever).2.1

end Runs

namespace Agora

/-- Eve says a word, and is banned. -/
def outspoken : List Op :=
  founding ++ [.registerAccount "eve", .joinServer "eve" "agora",
    .createChannel "zed" "agora" "square" "", .postMessage "eve" "agora" "square" "hi",
    .openProposal "zed" "agora" (.ban (composeId 0 2)), .castVote "zed" (composeId 0 1) true,
    .setClock (day 3), .resolveDue "agora"]

/-- She has the last word. -/
def defiant : List UseCase :=
  outspoken.map .op ++ [.op (.editMessage "eve" (composeId 0 1) "vote no")]

end Agora

theorem sanctioned_member_speaks :
    ¬ SanctionedSilent Agora.services (.empty 0 (Agora.day 0)) Agora.defiant := by
  intro hsilent
  have hnever := SanctionedSilent.never Agora.services 0 (Agora.day 0) hsilent
  revert hnever
  decide +kernel

end Democrachat
