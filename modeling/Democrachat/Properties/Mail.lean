import Democrachat.Domain.NormalForms
import Democrachat.Properties.AtRest
import Democrachat.Properties.Enrolment

/-!
# Addresses under seal

A node that has an email key stores every address sealed.  What it opens again, to compare a new
address with those that it has or to send a token once more, is what the account was registered
with.
-/

namespace Democrachat

open Library Library.Utf8 Req

/-! ## Whose addresses they are -/

section

variable (services : Services)

/-- The addresses of a run, by account, in the order in which they were registered. -/
def Services.mailboxes : World → List UseCase → List (UserId × String)
  | _, [] => []
  | w, u :: us => (u.mailbox? services w).toList ++ mailboxes (services.serve w u) us

theorem mailboxes_concat (w : World) (us : List UseCase) (u : UseCase) :
    services.mailboxes w (us ++ [u]) =
      services.mailboxes w us ++ (u.mailbox? services (services.serveAll w us)).toList := by
  induction us generalizing w with
  | nil => simp [Services.mailboxes, Services.serveAll]
  | cons v us ih =>
    rw [List.cons_append, Services.mailboxes, Services.mailboxes, ih, List.append_assoc]
    rfl

/-- Two accounts share neither their address nor themselves. -/
def Unshared (a b : UserId × String) : Prop :=
  a.1 ≠ b.1 ∧ normalizeEmail a.2 ≠ normalizeEmail b.2

/-- The node knows the address of every account that has one, and no address twice. -/
structure Services.Addressed (w : World) (boxes : List (UserId × String)) : Prop where
  known : ∀ user ∈ w.store.users.rows, user.emailEnc.isEmpty = false →
    ∃ email, (user.id, email) ∈ boxes ∧ services.openEmail user.emailEnc = some email
  stored : ∀ box ∈ boxes, ∃ user ∈ w.store.users.rows, user.id = box.1 ∧
    user.emailEnc.isEmpty = false ∧ services.openEmail user.emailEnc = some box.2
  unshared : boxes.Pairwise Unshared
  enrolled : w.Enrolled

section

variable {services} {w w' : World} {boxes : List (UserId × String)}

theorem addressed_empty (node : NodeId) (now : Timestamp) :
    services.Addressed (.empty node now) [] where
  known := by
    intro user huser
    cases huser
  stored := by
    intro box hbox
    cases hbox
  unshared := .nil
  enrolled := .empty node now

namespace Services.Addressed

variable (h : services.Addressed w boxes)

include h

theorem same (hsame : SamePeople w.store.users w'.store.users)
    (hcount : CountsOn w.store w'.store) : services.Addressed w' boxes where
  known := by
    intro v' hv' hmail
    obtain ⟨v, hv, hperson⟩ := hsame.back v' hv'
    rw [hperson.emailEnc] at hmail ⊢
    rw [hperson.id]
    exact h.known v hv hmail
  stored := by
    intro box hbox
    obtain ⟨v, hv, hid, hmail, hopen⟩ := h.stored box hbox
    obtain ⟨v', hv', hperson⟩ := hsame.forth v hv
    refine ⟨v', hv', hperson.id.trans hid, ?_, ?_⟩
    · rw [hperson.emailEnc]
      exact hmail
    · rw [hperson.emailEnc]
      exact hopen
  unshared := h.unshared
  enrolled := h.enrolled.same hsame hcount

theorem joins {handle : String} {user : User} {box? : Option (UserId × String)}
    (hjoins : w.Joins w' handle user) (hnone : box? = none → user.emailEnc.isEmpty = true)
    (hsome : ∀ box ∈ box?, box.1 = user.id ∧ user.emailEnc.isEmpty = false ∧
      services.openEmail user.emailEnc = some box.2 ∧
      ∀ b ∈ boxes, normalizeEmail b.2 ≠ normalizeEmail box.2) :
    services.Addressed w' (boxes ++ box?.toList) where
  known := by
    intro v hv hmail
    rw [hjoins.users] at hv
    rcases Table.mem_insert.1 hv with rfl | ⟨hv, -⟩
    · cases hbox : box? with
      | none =>
        rw [hnone hbox] at hmail
        cases hmail
      | some box =>
        obtain ⟨hboxid, -, hopen, -⟩ := hsome box hbox
        refine ⟨box.2, ?_, hopen⟩
        rw [← hboxid]
        exact List.mem_append_right boxes (List.mem_singleton.2 rfl)
    · obtain ⟨email, hmem, hopen⟩ := h.known v hv hmail
      exact ⟨email, List.mem_append_left _ hmem, hopen⟩
  stored := by
    intro box hbox
    rcases List.mem_append.1 hbox with hbox | hbox
    · obtain ⟨v, hv, hrest⟩ := h.stored box hbox
      exact ⟨v, h.enrolled.mem_of_joins hjoins hv, hrest⟩
    · obtain ⟨hboxid, hmail, hopen, -⟩ := hsome box (Option.mem_toList.1 hbox)
      refine ⟨user, ?_, hboxid.symm, hmail, hopen⟩
      rw [hjoins.users]
      exact Table.mem_insert.2 (.inl rfl)
  unshared := by
    refine List.pairwise_append.2 ⟨h.unshared, ?_, ?_⟩
    · cases box? with
      | none => exact .nil
      | some box => exact List.pairwise_singleton _ box
    · intro b hb box hbox
      obtain ⟨hboxid, -, -, hnormal⟩ := hsome box (Option.mem_toList.1 hbox)
      obtain ⟨v, hv, hvid, -⟩ := h.stored b hb
      refine ⟨?_, hnormal b hb⟩
      rw [hboxid, ← hvid]
      exact h.enrolled.id_ne hjoins v hv
  enrolled := h.enrolled.joins hjoins

end Services.Addressed

end

end

/-! ## Runs under a key -/

/-- The services of a node that has an email key. -/
def Services.withEmailKey (services : Services) (vault : Vault) (key : VaultKey) : Services :=
  { services with
    hasEmailKey := true
    openEmail := fun blob => (vault.openEmail key blob).toOption }

/-- What a registration draws is the address that it is told, sealed. -/
def UseCase.SealsUnder (vault : Vault) (key : VaultKey) : UseCase → Prop
  | .op (.registerWithPassword drawn _ email _) =>
    ∃ draw, drawn.sealedEmail = vault.sealEmail draw key (trim email)
  | _ => True

section

variable {services : Services} {vault : Vault} {key : VaultKey} {w : World}
  {boxes : List (UserId × String)}

/-- An address that no stored one opens to is new among those registered. -/
theorem Services.Addressed.unused (h : services.Addressed w boxes) {email : String}
    (hunused : services.emailClash w.store.listUsers email = false) :
    ∀ b ∈ boxes, normalizeEmail b.2 ≠ normalizeEmail email := by
  intro b hb hsame
  obtain ⟨user, huser, -, hmail, hopen⟩ := h.stored b hb
  rw [Services.emailClash, List.any_eq_false] at hunused
  refine hunused user (List.mem_filter.2 ⟨huser, ?_⟩) ?_
  · rw [hmail]
    rfl
  · rw [hopen]
    simp [hsame]

theorem Vault.sealEmail_ne_empty (hvault : vault.Lawful)
    (hblank : ∃ reason, vault.parse "" = .error reason) (draw : SealDraw) (key : VaultKey)
    (email : String) : (vault.sealEmail draw key email).isEmpty = false := by
  obtain ⟨reason, hreason⟩ := hblank
  rw [← Bool.not_eq_true, String.isEmpty_iff]
  intro hempty
  have hparse := hvault.readsBack draw key (asBytes email)
  rw [show vault.render (vault.vaultSeal draw key (asBytes email)) = "" from hempty, hreason] at hparse
  cases hparse

theorem normalizeEmail_trim (email : String) : normalizeEmail (trim email) = normalizeEmail email := by
  rw [normalizeEmail, trim_trim, normalizeEmail]

theorem Services.Addressed.serve (hvault : vault.Lawful)
    (hblank : ∃ reason, vault.parse "" = .error reason)
    (h : (services.withEmailKey vault key).Addressed w boxes) {u : UseCase}
    (hu : u.SealsUnder vault key) :
    (services.withEmailKey vault key).Addressed ((services.withEmailKey vault key).serve w u)
      (boxes ++ (u.mailbox? (services.withEmailKey vault key) w).toList) := by
  have hcount := (services.withEmailKey vault key).serve_common (common_countsOn u.parts) w
  have hrolls := rolls_serve (services.withEmailKey vault key) w u
  generalize u.mailbox? (services.withEmailKey vault key) w = box? at hrolls ⊢
  generalize (services.withEmailKey vault key).serve w u = w' at hcount hrolls ⊢
  cases hrolls with
  | same _ hsame =>
    rw [Option.toList_none, List.append_nil]
    exact h.same hsame hcount
  | named hjoins hemail =>
    apply h.joins hjoins
    · intro _
      rw [hemail]
      rfl
    · intro box hbox
      cases hbox
  | @mailed drawn handle email password user hjoins hadmits =>
    obtain ⟨draw, hdrawn⟩ := hu
    have hstored : user.emailEnc = vault.sealEmail draw key (trim email) := by
      rw [hadmits.emailEnc_eq, ← hdrawn]
      rfl
    apply h.joins hjoins
    · intro hnone
      cases hnone
    · rintro box ⟨⟩
      refine ⟨rfl, ?_, ?_, ?_⟩
      · rw [hstored]
        exact Vault.sealEmail_ne_empty hvault hblank draw key (trim email)
      · rw [hstored]
        exact congrArg Except.toOption (Vault.openEmail_sealEmail hvault draw key (trim email))
      · rw [normalizeEmail_trim]
        exact h.unused hadmits.unused

theorem addressed_serveAll (hvault : vault.Lawful)
    (hblank : ∃ reason, vault.parse "" = .error reason) (node : NodeId) (now : Timestamp)
    {us : List UseCase} (hus : ∀ u ∈ us, u.SealsUnder vault key) :
    (services.withEmailKey vault key).Addressed
      ((services.withEmailKey vault key).serveAll (.empty node now) us)
      ((services.withEmailKey vault key).mailboxes (.empty node now) us) := by
  induction us using List.reverseRecOn with
  | nil => exact addressed_empty node now
  | append_singleton us u ih =>
    obtain ⟨hus, hu⟩ := List.forall_mem_append.1 hus
    rw [Services.serveAll_concat, mailboxes_concat]
    exact (ih hus).serve hvault hblank (hu u (List.mem_singleton.2 rfl))

/-- A token goes out once more to an account that waits for it, at the address it opens. -/
theorem issueResend_target {drawn : Drawn} {handle : String} {target : ResendTarget}
    (h : ((services.issueResend drawn handle).exec w).1 = .ok target) :
    ∃ user ∈ w.store.users.rows, user.handle = trim handle ∧ user.emailEnc.isEmpty = false ∧
      services.openEmail user.emailEnc = some target.email := by
  simp only [Services.issueResend, exec_ensure_bind, req_ask_bind, exec_okOr_bind,
    req_clockNow_bind, req_write_bind] at h
  split at h
  next =>
    split at h
    next =>
      cases hfound : w.store.findByHandle (trim handle) with
      | none =>
        rw [hfound] at h
        cases h
      | some user =>
        rw [hfound] at h
        dsimp only at h
        split at h
        next hpending =>
          cases hopen : services.openEmail user.emailEnc with
          | none =>
            rw [hopen] at h
            cases h
          | some email =>
            rw [hopen] at h
            obtain rfl := Except.ok.inj h
            have hmail : user.emailEnc.isEmpty = false := by
              cases hempty : user.emailEnc.isEmpty with
              | false => rfl
              | true => simp [hempty] at hpending
            exact ⟨user, List.mem_of_find?_eq_some hfound, by simpa using List.find?_some hfound,
              hmail, hopen⟩
        next => cases h
    next => cases h
  next => cases h

/-- What the services of the node know of the addresses. -/
structure Services.MailSafe (services : Services) (w : World) (boxes : List (UserId × String)) :
    Prop where
  /-- No account has two addresses, and no address two accounts. -/
  unshared : boxes.Pairwise Unshared
  handles : w.store.users.Apart (fun u v => u.handle = v.handle)
  /-- An account's sealed address opens to the one that it was registered with. -/
  opens : ∀ user ∈ w.store.users.rows, ∀ email,
    (user.id, email) ∈ boxes ↔
      user.emailEnc.isEmpty = false ∧ services.openEmail user.emailEnc = some email
  /-- A token is sent nowhere else. -/
  resends : ∀ (drawn : Drawn) (handle : String) (target : ResendTarget),
    ((services.issueResend drawn handle).exec w).1 = .ok target →
      ∃ user ∈ w.store.users.rows, user.handle = trim handle ∧ (user.id, target.email) ∈ boxes

theorem Services.Addressed.mailSafe (h : services.Addressed w boxes) :
    services.MailSafe w boxes where
  unshared := h.unshared
  handles := h.enrolled.handles
  opens := by
    intro user huser email
    constructor
    · intro hbox
      obtain ⟨v, hv, hid, hmail, hopen⟩ := h.stored _ hbox
      obtain rfl := Table.eq_of_key hv huser hid
      exact ⟨hmail, hopen⟩
    · rintro ⟨hmail, hopen⟩
      obtain ⟨email', hbox, hopen'⟩ := h.known user huser hmail
      rw [hopen] at hopen'
      rw [Option.some.inj hopen']
      exact hbox
  resends := by
    intro drawn handle target hresend
    obtain ⟨user, huser, hhandle, hmail, hopen⟩ := issueResend_target hresend
    obtain ⟨email, hbox, hopen'⟩ := h.known user huser hmail
    rw [hopen] at hopen'
    refine ⟨user, huser, hhandle, ?_⟩
    rw [Option.some.inj hopen']
    exact hbox

/-- Whatever a node with an email key is asked for, in whichever order. -/
theorem mail_goes_home (services : Services) (hvault : vault.Lawful)
    (hblank : ∃ reason, vault.parse "" = .error reason) (key : VaultKey) (node : NodeId)
    (now : Timestamp) (us : List UseCase) (hus : ∀ u ∈ us, u.SealsUnder vault key) :
    (services.withEmailKey vault key).MailSafe
      ((services.withEmailKey vault key).serveAll (.empty node now) us)
      ((services.withEmailKey vault key).mailboxes (.empty node now) us) :=
  (addressed_serveAll hvault hblank node now hus).mailSafe

end

namespace Agora

def emailKey : VaultKey := ⟨⟨List.replicate 32 5, rfl⟩⟩

def mailDraw (email : String) : Drawn where
  passwordHash := some "phc"
  sealedEmail := vault.sealEmail draw emailKey email
  rawToken := "t"

/-- The second account asks for the address of the first, in capitals. -/
def signups : List UseCase :=
  [.op (.registerWithPassword (mailDraw "ada@agora.org") "ada" "ada@agora.org" "correct horse battery"),
    .op (.registerWithPassword (mailDraw "ADA@agora.org") "eve" " ADA@agora.org "
      "correct horse battery")]

theorem signups_mailSafe :
    (wary.withEmailKey vault emailKey).MailSafe
      ((wary.withEmailKey vault emailKey).serveAll (.empty 1 ⟨0⟩) signups)
      ((wary.withEmailKey vault emailKey).mailboxes (.empty 1 ⟨0⟩) signups) := by
  apply mail_goes_home wary lawful_vault
  · exact ⟨"not an envelope", by decide +kernel⟩
  · intro u hu
    simp only [signups, List.mem_cons, List.not_mem_nil, or_false] at hu
    rcases hu with rfl | rfl
    · exact ⟨draw, rfl⟩
    · exact ⟨draw, congrArg (vault.sealEmail draw emailKey) (by decide +kernel)⟩

end Agora

end Democrachat
