import Democrachat.Properties.Verification
import Democrachat.System.Frames

/-!
# The accounts of a node

Accounts come in one by one, under ids that were never given before and handles that are free.
Afterwards they stay, with their id, their handle and their sealed address.
-/

namespace Democrachat

open Library Req

/-- No request of an account changes these. -/
structure SamePerson (user' user : User) : Prop where
  id : user'.id = user.id
  handle : user'.handle = user.handle
  emailEnc : user'.emailEnc = user.emailEnc

/-- The accounts are the same people as before. -/
structure SamePeople (t t' : Table User.id) : Prop where
  back : ∀ v' ∈ t'.rows, ∃ v ∈ t.rows, SamePerson v' v
  forth : ∀ v ∈ t.rows, ∃ v' ∈ t'.rows, SamePerson v' v

theorem SamePeople.refl (t : Table User.id) : SamePeople t t where
  back v hv := ⟨v, hv, rfl, rfl, rfl⟩
  forth v hv := ⟨v, hv, rfl, rfl, rfl⟩

theorem SamePeople.insert {t : Table User.id} {user user' : User} (huser : user ∈ t.rows)
    (hsame : SamePerson user' user) : SamePeople t (t.insert user') where
  back := by
    intro v' hv'
    rcases Table.mem_insert.1 hv' with rfl | ⟨hv', -⟩
    · exact ⟨user, huser, hsame⟩
    · exact ⟨v', hv', rfl, rfl, rfl⟩
  forth := by
    intro v hv
    by_cases hid : v.id = user'.id
    · have hvuser : v = user := Table.eq_of_key hv huser (hid.trans hsame.id)
      exact ⟨user', Table.mem_insert.2 (.inl rfl), hvuser ▸ hsame⟩
    · exact ⟨v, Table.mem_insert.2 (.inr ⟨hv, hid⟩), rfl, rfl, rfl⟩

/-- The account comes in under the next id, and its handle was free. -/
structure World.Joins (w w' : World) (handle : String) (user : User) : Prop where
  id_eq : user.id = composeId w.store.node (w.store.nextUser + 1)
  handle_eq : user.handle = handle
  free : w.store.findByHandle handle = none
  users : w'.store.users = w.store.users.insert user
  nextUser : w'.store.nextUser = w.store.nextUser + 1
  node : w'.store.node = w.store.node

/-- What a registration with a password has seen of the addresses before it stores its own. -/
structure Services.Admits (services : Services) (w : World) (drawn : Drawn) (email : String)
    (user : User) : Prop where
  emailEnc_eq : user.emailEnc = if services.hasEmailKey then drawn.sealedEmail else ""
  unused : (services.hasEmailKey && services.emailClash w.store.listUsers email) = false

section

variable (services : Services)

theorem registerWithPassword_admits (drawn : Drawn) (handle email password : String) (w : World) :
    (∃ e, (services.registerWithPassword drawn handle email password).exec w = (.error e, w)) ∨
      ∃ r w', (services.registerWithPassword drawn handle email password).exec w = (.ok r, w') ∧
        w.Joins w' (trim handle) r.user ∧ services.Admits w drawn email r.user := by
  simp only [Services.registerWithPassword, exec_ensure_bind, exec_orElse_bind, req_ask_bind,
    exec_sealNewEmail_bind, exec_okOr_bind, req_transact_bind, req_clockNow_bind,
    exec_newVerificationToken_bind, req_write_bind]
  by_cases hempty : (!(trim handle).isEmpty) = true
  · rw [if_pos hempty]
    cases validatePassword password with
    | error e => exact .inl ⟨_, rfl⟩
    | ok _ =>
      cases validateEmail email with
      | error e => exact .inl ⟨_, rfl⟩
      | ok _ =>
        dsimp only
        by_cases htaken : (w.store.findByHandle (trim handle)).isNone = true
        · rw [if_pos htaken]
          have hfree := Option.isNone_iff_eq_none.1 htaken
          by_cases hclash :
              (services.hasEmailKey && services.emailClash w.store.listUsers email) = true
          · rw [if_pos hclash]
            exact .inl ⟨_, rfl⟩
          · rw [if_neg hclash]
            have hunused := Bool.eq_false_iff.2 hclash
            cases drawn.passwordHash with
            | none => exact .inl ⟨_, rfl⟩
            | some hash =>
              right
              dsimp only
              by_cases hissues : services.issues = true
              · rw [if_pos hissues]
                exact ⟨_, _, rfl, ⟨rfl, rfl, hfree, rfl, rfl, rfl⟩, rfl, hunused⟩
              · rw [if_neg hissues]
                exact ⟨_, _, rfl, ⟨rfl, rfl, hfree, rfl, rfl, rfl⟩, rfl, hunused⟩
        · rw [if_neg htaken]
          exact .inl ⟨_, rfl⟩
  · rw [if_neg hempty]
    exact .inl ⟨_, rfl⟩

theorem registerAccount_cases (handle : String) (w : World) :
    (registerAccount handle).exec w = (((registerAccount handle).exec w).1, w) ∨
      ∃ user w', (registerAccount handle).exec w = (.ok user, w') ∧
        w.Joins w' (trim handle) user ∧ user.emailEnc = "" := by
  simp only [registerAccount, exec_ensure_bind, req_ask_bind, req_transact_bind,
    req_clockNow_bind, req_write_bind]
  by_cases hempty : (!(trim handle).isEmpty) = true
  · rw [if_pos hempty]
    by_cases htaken : (w.store.findByHandle (trim handle)).isNone = true
    · rw [if_pos htaken]
      exact .inr ⟨_, _, rfl, ⟨rfl, rfl, Option.isNone_iff_eq_none.1 htaken, rfl, rfl, rfl⟩, rfl⟩
    · rw [if_neg htaken]
      exact .inl rfl
  · rw [if_neg hempty]
    exact .inl rfl

/-- The account that the use-case creates with an address, and the address. -/
def UseCase.mailbox? (w : World) : UseCase → Option (UserId × String)
  | .op (.registerWithPassword drawn handle email password) =>
    match ((services.registerWithPassword drawn handle email password).exec w).1 with
    | .ok r => some (r.user.id, trim email)
    | .error _ => none
  | _ => none

/-- What becomes of the accounts, and of the addresses that they were registered with. -/
inductive Rolls (w w' : World) : UseCase → Option (UserId × String) → Prop
  | same (u : UseCase) : SamePeople w.store.users w'.store.users → Rolls w w' u none
  | named {handle : String} {user : User} : w.Joins w' (trim handle) user → user.emailEnc = "" →
      Rolls w w' (.op (.registerAccount handle)) none
  | mailed {drawn : Drawn} {handle email password : String} {user : User} :
      w.Joins w' (trim handle) user → services.Admits w drawn email user →
      Rolls w w' (.op (.registerWithPassword drawn handle email password))
        (some (user.id, trim email))

theorem rolls_serve (w : World) (u : UseCase) :
    Rolls services w (services.serve w u) u (u.mailbox? services w) := by
  by_cases hparts : u.parts.contains .accounts = true
  · cases u with
    | op op =>
      cases op with
      | registerAccount handle =>
        simp only [Services.serve, Services.step, UseCase.mailbox?]
        obtain hrun | ⟨user, w', hrun, hjoins, hemail⟩ :=
          registerAccount_cases handle w
        · rw [hrun]
          exact .same _ (.refl _)
        · rw [hrun]
          exact .named hjoins hemail
      | registerWithPassword drawn handle email password =>
        simp only [Services.serve, Services.step, UseCase.mailbox?]
        obtain ⟨e, hrun⟩ | ⟨r, w', hrun, hjoins, hadmits⟩ :=
          registerWithPassword_admits services drawn handle email password w
        · rw [hrun]
          exact .same _ (.refl _)
        · rw [hrun]
          exact .mailed hjoins hadmits
      | verifyEmail rawToken =>
        simp only [Services.serve, Services.step, UseCase.mailbox?]
        obtain hrun | ⟨t, user, -, -, huser, hrun⟩ := verifyEmail_cases services rawToken w
        · rw [hrun]
          exact .same _ (.refl _)
        · rw [hrun]
          exact .same _ (.insert (Table.mem_of_get huser) ⟨rfl, rfl, rfl⟩)
      | issueResend drawn handle =>
        simp only [Services.serve, Services.step, UseCase.mailbox?]
        obtain hrun | ⟨user, email, -, hrun⟩ := issueResend_cases services drawn handle w
        · rw [hrun]
          exact .same _ (.refl _)
        · rw [hrun]
          exact .same _ (.refl _)
      | setPassword drawn handle password =>
        simp only [Services.serve, Services.step, UseCase.mailbox?]
        obtain ⟨e, hrun⟩ | ⟨user, hash, hfound, hrun⟩ := setPassword_cases drawn handle password w
        · rw [hrun]
          exact .same _ (.refl _)
        · rw [hrun]
          exact .same _ (.insert (List.mem_of_find?_eq_some hfound) ⟨rfl, rfl, rfl⟩)
      | _ => cases hparts
    | setDmPolicy handle policy =>
      simp only [Services.serve, UseCase.mailbox?]
      obtain ⟨e, hrun⟩ | ⟨user, hfound, hrun⟩ := setDmPolicy_cases handle policy w
      · rw [hrun]
        exact .same _ (.refl _)
      · rw [hrun]
        exact .same _ (.insert (List.mem_of_find?_eq_some hfound) ⟨rfl, rfl, rfl⟩)
    | _ => cases hparts
  · have hmailbox : u.mailbox? services w = none := by
      cases u with
      | op op =>
        cases op with
        | registerWithPassword => exact absurd rfl hparts
        | _ => rfl
      | _ => rfl
    rw [hmailbox]
    have husers : (services.serve w u).store.users = w.store.users :=
      services.serve_common (common_users (Bool.eq_false_iff.2 hparts)) w
    apply Rolls.same
    rw [husers]
    exact .refl _

end

/-! ## Who they are -/

/-- Handles tell the accounts apart, and the node has counted past their ids. -/
structure World.Enrolled (w : World) : Prop where
  handles : w.store.users.Apart (fun u v => u.handle = v.handle)
  minted : ∀ user ∈ w.store.users.rows, user.id.node = w.store.node ∧
    user.id.sequence ≤ w.store.nextUser

namespace World.Enrolled

variable {w w' : World}

theorem empty (node : NodeId) (now : Timestamp) : (World.empty node now).Enrolled where
  handles := by
    intro user huser
    cases huser
  minted := by
    intro user huser
    cases huser

variable (h : w.Enrolled)

include h

theorem findByHandle_eq_some {handle : String} {user : User} :
    w.store.findByHandle handle = some user ↔
      user ∈ w.store.users.rows ∧ user.handle = handle := by
  constructor
  · intro hfound
    exact ⟨List.mem_of_find?_eq_some hfound, by simpa using List.find?_some hfound⟩
  · rintro ⟨huser, rfl⟩
    cases hfound : w.store.findByHandle user.handle with
    | none =>
      have hmiss := List.find?_eq_none.1 hfound user huser
      simp at hmiss
    | some v =>
      have hhandle : v.handle = user.handle := by simpa using List.find?_some hfound
      have hv := List.mem_of_find?_eq_some hfound
      rw [Table.eq_of_key hv huser (h.handles v hv user huser hhandle)]

/-- The id that is minted next is nobody's yet. -/
theorem id_ne {handle : String} {user : User} (hjoins : w.Joins w' handle user) :
    ∀ v ∈ w.store.users.rows, v.id ≠ user.id := by
  intro v hv hid
  have hseq := (h.minted v hv).2
  rw [hid, hjoins.id_eq] at hseq
  exact absurd hseq (Nat.not_succ_le_self w.store.nextUser)

theorem same (hsame : SamePeople w.store.users w'.store.users)
    (hcount : CountsOn w.store w'.store) : w'.Enrolled where
  handles := by
    intro u' hu' v' hv' hhandle
    obtain ⟨u, hu, hsameU⟩ := hsame.back u' hu'
    obtain ⟨v, hv, hsameV⟩ := hsame.back v' hv'
    rw [hsameU.id, hsameV.id]
    apply h.handles u hu v hv
    rw [← hsameU.handle, ← hsameV.handle, hhandle]
  minted := by
    intro v' hv'
    obtain ⟨v, hv, hperson⟩ := hsame.back v' hv'
    rw [hperson.id, hcount.1]
    obtain ⟨hnode, hseq⟩ := h.minted v hv
    exact ⟨hnode, hseq.trans hcount.2.1⟩

theorem joins {handle : String} {user : User} (hjoins : w.Joins w' handle user) :
    w'.Enrolled where
  handles := by
    rw [hjoins.users, Table.apart_insert (fun hhandle => hhandle.symm) h.handles]
    intro v hv hhandle
    have hmiss := List.find?_eq_none.1 hjoins.free v hv
    simp [hhandle, hjoins.handle_eq] at hmiss
  minted := by
    rw [hjoins.users, hjoins.node, hjoins.nextUser]
    intro v hv
    rcases Table.mem_insert.1 hv with rfl | ⟨hv, -⟩
    · rw [hjoins.id_eq]
      exact ⟨rfl, le_rfl⟩
    · obtain ⟨hvnode, hseq⟩ := h.minted v hv
      exact ⟨hvnode, Nat.le_succ_of_le hseq⟩

theorem mem_of_joins {handle : String} {user : User} (hjoins : w.Joins w' handle user) {v : User}
    (hv : v ∈ w.store.users.rows) : v ∈ w'.store.users.rows := by
  rw [hjoins.users]
  exact Table.mem_insert.2 (.inr ⟨hv, h.id_ne hjoins v hv⟩)

variable (services : Services) (u : UseCase)

theorem serve : (services.serve w u).Enrolled := by
  have hcount := services.serve_common (common_countsOn u.parts) w
  have hrolls := rolls_serve services w u
  generalize u.mailbox? services w = box? at hrolls
  generalize services.serve w u = w' at hcount hrolls ⊢
  cases hrolls with
  | same _ hsame => exact h.same hsame hcount
  | named hjoins => exact h.joins hjoins
  | mailed hjoins => exact h.joins hjoins

/-- Nobody goes, and nobody becomes someone else. -/
theorem stays {user : User} (huser : user ∈ w.store.users.rows) :
    ∃ user' ∈ (services.serve w u).store.users.rows, SamePerson user' user := by
  have hrolls := rolls_serve services w u
  generalize u.mailbox? services w = box? at hrolls
  generalize services.serve w u = w' at hrolls ⊢
  cases hrolls with
  | same _ hsame => exact hsame.forth user huser
  | named hjoins => exact ⟨user, h.mem_of_joins hjoins huser, rfl, rfl, rfl⟩
  | mailed hjoins => exact ⟨user, h.mem_of_joins hjoins huser, rfl, rfl, rfl⟩

/-- Who is found under a handle is found under it afterwards. -/
theorem found {handle : String} {user : User} (hfound : w.store.findByHandle handle = some user) :
    ∃ user', (services.serve w u).store.findByHandle handle = some user' ∧
      SamePerson user' user := by
  obtain ⟨huser, hhandle⟩ := h.findByHandle_eq_some.1 hfound
  obtain ⟨user', huser', hsame⟩ := h.stays services u huser
  refine ⟨user', ?_, hsame⟩
  exact (h.serve services u).findByHandle_eq_some.2 ⟨huser', hsame.handle.trans hhandle⟩

end World.Enrolled

end Democrachat
