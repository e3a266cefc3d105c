import Democrachat.Library.Intake
import Democrachat.System.Ops

/-!
# One account per handle

Any number of registrations at once.  Each looks for its handle, and for its address, long before
it inserts its account, and nothing holds the store in between.
-/

namespace Democrachat

open Library Req

/-! ## Registrations -/

/-- A call of `register_account` or of `register_with_password`. -/
inductive Signup where
  | account (handle : String)
  | withPassword (drawn : Drawn) (handle email password : String)

namespace Signup

/-- The handle that the account gets. -/
def handle : Signup → String
  | account handle => trim handle
  | withPassword _ handle _ _ => trim handle

variable (services : Services)

/-- The sealed address that the account gets. -/
def emailEnc : Signup → String
  | account _ => ""
  | withPassword drawn _ _ _ => if services.hasEmailKey then drawn.sealedEmail else ""

def request : Signup → Prog World (Except RegisterError User)
  | account handle => (registerAccount handle).run
  | withPassword drawn handle email password =>
    Except.map (·.user) <$> (services.registerWithPassword drawn handle email password).run

end Signup

/-! ## What a registration does -/

def World.users (w : World) : Table User.id := w.store.users

/-- The node has counted past the id. -/
def World.HasMinted (w : World) (id : UserId) : Prop :=
  id.node = w.store.node → id.sequence ≤ w.store.nextUser

/-- Neither an account nor the counter is touched. -/
abbrev Idling : World → World → Prop := Prog.Idle World.users World.HasMinted

theorem Idling.refl (w : World) : Idling w w := ⟨rfl, fun _ => Iff.rfl⟩

/-- The request inserts no other accounts than such. -/
abbrev Registers {α : Type} (row : α → User) (P : User → Prop) (r : Req World RegisterError α) :
    Prop :=
  Req.Enrols World.users World.HasMinted row P r

abbrev RegistersUnder {α : Type} (row : α → User) (P : User → Prop) (id : UserId)
    (r : Req World RegisterError α) : Prop :=
  Req.Holds World.users World.HasMinted row P id r

theorem mints_nextUserId (w : World) :
    Prog.Mints World.users World.HasMinted w.store.nextUserId.1 w
      (w.mapStore (fun s => s.nextUserId.2)) where
  rows_eq := rfl
  fresh := by
    intro hminted
    have hle : w.store.nextUser + 1 ≤ w.store.nextUser := hminted rfl
    omega
  minted_iff := by
    intro id
    change (id.node = w.store.node → id.sequence ≤ w.store.nextUser + 1) ↔
      id = composeId w.store.node (w.store.nextUser + 1) ∨
        (id.node = w.store.node → id.sequence ≤ w.store.nextUser)
    constructor
    · intro hle
      by_cases hid : id = composeId w.store.node (w.store.nextUser + 1)
      · exact .inl hid
      · right
        intro hnode
        have hne : id.sequence ≠ w.store.nextUser + 1 := by
          intro hsequence
          exact hid (Id.ext hnode hsequence)
        have hle := hle hnode
        omega
    · rintro (rfl | hle) hnode
      · exact Nat.le_refl _
      · exact Nat.le_succ_of_le (hle hnode)

theorem registersUnder_insertUser {α : Type} {row : α → User} {P : User → Prop} {id : UserId}
    {a : α} {user : User} (ha : row a = user) (hid : user.id = id) (hrow : P user) :
    RegistersUnder row P id
      ((liftM (write (·.insertUser user)) : Req World RegisterError Unit) >>=
        fun _ => Pure.pure a) := by
  subst ha hid
  exact Req.Holds.store (fun _ => ⟨rfl, fun _ => Iff.rfl⟩) hrow

theorem registers_registerAccount (handle : String) :
    Registers id (fun user => user.handle = trim handle ∧ user.emailEnc = "")
      (registerAccount handle) := by
  refine .ensure <| .step (guarantees_ask Idling.refl _) fun _ => .ensure <| .mint fun w => ?_
  refine ⟨_, mints_nextUserId w, .step (guarantees_clockNow Idling.refl) fun now => ?_⟩
  exact registersUnder_insertUser rfl rfl ⟨rfl, rfl⟩

section Services

variable (services : Services)

theorem registers_sealNewEmail {α : Type} {row : α → User} {P : User → Prop} (drawn : Drawn)
    (email : String) {k : String → Req World RegisterError α}
    (hk : Registers row P (k (if services.hasEmailKey then drawn.sealedEmail else ""))) :
    Registers row P (services.sealNewEmail drawn email >>= k) := by
  unfold Services.sealNewEmail
  by_cases hkey : services.hasEmailKey = true
  · rw [if_pos hkey] at hk ⊢
    rw [Req.bind_assoc]
    apply Req.Enrols.step (guarantees_ask Idling.refl _)
    intro users
    rw [Req.bind_assoc]
    exact .ensure hk
  · rw [if_neg hkey] at hk ⊢
    exact hk

theorem registersUnder_newVerificationToken {α : Type} {row : α → User} {P : User → Prop}
    {id : UserId} (drawn : Drawn) (user : UserId) {k : Option String → Req World RegisterError α}
    (hk : ∀ token, RegistersUnder row P id (k token)) :
    RegistersUnder row P id (services.newVerificationToken drawn user >>= k) := by
  apply Req.Holds.ite
  · rw [Req.bind_assoc]
    apply Req.Holds.step (guarantees_clockNow Idling.refl)
    intro now
    rw [Req.bind_assoc]
    apply Req.Holds.step (guarantees_write fun w => ⟨rfl, fun _ => Iff.rfl⟩)
    exact fun _ => hk _
  · exact hk none

theorem registers_registerWithPassword (drawn : Drawn) (handle email password : String) :
    Registers (·.user) (fun user => user.handle = trim handle ∧
        user.emailEnc = if services.hasEmailKey then drawn.sealedEmail else "")
      (services.registerWithPassword drawn handle email password) := by
  refine .ensure <| .orElse fun _ => .orElse fun _ => .step (guarantees_ask Idling.refl _) fun _ =>
    .ensure <| registers_sealNewEmail services drawn email <| .okOr fun _ => .mint fun w => ?_
  refine ⟨_, mints_nextUserId w, .step (guarantees_clockNow Idling.refl) fun now => ?_⟩
  apply registersUnder_newVerificationToken services drawn
  intro token
  exact registersUnder_insertUser rfl rfl ⟨rfl, rfl⟩

/-- What the request of a signup does besides reading: it mints an id, and inserts the account of
the signup under it. -/
theorem enrolling_request (signup : Signup) :
    Prog.Enrolling World.users World.HasMinted Except.toOption
      (fun user => user.handle = signup.handle ∧ user.emailEnc = signup.emailEnc services)
      (signup.request services) := by
  cases signup with
  | account handle => exact Req.Enrols.enrolling (registers_registerAccount handle)
  | withPassword drawn handle email password =>
    exact Req.Enrols.enrolling_map (registers_registerWithPassword services drawn handle email password)

end Services

/-! ## Any number at once -/

namespace Services

variable (services : Services)

/-- The address that a sealed one opens to, as it is compared. -/
def address (emailEnc : String) : Option String :=
  if emailEnc.isEmpty then none else (services.openEmail emailEnc).map normalizeEmail

/-- The two share their handle or, with an email key configured, their address. -/
def Alike (u v : User) : Prop :=
  u.handle = v.handle ∨
    services.hasEmailKey = true ∧ (services.address u.emailEnc).isSome ∧
      services.address u.emailEnc = services.address v.emailEnc

theorem Alike.symm {services : Services} {u v : User} (h : services.Alike u v) :
    services.Alike v u := by
  rcases h with hhandle | ⟨hkey, hsome, haddress⟩
  · exact .inl hhandle.symm
  · rw [haddress] at hsome
    exact .inr ⟨hkey, hsome, haddress.symm⟩

/-- No two accounts are alike, and the node has counted past the ids of its own. -/
structure Distinct (w : World) : Prop where
  apart : w.users.Apart services.Alike
  minted : ∀ user ∈ w.users.rows, w.HasMinted user.id

theorem distinct_empty (node : NodeId) (now : Timestamp) : services.Distinct (.empty node now) where
  apart := by
    intro u hu
    cases hu
  minted := by
    intro u hu
    cases hu

/-- The requests of the signups, before the first step. -/
def pool (signups : List Signup) (w : World) :
    List (Prog World (Except RegisterError User)) × World :=
  (signups.map (·.request services), w)

/-- Where the step inserts the account of signup `i`, no account in the store has its handle nor,
with an email key configured, its address. -/
def FindsFree (signups : List Signup) (c : List (Prog World (Except RegisterError User)) × World)
    (i : Nat) : Prop :=
  ∀ signup, signups[i]? = some signup → (Prog.tick c i).2.users ≠ c.2.users →
    ∀ v ∈ c.2.users.rows, v.handle ≠ signup.handle ∧
      (services.hasEmailKey = true → ∀ address,
        services.address (signup.emailEnc services) = some address →
          services.address v.emailEnc ≠ some address)

/-- The account is the only one of the signup's handle. -/
structure Owns (w : World) (signup : Signup) (user : User) : Prop where
  stored : user ∈ w.users.rows
  handle_eq : user.handle = signup.handle
  alone : ∀ v ∈ w.users.rows, v.handle = signup.handle → v = user

/-- The accounts that signup `i` may insert. -/
def IsOf (signups : List Signup) (i : Nat) (user : User) : Prop :=
  ∃ signup, signups[i]? = some signup ∧ user.handle = signup.handle ∧
    user.emailEnc = signup.emailEnc services

/-- The pool, and the ids that its requests have minted. -/
abbrev Sound (signups : List Signup) (held : Nat → Option UserId)
    (c : List (Prog World (Except RegisterError User)) × World) : Prop :=
  Prog.Sound World.users World.HasMinted Except.toOption (services.IsOf signups) held c

variable {services} {signups : List Signup}

theorem sound_pool {w : World} (h : services.Distinct w) :
    services.Sound signups (fun _ => none) (services.pool signups w) where
  stage := by
    intro i p hp
    have hmap : (signups.map (·.request services))[i]? = some p := hp
    rw [List.getElem?_map] at hmap
    obtain ⟨signup, hsignup, rfl⟩ := Option.map_eq_some_iff.1 hmap
    apply Prog.Stage.enrolling
    apply (enrolling_request services signup).imp
    exact fun user huser => ⟨signup, hsignup, huser⟩
  unshared := by
    rintro i j k ⟨⟩
  held_minted := by
    rintro i k ⟨⟩
  rows_minted := h.minted

theorem findsFree_iff {held : Nat → Option UserId}
    {c : List (Prog World (Except RegisterError User)) × World}
    (h : services.Sound signups held c) (i : Nat) :
    services.FindsFree signups c i ↔ Prog.Admits World.users services.Alike c i := by
  unfold FindsFree Prog.Admits
  cases (h.tick i).2 with
  | nothing hsame =>
    rw [hsame]
    constructor
    · exact fun _ v hv hnew => absurd hv hnew
    · exact fun _ signup _ hchanged => absurd rfl hchanged
  | @row user hrow hunused hinsert =>
    obtain ⟨signup, hsignup, hhandle, hemail⟩ := hrow
    have hnew : user ∉ c.2.users.rows :=
      fun huser => Table.get_eq_none.1 hunused user huser rfl
    have hmem : user ∈ (Prog.tick c i).2.users.rows := by
      rw [hinsert]
      exact Table.mem_insert.2 (.inl rfl)
    have hfree : (∀ u ∈ c.2.users.rows, ¬ services.Alike u user) ↔
        ∀ v ∈ c.2.users.rows, v.handle ≠ signup.handle ∧
          (services.hasEmailKey = true → ∀ address,
            services.address (signup.emailEnc services) = some address →
              services.address v.emailEnc ≠ some address) := by
      apply forall₂_congr
      intro v hv
      rw [← hhandle, ← hemail]
      constructor
      · intro hunlike
        refine ⟨fun heq => hunlike (.inl heq), ?_⟩
        intro hkey address haddress hsame
        apply hunlike
        exact .inr ⟨hkey, by rw [hsame]; rfl, by rw [hsame, haddress]⟩
      · rintro ⟨hneq, haddress⟩ (heq | ⟨hkey, hsome, hsame⟩)
        · exact hneq heq
        · obtain ⟨address, hv⟩ := Option.isSome_iff_exists.1 hsome
          exact haddress hkey address (by rw [← hsame, hv]) hv
    constructor
    · intro hfinds v hv hvnew
      rw [hinsert] at hv
      rcases Table.mem_insert.1 hv with rfl | ⟨hv, -⟩
      · apply hfree.2
        apply hfinds signup hsignup
        intro hsame
        rw [hsame] at hmem
        exact hnew hmem
      · exact absurd hv hvnew
    · intro hadmits signup' hsignup' _
      rw [hsignup] at hsignup'
      obtain rfl := Option.some.inj hsignup'
      exact hfree.1 (hadmits user hmem hnew)

theorem findsFree_along_iff {held : Nat → Option UserId}
    {c : List (Prog World (Except RegisterError User)) × World}
    (h : services.Sound signups held c) (is : List Nat) :
    Along Prog.tick (services.FindsFree signups) c is ↔
      Along Prog.tick (Prog.Admits World.users services.Alike) c is := by
  have hstep : ∀ (c : List (Prog World (Except RegisterError User)) × World) (i : Nat),
      (∃ held, services.Sound signups held c) →
        ∃ held, services.Sound signups held (Prog.tick c i) := by
    rintro c i ⟨held, hsound⟩
    exact (hsound.tick i).1
  constructor
  · intro halong
    refine Along.imp (I := fun c => ∃ held, services.Sound signups held c) ?_ halong ⟨held, h⟩
    rintro c i ⟨held, hsound⟩ hfinds
    exact ⟨(findsFree_iff hsound i).1 hfinds, hstep c i ⟨held, hsound⟩⟩
  · intro halong
    refine Along.imp (I := fun c => ∃ held, services.Sound signups held c) ?_ halong ⟨held, h⟩
    rintro c i ⟨held, hsound⟩ hadmits
    exact ⟨(findsFree_iff hsound i).2 hadmits, hstep c i ⟨held, hsound⟩⟩

end Services

/-- However the steps of the requests are interleaved: no two accounts are alike, and every request
that has answered owns its handle, if and only if every account finds its handle and its address
free when it is inserted. -/
theorem one_account_per_handle_iff (services : Services) (signups : List Signup) (w : World)
    (hw : services.Distinct w) (is : List Nat) :
    ((Prog.schedule is (services.pool signups w)).2.users.Apart services.Alike ∧
      ∀ (i : Nat) (signup : Signup) (user : User), signups[i]? = some signup →
        (Prog.schedule is (services.pool signups w)).1[i]? = some (Prog.ret (Except.ok user)) →
          Services.Owns (Prog.schedule is (services.pool signups w)).2 signup user) ↔
      Along Prog.tick (services.FindsFree signups) (services.pool signups w) is := by
  have hsound : services.Sound signups (fun _ => none) (services.pool signups w) :=
    Services.sound_pool hw
  rw [Services.findsFree_along_iff hsound, ← hsound.apart_iff Services.Alike.symm hw.apart]
  refine ⟨fun h => h.1, fun hapart => ⟨hapart, ?_⟩⟩
  intro i signup user hsignup hanswer
  obtain ⟨held, hend⟩ := (hsound.schedule is).1
  have hrow : (Except.ok user : Except RegisterError User).toOption = some user := rfl
  obtain ⟨hstored, signup', hsignup', hhandle, -⟩ := hend.row_of_answer hanswer hrow
  rw [hsignup] at hsignup'
  obtain rfl := Option.some.inj hsignup'
  refine ⟨hstored, hhandle, ?_⟩
  intro v hv hsame
  apply Table.eq_of_key hv hstored
  exact hapart v hv user hstored (.inl (hsame.trans hhandle.symm))

namespace Agora

/-- Two requests for one handle. -/
def twins : List Signup := [.account "sam", .account " sam"]

/-- Both look for the handle before either inserts its account. -/
def neckAndNeck : List Nat := [0, 1, 0, 0, 0, 1, 1, 1]

end Agora

theorem one_account_per_handle_twins :
    ((Prog.schedule [0, 0, 0, 0, 1] (Agora.services.pool Agora.twins (.empty 1 ⟨0⟩))).2.users.Apart
        Agora.services.Alike ∧
      ∀ (i : Nat) (signup : Signup) (user : User), Agora.twins[i]? = some signup →
        (Prog.schedule [0, 0, 0, 0, 1] (Agora.services.pool Agora.twins (.empty 1 ⟨0⟩))).1[i]? =
            some (Prog.ret (Except.ok user)) →
          Services.Owns
            (Prog.schedule [0, 0, 0, 0, 1] (Agora.services.pool Agora.twins (.empty 1 ⟨0⟩))).2
            signup user) ↔
      Along Prog.tick (Agora.services.FindsFree Agora.twins)
        (Agora.services.pool Agora.twins (.empty 1 ⟨0⟩)) [0, 0, 0, 0, 1] :=
  one_account_per_handle_iff Agora.services Agora.twins (.empty 1 ⟨0⟩)
    (Services.distinct_empty Agora.services 1 ⟨0⟩) [0, 0, 0, 0, 1]

theorem handle_taken_twice :
    Prog.finished (Prog.schedule Agora.neckAndNeck
        (Agora.services.pool Agora.twins (.empty 1 ⟨0⟩))) = true ∧
      ¬ (Prog.schedule Agora.neckAndNeck
        (Agora.services.pool Agora.twins (.empty 1 ⟨0⟩))).2.users.Apart Agora.services.Alike := by
  constructor
  · decide +kernel
  · intro hapart
    have hrows : (Prog.schedule Agora.neckAndNeck
        (Agora.services.pool Agora.twins (.empty 1 ⟨0⟩))).2.users.rows =
          [{ User.new (composeId 1 1) "sam" ⟨0⟩ with emailVerified := true },
            { User.new (composeId 1 2) "sam" ⟨0⟩ with emailVerified := true }] := by
      decide +kernel
    have hsame := hapart { User.new (composeId 1 1) "sam" ⟨0⟩ with emailVerified := true }
      (by rw [hrows]; exact List.mem_cons_self)
      { User.new (composeId 1 2) "sam" ⟨0⟩ with emailVerified := true }
      (by rw [hrows]; exact List.mem_cons_of_mem _ List.mem_cons_self) (.inl rfl)
    exact absurd hsame (by decide)

end Democrachat
