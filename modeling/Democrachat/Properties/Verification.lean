import Democrachat.App.Accounts
import Democrachat.App.Social
import Democrachat.Polity.Invariants
import Democrachat.Store.Snapshot

/-!
# Email verification

What a node's accounts go through in runs of the account requests, and what their tokens have to
do with it.  A token is issued to one account, spent once at most and before it expires, and only
that marks an account.
-/

namespace Democrachat

open Library Req

/-! ## Runs -/

inductive AccountOp where
  | registerWithPassword (drawn : Drawn) (handle email password : String)
  | issueResend (drawn : Drawn) (handle : String)
  | verifyEmail (rawToken : String)
  | setPassword (drawn : Drawn) (handle password : String)
  | setDmPolicy (handle : String) (policy : DmPolicy)
  /-- The node goes down and comes up on the snapshot of its store. -/
  | reload

/-- The token that a request draws or presents. -/
def AccountOp.token? : AccountOp → Option String
  | registerWithPassword drawn _ _ _ | issueResend drawn _ => some drawn.rawToken
  | verifyEmail rawToken => some rawToken
  | _ => none

/-- `hash_token`; the digest itself is the library's. -/
def hashToken (digest : String → String) (token : String) : String := digest (trim token)

structure AccountCall where
  now : Timestamp
  op : AccountOp

structure IssuedToken where
  token : String
  user : UserId
  expiresAt : Int
deriving DecidableEq

structure SpentToken where
  token : String
  user : UserId
  spentAt : Timestamp
deriving DecidableEq

namespace Services

variable (services : Services)

/-- The world after one call. -/
def act (w : World) (c : AccountCall) : World :=
  let w := { w with now := c.now }
  match c.op with
  | .registerWithPassword drawn handle email password =>
    ((services.registerWithPassword drawn handle email password).exec w).2
  | .issueResend drawn handle => ((services.issueResend drawn handle).exec w).2
  | .verifyEmail rawToken => ((services.verifyEmail rawToken).exec w).2
  | .setPassword drawn handle password => ((setPassword drawn handle password).exec w).2
  | .setDmPolicy handle policy => ((setDmPolicy handle policy).exec w).2
  | .reload => { w with store := (Inner.ofSnapshot w.store.toSnapshot).withNode w.store.node }

/-- The token that a call answers with, and for whom. -/
def issued? (w : World) (c : AccountCall) : Option IssuedToken :=
  let w := { w with now := c.now }
  match c.op with
  | .registerWithPassword drawn handle email password =>
    match ((services.registerWithPassword drawn handle email password).exec w).1 with
    | .ok r =>
      r.verificationToken.map (fun token => ⟨token, r.user.id, c.now.secs + verificationTtlSecs⟩)
    | .error _ => none
  | .issueResend drawn handle =>
    match ((services.issueResend drawn handle).exec w).1, w.store.findByHandle (trim handle) with
    | .ok target, some user => some ⟨target.token, user.id, c.now.secs + verificationTtlSecs⟩
    | _, _ => none
  | _ => none

/-- The token that a call spends, and the account that it answers with. -/
def spent? (w : World) (c : AccountCall) : Option SpentToken :=
  match c.op with
  | .verifyEmail rawToken =>
    match ((services.verifyEmail rawToken).exec { w with now := c.now }).1 with
    | .ok user => some ⟨rawToken, user.id, c.now⟩
    | .error _ => none
  | _ => none

end Services

/-- A world, and the tokens issued and spent on the way to it. -/
structure TokenLedger where
  world : World
  issued : List IssuedToken
  spent : List SpentToken

def TokenLedger.step (services : Services) (l : TokenLedger) (c : AccountCall) : TokenLedger where
  world := services.act l.world c
  issued := l.issued ++ (services.issued? l.world c).toList
  spent := l.spent ++ (services.spent? l.world c).toList

/-- The calls one after another, on a node that starts out empty. -/
def Services.tokenLedger (services : Services) (node : NodeId) (start : Timestamp)
    (cs : List AccountCall) : TokenLedger :=
  cs.foldl (TokenLedger.step services) ⟨.empty node start, [], []⟩

/-! ## What a call can do to the accounts -/

/-- The part of a store that the account requests are about. -/
structure Accounts where
  node : NodeId
  nextUser : Nat
  users : Table User.id
  tokens : Table VerificationToken.tokenHash

def World.accounts (w : World) : Accounts :=
  ⟨w.store.node, w.store.nextUser, w.store.users, w.store.verificationTokens⟩

/-- New accounts have a token to spend. -/
def Services.issues (services : Services) : Bool :=
  services.emailVerification.requiresVerification && services.hasEmailKey

namespace Accounts

/-- The tokens that are left when one is presented. -/
def left (a : Accounts) (tokenHash : String) (now : Timestamp) : Table VerificationToken.tokenHash :=
  (a.tokens.retain (fun t => t.expiresAt > now.secs)).erase tokenHash

/-- The stored form of a token. -/
def stored (services : Services) (i : IssuedToken) : VerificationToken :=
  ⟨services.hashToken i.token, i.user, i.expiresAt⟩

inductive Step (services : Services) (now : Timestamp) (a : Accounts) :
    Accounts → Option IssuedToken → Option SpentToken → Prop
  | idle : Step services now a a none none
  | enrolled {user : User} : user.id = composeId a.node (a.nextUser + 1) →
      services.issues = false →
      Step services now a { a with nextUser := a.nextUser + 1, users := a.users.insert user }
        none none
  | enrolledIssuing {user : User} {i : IssuedToken} :
      user.id = composeId a.node (a.nextUser + 1) → user.emailVerified = false → i.user = user.id →
      Step services now a
        { a with
          nextUser := a.nextUser + 1
          users := a.users.insert user
          tokens := a.tokens.insert (stored services i) }
        (some i) none
  | resent {i : IssuedToken} :
      Step services now a { a with tokens := a.tokens.insert (stored services i) } (some i) none
  | pruned {tokenHash : String} :
      Step services now a { a with tokens := a.left tokenHash now } none none
  | verified {rawToken : String} {t : VerificationToken} {user : User} :
      a.tokens.get (services.hashToken rawToken) = some t → now.secs < t.expiresAt →
      a.users.get t.userId = some user →
      Step services now a
        { a with
          tokens := a.left (services.hashToken rawToken) now
          users := a.users.insert { user with emailVerified := true } }
        none (some ⟨rawToken, user.id, now⟩)
  | rewritten {user user' : User} : user ∈ a.users.rows → user'.id = user.id →
      user'.emailVerified = user.emailVerified →
      Step services now a { a with users := a.users.insert user' } none none

end Accounts

section Requests

variable (services : Services) {β : Type}

theorem exec_sealNewEmail_bind (drawn : Drawn) (email : String)
    (k : String → Req World RegisterError β) (w : World) :
    (services.sealNewEmail drawn email >>= k).exec w =
      if services.hasEmailKey && services.emailClash w.store.listUsers email then
        (.error .emailTaken, w)
      else (k (if services.hasEmailKey then drawn.sealedEmail else "")).exec w := by
  unfold Services.sealNewEmail
  by_cases hkey : services.hasEmailKey = true
  · simp only [hkey, if_true, Bool.true_and, Req.bind_assoc, req_ask_bind, exec_ensure_bind]
    by_cases hclash : services.emailClash w.store.listUsers email = true
    · simp [hclash]
    · simp only [hclash]
      rfl
  · simp only [hkey]
    rfl

/-- The store with the token that a request draws for a user. -/
def Services.addingToken (drawn : Drawn) (user : UserId) (now : Timestamp) (s : Inner) : Inner :=
  s.addToken ⟨services.hashToken drawn.rawToken, user, now.secs + verificationTtlSecs⟩

theorem exec_newVerificationToken_bind (drawn : Drawn) (user : UserId)
    (k : Option String → Req World RegisterError β) (w : World) :
    (services.newVerificationToken drawn user >>= k).exec w =
      if services.issues then
        (k (some drawn.rawToken)).exec (w.mapStore (services.addingToken drawn user w.now))
      else (k none).exec w := by
  unfold Services.newVerificationToken
  by_cases hissues : services.issues = true
  · rw [if_pos hissues]
    unfold Services.issues at hissues
    rw [if_pos hissues]
    rfl
  · rw [if_neg hissues]
    unfold Services.issues at hissues
    rw [if_neg hissues]
    rfl

/-- Refused with nothing written, or through with the next account, unverified with a token or
verified without one. -/
theorem registerWithPassword_cases (drawn : Drawn) (handle email password : String) (w : World) :
    (∃ e, (services.registerWithPassword drawn handle email password).exec w = (.error e, w)) ∨
      ∃ user : User, user.id = composeId w.store.node (w.store.nextUser + 1) ∧
        (services.issues = true ∧ user.emailVerified = false ∧
            (services.registerWithPassword drawn handle email password).exec w =
              (.ok ⟨user, some drawn.rawToken⟩, w.mapStore (fun s =>
                (services.addingToken drawn user.id w.now s.nextUserId.2).insertUser user)) ∨
          services.issues = false ∧
            (services.registerWithPassword drawn handle email password).exec w =
              (.ok ⟨user, none⟩, w.mapStore (fun s => s.nextUserId.2.insertUser user))) := by
  simp only [Services.registerWithPassword, exec_ensure_bind, exec_orElse_bind, req_ask_bind,
    exec_sealNewEmail_bind, exec_okOr_bind, req_transact_bind, req_clockNow_bind,
    exec_newVerificationToken_bind, req_write_bind]
  by_cases hempty : (!(trim handle).isEmpty) = true
  · rw [if_pos hempty]
    cases validatePassword password with
    | error e => exact .inl ⟨_, rfl⟩
    | ok _ =>
      cases validateEmail email with
      | error e => exact .inl ⟨_, rfl⟩
      | ok _ =>
        dsimp only
        by_cases htaken : (w.store.findByHandle (trim handle)).isNone = true
        · rw [if_pos htaken]
          by_cases hclash :
              (services.hasEmailKey && services.emailClash w.store.listUsers email) = true
          · rw [if_pos hclash]
            exact .inl ⟨_, rfl⟩
          · rw [if_neg hclash]
            cases drawn.passwordHash with
            | none => exact .inl ⟨_, rfl⟩
            | some hash =>
              right
              dsimp only
              by_cases hissues : services.issues = true
              · rw [if_pos hissues]
                exact ⟨_, rfl, .inl ⟨hissues, rfl, rfl⟩⟩
              · rw [if_neg hissues]
                exact ⟨_, rfl, .inr ⟨Bool.eq_false_iff.2 hissues, rfl⟩⟩
        · rw [if_neg htaken]
          exact .inl ⟨_, rfl⟩
  · rw [if_neg hempty]
    exact .inl ⟨_, rfl⟩

/-- Nothing to do, or a token for an account that has its handle. -/
theorem issueResend_cases (drawn : Drawn) (handle : String) (w : World) :
    (services.issueResend drawn handle).exec w = (.error (), w) ∨
      ∃ user email, w.store.findByHandle (trim handle) = some user ∧
        (services.issueResend drawn handle).exec w =
          (.ok ⟨email, drawn.rawToken⟩, w.mapStore (services.addingToken drawn user.id w.now)) := by
  simp only [Services.issueResend, exec_ensure_bind, req_ask_bind, exec_okOr_bind,
    req_clockNow_bind, req_write_bind]
  by_cases hkey : services.hasEmailKey = true
  · rw [if_pos hkey]
    by_cases hrequires : services.emailVerification.requiresVerification = true
    · rw [if_pos hrequires]
      cases hfound : w.store.findByHandle (trim handle) with
      | none => exact .inl rfl
      | some user =>
        dsimp only
        by_cases hpending : (!(user.emailVerified || user.emailEnc.isEmpty)) = true
        · rw [if_pos hpending]
          cases services.openEmail user.emailEnc with
          | none => exact .inl rfl
          | some email => exact .inr ⟨user, email, rfl, rfl⟩
        · rw [if_neg hpending]
          exact .inl rfl
    · rw [if_neg hrequires]
      exact .inl rfl
  · rw [if_neg hkey]
    exact .inl rfl

/-- The store without the expired tokens and the one that is presented. -/
def Services.takingToken (rawToken : String) (now : Timestamp) (s : Inner) : Inner :=
  (s.takeToken (services.hashToken rawToken) now.secs).2

/-- The token is gone in any case; where it was there in time, its account is marked. -/
theorem verifyEmail_cases (rawToken : String) (w : World) :
    (services.verifyEmail rawToken).exec w =
        (.error (), w.mapStore (services.takingToken rawToken w.now)) ∨
      ∃ t user, w.store.verificationTokens.get (services.hashToken rawToken) = some t ∧
        w.now.secs < t.expiresAt ∧ w.store.users.get t.userId = some user ∧
        (services.verifyEmail rawToken).exec w =
          (.ok { user with emailVerified := true }, w.mapStore (fun s =>
            (services.takingToken rawToken w.now s).updateUser
              { user with emailVerified := true })) := by
  simp only [Services.verifyEmail, req_clockNow_bind, req_transact_bind, exec_okOr_bind,
    req_ask_bind, req_write_bind]
  cases htaken : (w.store.takeToken (services.hashToken rawToken) w.now.secs).1 with
  | none => exact .inl rfl
  | some userId =>
    obtain ⟨t, ht, rfl⟩ := Option.map_eq_some_iff.1 htaken
    rw [Table.get_retain, Option.filter_eq_some_iff] at ht
    have hget : (w.mapStore (fun s =>
        (s.takeToken (services.hashToken rawToken) w.now.secs).2)).store.getUser t.userId =
          w.store.users.get t.userId := rfl
    dsimp only
    rw [hget]
    cases hfound : w.store.users.get t.userId with
    | none => exact .inl rfl
    | some user => exact .inr ⟨t, user, ht.1, of_decide_eq_true ht.2, hfound, rfl⟩

/-- The row of the account is written again with another password. -/
theorem setPassword_cases (drawn : Drawn) (handle password : String) (w : World) :
    (∃ e, (setPassword drawn handle password).exec w = (.error e, w)) ∨
      ∃ user hash, w.store.findByHandle (trim handle) = some user ∧
        (setPassword drawn handle password).exec w =
          (.ok (), w.mapStore (·.updateUser { user with passwordHash := hash })) := by
  simp only [setPassword, exec_orElse_bind, req_ask_bind, exec_okOr_bind]
  cases validatePassword password with
  | error e => exact .inl ⟨_, rfl⟩
  | ok _ =>
    cases w.store.findByHandle (trim handle) with
    | none => exact .inl ⟨_, rfl⟩
    | some user =>
      cases drawn.passwordHash with
      | none => exact .inl ⟨_, rfl⟩
      | some hash => exact .inr ⟨user, hash, rfl, rfl⟩

theorem setDmPolicy_cases (handle : String) (policy : DmPolicy) (w : World) :
    (∃ e, (setDmPolicy handle policy).exec w = (.error e, w)) ∨
      ∃ user, w.store.findByHandle (trim handle) = some user ∧
        (setDmPolicy handle policy).exec w =
          (.ok (), w.mapStore (·.updateUser { user with dmPolicy := policy })) := by
  simp only [setDmPolicy, req_ask_bind, exec_okOr_bind]
  cases w.store.findByHandle (trim handle) with
  | none => exact .inl ⟨_, rfl⟩
  | some user => exact .inr ⟨user, rfl, rfl⟩

theorem accounts_setting_now (w : World) (now : Timestamp) :
    ({ w with now := now } : World).accounts = w.accounts := rfl

theorem accounts_reload (w : World) :
    ({ w with store := (Inner.ofSnapshot w.store.toSnapshot).withNode w.store.node } :
      World).accounts = w.accounts := by
  rw [Inner.withNode_ofSnapshot]
  rfl

/-- Every call is one such step, under the clock that it reads. -/
theorem step_act (w : World) (c : AccountCall) :
    Accounts.Step services c.now w.accounts (services.act w c).accounts (services.issued? w c)
      (services.spent? w c) := by
  obtain ⟨now, op⟩ := c
  rw [← accounts_setting_now w now]
  unfold Services.act Services.issued? Services.spent?
  generalize hw : ({ w with now := now } : World) = v
  have hnow : v.now = now := by rw [← hw]
  subst hnow
  cases op with
  | registerWithPassword drawn handle email password =>
    dsimp only
    obtain ⟨e, hrun⟩ | ⟨user, hid, ⟨-, hverified, hrun⟩ | ⟨hissues, hrun⟩⟩ :=
      registerWithPassword_cases services drawn handle email password v
    · rw [hrun]
      exact .idle
    · rw [hrun]
      exact .enrolledIssuing
        (i := ⟨drawn.rawToken, user.id, v.now.secs + verificationTtlSecs⟩) hid hverified rfl
    · rw [hrun]
      exact .enrolled hid hissues
  | issueResend drawn handle =>
    dsimp only
    obtain hrun | ⟨user, email, hfound, hrun⟩ := issueResend_cases services drawn handle v
    · rw [hrun]
      exact .idle
    · rw [hrun, hfound]
      exact .resent (i := ⟨drawn.rawToken, user.id, v.now.secs + verificationTtlSecs⟩)
  | verifyEmail rawToken =>
    dsimp only
    obtain hrun | ⟨t, user, ht, hlive, huser, hrun⟩ := verifyEmail_cases services rawToken v
    · rw [hrun]
      exact .pruned
    · rw [hrun]
      exact .verified ht hlive huser
  | setPassword drawn handle password =>
    dsimp only
    obtain ⟨e, hrun⟩ | ⟨user, hash, hfound, hrun⟩ := setPassword_cases drawn handle password v
    · rw [hrun]
      exact .idle
    · rw [hrun]
      exact .rewritten (List.mem_of_find?_eq_some hfound) rfl rfl
  | setDmPolicy handle policy =>
    dsimp only
    obtain ⟨e, hrun⟩ | ⟨user, hfound, hrun⟩ := setDmPolicy_cases handle policy v
    · rw [hrun]
      exact .idle
    · rw [hrun]
      exact .rewritten (List.mem_of_find?_eq_some hfound) rfl rfl
  | reload =>
    dsimp only
    rw [accounts_reload]
    exact .idle

/-- What a call issues, it has drawn. -/
theorem token_of_issued {w : World} {c : AccountCall} {i : IssuedToken}
    (h : services.issued? w c = some i) : c.op.token? = some i.token := by
  obtain ⟨now, op⟩ := c
  unfold Services.issued? at h
  generalize ({ w with now := now } : World) = v at h
  cases op with
  | registerWithPassword drawn handle email password =>
    dsimp only at h
    obtain ⟨e, hrun⟩ | ⟨user, -, ⟨-, -, hrun⟩ | ⟨-, hrun⟩⟩ :=
      registerWithPassword_cases services drawn handle email password v
    · rw [hrun] at h
      cases h
    · rw [hrun] at h
      cases h
      rfl
    · rw [hrun] at h
      cases h
  | issueResend drawn handle =>
    dsimp only at h
    obtain hrun | ⟨user, email, hfound, hrun⟩ := issueResend_cases services drawn handle v
    · rw [hrun] at h
      cases h
    · rw [hrun, hfound] at h
      cases h
      rfl
  | _ => cases h

/-- What a call spends, it was presented with. -/
theorem token_of_spent {w : World} {c : AccountCall} {t : SpentToken}
    (h : services.spent? w c = some t) : c.op = .verifyEmail t.token := by
  obtain ⟨now, op⟩ := c
  unfold Services.spent? at h
  cases op with
  | verifyEmail rawToken =>
    dsimp only at h
    cases hrun : ((services.verifyEmail rawToken).exec { w with now := now }).1 with
    | error e =>
      rw [hrun] at h
      cases h
    | ok user =>
      rw [hrun] at h
      cases h
      rfl
  | _ => cases h

end Requests

/-! ## What holds of the accounts -/

namespace Accounts

/-- Every stored token was issued and is still to be spent; every spent one was issued, for the
account that it was spent on, and spent in time. -/
structure Inv (services : Services) (a : Accounts) (issued : List IssuedToken)
    (spent : List SpentToken) : Prop where
  minted : ∀ user ∈ a.users.rows, Minted a.node a.nextUser user.id
  pending : ∀ t ∈ a.tokens.rows, ∃ i ∈ issued, t = stored services i
  unspent : ∀ t ∈ a.tokens.rows, ∀ s ∈ spent, services.hashToken s.token ≠ t.tokenHash
  covered : ∀ s ∈ spent, ∃ i ∈ issued,
    services.hashToken i.token = services.hashToken s.token ∧ i.user = s.user ∧
      s.spentAt.secs < i.expiresAt
  once : (spent.map (fun s => services.hashToken s.token)).Nodup
  marked : services.issues = true → ∀ user ∈ a.users.rows, user.emailVerified = true →
    ∃ s ∈ spent, s.user = user.id

variable {services : Services} {now : Timestamp} {a a' : Accounts} {issued : List IssuedToken}
  {spent : List SpentToken}

theorem mem_left {tokenHash : String} {t : VerificationToken} :
    t ∈ (a.left tokenHash now).rows ↔
      (t ∈ a.tokens.rows ∧ now.secs < t.expiresAt) ∧ t.tokenHash ≠ tokenHash := by
  rw [left, Table.mem_erase, Table.mem_retain, decide_eq_true_iff]

theorem inv_start (node : NodeId) : Inv services ⟨node, 0, .empty, .empty⟩ [] [] where
  minted := fun _ h => (nomatch h)
  pending := fun _ h => (nomatch h)
  unspent := fun _ h => (nomatch h)
  covered := fun _ h => (nomatch h)
  once := List.nodup_nil
  marked := fun _ _ h => (nomatch h)

namespace Inv

/-- Issuing a token that is unlike all before, whatever becomes of the accounts. -/
theorem issue (h : Inv services a issued spent) {i : IssuedToken}
    (hnew : ∀ j ∈ issued, services.hashToken j.token ≠ services.hashToken i.token) :
    Inv services { a with tokens := a.tokens.insert (stored services i) } (issued ++ [i]) spent where
  minted := h.minted
  pending := by
    apply forall_insert
    · intro t ht
      obtain ⟨j, hj, rfl⟩ := h.pending t ht
      exact ⟨j, List.mem_append_left _ hj, rfl⟩
    · exact ⟨i, List.mem_append_right _ List.mem_cons_self, rfl⟩
  unspent := by
    apply forall_insert h.unspent
    intro s hs hsame
    obtain ⟨j, hj, hhash, -⟩ := h.covered s hs
    exact hnew j hj (hhash.trans hsame)
  covered := by
    intro s hs
    obtain ⟨j, hj, hrest⟩ := h.covered s hs
    exact ⟨j, List.mem_append_left _ hj, hrest⟩
  once := h.once
  marked := h.marked

/-- A new account that is not verified, or where nobody has to be. -/
theorem enrol (h : Inv services a issued spent) {user : User}
    (hid : user.id = composeId a.node (a.nextUser + 1))
    (hverified : services.issues = true → user.emailVerified = false) :
    Inv services { a with nextUser := a.nextUser + 1, users := a.users.insert user }
      issued spent where
  minted := by
    apply forall_insert
    · exact fun u hu => (h.minted u hu).succ
    · rw [hid]
      exact minted_composeId
  pending := h.pending
  unspent := h.unspent
  covered := h.covered
  once := h.once
  marked := by
    intro hissues
    apply forall_insert (h.marked hissues)
    intro hmarked
    rw [hverified hissues] at hmarked
    cases hmarked

theorem prune (h : Inv services a issued spent) (tokenHash : String) (now : Timestamp) :
    Inv services { a with tokens := a.left tokenHash now } issued spent where
  minted := h.minted
  pending := fun t ht => h.pending t (mem_left.1 ht).1.1
  unspent := fun t ht => h.unspent t (mem_left.1 ht).1.1
  covered := h.covered
  once := h.once
  marked := h.marked

/-- An account is written again: it was marked before, or a token of it has been spent. -/
theorem rewriting (h : Inv services a issued spent) {user user' : User} (huser : user ∈ a.users.rows)
    (hid : user'.id = user.id)
    (hmarked : services.issues = true → user'.emailVerified = true →
      user.emailVerified = true ∨ ∃ s ∈ spent, s.user = user.id) :
    Inv services { a with users := a.users.insert user' } issued spent where
  minted := forall_insert h.minted (hid ▸ h.minted user huser)
  pending := h.pending
  unspent := h.unspent
  covered := h.covered
  once := h.once
  marked := by
    intro hissues
    apply forall_insert (h.marked hissues)
    intro hverified
    rw [hid]
    rcases hmarked hissues hverified with hbefore | hspent
    · exact h.marked hissues user huser hbefore
    · exact hspent

/-- Spending a token that is still stored, once its stored form is gone. -/
theorem spend (h : Inv services a issued spent) {rawToken : String} {t : VerificationToken}
    (ht : a.tokens.get (services.hashToken rawToken) = some t) (hlive : now.secs < t.expiresAt) :
    Inv services { a with tokens := a.left (services.hashToken rawToken) now } issued
      (spent ++ [⟨rawToken, t.userId, now⟩]) where
  minted := h.minted
  pending := (h.prune _ now).pending
  unspent := by
    intro u hu s hs
    rcases List.mem_append.1 hs with hs | hs
    · exact (h.prune _ now).unspent u hu s hs
    · rw [List.mem_singleton.1 hs]
      exact (mem_left.1 hu).2.symm
  covered := by
    intro s hs
    rcases List.mem_append.1 hs with hs | hs
    · exact h.covered s hs
    · rw [List.mem_singleton.1 hs]
      have hhash := Table.key_of_get ht
      obtain ⟨i, hi, rfl⟩ := h.pending t (Table.mem_of_get ht)
      exact ⟨i, hi, hhash, rfl, hlive⟩
  once := by
    rw [List.map_append, List.nodup_append]
    refine ⟨h.once, List.nodup_singleton _, ?_⟩
    intro x hx y hy
    obtain ⟨s, hs, rfl⟩ := List.mem_map.1 hx
    rw [List.map_singleton, List.mem_singleton] at hy
    rw [hy, ← Table.key_of_get ht]
    exact h.unspent t (Table.mem_of_get ht) s hs
  marked := by
    intro hissues user huser hverified
    obtain ⟨s, hs, hsame⟩ := h.marked hissues user huser hverified
    exact ⟨s, List.mem_append_left _ hs, hsame⟩

/-- What a call issues is unlike all that was issued before. -/
theorem step (h : Inv services a issued spent) {issued? : Option IssuedToken}
    {spent? : Option SpentToken} (hstep : Step services now a a' issued? spent?)
    (hnew : ∀ i, issued? = some i →
      ∀ j ∈ issued, services.hashToken j.token ≠ services.hashToken i.token) :
    Inv services a' (issued ++ issued?.toList) (spent ++ spent?.toList) := by
  cases hstep with
  | idle =>
    rw [Option.toList_none, Option.toList_none, List.append_nil, List.append_nil]
    exact h
  | enrolled hid hissues =>
    rw [Option.toList_none, Option.toList_none, List.append_nil, List.append_nil]
    apply h.enrol hid
    intro hon
    rw [hissues] at hon
    cases hon
  | @enrolledIssuing user i hid hverified hfor =>
    rw [Option.toList_none, List.append_nil]
    exact (h.enrol hid (fun _ => hverified)).issue (hnew i rfl)
  | @resent i =>
    rw [Option.toList_none, List.append_nil]
    exact h.issue (hnew i rfl)
  | pruned =>
    rw [Option.toList_none, Option.toList_none, List.append_nil, List.append_nil]
    exact h.prune _ now
  | @verified rawToken t user ht hlive huser =>
    rw [Option.toList_none, List.append_nil]
    have hspent := h.spend ht hlive
    rw [← Table.key_of_get huser] at hspent
    refine hspent.rewriting (Table.mem_of_get huser) rfl ?_
    intro _ _
    exact .inr ⟨_, List.mem_append_right _ List.mem_cons_self, rfl⟩
  | rewritten huser hid hverified =>
    rw [Option.toList_none, Option.toList_none, List.append_nil, List.append_nil]
    apply h.rewriting huser hid
    intro _ hafter
    exact .inl (hverified ▸ hafter)

end Inv

/-- The account is there, and verified. -/
def Verified (users : Table User.id) (id : UserId) : Prop :=
  ∃ user, users.get id = some user ∧ user.emailVerified = true

theorem Verified.insert {users : Table User.id} {id : UserId} (h : Verified users id) {row : User}
    (hkept : ∀ user, users.get row.id = some user → user.emailVerified = true →
      row.emailVerified = true) : Verified (users.insert row) id := by
  obtain ⟨user, huser, hverified⟩ := h
  by_cases hsame : id = row.id
  · subst hsame
    exact ⟨row, Table.get_insert_self users row, hkept user huser hverified⟩
  · exact ⟨user, (Table.get_insert_of_ne users hsame).trans huser, hverified⟩

theorem Verified.step {id : UserId} (h : Verified a.users id)
    (hminted : ∀ user ∈ a.users.rows, Minted a.node a.nextUser user.id)
    {issued? : Option IssuedToken} {spent? : Option SpentToken}
    (hstep : Step services now a a' issued? spent?) : Verified a'.users id := by
  have hfresh := get_composeId_eq_none hminted
  cases hstep with
  | idle => exact h
  | enrolled hid _ | enrolledIssuing hid _ _ =>
    refine h.insert ?_
    intro user huser
    rw [hid, hfresh] at huser
    cases huser
  | resent => exact h
  | pruned => exact h
  | verified _ _ _ => exact h.insert (fun _ _ _ => rfl)
  | rewritten hrow hid hkept =>
    refine h.insert ?_
    intro user huser hverified
    rw [hid, Table.mem_iff.1 hrow] at huser
    cases huser
    exact hkept.trans hverified

/-- A token that is spent was stored, and in time; its account is marked, and no other. -/
theorem Step.of_spent {issued? : Option IssuedToken} {s : SpentToken}
    (hstep : Step services now a a' issued? (some s)) :
    ∃ t user, a.tokens.get (services.hashToken s.token) = some t ∧ now.secs < t.expiresAt ∧
      t.userId = s.user ∧ a.users.get s.user = some user ∧
      ∀ id, a'.users.get id =
        if id = s.user then some { user with emailVerified := true } else a.users.get id := by
  cases hstep with
  | @verified rawToken t user ht hlive huser =>
    have hid := Table.key_of_get huser
    refine ⟨t, user, ht, hlive, hid.symm, ?_, ?_⟩
    · rw [hid]
      exact huser
    · intro id
      have hmarked := Table.get_insert a.users { user with emailVerified := true } id
      by_cases hthis : id = user.id
      · rw [if_pos hthis] at hmarked ⊢
        exact hmarked
      · rw [if_neg hthis] at hmarked ⊢
        exact hmarked

theorem Inv.countP_spent_le_one {digest : String → String} (h : Inv services a issued spent)
    (hhash : services.hashToken = hashToken digest) (token : String) :
    spent.countP (fun s => trim s.token == trim token) ≤ 1 := by
  have hnodup : (spent.map (fun s => trim s.token)).Nodup := by
    have honce := h.once
    rw [List.nodup_iff_pairwise_ne, List.pairwise_map] at honce ⊢
    refine honce.imp ?_
    intro s t hne hsame
    apply hne
    rw [hhash, hashToken, hashToken, hsame]
  have hcount := List.nodup_iff_count_le_one.1 hnodup (trim token)
  rw [List.count, List.countP_map] at hcount
  exact hcount

end Accounts

/-! ## Whole runs -/

namespace Services

variable {services : Services} {node : NodeId} {start : Timestamp}

theorem tokenLedger_concat (cs : List AccountCall) (c : AccountCall) :
    services.tokenLedger node start (cs ++ [c]) =
      (services.tokenLedger node start cs).step services c := by
  rw [tokenLedger, List.foldl_append]
  rfl

/-- The tokens of the books are tokens of the calls. -/
theorem tokens_subset (cs : List AccountCall) :
    (services.tokenLedger node start cs).issued.map (·.token) ++
        (services.tokenLedger node start cs).spent.map (·.token) ⊆
      cs.filterMap (fun c => c.op.token?) := by
  induction cs using List.reverseRecOn with
  | nil => exact List.Subset.refl _
  | append_singleton cs c ih =>
    intro token htoken
    rw [tokenLedger_concat, TokenLedger.step, List.map_append, List.map_append] at htoken
    rw [List.filterMap_append, List.mem_append]
    have hnow : c.op.token? = some token → token ∈ [c].filterMap (fun c => c.op.token?) :=
      fun hc => List.mem_filterMap.2 ⟨c, List.mem_cons_self, hc⟩
    rcases List.mem_append.1 htoken with hissued | hspent
    · rcases List.mem_append.1 hissued with hold | hnew
      · exact .inl (ih (List.mem_append_left _ hold))
      · obtain ⟨i, hi, rfl⟩ := List.mem_map.1 hnew
        exact .inr (hnow (token_of_issued services (Option.mem_toList.1 hi)))
    · rcases List.mem_append.1 hspent with hold | hnew
      · exact .inl (ih (List.mem_append_right _ hold))
      · obtain ⟨s, hs, rfl⟩ := List.mem_map.1 hnew
        exact .inr (hnow (by rw [token_of_spent services (Option.mem_toList.1 hs)]; rfl))

theorem mem_issued {cs : List AccountCall} {i : IssuedToken}
    (h : i ∈ (services.tokenLedger node start cs).issued) :
    i.token ∈ cs.filterMap (fun c => c.op.token?) :=
  tokens_subset cs (List.mem_append_left _ (List.mem_map_of_mem h))

theorem mem_spent {cs : List AccountCall} {s : SpentToken}
    (h : s ∈ (services.tokenLedger node start cs).spent) :
    s.token ∈ cs.filterMap (fun c => c.op.token?) :=
  tokens_subset cs (List.mem_append_right _ (List.mem_map_of_mem h))

theorem issued_isPrefix (front back : List AccountCall) :
    (services.tokenLedger node start front).issued <+:
      (services.tokenLedger node start (front ++ back)).issued := by
  induction back using List.reverseRecOn with
  | nil =>
    rw [List.append_nil]
  | append_singleton back c ih =>
    rw [← List.append_assoc, tokenLedger_concat]
    exact ih.trans (List.prefix_append _ _)

theorem inv_tokenLedger {cs : List AccountCall}
    (hdistinct : ((services.tokenLedger node start cs).issued.map
      (fun i => services.hashToken i.token)).Nodup) :
    Accounts.Inv services (services.tokenLedger node start cs).world.accounts
      (services.tokenLedger node start cs).issued (services.tokenLedger node start cs).spent := by
  induction cs using List.reverseRecOn with
  | nil => exact Accounts.inv_start node
  | append_singleton cs c ih =>
    rw [tokenLedger_concat] at hdistinct ⊢
    have happend : (((services.tokenLedger node start cs).issued.map
          (fun i => services.hashToken i.token)) ++
        ((services.issued? (services.tokenLedger node start cs).world c).toList.map
          (fun i => services.hashToken i.token))).Nodup := by
      rw [← List.map_append]
      exact hdistinct
    obtain ⟨hbefore, -, hnew⟩ := List.nodup_append.1 happend
    apply (ih hbefore).step (step_act services _ c)
    intro i hi j hj
    refine hnew _ (List.mem_map_of_mem hj) _ (List.mem_map_of_mem ?_)
    rw [hi]
    exact List.mem_cons_self

end Services

/-- The digest keeps the tokens of the run apart. -/
def CollisionFree (digest : String → String) (cs : List AccountCall) : Prop :=
  ∀ a ∈ cs.filterMap (fun c => c.op.token?), ∀ b ∈ cs.filterMap (fun c => c.op.token?),
    digest (trim a) = digest (trim b) → trim a = trim b

section Distinct

variable {services : Services} {digest : String → String} {node : NodeId} {start : Timestamp}
  {cs : List AccountCall}

theorem CollisionFree.trim_eq (h : CollisionFree digest cs)
    (hhash : services.hashToken = hashToken digest) {a b : String}
    (ha : a ∈ cs.filterMap (fun c => c.op.token?)) (hb : b ∈ cs.filterMap (fun c => c.op.token?))
    (hsame : services.hashToken a = services.hashToken b) : trim a = trim b := by
  rw [hhash] at hsame
  exact h a ha b hb hsame

theorem nodup_hashes (hhash : services.hashToken = hashToken digest)
    (hdigest : CollisionFree digest cs) {front back : List AccountCall} (hcs : cs = front ++ back)
    (hdistinct : ((services.tokenLedger node start cs).issued.map (fun i => trim i.token)).Nodup) :
    ((services.tokenLedger node start front).issued.map
      (fun i => services.hashToken i.token)).Nodup := by
  subst hcs
  have hwhole : ((services.tokenLedger node start (front ++ back)).issued.map
      (fun i => services.hashToken i.token)).Nodup := by
    rw [List.nodup_iff_pairwise_ne, List.pairwise_map] at hdistinct ⊢
    refine hdistinct.imp_of_mem ?_
    intro i j hi hj hne hsame
    exact hne (hdigest.trim_eq hhash (Services.mem_issued hi) (Services.mem_issued hj) hsame)
  exact hwhole.sublist ((Services.issued_isPrefix front back).sublist.map _)

/-- Over the calls that are left, as long as the invariant holds. -/
theorem verified_kept
    (hinv : ∀ front back, cs = front ++ back →
      Accounts.Inv services (services.tokenLedger node start front).world.accounts
        (services.tokenLedger node start front).issued
        (services.tokenLedger node start front).spent)
    {id : UserId} {front back : List AccountCall} (hcs : cs = front ++ back)
    (h : Accounts.Verified (services.tokenLedger node start front).world.store.users id) :
    Accounts.Verified (services.tokenLedger node start cs).world.store.users id := by
  induction back generalizing front with
  | nil =>
    rw [hcs, List.append_nil]
    exact h
  | cons c back ih =>
    have hrest : cs = (front ++ [c]) ++ back := by
      rw [hcs, List.append_assoc]
      rfl
    apply ih hrest
    rw [Services.tokenLedger_concat]
    exact Accounts.Verified.step h (hinv front (c :: back) hcs).minted (step_act services _ c)

end Distinct

/-- Tokens are good for one use, and for the account that they were issued to. -/
structure TokensBound (services : Services) (node : NodeId) (start : Timestamp)
    (cs : List AccountCall) : Prop where
  /-- A token is spent once at most. -/
  once : ∀ i ∈ (services.tokenLedger node start cs).issued,
    (services.tokenLedger node start cs).spent.countP (fun s => trim s.token == trim i.token) ≤ 1
  /-- What is spent was issued, is spent in time, and marks the account that it was issued for
  and no other. -/
  bound : ∀ front c back s, cs = front ++ c :: back →
    services.spent? (services.tokenLedger node start front).world c = some s →
      ∃ i ∈ (services.tokenLedger node start front).issued,
        trim i.token = trim s.token ∧ i.user = s.user ∧ c.now.secs < i.expiresAt ∧
          ∃ user, (services.tokenLedger node start front).world.store.getUser i.user = some user ∧
            ∀ id, (services.tokenLedger node start (front ++ [c])).world.store.getUser id =
              if id = i.user then some { user with emailVerified := true }
              else (services.tokenLedger node start front).world.store.getUser id
  /-- A verified account stays verified. -/
  kept : ∀ front back, cs = front ++ back → ∀ id,
    Accounts.Verified (services.tokenLedger node start front).world.store.users id →
      Accounts.Verified (services.tokenLedger node start cs).world.store.users id
  /-- Where verification is required, it takes a token of the account's own. -/
  required : services.emailVerification = .hard → services.hasEmailKey = true → ∀ id,
    Accounts.Verified (services.tokenLedger node start cs).world.store.users id →
      ∃ i ∈ (services.tokenLedger node start cs).issued,
        ∃ s ∈ (services.tokenLedger node start cs).spent,
          i.user = id ∧ s.user = id ∧ trim s.token = trim i.token

/-- In any run from an empty store, if its tokens are distinct and the digest keeps them apart. -/
theorem verification_tokens (services : Services) (digest : String → String)
    (hhash : services.hashToken = hashToken digest) (node : NodeId) (start : Timestamp)
    (cs : List AccountCall) (hdigest : CollisionFree digest cs)
    (hdistinct : ((services.tokenLedger node start cs).issued.map (fun i => trim i.token)).Nodup) :
    TokensBound services node start cs := by
  have hinv : ∀ front back, cs = front ++ back →
      Accounts.Inv services (services.tokenLedger node start front).world.accounts
        (services.tokenLedger node start front).issued
        (services.tokenLedger node start front).spent :=
    fun front back hcs => Services.inv_tokenLedger (nodup_hashes hhash hdigest hcs hdistinct)
  have hwhole := hinv cs [] (List.append_nil cs).symm
  refine ⟨?_, ?_, ?_, ?_⟩
  · intro i _
    exact hwhole.countP_spent_le_one hhash i.token
  · intro front c back s hcs hspent
    have hstep := step_act services (services.tokenLedger node start front).world c
    rw [hspent] at hstep
    obtain ⟨t, user, ht, hlive, howner, huser, hafter⟩ := hstep.of_spent
    have hkey := Table.key_of_get ht
    obtain ⟨i, hi, rfl⟩ := (hinv front (c :: back) hcs).pending t (Table.mem_of_get ht)
    have hdrawn : i.token ∈ cs.filterMap (fun c => c.op.token?) := by
      apply Services.mem_issued
      rw [hcs]
      exact (Services.issued_isPrefix front (c :: back)).subset hi
    have hpresented : s.token ∈ cs.filterMap (fun c => c.op.token?) := by
      refine List.mem_filterMap.2 ⟨c, ?_, ?_⟩
      · rw [hcs]
        exact List.mem_append_right _ List.mem_cons_self
      · rw [token_of_spent services hspent]
        rfl
    have hsame : i.user = s.user := howner
    refine ⟨i, hi, hdigest.trim_eq hhash hdrawn hpresented hkey, hsame, hlive, user, ?_, ?_⟩
    · rw [hsame]
      exact huser
    · rw [Services.tokenLedger_concat, hsame]
      exact hafter
  · intro front back hcs id hverified
    exact verified_kept hinv hcs hverified
  · rintro hmode hkey id ⟨user, huser, hverified⟩
    have hissues : services.issues = true := by
      rw [Services.issues, hmode, hkey]
      rfl
    obtain ⟨s, hs, howner⟩ := hwhole.marked hissues user (Table.mem_of_get huser) hverified
    obtain ⟨i, hi, hsame, hfor, -⟩ := hwhole.covered s hs
    rw [Table.key_of_get huser] at howner
    refine ⟨i, hi, s, hs, hfor.trans howner, howner, ?_⟩
    exact hdigest.trim_eq hhash (Services.mem_spent hs) (Services.mem_issued hi) hsame.symm

namespace Agora

/-- A node that wants addresses verified. -/
def wary : Services := { services with
  emailVerification := .hard, hasEmailKey := true, openEmail := some, hashToken := hashToken id }

def drawing (token : String) : Drawn := ⟨some "hash", "sealed", token⟩

/-- Two tokens for one account, both spent, one of them before a restart. -/
def errands : List AccountCall :=
  [⟨day 0, .registerWithPassword (drawing "one") "sam" "sam@agora.example" "correct horse battery"⟩,
    ⟨day 0, .issueResend (drawing "two") "sam"⟩,
    ⟨⟨60⟩, .verifyEmail " one"⟩,
    ⟨⟨60⟩, .setDmPolicy "sam" .friendsOnly⟩,
    ⟨⟨61⟩, .reload⟩,
    ⟨⟨62⟩, .verifyEmail "one"⟩,
    ⟨⟨63⟩, .verifyEmail "two"⟩]

end Agora

theorem verification_tokens_errands : TokensBound Agora.wary 1 ⟨0⟩ Agora.errands :=
  verification_tokens Agora.wary id rfl 1 ⟨0⟩ Agora.errands (fun _ _ _ _ hsame => hsame)
    (by decide +kernel)

/-- Each of the two is spent once. -/
example : (Agora.wary.tokenLedger 1 ⟨0⟩ Agora.errands).spent =
    [⟨" one", composeId 1 1, ⟨60⟩⟩, ⟨"two", composeId 1 1, ⟨63⟩⟩] := by
  decide +kernel

end Democrachat
