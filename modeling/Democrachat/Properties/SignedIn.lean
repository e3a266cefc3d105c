import Democrachat.Properties.Enrolment
import Democrachat.Properties.Sessions
import Democrachat.Properties.Signatures
import Democrachat.Web.Cookies

/-!
# Nothing in another's name

Over any traffic of a node, whatever comes to stand in somebody's name was asked for by a browser
that presents a session of that account, and the session was given to somebody who had the
account's password or had just registered the account, thirty days ago at the most.
-/

namespace Democrachat

open Library Req

/-! ## Accounts -/

theorem toldApart_empty (node : NodeId) : (Inner.empty node).ToldApart := by
  intro user huser
  cases huser

theorem toldApart_serve {services : Services} {w : World} (hw : w.Enrolled)
    (h : w.store.ToldApart) (u : UseCase) : (services.serve w u).store.ToldApart := by
  have hafter := hw.serve services u
  have hrolls := rolls_serve services w u
  generalize u.mailbox? services w = box? at hrolls
  generalize services.serve w u = w' at hafter hrolls ⊢
  have joined : ∀ {handle user}, w.Joins w' (trim handle) user → w'.store.ToldApart := by
    intro handle user hjoins
    rw [Inner.toldApart_insert h hjoins.users]
    refine ⟨by rw [hjoins.handle_eq, trim_trim], ?_⟩
    intro v hv hhandle
    have hmiss := List.find?_eq_none.1 hjoins.free v hv
    simp [hhandle, hjoins.handle_eq] at hmiss
  cases hrolls with
  | same _ hsame =>
    refine Inner.toldApart_iff.2 ⟨?_, hafter.handles⟩
    intro user' huser'
    obtain ⟨user, huser, hperson⟩ := hsame.back user' huser'
    rw [hperson.handle]
    exact (h user huser).1
  | named hjoins => exact joined hjoins
  | mailed hjoins => exact joined hjoins

namespace WebApp

variable (app : WebApp)

/-! ## One request -/

/-- The browser repeats its token and presents a session that has not expired. -/
structure ActsAs (w : World) (r : Request) (session : UserSession) : Prop where
  csrf : r.passesCsrf = true
  presented : app.signer.presented r.cookies = some session
  unexpired : w.now.secs ≤ session.expiresAt

/-- What comes of a request: nothing, a sign-in, a use-case that writes in nobody's name, or one
of whoever acts. -/
inductive Responds (w : World) (r : Request) : Answer → World → Prop
  | nothing {answer : Answer} : (∀ session, answer ≠ .signedIn session) → Responds w r answer w
  | loggedIn {handle password : String} {user : User} : r.passesCsrf = true →
      r.route = .login handle password → app.authenticate w handle password = some user →
      (app.services.emailVerification.requiresVerification = true → user.emailVerified = true) →
      Responds w r (.signedIn (newSession w user.id)) w
  | registered {handle email password : String} {user : User} : r.passesCsrf = true →
      r.route = .register handle email password →
      w.Joins (app.services.serve w
        (.op (.registerWithPassword r.draws.account handle email password))) (trim handle) user →
      Responds w r (.signedIn (newSession w user.id))
        (app.services.serve w (.op (.registerWithPassword r.draws.account handle email password)))
  | unnamed {u : UseCase} : (∀ part, part ≠ .accounts → u.parts.contains part = false) →
      Responds w r .served (app.services.serve w u)
  | listed (slug : String) : Responds w r .served (app.services.serve w (.op (.listProposals slug)))
  | acted {action : Action} {me : String} {u : UseCase} : r.passesCsrf = true →
      app.actorFor w r action = .ok me → action.useCase app r.draws me w.store = .ok u →
      Responds w r .served (app.services.serve w u)

/-- Of all parts only the accounts. -/
theorem only_accounts {parts : List Part} (h : parts ⊆ [.accounts]) (part : Part)
    (hpart : part ≠ .accounts) : parts.contains part = false := by
  rw [List.contains_eq_mem, decide_eq_false_iff_not]
  intro hmem
  exact hpart (List.mem_singleton.1 (h hmem))

theorem responds_register {w : World} {r : Request} {handle email password : String}
    (hcsrf : r.passesCsrf = true) (hroute : r.route = .register handle email password) :
    app.Responds w r (app.respond w r).1 (app.respond w r).2 := by
  have hadmits := registerWithPassword_admits app.services r.draws.account handle email password w
  have hserve : app.services.serve w
        (.op (.registerWithPassword r.draws.account handle email password)) =
      ((app.services.registerWithPassword r.draws.account handle email password).exec w).2 := rfl
  have hnow : (app.services.serve w
      (.op (.registerWithPassword r.draws.account handle email password))).now = w.now :=
    app.services.step_now w (.registerWithPassword r.draws.account handle email password)
  have hquiet : Responds app w r .served (app.services.serve w
      (.op (.registerWithPassword r.draws.account handle email password))) :=
    .unnamed (u := .op (.registerWithPassword r.draws.account handle email password))
      (only_accounts (List.Subset.refl _))
  simp only [respond, hcsrf, hroute, Bool.not_true, Bool.and_false, Bool.false_eq_true, if_false]
  rcases hadmits with ⟨e, hexec⟩ | ⟨registered, w', hexec, hjoins, -⟩
  · rw [hexec] at hserve ⊢
    rw [hserve] at hquiet
    exact hquiet
  · rw [hexec] at hserve ⊢
    dsimp only at hserve ⊢
    cases registered.verificationToken with
    | some token =>
      rw [hserve] at hquiet
      exact hquiet
    | none =>
      have hin : Responds app w r (.signedIn (newSession w registered.user.id)) _ :=
        .registered hcsrf hroute (hserve ▸ hjoins)
      rw [hserve] at hin hnow
      rw [newSession, ← hnow] at hin
      exact hin

theorem responds (w : World) (r : Request) :
    app.Responds w r (app.respond w r).1 (app.respond w r).2 := by
  have hserved : ∀ session, Answer.served ≠ .signedIn session := fun _ h => nomatch h
  have hrefused : ∀ status text session, Answer.refused status text ≠ .signedIn session :=
    fun _ _ _ h => nomatch h
  by_cases hcsrf : (r.route.isMutation && !r.passesCsrf) = true
  · rw [respond, if_pos hcsrf]
    exact .nothing (hrefused _ _)
  have hpasses : ∀ {route}, r.route = route → route.isMutation = true → r.passesCsrf = true := by
    rintro route rfl hmutation
    simpa [hmutation] using hcsrf
  cases hroute : r.route with
  | login handle password =>
    rw [respond, if_neg hcsrf, hroute]
    dsimp only
    split
    next => exact .nothing (hrefused _ _)
    next user huser =>
      split
      next => exact .nothing (hrefused _ _)
      next hverified =>
        refine .loggedIn (hpasses hroute rfl) hroute huser ?_
        intro hrequires
        by_contra hunverified
        exact hverified (by simp [hrequires, hunverified])
  | register handle email password =>
    exact app.responds_register (hpasses hroute rfl) hroute
  | verify token =>
    rw [respond, if_neg hcsrf, hroute]
    exact .unnamed (u := .op (.verifyEmail token)) (only_accounts (List.Subset.refl _))
  | resend handle =>
    rw [respond, if_neg hcsrf, hroute]
    exact .unnamed (u := .op (.issueResend r.draws.account handle)) (only_accounts (List.Subset.refl _))
  | logout =>
    rw [respond, if_neg hcsrf, hroute]
    exact .nothing fun _ h => nomatch h
  | listProposals slug =>
    rw [respond, if_neg hcsrf, hroute]
    exact .listed slug
  | advanceClock days =>
    rw [respond, if_neg hcsrf, hroute]
    dsimp only
    split
    next =>
      exact .unnamed (u := .op (.setClock (w.now.plusDays days)))
        (only_accounts (List.nil_subset _))
    next => exact .nothing (hrefused _ _)
  | act action =>
    rw [respond, if_neg hcsrf, hroute]
    dsimp only
    split
    next => exact .nothing (hrefused _ _)
    next me hme =>
      split
      next => exact .nothing (hrefused _ _)
      next u hu => exact .acted (hpasses hroute rfl) hme hu

/-- Whoever acts is the account of the session, and the path names it if it names somebody. -/
theorem actorFor_eq_ok {w : World} {r : Request} {action : Action} {me : String}
    (h : app.actorFor w r action = .ok me) :
    requireActor app.signer w r.cookies = .ok me ∧
      ∀ self, action.self? = some self → self = me := by
  simp only [actorFor, bind, Except.bind] at h
  split at h
  next => cases h
  next =>
    split at h
    next => cases h
    next found hactor =>
      cases hself : action.self? with
      | none =>
        rw [hself] at h
        obtain rfl := Except.ok.inj h
        exact ⟨hactor, fun _ hsome => nomatch hsome⟩
      | some self =>
        rw [hself] at h
        dsimp only at h
        split at h
        next heq =>
          obtain rfl := Except.ok.inj h
          refine ⟨hactor, ?_⟩
          rintro _ ⟨⟩
          exact heq.symm
        next => cases h

/-- If the use-case is told who asks, it is told this handle. -/
structure Names (me : String) (u : UseCase) : Prop where
  callerId : u.callerId = none
  caller : ∀ handle, u.caller = some handle → handle = me

theorem Names.of_caller {me handle : String} {u : UseCase} (hid : u.callerId = none)
    (hcaller : u.caller = some handle) (hme : handle = me) : Names me u where
  callerId := hid
  caller := by
    intro found hfound
    rw [hcaller] at hfound
    exact (Option.some.inj hfound).symm.trans hme

theorem names_useCase {draws : Draws} {me : String} {s : Inner} {action : Action} {u : UseCase}
    (hself : ∀ self, action.self? = some self → self = me)
    (h : action.useCase app draws me s = .ok u) : Names me u := by
  have mapped : ∀ {α : Type} {made : Except String α} {f : α → UseCase},
      made.map f = .ok u → (∀ a, Names me (f a)) → Names me u := by
    intro α made f hmap hnames
    cases made with
    | error e => cases hmap
    | ok a => exact Except.ok.inj hmap ▸ hnames a
  cases action with
  | postMessage slug channel body parent attachments =>
    simp only [Action.useCase] at h
    split at h
    all_goals exact Except.ok.inj h ▸ .of_caller rfl rfl rfl
  | uploadMedia contentType bytes =>
    obtain rfl := Except.ok.inj h
    exact ⟨rfl, fun _ hcaller => nomatch hcaller⟩
  | propose slug kind => exact mapped h fun _ => .of_caller rfl rfl rfl
  | addEmoji slug name url image => exact mapped h fun _ => .of_caller rfl rfl rfl
  | setPolicy | sendDm | block | requestFriend | acceptFriend =>
    exact Except.ok.inj h ▸ .of_caller rfl rfl (hself _ rfl)
  | _ => exact Except.ok.inj h ▸ .of_caller rfl rfl rfl

/-! ## What a request leaves in somebody's name -/

/-- A node that started empty, and whose accounts are told apart. -/
structure Sound (w : World) : Prop where
  served : app.services.Served w
  enrolled : w.Enrolled
  toldApart : w.store.ToldApart

variable {app}

namespace Sound

variable {w : World}

theorem empty (node : NodeId) (now : Timestamp) : Sound app (.empty node now) where
  served := .empty node now
  enrolled := .empty node now
  toldApart := toldApart_empty node

theorem serve (h : Sound app w) (u : UseCase) : Sound app (app.services.serve w u) where
  served := h.served.serve u
  enrolled := h.enrolled.serve app.services u
  toldApart := toldApart_serve h.enrolled h.toldApart u

theorem visit (h : Sound app w) (v : Visit) : Sound app (app.visit w v) := by
  cases v with
  | wait now => exact h.serve (.op (.setClock now))
  | request r =>
    have hresponds := app.responds w r
    show Sound app (app.respond w r).2
    generalize (app.respond w r).1 = answer at hresponds
    generalize (app.respond w r).2 = w' at hresponds ⊢
    cases hresponds with
    | nothing => exact h
    | loggedIn => exact h
    | registered => exact h.serve _
    | unnamed => exact h.serve _
    | listed slug => exact h.serve _
    | acted => exact h.serve _

theorem run (h : Sound app w) (visits : List Visit) : Sound app (app.run w visits) := by
  induction visits generalizing w with
  | nil => exact h
  | cons v visits ih => exact ih (h.visit v)

/-- The handle of the session's account is found under it alone. -/
theorem eq_of_calls (h : Sound app w) {session : UserSession} {me : String} {u : UseCase}
    {who : UserId} (hactor : session.actor w = some me) (hnames : Names me u)
    (hcalls : u.Calls w who) : who = session.uid := by
  obtain ⟨-, user, huser, hid, hhandle⟩ := UserSession.actor_eq_some.1 hactor
  rcases hcalls with hcaller | ⟨handle, found, hcaller, hfound, rfl⟩
  · rw [hnames.callerId] at hcaller
    cases hcaller
  · rw [hnames.caller handle hcaller, ← hhandle, (h.toldApart user huser).1] at hfound
    obtain ⟨hmem, hsame⟩ := h.enrolled.findByHandle_eq_some.1 hfound
    rw [← hid]
    exact h.enrolled.handles found hmem user huser hsame

/-- Whatever comes to stand in somebody's name is asked for with a session of that account. -/
theorem named (h : Sound app w) (r : Request) {mark : Mark} {who : UserId}
    (hsigner : mark.signer = some who) (hbefore : ¬ w.store.Bears mark)
    (hafter : (app.respond w r).2.store.Bears mark) :
    ∃ session, ActsAs app w r session ∧ session.uid = who := by
  have hresponds := app.responds w r
  generalize (app.respond w r).1 = answer at hresponds
  generalize (app.respond w r).2 = w' at hresponds hafter
  cases hresponds with
  | nothing => exact absurd hafter hbefore
  | loggedIn => exact absurd hafter hbefore
  | registered =>
    have hparts : ∀ part, part ≠ .accounts → List.contains [Part.accounts] part = false :=
      only_accounts (List.Subset.refl _)
    exact absurd (app.services.unnamed w (u := .op (.registerWithPassword _ _ _ _)) hparts hsigner
      hafter) hbefore
  | unnamed hparts => exact absurd (app.services.unnamed w hparts hsigner hafter) hbefore
  | listed slug =>
    rcases h.served.named _ hsigner hbefore hafter with hid | ⟨handle, user, hcaller, -⟩
    · cases hid
    · cases hcaller
  | acted hcsrf hme hu =>
    obtain ⟨hrequires, hself⟩ := app.actorFor_eq_ok hme
    obtain ⟨session, hpresented, hactor⟩ := requireActor_eq_ok.1 hrequires
    have hcalls := h.served.named _ hsigner hbefore hafter
    have hunexpired := (UserSession.actor_eq_some.1 hactor).1
    refine ⟨session, ⟨hcsrf, hpresented, hunexpired⟩, ?_⟩
    exact (h.eq_of_calls hactor (app.names_useCase hself hu) hcalls).symm

end Sound

/-! ## Who has signed in -/

variable (app)

/-- The request comes from somebody who has the password of the account, or registers it. -/
inductive Proves (w : World) (r : Request) : UserId → Prop
  | password {handle password : String} {user : User} : r.route = .login handle password →
      w.store.findByHandle (trim handle) = some user → user.passwordHash.isEmpty = false →
      app.verifyPassword password user.passwordHash = true →
      (app.services.emailVerification.requiresVerification = true → user.emailVerified = true) →
      Proves w r user.id
  | registration {handle email password : String} {user : User} :
      r.route = .register handle email password →
      w.Joins (app.respond w r).2 (trim handle) user → Proves w r user.id

/-- A session is given for thirty days, to somebody who proves who they are. -/
theorem proves_of_signedIn {w : World} {r : Request} {session : UserSession}
    (h : (app.respond w r).1 = .signedIn session) :
    r.passesCsrf = true ∧ app.Proves w r session.uid ∧
      session.expiresAt = w.now.secs + sessionTtlSeconds := by
  have hresponds := app.responds w r
  have hregistered : ∀ {handle email password : String} {user : User},
      r.route = .register handle email password →
      w.Joins (app.respond w r).2 (trim handle) user → app.Proves w r user.id := .registration
  generalize (app.respond w r).1 = answer at hresponds h
  generalize (app.respond w r).2 = w' at hresponds hregistered
  cases hresponds with
  | nothing hnone => exact absurd h (hnone session)
  | loggedIn hcsrf hroute hauthenticated hverified =>
    obtain rfl := Answer.signedIn.inj h
    obtain ⟨hfound, hpassword⟩ := Option.filter_eq_some_iff.1 hauthenticated
    simp only [Bool.and_eq_true, Bool.not_eq_true'] at hpassword
    exact ⟨hcsrf, .password hroute hfound hpassword.1 hpassword.2 hverified, rfl⟩
  | registered hcsrf hroute hjoins =>
    obtain rfl := Answer.signedIn.inj h
    exact ⟨hcsrf, hregistered hroute hjoins, rfl⟩
  | unnamed => cases h
  | listed => cases h
  | acted => cases h

section Traffic

variable (start : World)

/-- Somebody has proved to be the account, and no more than thirty days have passed since. -/
def SignedIn (traffic : List Visit) (who : UserId) : Prop :=
  ∃ earlier r later, traffic = earlier ++ .request r :: later ∧ r.passesCsrf = true ∧
    app.Proves (app.run start earlier) r who ∧
    (app.run start traffic).now.secs ≤ (app.run start earlier).now.secs + sessionTtlSeconds

/-- Nobody makes up a MAC: a session that is presented has been given to somebody before. -/
def Unforged (traffic : List Visit) : Prop :=
  ∀ pre r post session, traffic = pre ++ .request r :: post →
    app.signer.presented r.cookies = some session →
      ∃ earlier r' later, pre = earlier ++ .request r' :: later ∧
        (app.respond (app.run start earlier) r').1 = .signedIn session

end Traffic

/-- Whatever a request of the traffic brings to stand in an account's name, and each membership
that begins, was asked for by a browser that presents a live session of the account, after
somebody proved to be the account. -/
theorem nothing_in_anothers_name (node : NodeId) (now : Timestamp) {traffic : List Visit}
    (hunforged : app.Unforged (.empty node now) traffic) {pre post : List Visit} {r : Request}
    (htraffic : traffic = pre ++ .request r :: post) {mark : Mark} {who : UserId}
    (hsigner : mark.signer = some who) (hbefore : ¬ (app.run (.empty node now) pre).store.Bears mark)
    (hafter : (app.run (.empty node now) (pre ++ [.request r])).store.Bears mark) :
    (∃ session, app.ActsAs (app.run (.empty node now) pre) r session ∧ session.uid = who) ∧
      app.SignedIn (.empty node now) pre who := by
  have hsound := (Sound.empty node now : Sound app _).run pre
  rw [run, List.foldl_append] at hafter
  obtain ⟨session, hacts, rfl⟩ := hsound.named r hsigner hbefore hafter
  refine ⟨⟨session, hacts, rfl⟩, ?_⟩
  obtain ⟨earlier, r', later, rfl, hgiven⟩ := hunforged pre r post session htraffic hacts.presented
  obtain ⟨hcsrf, hproves, hexpires⟩ := app.proves_of_signedIn hgiven
  exact ⟨earlier, r', later, rfl, hcsrf, hproves, hexpires ▸ hacts.unexpired⟩

/-! ## Staying signed in -/

variable {app}

namespace Sound

variable {w : World}

/-- Nobody goes, and nobody becomes someone else. -/
theorem stays_visit (h : Sound app w) (v : Visit) {user : User} (huser : user ∈ w.store.users.rows) :
    ∃ user' ∈ (app.visit w v).store.users.rows, SamePerson user' user := by
  have hsame : ∃ user' ∈ w.store.users.rows, SamePerson user' user :=
    ⟨user, huser, rfl, rfl, rfl⟩
  cases v with
  | wait now => exact hsame
  | request r =>
    have hresponds := app.responds w r
    show ∃ user' ∈ (app.respond w r).2.store.users.rows, SamePerson user' user
    generalize (app.respond w r).1 = answer at hresponds
    generalize (app.respond w r).2 = w' at hresponds ⊢
    cases hresponds with
    | nothing => exact hsame
    | loggedIn => exact hsame
    | registered => exact h.enrolled.stays app.services _ huser
    | unnamed => exact h.enrolled.stays app.services _ huser
    | listed slug => exact h.enrolled.stays app.services _ huser
    | acted => exact h.enrolled.stays app.services _ huser

theorem stays (h : Sound app w) (visits : List Visit) {user : User}
    (huser : user ∈ w.store.users.rows) :
    ∃ user' ∈ (app.run w visits).store.users.rows, SamePerson user' user := by
  induction visits generalizing w user with
  | nil => exact ⟨user, huser, rfl, rfl, rfl⟩
  | cons v visits ih =>
    obtain ⟨user', huser', hsame⟩ := h.stays_visit v huser
    obtain ⟨user'', huser'', hsame'⟩ := ih (h.visit v) huser'
    exact ⟨user'', huser'', hsame'.id.trans hsame.id, hsame'.handle.trans hsame.handle,
      hsame'.emailEnc.trans hsame.emailEnc⟩

end Sound

/-- The account of a session is in the store. -/
theorem mem_of_signedIn {w : World} {r : Request} {session : UserSession}
    (h : (app.respond w r).1 = .signedIn session) :
    ∃ user ∈ (app.respond w r).2.store.users.rows, user.id = session.uid := by
  have hresponds := app.responds w r
  generalize (app.respond w r).1 = answer at hresponds h
  generalize (app.respond w r).2 = w' at hresponds ⊢
  cases hresponds with
  | nothing hnone => exact absurd h (hnone session)
  | loggedIn hcsrf hroute hauthenticated =>
    obtain rfl := Answer.signedIn.inj h
    have hfound := (Option.filter_eq_some_iff.1 hauthenticated).1
    exact ⟨_, List.mem_of_find?_eq_some hfound, rfl⟩
  | registered hcsrf hroute hjoins =>
    obtain rfl := Answer.signedIn.inj h
    refine ⟨_, ?_, rfl⟩
    rw [hjoins.users]
    exact Table.mem_insert.2 (.inl rfl)
  | unnamed => cases h
  | listed => cases h
  | acted => cases h

/-- A live session acts under the handle of its account. -/
theorem actor_eq {w : World} {session : UserSession} {user : User}
    (huser : user ∈ w.store.users.rows) (hid : user.id = session.uid) :
    session.actor w = if w.now.secs ≤ session.expiresAt then some user.handle else none := by
  split
  next hlive => exact UserSession.actor_eq_some.2 ⟨hlive, user, huser, hid, rfl⟩
  next hexpired => rw [UserSession.actor, if_pos (by omega)]

variable (app)

/-- What the gate says of a request that presents the session, or none. -/
theorem actorFor_of_presented (w : World) {r : Request} {action : Action}
    {session? : Option UserSession} (hpresented : app.signer.presented r.cookies = session?) (hdev : action.isDevOnly = false)
    (hself : ∀ self me, action.self? = some self →
      session?.bind (UserSession.actor · w) = some me → self = me) :
    app.actorFor w r action =
      match session?.bind (UserSession.actor · w) with
      | some me => .ok me
      | none => .error unauthorized := by
  have hactor : requireActor app.signer w r.cookies =
      match session?.bind (UserSession.actor · w) with
      | some me => .ok me
      | none => .error unauthorized := by
    rw [requireActor, currentActor, ← hpresented]
    rfl
  rw [actorFor, hdev, hactor]
  cases hme : session?.bind (UserSession.actor · w) with
  | none => rfl
  | some me =>
    cases hfound : action.self? with
    | none => rfl
    | some self =>
      obtain rfl := hself self me hfound hme
      exact if_pos rfl

end WebApp

/-! ## Zed registers and founds a server -/

namespace Agora

def web : WebApp where
  services := services
  signer := ⟨fun _ _ => [7]⟩
  verifyPassword := fun password hash => password == hash
  base64 := fun _ => none
  isDev := false
  secureCookies := false

def draws : WebApp.Draws := ⟨⟨some "zeds hash", "", ""⟩, "", 0⟩

def registers : WebApp.Request :=
  ⟨.register "zed" "zed@agora.org" "zeds long password", some "dc_csrf=c", some "c", draws⟩

/-- With the cookie that the registration has set. -/
def founds : WebApp.Request :=
  ⟨.act (.foundServer "Agora" false), some "dc_csrf=c; sid=1.2592000.07", some "c", draws⟩

def inaugural : List WebApp.Visit := [.request registers, .request founds]

theorem unforged_inaugural : web.Unforged (.empty 0 (day 0)) inaugural := by
  have hfirst : web.signer.presented registers.cookies = none := by decide +kernel
  have hgiven : web.signer.presented founds.cookies = some ⟨composeId 0 1, 2592000⟩ ∧
      (web.respond (.empty 0 (day 0)) registers).1 = .signedIn ⟨composeId 0 1, 2592000⟩ := by
    decide +kernel
  intro pre r post session htraffic hpresented
  match pre, htraffic with
  | [], htraffic =>
    obtain ⟨hregisters, -⟩ := List.cons.inj htraffic
    obtain rfl := WebApp.Visit.request.inj hregisters
    rw [hfirst] at hpresented
    cases hpresented
  | [v], htraffic =>
    obtain ⟨rfl, htail⟩ := List.cons.inj htraffic
    obtain ⟨hfounds, -⟩ := List.cons.inj htail
    obtain rfl := WebApp.Visit.request.inj hfounds
    obtain rfl := Option.some.inj (hgiven.1.symm.trans hpresented)
    exact ⟨[], registers, [], rfl, hgiven.2⟩
  | _ :: _ :: pre, htraffic =>
    have hlength := congrArg List.length htraffic
    simp [inaugural] at hlength

theorem founded_in_own_name :
    (∃ session, web.ActsAs (web.run (.empty 0 (day 0)) [.request registers]) founds session ∧
      session.uid = composeId 0 1) ∧
      web.SignedIn (.empty 0 (day 0)) [.request registers] (composeId 0 1) := by
  have hmember : (web.run (.empty 0 (day 0)) [.request registers]).store.getMembership
        (composeId 0 1) sid = none ∧
      ((web.run (.empty 0 (day 0)) inaugural).store.getMembership (composeId 0 1) sid).isSome := by
    decide +kernel
  have htraffic : inaugural = [.request registers] ++ .request founds :: [] := rfl
  have hsigner : (Mark.member (composeId 0 1) sid).signer = some (composeId 0 1) := rfl
  have hbefore : ¬ (web.run (.empty 0 (day 0)) [.request registers]).store.Bears
      (.member (composeId 0 1) sid) := Option.not_isSome_iff_eq_none.2 hmember.1
  exact web.nothing_in_anothers_name 0 (day 0) unforged_inaugural htraffic hsigner hbefore hmember.2

def createsChannel : WebApp.Action := .createChannel "agora" "square" ""

end Agora

end Democrachat
