import Democrachat.Properties.Enrolment
import Democrachat.System.Letters
import Democrachat.Web.Browser
import Mathlib.Data.List.Forall2
import Mathlib.Logic.Function.Basic

/-!
# Private conversations

Two users write to each other in their browsers, and the node stores what they have sealed.  Each
browser that has its user's key shows the conversation as it was written.
-/

namespace Democrachat

open Library Library.Utf8 Federation Req

/-! ## Browsers and a node -/

/-- What is written, as long as it is not sealed. -/
structure Letter where
  sender : UserId
  recipient : UserId
  body : String
deriving DecidableEq

def Letter.isBetween (l : Letter) (a b : UserId) : Bool :=
  (l.sender == a && l.recipient == b) || (l.sender == b && l.recipient == a)

/-- A node and the browsers at it.  Nothing in the program reads the letters. -/
structure Correspondence where
  world : World
  browsers : Nat → Browser
  letters : List Letter

inductive Errand where
  | signIn (browser : Nat) (handle : String) (password : Option String) (drawn : IdentityDraw)
  | signOut (browser : Nat)
  | send (browser : Nat) (peer body : String) (ephemerals : BytesOf 32 × BytesOf 32)
  /-- Whatever else the node is asked for. -/
  | serve (u : UseCase)

namespace Correspondence

def start (node : NodeId) (now : Timestamp) : Correspondence :=
  ⟨.empty node now, fun _ => .new, []⟩

section

variable (e2ee : E2ee) (services : Services)

def step (c : Correspondence) : Errand → Correspondence
  | .signIn i handle password drawn =>
    match c.world.store.findByHandle (trim handle) with
    | none => c
    | some user =>
      let (b, w) := e2ee.ensureIdentity drawn password user.handle
        { c.browsers i with me := some user.handle } c.world
      { c with world := w, browsers := Function.update c.browsers i b }
  | .signOut i =>
    { c with browsers := Function.update c.browsers i { c.browsers i with me := none } }
  | .send i peer body ephemerals =>
    match e2ee.sendDm ephemerals (c.browsers i) peer body c.world with
    | (some dm, w) =>
      { c with world := w, letters := c.letters ++ [⟨dm.sender, dm.recipient, jsTrim body⟩] }
    | (none, w) => { c with world := w }
  | .serve u => { c with world := services.serve c.world u }

def run (c : Correspondence) (errands : List Errand) : Correspondence :=
  errands.foldl (step e2ee services) c

theorem run_nil (c : Correspondence) : c.run e2ee services [] = c := by
  rw [run, List.foldl_nil]

theorem run_cons (c : Correspondence) (errand : Errand) (errands : List Errand) :
    c.run e2ee services (errand :: errands) = (c.step e2ee services errand).run e2ee services errands := by
  rw [run, run, List.foldl_cons]

theorem browsers_send (c : Correspondence) (i : Nat) (peer body : String)
    (ephemerals : BytesOf 32 × BytesOf 32) :
    (c.step e2ee services (.send i peer body ephemerals)).browsers = c.browsers := by
  rw [step]
  split <;> rfl

theorem browsers_signIn_of_ne (c : Correspondence) {i j : Nat} (h : j ≠ i) (handle : String)
    (password? : Option String) (drawn : IdentityDraw) :
    (c.step e2ee services (.signIn i handle password? drawn)).browsers j = c.browsers j := by
  rw [step]
  split
  next => rfl
  next => exact Function.update_of_ne h _ c.browsers

end

/-- The conversation of two handles as it was written. -/
def written (c : Correspondence) (me peer : String) : List Bubble :=
  match c.world.store.findByHandle (trim me), c.world.store.findByHandle (trim peer) with
  | some a, some b =>
    (c.letters.filter (·.isBetween a.id b.id)).map fun l =>
      { isMine := l.sender == a.id
        sender := if l.sender == a.id then a.handle else b.handle
        text := some l.body }
  | _, _ => []

end Correspondence

/-! ## What is stored -/

section

variable (e2ee : E2ee)

/-- The blob is the text, sealed to the key that the directory has for its reader. -/
def IsSealedFor (keys : Table UserKeys.userId) (reader : UserId) (body blob : String) : Prop :=
  ∃ identity wrapped ephemeral, keys.get reader = some ⟨reader, toHex identity.bytes.1, wrapped⟩ ∧
    blob = toHex (e2ee.sealTo ephemeral identity (asBytes body))

structure IsLetter (keys : Table UserKeys.userId) (dm : DmMessage) (l : Letter) : Prop where
  sender : dm.sender = l.sender
  recipient : dm.recipient = l.recipient
  differ : l.sender ≠ l.recipient
  forRecipient : IsSealedFor e2ee keys l.recipient l.body dm.sealedForRecipient
  forSender : IsSealedFor e2ee keys l.sender l.body dm.sealedForSender
  trimmed : ∃ raw, l.body = jsTrim raw

/-- The secret is the one whose public half is in the directory. -/
def IsSecretOf (keys : Table UserKeys.userId) (user : UserId) (secretHex : String) : Prop :=
  ∃ secret : IdentitySecret, ∃ wrapped, secretHex = toHex secret.bytes.1 ∧
    keys.get user = some ⟨user, toHex (e2ee.public_ secret).bytes.1, wrapped⟩

/-- The entry was published together with its secret, under some password. -/
def IsPublished (keys : UserKeys) : Prop :=
  ∃ secret salt nonce kek password, e2ee.argon2 password salt = .ok kek ∧
    keys.publicKey = toHex (e2ee.public_ secret).bytes.1 ∧
    keys.wrappedSecret = e2ee.wrapped salt nonce kek secret

/-- A browser that holds nothing but secrets of the accounts it was signed in to. -/
structure IsDevice (store : Inner) (b : Browser) : Prop where
  stored : ∀ handle secretHex, b.storage handle = some secretHex →
    ∃ user, store.findByHandle handle = some user ∧
      IsSecretOf e2ee store.userKeys user.id secretHex
  me : ∀ handle, b.me = some handle → trim handle = handle

structure Correspondence.Sound (c : Correspondence) : Prop where
  enrolled : c.world.Enrolled
  published : ∀ keys ∈ c.world.store.userKeys.rows, IsPublished e2ee keys
  devices : ∀ i, IsDevice e2ee c.world.store (c.browsers i)
  letters : List.Forall₂ (IsLetter e2ee c.world.store.userKeys) c.world.store.dms c.letters
  ranked : c.world.store.dms.Pairwise (fun dm dm' => dm.id < dm'.id)
  minted : ∀ dm ∈ c.world.store.dms, dm.id.node = c.world.store.node ∧
    dm.id.sequence ≤ c.world.store.nextDm

end

/-! ## What the node answers -/

theorem myKeys_exec {handle : String} {user : User} {w : World}
    (hfound : w.store.findByHandle (trim handle) = some user) :
    ((myKeys handle).exec w).1 =
      match w.store.userKeys.get user.id with
      | some mine => .ok mine
      | none => .error (.notPublished handle) := by
  simp only [myKeys, req_ask_bind, exec_okOr_bind, hfound]
  cases w.store.userKeys.get user.id with
  | none => rfl
  | some mine => rfl

theorem publicKeyOf_eq_ok {handle publicHex : String} {w : World}
    (h : ((publicKeyOf handle).exec w).1 = .ok publicHex) :
    ∃ user keys, w.store.findByHandle (trim handle) = some user ∧
      w.store.userKeys.get user.id = some keys ∧ keys.publicKey = publicHex := by
  simp only [publicKeyOf, req_ask_bind, exec_okOr_bind] at h
  cases hfound : w.store.findByHandle (trim handle) with
  | none =>
    rw [hfound] at h
    cases h
  | some user =>
    rw [hfound] at h
    dsimp only at h
    cases hkeys : w.store.userKeys.get user.id with
    | none =>
      rw [hkeys] at h
      cases h
    | some keys =>
      rw [hkeys] at h
      exact ⟨user, keys, rfl, hkeys, Except.ok.inj h⟩

/-! ## What the browsers do -/

namespace E2ee

/-- What one password has sealed, no other opens. -/
def KeksSeparate (e2ee : E2ee) : Prop :=
  ∀ {password password' : String} {salt salt' : List UInt8} {kek kek' : BytesOf 32},
    e2ee.argon2 password salt = .ok kek → e2ee.argon2 password' salt' = .ok kek' →
    kek ≠ kek' → e2ee.cipher.Separates kek kek'

variable {e2ee : E2ee}

theorem wasmWrapSecret_eq_ok {drawn : WrapDraw} {password : String} {secret : IdentitySecret}
    {wrapped : WrappedKey}
    (h : e2ee.wasmWrapSecret drawn password (toHex secret.bytes.1) = .ok wrapped) :
    ∃ kek, e2ee.argon2 password drawn.salt.1 = .ok kek ∧
      wrapped = e2ee.wrapped drawn.salt.1 drawn.nonce kek secret := by
  simp only [wasmWrapSecret, identityFromHex_toHex, wrapSecret, deriveKek, bind, Except.bind] at h
  cases hkek : e2ee.argon2 password drawn.salt.1 with
  | error reason =>
    rw [hkek] at h
    cases h
  | ok kek =>
    rw [hkek] at h
    exact ⟨kek, rfl, (Except.ok.inj h).symm⟩

theorem sealDm_toHex (ephemerals : BytesOf 32 × BytesOf 32) (theirs : PublicIdentity)
    (secret : IdentitySecret) (body : String) :
    e2ee.sealDm ephemerals (toHex theirs.bytes.1) (toHex secret.bytes.1) body =
      .ok (toHex (e2ee.sealTo ephemerals.1 theirs (asBytes body)),
        toHex (e2ee.sealTo ephemerals.2 (e2ee.public_ secret) (asBytes body))) := by
  simp only [sealDm, textToHex, wasmSeal_toHex, wasmIdentityPublic_toHex, bind, Except.bind]
  rfl

variable (e2ee)

theorem ensureIdentity_cases (drawn : IdentityDraw) (password? : Option String) (me : String)
    (b : Browser) (w : World) :
    e2ee.ensureIdentity drawn password? me b w = (b, w) ∨
      (∃ mine password secretHex, ((myKeys me).exec w).1 = .ok mine ∧
        e2ee.wasmUnwrapSecret password mine.wrappedSecret = .ok secretHex ∧
        e2ee.ensureIdentity drawn password? me b w = (b.store me secretHex, w)) ∨
      ∃ e password publicHex wrapped w', ((myKeys me).exec w).1 = .error e ∧
        e2ee.wasmIdentityPublic (toHex drawn.secret.1) = .ok publicHex ∧
        e2ee.wasmWrapSecret drawn.wrap password (toHex drawn.secret.1) = .ok wrapped ∧
        (publishKeys me publicHex wrapped).exec w = (.ok (), w') ∧
        e2ee.ensureIdentity drawn password? me b w = (b.store me (toHex drawn.secret.1), w') := by
  unfold ensureIdentity
  split
  next => exact .inl rfl
  next => exact .inl rfl
  next _ mine password _ hmine =>
    split
    next secretHex hunwrap => exact .inr (.inl ⟨mine, password, secretHex, hmine, hunwrap, rfl⟩)
    next => exact .inl rfl
  next _ e password _ hmine =>
    dsimp only
    split
    next publicHex wrapped hpublic hwrapped =>
      obtain ⟨e', hpublish⟩ | ⟨user, w', hpublish, -⟩ := publishKeys_cases me publicHex wrapped w
      · rw [hpublish]
        exact .inl rfl
      · rw [hpublish]
        exact .inr (.inr ⟨e, password, publicHex, wrapped, w', hmine, hpublic, hwrapped, hpublish,
          rfl⟩)
    next => exact .inl rfl

theorem sendDm_cases (ephemerals : BytesOf 32 × BytesOf 32) (b : Browser) (peer body : String)
    (w : World) :
    e2ee.sendDm ephemerals b peer body w = (none, w) ∨
      ∃ me secretHex theirHex blobs dm w', b.ident = some (me, secretHex) ∧
        ((publicKeyOf peer).exec w).1 = .ok theirHex ∧
        e2ee.sealDm ephemerals theirHex secretHex (jsTrim body) = .ok blobs ∧
        (sendSealedDm me peer blobs.1 blobs.2).exec w = (.ok dm, w') ∧
        e2ee.sendDm ephemerals b peer body w = (some dm, w') := by
  unfold sendDm
  split
  next => exact .inl rfl
  next =>
    split
    next me secretHex theirHex hident htheirs =>
      split
      next forRecipient forSender hseal =>
        obtain ⟨e, hsend⟩ | ⟨a, b', dm, w', hsend, -⟩ :=
          sendSealedDm_cases me peer forRecipient forSender w
        · rw [hsend]
          exact .inl rfl
        · rw [hsend]
          exact .inr ⟨me, secretHex, theirHex, _, dm, w', hident, htheirs, hseal, hsend, rfl⟩
      next => exact .inl rfl
    next => exact .inl rfl

end E2ee

theorem Browser.ident_eq_some {b : Browser} {me secretHex : String} :
    b.ident = some (me, secretHex) ↔ b.me = some me ∧ b.storage me = some secretHex := by
  simp only [Browser.ident, Option.bind_eq_some_iff, Option.map_eq_some_iff, Prod.mk.injEq]
  constructor
  · rintro ⟨handle, hme, stored, hstored, rfl, rfl⟩
    exact ⟨hme, hstored⟩
  · rintro ⟨hme, hstored⟩
    exact ⟨me, hme, secretHex, hstored, rfl, rfl⟩

/-- Whatever the password, a blob of the directory gives its own secret or none. -/
theorem IsPublished.recovers {e2ee : E2ee} {mine : UserKeys} (h : IsPublished e2ee mine)
    (hlawful : e2ee.Lawful) (hkeks : e2ee.KeksSeparate) {password secretHex : String}
    (hunwrap : e2ee.wasmUnwrapSecret password mine.wrappedSecret = .ok secretHex) :
    ∃ secret : IdentitySecret, secretHex = toHex secret.bytes.1 ∧
      mine.publicKey = toHex (e2ee.public_ secret).bytes.1 := by
  obtain ⟨secret, salt, nonce, kek, own, hkek, hpublicKey, hwrapped⟩ := h
  rw [hwrapped] at hunwrap
  refine ⟨secret, ?_, hpublicKey⟩
  exact E2ee.wasmUnwrapSecret_wrapped hlawful.cipher
    (fun kek' hkek' hne => hkeks hkek hkek' hne) hunwrap

theorem publishes_minted {e2ee : E2ee} {drawn : IdentityDraw} {password publicHex : String}
    {wrapped : WrappedKey} {user : User} {w w' : World}
    (hfound : w.store.findByHandle user.handle = some user) (htrim : trim user.handle = user.handle)
    (hpublic : e2ee.wasmIdentityPublic (toHex drawn.secret.1) = .ok publicHex)
    (hwrap : e2ee.wasmWrapSecret drawn.wrap password (toHex drawn.secret.1) = .ok wrapped)
    (hpublish : (publishKeys user.handle publicHex wrapped).exec w = (.ok (), w')) :
    IsPublished e2ee ⟨user.id, toHex (e2ee.public_ ⟨drawn.secret⟩).bytes.1, wrapped⟩ ∧
      w.Publishes w' ⟨user.id, toHex (e2ee.public_ ⟨drawn.secret⟩).bytes.1, wrapped⟩ := by
  have hwrap' : e2ee.wasmWrapSecret drawn.wrap password
      (toHex (⟨drawn.secret⟩ : IdentitySecret).bytes.1) = .ok wrapped := hwrap
  obtain ⟨kek, hkek, hwrapped⟩ := E2ee.wasmWrapSecret_eq_ok hwrap'
  have hpublic' : e2ee.wasmIdentityPublic (toHex drawn.secret.1) =
      .ok (toHex (e2ee.public_ ⟨drawn.secret⟩).bytes.1) :=
    E2ee.wasmIdentityPublic_toHex ⟨drawn.secret⟩
  rw [hpublic] at hpublic'
  obtain rfl := Except.ok.inj hpublic'
  obtain ⟨e, hfails⟩ | ⟨user', w'', hpublishes, hfound', hentry⟩ :=
    publishKeys_cases user.handle (toHex (e2ee.public_ ⟨drawn.secret⟩).bytes.1) wrapped w
  · rw [hpublish] at hfails
    cases hfails
  · rw [hpublish] at hpublishes
    obtain rfl := (Prod.mk.inj hpublishes).2
    rw [htrim, hfound] at hfound'
    obtain rfl := Option.some.inj hfound'
    rw [trim_toHex] at hentry
    refine ⟨?_, hentry⟩
    exact ⟨⟨drawn.secret⟩, drawn.wrap.salt.1, drawn.wrap.nonce, kek, password, hkek, rfl, hwrapped⟩

/-! ## What stays -/

/-- Accounts are found as before, and no entry of the directory changes. -/
structure IsLater (s s' : Inner) : Prop where
  found : ∀ handle user, s.findByHandle handle = some user →
    ∃ user', s'.findByHandle handle = some user' ∧ user'.id = user.id
  keys : ∀ reader entry, s.userKeys.get reader = some entry →
    s'.userKeys.get reader = some entry

section

variable {e2ee : E2ee} {s s' : Inner}

theorem IsLater.of_users (husers : s'.users = s.users)
    (hkeys : ∀ reader entry, s.userKeys.get reader = some entry →
      s'.userKeys.get reader = some entry) : IsLater s s' where
  found := by
    intro handle user hfound
    refine ⟨user, ?_, rfl⟩
    rw [Inner.findByHandle, husers]
    exact hfound
  keys := hkeys

theorem World.Publishes.later {w w' : World} {keys : UserKeys} (h : w.Publishes w' keys)
    (hnew : w.store.userKeys.get keys.userId = none) : IsLater w.store w'.store := by
  apply IsLater.of_users h.users
  intro reader entry hget
  rw [h.userKeys, Table.get_insert_of_ne, hget]
  rintro rfl
  rw [hnew] at hget
  cases hget

theorem World.Posts.later {w w' : World} {dm : DmMessage} (h : w.Posts w' dm) :
    IsLater w.store w'.store := by
  apply IsLater.of_users h.users
  intro reader entry hget
  rw [h.userKeys, hget]

theorem IsSealedFor.later (hlater : IsLater s s') {reader : UserId} {body blob : String}
    (h : IsSealedFor e2ee s.userKeys reader body blob) :
    IsSealedFor e2ee s'.userKeys reader body blob := by
  obtain ⟨identity, wrapped, ephemeral, hget, hblob⟩ := h
  exact ⟨identity, wrapped, ephemeral, hlater.keys reader _ hget, hblob⟩

theorem IsLetter.later (hlater : IsLater s s') {dm : DmMessage} {l : Letter}
    (h : IsLetter e2ee s.userKeys dm l) : IsLetter e2ee s'.userKeys dm l :=
  { h with
    forRecipient := h.forRecipient.later hlater
    forSender := h.forSender.later hlater }

theorem IsDevice.later (hlater : IsLater s s') {b : Browser} (h : IsDevice e2ee s b) :
    IsDevice e2ee s' b where
  stored := by
    intro handle secretHex hstored
    obtain ⟨user, hfound, secret, wrapped, hhex, hget⟩ := h.stored handle secretHex hstored
    obtain ⟨user', hfound', hid⟩ := hlater.found handle user hfound
    refine ⟨user', hfound', secret, wrapped, hhex, ?_⟩
    rw [hid]
    exact hlater.keys user.id _ hget
  me := h.me

/-- A secret is stored for an account that is found under its handle. -/
theorem IsDevice.store {b : Browser} (h : IsDevice e2ee s b) {me secretHex : String} {user : User}
    (hfound : s.findByHandle me = some user)
    (hsecret : IsSecretOf e2ee s.userKeys user.id secretHex) :
    IsDevice e2ee s (b.store me secretHex) where
  stored := by
    intro handle stored hstored
    simp only [Browser.store] at hstored
    split at hstored
    next hhandle =>
      rw [hhandle, ← Option.some.inj hstored]
      exact ⟨user, hfound, hsecret⟩
    next => exact h.stored handle stored hstored
  me := h.me

theorem IsDevice.signOut {b : Browser} (h : IsDevice e2ee s b) :
    IsDevice e2ee s { b with me := none } where
  stored := h.stored
  me := by
    intro handle hme
    cases hme

theorem IsDevice.signIn {b : Browser} (h : IsDevice e2ee s b) {me : String} (hme : trim me = me) :
    IsDevice e2ee s { b with me := some me } where
  stored := h.stored
  me := by
    rintro handle ⟨⟩
    exact hme

end

namespace Correspondence

variable {e2ee : E2ee} {c c' : Correspondence}

theorem sound_start (node : NodeId) (now : Timestamp) : (start node now).Sound e2ee where
  enrolled := .empty node now
  published := by
    intro keys hkeys
    cases hkeys
  devices := by
    intro i
    constructor
    · intro handle secretHex hstored
      cases hstored
    · intro handle hme
      cases hme
  letters := .nil
  ranked := .nil
  minted := by
    intro dm hdm
    cases hdm

namespace Sound

variable (h : c.Sound e2ee)

include h

/-- The messages and the directory stay as they are. -/
theorem quiet (henrolled : c'.world.Enrolled) (hlater : IsLater c.world.store c'.world.store)
    (hsame : SameLetters c.world.store c'.world.store)
    (hcount : CountsOn c.world.store c'.world.store)
    (hletters : c'.letters = c.letters) (hdevices : ∀ i, IsDevice e2ee c.world.store (c'.browsers i)) :
    c'.Sound e2ee where
  enrolled := henrolled
  published := by
    rw [hsame.2]
    exact h.published
  devices i := (hdevices i).later hlater
  letters := by
    rw [hsame.1, hletters]
    exact h.letters.imp fun dm l => .later hlater
  ranked := by
    rw [hsame.1]
    exact h.ranked
  minted := by
    rw [hsame.1, hcount.1]
    intro dm hdm
    obtain ⟨hnode, hseq⟩ := h.minted dm hdm
    exact ⟨hnode, hseq.trans hcount.2.2⟩

theorem serve (services : Services) {u : UseCase} (hu : u.isPrivate = false) :
    (c.step e2ee services (.serve u)).Sound e2ee := by
  apply h.quiet
  · exact h.enrolled.serve services u
  · constructor
    · intro handle user hfound
      obtain ⟨user', hfound', hsame⟩ := h.enrolled.found services u hfound
      exact ⟨user', hfound', hsame.id⟩
    · intro reader entry hget
      rw [step, (SameLetters.serve services c.world hu).2]
      exact hget
  · exact SameLetters.serve services c.world hu
  · exact services.serve_common (common_countsOn u.parts) c.world
  · rfl
  · exact h.devices

/-- One browser changes, and the node does not. -/
theorem browser (i : Nat) {b : Browser} (hb : IsDevice e2ee c.world.store b) :
    Sound e2ee { c with browsers := Function.update c.browsers i b } := by
  apply h.quiet
  · exact h.enrolled
  · exact .of_users rfl fun reader entry hget => hget
  · exact ⟨rfl, rfl⟩
  · exact .of_eq rfl rfl rfl
  · rfl
  · exact (Function.forall_update_iff c.browsers fun _ b => IsDevice e2ee c.world.store b).2
      ⟨hb, fun j _ => h.devices j⟩

/-- Nobody's entry is replaced. -/
theorem publish {w' : World} {keys : UserKeys} (hpublish : c.world.Publishes w' keys)
    (hnew : c.world.store.userKeys.get keys.userId = none) (hkeys : IsPublished e2ee keys) :
    Sound e2ee { c with world := w' } := by
  have hlater := hpublish.later hnew
  constructor
  · exact h.enrolled.same (hpublish.users ▸ .refl _) hpublish.counts
  · intro entry hentry
    rw [hpublish.userKeys] at hentry
    rcases Table.mem_insert.1 hentry with rfl | ⟨hold, -⟩
    · exact hkeys
    · exact h.published entry hold
  · exact fun i => (h.devices i).later hlater
  · show List.Forall₂ (IsLetter e2ee w'.store.userKeys) w'.store.dms c.letters
    rw [hpublish.dms]
    exact h.letters.imp fun dm l => .later hlater
  · show w'.store.dms.Pairwise _
    rw [hpublish.dms]
    exact h.ranked
  · show ∀ dm ∈ w'.store.dms, dm.id.node = w'.store.node ∧ dm.id.sequence ≤ w'.store.nextDm
    rw [hpublish.dms, hpublish.counts.1, hpublish.nextDm]
    exact h.minted

/-- A message comes in under an id above all others. -/
theorem post {w' : World} {dm : DmMessage} {l : Letter} (hposts : c.world.Posts w' dm)
    (hletter : IsLetter e2ee c.world.store.userKeys dm l) :
    Sound e2ee { c with world := w', letters := c.letters ++ [l] } := by
  have hlater := hposts.later
  constructor
  · exact h.enrolled.same (hposts.users ▸ .refl _) hposts.counts
  · show ∀ keys ∈ w'.store.userKeys.rows, IsPublished e2ee keys
    rw [hposts.userKeys]
    exact h.published
  · exact fun i => (h.devices i).later hlater
  · show List.Forall₂ (IsLetter e2ee w'.store.userKeys) w'.store.dms (c.letters ++ [l])
    rw [hposts.dms, hposts.userKeys]
    exact List.rel_append h.letters (.cons hletter .nil)
  · show w'.store.dms.Pairwise _
    rw [hposts.dms, List.pairwise_append]
    refine ⟨h.ranked, List.pairwise_singleton _ dm, ?_⟩
    intro old hold new hnew
    obtain ⟨hnode, hseq⟩ := h.minted old hold
    rw [List.mem_singleton.1 hnew, hposts.id_eq]
    exact Id.lt_composeId hnode (Nat.lt_succ_of_le hseq)
  · show ∀ dm ∈ w'.store.dms, dm.id.node = w'.store.node ∧ dm.id.sequence ≤ w'.store.nextDm
    rw [hposts.dms, hposts.counts.1, hposts.nextDm, List.forall_mem_append]
    constructor
    · intro old hold
      obtain ⟨hnode, hseq⟩ := h.minted old hold
      exact ⟨hnode, Nat.le_succ_of_le hseq⟩
    · intro new hnew
      rw [List.mem_singleton.1 hnew, hposts.id_eq]
      exact ⟨rfl, le_rfl⟩

theorem signIn (services : Services) (hlawful : e2ee.Lawful) (hkeks : e2ee.KeksSeparate) (i : Nat)
    (handle : String) (password? : Option String) (drawn : IdentityDraw) :
    (c.step e2ee services (.signIn i handle password? drawn)).Sound e2ee := by
  rw [step]
  cases hfound : c.world.store.findByHandle (trim handle) with
  | none => exact h
  | some user =>
    have hhandle : user.handle = trim handle := (h.enrolled.findByHandle_eq_some.1 hfound).2
    have htrim : trim user.handle = user.handle := by rw [hhandle, trim_trim]
    rw [← hhandle] at hfound
    have hmine := myKeys_exec (htrim.symm ▸ hfound)
    have hb := (h.devices i).signIn htrim
    dsimp only
    obtain hrun | ⟨mine, password, secretHex, hok, hunwrap, hrun⟩ |
        ⟨e, password, publicHex, wrapped, w', herror, hpublic, hwrap, hpublish, hrun⟩ :=
      e2ee.ensureIdentity_cases drawn password? user.handle
        { c.browsers i with me := some user.handle } c.world
    · rw [hrun]
      exact h.browser i hb
    · -- The secret comes from the directory.
      rw [hrun]
      rw [hok] at hmine
      cases hget : c.world.store.userKeys.get user.id with
      | none =>
        rw [hget] at hmine
        cases hmine
      | some entry =>
        rw [hget] at hmine
        obtain rfl := Except.ok.inj hmine
        obtain ⟨secret, hhex, hpublicKey⟩ :=
          (h.published mine (Table.mem_of_get hget)).recovers hlawful hkeks hunwrap
        apply h.browser i
        apply hb.store hfound
        refine ⟨secret, mine.wrappedSecret, hhex, ?_⟩
        rw [hget, ← hpublicKey, ← Table.key_of_get hget]
    · -- The secret is new, and so is its entry.
      rw [hrun]
      rw [herror] at hmine
      cases hget : c.world.store.userKeys.get user.id with
      | some entry =>
        rw [hget] at hmine
        cases hmine
      | none =>
        obtain ⟨hpublished, hpublishes⟩ :=
          publishes_minted hfound htrim hpublic hwrap hpublish
        have hlater := hpublishes.later hget
        apply (h.publish hpublishes hget hpublished).browser i
        apply (hb.later hlater).store
        · rw [Inner.findByHandle, hpublishes.users]
          exact hfound
        · refine ⟨⟨drawn.secret⟩, wrapped, rfl, ?_⟩
          rw [hpublishes.userKeys]
          exact Table.get_insert_self _ _

theorem send (services : Services) (i : Nat) (peer body : String)
    (ephemerals : BytesOf 32 × BytesOf 32) :
    (c.step e2ee services (.send i peer body ephemerals)).Sound e2ee := by
  rw [step]
  obtain hrun | ⟨me, secretHex, theirHex, blobs, dm, w', hident, htheirs, hseal, hsend, hrun⟩ :=
    e2ee.sendDm_cases ephemerals (c.browsers i) peer body c.world
  · rw [hrun]
    exact h
  · rw [hrun]
    dsimp only
    obtain ⟨hme, hstored⟩ := Browser.ident_eq_some.1 hident
    obtain ⟨a, hfound, secret, wrapped, hhex, hown⟩ := (h.devices i).stored me secretHex hstored
    obtain ⟨b, keys, hpeer, hget, hpublicKey⟩ := publicKeyOf_eq_ok htheirs
    obtain ⟨theirs, salt, nonce, kek, password, -, htheirHex, hwrapped⟩ :=
      h.published keys (Table.mem_of_get hget)
    have hentry : keys = ⟨b.id, toHex (e2ee.public_ theirs).bytes.1, keys.wrappedSecret⟩ := by
      rw [← htheirHex, ← Table.key_of_get hget]
    rw [← hpublicKey, htheirHex, hhex, E2ee.sealDm_toHex] at hseal
    obtain rfl := Except.ok.inj hseal
    obtain ⟨e, hfails⟩ | ⟨a', b', dm', w'', hsends, ha, hb, hne, hsender, hrecipient, hforRecipient,
        hforSender, hposts⟩ := sendSealedDm_cases me peer _ _ c.world
    · rw [hsend] at hfails
      cases hfails
    · rw [hsend] at hsends
      obtain ⟨hdm, rfl⟩ := Prod.mk.inj hsends
      obtain rfl := Except.ok.inj hdm
      rw [(h.devices i).me me hme, hfound] at ha
      rw [hpeer] at hb
      obtain rfl := Option.some.inj ha
      obtain rfl := Option.some.inj hb
      apply h.post hposts
      constructor
      · rfl
      · rfl
      · rw [hsender, hrecipient]
        exact hne
      · refine ⟨e2ee.public_ theirs, keys.wrappedSecret, ephemerals.1, ?_, ?_⟩
        · rw [hrecipient, hget, ← hentry]
        · rw [hforRecipient, trim_toHex]
      · refine ⟨e2ee.public_ secret, wrapped, ephemerals.2, ?_, ?_⟩
        · rw [hsender, hown]
        · rw [hforSender, trim_toHex]
      · exact ⟨body, rfl⟩

theorem step (services : Services) (hlawful : e2ee.Lawful) (hkeks : e2ee.KeksSeparate)
    {errand : Errand} (hquiet : ∀ u, errand = .serve u → u.isPrivate = false) :
    (c.step e2ee services errand).Sound e2ee := by
  cases errand with
  | signIn i handle password? drawn => exact h.signIn services hlawful hkeks i handle password? drawn
  | signOut i => exact h.browser i (h.devices i).signOut
  | send i peer body ephemerals => exact h.send services i peer body ephemerals
  | serve u => exact h.serve services (hquiet u rfl)

end Sound

theorem sound_run (services : Services) (hlawful : e2ee.Lawful) (hkeks : e2ee.KeksSeparate)
    (h : c.Sound e2ee) {errands : List Errand}
    (hquiet : ∀ u, .serve u ∈ errands → u.isPrivate = false) :
    (c.run e2ee services errands).Sound e2ee := by
  induction errands generalizing c with
  | nil => exact h
  | cons errand errands ih =>
    apply ih
    · apply h.step services hlawful hkeks
      rintro u rfl
      exact hquiet u List.mem_cons_self
    · intro u hu
      exact hquiet u (List.mem_cons_of_mem _ hu)

end Correspondence

/-! ## What is read -/

/-- The bytes of a text decode to it, save for a mark at its start that is dropped. -/
def DecodesTexts (decode : List UInt8 → String) : Prop :=
  ∀ s : String, s.toList.head? ≠ some '\ufeff' → decode (asBytes s) = s

theorem head?_jsTrim (raw : String) : (jsTrim raw).toList.head? ≠ some '\ufeff' := by
  intro hhead
  rw [jsTrim, String.toList_ofList] at hhead
  obtain ⟨rest, hrest⟩ := List.rdropWhile_prefix isJsSpace (raw.toList.dropWhile isJsSpace)
  have hfirst := List.head?_dropWhile_not isJsSpace raw.toList
  rw [← hrest, List.head?_append, hhead] at hfirst
  have hspace : isJsSpace '\ufeff' = false := hfirst
  exact absurd hspace (by decide)

/-- Selections that agree on lists side by side, read in the same way. -/
theorem map_filter_eq_of_forall₂ {α β γ : Type*} {R : α → β → Prop} {p : α → Bool} {q : β → Bool}
    {f : α → γ} {g : β → γ} {l : List α} {m : List β} (h : List.Forall₂ R l m)
    (hselect : ∀ a b, R a b → p a = q b) (hread : ∀ a b, R a b → q b = true → f a = g b) :
    (l.filter p).map f = (m.filter q).map g := by
  induction h with
  | nil => rfl
  | @cons a b l m hab _ ih =>
    rw [List.filter_cons, List.filter_cons, hselect a b hab]
    split
    next hb => rw [List.map_cons, List.map_cons, hread a b hab hb, ih]
    next => exact ih

theorem conversation_of_ranked {s : Inner} (h : s.dms.Pairwise (fun dm dm' => dm.id < dm'.id))
    (a b : UserId) : s.conversation a b = s.dms.filter (fun dm => dm.isBetween a b) := by
  apply List.mergeSort_of_pairwise
  exact (h.filter _).imp (fun hlt => decide_eq_true hlt.le)

section

variable {e2ee : E2ee} {decode : List UInt8 → String}

theorem IsSealedFor.opens {keys : Table UserKeys.userId} {reader : UserId} {body blob : String}
    (h : IsSealedFor e2ee keys reader body blob) (hlawful : e2ee.Lawful)
    (hdecode : decode (asBytes body) = body) {secretHex : String}
    (hsecret : IsSecretOf e2ee keys reader secretHex) :
    ((e2ee.wasmOpen secretHex blob).toOption).map (hexToText decode) = some body := by
  obtain ⟨identity, wrapped, ephemeral, hget, rfl⟩ := h
  obtain ⟨secret, wrapped', rfl, hget'⟩ := hsecret
  rw [hget] at hget'
  have hhex : toHex identity.bytes.1 = toHex (e2ee.public_ secret).bytes.1 :=
    congrArg UserKeys.publicKey (Option.some.inj hget')
  have hidentity : e2ee.public_ secret = identity := by
    have hok : e2ee.publicFromHex (toHex identity.bytes.1) = .ok identity :=
      E2ee.publicFromHex_toHex identity
    rw [hhex, E2ee.publicFromHex_toHex] at hok
    exact Except.ok.inj hok
  rw [E2ee.wasmOpen_sealTo hlawful hidentity]
  show some (hexToText decode (toHex (asBytes body))) = some body
  rw [hexToText, hexBytes_toHex, Option.getD_some, hdecode]

/-- A device with the account's secret shows what was written. -/
theorem Correspondence.Sound.reads {c : Correspondence} (h : c.Sound e2ee)
    (hlawful : e2ee.Lawful) (hdecode : DecodesTexts decode) {i : Nat} {me secretHex : String}
    (hme : (c.browsers i).me = some me) (hstored : (c.browsers i).storage me = some secretHex)
    (peer : String) :
    e2ee.loadConversation decode (c.browsers i) peer c.world = c.written me peer := by
  obtain ⟨a, hfound, hsecret⟩ := (h.devices i).stored me secretHex hstored
  have htrim := (h.devices i).me me hme
  have hident := Browser.ident_eq_some.2 ⟨hme, hstored⟩
  rw [← htrim] at hfound
  rw [E2ee.loadConversation, hme]
  dsimp only
  rw [dmThread, World.conversation, Correspondence.written, hfound]
  cases hpeer : c.world.store.findByHandle (trim peer) with
  | none => rfl
  | some b =>
    dsimp only
    rw [conversation_of_ranked h.ranked, List.map_map]
    apply map_filter_eq_of_forall₂ h.letters
    · intro dm l hl
      rw [DmMessage.isBetween, Letter.isBetween, hl.sender, hl.recipient]
    · intro dm l hl hbetween
      have htext : ∀ {blob}, IsSealedFor e2ee c.world.store.userKeys a.id l.body blob →
          ((c.browsers i).ident.bind fun ident => (e2ee.wasmOpen ident.2 blob).toOption).map
            (hexToText decode) = some l.body := by
        intro blob hsealed
        obtain ⟨raw, hraw⟩ := hl.trimmed
        rw [hident, Option.bind_some]
        exact hsealed.opens hlawful (hdecode l.body (hraw ▸ head?_jsTrim raw)) hsecret
      rw [Letter.isBetween, Bool.or_eq_true, Bool.and_eq_true, Bool.and_eq_true] at hbetween
      simp only [beq_iff_eq] at hbetween
      dsimp only [Function.comp]
      rw [hl.sender]
      obtain ⟨hsender, -⟩ | ⟨hsender, hrecipient⟩ := hbetween
      · have hmine : (l.sender == a.id) = true := beq_iff_eq.2 hsender
        rw [if_pos hmine, if_pos hmine, hmine, htext (hsender ▸ hl.forSender), hsender,
          SocialOp.getUser_of_findByHandle hfound]
        rfl
      · have hmine : (l.sender == a.id) = false :=
          beq_eq_false_iff_ne.2 (hrecipient ▸ hl.differ)
        rw [hmine, htext (hrecipient ▸ hl.forRecipient), hsender, SocialOp.getUser_of_findByHandle hpeer]
        rfl

end

namespace Agora

def padded (n : Nat) (bytes : List UInt8) : BytesOf n :=
  ⟨(bytes ++ List.replicate n 0).take n, List.length_take_of_le (by simp)⟩

/-- A cipher that hides nothing; its tag is half of the key. -/
def boxCipher : Aead (BytesOf 32) (BytesOf 12) (List UInt8) (List UInt8) where
  encrypt key _ p := p ++ key.1.take 16
  decrypt key _ c :=
    if (key.1.take 16).isSuffixOf c then some (c.take (c.length - 16)) else none

theorem length_tag (key : BytesOf 32) : (key.1.take 16).length = 16 :=
  List.length_take_of_le (by rw [key.2]; decide)

theorem lawful_boxCipher : boxCipher.Lawful where
  opens := by
    intro key nonce p
    simp only [boxCipher, List.isSuffixOf_iff_suffix, List.suffix_append, if_true]
    rw [List.length_append, length_tag, Nat.add_sub_cancel, List.take_left]
  authentic := by
    intro key nonce c p h
    simp only [boxCipher, List.isSuffixOf_iff_suffix] at h ⊢
    split at h
    next hsuffix =>
      obtain ⟨rest, rfl⟩ := hsuffix
      rw [List.length_append, length_tag, Nat.add_sub_cancel, List.take_left] at h
      rw [← Option.some.inj h]
    next => cases h

theorem separates_boxCipher {key key' : BytesOf 32} (h : key.1.take 16 ≠ key'.1.take 16) :
    boxCipher.Separates key key' := by
  intro nonce nonce' p
  simp only [boxCipher, List.isSuffixOf_iff_suffix]
  rw [if_neg]
  intro hsuffix
  have htags : key'.1.take 16 <:+ key.1.take 16 :=
    List.suffix_of_suffix_length_le hsuffix (List.suffix_append p _) (by rw [length_tag, length_tag])
  exact h (htags.eq_of_length (by rw [length_tag, length_tag])).symm

/-- The first bytes of the password are the key. -/
def e2ee : E2ee where
  exchange := ⟨id, fun a b => padded 32 (List.zipWith (· + ·) a.1 b.1)⟩
  sha256 := padded 32
  argon2 password _ := .ok (padded 32 (padded 16 (asBytes password)).1)
  cipher := boxCipher
  hexError _ := "not hex"

theorem lawful_e2ee : e2ee.Lawful where
  exchange a b := congrArg (padded 32) (List.zipWith_comm_of_comm fun x y => UInt8.add_comm x y)
  cipher := lawful_boxCipher
  tagged := by
    intro key nonce p
    simp only [e2ee, boxCipher, List.length_append, length_tag]

theorem keksSeparate_e2ee : e2ee.KeksSeparate := by
  intro password password' salt salt' kek kek' hkek hkek' hne
  obtain rfl := Except.ok.inj hkek
  obtain rfl := Except.ok.inj hkek'
  apply separates_boxCipher
  intro htags
  apply hne
  have hpad : ∀ bytes : BytesOf 16, (padded 32 bytes.1).1 = bytes.1 ++ List.replicate 16 0 := by
    intro bytes
    simp [padded, List.take_append, bytes.2]
  have htag : ∀ bytes : BytesOf 16, (padded 32 bytes.1).1.take 16 = bytes.1 := by
    intro bytes
    rw [hpad, List.take_left' bytes.2]
  rw [htag, htag] at htags
  rw [Subtype.ext htags]

/-- A decoder that drops the mark at the start of a text. -/
def textDecoder (bytes : List UInt8) : String :=
  match (fromUtf8 bytes).getD "" with
  | s => if s.toList.head? = some '\ufeff' then String.ofList s.toList.tail else s

theorem decodesTexts_textDecoder : DecodesTexts textDecoder := by
  intro s hs
  rw [textDecoder, fromUtf8_asBytes]
  exact if_neg hs

def identityDraw (n : UInt8) : IdentityDraw :=
  ⟨padded 32 [n], ⟨padded 16 [n], padded 12 [n]⟩⟩

/-- Two users write to each other, the first of them from two devices. -/
def letterErrands : List Errand :=
  [.serve (.op (.registerAccount "ada")), .serve (.op (.registerAccount "bob")),
    .signIn 0 "ada" (some "lovelace") (identityDraw 1),
    .signIn 1 "bob" (some "builder") (identityDraw 2),
    .send 0 "bob" " hello " (padded 32 [3], padded 32 [4]),
    .signIn 2 "ada" (some "lovelace") (identityDraw 5),
    .send 2 "bob" "hello?" (padded 32 [6], padded 32 [7]),
    .send 1 "ada" "hi" (padded 32 [8], padded 32 [9])]

theorem first_device :
    (((Correspondence.start 1 ⟨0⟩).run e2ee services letterErrands).browsers 0).me = some "ada" ∧
      ((((Correspondence.start 1 ⟨0⟩).run e2ee services letterErrands).browsers 0).storage
        "ada").isSome = true := by
  simp only [letterErrands, Correspondence.run_cons, Correspondence.run_nil,
    Correspondence.browsers_send, ne_eq, OfNat.zero_ne_ofNat, zero_ne_one, not_false_eq_true,
    Correspondence.browsers_signIn_of_ne]
  decide +kernel

end Agora

end Democrachat
