import Democrachat.App.Errors
import Democrachat.App.World
import Democrachat.Domain.Credentials

/-!
# Accounts

The account use-cases of `app/src/services.rs`.  Cryptography is code the
repository only calls: `Services` holds its pure functions, and what it draws
at random (salts, nonces, tokens) is an input of the request.
-/

namespace Democrachat

open Library Req

inductive EmailVerificationMode where
  | off | hard
deriving DecidableEq

def EmailVerificationMode.requiresVerification : EmailVerificationMode → Bool
  | off => false
  | hard => true

/-- What a `Services` value is configured with besides the store and the clock:
the email policy, and the digests and the decryption under the email key. -/
structure Services where
  emailVerification : EmailVerificationMode
  hasEmailKey : Bool
  /-- `open_email`; `none` where the source has an `Err`. -/
  openEmail : String → Option String
  hashToken : String → String
  hashCode : String → String

/-- What one account request draws. -/
structure Drawn where
  /-- `hash_password`; `none` where the source has an `Err`. -/
  passwordHash : Option String
  sealedEmail : String
  rawToken : String

structure Registration where
  user : User
  verificationToken : Option String
deriving DecidableEq

structure ResendTarget where
  email : String
  token : String
deriving DecidableEq

def verificationTtlSecs : Int := 24 * 60 * 60

def registerAccount (handle : String) : Req World RegisterError User := do
  let handle := trim handle
  ensure (!handle.isEmpty) .emptyHandle
  let taken ← ask (·.findByHandle handle)
  ensure taken.isNone (.handleTaken handle)
  let id ← transact (·.nextUserId)
  let now ← clockNow
  let user := { User.new id handle now with emailVerified := true }
  write (·.insertUser user)
  return user

namespace Services

variable (services : Services)

/-- Some stored address opens to the same normalized one. -/
def emailClash (users : List User) (email : String) : Bool :=
  (users.filter (fun u => !u.emailEnc.isEmpty)).any
    (fun u => (services.openEmail u.emailEnc).any (fun e => normalizeEmail e == normalizeEmail email))

/-- With a key, addresses are unique and stored sealed; without one, none is
stored. -/
def sealNewEmail (drawn : Drawn) (email : String) : Req World RegisterError String :=
  if services.hasEmailKey then do
    let users ← ask (·.listUsers)
    ensure (!services.emailClash users email) .emailTaken
    return drawn.sealedEmail
  else
    return ""

/-- The token that the new account has to spend, where the policy asks for one. -/
def newVerificationToken (drawn : Drawn) (user : UserId) :
    Req World RegisterError (Option String) :=
  if services.emailVerification.requiresVerification && services.hasEmailKey then do
    let now ← clockNow
    write (·.addToken ⟨services.hashToken drawn.rawToken, user, now.secs + verificationTtlSecs⟩)
    return some drawn.rawToken
  else
    return none

def registerWithPassword (drawn : Drawn) (handle email password : String) :
    Req World RegisterError Registration := do
  let handle := trim handle
  ensure (!handle.isEmpty) .emptyHandle
  orElse (validatePassword password) (fun e => .weakPassword e.display)
  orElse (validateEmail email) (fun e => .invalidEmail e.display)
  let taken ← ask (·.findByHandle handle)
  ensure taken.isNone (.handleTaken handle)
  let emailEnc ← services.sealNewEmail drawn email
  let hash ← okOr drawn.passwordHash .hashFailed
  let id ← transact (·.nextUserId)
  let now ← clockNow
  let token ← services.newVerificationToken drawn id
  let user := { User.new id handle now with
    passwordHash := hash, emailEnc := emailEnc, emailVerified := token.isNone }
  write (·.insertUser user)
  return ⟨user, token⟩

/-- The source answers `None` where this answers with an error. -/
def verifyEmail (rawToken : String) : Req World Unit User := do
  let now ← clockNow
  let userId ← okOr (← transact (·.takeToken (services.hashToken rawToken) now.secs)) ()
  let user ← okOr (← ask (·.getUser userId)) ()
  let user := { user with emailVerified := true }
  write (·.updateUser user)
  return user

def issueResend (drawn : Drawn) (handle : String) : Req World Unit ResendTarget := do
  ensure services.hasEmailKey ()
  ensure services.emailVerification.requiresVerification ()
  let user ← okOr (← ask (·.findByHandle (trim handle))) ()
  ensure (!(user.emailVerified || user.emailEnc.isEmpty)) ()
  let email ← okOr (services.openEmail user.emailEnc) ()
  let now ← clockNow
  write (·.addToken
    ⟨services.hashToken drawn.rawToken, user.id, now.secs + verificationTtlSecs⟩)
  return ⟨email, drawn.rawToken⟩

end Services

def setPassword (drawn : Drawn) (handle password : String) : Req World RegisterError Unit := do
  orElse (validatePassword password) (fun e => .weakPassword e.display)
  let user ← okOr (← ask (·.findByHandle (trim handle))) .emptyHandle
  let hash ← okOr drawn.passwordHash .hashFailed
  write (·.updateUser { user with passwordHash := hash })

end Democrachat
