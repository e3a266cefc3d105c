import Democrachat.App.World
import Democrachat.Domain.Credentials
import Democrachat.Federation.Authorize

/-!
# The session cookie

`adapter-web/src/auth.rs` and `app/src/session/session_signer.rs`.  HMAC-SHA256 is a parameter.
-/

namespace Democrachat

/-! ## Texts -/

/-- `str::parse::<i64>`. -/
def parseI64 (s : String) : Option Int :=
  let (negative, digits) := match s.toList with
    | '-' :: cs => (true, cs)
    | '+' :: cs => (false, cs)
    | cs => (false, cs)
  if digits ≠ [] ∧ digits.all (·.isDigit) then
    let n := digits.foldl (fun n c => 10 * n + (c.toNat - '0'.toNat)) 0
    let n : Int := if negative then -n else n
    if -2 ^ 63 ≤ n ∧ n < 2 ^ 63 then some n else none
  else none

/-- The first cookie of the name in a `Cookie` header. -/
def cookieValue (raw name : String) : Option String :=
  (raw.toList.splitOn ';').findSome? fun kv =>
    match splitOnce '=' kv with
    | some (k, v) =>
      if trimChars k = name.toList then some (String.ofList (trimChars v)) else none
    | none => none

example : cookieValue "dc_csrf=x; sid = a.b ;sid=c" "sid" = some "a.b" := by decide

/-! ## Sessions -/

/-- What a token whose signature verifies says. -/
structure UserSession where
  uid : UserId
  expiresAt : Int
deriving DecidableEq

structure SessionSigner where
  /-- The bytes of the MAC over the numbers of the account and of the expiry. -/
  mac : Nat → Int → List UInt8

namespace SessionSigner

variable (signer : SessionSigner)

/-- The token is `<uid>.<expires_at>.<hex-hmac>`. -/
def sign (session : UserSession) : String :=
  let uid := session.uid.node.val * 2 ^ 48 + session.uid.sequence
  toString uid ++ "." ++ toString session.expiresAt ++ "." ++
    Federation.toHex (signer.mac uid session.expiresAt)

/-- The expiry is not checked here. -/
def verify (token : String) : Option UserSession := do
  let (first, rest) ← splitOnce '.' token.toList
  let uid ← Federation.parseU64 (String.ofList first)
  let (second, sig) ← splitOnce '.' rest
  let expiresAt ← parseI64 (String.ofList second)
  let given ← Federation.hexBytes sig
  if given = signer.mac uid expiresAt then
    some ⟨Federation.idOfU64 uid, expiresAt⟩
  else none

/-- The session that a `Cookie` header presents. -/
def presented (cookies : Option String) : Option UserSession := do
  let raw ← cookies
  let token ← cookieValue raw "sid"
  signer.verify token

end SessionSigner

def Inner.userHandle (s : Inner) (id : UserId) : Option String := (s.getUser id).map (·.handle)

/-- The handle that the account of the session has now, unless the session has expired. -/
def UserSession.actor (session : UserSession) (w : World) : Option String :=
  if session.expiresAt < w.now.secs then none else w.store.userHandle session.uid

def currentActor (signer : SessionSigner) (w : World) (cookies : Option String) : Option String := do
  let session ← signer.presented cookies
  session.actor w

/-- The status and the body of the answer to a request without a session. -/
def unauthorized : Nat × String := (401, "err.not_signed_in")

def requireActor (signer : SessionSigner) (w : World) (cookies : Option String) :
    Except (Nat × String) String :=
  match currentActor signer w cookies with
  | some handle => .ok handle
  | none => .error unauthorized

theorem requireActor_eq_ok {signer : SessionSigner} {w : World} {cookies : Option String}
    {handle : String} :
    requireActor signer w cookies = .ok handle ↔
      ∃ session, signer.presented cookies = some session ∧ session.actor w = some handle := by
  have hcurrent : requireActor signer w cookies = .ok handle ↔
      currentActor signer w cookies = some handle := by
    unfold requireActor
    cases currentActor signer w cookies with
    | none => simp
    | some found => simp
  rw [hcurrent, currentActor]
  exact Option.bind_eq_some_iff

theorem UserSession.actor_eq_some {session : UserSession} {w : World} {handle : String} :
    session.actor w = some handle ↔
      w.now.secs ≤ session.expiresAt ∧
        ∃ user ∈ w.store.users.rows, user.id = session.uid ∧ user.handle = handle := by
  unfold actor Inner.userHandle Inner.getUser
  by_cases hexpired : session.expiresAt < w.now.secs
  · rw [if_pos hexpired]
    constructor
    · rintro ⟨⟩
    · rintro ⟨hlive, -⟩
      omega
  · rw [if_neg hexpired, Option.map_eq_some_iff]
    constructor
    · rintro ⟨user, hget, rfl⟩
      exact ⟨by omega, user, Library.Table.mem_of_get hget, Library.Table.key_of_get hget, rfl⟩
    · rintro ⟨-, user, hmem, hid, rfl⟩
      rw [← hid]
      exact ⟨user, Library.Table.mem_iff.1 hmem, rfl⟩

end Democrachat
