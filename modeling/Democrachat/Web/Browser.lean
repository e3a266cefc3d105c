import Democrachat.App.E2ee
import Democrachat.App.Keys
import Democrachat.App.Listing
import Democrachat.App.Social
import Democrachat.System.UseCases

/-!
# The browser

What `adapter-web/src/app.js` does with device keys and direct messages, and the handlers of
`key_directory_service.rs` and `social_handlers.rs` that answer it.  The API calls of one action
follow each other; the JSON between the two sides is left out.
-/

namespace Democrachat

open Library Library.Utf8 Federation Req

/-! ## What the browser is answered -/

inductive DirectoryError where
  | noSuchUser (handle : String)
  | notPublished (handle : String)
deriving DecidableEq

def myKeys (handle : String) : Req World DirectoryError UserKeys := do
  let user ← okOr (← ask (·.findByHandle (trim handle))) (.noSuchUser handle)
  okOr (← ask (·.userKeys.get user.id)) (.notPublished handle)

def publicKeyOf (handle : String) : Req World DirectoryError String := do
  let user ← okOr (← ask (·.findByHandle (trim handle))) (.noSuchUser handle)
  okOr ((← ask (·.userKeys.get user.id)).map (·.publicKey)) (.notPublished handle)

structure DmMessageDto where
  isMine : Bool
  sender : String
  sealedForMe : String

/-- The handler of a conversation; nothing where there is no such user. -/
def dmThread (w : World) (me other : String) : List DmMessageDto :=
  match w.store.findByHandle (trim me) with
  | none => []
  | some meUser =>
    (w.conversation me other).map fun m =>
      let isMine := m.sender == meUser.id
      { isMine
        sender := ((w.store.getUser m.sender).map (·.handle)).getD ""
        sealedForMe := if isMine then m.sealedForSender else m.sealedForRecipient }

/-! ## Texts -/

/-- White space and line ends, as `String.prototype.trim` knows them. -/
def isJsSpace (c : Char) : Bool :=
  c ∈ ['\t', '\n', '\x0b', '\x0c', '\r', ' ', '\u00a0', '\u1680', '\u2028', '\u2029', '\u202f',
    '\u205f', '\u3000', '\ufeff'] ∨ '\u2000' ≤ c ∧ c ≤ '\u200a'

def jsTrim (s : String) : String :=
  String.ofList ((s.toList.dropWhile isJsSpace).rdropWhile isJsSpace)

def textToHex (s : String) : String := toHex (asBytes s)

/-- `TextDecoder` of the bytes. -/
def hexToText (decode : List UInt8 → String) (h : String) : String :=
  decode ((hexBytes h.toList).getD [])

/-! ## Keys -/

structure Browser where
  me : Option String
  /-- `localStorage`, by handle. -/
  storage : String → Option String

namespace Browser

def new : Browser := ⟨none, fun _ => none⟩

def store (b : Browser) (handle secretHex : String) : Browser :=
  { b with storage := fun h => if h = handle then some secretHex else b.storage h }

/-- `S.ident`: the handle, and the secret that is stored for it. -/
def ident (b : Browser) : Option (String × String) :=
  b.me.bind fun me => (b.storage me).map (me, ·)

end Browser

structure IdentityDraw where
  secret : BytesOf 32
  wrap : WrapDraw

/-- One bubble of a conversation; the text is missing where it stays locked. -/
structure Bubble where
  isMine : Bool
  sender : String
  text : Option String
deriving DecidableEq

namespace E2ee

variable (e2ee : E2ee)

/-- `ensureIdentity` for a browser that is signed in as `me`. -/
def ensureIdentity (drawn : IdentityDraw) (password : Option String) (me : String) (b : Browser)
    (w : World) : Browser × World :=
  match b.storage me, ((myKeys me).exec w).1, password with
  | some _, _, _ => (b, w)
  | none, _, none => (b, w)
  | none, .ok mine, some password =>
    match e2ee.wasmUnwrapSecret password mine.wrappedSecret with
    | .ok secretHex => (b.store me secretHex, w)
    | .error _ => (b, w)
  | none, .error _, some password =>
    let secretHex := toHex drawn.secret.1
    match e2ee.wasmIdentityPublic secretHex, e2ee.wasmWrapSecret drawn.wrap password secretHex with
    | .ok publicHex, .ok wrapped =>
      match (publishKeys me publicHex wrapped).exec w with
      | (.ok (), w') => (b.store me secretHex, w')
      | (.error _, w') => (b, w')
    | _, _ => (b, w)

/-- The two boxes of a message: for the peer, and for oneself. -/
def sealDm (ephemerals : BytesOf 32 × BytesOf 32) (theirHex secretHex body : String) :
    Except String (String × String) := do
  let forRecipient ← e2ee.wasmSeal ephemerals.1 theirHex (textToHex body)
  let ownHex ← e2ee.wasmIdentityPublic secretHex
  let forSender ← e2ee.wasmSeal ephemerals.2 ownHex (textToHex body)
  return (forRecipient, forSender)

/-- `sendDm`; answered with the message that the server has stored. -/
def sendDm (ephemerals : BytesOf 32 × BytesOf 32) (b : Browser) (peer body : String) (w : World) :
    Option DmMessage × World :=
  if jsTrim body = "" then (none, w)
  else
    match b.ident, ((publicKeyOf peer).exec w).1 with
    | some (me, secretHex), .ok theirHex =>
      match e2ee.sealDm ephemerals theirHex secretHex (jsTrim body) with
      | .ok (forRecipient, forSender) =>
        match (sendSealedDm me peer forRecipient forSender).exec w with
        | (.ok dm, w') => (some dm, w')
        | (.error _, w') => (none, w')
      | .error _ => (none, w)
    | _, _ => (none, w)

/-- `loadConversation`. -/
def loadConversation (decode : List UInt8 → String) (b : Browser) (peer : String) (w : World) :
    List Bubble :=
  match b.me with
  | none => []
  | some me =>
    (dmThread w me peer).map fun m =>
      { isMine := m.isMine
        sender := m.sender
        text := (b.ident.bind (fun ident => (e2ee.wasmOpen ident.2 m.sealedForMe).toOption)).map
          (hexToText decode) }

end E2ee

end Democrachat
