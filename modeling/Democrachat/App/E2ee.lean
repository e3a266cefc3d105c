import Democrachat.App.Vault
import Democrachat.Domain.NormalForms
import Democrachat.Domain.Social
import Democrachat.Library.SealedBox

/-!
# End-to-end encryption

`app/src/e2ee` and its functions for the browser, `e2ee-wasm/src/lib.rs`.  X25519, SHA-256,
Argon2id and the cipher are parameters, and what is drawn at random is an argument.
-/

namespace Democrachat

open Library Library.Utf8 Federation

inductive E2eeError where
  | badKey (reason : String)
  | badSealed
  | decrypt
deriving DecidableEq

def E2eeError.display : E2eeError → String
  | badKey reason => "malformed key material: " ++ reason
  | badSealed => "malformed sealed message"
  | decrypt => "could not decrypt (wrong key/password or tampered)"

structure IdentitySecret where
  bytes : BytesOf 32
deriving DecidableEq

structure PublicIdentity where
  bytes : BytesOf 32
deriving DecidableEq

structure ChannelKey where
  bytes : BytesOf 32
deriving DecidableEq

structure E2ee where
  /-- X25519. -/
  exchange : Exchange (BytesOf 32) (BytesOf 32) (BytesOf 32)
  sha256 : List UInt8 → BytesOf 32
  /-- Argon2id, of a password and a salt. -/
  argon2 : String → List UInt8 → Except String (BytesOf 32)
  cipher : Aead (BytesOf 32) (BytesOf 12) (List UInt8) (List UInt8)
  hexError : String → String

/-- What one wrap of a secret draws. -/
structure WrapDraw where
  salt : BytesOf 16
  nonce : BytesOf 12

namespace E2ee

variable (e2ee : E2ee)

/-! ## Keys -/

def keyFromHex (what hexStr : String) : Except E2eeError (BytesOf 32) := do
  let bytes ← (hexBytes hexStr.toList).elim (.error (.badKey (e2ee.hexError hexStr))) .ok
  (tryInto 32 bytes).elim (.error (.badKey (what ++ " must be 32 bytes"))) .ok

def identityFromHex (hexStr : String) : Except E2eeError IdentitySecret :=
  (e2ee.keyFromHex "secret key" (trim hexStr)).map .mk

def publicFromHex (hexStr : String) : Except E2eeError PublicIdentity :=
  (e2ee.keyFromHex "public key" (trim hexStr)).map .mk

def channelKeyFromHex (hexStr : String) : Except E2eeError ChannelKey :=
  (e2ee.keyFromHex "channel key" (trim hexStr)).map .mk

def public_ (secret : IdentitySecret) : PublicIdentity := ⟨e2ee.exchange.publicOf secret.bytes⟩

/-! ## Sealed boxes -/

def firstOf {n : Nat} (m : Nat) (h : m ≤ n) (bytes : BytesOf n) : BytesOf m :=
  ⟨bytes.1.take m, List.length_take_of_le (by rw [bytes.2]; exact h)⟩

def deriveKey (shared ephemeralPub recipientPub : BytesOf 32) : BytesOf 32 × BytesOf 12 :=
  (e2ee.sha256 (asBytes "democrachat:e2ee:key:v1" ++ shared.1 ++ ephemeralPub.1 ++ recipientPub.1),
    firstOf 12 (by decide)
      (e2ee.sha256 (asBytes "democrachat:e2ee:nonce:v1" ++ ephemeralPub.1 ++ recipientPub.1)))

def scheme : BoxScheme (BytesOf 32) (BytesOf 32) (BytesOf 32) (BytesOf 32) (BytesOf 12) (List UInt8)
    (List UInt8) :=
  ⟨e2ee.exchange, e2ee.deriveKey, e2ee.cipher⟩

/-- The ephemeral public key, and the ciphertext. -/
def sealTo (ephemeral : BytesOf 32) (recipient : PublicIdentity) (plaintext : List UInt8) :
    List UInt8 :=
  let box := e2ee.scheme.sealTo ephemeral recipient.bytes plaintext
  box.1.1 ++ box.2

def openSealed (secret : IdentitySecret) (sealed : List UInt8) :
    Except E2eeError (List UInt8) :=
  if h : sealed.length < 32 + 16 then .error .badSealed
  else
    let ephemeral : BytesOf 32 := ⟨sealed.take 32, List.length_take_of_le (by omega)⟩
    (e2ee.scheme.openWith secret.bytes (ephemeral, sealed.drop 32)).elim (.error .decrypt) .ok

/-! ## Channel messages -/

/-- The nonce, and the ciphertext. -/
def sealChannelMessage (nonce : BytesOf 12) (key : ChannelKey) (plaintext : List UInt8) :
    List UInt8 :=
  nonce.1 ++ e2ee.cipher.encrypt key.bytes nonce plaintext

def openChannelMessage (key : ChannelKey) (sealed : List UInt8) : Except E2eeError (List UInt8) :=
  if h : sealed.length < 12 then .error .decrypt
  else
    let nonce : BytesOf 12 := ⟨sealed.take 12, List.length_take_of_le (by omega)⟩
    (e2ee.cipher.decrypt key.bytes nonce (sealed.drop 12)).elim (.error .decrypt) .ok

/-! ## Secrets under a password -/

def deriveKek (password : String) (salt : List UInt8) : Except E2eeError (BytesOf 32) :=
  (e2ee.argon2 password salt).mapError .badKey

def wrapSecret (drawn : WrapDraw) (password : String) (secret : IdentitySecret) :
    Except E2eeError WrappedKey := do
  let kek ← e2ee.deriveKek password drawn.salt.1
  return ⟨toHex drawn.salt.1, toHex drawn.nonce.1,
    toHex (e2ee.cipher.encrypt kek drawn.nonce secret.bytes.1)⟩

def unwrapSecret (password : String) (wrapped : WrappedKey) : Except E2eeError IdentitySecret := do
  let salt ← (hexBytes wrapped.salt.toList).elim (.error (.badKey (e2ee.hexError wrapped.salt))) .ok
  let nonceBytes ←
    (hexBytes wrapped.nonce.toList).elim (.error (.badKey (e2ee.hexError wrapped.nonce))) .ok
  let nonce ← (tryInto 12 nonceBytes).elim (.error (.badKey "nonce must be 12 bytes")) .ok
  let ciphertext ←
    (hexBytes wrapped.ciphertext.toList).elim (.error (.badKey (e2ee.hexError wrapped.ciphertext)))
      .ok
  let kek ← e2ee.deriveKek password salt
  let secretBytes ← (e2ee.cipher.decrypt kek nonce ciphertext).elim (.error .decrypt) .ok
  let secret ←
    (tryInto 32 secretBytes).elim (.error (.badKey "unwrapped secret is not 32 bytes")) .ok
  e2ee.identityFromHex (toHex secret.1)

/-! ## In the browser

Everything crosses the boundary in hex, and errors as their texts. -/

def wasmIdentityPublic (secretHex : String) : Except String String :=
  ((e2ee.identityFromHex secretHex).mapError (·.display)).map
    (fun secret => toHex (e2ee.public_ secret).bytes.1)

def wasmWrapSecret (drawn : WrapDraw) (password secretHex : String) : Except String WrappedKey :=
  (e2ee.identityFromHex secretHex >>= e2ee.wrapSecret drawn password).mapError (·.display)

def wasmUnwrapSecret (password : String) (wrapped : WrappedKey) : Except String String :=
  ((e2ee.unwrapSecret password wrapped).mapError (·.display)).map (fun secret => toHex secret.bytes.1)

def wasmSeal (ephemeral : BytesOf 32) (recipientPubHex plaintextHex : String) :
    Except String String := do
  let recipient ← (e2ee.publicFromHex recipientPubHex).mapError (·.display)
  let plaintext ← (hexBytes plaintextHex.toList).elim (.error (e2ee.hexError plaintextHex)) .ok
  return toHex (e2ee.sealTo ephemeral recipient plaintext)

def wasmOpen (secretHex sealedHex : String) : Except String String := do
  let secret ← (e2ee.identityFromHex secretHex).mapError (·.display)
  let sealed ← (hexBytes sealedHex.toList).elim (.error (e2ee.hexError sealedHex)) .ok
  ((e2ee.openSealed secret sealed).mapError (·.display)).map toHex

def wasmChannelSeal (nonce : BytesOf 12) (keyHex plaintextHex : String) : Except String String := do
  let key ← (e2ee.channelKeyFromHex keyHex).mapError (·.display)
  let plaintext ← (hexBytes plaintextHex.toList).elim (.error (e2ee.hexError plaintextHex)) .ok
  return toHex (e2ee.sealChannelMessage nonce key plaintext)

def wasmChannelOpen (keyHex sealedHex : String) : Except String String := do
  let key ← (e2ee.channelKeyFromHex keyHex).mapError (·.display)
  let sealed ← (hexBytes sealedHex.toList).elim (.error (e2ee.hexError sealedHex)) .ok
  ((e2ee.openChannelMessage key sealed).mapError (·.display)).map toHex

/-- What the repository relies on. -/
structure Lawful : Prop where
  exchange : e2ee.exchange.Lawful
  cipher : e2ee.cipher.Lawful
  /-- A ciphertext ends in its tag of 16 bytes. -/
  tagged : ∀ key nonce p, (e2ee.cipher.encrypt key nonce p).length = p.length + 16

end E2ee

/-! ## Round trips -/

theorem trim_toHex (bytes : List UInt8) : trim (toHex bytes) = toHex bytes := by
  have hdigits : ∀ k < 16, isWhitespace (hexChar k) = false := by decide
  rw [trim, trimChars_of_forall, String.ofList_toList]
  rw [toHex, String.toList_ofList]
  intro c hc
  obtain ⟨b, -, hb⟩ := List.mem_flatMap.1 hc
  have hb' := b.toNat_lt
  rcases List.mem_cons.1 hb with rfl | hlow
  · exact hdigits (b.toNat / 16) (by omega)
  · rw [List.mem_singleton.1 hlow]
    exact hdigits (b.toNat % 16) (by omega)

namespace E2ee

variable {e2ee : E2ee}

theorem keyFromHex_toHex (what : String) (key : BytesOf 32) :
    e2ee.keyFromHex what (toHex key.1) = .ok key := by
  simp only [keyFromHex, hexBytes_toHex, tryInto_val, Option.elim_some, bind, Except.bind]

theorem identityFromHex_toHex (secret : IdentitySecret) :
    e2ee.identityFromHex (toHex secret.bytes.1) = .ok secret := by
  rw [identityFromHex, trim_toHex, keyFromHex_toHex]
  rfl

theorem publicFromHex_toHex (identity : PublicIdentity) :
    e2ee.publicFromHex (toHex identity.bytes.1) = .ok identity := by
  rw [publicFromHex, trim_toHex, keyFromHex_toHex]
  rfl

theorem channelKeyFromHex_toHex (key : ChannelKey) :
    e2ee.channelKeyFromHex (toHex key.bytes.1) = .ok key := by
  rw [channelKeyFromHex, trim_toHex, keyFromHex_toHex]
  rfl

theorem openSealed_sealTo (h : e2ee.Lawful) (secret : IdentitySecret) (ephemeral : BytesOf 32)
    (p : List UInt8) :
    e2ee.openSealed secret (e2ee.sealTo ephemeral (e2ee.public_ secret) p) = .ok p := by
  have hscheme : e2ee.scheme.Lawful := ⟨h.exchange, h.cipher⟩
  have hopen : e2ee.scheme.openWith secret.bytes
      (e2ee.scheme.sealTo ephemeral (e2ee.public_ secret).bytes p) = some p :=
    BoxScheme.openWith_sealTo hscheme secret.bytes ephemeral p
  have hlength : 16 ≤ (e2ee.scheme.sealTo ephemeral (e2ee.public_ secret).bytes p).2.length :=
    (Nat.le_add_left 16 p.length).trans (h.tagged _ _ p).ge
  rw [openSealed, sealTo]
  generalize e2ee.scheme.sealTo ephemeral (e2ee.public_ secret).bytes p = box at hopen hlength
  obtain ⟨own, ciphertext⟩ := box
  have htake : (own.1 ++ ciphertext).take 32 = own.1 := List.take_left' own.2
  have hdrop : (own.1 ++ ciphertext).drop 32 = ciphertext := List.drop_left' own.2
  rw [dif_neg]
  · simp only [htake, hdrop, hopen, Option.elim_some]
  · rw [List.length_append, own.2]
    omega

theorem openChannelMessage_sealChannelMessage (h : e2ee.cipher.Lawful) (nonce : BytesOf 12)
    (key : ChannelKey) (p : List UInt8) :
    e2ee.openChannelMessage key (e2ee.sealChannelMessage nonce key p) = .ok p := by
  have hnonce := nonce.2
  have htake : (nonce.1 ++ e2ee.cipher.encrypt key.bytes nonce p).take 12 = nonce.1 :=
    List.take_left' hnonce
  have hdrop : (nonce.1 ++ e2ee.cipher.encrypt key.bytes nonce p).drop 12 =
      e2ee.cipher.encrypt key.bytes nonce p := List.drop_left' hnonce
  rw [openChannelMessage, sealChannelMessage, dif_neg]
  · simp only [htake, hdrop, h.opens, Option.elim_some]
  · rw [List.length_append, hnonce]
    omega

theorem wasmIdentityPublic_toHex (secret : IdentitySecret) :
    e2ee.wasmIdentityPublic (toHex secret.bytes.1) = .ok (toHex (e2ee.public_ secret).bytes.1) := by
  rw [wasmIdentityPublic, identityFromHex_toHex]
  rfl

theorem wasmSeal_toHex (ephemeral : BytesOf 32) (recipient : PublicIdentity) (p : List UInt8) :
    e2ee.wasmSeal ephemeral (toHex recipient.bytes.1) (toHex p) =
      .ok (toHex (e2ee.sealTo ephemeral recipient p)) := by
  rw [wasmSeal, publicFromHex_toHex, hexBytes_toHex]
  rfl

/-- What is sealed to a public key, its secret opens. -/
theorem wasmOpen_sealTo (h : e2ee.Lawful) {secret : IdentitySecret} {recipient : PublicIdentity}
    (hrecipient : e2ee.public_ secret = recipient) (ephemeral : BytesOf 32) (p : List UInt8) :
    e2ee.wasmOpen (toHex secret.bytes.1) (toHex (e2ee.sealTo ephemeral recipient p)) =
      .ok (toHex p) := by
  subst hrecipient
  rw [wasmOpen, identityFromHex_toHex, hexBytes_toHex]
  simp only [bind, Except.bind, Except.mapError, Option.elim_some, openSealed_sealTo h]
  rfl

theorem wasmChannelOpen_wasmChannelSeal (h : e2ee.cipher.Lawful) (nonce : BytesOf 12)
    (key : ChannelKey) (p : List UInt8) :
    (e2ee.wasmChannelSeal nonce (toHex key.bytes.1) (toHex p)).bind
      (e2ee.wasmChannelOpen (toHex key.bytes.1)) = .ok (toHex p) := by
  have hseal : e2ee.wasmChannelSeal nonce (toHex key.bytes.1) (toHex p) =
      .ok (toHex (e2ee.sealChannelMessage nonce key p)) := by
    rw [wasmChannelSeal, channelKeyFromHex_toHex, hexBytes_toHex]
    rfl
  rw [hseal, Except.bind, wasmChannelOpen, channelKeyFromHex_toHex, hexBytes_toHex]
  simp only [bind, Except.bind, Except.mapError, Option.elim_some,
    openChannelMessage_sealChannelMessage h]
  rfl

/-- The blob of a secret under the key that the password and the salt give. -/
def wrapped (salt : List UInt8) (nonce : BytesOf 12) (kek : BytesOf 32) (secret : IdentitySecret) :
    WrappedKey :=
  ⟨toHex salt, toHex nonce.1, toHex (e2ee.cipher.encrypt kek nonce secret.bytes.1)⟩

/-- Under any other password there is nothing to recover, where no password's key opens what
another's has sealed. -/
theorem wasmUnwrapSecret_wrapped (h : e2ee.cipher.Lawful) {salt : List UInt8} {nonce : BytesOf 12}
    {kek : BytesOf 32} {secret : IdentitySecret} {password secretHex : String}
    (hseparate : ∀ kek', e2ee.argon2 password salt = .ok kek' → kek ≠ kek' →
      e2ee.cipher.Separates kek kek')
    (hunwrap : e2ee.wasmUnwrapSecret password (e2ee.wrapped salt nonce kek secret) =
      .ok secretHex) : secretHex = toHex secret.bytes.1 := by
  simp only [wasmUnwrapSecret, unwrapSecret, wrapped, hexBytes_toHex, Option.elim_some, tryInto_val,
    bind, Except.bind, deriveKek] at hunwrap
  cases hkek : e2ee.argon2 password salt with
  | error reason =>
    rw [hkek] at hunwrap
    cases hunwrap
  | ok kek' =>
    rw [hkek] at hunwrap
    by_cases hsame : kek = kek'
    · subst hsame
      simp only [Except.mapError, h.opens, Option.elim_some, tryInto_val, identityFromHex_toHex]
        at hunwrap
      exact (Except.ok.inj hunwrap).symm
    · have hclosed := hseparate kek' hkek hsame nonce nonce secret.bytes.1
      simp only [Except.mapError, hclosed, Option.elim_none] at hunwrap
      cases hunwrap

end E2ee

end Democrachat
