import Democrachat.Domain.Text
import Democrachat.Federation.Event
import Democrachat.Library.Envelope
import Democrachat.Library.Utf8

/-!
# The vault

`app/src/vault` and `app/src/email/field_cipher.rs`.  The cipher, `serde_json` of an envelope and
the texts of other crates' errors are parameters, and what is drawn at random is an argument.
-/

namespace Democrachat

open Library Library.Utf8 Federation

abbrev BytesOf (n : Nat) := { bytes : List UInt8 // bytes.length = n }

/-- `TryInto<[u8; n]>`. -/
def tryInto (n : Nat) (bytes : List UInt8) : Option (BytesOf n) :=
  if h : bytes.length = n then some ⟨bytes, h⟩ else none

theorem tryInto_eq_some {n : Nat} {bytes : List UInt8} {exact : BytesOf n} :
    tryInto n bytes = some exact ↔ bytes = exact.1 := by
  constructor
  · intro h
    rw [tryInto] at h
    split at h
    · rw [← Option.some.inj h]
    · contradiction
  · rintro rfl
    exact dif_pos exact.2

@[simp] theorem tryInto_val {n : Nat} (exact : BytesOf n) : tryInto n exact.1 = some exact :=
  tryInto_eq_some.2 rfl

/-- Keys of 32 bytes as contents. -/
def keyCodec : KeyCodec (BytesOf 32) (List UInt8) where
  ofKey := Subtype.val
  toKey := tryInto 32
  toKey_eq_some := tryInto_eq_some

inductive VaultError where
  | badKey (reason : String)
  | format (reason : String)
  | decrypt
deriving DecidableEq

def VaultError.display : VaultError → String
  | badKey reason => "invalid vault key: " ++ reason
  | format reason => "malformed sealed data: " ++ reason
  | decrypt => "could not decrypt sealed data (wrong key or tampered)"

structure VaultKey where
  bytes : BytesOf 32
deriving DecidableEq

/-- A sealed blob as it is written; the bytes are in hex. -/
structure Vault.Sealed where
  vault : UInt8
  wrappedKey : String
  keyNonce : String
  nonce : String
  ciphertext : String
deriving DecidableEq

def vaultVersion : UInt8 := 1

structure Vault where
  /-- ChaCha20-Poly1305. -/
  cipher : Aead (BytesOf 32) (BytesOf 12) (List UInt8) (List UInt8)
  render : Vault.Sealed → String
  parse : String → Except String Vault.Sealed
  hexError : String → String
  utf8Error : List UInt8 → String

/-- What one seal draws. -/
structure SealDraw where
  dek : BytesOf 32
  keyNonce : BytesOf 12
  dataNonce : BytesOf 12

namespace Vault

variable (vault : Vault)

/-- `hex::decode`. -/
def hexDecode (s : String) : Except String (List UInt8) :=
  (hexBytes s.toList).elim (.error (vault.hexError s)) .ok

/-- `VaultKey::from_hex`. -/
def keyFromHex (hexStr : String) : Except VaultError VaultKey := do
  let bytes ← (vault.hexDecode (trim hexStr)).mapError .badKey
  (tryInto 32 bytes).elim (.error (.badKey "key must be exactly 32 bytes (64 hex chars)"))
    (fun key => .ok ⟨key⟩)

def decrypt (key : BytesOf 32) (nonce : BytesOf 12) (ciphertext : List UInt8) :
    Except VaultError (List UInt8) :=
  (vault.cipher.decrypt key nonce ciphertext).elim (.error .decrypt) .ok

/-- `vault_seal`. -/
def vaultSeal (drawn : SealDraw) (key : VaultKey) (plaintext : List UInt8) : Vault.Sealed where
  vault := vaultVersion
  wrappedKey := toHex (vault.cipher.encrypt key.bytes drawn.keyNonce drawn.dek.1)
  keyNonce := toHex drawn.keyNonce.1
  nonce := toHex drawn.dataNonce.1
  ciphertext := toHex (vault.cipher.encrypt drawn.dek drawn.dataNonce plaintext)

def decodeNonce (s : String) : Except VaultError (BytesOf 12) := do
  let bytes ← (vault.hexDecode s).mapError .format
  (tryInto 12 bytes).elim (.error (.format "nonce must be 12 bytes")) .ok

/-- `vault_open`. -/
def vaultOpen (key : VaultKey) (sealed : Vault.Sealed) : Except VaultError (List UInt8) := do
  let wrappedKey ← (vault.hexDecode sealed.wrappedKey).mapError .format
  let keyNonce ← vault.decodeNonce sealed.keyNonce
  let dataNonce ← vault.decodeNonce sealed.nonce
  let ciphertext ← (vault.hexDecode sealed.ciphertext).mapError .format
  let dekBytes ← vault.decrypt key.bytes keyNonce wrappedKey
  let dek ← (tryInto 32 dekBytes).elim (.error (.format "unwrapped data key is not 32 bytes")) .ok
  vault.decrypt dek dataNonce ciphertext

def toJson (sealed : Vault.Sealed) : String := vault.render sealed

def fromJson (s : String) : Except VaultError Vault.Sealed := do
  let sealed ← (vault.parse s).mapError .format
  if sealed.vault ≠ vaultVersion then
    .error (.format ("unsupported vault version " ++ toString sealed.vault))
  else
    return sealed

def sealEmail (drawn : SealDraw) (key : VaultKey) (email : String) : String :=
  vault.toJson (vault.vaultSeal drawn key (asBytes email))

def openEmail (key : VaultKey) (blob : String) : Except VaultError String := do
  let sealed ← vault.fromJson blob
  let bytes ← vault.vaultOpen key sealed
  (fromUtf8 bytes).elim (.error (.format (vault.utf8Error bytes))) .ok

/-- What the repository relies on. -/
structure Lawful : Prop where
  cipher : vault.cipher.Lawful
  readsBack : ∀ drawn key plaintext,
    vault.parse (vault.render (vault.vaultSeal drawn key plaintext)) =
      .ok (vault.vaultSeal drawn key plaintext)

end Vault

/-! ## Envelopes -/

/-- The bytes of the fields. -/
def Vault.Sealed.envelope (sealed : Sealed) : Option (Envelope (BytesOf 12) (List UInt8)) := do
  let wrapped ← hexBytes sealed.wrappedKey.toList
  let keyNonce ← (hexBytes sealed.keyNonce.toList).bind (tryInto 12)
  let nonce ← (hexBytes sealed.nonce.toList).bind (tryInto 12)
  let content ← hexBytes sealed.ciphertext.toList
  return ⟨wrapped, keyNonce, nonce, content⟩

theorem hexBytes_toHex (bytes : List UInt8) : hexBytes (toHex bytes).toList = some bytes := by
  rw [toHex, String.toList_ofList]
  exact hexBytes_digits bytes

section

variable {ε ε' α β : Type}

theorem eq_ok_iff_toOption {x : Except ε α} {a : α} : x = .ok a ↔ x.toOption = some a := by
  cases x with
  | error e => simp [Except.toOption]
  | ok b => simp [Except.toOption]

theorem toOption_bind (x : Except ε α) (k : α → Except ε β) :
    (x >>= k).toOption = x.toOption.bind (fun a => (k a).toOption) := by
  cases x with
  | error e => rfl
  | ok a => rfl

theorem toOption_mapError (x : Except ε α) (f : ε → ε') : (x.mapError f).toOption = x.toOption := by
  cases x with
  | error e => rfl
  | ok a => rfl

theorem toOption_elim (o : Option α) (e : ε) :
    (o.elim (.error e) .ok : Except ε α).toOption = o := by
  cases o with
  | none => rfl
  | some a => rfl

end

namespace Vault

variable {vault : Vault}

theorem toOption_hexDecode (s : String) : (vault.hexDecode s).toOption = hexBytes s.toList :=
  toOption_elim _ _

theorem toOption_decrypt (key : BytesOf 32) (nonce : BytesOf 12) (ciphertext : List UInt8) :
    (vault.decrypt key nonce ciphertext).toOption = vault.cipher.decrypt key nonce ciphertext :=
  toOption_elim _ _

theorem toOption_decodeNonce (s : String) :
    (vault.decodeNonce s).toOption = (hexBytes s.toList).bind (tryInto 12) := by
  rw [decodeNonce, toOption_bind, toOption_mapError, toOption_hexDecode]
  congr 1
  funext bytes
  exact toOption_elim _ _

/-- The source opens an envelope; case does not matter in its hex. -/
theorem vaultOpen_eq_ok {key : VaultKey} {sealed : Vault.Sealed} {p : List UInt8} :
    vault.vaultOpen key sealed = .ok p ↔
      ∃ e, sealed.envelope = some e ∧ Envelope.unwrap vault.cipher keyCodec key.bytes e = some p := by
  rw [eq_ok_iff_toOption, ← Option.bind_eq_some_iff, vaultOpen, Vault.Sealed.envelope]
  simp only [toOption_bind, toOption_mapError, toOption_hexDecode, toOption_decodeNonce,
    toOption_decrypt, toOption_elim, Option.bind_eq_bind, Option.bind_assoc]
  rfl

theorem envelope_vaultSeal (drawn : SealDraw) (key : VaultKey) (p : List UInt8) :
    (vault.vaultSeal drawn key p).envelope =
      some (Envelope.wrap vault.cipher keyCodec key.bytes drawn.dek drawn.keyNonce drawn.dataNonce
        p) := by
  simp only [Vault.Sealed.envelope, vaultSeal, hexBytes_toHex, Option.bind_some, tryInto_val,
    Option.bind_eq_bind]
  rfl

theorem fromJson_toJson (h : vault.Lawful) (drawn : SealDraw) (key : VaultKey) (p : List UInt8) :
    vault.fromJson (vault.toJson (vault.vaultSeal drawn key p)) =
      .ok (vault.vaultSeal drawn key p) := by
  rw [fromJson, toJson, h.readsBack]
  rfl

theorem vaultOpen_vaultSeal (h : vault.cipher.Lawful) (drawn : SealDraw) (key : VaultKey)
    (p : List UInt8) : vault.vaultOpen key (vault.vaultSeal drawn key p) = .ok p :=
  vaultOpen_eq_ok.2 ⟨_, envelope_vaultSeal drawn key p,
    Envelope.unwrap_wrap h key.bytes drawn.dek drawn.keyNonce drawn.dataNonce p⟩

/-- Another key is told nothing, not even that it is the wrong one. -/
theorem vaultOpen_of_separates {key key' : VaultKey}
    (h : vault.cipher.Separates key.bytes key'.bytes) (drawn : SealDraw) (p : List UInt8) :
    vault.vaultOpen key' (vault.vaultSeal drawn key p) = .error .decrypt := by
  have hwrapped := h drawn.keyNonce drawn.keyNonce drawn.dek.1
  simp only [vaultOpen, vaultSeal, decodeNonce, hexDecode, hexBytes_toHex, tryInto_val,
    Option.elim_some, Except.mapError, decrypt, hwrapped, Option.elim_none, bind, Except.bind]

theorem openEmail_sealEmail (h : vault.Lawful) (drawn : SealDraw) (key : VaultKey)
    (email : String) : vault.openEmail key (vault.sealEmail drawn key email) = .ok email := by
  rw [openEmail, sealEmail, fromJson_toJson h]
  simp only [bind, Except.bind, vaultOpen_vaultSeal h.cipher, fromUtf8_asBytes, Option.elim_some]

end Vault

end Democrachat
