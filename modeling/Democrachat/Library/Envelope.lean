import Mathlib.Logic.Function.Basic

/-!
# Authenticated encryption and envelopes

A cipher with a key and a nonce that opens what it has sealed and nothing else, and the envelope
in which a fresh key seals the content and travels sealed under a lasting one.
-/

namespace Library

/-- The pure functions of a cipher. -/
structure Aead (K N P C : Type*) where
  encrypt : K → N → P → C
  decrypt : K → N → C → Option P

variable {K N P C : Type*}

namespace Aead

variable (cipher : Aead K N P C)

structure Lawful : Prop where
  opens : ∀ key nonce p, cipher.decrypt key nonce (cipher.encrypt key nonce p) = some p
  /-- What opens was sealed with the same key and nonce. -/
  authentic : ∀ key nonce c p, cipher.decrypt key nonce c = some p → c = cipher.encrypt key nonce p

/-- What was sealed with one of the keys opens with the other under no nonce. -/
def Separates (key key' : K) : Prop :=
  ∀ nonce nonce' p, cipher.decrypt key' nonce' (cipher.encrypt key nonce p) = none

end Aead

/-! ## Envelopes -/

/-- Keys as contents. -/
structure KeyCodec (K P : Type*) where
  ofKey : K → P
  toKey : P → Option K
  toKey_eq_some : ∀ {p key}, toKey p = some key ↔ p = ofKey key

/-- The content under a key of its own, and that key under a lasting one. -/
structure Envelope (N C : Type*) where
  wrapped : C
  keyNonce : N
  nonce : N
  content : C

namespace Envelope

variable (cipher : Aead K N P C) (codec : KeyCodec K P)

def wrap (root fresh : K) (keyNonce nonce : N) (p : P) : Envelope N C where
  wrapped := cipher.encrypt root keyNonce (codec.ofKey fresh)
  keyNonce
  nonce
  content := cipher.encrypt fresh nonce p

def unwrap (root : K) (e : Envelope N C) : Option P :=
  (cipher.decrypt root e.keyNonce e.wrapped).bind fun p =>
    (codec.toKey p).bind fun fresh => cipher.decrypt fresh e.nonce e.content

variable {cipher codec}

theorem unwrap_wrap (h : cipher.Lawful) (root fresh : K) (keyNonce nonce : N) (p : P) :
    unwrap cipher codec root (wrap cipher codec root fresh keyNonce nonce p) = some p := by
  have hkey : codec.toKey (codec.ofKey fresh) = some fresh := codec.toKey_eq_some.2 rfl
  simp [unwrap, wrap, h.opens, hkey]

end Envelope

end Library
