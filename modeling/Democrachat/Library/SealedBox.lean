import Democrachat.Library.Envelope

/-!
# Sealed boxes

A box is sealed to a public key with a fresh key pair, whose public half travels with it.  Both
sides derive the key of the box from what they share and from the two public keys.
-/

namespace Library

/-- Key pairs that agree on a secret. -/
structure Exchange (S P K : Type*) where
  publicOf : S → P
  shared : S → P → K

/-- Each side computes it from its own secret and the public key of the other. -/
def Exchange.Lawful {S P K : Type*} (exchange : Exchange S P K) : Prop :=
  ∀ a b, exchange.shared a (exchange.publicOf b) = exchange.shared b (exchange.publicOf a)

structure BoxScheme (S P K D N M C : Type*) where
  exchange : Exchange S P K
  /-- From the shared secret, the public key in the box and the recipient's. -/
  derive : K → P → P → D × N
  cipher : Aead D N M C

namespace BoxScheme

variable {S P K D N M C : Type*} (scheme : BoxScheme S P K D N M C)

def sealTo (ephemeral : S) (recipient : P) (p : M) : P × C :=
  let own := scheme.exchange.publicOf ephemeral
  let derived := scheme.derive (scheme.exchange.shared ephemeral recipient) own recipient
  (own, scheme.cipher.encrypt derived.1 derived.2 p)

def openWith (secret : S) (box : P × C) : Option M :=
  let derived := scheme.derive (scheme.exchange.shared secret box.1) box.1
    (scheme.exchange.publicOf secret)
  scheme.cipher.decrypt derived.1 derived.2 box.2

structure Lawful : Prop where
  exchange : scheme.exchange.Lawful
  cipher : scheme.cipher.Lawful

variable {scheme}

/-- Any secret of the public key that the box was sealed to opens it. -/
theorem openWith_sealTo (h : scheme.Lawful) (secret ephemeral : S) (p : M) :
    scheme.openWith secret (scheme.sealTo ephemeral (scheme.exchange.publicOf secret) p) =
      some p := by
  rw [openWith, sealTo, h.exchange secret ephemeral, h.cipher.opens]

end BoxScheme

end Library
