import Mathlib.Data.Prod.Lex
import Mathlib.Data.Fintype.Prod
import Mathlib.Algebra.Ring.Nat

/-!
# Identifiers and time

`domain/src/ids`, `domain/src/node` and `domain/src/time.rs`.

An identifier packs the 16-bit node that minted it above that node's own 48-bit
sequence, so its numeric order is the lexicographic order of the pair.  The
model keeps the pair.  A sequence never reaches 2^48: every minted row stays in
the in-memory outbox.
-/

namespace Democrachat

abbrev NodeId := Fin (2 ^ 16)

instance instNeZeroNode : NeZero (2 ^ 16 : Nat) := ⟨by decide⟩

instance instLawfulBEqNode : LawfulBEq NodeId := inferInstance

/-- What an identifier names; one newtype over `u64` each in `domain/src/ids`. -/
inductive Entity where
  | user | server | channel | message | proposal | rule | role | emoji | dm
deriving DecidableEq

@[ext] structure Id (e : Entity) where
  node : NodeId
  sequence : Nat
deriving DecidableEq

abbrev UserId := Id .user
abbrev ServerId := Id .server
abbrev ChannelId := Id .channel
abbrev MessageId := Id .message
abbrev ProposalId := Id .proposal
abbrev RuleId := Id .rule
abbrev RoleId := Id .role
abbrev EmojiId := Id .emoji
abbrev DmId := Id .dm

def composeId {e : Entity} (node : NodeId) (sequence : Nat) : Id e := ⟨node, sequence⟩

namespace Id

variable {e : Entity}

/-- The order of the packed numbers. -/
def rank (i : Id e) : NodeId ×ₗ Nat := toLex (i.node, i.sequence)

theorem rank_injective : Function.Injective (rank (e := e)) := by
  intro i j h
  have h := congrArg ofLex h
  simp only [rank, ofLex_toLex, Prod.mk.injEq] at h
  exact Id.ext h.1 h.2

instance : LinearOrder (Id e) := LinearOrder.lift' rank rank_injective

/-- `to_string` of the packed number. -/
def display (i : Id e) : String := toString (i.node.val * 2 ^ 48 + i.sequence)

end Id

/-! ## The packed numbers -/

/-- The bits of the sequence. -/
def sequenceBits : Nat := 48

def sequenceMask : BitVec 64 := BitVec.ofNat 64 (2 ^ sequenceBits - 1)

/-- `compose_id`, on the numbers themselves. -/
def packId (node : NodeId) (sequence : BitVec 64) : BitVec 64 :=
  (BitVec.ofNat 64 node.val <<< sequenceBits) ||| (sequence &&& sequenceMask)

theorem originNode_lt (n : Nat) : n / 2 ^ 48 % 2 ^ 16 < 2 ^ 16 := Nat.mod_lt _ (by decide)

/-- `origin_node`. -/
def originNode (id : BitVec 64) : NodeId :=
  ⟨(id >>> sequenceBits).toNat % 2 ^ 16, Nat.mod_lt _ (by decide)⟩

theorem toNat_packId (node : NodeId) (sequence : BitVec 64) :
    (packId node sequence).toNat = node.val * 2 ^ 48 + sequence.toNat % 2 ^ 48 := by
  have hnode := node.isLt
  have hsequence : sequence.toNat % 2 ^ 48 < 2 ^ 48 := Nat.mod_lt _ (by decide)
  have hmask : sequenceMask.toNat = 2 ^ 48 - 1 := rfl
  have hshift : node.val % 2 ^ 64 * 2 ^ 48 % 2 ^ 64 = node.val * 2 ^ 48 := by omega
  rw [packId, BitVec.toNat_or, BitVec.toNat_and, hmask, Nat.and_two_pow_sub_one_eq_mod,
    BitVec.toNat_shiftLeft, BitVec.toNat_ofNat, sequenceBits, Nat.shiftLeft_eq, hshift,
    ← Nat.shiftLeft_eq, ← Nat.shiftLeft_add_eq_or_of_lt hsequence, Nat.shiftLeft_eq]

theorem originNode_packId (node : NodeId) (sequence : BitVec 64) :
    originNode (packId node sequence) = node := by
  have hnode := node.isLt
  apply Fin.ext
  change (packId node sequence >>> sequenceBits).toNat % 2 ^ 16 = node.val
  rw [BitVec.toNat_ushiftRight, toNat_packId, sequenceBits, Nat.shiftRight_eq_div_pow]
  omega

/-- Below the bound no sequence is cut. -/
theorem packId_injective {node : NodeId} {i j : Nat} (hi : i < 2 ^ 48) (hj : j < 2 ^ 48)
    (h : packId node (BitVec.ofNat 64 i) = packId node (BitVec.ofNat 64 j)) : i = j := by
  have hnat := congrArg BitVec.toNat h
  rw [toNat_packId, toNat_packId, BitVec.toNat_ofNat, BitVec.toNat_ofNat] at hnat
  omega

/-! ## Time -/

/-- Whole seconds since the unix epoch (`i64`; clocks stay far from its limits). -/
@[ext] structure Timestamp where
  secs : Int
deriving DecidableEq

namespace Timestamp

def secondsPerDay : Int := 86400

instance : LE Timestamp := ⟨fun a b => a.secs ≤ b.secs⟩

instance : LT Timestamp := ⟨fun a b => a.secs < b.secs⟩

instance (a b : Timestamp) : Decidable (a ≤ b) := inferInstanceAs (Decidable (a.secs ≤ b.secs))

instance (a b : Timestamp) : Decidable (a < b) := inferInstanceAs (Decidable (a.secs < b.secs))

theorem le_def {a b : Timestamp} : a ≤ b ↔ a.secs ≤ b.secs := Iff.rfl

theorem lt_def {a b : Timestamp} : a < b ↔ a.secs < b.secs := Iff.rfl

/-- Whole days from `earlier` to `t`, rounded down. -/
def daysSince (t earlier : Timestamp) : Int :=
  (t.secs - earlier.secs) / secondsPerDay

def plusDays (t : Timestamp) (days : Int) : Timestamp :=
  ⟨t.secs + days * secondsPerDay⟩

@[simp] theorem plusDays_secs (t : Timestamp) (days : Int) :
    (t.plusDays days).secs = t.secs + days * 86400 := rfl

end Timestamp

end Democrachat
