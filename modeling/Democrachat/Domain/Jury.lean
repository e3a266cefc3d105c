import Democrachat.Domain.Governance
import Mathlib.Data.Nat.Sqrt

/-!
# Trial by jury

`domain/src/jury`: who is empanelled, how many, and when they have decided.  Arithmetic that
can leave the range of `u64` answers `none` where it does.
-/

namespace Democrachat

def checkedMul (a b : Nat) : Option Nat := if a * b < 2 ^ 64 then some (a * b) else none

def checkedSub (a b : Nat) : Option Nat := if b ≤ a then some (a - b) else none

/-! ## Selection -/

/-- The finalizer of SplitMix64. -/
def mix (x : BitVec 64) : BitVec 64 :=
  let x := x + 0x9E3779B97F4A7C15#64
  let x := (x ^^^ (x >>> 30)) * 0xBF58476D1CE4E5B9#64
  let x := (x ^^^ (x >>> 27)) * 0x94D049BB133111EB#64
  x ^^^ (x >>> 31)

example : mix 0 = 0xE220A8397B1DCDAF#64 := by decide

/-- By hash, and by id where the hashes agree. -/
def scoredBefore (a b : BitVec 64 × BitVec 64) : Bool :=
  decide (a.1 < b.1) || (decide (a.1 = b.1) && decide (a.2 ≤ b.2))

/-- `select_jury`, on the packed numbers of the users. -/
def selectJury (candidates : List (BitVec 64)) (accused : BitVec 64) (size : Nat)
    (seed : BitVec 64) : List (BitVec 64) :=
  let scored := (candidates.filter (fun c => c != accused)).map (fun c => (mix (seed ^^^ c), c))
  ((scored.mergeSort scoredBefore).take size).map Prod.snd

/-! ## The verdict -/

inductive Verdict where
  | pending
  | guilty
  | notGuilty
deriving DecidableEq

structure JuryBallot where
  juror : UserId
  guilty : Bool
deriving DecidableEq

structure Trial where
  jurors : List UserId
  juryWeight : Nat
  jurorWeights : List Nat
deriving DecidableEq

/-- One without frozen weights, and for who is not on the panel. -/
def Trial.jurorWeight (t : Trial) (user : UserId) : Nat :=
  ((t.jurors.findIdx? (fun j => j == user)).bind (fun i => t.jurorWeights[i]?)).getD 1

/-- `div_ceil`. -/
def divCeil (a b : Nat) : Nat := if a % b > 0 then a / b + 1 else a / b

def reachVerdict (guiltyWeight notGuiltyWeight juryWeight : Nat) : Option Verdict :=
  if juryWeight = 0 then some .notGuilty
  else do
    let doubled ← checkedMul juryWeight 2
    let needGuilty := divCeil doubled 3
    if guiltyWeight ≥ needGuilty then return .guilty
    let rest ← checkedSub juryWeight notGuiltyWeight
    if rest < needGuilty then return .notGuilty
    return .pending

/-! ## The size of a panel -/

inductive ContentScale where
  | post
  | comment
deriving DecidableEq

def clamp (n low high : Nat) : Nat := if n < low then low else if n > high then high else n

namespace JurySizing

def jurySize (sizing : JurySizing) (citizens : Nat) (scale : ContentScale) : Option Nat :=
  let cap := (citizens - 1) / 2
  if cap = 0 then some 0
  else do
    let target ← match sizing, scale with
      | sqrt postFactorBp _, .post => (checkedMul citizens.sqrt postFactorBp).map (· / 10000)
      | sqrt _ commentFactorBp, .comment =>
        (checkedMul citizens.sqrt commentFactorBp).map (· / 10000)
      | proportion postBp _, .post => (checkedMul citizens postBp).map (· / 10000)
      | proportion _ commentBp, .comment => (checkedMul citizens commentBp).map (· / 10000)
      | fixed post _, .post => some post
      | fixed _ comment, .comment => some comment
    return clamp target 1 cap

/-- The parameters are `u32`. -/
def Fits : JurySizing → Prop
  | sqrt post comment | proportion post comment | fixed post comment =>
    post < 2 ^ 32 ∧ comment < 2 ^ 32

end JurySizing

end Democrachat
