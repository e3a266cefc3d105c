import Democrachat.Store.Ports

/-!
# The replay guard

`adapter-federation/src/command`: `forward_error.rs`, `max_command_skew_secs.rs`,
`replay_guard.rs` and `in_memory_nonce_log.rs`, and `democrachat/src/nonce_log.rs`.
Instants are `i64`, with the arithmetic of a release build.
-/

namespace Democrachat.Federation

open Library

/-- What a forwarded command can fail with. -/
inductive ForwardError where
  | unowned
  | ownerUnreachable (message : String)
  | rejected (message : String)
deriving DecidableEq

def maxCommandSkewSecs : Int64 := 120

def outsideWindow : ForwardError :=
  .rejected "stale or future-dated command (outside the freshness window)"

def duplicateCommand : ForwardError :=
  .rejected "duplicate command (already applied — replay refused)"

/-- `ReplayGuard::admit`, over the map that both nonce logs keep. -/
def admitCommand (log : NonceLog) (node : NodeId) (nonce : String) (issuedAt now : Int64) :
    Except ForwardError Unit × NonceLog :=
  if (now - issuedAt).abs > maxCommandSkewSecs then (.error outsideWindow, log)
  else
    let expiryAt := now + 2 * maxCommandSkewSecs
    match log.remember node nonce now expiryAt with
    | (true, log) => (.ok (), log)
    | (false, log) => (.error duplicateCommand, log)

/-- Within the freshness window, over the exact integers. -/
def IsFresh (issuedAt now : Int64) : Prop := (now.toInt - issuedAt.toInt).natAbs ≤ 120

instance (issuedAt now : Int64) : Decidable (IsFresh issuedAt now) :=
  inferInstanceAs (Decidable (_ ≤ _))

/-- So far apart that the difference of the two instants wraps around into the window. -/
def WrapsAround (issuedAt now : Int64) : Prop :=
  (now.toInt - issuedAt.toInt).natAbs = 2 ^ 63 ∨
    2 ^ 64 - 120 ≤ (now.toInt - issuedAt.toInt).natAbs

instance (issuedAt now : Int64) : Decidable (WrapsAround issuedAt now) :=
  inferInstanceAs (Decidable (_ ∨ _))

/-! ## Arithmetic -/

/-- The one value without an absolute value is its own. -/
theorem toInt_abs (a : Int64) :
    a.abs.toInt = if a.toInt = -2 ^ 63 then (-2 ^ 63 : Int) else a.toInt.natAbs := by
  have habs : a.abs.toInt = a.toBitVec.abs.toInt := rfl
  have hval : a.toInt = a.toBitVec.toInt := rfl
  have hmin : a.toBitVec = BitVec.intMin 64 ↔ a.toBitVec.toInt = -2 ^ 63 := by
    rw [← BitVec.toInt_inj]
    rfl
  rw [habs, hval, BitVec.toInt_abs_eq_natAbs]
  by_cases h : a.toBitVec.toInt = -2 ^ 63
  · rw [if_pos (hmin.2 h), if_pos h]
    rfl
  · rw [if_neg (fun h' => h (hmin.1 h')), if_neg h]

/-- What passes the check of the window. -/
theorem not_skewed_iff (issuedAt now : Int64) :
    ¬ (now - issuedAt).abs > maxCommandSkewSecs ↔
      IsFresh issuedAt now ∨ WrapsAround issuedAt now := by
  have hnow := now.toInt_lt
  have hnow' := now.le_toInt
  have hissued := issuedAt.toInt_lt
  have hissued' := issuedAt.le_toInt
  have hskew : maxCommandSkewSecs.toInt = 120 := by decide
  rw [gt_iff_lt, Int64.lt_iff_toInt_lt, toInt_abs, hskew, Int64.toInt_sub]
  unfold IsFresh WrapsAround
  generalize now.toInt = t at *
  generalize issuedAt.toInt = t' at *
  rw [Int.bmod_def]
  omega

/-- The instant at which a nonce may be forgotten, unless it lies past the last one there is. -/
theorem toInt_expiry {now : Int64} (h : now.toInt + 240 < 2 ^ 63) :
    (now + 2 * maxCommandSkewSecs).toInt = now.toInt + 240 := by
  have hnow := now.le_toInt
  have htwice : (2 * maxCommandSkewSecs).toInt = 240 := by decide
  rw [Int64.toInt_add, htwice, Int.bmod_def]
  omega

/-! ## The log -/

/-- The nonce is remembered at that instant. -/
def holds (log : NonceLog) (node : NodeId) (nonce : String) (now : Int64) : Bool :=
  (log.get (toLex (node, nonce))).any (fun n => n.expiry > now)

/-- The nonce is remembered at least until that instant. -/
def HoldsUntil (log : NonceLog) (node : NodeId) (nonce : String) (expiry : Int) : Prop :=
  ∃ n, log.get (toLex (node, nonce)) = some n ∧ expiry ≤ n.expiry.toInt

theorem HoldsUntil.holds {log : NonceLog} {node : NodeId} {nonce : String} {expiry : Int}
    {now : Int64} (h : HoldsUntil log node nonce expiry) (hnow : now.toInt < expiry) :
    holds log node nonce now = true := by
  obtain ⟨n, hget, hexpiry⟩ := h
  rw [Federation.holds, hget]
  simp only [Option.any_some, decide_eq_true_eq, gt_iff_lt, Int64.lt_iff_toInt_lt]
  omega

theorem remember_fst (log : NonceLog) (node : NodeId) (nonce : String) (now expiryAt : Int64) :
    (log.remember node nonce now expiryAt).1 = !holds log node nonce now := by
  unfold NonceLog.remember holds
  dsimp only
  rw [Table.get_retain]
  cases hget : log.get (toLex (node, nonce)) with
  | none => rfl
  | some n =>
    by_cases hexpiry : n.expiry > now
    · simp [Option.filter, hexpiry]
    · simp [Option.filter, hexpiry]

/-- What is remembered beyond the present instant stays so, and what is presented again
is remembered anew. -/
theorem HoldsUntil.remember {log : NonceLog} {node : NodeId} {nonce : String} {expiry : Int}
    {now expiryAt : Int64} (h : HoldsUntil log node nonce expiry) (hnow : now.toInt < expiry)
    (hexpiry : expiry ≤ expiryAt.toInt) (node' : NodeId) (nonce' : String) :
    HoldsUntil (log.remember node' nonce' now expiryAt).2 node nonce expiry := by
  obtain ⟨n, hget, hlate⟩ := h
  unfold NonceLog.remember HoldsUntil
  by_cases hsame : toLex (node, nonce) = toLex (node', nonce')
  · refine ⟨⟨node', nonce', expiryAt⟩, ?_, hexpiry⟩
    rw [hsame]
    exact Table.get_insert_self _ _
  · refine ⟨n, ?_, hlate⟩
    have hlive : n.expiry > now := by
      rw [gt_iff_lt, Int64.lt_iff_toInt_lt]
      omega
    have hother : toLex (node, nonce) ≠ SeenNonce.key ⟨node', nonce', expiryAt⟩ := hsame
    dsimp only
    rw [Table.get_insert_of_ne _ hother, Table.get_retain, hget]
    simp [Option.filter, hlive]

theorem holdsUntil_remember (log : NonceLog) (node : NodeId) (nonce : String)
    (now expiryAt : Int64) :
    HoldsUntil (log.remember node nonce now expiryAt).2 node nonce expiryAt.toInt :=
  ⟨⟨node, nonce, expiryAt⟩, Table.get_insert_self _ _, le_refl _⟩

/-- A command is let in exactly where it passes the window and its nonce is not remembered. -/
theorem admitCommand_cases (log : NonceLog) (node : NodeId) (nonce : String)
    (issuedAt now : Int64) :
    ((IsFresh issuedAt now ∨ WrapsAround issuedAt now) ∧ holds log node nonce now = false ∧
        admitCommand log node nonce issuedAt now =
          (.ok (), (log.remember node nonce now (now + 2 * maxCommandSkewSecs)).2)) ∨
      ((IsFresh issuedAt now ∨ WrapsAround issuedAt now) ∧ holds log node nonce now = true ∧
        admitCommand log node nonce issuedAt now =
          (.error duplicateCommand, (log.remember node nonce now (now + 2 * maxCommandSkewSecs)).2)) ∨
      (¬ (IsFresh issuedAt now ∨ WrapsAround issuedAt now) ∧
        admitCommand log node nonce issuedAt now = (.error outsideWindow, log)) := by
  unfold admitCommand
  by_cases hskew : (now - issuedAt).abs > maxCommandSkewSecs
  · right
    right
    rw [if_pos hskew]
    exact ⟨fun h => (not_skewed_iff issuedAt now).2 h hskew, rfl⟩
  · have hfresh := (not_skewed_iff issuedAt now).1 hskew
    have hnew := remember_fst log node nonce now (now + 2 * maxCommandSkewSecs)
    rw [if_neg hskew]
    rcases hremember : log.remember node nonce now (now + 2 * maxCommandSkewSecs) with ⟨isNew, log'⟩
    rw [hremember] at hnew
    dsimp only at hnew ⊢
    rw [hremember]
    cases hheld : holds log node nonce now with
    | false =>
      left
      rw [hheld] at hnew
      rw [hnew]
      exact ⟨hfresh, rfl, rfl⟩
    | true =>
      right
      left
      rw [hheld] at hnew
      rw [hnew]
      exact ⟨hfresh, rfl, rfl⟩

end Democrachat.Federation
