import Democrachat.Library.FixedWindow
import Democrachat.Library.Table
import Mathlib.Data.Prod.Lex

/-!
# The rate limiter

`RateLimiter` of `adapter-web/src/middleware/rate_limit.rs`, for addresses of any kind.  Instants
are nanoseconds.
-/

namespace Democrachat

open Library

def authMax : Nat := 10

def writeMax : Nat := 120

/-- A minute. -/
def rateWindow : Nat := 60 * 1000000000

def pruneThreshold : Nat := 10000

inductive Bucket where
  | auth
  | write
deriving DecidableEq

namespace Bucket

def limit : Bucket → Nat
  | auth => authMax
  | write => writeMax

def index : Bucket → Nat
  | auth => 0
  | write => 1

theorem index_injective : Function.Injective index := by
  intro a b h
  cases a <;> cases b <;> first | rfl | exact absurd h (by decide)

instance : LinearOrder Bucket := LinearOrder.lift' index index_injective

end Bucket

namespace RateLimiter

variable {Ip : Type} [LinearOrder Ip]

abbrev Window := Counter

/-- Whose window it is. -/
abbrev Key (Ip : Type) := Ip ×ₗ Bucket

abbrev Windows (Ip : Type) [LinearOrder Ip] := Table (Prod.fst : Key Ip × Window → Key Ip)

/-- In whole seconds, and one at least. -/
def retryAfter (w : Window) (now : Nat) : Nat := max ((w.resetAt - now) / 1000000000) 1

/-- Windows that have elapsed go when there are too many. -/
def prune (windows : Windows Ip) (now : Nat) : Windows Ip :=
  if windows.rows.length > pruneThreshold then windows.retain (fun e => e.2.resetAt > now)
  else windows

/-- What `check` does with the windows that it has left. -/
def record (windows : Windows Ip) (ip : Ip) (bucket : Bucket) (now : Nat) :
    Except Nat Unit × Windows Ip :=
  let key : Key Ip := toLex (ip, bucket)
  let w : Window := ((windows.get key).map Prod.snd).getD ⟨0, now + rateWindow⟩
  let w : Window := if w.resetAt ≤ now then ⟨0, now + rateWindow⟩ else w
  if w.count ≥ bucket.limit then (.error (retryAfter w now), windows.insert (key, w))
  else (.ok (), windows.insert (key, { w with count := w.count + 1 }))

def check (windows : Windows Ip) (ip : Ip) (bucket : Bucket) (now : Nat) :
    Except Nat Unit × Windows Ip :=
  record (prune windows now) ip bucket now

end RateLimiter

end Democrachat
