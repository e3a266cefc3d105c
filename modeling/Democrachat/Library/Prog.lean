import Mathlib.Logic.Relation

/-!
# Programs of atomic steps over a shared state

A request is a tree of atomic steps.  Each step overwrites the shared state and
continues with what it saw *before* writing, so a read-modify-write under one
lock is one step and a read followed by a write is two.  The same tree is run
to its end by `exec` and step by step, among others, by the schedules of
`Library.Schedule`.
-/

namespace Library

inductive Prog (σ α : Type) where
  | ret (a : α)
  | step (write : σ → σ) (next : σ → Prog σ α)

namespace Prog

variable {σ α β ε : Type}

protected def bind : Prog σ α → (α → Prog σ β) → Prog σ β
  | ret a, f => f a
  | step w k, f => step w (fun s => (k s).bind f)

instance : Monad (Prog σ) where
  pure := ret
  bind := Prog.bind

/-- One locked access: `f` computes the answer and the new state together. -/
def call (f : σ → α × σ) : Prog σ α :=
  step (fun s => (f s).2) (fun s => ret (f s).1)

/-- One locked read. -/
def query (f : σ → α) : Prog σ α :=
  step id (fun s => ret (f s))

/-- One locked write. -/
def modify (f : σ → σ) : Prog σ Unit :=
  step f (fun _ => ret ())

/-! ## Running a program alone -/

def exec : Prog σ α → σ → α × σ
  | ret a, s => (a, s)
  | step w k, s => (k s).exec (w s)

@[simp] theorem exec_ret (a : α) (s : σ) : (ret a : Prog σ α).exec s = (a, s) := rfl

@[simp] theorem exec_pure (a : α) (s : σ) : (pure a : Prog σ α).exec s = (a, s) := rfl

@[simp] theorem exec_step (w : σ → σ) (k : σ → Prog σ α) (s : σ) :
    (step w k).exec s = (k s).exec (w s) := rfl

@[simp] theorem exec_call (f : σ → α × σ) (s : σ) : (call f).exec s = f s := rfl

@[simp] theorem exec_query (f : σ → α) (s : σ) : (query f).exec s = (f s, s) := rfl

@[simp] theorem exec_modify (f : σ → σ) (s : σ) : (modify f).exec s = ((), f s) := rfl

@[simp] theorem exec_bind (p : Prog σ α) (f : α → Prog σ β) (s : σ) :
    (p >>= f).exec s = (f (p.exec s).1).exec (p.exec s).2 := by
  induction p generalizing s with
  | ret a => rfl
  | step w k ih => exact ih s (w s)

@[simp] theorem exec_map (f : α → β) (p : Prog σ α) (s : σ) :
    (f <$> p).exec s = (f (p.exec s).1, (p.exec s).2) :=
  exec_bind p (fun a => ret (f a)) s

@[simp] theorem exec_ite (c : Prop) [Decidable c] (p q : Prog σ α) (s : σ) :
    (if c then p else q).exec s = if c then p.exec s else q.exec s := by
  split <;> rfl

theorem map_id (p : Prog σ α) : id <$> p = p := by
  induction p with
  | ret a => rfl
  | step w k ih => exact congrArg (step w) (funext ih)

theorem bind_assoc {γ : Type} (p : Prog σ α) (f : α → Prog σ β) (g : β → Prog σ γ) :
    p >>= f >>= g = p >>= fun a => f a >>= g := by
  induction p with
  | ret a => rfl
  | step w k ih => exact congrArg (step w) (funext ih)

instance : LawfulMonad (Prog σ) :=
  LawfulMonad.mk' (Prog σ) map_id (fun _ _ => rfl) bind_assoc

end Prog

/-! ## Requests that may fail -/

/-- A program that answers with a value or an error.  Failing leaves the writes
already made in place: there are no transactions. -/
structure Req (σ ε α : Type) where
  run : Prog σ (Except ε α)

namespace Req

variable {σ α β ε : Type}

protected def bind (r : Req σ ε α) (f : α → Req σ ε β) : Req σ ε β where
  run := r.run >>= fun
    | .ok a => (f a).run
    | .error e => pure (.error e)

instance : Monad (Req σ ε) where
  pure a := ⟨pure (.ok a)⟩
  bind := Req.bind

instance : MonadLift (Prog σ) (Req σ ε) := ⟨fun p => ⟨Except.ok <$> p⟩⟩

def throw (e : ε) : Req σ ε α := ⟨pure (.error e)⟩

/-- `Option::ok_or`. -/
def okOr (o : Option α) (e : ε) : Req σ ε α :=
  match o with
  | some a => pure a
  | none => throw e

/-- An early return unless the condition holds. -/
def ensure (c : Bool) (e : ε) : Req σ ε Unit :=
  if c then pure () else throw e

/-- `result.map_err(f)?`. -/
def orElse {ε' : Type} (r : Except ε' α) (f : ε' → ε) : Req σ ε α :=
  match r with
  | .ok a => pure a
  | .error e => throw (f e)

def exec (r : Req σ ε α) (s : σ) : Except ε α × σ := r.run.exec s

@[simp] theorem exec_pure (a : α) (s : σ) : (pure a : Req σ ε α).exec s = (.ok a, s) := rfl

@[simp] theorem exec_throw (e : ε) (s : σ) : (throw e : Req σ ε α).exec s = (.error e, s) := rfl

theorem exec_bind (r : Req σ ε α) (f : α → Req σ ε β) (s : σ) :
    (r >>= f).exec s =
      match r.exec s with
      | (.ok a, t) => (f a).exec t
      | (.error e, t) => (.error e, t) := by
  change Prog.exec (r.run >>= _) s = _
  rw [Prog.exec_bind]
  rcases h : r.exec s with ⟨a | a, t⟩ <;> rw [exec] at h <;> rw [h] <;> rfl

@[simp] theorem exec_liftM (p : Prog σ α) (s : σ) :
    (liftM p : Req σ ε α).exec s = (.ok (p.exec s).1, (p.exec s).2) :=
  Prog.exec_map _ p s

theorem bind_assoc {γ : Type} (r : Req σ ε α) (f : α → Req σ ε β) (g : β → Req σ ε γ) :
    r >>= f >>= g = r >>= fun a => f a >>= g := by
  change Req.mk _ = Req.mk _
  congr 1
  change (r.run >>= _) >>= _ = r.run >>= _
  rw [Prog.bind_assoc]
  congr 1
  funext a
  cases a with
  | ok a => rfl
  | error e => rfl

theorem exec_liftM_bind (p : Prog σ α) (f : α → Req σ ε β) (s : σ) :
    ((liftM p : Req σ ε α) >>= f).exec s = (f (p.exec s).1).exec (p.exec s).2 := by
  rw [exec_bind, exec_liftM]

@[simp] theorem exec_okOr_bind (o : Option α) (e : ε) (f : α → Req σ ε β) (s : σ) :
    (okOr o e >>= f).exec s =
      match o with
      | some a => (f a).exec s
      | none => (.error e, s) := by
  cases o <;> rfl

@[simp] theorem exec_ensure_bind (c : Bool) (e : ε) (f : Unit → Req σ ε β) (s : σ) :
    (ensure c e >>= f).exec s = if c then (f ()).exec s else (.error e, s) := by
  cases c <;> rfl

@[simp] theorem exec_orElse_bind {ε' : Type} (r : Except ε' α) (g : ε' → ε) (f : α → Req σ ε β)
    (s : σ) :
    (orElse r g >>= f).exec s =
      match r with
      | .ok a => (f a).exec s
      | .error e => (.error (g e), s) := by
  cases r <;> rfl

@[simp] theorem exec_ite (c : Prop) [Decidable c] (r r' : Req σ ε α) (s : σ) :
    (if c then r else r').exec s = if c then r.exec s else r'.exec s := by
  split <;> rfl

end Req

/-! ## Guarantees

What every single write of a program does, whatever it read before: the part of
a specification that survives interference from other programs. -/

namespace Prog

variable {σ α β ε : Type} {G : σ → σ → Prop}

def Guarantees (G : σ → σ → Prop) : Prog σ α → Prop
  | ret _ => True
  | step w k => (∀ s, G s (w s)) ∧ ∀ s, (k s).Guarantees G

theorem Guarantees.bind {p : Prog σ α} {f : α → Prog σ β} (hp : p.Guarantees G)
    (hf : ∀ a, (f a).Guarantees G) : (p >>= f).Guarantees G := by
  induction p with
  | ret a => exact hf a
  | step w k ih => exact ⟨hp.1, fun s => ih s (hp.2 s)⟩

@[simp] theorem guarantees_pure (a : α) : (pure a : Prog σ α).Guarantees G := trivial

theorem guarantees_query (hG : ∀ s, G s s) (f : σ → α) : (query f).Guarantees G :=
  ⟨hG, fun _ => trivial⟩

theorem guarantees_modify {f : σ → σ} (h : ∀ s, G s (f s)) : (modify f).Guarantees G :=
  ⟨h, fun _ => trivial⟩

theorem guarantees_call {f : σ → α × σ} (h : ∀ s, G s (f s).2) : (call f).Guarantees G :=
  ⟨h, fun _ => trivial⟩

theorem Guarantees.ite {c : Prop} [Decidable c] {p q : Prog σ α} (hp : p.Guarantees G)
    (hq : q.Guarantees G) : (if c then p else q).Guarantees G := by
  split
  · exact hp
  · exact hq

theorem Guarantees.exec (hrefl : ∀ s, G s s) (htrans : ∀ s t u, G s t → G t u → G s u)
    {p : Prog σ α} (hp : p.Guarantees G) (s : σ) : G s (p.exec s).2 := by
  induction p generalizing s with
  | ret a => exact hrefl s
  | step w k ih => exact htrans _ _ _ (hp.1 s) (ih s (hp.2 s) (w s))

end Prog

/-! ## What holds of a composition -/

namespace Prog

/-- The property holds of whatever is put together from programs that have it. -/
structure Closed {σ : Type} (P : ∀ {α : Type}, Prog σ α → Prop) : Prop where
  pure : ∀ {α : Type} (a : α), P (pure a : Prog σ α)
  bind : ∀ {α β : Type} {p : Prog σ α} {f : α → Prog σ β}, P p → (∀ a, P (f a)) → P (p >>= f)

theorem closed_guarantees {σ : Type} (G : σ → σ → Prop) :
    Closed (fun {α} (p : Prog σ α) => p.Guarantees G) :=
  ⟨fun _ => trivial, fun hp hf => hp.bind hf⟩

namespace Closed

variable {σ ε α β : Type} {P : ∀ {α : Type}, Prog σ α → Prop} (h : Closed P)

include h

theorem map {p : Prog σ α} (f : α → β) (hp : P p) : P (f <$> p) :=
  h.bind hp (fun _ => h.pure _)

theorem req_bind {r : Req σ ε α} {k : α → Req σ ε β} (hr : P r.run) (hk : ∀ a, P (k a).run) :
    P (r >>= k).run := by
  refine h.bind hr ?_
  rintro (e | a)
  · exact h.pure _
  · exact hk a

theorem req_pure (a : α) : P (Pure.pure a : Req σ ε α).run := h.pure _

theorem req_liftM {p : Prog σ α} (hp : P p) : P (liftM p : Req σ ε α).run := h.map _ hp

omit h in
theorem req_ite {c : Prop} [Decidable c] {r r' : Req σ ε α} (hr : P r.run) (hr' : P r'.run) :
    P (if c then r else r').run := by
  split
  · exact hr
  · exact hr'

end Closed

end Prog

namespace Req

variable {σ α β ε : Type} {G : σ → σ → Prop}

def Guarantees (G : σ → σ → Prop) (r : Req σ ε α) : Prop :=
  r.run.Guarantees G

@[simp] theorem guarantees_pure (a : α) : (pure a : Req σ ε α).Guarantees G := trivial

@[simp] theorem guarantees_throw (e : ε) : (throw e : Req σ ε α).Guarantees G := trivial

theorem Guarantees.bind {r : Req σ ε α} {f : α → Req σ ε β} (hr : r.Guarantees G)
    (hf : ∀ a, (f a).Guarantees G) : (r >>= f).Guarantees G := by
  refine Prog.Guarantees.bind hr ?_
  rintro (e | a)
  · trivial
  · exact hf a

theorem guarantees_liftM {p : Prog σ α} (hp : p.Guarantees G) :
    (liftM p : Req σ ε α).Guarantees G :=
  Prog.Guarantees.bind hp (fun _ => trivial)

theorem guarantees_okOr (o : Option α) (e : ε) : (okOr o e : Req σ ε α).Guarantees G := by
  cases o <;> trivial

theorem guarantees_ensure (c : Bool) (e : ε) : (ensure c e : Req σ ε Unit).Guarantees G := by
  cases c <;> trivial

theorem guarantees_orElse {ε' : Type} (r : Except ε' α) (f : ε' → ε) :
    (orElse r f : Req σ ε α).Guarantees G := by
  cases r <;> trivial

theorem guarantees_ite {c : Prop} [Decidable c] {r r' : Req σ ε α} (h : r.Guarantees G)
    (h' : r'.Guarantees G) : (if c then r else r').Guarantees G := by
  split
  · exact h
  · exact h'

theorem Guarantees.exec (hrefl : ∀ s, G s s) (htrans : ∀ s t u, G s t → G t u → G s u)
    {r : Req σ ε α} (hr : r.Guarantees G) (s : σ) : G s (r.exec s).2 :=
  Prog.Guarantees.exec hrefl htrans hr s

/-- Every single write of the request is as `G` says. -/
structure WritesOnly (G : σ → σ → Prop) (r : Req σ ε α) : Prop where
  guarantees : r.Guarantees G

namespace WritesOnly

variable {ε' : Type}

theorem pure (a : α) : WritesOnly G (Pure.pure a : Req σ ε α) := ⟨trivial⟩

theorem bind {r : Req σ ε α} {k : α → Req σ ε β} (hr : WritesOnly G r)
    (hk : ∀ a, WritesOnly G (k a)) : WritesOnly G (r >>= k) :=
  ⟨Guarantees.bind hr.guarantees (fun a => (hk a).guarantees)⟩

theorem ensure {c : Bool} {e : ε} {k : Unit → Req σ ε β} (hk : WritesOnly G (k ())) :
    WritesOnly G (Req.ensure c e >>= k) :=
  bind ⟨guarantees_ensure c e⟩ (fun _ => hk)

theorem okOr {o : Option α} {e : ε} {k : α → Req σ ε β} (hk : ∀ a, WritesOnly G (k a)) :
    WritesOnly G (Req.okOr o e >>= k) :=
  bind ⟨guarantees_okOr o e⟩ hk

theorem orElse {r : Except ε' α} {f : ε' → ε} {k : α → Req σ ε β}
    (hk : ∀ a, WritesOnly G (k a)) : WritesOnly G (Req.orElse r f >>= k) :=
  bind ⟨guarantees_orElse r f⟩ hk

/-- Part of the request is a program. -/
theorem step {p : Prog σ α} {k : α → Req σ ε β} (hp : p.Guarantees G)
    (hk : ∀ a, WritesOnly G (k a)) : WritesOnly G ((liftM p : Req σ ε α) >>= k) :=
  bind ⟨guarantees_liftM hp⟩ hk

theorem last {p : Prog σ α} (hp : p.Guarantees G) : WritesOnly G (liftM p : Req σ ε α) :=
  ⟨guarantees_liftM hp⟩

theorem ite {c : Prop} [Decidable c] {r r' : Req σ ε α} (h : WritesOnly G r)
    (h' : WritesOnly G r') : WritesOnly G (if c then r else r') :=
  ⟨guarantees_ite h.guarantees h'.guarantees⟩

theorem exec (hrefl : ∀ s, G s s) (htrans : ∀ s t u, G s t → G t u → G s u) {r : Req σ ε α}
    (hr : WritesOnly G r) (s : σ) : G s (r.exec s).2 :=
  Guarantees.exec hrefl htrans hr.guarantees s

end WritesOnly

end Req

end Library
