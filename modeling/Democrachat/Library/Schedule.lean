import Democrachat.Library.Prog
import Mathlib.Data.List.Forall2

/-!
# Interleavings

A pool is a list of programs over one shared state.  A schedule names, step by
step, the program that moves next; naming a finished program moves nothing, so
every list of indices is a schedule and every interleaving is one of them.
-/

namespace Library

namespace Prog

variable {σ α : Type}

/-- Let program `i` of the pool take one step. -/
def tick (c : List (Prog σ α) × σ) (i : Nat) : List (Prog σ α) × σ :=
  match c.1[i]? with
  | some (step w k) => (c.1.set i (k c.2), w c.2)
  | _ => c

def schedule (is : List Nat) (c : List (Prog σ α) × σ) : List (Prog σ α) × σ :=
  is.foldl tick c

def answer? : Prog σ α → Option α
  | ret a => some a
  | step _ _ => none

def isDone (p : Prog σ α) : Bool := p.answer?.isSome

/-- Every program of the pool has answered. -/
def finished (c : List (Prog σ α) × σ) : Bool := c.1.all isDone

def answers (c : List (Prog σ α) × σ) : List α := c.1.filterMap answer?

/-- The same programs one after another. -/
def runAll : List (Prog σ α) → σ → List α × σ
  | [], s => ([], s)
  | p :: ps, s =>
    let (a, t) := p.exec s
    let (as, u) := runAll ps t
    (a :: as, u)

theorem runAll_cons (p : Prog σ α) (ps : List (Prog σ α)) (s : σ) :
    runAll (p :: ps) s =
      ((p.exec s).1 :: (runAll ps (p.exec s).2).1, (runAll ps (p.exec s).2).2) := rfl

@[simp] theorem answer?_ret (a : α) : (ret a : Prog σ α).answer? = some a := rfl

@[simp] theorem answer?_step (w : σ → σ) (k : σ → Prog σ α) : (step w k).answer? = none := rfl

@[simp] theorem schedule_nil (c : List (Prog σ α) × σ) : schedule [] c = c := rfl

@[simp] theorem schedule_cons (i : Nat) (is : List Nat) (c : List (Prog σ α) × σ) :
    schedule (i :: is) c = schedule is (tick c i) := rfl

theorem schedule_append (is js : List Nat) (c : List (Prog σ α) × σ) :
    schedule (is ++ js) c = schedule js (schedule is c) :=
  List.foldl_append

@[simp] theorem tick_nil (i : Nat) (s : σ) : tick (([] : List (Prog σ α)), s) i = ([], s) := rfl

theorem tick_cons_zero (p : Prog σ α) (ps : List (Prog σ α)) (s : σ) :
    tick (p :: ps, s) 0 =
      match p with
      | ret _ => (p :: ps, s)
      | step w k => (k s :: ps, w s) := by
  cases p <;> rfl

theorem tick_cons_succ (p : Prog σ α) (ps : List (Prog σ α)) (s : σ) (i : Nat) :
    tick (p :: ps, s) (i + 1) = (p :: (tick (ps, s) i).1, (tick (ps, s) i).2) := by
  simp only [tick, List.getElem?_cons_succ]
  split <;> simp_all

theorem getElem?_tick_of_ne {i j : Nat} (h : j ≠ i) (c : List (Prog σ α) × σ) :
    (tick c i).1[j]? = c.1[j]? := by
  unfold tick
  split
  next => exact List.getElem?_set_ne h.symm
  next => rfl

/-- A program that has answered stays as it is. -/
theorem getElem?_tick_of_ret {i j : Nat} {c : List (Prog σ α) × σ} {a : α}
    (h : c.1[j]? = some (ret a)) : (tick c i).1[j]? = some (ret a) := by
  by_cases hij : j = i
  · subst hij
    rw [tick, h]
    exact h
  · rw [getElem?_tick_of_ne hij, h]

/-- A program that does not move stays as it is. -/
theorem getElem?_schedule_of_notMem {i : Nat} {is : List Nat} (h : i ∉ is)
    (c : List (Prog σ α) × σ) : (schedule is c).1[i]? = c.1[i]? := by
  induction is generalizing c with
  | nil => rfl
  | cons j is ih =>
    have hne : i ≠ j := List.ne_of_not_mem_cons h
    rw [schedule_cons, ih (List.not_mem_of_not_mem_cons h), getElem?_tick_of_ne hne]

theorem getElem?_schedule_of_ret {i : Nat} {c : List (Prog σ α) × σ} {a : α} (is : List Nat)
    (h : c.1[i]? = some (ret a)) : (schedule is c).1[i]? = some (ret a) := by
  induction is generalizing c with
  | nil => exact h
  | cons j is ih => exact ih (getElem?_tick_of_ret h)

/-- What the step of a program leaves. -/
theorem tick_of_step {i : Nat} {c : List (Prog σ α) × σ} {w : σ → σ} {k : σ → Prog σ α}
    (h : c.1[i]? = some (step w k)) :
    (tick c i).1[i]? = some (k c.2) ∧ (tick c i).2 = w c.2 := by
  have hlt := (List.getElem?_eq_some_iff.1 h).1
  rw [tick, h]
  exact ⟨List.getElem?_set_self hlt, rfl⟩

/-- What every write of every program does, every tick does. -/
theorem guarantees_tick {G : σ → σ → Prop} (hrefl : ∀ s, G s s) {c : List (Prog σ α) × σ}
    (hc : ∀ p ∈ c.1, p.Guarantees G) (i : Nat) :
    G c.2 (tick c i).2 ∧ ∀ p ∈ (tick c i).1, p.Guarantees G := by
  unfold tick
  split
  next w k hget =>
    have hstep := hc _ (List.mem_of_getElem? hget)
    refine ⟨hstep.1 c.2, ?_⟩
    intro p hp
    rcases List.mem_or_eq_of_mem_set hp with hold | rfl
    · exact hc p hold
    · exact hstep.2 c.2
  next => exact ⟨hrefl _, hc⟩

theorem guarantees_schedule {G : σ → σ → Prop} (hrefl : ∀ s, G s s) {c : List (Prog σ α) × σ}
    (hc : ∀ p ∈ c.1, p.Guarantees G) (is : List Nat) :
    ∀ p ∈ (schedule is c).1, p.Guarantees G := by
  induction is generalizing c with
  | nil => exact hc
  | cons i is ih => exact ih (guarantees_tick hrefl hc i).2

section

variable {G : Nat → σ → σ → Prop} {c : List (Prog σ α) × σ}
  (hc : ∀ (i : Nat) (p : Prog σ α), c.1[i]? = some p → p.Guarantees (G i))

include hc

/-- Every program has its own guarantee. -/
theorem guarantees_tick_each (i : Nat) :
    ((tick c i).2 = c.2 ∨ G i c.2 (tick c i).2) ∧
      ∀ (j : Nat) (p : Prog σ α), (tick c i).1[j]? = some p → p.Guarantees (G j) := by
  unfold tick
  split
  next w k hget =>
    have hstep := hc i _ hget
    refine ⟨.inr (hstep.1 c.2), ?_⟩
    intro j p hp
    by_cases hij : j = i
    · subst hij
      rw [List.getElem?_set_self (List.getElem?_eq_some_iff.1 hget).1] at hp
      rw [← Option.some.inj hp]
      exact hstep.2 c.2
    · rw [List.getElem?_set_ne (Ne.symm hij)] at hp
      exact hc j p hp
  next => exact ⟨.inl rfl, hc⟩

theorem guarantees_schedule_each (is : List Nat) :
    ∀ (j : Nat) (p : Prog σ α), (schedule is c).1[j]? = some p → p.Guarantees (G j) := by
  induction is generalizing c with
  | nil => exact hc
  | cons i is ih => exact ih (guarantees_tick_each hc i).2

end

theorem length_tick (c : List (Prog σ α) × σ) (i : Nat) : (tick c i).1.length = c.1.length := by
  unfold tick
  split <;> simp

theorem length_schedule (is : List Nat) (c : List (Prog σ α) × σ) :
    (schedule is c).1.length = c.1.length := by
  induction is generalizing c with
  | nil => rfl
  | cons i is ih => rw [schedule_cons, ih, length_tick]

theorem length_answers_le (c : List (Prog σ α) × σ) : (answers c).length ≤ c.1.length :=
  List.length_filterMap_le _ _

/-- A finished pool has one answer per program. -/
theorem length_answers {c : List (Prog σ α) × σ} (h : finished c = true) :
    (answers c).length = c.1.length := by
  obtain ⟨ps, s⟩ := c
  simp only [finished, answers] at *
  induction ps with
  | nil => rfl
  | cons p ps ih =>
    rw [List.all_cons, Bool.and_eq_true] at h
    cases p with
    | ret a => simp [ih h.2]
    | step w k => simp [isDone] at h

theorem length_runAll (ps : List (Prog σ α)) (s : σ) : (runAll ps s).1.length = ps.length := by
  induction ps generalizing s with
  | nil => rfl
  | cons p ps ih => simp [runAll, ih]

/-- A measure that each of several equal programs raises by one. -/
theorem runAll_replicate_grows {I : σ → Prop} {N : σ → Nat} {p : Prog σ α}
    (hp : ∀ s, I s → I (p.exec s).2 ∧ N (p.exec s).2 = N s + 1) (n : Nat) {s : σ} (hs : I s) :
    N (runAll (List.replicate n p) s).2 = N s + n := by
  induction n generalizing s with
  | zero => rfl
  | succ n ih =>
    obtain ⟨hI, hsize⟩ := hp s hs
    rw [List.replicate_succ, runAll_cons]
    change N (runAll (List.replicate n p) (p.exec s).2).2 = _
    rw [ih hI, hsize]
    omega

/-! ## One program alone -/

/-- A schedule of one program only runs it. -/
theorem schedule_singleton (p : Prog σ α) (s : σ) (is : List Nat) :
    ∃ q t, schedule is ([p], s) = ([q], t) ∧ q.exec t = p.exec s := by
  induction is generalizing p s with
  | nil => exact ⟨p, s, rfl, rfl⟩
  | cons i is ih =>
    rw [schedule_cons]
    cases i with
    | zero =>
      rw [tick_cons_zero]
      cases p with
      | ret a => exact ih (ret a) s
      | step w k => exact ih (k s) (w s)
    | succ i =>
      rw [tick_cons_succ, tick_nil]
      exact ih p s

theorem schedule_singleton_finished {p : Prog σ α} {s : σ} {is : List Nat}
    (h : finished (schedule is ([p], s)) = true) :
    (schedule is ([p], s)).2 = (p.exec s).2 := by
  obtain ⟨q, t, hschedule, hexec⟩ := schedule_singleton p s is
  rw [hschedule] at h ⊢
  cases q with
  | ret a => rw [← hexec, exec_ret]
  | step w k => simp [finished, isDone] at h

/-! ## Building a schedule -/

/-- Some schedule takes the first pool to the second. -/
def CanReach (c d : List (Prog σ α) × σ) : Prop := ∃ is, schedule is c = d

theorem CanReach.refl (c : List (Prog σ α) × σ) : CanReach c c := ⟨[], rfl⟩

theorem CanReach.trans {c d e : List (Prog σ α) × σ} :
    CanReach c d → CanReach d e → CanReach c e := by
  rintro ⟨is, rfl⟩ ⟨js, rfl⟩
  exact ⟨is ++ js, schedule_append is js c⟩

/-- The first program may run to its end while the others wait. -/
theorem CanReach.exec (p : Prog σ α) (ps : List (Prog σ α)) (s : σ) :
    CanReach (p :: ps, s) (ret (p.exec s).1 :: ps, (p.exec s).2) := by
  induction p generalizing s with
  | ret a => exact refl _
  | step w k ih =>
    obtain ⟨is, h⟩ := ih s (w s)
    exact ⟨0 :: is, h⟩

/-- A schedule of the others is a schedule of the pool. -/
theorem CanReach.tail {ps qs : List (Prog σ α)} {s t : σ} (p : Prog σ α)
    (h : CanReach (ps, s) (qs, t)) : CanReach (p :: ps, s) (p :: qs, t) := by
  obtain ⟨is, h⟩ := h
  refine ⟨is.map (· + 1), ?_⟩
  have hshift : ∀ (is : List Nat) (c : List (Prog σ α) × σ),
      schedule (is.map (· + 1)) (p :: c.1, c.2) = (p :: (schedule is c).1, (schedule is c).2) := by
    intro is
    induction is with
    | nil => exact fun c => rfl
    | cons i is ih =>
      intro c
      rw [List.map_cons, schedule_cons, tick_cons_succ, ih]
      rfl
  rw [hshift is (ps, s), h]

/-- `q` is what is left of `p` after reads that leave `s` as it is. -/
inductive Reads (s : σ) : Prog σ α → Prog σ α → Prop
  | refl (p : Prog σ α) : Reads s p p
  | step {w : σ → σ} {k : σ → Prog σ α} {q : Prog σ α} :
      w s = s → Reads s (k s) q → Reads s (step w k) q

theorem Reads.exec {s : σ} {p q : Prog σ α} (h : Reads s p q) : p.exec s = q.exec s := by
  induction h with
  | refl p => rfl
  | @step w k q hw _ ih => rw [exec_step, hw, ih]

theorem Reads.bind {β : Type} {s : σ} {p q : Prog σ α} (h : Reads s p q) (f : α → Prog σ β) :
    Reads s (p >>= f) (q >>= f) := by
  induction h with
  | refl p => exact .refl _
  | step hw _ ih => exact .step hw ih

theorem Reads.trans {s : σ} {p q r : Prog σ α} (h : Reads s p q) (h' : Reads s q r) :
    Reads s p r := by
  induction h with
  | refl p => exact h'
  | step hw _ ih => exact .step hw (ih h')

theorem Reads.canReach {s : σ} {p q : Prog σ α} (h : Reads s p q) (ps : List (Prog σ α)) :
    CanReach (p :: ps, s) (q :: ps, s) := by
  induction h with
  | refl p => exact CanReach.refl _
  | step hw _ ih =>
    obtain ⟨is, h⟩ := ih
    refine ⟨0 :: is, ?_⟩
    rw [schedule_cons, tick_cons_zero]
    simpa only [hw] using h

/-- All programs of a pool may read before any of them writes. -/
theorem CanReach.reads {s : σ} {ps qs : List (Prog σ α)} (h : List.Forall₂ (Reads s) ps qs) :
    CanReach (ps, s) (qs, s) := by
  induction h with
  | nil => exact refl _
  | cons hpq _ ih => exact (hpq.canReach _).trans (ih.tail _)

/-- And then answer one after another. -/
theorem CanReach.runAll (ps : List (Prog σ α)) (s : σ) :
    CanReach (ps, s) ((runAll ps s).1.map ret, (runAll ps s).2) := by
  induction ps generalizing s with
  | nil => exact refl _
  | cons p ps ih => exact (exec p ps s).trans ((ih _).tail _)

/-- A burst: everybody reads the same state, and only then they write. -/
theorem CanReach.burst {s : σ} {ps qs : List (Prog σ α)} (h : List.Forall₂ (Reads s) ps qs) :
    CanReach (ps, s) ((Prog.runAll qs s).1.map ret, (Prog.runAll qs s).2) :=
  (reads h).trans (runAll qs s)

theorem finished_map_ret (as : List α) (s : σ) :
    finished (as.map (ret (σ := σ)), s) = true := by
  simp [finished, isDone]

theorem answers_map_ret (as : List α) (s : σ) : answers (as.map (ret (σ := σ)), s) = as := by
  simp [answers, List.filterMap_map, Function.comp_def]

end Prog

end Library
