import Democrachat.Library.Runs
import Democrachat.Library.Schedule

/-!
# Copy, edit, write back

A cell is a part of the state that programs copy, edit and write back in separate
steps.  A script is a program whose accesses to the cell are in sight.  It erases to
the program, and a pool of scripts keeps, besides the state, the copies that are out
and the edits that were made.
-/

namespace Library

/-- `edit i` writes the copy back with the edit `i` made to it. -/
inductive Script (σ ι α : Type) where
  | ret (a : α)
  | other (write : σ → σ) (next : σ → Script σ ι α)
  | copy (next : σ → Script σ ι α)
  | edit (i : ι) (write : σ → σ) (next : σ → Script σ ι α)

namespace Script

variable {σ ι α β V : Type}

def erase : Script σ ι α → Prog σ α
  | ret a => .ret a
  | other w k => .step w (fun s => (k s).erase)
  | copy k => .step id (fun s => (k s).erase)
  | edit _ w k => .step w (fun s => (k s).erase)

protected def bind : Script σ ι α → (α → Script σ ι β) → Script σ ι β
  | ret a, f => f a
  | other w k, f => other w (fun s => (k s).bind f)
  | copy k, f => copy (fun s => (k s).bind f)
  | edit i w k, f => edit i w (fun s => (k s).bind f)

theorem erase_bind (p : Script σ ι α) (f : α → Script σ ι β) :
    (p.bind f).erase = p.erase >>= fun a => (f a).erase := by
  induction p with
  | ret a => rfl
  | other w k ih => exact congrArg (Prog.step w) (funext ih)
  | copy k ih => exact congrArg (Prog.step id) (funext ih)
  | edit i w k ih => exact congrArg (Prog.step w) (funext ih)

/-! ## Scripts that do what they say -/

variable (cell : σ → Option V) (act : ι → V → V)

/-- Whatever the state is by then, every step does to the cell what it says, and what is
edited is the last copy; `v?` is the copy that is out. -/
def Lawful : Option V → Script σ ι α → Prop
  | _, ret _ => True
  | v?, other w k => (∀ s, cell (w s) = cell s) ∧ ∀ s, Lawful v? (k s)
  | _, copy k => ∀ s, Lawful (cell s) (k s)
  | v?, edit i w k =>
    (∃ v, v? = some v ∧ ∀ s, cell (w s) = some (act i v)) ∧ ∀ s, Lawful none (k s)

/-- The script is that of the program. -/
structure Spells (s : Script σ ι α) (p : Prog σ α) : Prop where
  erase_eq : s.erase = p
  lawful : s.Lawful cell act none

variable {cell act}

theorem Lawful.of_none {s : Script σ ι α} (h : s.Lawful cell act none) (v? : Option V) :
    s.Lawful cell act v? := by
  induction s with
  | ret a => trivial
  | other w k ih => exact ⟨h.1, fun s => ih s (h.2 s)⟩
  | copy k ih => exact h
  | edit i w k ih =>
    obtain ⟨⟨v, hv, -⟩, -⟩ := h
    cases hv

theorem Lawful.bind {v? : Option V} {p : Script σ ι α} {f : α → Script σ ι β}
    (hp : p.Lawful cell act v?) (hf : ∀ a, (f a).Lawful cell act none) :
    (p.bind f).Lawful cell act v? := by
  induction p generalizing v? with
  | ret a => exact (hf a).of_none v?
  | other w k ih => exact ⟨hp.1, fun s => ih s (hp.2 s)⟩
  | copy k ih => exact fun s => ih s (hp s)
  | edit i w k ih => exact ⟨hp.1, fun s => ih s (hp.2 s)⟩

end Script

/-! ## Programs that have a script -/

section Scripted

variable {σ ι α β V : Type} (cell : σ → Option V) (act : ι → V → V)

/-- The cell is left alone. -/
def SameCell (s t : σ) : Prop := cell t = cell s

theorem SameCell.refl (s : σ) : SameCell cell s s := rfl

/-- The program has a lawful script, when `v?` is the copy it has out. -/
def Scripted (v? : Option V) (p : Prog σ α) : Prop :=
  ∃ s : Script σ ι α, s.erase = p ∧ s.Lawful cell act v?

namespace Scripted

variable {cell act} {v? : Option V}

theorem ret (a : α) : Scripted cell act v? (.ret a) := ⟨.ret a, rfl, trivial⟩

theorem pure (a : α) : Scripted cell act v? (Pure.pure a : Prog σ α) := ret a

theorem other {w : σ → σ} {k : σ → Prog σ α} (hw : ∀ s, cell (w s) = cell s)
    (hk : ∀ s, Scripted cell act v? (k s)) : Scripted cell act v? (.step w k) := by
  choose f hf hlawful using hk
  exact ⟨.other w f, congrArg (Prog.step w) (funext hf), hw, hlawful⟩

theorem copy {k : σ → Prog σ α} (hk : ∀ s, Scripted cell act (cell s) (k s)) :
    Scripted cell act v? (.step id k) := by
  choose f hf hlawful using hk
  exact ⟨.copy f, congrArg (Prog.step id) (funext hf), hlawful⟩

theorem edit {v : V} (i : ι) {w : σ → σ} {k : σ → Prog σ α}
    (hw : ∀ s, cell (w s) = some (act i v)) (hk : ∀ s, Scripted cell act none (k s)) :
    Scripted cell act (some v) (.step w k) := by
  choose f hf hlawful using hk
  exact ⟨.edit i w f, congrArg (Prog.step w) (funext hf), ⟨v, rfl, hw⟩, hlawful⟩

theorem bind {p : Prog σ α} {f : α → Prog σ β} (hp : Scripted cell act v? p)
    (hf : ∀ a, Scripted cell act none (f a)) : Scripted cell act v? (p >>= f) := by
  obtain ⟨s, rfl, hs⟩ := hp
  choose g hg hlawful using hf
  refine ⟨s.bind g, ?_, hs.bind hlawful⟩
  rw [Script.erase_bind, funext hg]

/-- A program that leaves the cell alone may come first. -/
theorem frame {p : Prog σ α} {f : α → Prog σ β} (hp : p.Guarantees (SameCell cell))
    (hf : ∀ a, Scripted cell act v? (f a)) : Scripted cell act v? (p >>= f) := by
  induction p with
  | ret a => exact hf a
  | step w k ih => exact other hp.1 (fun s => ih s (hp.2 s))

theorem of_guarantees {p : Prog σ α} (hp : p.Guarantees (SameCell cell)) :
    Scripted cell act v? p := by
  have h : Scripted cell act v? (p >>= Pure.pure) := frame hp pure
  rwa [bind_pure] at h

theorem query {g : σ → α} {f : α → Prog σ β} (hf : ∀ s, Scripted cell act v? (f (g s))) :
    Scripted cell act v? (Prog.query g >>= f) :=
  other (fun _ => rfl) hf

theorem query_copy {g : σ → α} {f : α → Prog σ β}
    (hf : ∀ s, Scripted cell act (cell s) (f (g s))) :
    Scripted cell act v? (Prog.query g >>= f) :=
  copy hf

theorem modify_edit {v : V} (i : ι) {w : σ → σ} (hw : ∀ s, cell (w s) = some (act i v)) :
    Scripted cell act (some v) (Prog.modify w) :=
  edit i hw (fun _ => ret ())

end Scripted

end Scripted

/-! ## Requests -/

namespace Req

variable {σ ε α β ι V : Type} {cell : σ → Option V} {act : ι → V → V} {v? : Option V}

/-- The request has a lawful script. -/
structure IsScripted (cell : σ → Option V) (act : ι → V → V) (v? : Option V) (r : Req σ ε α) :
    Prop where
  run : Scripted cell act v? r.run

namespace IsScripted

theorem pure (a : α) : IsScripted cell act v? (Pure.pure a : Req σ ε α) := ⟨.pure _⟩

theorem ensure {c : Bool} {e : ε} {k : Unit → Req σ ε β}
    (hk : c = true → IsScripted cell act v? (k ())) :
    IsScripted cell act v? (Req.ensure c e >>= k) := by
  cases c with
  | true => exact hk rfl
  | false => exact ⟨.pure _⟩

theorem okOr {o : Option α} {e : ε} {k : α → Req σ ε β}
    (hk : ∀ a, o = some a → IsScripted cell act v? (k a)) :
    IsScripted cell act v? (Req.okOr o e >>= k) := by
  cases o with
  | some a => exact hk a rfl
  | none => exact ⟨.pure _⟩

theorem ite {c : Prop} [Decidable c] {r r' : Req σ ε α} (h : IsScripted cell act v? r)
    (h' : IsScripted cell act v? r') : IsScripted cell act v? (if c then r else r') := by
  split
  next => exact h
  next => exact h'

theorem query {g : σ → α} {k : α → Req σ ε β} (hk : ∀ s, IsScripted cell act v? (k (g s))) :
    IsScripted cell act v? ((liftM (Prog.query g) : Req σ ε α) >>= k) :=
  ⟨.other (fun _ => rfl) (fun s => (hk s).run)⟩

theorem query_copy {g : σ → α} {k : α → Req σ ε β}
    (hk : ∀ s, IsScripted cell act (cell s) (k (g s))) :
    IsScripted cell act v? ((liftM (Prog.query g) : Req σ ε α) >>= k) :=
  ⟨.copy (fun s => (hk s).run)⟩

theorem step {p : Prog σ α} {k : α → Req σ ε β}
    (hp : p.Guarantees (SameCell cell)) (hk : ∀ a, IsScripted cell act v? (k a)) :
    IsScripted cell act v? ((liftM p : Req σ ε α) >>= k) := by
  constructor
  apply Scripted.frame (Prog.Guarantees.bind hp (fun _ => Prog.guarantees_pure _))
  rintro (e | a)
  · exact .pure _
  · exact (hk a).run

theorem last {p : Prog σ α} (hp : Scripted cell act v? p) :
    IsScripted cell act v? (liftM p : Req σ ε α) :=
  ⟨.bind hp (fun _ => .ret _)⟩

theorem andThen {p : Prog σ α} {k : α → Req σ ε β} (hp : Scripted cell act v? p)
    (hk : ∀ a, IsScripted cell act none (k a)) :
    IsScripted cell act v? ((liftM p : Req σ ε α) >>= k) := by
  constructor
  apply Scripted.bind (Scripted.bind hp (fun _ => .ret _))
  rintro (e | a)
  · exact .pure _
  · exact (hk a).run

end IsScripted

end Req

/-! ## Pools of scripts -/

structure Editing (σ ι α V : Type) where
  /-- Each script with the copy it has out. -/
  threads : List (Script σ ι α × Option V)
  state : σ
  edits : List ι

namespace Editing

variable {σ ι α V : Type}

def start (scripts : List (Script σ ι α)) (s : σ) : Editing σ ι α V where
  threads := scripts.map (fun p => (p, none))
  state := s
  edits := []

def erase (c : Editing σ ι α V) : List (Prog σ α) × σ :=
  (c.threads.map (fun t => t.1.erase), c.state)

variable (cell : σ → Option V) (act : ι → V → V)

/-- Let script `n` take one step. -/
def tick (c : Editing σ ι α V) (n : Nat) : Editing σ ι α V :=
  match c.threads[n]? with
  | some (.other w k, v?) =>
    { c with threads := c.threads.set n (k c.state, v?), state := w c.state }
  | some (.copy k, _) => { c with threads := c.threads.set n (k c.state, cell c.state) }
  | some (.edit i w k, _) =>
    ⟨c.threads.set n (k c.state, none), w c.state, c.edits ++ [i]⟩
  | some (.ret _, _) | none => c

/-- Where script `n` writes back next, it writes what it would write if it took its copy
only now. -/
def UpToDate (c : Editing σ ι α V) (n : Nat) : Prop :=
  match c.threads[n]? with
  | some (.edit i _ _, some v) => (cell c.state).map (act i) = some (act i v)
  | _ => True

/-- The cell is what it was at first, with all edits made to it in turn. -/
def Kept (v : V) (c : Editing σ ι α V) : Prop :=
  cell c.state = some (c.edits.foldl (fun v i => act i v) v)

def AllLawful (c : Editing σ ι α V) : Prop := ∀ t ∈ c.threads, t.1.Lawful cell act t.2

variable {cell act}

theorem erase_start (scripts : List (Script σ ι α)) (s : σ) :
    (start scripts s : Editing σ ι α V).erase = (scripts.map Script.erase, s) := by
  simp [start, erase]

/-- The copies and the edits are only watched: without them it is the programs that run. -/
theorem erase_tick (c : Editing σ ι α V) (n : Nat) :
    (c.tick cell n).erase = Prog.tick c.erase n := by
  unfold tick
  cases h : c.threads[n]? with
  | none => simp only [Prog.tick, erase, List.getElem?_map, h, Option.map_none]
  | some t =>
    obtain ⟨script, v?⟩ := t
    cases script with
    | ret a => simp only [Prog.tick, erase, List.getElem?_map, h, Option.map_some, Script.erase]
    | _ =>
      simp only [Prog.tick, erase, List.getElem?_map, h, Option.map_some, Script.erase,
        List.map_set, id]

theorem erase_run (c : Editing σ ι α V) (is : List Nat) :
    (is.foldl (tick cell) c).erase = Prog.schedule is c.erase := by
  induction is generalizing c with
  | nil => rfl
  | cons n is ih => rw [List.foldl_cons, ih, erase_tick, Prog.schedule_cons]

theorem allLawful_start {scripts : List (Script σ ι α)} {s : σ}
    (h : ∀ p ∈ scripts, p.Lawful cell act none) : AllLawful cell act (start scripts s) := by
  intro t ht
  obtain ⟨p, hp, rfl⟩ := List.mem_map.1 ht
  exact h p hp

theorem AllLawful.set {threads : List (Script σ ι α × Option V)}
    (h : ∀ t ∈ threads, t.1.Lawful cell act t.2) {t : Script σ ι α × Option V}
    (ht : t.1.Lawful cell act t.2) (n : Nat) :
    ∀ u ∈ threads.set n t, u.1.Lawful cell act u.2 := by
  intro u hu
  rcases List.mem_or_eq_of_mem_set hu with hold | rfl
  · exact h u hold
  · exact ht

theorem AllLawful.tick {c : Editing σ ι α V} (h : AllLawful cell act c) (n : Nat) :
    AllLawful cell act (c.tick cell n) := by
  unfold Editing.tick
  split
  next w k v? hget => exact AllLawful.set h ((h _ (List.mem_of_getElem? hget)).2 c.state) n
  next k v? hget => exact AllLawful.set h (h _ (List.mem_of_getElem? hget) c.state) n
  next i w k v? hget => exact AllLawful.set h ((h _ (List.mem_of_getElem? hget)).2 c.state) n
  next => exact h
  next => exact h

/-- One step keeps the edits exactly if what it writes is up to date. -/
theorem Kept.tick_iff {c : Editing σ ι α V} {v : V} (hkept : Kept cell act v c)
    (h : AllLawful cell act c) (n : Nat) :
    Kept cell act v (c.tick cell n) ↔ UpToDate cell act c n := by
  unfold Editing.tick
  split
  next w k v? hget =>
    have hsame := (h _ (List.mem_of_getElem? hget)).1 c.state
    exact iff_of_true (hsame.trans hkept) (by simp only [UpToDate, hget])
  next k v? hget => exact iff_of_true hkept (by simp only [UpToDate, hget])
  next i w k v? hget =>
    obtain ⟨⟨u, hu, hw⟩, -⟩ := h _ (List.mem_of_getElem? hget)
    have hcopy : v? = some u := hu
    subst hcopy
    unfold Kept at hkept
    simp only [Kept, UpToDate, hget, hw, hkept, List.foldl_concat, Option.map_some]
    exact eq_comm
  next a v? hget => exact iff_of_true hkept (by simp only [UpToDate, hget])
  next hget => exact iff_of_true hkept (by simp only [UpToDate, hget])

/-- Along a run no edit is lost if and only if everything that is written back is up to
date. -/
theorem kept_iff {c : Editing σ ι α V} {v : V} (hkept : Kept cell act v c)
    (h : AllLawful cell act c) (is : List Nat) :
    (∀ js, js <+: is → Kept cell act v (js.foldl (tick cell) c)) ↔
      Along (tick cell) (UpToDate cell act) c is := by
  rw [forall_prefix_iff, and_iff_right hkept]
  constructor
  · intro hall
    have hstep : ∀ (c : Editing σ ι α V) (n : Nat), Kept cell act v c ∧ AllLawful cell act c →
        Kept cell act v (c.tick cell n) →
          UpToDate cell act c n ∧ Kept cell act v (c.tick cell n) ∧
            AllLawful cell act (c.tick cell n) := by
      rintro c n ⟨hc, hlawful⟩ hafter
      exact ⟨(hc.tick_iff hlawful n).1 hafter, hafter, hlawful.tick n⟩
    exact hall.imp hstep ⟨hkept, h⟩
  · intro hall
    have hstep : ∀ (c : Editing σ ι α V) (n : Nat), Kept cell act v c ∧ AllLawful cell act c →
        UpToDate cell act c n →
          Kept cell act v (c.tick cell n) ∧ Kept cell act v (c.tick cell n) ∧
            AllLawful cell act (c.tick cell n) := by
      rintro c n ⟨hc, hlawful⟩ hnow
      have hafter := (hc.tick_iff hlawful n).2 hnow
      exact ⟨hafter, hafter, hlawful.tick n⟩
    exact hall.imp hstep ⟨hkept, h⟩

end Editing

end Library
