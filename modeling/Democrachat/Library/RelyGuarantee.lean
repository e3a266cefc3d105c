import Democrachat.Library.Schedule

/-!
# Rely and guarantee

`R` is what any program of a pool may do to the state.  A program is safe when,
from every state the others may lead to, its own next write is such a step and
the rest is safe again.
-/

namespace Library

namespace Prog

variable {σ α : Type} {R : σ → σ → Prop} {Q : α → σ → Prop}

def Safe (R : σ → σ → Prop) (Q : α → σ → Prop) : Prog σ α → σ → Prop
  | ret a, s => ∀ t, R s t → Q a t
  | step w k, s => ∀ t, R s t → R t (w t) ∧ Safe R Q (k t) (w t)

theorem Safe.stable (htrans : ∀ s t u, R s t → R t u → R s u) {p : Prog σ α} {s t : σ}
    (hp : Safe R Q p s) (hst : R s t) : Safe R Q p t := by
  cases p with
  | ret a => exact fun u htu => hp u (htrans _ _ _ hst htu)
  | step w k => exact fun u htu => hp u (htrans _ _ _ hst htu)

/-- The steps that keep every property of a family. -/
def Preserving {ι : Type} (A : ι → σ → Prop) (s t : σ) : Prop := ∀ i, A i s → A i t

theorem Preserving.refl {ι : Type} (A : ι → σ → Prop) (s : σ) : Preserving A s s := fun _ h => h

theorem Preserving.trans {ι : Type} {A : ι → σ → Prop} (s t u : σ) (h : Preserving A s t)
    (h' : Preserving A t u) : Preserving A s u :=
  fun i hs => h' i (h i hs)

/-- A program that only reads is safe among programs that only read. -/
theorem Reads.safe {s : σ} {p : Prog σ α} {a : α} (h : Reads s p (ret a)) (ha : Q a s) :
    Safe (fun s t => s = t) Q p s := by
  generalize hq : (ret a : Prog σ α) = q at h
  induction h with
  | refl p =>
    subst hq
    rintro t rfl
    exact ha
  | step hw _ ih =>
    rintro t rfl
    refine ⟨hw.symm, ?_⟩
    rw [hw]
    exact ih hq

variable (hrefl : ∀ s, R s s)
include hrefl

theorem Safe.bind {β : Type} {Q' : β → σ → Prop} {p : Prog σ α} {f : α → Prog σ β} {s : σ}
    (hp : Safe R Q p s) (hf : ∀ a t, Q a t → Safe R Q' (f a) t) : Safe R Q' (p >>= f) s := by
  induction p generalizing s with
  | ret a => exact hf a s (hp s (hrefl s))
  | step w k ih => exact fun t hst => ⟨(hp t hst).1, ih t (hp t hst).2⟩

theorem Safe.query_bind {β : Type} {Q' : β → σ → Prop} {g : σ → α} {k : α → Prog σ β} {s : σ}
    (h : ∀ t, R s t → Safe R Q' (k (g t)) t) : Safe R Q' (query g >>= k) s :=
  fun t hst => ⟨hrefl t, h t hst⟩

/-- What is safe among others is right alone. -/
theorem Safe.exec {p : Prog σ α} {s : σ} (hp : Safe R Q p s) : Q (p.exec s).1 (p.exec s).2 := by
  induction p generalizing s with
  | ret a => exact hp s (hrefl s)
  | step w k ih => exact ih s (hp s (hrefl s)).2

variable (htrans : ∀ s t u, R s t → R t u → R s u)
include htrans

theorem Safe.tick {c : List (Prog σ α) × σ} (hc : ∀ p ∈ c.1, Safe R Q p c.2) (i : Nat) :
    R c.2 (tick c i).2 ∧ ∀ p ∈ (tick c i).1, Safe R Q p (tick c i).2 := by
  unfold Prog.tick
  split
  next w k hget =>
    obtain ⟨hw, hk⟩ := hc _ (List.mem_of_getElem? hget) c.2 (hrefl _)
    refine ⟨hw, fun p hp => ?_⟩
    rcases List.mem_or_eq_of_mem_set hp with hmem | rfl
    · exact (hc p hmem).stable htrans hw
    · exact hk
  next => exact ⟨hrefl _, hc⟩

/-- Programs that are safe stay safe under every schedule. -/
theorem Safe.schedule {c : List (Prog σ α) × σ} (hc : ∀ p ∈ c.1, Safe R Q p c.2)
    (is : List Nat) :
    R c.2 (schedule is c).2 ∧ ∀ p ∈ (schedule is c).1, Safe R Q p (schedule is c).2 := by
  induction is generalizing c with
  | nil => exact ⟨hrefl _, hc⟩
  | cons i is ih =>
    obtain ⟨hstep, hsafe⟩ := Safe.tick hrefl htrans hc i
    obtain ⟨hrest, hfinal⟩ := ih hsafe
    exact ⟨htrans _ _ _ hstep hrest, hfinal⟩

/-- Every answer given under a schedule satisfies the postcondition. -/
theorem Safe.answers {c : List (Prog σ α) × σ} (hc : ∀ p ∈ c.1, Safe R Q p c.2)
    (is : List Nat) : ∀ a ∈ answers (Prog.schedule is c), Q a (Prog.schedule is c).2 := by
  intro a ha
  obtain ⟨p, hp, hpa⟩ := List.mem_filterMap.1 ha
  have hsafe := (Safe.schedule hrefl htrans hc is).2 p hp
  cases p with
  | ret b =>
    obtain rfl : b = a := by simpa using hpa
    exact hsafe _ (hrefl _)
  | step w k => simp at hpa

/-! ## What every program keeps

A step may rest on what an earlier one has seen, as long as what was seen held then. -/

omit hrefl htrans

section

variable {β : Type} {I : σ → Prop}

/-- Started where `I` holds, the program keeps it, whatever others that keep it do meanwhile. -/
def Maintains (I : σ → Prop) (p : Prog σ α) : Prop :=
  ∀ s, I s → Safe (fun s t => I s → I t) (fun _ t => I t) p s

theorem maintains_pure (a : α) : Maintains I (pure a : Prog σ α) :=
  fun _ hs _ ht => ht hs

theorem Maintains.bind {p : Prog σ α} {f : α → Prog σ β} (hp : Maintains I p)
    (hf : ∀ a, Maintains I (f a)) : Maintains I (p >>= f) :=
  fun s hs => Safe.bind (fun _ h => h) (hp s hs) (fun a t ht => hf a t ht)

theorem closed_maintains (I : σ → Prop) : Closed (fun {α} (p : Prog σ α) => p.Maintains I) :=
  ⟨maintains_pure, fun hp hf => hp.bind hf⟩

theorem maintains_call_bind {f : σ → α × σ} {k : α → Prog σ β}
    (h : ∀ s, I s → I (f s).2 ∧ Maintains I (k (f s).1)) : Maintains I (call f >>= k) :=
  fun _ hs t hst => ⟨fun ht => (h t ht).1, (h t (hst hs)).2 _ (h t (hst hs)).1⟩

/-- Whatever the program has read, each of its writes keeps it. -/
theorem Guarantees.maintains {G : σ → σ → Prop} (hG : ∀ s t, I s → G s t → I t) {p : Prog σ α}
    (hp : p.Guarantees G) : Maintains I p := by
  induction p with
  | ret a => exact maintains_pure a
  | step w k ih =>
    exact fun s hs t hst =>
      ⟨fun ht => hG t _ ht (hp.1 t), ih t (hp.2 t) _ (hG t _ (hst hs) (hp.1 t))⟩

/-- What every program of a pool keeps holds after every schedule. -/
theorem maintains_schedule {c : List (Prog σ α) × σ} (hc : ∀ p ∈ c.1, Maintains I p)
    (hI : I c.2) (is : List Nat) : I (Prog.schedule is c).2 :=
  (Safe.schedule (fun _ h => h) (fun _ _ _ h h' hs => h' (h hs)) (fun p hp => hc p hp c.2 hI)
    is).1 hI

end

/-! ## The step that answers

A postcondition on the state alone does not say what the last step of a program has done.
This one is on the two states around it. -/

section

variable {A : α → σ → σ → Prop}

/-- Like `Safe`; the answer comes with the step from `prev` to `s`. -/
def Commits (R : σ → σ → Prop) (A : α → σ → σ → Prop) : Prog σ α → σ → σ → Prop
  | ret a, prev, s => A a prev s
  | step w k, _, s => ∀ t, R s t → R t (w t) ∧ Commits R A (k t) t (w t)

theorem Commits.bind {β : Type} {A' : β → σ → σ → Prop} {p : Prog σ α} {f : α → Prog σ β}
    {prev s : σ} (h : Commits R (fun a prev s => Commits R A' (f a) prev s) p prev s) :
    Commits R A' (p >>= f) prev s := by
  induction p generalizing prev s with
  | ret a => exact h
  | step w k ih => exact fun t hst => ⟨(h t hst).1, ih t (h t hst).2⟩

theorem Commits.map {β : Type} {A' : β → σ → σ → Prop} {p : Prog σ α} (f : α → β) {prev s : σ}
    (h : Commits R (fun a prev s => A' (f a) prev s) p prev s) :
    Commits R A' (f <$> p) prev s :=
  Commits.bind h

/-- Every program that has not answered commits. -/
def Committing (R : σ → σ → Prop) (A : α → σ → σ → Prop) (c : List (Prog σ α) × σ) : Prop :=
  ∀ p ∈ c.1, p.isDone = false → Commits R A p c.2 c.2

variable (hrefl : ∀ s, R s s) (htrans : ∀ s t u, R s t → R t u → R s u)
include hrefl htrans

/-- A tick is as every program promises, and so is the answer that it gives. -/
theorem Committing.tick {c : List (Prog σ α) × σ} (hc : Committing R A c) (i : Nat) :
    R c.2 (tick c i).2 ∧ Committing R A (tick c i) ∧
      ∀ p a, c.1[i]? = some p → p.isDone = false → (tick c i).1[i]? = some (ret a) →
        A a c.2 (tick c i).2 := by
  unfold Prog.tick
  split
  next w k hget =>
    obtain ⟨hw, hk⟩ := hc _ (List.mem_of_getElem? hget) rfl c.2 (hrefl _)
    refine ⟨hw, ?_, ?_⟩
    · intro p hp hdone
      rcases List.mem_or_eq_of_mem_set hp with hold | rfl
      · have hbefore := hc p hold hdone
        cases p with
        | ret a => cases hdone
        | step w' k' => exact fun t ht => hbefore t (htrans _ _ _ hw ht)
      · dsimp only at hdone ⊢
        generalize k c.2 = q at hk hdone
        cases q with
        | ret a => cases hdone
        | step w' k' => exact hk
    · intro p a _ _ hanswer
      have hlt : i < c.1.length := (List.getElem?_eq_some_iff.1 hget).1
      rw [List.getElem?_set_self hlt] at hanswer
      rw [Option.some.inj hanswer] at hk
      exact hk
  next hstuck =>
    refine ⟨hrefl _, hc, ?_⟩
    intro p a hp hdone hanswer
    rw [hp] at hanswer
    rw [Option.some.inj hanswer] at hdone
    cases hdone

/-- Under every schedule. -/
theorem Committing.schedule {c : List (Prog σ α) × σ} (hc : Committing R A c) (is : List Nat) :
    R c.2 (schedule is c).2 ∧ Committing R A (schedule is c) := by
  induction is generalizing c with
  | nil => exact ⟨hrefl _, hc⟩
  | cons i is ih =>
    obtain ⟨hstep, hnext, -⟩ := hc.tick hrefl htrans i
    obtain ⟨hrest, hlast⟩ := ih hnext
    exact ⟨htrans _ _ _ hstep hrest, hlast⟩

end

/-! ## What only one program writes

The others may do anything but to one part of the state.  What the program makes of that part is
then its own. -/

section

variable {β L : Type} {part : σ → L} {I : L → Prop}

/-- Every write keeps `I` of the part, and the answer comes with what the part is then. -/
def Keeps (part : σ → L) (I : L → Prop) (Q : α → L → Prop) : Prog σ α → L → Prop
  | ret a, l => Q a l
  | step w k, l => ∀ s, part s = l → I (part (w s)) ∧ Keeps part I Q (k s) (part (w s))

theorem Keeps.bind {Q : α → L → Prop} {Q' : β → L → Prop} {p : Prog σ α} {f : α → Prog σ β} {l : L}
    (hp : Keeps part I Q p l) (hf : ∀ a l, Q a l → Keeps part I Q' (f a) l) :
    Keeps part I Q' (p >>= f) l := by
  induction p generalizing l with
  | ret a => exact hf a l hp
  | step w k ih => exact fun s hs => ⟨(hp s hs).1, ih s (hp s hs).2⟩

theorem Keeps.map {Q' : β → L → Prop} {p : Prog σ α} {l : L} (f : α → β)
    (hp : Keeps part I (fun a => Q' (f a)) p l) : Keeps part I Q' (f <$> p) l :=
  hp.bind (fun _ _ h => h)

end

/-! ## What the others do to a part

The others may change the part of the state too, but only as `E` has it. -/

section

variable {β L : Type} {part : σ → L} {E : L → L → Prop}

/-- Whatever `E` does to the part between the steps, the answer comes with `Q` of it. -/
def Endures (part : σ → L) (E : L → L → Prop) (Q : α → L → Prop) : Prog σ α → L → Prop
  | ret a, l => Q a l
  | step w k, l => ∀ s, E l (part s) → Endures part E Q (k s) (part (w s))

theorem Endures.bind {Q : α → L → Prop} {Q' : β → L → Prop} {p : Prog σ α} {f : α → Prog σ β}
    {l : L} (hp : Endures part E Q p l) (hf : ∀ a l, Q a l → Endures part E Q' (f a) l) :
    Endures part E Q' (p >>= f) l := by
  induction p generalizing l with
  | ret a => exact hf a l hp
  | step w k ih => exact fun s hs => ih s (hp s hs)

theorem Endures.map {Q' : β → L → Prop} {p : Prog σ α} {l : L} (f : α → β)
    (hp : Endures part E (fun a => Q' (f a)) p l) : Endures part E Q' (f <$> p) l :=
  hp.bind (fun _ _ h => h)

theorem Endures.stable {Q : α → L → Prop} (htrans : ∀ l m n, E l m → E m n → E l n)
    (hQ : ∀ a l m, Q a l → E l m → Q a m) {p : Prog σ α} {l m : L} (hp : Endures part E Q p l)
    (hlm : E l m) : Endures part E Q p m := by
  cases p with
  | ret a => exact hQ a l m hp hlm
  | step w k => exact fun s hs => hp s (htrans _ _ _ hlm hs)

theorem Guarantees.mono {G G' : σ → σ → Prop} {p : Prog σ α} (hp : p.Guarantees G)
    (h : ∀ s t, G s t → G' s t) : p.Guarantees G' := by
  induction p with
  | ret a => trivial
  | step w k ih => exact ⟨fun s => h _ _ (hp.1 s), fun s => ih s (hp.2 s)⟩

theorem guarantees_of_forall {G : σ → σ → Prop} (h : ∀ s t, G s t) (p : Prog σ α) :
    p.Guarantees G := by
  induction p with
  | ret a => trivial
  | step w k ih => exact ⟨fun s => h s _, ih⟩

/-- Where no write touches the part, it is as it was. -/
theorem Guarantees.endures {p : Prog σ α} (hp : p.Guarantees (fun s t => part s = part t)) (l : L) :
    Endures part Eq (fun _ m => m = l) p l := by
  induction p with
  | ret a => rfl
  | step w k ih =>
    intro s hs
    have hrest := ih s (hp.2 s)
    rw [hs, hp.1 s] at hrest
    rw [hs, hp.1 s]
    exact hrest

/-- What the program that moves promises of each of its writes, the tick does. -/
theorem guarantees_tick_at {G : σ → σ → Prop} (hrefl : ∀ s, G s s) {c : List (Prog σ α) × σ}
    {j : Nat} (hj : ∀ p, c.1[j]? = some p → p.Guarantees G) :
    G c.2 (tick c j).2 ∧ ∀ p, (tick c j).1[j]? = some p → p.Guarantees G := by
  cases hget : c.1[j]? with
  | none =>
    have hstays : Prog.tick c j = c := by rw [Prog.tick, hget]
    rw [hstays]
    exact ⟨hrefl _, hj⟩
  | some p =>
    cases p with
    | ret a =>
      have hstays : Prog.tick c j = c := by rw [Prog.tick, hget]
      rw [hstays]
      exact ⟨hrefl _, hj⟩
    | step w k =>
      have hstep := hj _ hget
      obtain ⟨hnext, hstate⟩ := tick_of_step hget
      rw [hstate]
      refine ⟨hstep.1 c.2, ?_⟩
      intro p hp
      rw [hnext] at hp
      rw [← Option.some.inj hp]
      exact hstep.2 c.2

/-- One program endures a schedule in which every other one that moves keeps to `E`. -/
theorem Endures.schedule {Q : α → L → Prop} (hrefl : ∀ l, E l l)
    (htrans : ∀ l m n, E l m → E m n → E l n) (hQ : ∀ a l m, Q a l → E l m → Q a m) {i : Nat}
    {p : Prog σ α} (is : List Nat) {c : List (Prog σ α) × σ}
    (hothers : ∀ j ∈ is, j ≠ i → ∀ q, c.1[j]? = some q →
      q.Guarantees (fun s t => E (part s) (part t)))
    (hp : c.1[i]? = some p) (hendures : Endures part E Q p (part c.2)) :
    ∃ q, (schedule is c).1[i]? = some q ∧ Endures part E Q q (part (schedule is c).2) := by
  induction is generalizing c p with
  | nil => exact ⟨p, hp, hendures⟩
  | cons j is ih =>
    rw [schedule_cons]
    by_cases hij : j = i
    · subst hij
      have hrest : ∀ m ∈ is, m ≠ j → ∀ q, (Prog.tick c j).1[m]? = some q →
          q.Guarantees (fun s t => E (part s) (part t)) := by
        intro m hm hne q hq
        rw [getElem?_tick_of_ne hne] at hq
        exact hothers m (List.mem_cons_of_mem j hm) hne q hq
      cases p with
      | ret a =>
        have hstays : Prog.tick c j = c := by rw [Prog.tick, hp]
        rw [hstays] at hrest ⊢
        exact ih hrest hp hendures
      | step w k =>
        obtain ⟨hnext, hstate⟩ := tick_of_step hp
        apply ih hrest hnext
        rw [hstate]
        exact hendures c.2 (hrefl _)
    · obtain ⟨hmove, hnext⟩ := guarantees_tick_at (fun s => hrefl (part s))
        (hothers j List.mem_cons_self hij)
      have hkept : (Prog.tick c j).1[i]? = some p := by
        rw [getElem?_tick_of_ne (Ne.symm hij), hp]
      apply ih _ hkept (hendures.stable htrans hQ hmove)
      intro m hm hne q hq
      by_cases hmj : m = j
      · subst hmj
        exact hnext q hq
      · rw [getElem?_tick_of_ne hmj] at hq
        exact hothers m (List.mem_cons_of_mem j hm) hne q hq

/-- And its answer is as it promises. -/
theorem Endures.answer {Q : α → L → Prop} (hrefl : ∀ l, E l l)
    (htrans : ∀ l m n, E l m → E m n → E l n) (hQ : ∀ a l m, Q a l → E l m → Q a m) {i : Nat}
    {p : Prog σ α} {is : List Nat} {c : List (Prog σ α) × σ}
    (hothers : ∀ j ∈ is, j ≠ i → ∀ q, c.1[j]? = some q →
      q.Guarantees (fun s t => E (part s) (part t)))
    (hp : c.1[i]? = some p) (hendures : Endures part E Q p (part c.2)) {a : α}
    (ha : (Prog.schedule is c).1[i]? = some (ret a)) : Q a (part (Prog.schedule is c).2) := by
  obtain ⟨q, hq, hlast⟩ := Endures.schedule hrefl htrans hQ is hothers hp hendures
  rw [ha] at hq
  rw [← Option.some.inj hq] at hlast
  exact hlast

end

end Prog

end Library
