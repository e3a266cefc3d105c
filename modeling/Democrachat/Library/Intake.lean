import Democrachat.Library.Runs
import Democrachat.Library.Schedule
import Democrachat.Library.Table

/-!
# Mint a key, store a row

Programs of a pool that share a table: each mints a key in one step and stores a row under it in a
later one.  Keys never meet, whatever the schedule; what the rows say about each other depends on
what is in the table when a row comes in.
-/

namespace Library

namespace Prog

variable {σ α β κ ν : Type} [LinearOrder κ] {key : ν → κ}

section

variable (rows : σ → Table key) (minted : σ → κ → Prop)

/-- Nothing is stored and nothing is minted. -/
structure Idle (s t : σ) : Prop where
  rows_eq : rows t = rows s
  minted_iff : ∀ k, minted t k ↔ minted s k

structure Mints (k : κ) (s t : σ) : Prop where
  rows_eq : rows t = rows s
  fresh : ¬ minted s k
  minted_iff : ∀ l, minted t l ↔ l = k ∨ minted s l

structure Stores (v : ν) (s t : σ) : Prop where
  rows_eq : rows t = (rows s).insert v
  minted_iff : ∀ k, minted t k ↔ minted s k

variable (granted : α → Option ν) (P : ν → Prop)

/-- What is left of a program that has minted the key: it goes on to store such a row under it, and
answers with the row. -/
def Holding (k : κ) : Prog σ α → Prop
  | ret _ => False
  | step w next =>
    (∃ v a, key v = k ∧ P v ∧ granted a = some v ∧ (∀ s, Stores rows minted v s (w s)) ∧
        ∀ s, next s = ret a) ∨
      (∀ s, Idle rows minted s (w s)) ∧ ∀ s, Holding k (next s)

/-- A program that has not minted: it gives up, or it mints and goes on. -/
def Enrolling : Prog σ α → Prop
  | ret a => granted a = none
  | step w next =>
    (∀ s, ∃ k, Mints rows minted k s (w s) ∧ Holding rows minted granted P k (next s)) ∨
      (∀ s, Idle rows minted s (w s)) ∧ ∀ s, Enrolling (next s)

/-- How far a program has come, and the key that it has minted. -/
inductive Stage (s : σ) : Prog σ α → Option κ → Prop
  | enrolling {p : Prog σ α} (h : Enrolling rows minted granted P p) : Stage s p none
  | holding {p : Prog σ α} {k : κ} (h : Holding rows minted granted P k p)
    (hunused : (rows s).get k = none) : Stage s p (some k)
  | stored {a : α} {v : ν} (hgranted : granted a = some v) (hrow : P v)
    (hstored : (rows s).get (key v) = some v) : Stage s (ret a) (some (key v))

end

variable {rows : σ → Table key} {minted : σ → κ → Prop} {granted : α → Option ν} {P : ν → Prop}

/-! ## Building such programs -/

theorem Enrolling.bind {p : Prog σ β} {f : β → Prog σ α}
    (hp : p.Guarantees (Idle rows minted)) (hf : ∀ b, Enrolling rows minted granted P (f b)) :
    Enrolling rows minted granted P (p >>= f) := by
  induction p with
  | ret b => exact hf b
  | step w next ih => exact .inr ⟨hp.1, fun s => ih s (hp.2 s)⟩

theorem Holding.bind {k : κ} {p : Prog σ β} {f : β → Prog σ α}
    (hp : p.Guarantees (Idle rows minted)) (hf : ∀ b, Holding rows minted granted P k (f b)) :
    Holding rows minted granted P k (p >>= f) := by
  induction p with
  | ret b => exact hf b
  | step w next ih => exact .inr ⟨hp.1, fun s => ih s (hp.2 s)⟩

theorem Holding.imp {k : κ} {P' : ν → Prop} (hP : ∀ v, P v → P' v) {p : Prog σ α}
    (h : Holding rows minted granted P k p) : Holding rows minted granted P' k p := by
  induction p with
  | ret a => exact h
  | step w next ih =>
    rcases h with ⟨v, a, hkey, hrow, hgranted, hstores, hnext⟩ | ⟨hidle, hnext⟩
    · exact .inl ⟨v, a, hkey, hP v hrow, hgranted, hstores, hnext⟩
    · exact .inr ⟨hidle, fun s => ih s (hnext s)⟩

theorem Enrolling.imp {P' : ν → Prop} (hP : ∀ v, P v → P' v) {p : Prog σ α}
    (h : Enrolling rows minted granted P p) : Enrolling rows minted granted P' p := by
  induction p with
  | ret a => exact h
  | step w next ih =>
    rcases h with hmints | ⟨hidle, hnext⟩
    · refine .inl (fun s => ?_)
      obtain ⟨k, hmint, hholding⟩ := hmints s
      exact ⟨k, hmint, hholding.imp hP⟩
    · exact .inr ⟨hidle, fun s => ih s (hnext s)⟩

theorem Holding.map {k : κ} {p : Prog σ β} (f : β → α)
    (hp : Holding rows minted (fun b => granted (f b)) P k p) :
    Holding rows minted granted P k (f <$> p) := by
  induction p with
  | ret b => exact hp
  | step w next ih =>
    rcases hp with ⟨v, b, hkey, hrow, hgranted, hstores, hnext⟩ | ⟨hidle, hnext⟩
    · refine .inl ⟨v, f b, hkey, hrow, hgranted, hstores, fun s => ?_⟩
      change (next s).bind _ = _
      rw [hnext s]
      rfl
    · exact .inr ⟨hidle, fun s => ih s (hnext s)⟩

theorem Enrolling.map {p : Prog σ β} (f : β → α)
    (hp : Enrolling rows minted (fun b => granted (f b)) P p) :
    Enrolling rows minted granted P (f <$> p) := by
  induction p with
  | ret b => exact hp
  | step w next ih =>
    rcases hp with hmints | ⟨hidle, hnext⟩
    · refine .inl (fun s => ?_)
      obtain ⟨k, hmint, hholding⟩ := hmints s
      exact ⟨k, hmint, hholding.map f⟩
    · exact .inr ⟨hidle, fun s => ih s (hnext s)⟩

/-! ## One step of a pool -/

theorem Stage.frame {s t : σ} {p : Prog σ α} {held : Option κ}
    (h : Stage rows minted granted P s p held)
    (hsame : ∀ k, held = some k → (rows t).get k = (rows s).get k) :
    Stage rows minted granted P t p held := by
  cases h with
  | enrolling h => exact .enrolling h
  | holding h hunused => exact .holding h ((hsame _ rfl).trans hunused)
  | stored hgranted hrow hstored => exact .stored hgranted hrow ((hsame _ rfl).trans hstored)

variable (rows minted granted) in
/-- `held i` is the key that program `i` has minted. -/
structure Sound (P : Nat → ν → Prop) (held : Nat → Option κ) (c : List (Prog σ α) × σ) : Prop where
  stage : ∀ i p, c.1[i]? = some p → Stage rows minted granted (P i) c.2 p (held i)
  unshared : ∀ i j k, held i = some k → held j = some k → i = j
  held_minted : ∀ i k, held i = some k → minted c.2 k
  rows_minted : ∀ v ∈ (rows c.2).rows, minted c.2 (key v)

/-- What a step does to the table: nothing, or it stores a row under a key that was not in use. -/
inductive Takes (P : ν → Prop) (t t' : Table key) : Prop
  | nothing (h : t' = t)
  | row {v : ν} (hrow : P v) (hunused : t.get (key v) = none) (h : t' = t.insert v)

section

variable {P : Nat → ν → Prop} {held : Nat → Option κ} {c : List (Prog σ α) × σ} {i : Nat}
  {w : σ → σ} {next : σ → Prog σ α}

/-- Where a step leaves the programs and their keys as they are, the table has to be, too. -/
theorem Sound.set (h : Sound rows minted granted P held c) (hget : c.1[i]? = some (step w next))
    {held' : Nat → Option κ} (hother : ∀ j, j ≠ i → held' j = held j)
    (hstage : Stage rows minted granted (P i) (w c.2) (next c.2) (held' i))
    (hsame : ∀ j k, j ≠ i → held j = some k → (rows (w c.2)).get k = (rows c.2).get k)
    (hunshared : ∀ j k, j ≠ i → held' i = some k → held j ≠ some k)
    (hminted : ∀ k, minted c.2 k → minted (w c.2) k)
    (hheld : ∀ k, held' i = some k → minted (w c.2) k)
    (hrows : ∀ v ∈ (rows (w c.2)).rows, minted (w c.2) (key v)) :
    Sound rows minted granted P held' (tick c i) := by
  have htick : tick c i = (c.1.set i (next c.2), w c.2) := by
    rw [tick, hget]
  rw [htick]
  constructor
  · intro j p hp
    by_cases hj : j = i
    · subst hj
      have hlt := (List.getElem?_eq_some_iff.1 hget).1
      rw [List.getElem?_set_self hlt] at hp
      obtain rfl := Option.some.inj hp
      exact hstage
    · rw [List.getElem?_set_ne (Ne.symm hj)] at hp
      rw [hother j hj]
      exact (h.stage j p hp).frame (fun k hk => hsame j k hj hk)
  · intro j j' k hk hk'
    by_cases hj : j = i
    · subst hj
      by_contra hne
      rw [hother j' (Ne.symm hne)] at hk'
      exact hunshared j' k (Ne.symm hne) hk hk'
    · by_cases hj' : j' = i
      · subst hj'
        rw [hother j hj] at hk
        exact absurd hk (hunshared j k hj hk')
      · rw [hother j hj] at hk
        rw [hother j' hj'] at hk'
        exact h.unshared j j' k hk hk'
  · intro j k hk
    by_cases hj : j = i
    · subst hj
      exact hheld k hk
    · rw [hother j hj] at hk
      exact hminted k (h.held_minted j k hk)
  · exact hrows

theorem Sound.idle (h : Sound rows minted granted P held c) (hget : c.1[i]? = some (step w next))
    (hidle : Idle rows minted c.2 (w c.2))
    (hstage : Stage rows minted granted (P i) c.2 (next c.2) (held i)) :
    Sound rows minted granted P held (tick c i) := by
  apply h.set hget (fun _ _ => rfl)
  · apply hstage.frame
    intro k _
    rw [hidle.rows_eq]
  · intro j k _ _
    rw [hidle.rows_eq]
  · intro j k hj hk hk'
    exact hj (h.unshared j i k hk' hk)
  · exact fun k hk => (hidle.minted_iff k).2 hk
  · exact fun k hk => (hidle.minted_iff k).2 (h.held_minted i k hk)
  · intro v hv
    rw [hidle.rows_eq] at hv
    exact (hidle.minted_iff _).2 (h.rows_minted v hv)

/-- A fresh key is nobody's, and no row is under it. -/
theorem Sound.mint (h : Sound rows minted granted P held c) (hget : c.1[i]? = some (step w next))
    {k : κ} (hmint : Mints rows minted k c.2 (w c.2))
    (hnext : Holding rows minted granted (P i) k (next c.2)) :
    Sound rows minted granted P (Function.update held i (some k)) (tick c i) := by
  apply h.set hget
  · exact fun j hj => Function.update_of_ne hj _ _
  · rw [Function.update_self]
    apply Stage.holding hnext
    rw [hmint.rows_eq, Table.get_eq_none]
    rintro v hv rfl
    exact hmint.fresh (h.rows_minted v hv)
  · intro j l _ _
    rw [hmint.rows_eq]
  · intro j l hj hl hl'
    rw [Function.update_self] at hl
    rw [← Option.some.inj hl] at hl'
    exact hmint.fresh (h.held_minted j k hl')
  · exact fun l hl => (hmint.minted_iff l).2 (.inr hl)
  · intro l hl
    rw [Function.update_self] at hl
    exact (hmint.minted_iff l).2 (.inl (Option.some.inj hl).symm)
  · intro v hv
    rw [hmint.rows_eq] at hv
    exact (hmint.minted_iff _).2 (.inr (h.rows_minted v hv))

/-- The row is under the program's own key, so it replaces nobody's. -/
theorem Sound.store (h : Sound rows minted granted P held c) (hget : c.1[i]? = some (step w next))
    {v : ν} {a : α} (hheld : held i = some (key v)) (hrow : P i v) (hgranted : granted a = some v)
    (hstore : Stores rows minted v c.2 (w c.2)) (hanswer : next c.2 = ret a) :
    Sound rows minted granted P held (tick c i) := by
  apply h.set hget (fun _ _ => rfl)
  · rw [hheld, hanswer]
    apply Stage.stored hgranted hrow
    rw [hstore.rows_eq, Table.get_insert_self]
  · intro j l hj hl
    have hne : l ≠ key v := by
      rintro rfl
      exact hj (h.unshared j i _ hl hheld)
    rw [hstore.rows_eq, Table.get_insert_of_ne _ hne]
  · intro j l hj hl hl'
    exact hj (h.unshared j i l hl' hl)
  · exact fun l hl => (hstore.minted_iff l).2 hl
  · exact fun l hl => (hstore.minted_iff l).2 (h.held_minted i l hl)
  · intro u hu
    rw [hstore.rows_eq, Table.mem_insert] at hu
    apply (hstore.minted_iff _).2
    rcases hu with rfl | ⟨hu, -⟩
    · exact h.held_minted i _ hheld
    · exact h.rows_minted u hu

theorem Sound.tick (h : Sound rows minted granted P held c) (i : Nat) :
    (∃ held', Sound rows minted granted P held' (tick c i)) ∧
      Takes (P i) (rows c.2) (rows (Prog.tick c i).2) := by
  have hstill : Prog.tick c i = c →
      (∃ held', Sound rows minted granted P held' (Prog.tick c i)) ∧
        Takes (P i) (rows c.2) (rows (Prog.tick c i).2) := by
    intro htick
    rw [htick]
    exact ⟨⟨held, h⟩, .nothing rfl⟩
  cases hget : c.1[i]? with
  | none => exact hstill (by rw [Prog.tick, hget])
  | some p =>
    cases p with
    | ret a => exact hstill (by rw [Prog.tick, hget])
    | step w next =>
      have hrows : rows (Prog.tick c i).2 = rows (w c.2) := by rw [Prog.tick, hget]
      have hstage := h.stage i _ hget
      rw [hrows]
      generalize hheld : held i = key? at hstage
      cases hstage with
      | enrolling henrolling =>
        rcases henrolling with hmints | ⟨hquiet, hnext⟩
        · obtain ⟨k, hmint, hholding⟩ := hmints c.2
          exact ⟨⟨_, h.mint hget hmint hholding⟩, .nothing hmint.rows_eq⟩
        · have hstage : Stage rows minted granted (P i) c.2 (next c.2) (held i) := by
            rw [hheld]
            exact .enrolling (hnext c.2)
          exact ⟨⟨held, h.idle hget (hquiet c.2) hstage⟩, .nothing (hquiet c.2).rows_eq⟩
      | @holding _ k hholding hunused =>
        rcases hholding with ⟨v, a, rfl, hrow, hgranted, hstores, hanswer⟩ | ⟨hquiet, hnext⟩
        · have hstored := h.store hget hheld hrow hgranted (hstores c.2) (hanswer c.2)
          exact ⟨⟨held, hstored⟩, .row hrow hunused (hstores c.2).rows_eq⟩
        · have hstage : Stage rows minted granted (P i) c.2 (next c.2) (held i) := by
            rw [hheld]
            exact .holding (hnext c.2) hunused
          exact ⟨⟨held, h.idle hget (hquiet c.2) hstage⟩, .nothing (hquiet c.2).rows_eq⟩

end

/-! ## Runs of a pool -/

theorem Takes.mono {P : ν → Prop} {t t' : Table key} (h : Takes P t t') :
    ∀ v ∈ t.rows, v ∈ t'.rows := by
  cases h with
  | nothing h =>
    rw [h]
    exact fun v hv => hv
  | row hrow hunused h =>
    intro v hv
    rw [h, Table.mem_insert]
    exact .inr ⟨hv, Table.get_eq_none.1 hunused v hv⟩

variable {P : Nat → ν → Prop} {held : Nat → Option κ} {c : List (Prog σ α) × σ}

/-- Rows stay, under whatever schedule. -/
theorem Sound.schedule (h : Sound rows minted granted P held c) (is : List Nat) :
    (∃ held', Sound rows minted granted P held' (schedule is c)) ∧
      ∀ v ∈ (rows c.2).rows, v ∈ (rows (Prog.schedule is c).2).rows := by
  induction is generalizing c held with
  | nil => exact ⟨⟨held, h⟩, fun v hv => hv⟩
  | cons i is ih =>
    obtain ⟨⟨held', hsound⟩, htakes⟩ := h.tick i
    obtain ⟨hend, hstay⟩ := ih hsound
    exact ⟨hend, fun v hv => hstay v (htakes.mono v hv)⟩

/-- The row of an answer is in the table. -/
theorem Sound.row_of_answer (h : Sound rows minted granted P held c) {i : Nat} {a : α} {v : ν}
    (hanswer : c.1[i]? = some (ret a)) (hgranted : granted a = some v) :
    v ∈ (rows c.2).rows ∧ P i v := by
  have hstage := h.stage i _ hanswer
  generalize held i = key? at hstage
  cases hstage with
  | enrolling henrolling =>
    have hnone : granted a = none := henrolling
    rw [hgranted] at hnone
    cases hnone
  | holding hholding hunused => exact hholding.elim
  | stored hrowed hrow hstored =>
    rw [hgranted] at hrowed
    obtain rfl := Option.some.inj hrowed
    exact ⟨Table.mem_iff.2 hstored, hrow⟩

variable (rows) in
/-- No row that comes in with the step is related to one in the table. -/
def Admits (R : ν → ν → Prop) (c : List (Prog σ α) × σ) (i : Nat) : Prop :=
  ∀ v ∈ (rows (tick c i).2).rows, v ∉ (rows c.2).rows → ∀ u ∈ (rows c.2).rows, ¬ R u v

theorem Sound.admits_iff (h : Sound rows minted granted P held c) {R : ν → ν → Prop}
    (hsymm : ∀ {u v}, R u v → R v u) (hapart : (rows c.2).Apart R) (i : Nat) :
    Admits rows R c i ↔ (rows (Prog.tick c i).2).Apart R := by
  unfold Admits
  cases (h.tick i).2 with
  | nothing hsame =>
    rw [hsame]
    exact ⟨fun _ => hapart, fun _ v hv hnew => absurd hv hnew⟩
  | @row v hrow hunused hinsert =>
    have hnew := Table.get_eq_none.1 hunused
    rw [hinsert, Table.apart_insert hsymm hapart]
    constructor
    · intro hadmits u hu hrel
      have hv : v ∉ (rows c.2).rows := fun hv => hnew v hv rfl
      exact absurd hrel (hadmits v (Table.mem_insert.2 (.inl rfl)) hv u hu)
    · intro hkey w hw hold u hu hrel
      rcases Table.mem_insert.1 hw with rfl | ⟨hw, -⟩
      · exact hnew u hu (hkey u hu hrel)
      · exact hold hw

/-- The rows are unrelated at the end exactly if none came in to a related one. -/
theorem Sound.apart_iff (h : Sound rows minted granted P held c) {R : ν → ν → Prop}
    (hsymm : ∀ {u v}, R u v → R v u) (hapart : (rows c.2).Apart R) (is : List Nat) :
    (rows (Prog.schedule is c).2).Apart R ↔ Along Prog.tick (Admits rows R) c is := by
  induction is generalizing c held with
  | nil => exact ⟨fun _ => trivial, fun _ => hapart⟩
  | cons i is ih =>
    obtain ⟨held', hsound⟩ := (h.tick i).1
    rw [Along, schedule_cons, h.admits_iff hsymm hapart]
    constructor
    · intro hend
      have hnext : (rows (Prog.tick c i).2).Apart R := hend.of_subset (hsound.schedule is).2
      exact ⟨hnext, (ih hsound hnext).1 hend⟩
    · rintro ⟨hnext, halong⟩
      exact (ih hsound hnext).2 halong

end Prog

/-! ## Requests -/

namespace Req

variable {σ ε α β κ ν : Type} [LinearOrder κ] {key : ν → κ}

section

variable (rows : σ → Table key) (minted : σ → κ → Prop) (row : α → ν) (P : ν → Prop)

/-- The request has minted the key; `row` is the row that its answer tells. -/
structure Holds (k : κ) (r : Req σ ε α) : Prop where
  run : Prog.Holding rows minted (fun a : Except ε α => a.toOption.map row) P k r.run

structure Enrols (r : Req σ ε α) : Prop where
  run : Prog.Enrolling rows minted (fun a : Except ε α => a.toOption.map row) P r.run

end

variable {rows : σ → Table key} {minted : σ → κ → Prop} {row : α → ν} {P : ν → Prop}

theorem Holds.step {l : κ} {p : Prog σ β} {k : β → Req σ ε α}
    (hp : p.Guarantees (Prog.Idle rows minted)) (hk : ∀ b, Holds rows minted row P l (k b)) :
    Holds rows minted row P l ((liftM p : Req σ ε β) >>= k) := by
  constructor
  have hlift : ((liftM p : Req σ ε β) >>= k).run = p >>= fun b => (k b).run :=
    Prog.bind_assoc p _ _
  rw [hlift]
  exact .bind hp (fun b => (hk b).run)

theorem Holds.ite {l : κ} {c : Prop} [Decidable c] {r r' : Req σ ε β} {k : β → Req σ ε α}
    (h : Holds rows minted row P l (r >>= k)) (h' : Holds rows minted row P l (r' >>= k)) :
    Holds rows minted row P l ((if c then r else r') >>= k) := by
  split
  · exact h
  · exact h'

/-- The last write stores the row, and the answer tells it. -/
theorem Holds.store {f : σ → σ} {a : α} (hf : ∀ s, Prog.Stores rows minted (row a) s (f s))
    (hrow : P (row a)) :
    Holds rows minted row P (key (row a))
      ((liftM (Prog.modify f) : Req σ ε Unit) >>= fun _ => Pure.pure a) :=
  ⟨.inl ⟨row a, .ok a, rfl, hrow, rfl, hf, fun _ => rfl⟩⟩

theorem Enrols.ensure {c : Bool} {e : ε} {k : Unit → Req σ ε α}
    (hk : Enrols rows minted row P (k ())) : Enrols rows minted row P (Req.ensure c e >>= k) := by
  cases c with
  | true => exact hk
  | false => exact ⟨rfl⟩

theorem Enrols.okOr {o : Option β} {e : ε} {k : β → Req σ ε α}
    (hk : ∀ b, Enrols rows minted row P (k b)) : Enrols rows minted row P (Req.okOr o e >>= k) := by
  cases o with
  | some b => exact hk b
  | none => exact ⟨rfl⟩

theorem Enrols.orElse {ε' : Type} {r : Except ε' β} {f : ε' → ε} {k : β → Req σ ε α}
    (hk : ∀ b, Enrols rows minted row P (k b)) :
    Enrols rows minted row P (Req.orElse r f >>= k) := by
  cases r with
  | ok b => exact hk b
  | error e => exact ⟨rfl⟩

theorem Enrols.step {p : Prog σ β} {k : β → Req σ ε α}
    (hp : p.Guarantees (Prog.Idle rows minted)) (hk : ∀ b, Enrols rows minted row P (k b)) :
    Enrols rows minted row P ((liftM p : Req σ ε β) >>= k) := by
  constructor
  have hlift : ((liftM p : Req σ ε β) >>= k).run = p >>= fun b => (k b).run :=
    Prog.bind_assoc p _ _
  rw [hlift]
  exact .bind hp (fun b => (hk b).run)

theorem Enrols.mint {f : σ → β × σ} {k : β → Req σ ε α}
    (hk : ∀ s, ∃ l, Prog.Mints rows minted l s (f s).2 ∧ Holds rows minted row P l (k (f s).1)) :
    Enrols rows minted row P ((liftM (Prog.call f) : Req σ ε β) >>= k) := by
  refine ⟨.inl (fun s => ?_)⟩
  obtain ⟨l, hmint, hholds⟩ := hk s
  exact ⟨l, hmint, hholds.run⟩

/-- Only the row of the answer is asked for. -/
theorem Enrols.enrolling_map {r : Req σ ε α} (h : Enrols rows minted row P r) :
    Prog.Enrolling rows minted Except.toOption P (Except.map row <$> r.run) := by
  apply Prog.Enrolling.map
  have hanswer : (fun a : Except ε α => (a.map row).toOption) = fun a => a.toOption.map row := by
    funext a
    cases a with
    | ok a => rfl
    | error e => rfl
  rw [hanswer]
  exact h.run

theorem Enrols.enrolling {r : Req σ ε ν} (h : Enrols rows minted id P r) :
    Prog.Enrolling rows minted Except.toOption P r.run := by
  have hanswer : (fun a : Except ε ν => a.toOption.map id) = Except.toOption := by
    funext a
    rw [Option.map_id_fun, id]
  have hrun := h.run
  rw [hanswer] at hrun
  exact hrun

end Req

/-! The rules above are all that is needed, and unfolding would run the programs. -/

attribute [irreducible] Prog.Holding Prog.Enrolling

end Library
