import Democrachat.Library.Schedule
import Mathlib.Data.List.Induction
import Mathlib.Logic.Nontrivial.Basic

/-!
# Saving what others go on changing

The programs of a pool share a store and a file.  A save takes a snapshot of the store in one step
and writes it to the file in a later one, and a program saves before it acknowledges anything.  The
file is as good as its last save: what was changed after the snapshot of that save is not in it.
-/

namespace Library

namespace Prog

variable {σ τ φ α β : Type}

/-- A program on the store alone. -/
def within : Prog σ α → Prog (σ × φ) α
  | ret a => ret a
  | step w k => step (fun d => (w d.1, d.2)) (fun d => (k d.1).within)

/-- What the programs share, and what is left of them, before step `n` of the schedule. -/
def upTo (c : List (Prog σ α) × σ) (is : List Nat) (n : Nat) : List (Prog σ α) × σ :=
  schedule (is.take n) c

/-- Program `j` takes step `n`, and the step writes the file. -/
def WritesAt (c : List (Prog (σ × φ) α) × σ × φ) (is : List Nat) (n j : Nat) : Prop :=
  is[n]? = some j ∧ ∃ text k, (upTo c is n).1[j]? = some (step (fun d => (d.1, text)) k)

/-- The last write to the file is step `write`, and its snapshot was taken at step `read`. -/
structure LastSave (c : List (Prog (σ × φ) α) × σ × φ) (is : List Nat) (read write i : Nat) :
    Prop where
  read_lt : read < write
  reads : is[read]? = some i
  waits : ∀ n, read < n → n < write → is[n]? ≠ some i
  writes : WritesAt c is write i
  last : ∀ n j, write < n → ¬ WritesAt c is n j

section

variable (view : σ → τ) (out : τ → φ) (acked : α → Prop)

def save : Prog (σ × φ) Unit :=
  query (fun d => out (view d.1)) >>= fun text => modify (fun d => (d.1, text))

/-- What is left of a program that has a snapshot in hand, or none. -/
def Saves : Prog (σ × φ) α → Option φ → Prop
  | ret a, none => ¬ acked a
  | ret _, some _ => False
  | step w k, none =>
    (∀ d, (w d).2 = d.2) ∧ (∀ d, Saves (k d) none) ∨
      (∀ d, w d = d) ∧ ∀ d, Saves (k d) (some (out (view d.1)))
  | step w k, some text =>
    (∀ d, w d = (d.1, text)) ∧ ∀ d, (∃ a, k d = ret a) ∨ Saves (k d) none

/-- The program has acknowledged. -/
def Acked (c : List (Prog (σ × φ) α) × σ × φ) (j : Nat) : Prop :=
  ∃ a, c.1[j]? = some (ret a) ∧ acked a

/-- Program `j` takes step `n`, and the step changes what snapshots show. -/
def ChangesAt (c : List (Prog (σ × φ) α) × σ × φ) (is : List Nat) (n j : Nat) : Prop :=
  is[n]? = some j ∧ view (upTo c is (n + 1)).2.1 ≠ view (upTo c is n).2.1

/-- The file shows the store of some moment.  Whatever was changed later, its program has neither
acknowledged nor written the file since. -/
def Durable (c : List (Prog (σ × φ) α) × σ × φ) (is : List Nat) : Prop :=
  ∃ n ≤ is.length, (schedule is c).2.2 = out (view (upTo c is n).2.1) ∧
    ∀ m j, n ≤ m → ChangesAt view c is m j →
      ¬ Acked acked (schedule is c) j ∧ ∀ k, m < k → ¬ WritesAt c is k j

/-- Between the snapshot and the write of the last save, no program changed the store and then
wrote the file. -/
def LastSaveFresh (c : List (Prog (σ × φ) α) × σ × φ) (is : List Nat) : Prop :=
  ∀ read write i, LastSave c is read write i →
    ∀ m k j, read < m → m < k → k < write → ChangesAt view c is m j → ¬ WritesAt c is k j

/-- Where a program stands after the schedule. -/
inductive Stand (c : List (Prog (σ × φ) α) × σ × φ) (is : List Nat) (i : Nat) :
    Prog (σ × φ) α → Prop
  | answered (a : α)
    (h : acked a → ∀ m, ChangesAt view c is m i → ∃ k, m < k ∧ WritesAt c is k i) :
    Stand c is i (ret a)
  | working {p : Prog (σ × φ) α} (h : Saves view out acked p none) : Stand c is i p
  | writing {p : Prog (σ × φ) α} (read : Nat)
    (h : Saves view out acked p (some (out (view (upTo c is read).2.1))))
    (reads : is[read]? = some i) (waits : ∀ n, read < n → is[n]? ≠ some i)
    (still : ¬ ChangesAt view c is read i) : Stand c is i p

/-- Where the programs stand after the schedule, and what the file shows. -/
structure Behind (c : List (Prog (σ × φ) α) × σ × φ) (is : List Nat) : Prop where
  stand : ∀ i p, (schedule is c).1[i]? = some p → Stand view out acked c is i p
  file : ((schedule is c).2.2 = out (view c.2.1) ∧ ∀ n j, ¬ WritesAt c is n j) ∨
    ∃ read write i, LastSave c is read write i ∧ ¬ ChangesAt view c is read i ∧
      (schedule is c).2.2 = out (view (upTo c is read).2.1)

end

variable {view : σ → τ} {out : τ → φ} {acked : α → Prop}

/-! ## Building such programs -/

theorem Saves.within_bind {p : Prog σ β} {f : β → Prog (σ × φ) α}
    (hf : ∀ b, Saves view out acked (f b) none) :
    Saves view out acked (p.within >>= f) none := by
  induction p with
  | ret b => exact hf b
  | step w k ih => exact .inl ⟨fun _ => rfl, fun d => ih d.1⟩

/-- A save may be the last thing that a program does. -/
theorem Saves.save_bind {f : Unit → Prog (σ × φ) α}
    (hf : (∃ a, f () = ret a) ∨ Saves view out acked (f ()) none) :
    Saves view out acked (save view out >>= f) none :=
  .inr ⟨fun _ => rfl, fun _ => ⟨fun _ => rfl, fun _ => hf⟩⟩

@[simp] theorem exec_within (p : Prog σ α) (s : σ) (file : φ) :
    p.within.exec (s, file) = ((p.exec s).1, (p.exec s).2, file) := by
  induction p generalizing s with
  | ret a => rfl
  | step w k ih => exact ih s (w s)

@[simp] theorem exec_save (s : σ) (file : φ) :
    (save view out).exec (s, file) = ((), s, out (view s)) := rfl

theorem acked_of_answer {c : List (Prog (σ × φ) α) × σ × φ} {j : Nat} {a : α}
    (h : c.1[j]?.bind answer? = some a) (ha : acked a) : Acked acked c j := by
  obtain ⟨p, hget, hanswer⟩ := Option.bind_eq_some_iff.1 h
  cases p with
  | ret b =>
    obtain rfl := Option.some.inj hanswer
    exact ⟨b, hget, ha⟩
  | step w next => cases hanswer

/-! ## One more step -/

variable {c : List (Prog (σ × φ) α) × σ × φ} {is : List Nat} {i j k n : Nat}

theorem upTo_length (c : List (Prog σ α) × σ) (is : List Nat) :
    upTo c is is.length = schedule is c := by
  rw [upTo, List.take_length]

theorem upTo_concat {c : List (Prog σ α) × σ} (h : n ≤ is.length) :
    upTo c (is ++ [k]) n = upTo c is n := by
  rw [upTo, List.take_append_of_le_length h, upTo]

theorem schedule_concat (is : List Nat) (c : List (Prog σ α) × σ) (k : Nat) :
    schedule (is ++ [k]) c = tick (schedule is c) k :=
  schedule_append is [k] c

theorem getElem?_concat (h : is[n]? = some j) : (is ++ [k])[n]? = some j := by
  rw [List.getElem?_append_left (List.getElem?_eq_some_iff.1 h).1, h]

/-- A step of the longer schedule is one of the shorter, or the last one. -/
theorem getElem?_concat_cases (h : (is ++ [k])[n]? = some j) :
    n < is.length ∧ is[n]? = some j ∨ n = is.length ∧ j = k := by
  have hlt := (List.getElem?_eq_some_iff.1 h).1
  rw [List.length_append, List.length_singleton] at hlt
  by_cases hn : n < is.length
  · rw [List.getElem?_append_left hn] at h
    exact .inl ⟨hn, h⟩
  · have hlast : n = is.length := by omega
    subst hlast
    rw [List.getElem?_concat_length] at h
    exact .inr ⟨rfl, (Option.some.inj h).symm⟩

theorem WritesAt.lt (h : WritesAt c is n j) : n < is.length :=
  (List.getElem?_eq_some_iff.1 h.1).1

theorem ChangesAt.lt (h : ChangesAt view c is n j) : n < is.length :=
  (List.getElem?_eq_some_iff.1 h.1).1

theorem WritesAt.concat (h : WritesAt c is n j) : WritesAt c (is ++ [k]) n j := by
  refine ⟨getElem?_concat h.1, ?_⟩
  rw [upTo_concat (Nat.le_of_lt h.lt)]
  exact h.2

theorem WritesAt.cases (h : WritesAt c (is ++ [k]) n j) :
    WritesAt c is n j ∨ n = is.length ∧ WritesAt c (is ++ [k]) is.length k := by
  rcases getElem?_concat_cases h.1 with ⟨hn, hget⟩ | ⟨rfl, rfl⟩
  · left
    refine ⟨hget, ?_⟩
    rw [← upTo_concat (k := k) (Nat.le_of_lt hn)]
    exact h.2
  · exact .inr ⟨rfl, h⟩

theorem ChangesAt.cases (h : ChangesAt view c (is ++ [k]) n j) :
    ChangesAt view c is n j ∨
      n = is.length ∧ j = k ∧ view (tick (schedule is c) k).2.1 ≠ view (schedule is c).2.1 := by
  rcases getElem?_concat_cases h.1 with ⟨hn, hget⟩ | ⟨rfl, rfl⟩
  · left
    refine ⟨hget, ?_⟩
    rw [← upTo_concat (k := k) hn, ← upTo_concat (k := k) (Nat.le_of_lt hn)]
    exact h.2
  · right
    refine ⟨rfl, rfl, ?_⟩
    have hchange := h.2
    have hlast := upTo_length c (is ++ [j])
    rw [List.length_append, List.length_singleton] at hlast
    rw [hlast, schedule_concat, upTo_concat (Nat.le_refl _), upTo_length] at hchange
    exact hchange

/-- The last step writes the file exactly where its program was about to. -/
theorem writesAt_last :
    WritesAt c (is ++ [k]) is.length k ↔
      ∃ text next, (schedule is c).1[k]? = some (step (fun d => (d.1, text)) next) := by
  rw [WritesAt, upTo_concat (Nat.le_refl _), upTo_length, List.getElem?_concat_length]
  exact and_iff_right rfl

/-- A program that is not stepped stands where it stood. -/
theorem Stand.later {p : Prog (σ × φ) α} (h : Stand view out acked c is i p) (hne : i ≠ k) :
    Stand view out acked c (is ++ [k]) i p := by
  cases h with
  | answered a h =>
    refine .answered a (fun hacked m hchange => ?_)
    rcases hchange.cases with hchange | ⟨-, heq, -⟩
    · obtain ⟨l, hlt, hwrites⟩ := h hacked m hchange
      exact ⟨l, hlt, hwrites.concat⟩
    · exact absurd heq hne
  | working h => exact .working h
  | writing read h reads waits still =>
    have hlt := (List.getElem?_eq_some_iff.1 reads).1
    refine .writing read ?_ (getElem?_concat reads) ?_ ?_
    · rw [upTo_concat (Nat.le_of_lt hlt)]
      exact h
    · intro n hn hget
      rcases getElem?_concat_cases hget with ⟨-, hget⟩ | ⟨-, heq⟩
      · exact waits n hn hget
      · exact hne heq
    · intro hchange
      rcases hchange.cases with hchange | ⟨-, heq, -⟩
      · exact still hchange
      · exact hne heq

/-- One that has answered stands there for good. -/
theorem Stand.answered_later {a : α} (h : Stand view out acked c is k (ret a))
    (hstill : view (tick (schedule is c) k).2.1 = view (schedule is c).2.1) :
    Stand view out acked c (is ++ [k]) k (ret a) := by
  cases h with
  | answered a h =>
    refine .answered a (fun hacked m hchange => ?_)
    rcases hchange.cases with hchange | ⟨-, -, hchange⟩
    · obtain ⟨l, hlt, hwrites⟩ := h hacked m hchange
      exact ⟨l, hlt, hwrites.concat⟩
    · exact absurd hstill hchange
  | working h => exact .working h
  | writing read h => exact h.elim

theorem LastSave.later {read write : Nat} (h : LastSave c is read write i)
    (hk : ¬ WritesAt c (is ++ [k]) is.length k) : LastSave c (is ++ [k]) read write i where
  read_lt := h.read_lt
  reads := getElem?_concat h.reads
  waits := by
    intro n hread hwrite hget
    have hlt := h.writes.lt
    rcases getElem?_concat_cases hget with ⟨-, hget⟩ | ⟨hlast, -⟩
    · exact h.waits n hread hwrite hget
    · omega
  writes := h.writes.concat
  last := by
    intro n j hn hwrites
    rcases hwrites.cases with hwrites | ⟨-, hwrites⟩
    · exact h.last n j hn hwrites
    · exact hk hwrites

namespace Behind

/-- After a step that leaves the file alone. -/
theorem keeps_file (h : Behind view out acked c is)
    (hk : ¬ WritesAt c (is ++ [k]) is.length k)
    (hfile : (tick (schedule is c) k).2.2 = (schedule is c).2.2)
    (hstand : ∀ p, (tick (schedule is c) k).1[k]? = some p →
      Stand view out acked c (is ++ [k]) k p) : Behind view out acked c (is ++ [k]) where
  stand := by
    intro i p hget
    rw [schedule_concat] at hget
    by_cases heq : i = k
    · subst heq
      exact hstand p hget
    · rw [getElem?_tick_of_ne heq] at hget
      exact (h.stand i p hget).later heq
  file := by
    rw [schedule_concat, hfile]
    rcases h.file with ⟨hfile, hnone⟩ | ⟨read, write, i, hlast, hstill, hfile⟩
    · refine .inl ⟨hfile, fun n j hwrites => ?_⟩
      rcases hwrites.cases with hwrites | ⟨-, hwrites⟩
      · exact hnone n j hwrites
      · exact hk hwrites
    · have hlt : read < is.length := Nat.lt_trans hlast.read_lt hlast.writes.lt
      refine .inr ⟨read, write, i, hlast.later hk, fun hchange => ?_, ?_⟩
      · rcases hchange.cases with hchange | ⟨heq, -⟩
        · exact hstill hchange
        · omega
      · rw [upTo_concat (Nat.le_of_lt hlt)]
        exact hfile

/-- After a step of a program that has nothing left to do. -/
theorem idle (h : Behind view out acked c is)
    (hget : ∀ w next, (schedule is c).1[k]? ≠ some (step w next)) :
    Behind view out acked c (is ++ [k]) := by
  have htick : tick (schedule is c) k = schedule is c := by
    unfold tick
    split
    next w next hstep => exact absurd hstep (hget w next)
    next => rfl
  refine h.keeps_file (fun hwrites => ?_) (by rw [htick]) (fun p hp => ?_)
  · obtain ⟨text, next, hstep⟩ := writesAt_last.1 hwrites
    exact hget _ _ hstep
  · rw [htick] at hp
    cases p with
    | ret a => exact (h.stand k (ret a) hp).answered_later (by rw [htick])
    | step w next => exact absurd hp (hget w next)

/-- After a step that writes the file. -/
theorem write {read : Nat} {text : φ} {w : σ × φ → σ × φ} {next : σ × φ → Prog (σ × φ) α}
    (h : Behind view out acked c is) (hget : (schedule is c).1[k]? = some (step w next))
    (hw : w = fun d => (d.1, text)) (htext : text = out (view (upTo c is read).2.1))
    (hnext : ∀ d, (∃ a, next d = ret a) ∨ Saves view out acked (next d) none)
    (reads : is[read]? = some k) (waits : ∀ n, read < n → is[n]? ≠ some k)
    (still : ¬ ChangesAt view c is read k) : Behind view out acked c (is ++ [k]) := by
  obtain ⟨hleft, hshared⟩ := tick_of_step hget
  have hlt : read < is.length := (List.getElem?_eq_some_iff.1 reads).1
  have hwrites : WritesAt c (is ++ [k]) is.length k := by
    refine writesAt_last.2 ⟨text, next, ?_⟩
    rw [← hw]
    exact hget
  have hsame : view (tick (schedule is c) k).2.1 = view (schedule is c).2.1 := by
    rw [hshared, hw]
  refine ⟨fun i p hp => ?_, .inr ⟨read, is.length, k, ?_, fun hchange => ?_, ?_⟩⟩
  · rw [schedule_concat] at hp
    by_cases heq : i = k
    · subst heq
      obtain rfl := Option.some.inj (hleft.symm.trans hp)
      rcases hnext (schedule is c).2 with ⟨a, ha⟩ | hsaves
      · rw [ha]
        refine .answered a (fun _ m hchange => ⟨is.length, ?_, hwrites⟩)
        rcases hchange.cases with hchange | ⟨-, -, hchange⟩
        · exact hchange.lt
        · exact absurd hsame hchange
      · exact .working hsaves
    · rw [getElem?_tick_of_ne heq] at hp
      exact (h.stand i p hp).later heq
  · refine ⟨hlt, getElem?_concat reads, fun n hread hn hgetn => ?_, hwrites, fun n j hn hat => ?_⟩
    · rcases getElem?_concat_cases hgetn with ⟨-, hgetn⟩ | ⟨hlast, -⟩
      · exact waits n hread hgetn
      · omega
    · have hbound := hat.lt
      rw [List.length_append, List.length_singleton] at hbound
      omega
  · rcases hchange.cases with hchange | ⟨hlast, -⟩
    · exact still hchange
    · omega
  · rw [schedule_concat, hshared, hw, upTo_concat (Nat.le_of_lt hlt)]
    exact htext

variable [Nontrivial φ]

/-- A step that keeps every file is no write. -/
theorem not_write {w : σ × φ → σ × φ} (hw : ∀ d, (w d).2 = d.2) (s : σ) (text : φ) :
    w ≠ fun d => (d.1, text) := by
  intro heq
  obtain ⟨file, hne⟩ := exists_ne text
  have hkept := hw (s, file)
  rw [heq] at hkept
  exact hne hkept.symm

theorem concat (h : Behind view out acked c is) (k : Nat) :
    Behind view out acked c (is ++ [k]) := by
  by_cases hidle : ∀ w next, (schedule is c).1[k]? ≠ some (step w next)
  · exact h.idle hidle
  obtain ⟨w, next, hget⟩ : ∃ w next, (schedule is c).1[k]? = some (step w next) := by
    simpa only [not_forall, not_not] using hidle
  obtain ⟨hleft, hshared⟩ := tick_of_step hget
  have hkeeps : (∀ d, (w d).2 = d.2) → Stand view out acked c (is ++ [k]) k (next (schedule is c).2) →
      Behind view out acked c (is ++ [k]) := by
    intro hw hstand
    refine h.keeps_file (fun hwrites => ?_) (by rw [hshared, hw]) (fun p hp => ?_)
    · obtain ⟨text, next', hget'⟩ := writesAt_last.1 hwrites
      have heq := Option.some.inj (hget.symm.trans hget')
      injection heq with heq
      exact not_write hw c.2.1 text heq
    · obtain rfl := Option.some.inj (hleft.symm.trans hp)
      exact hstand
  cases h.stand k _ hget with
  | working hsaves =>
    rcases hsaves with ⟨hw, hnext⟩ | ⟨hw, hnext⟩
    · exact hkeeps hw (.working (hnext _))
    · refine hkeeps (fun d => by rw [hw]) (.writing is.length ?_ List.getElem?_concat_length ?_ ?_)
      · rw [upTo_concat (Nat.le_refl _), upTo_length]
        exact hnext _
      · intro n hn hgetn
        have hbound := (List.getElem?_eq_some_iff.1 hgetn).1
        rw [List.length_append, List.length_singleton] at hbound
        omega
      · intro hchange
        rcases hchange.cases with hchange | ⟨-, -, hchange⟩
        · exact absurd hchange.lt (Nat.lt_irrefl _)
        · rw [hshared, hw] at hchange
          exact hchange rfl
  | writing read hsaves reads waits still =>
    exact h.write hget (funext hsaves.1) rfl hsaves.2 reads waits still

/-- A pool that starts on a file of its own store. -/
theorem run (hfile : c.2.2 = out (view c.2.1))
    (hpool : ∀ p ∈ c.1, Saves view out acked p none) (is : List Nat) :
    Behind view out acked c is := by
  induction is using List.reverseRecOn with
  | nil =>
    refine ⟨fun i p hget => .working (hpool p (List.mem_of_getElem? hget)), .inl ⟨hfile, ?_⟩⟩
    exact fun n j hwrites => absurd hwrites.lt (Nat.not_lt_zero n)
  | append_singleton is k ih => exact ih.concat k

end Behind

/-- Whoever has acknowledged has saved every change. -/
theorem Behind.written (h : Behind view out acked c is) (hacked : Acked acked (schedule is c) j)
    {m : Nat} (hchange : ChangesAt view c is m j) : ∃ l, m < l ∧ WritesAt c is l j := by
  obtain ⟨a, hget, ha⟩ := hacked
  cases h.stand j _ hget with
  | answered a hwritten => exact hwritten ha m hchange
  | working hsaves => exact absurd ha hsaves
  | writing read hsaves => exact hsaves.elim

theorem Behind.durable (h : Behind view out acked c is) (hfresh : LastSaveFresh view c is) :
    Durable view out acked c is := by
  have hdurable : ∀ n ≤ is.length, (schedule is c).2.2 = out (view (upTo c is n).2.1) →
      (∀ m j, n ≤ m → ChangesAt view c is m j → ∀ l, m < l → ¬ WritesAt c is l j) →
      Durable view out acked c is := by
    intro n hn hfile hlater
    refine ⟨n, hn, hfile, fun m j hm hchange => ⟨fun hacked => ?_, hlater m j hm hchange⟩⟩
    obtain ⟨l, hlt, hwrites⟩ := h.written hacked hchange
    exact hlater m j hm hchange l hlt hwrites
  rcases h.file with ⟨hfile, hnone⟩ | ⟨read, write, i, hlast, hstill, hfile⟩
  · exact hdurable 0 (Nat.zero_le _) hfile (fun m j _ _ l _ hwrites => hnone l j hwrites)
  · have hlt : read < is.length := Nat.lt_trans hlast.read_lt hlast.writes.lt
    refine hdurable read (Nat.le_of_lt hlt) hfile (fun m j hm hchange l hl hwrites => ?_)
    rcases Nat.lt_trichotomy l write with hbefore | rfl | hafter
    · rcases Nat.eq_or_lt_of_le hm with rfl | hm
      · obtain rfl := Option.some.inj (hlast.reads.symm.trans hchange.1)
        exact hstill hchange
      · exact hfresh read write i hlast m l j hm hl hbefore hchange hwrites
    · -- The program of the last save takes no step between its snapshot and its write.
      obtain rfl := Option.some.inj (hlast.writes.1.symm.trans hwrites.1)
      rcases Nat.eq_or_lt_of_le hm with rfl | hm
      · exact hstill hchange
      · exact hlast.waits m hm hl hchange.1
    · exact hlast.last l j hafter hwrites

/-- One program after another: no save is overtaken. -/
theorem lastSaveFresh_of_pairwise (h : is.Pairwise (fun i j => i ≤ j)) : LastSaveFresh view c is := by
  have hmono : ∀ {m n i j : Nat}, m < n → is[m]? = some i → is[n]? = some j → i ≤ j := by
    intro m n i j hlt hm hn
    obtain ⟨hmlt, rfl⟩ := List.getElem?_eq_some_iff.1 hm
    obtain ⟨hnlt, rfl⟩ := List.getElem?_eq_some_iff.1 hn
    exact List.pairwise_iff_getElem.1 h m n hmlt hnlt hlt
  intro read write i hlast m k j hread hk hwrite hchange _
  have hle := hmono hread hlast.reads hchange.1
  have hge := hmono (Nat.lt_trans hk hwrite) hchange.1 hlast.writes.1
  obtain rfl : i = j := by omega
  exact hlast.waits m hread (Nat.lt_trans hk hwrite) hchange.1

end Prog

end Library
