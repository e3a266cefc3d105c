import Mathlib.Data.Option.Basic
import Mathlib.Data.List.Induction
import Mathlib.Data.List.Nodup

/-!
# Cells under a log

What a log of changes makes of one cell of a keyed store.  A change keeps the
cell, overwrites it, fills it where it is empty, or empties it where its content
fails a test.  A log that does not both fill and test is idempotent on the cell,
and so is every suffix of it.  A list of rows with keys is such a store.
-/

namespace Library

inductive CellOp (ν : Type*) where
  | keep
  | write (content : Option ν)
  | fill (v : ν)
  | sift (p : ν → Bool)

namespace CellOp

variable {ν : Type*}

def run : CellOp ν → Option ν → Option ν
  | keep, x => x
  | write content, _ => content
  | fill v, x => x.or (some v)
  | sift p, x => x.filter p

/-- A log on one cell, first change first. -/
def runAll (ops : List (CellOp ν)) (x : Option ν) : Option ν :=
  ops.foldl (fun x op => op.run x) x

def IsFill : CellOp ν → Prop
  | fill _ => True
  | _ => False

def IsSift : CellOp ν → Prop
  | sift _ => True
  | _ => False

@[simp] theorem runAll_nil (x : Option ν) : runAll [] x = x := rfl

@[simp] theorem runAll_cons (op : CellOp ν) (ops : List (CellOp ν)) (x : Option ν) :
    runAll (op :: ops) x = runAll ops (op.run x) := rfl

theorem runAll_append (ops ops' : List (CellOp ν)) (x : Option ν) :
    runAll (ops ++ ops') x = runAll ops' (runAll ops x) :=
  List.foldl_append

/-- Without tests, a log forgets the cell or completes it with one content. -/
theorem runAll_of_no_sift {ops : List (CellOp ν)} (h : ∀ op ∈ ops, ¬ op.IsSift) :
    (∃ c, ∀ x, runAll ops x = c) ∨ ∃ c, ∀ x, runAll ops x = x.or c := by
  induction ops with
  | nil => exact .inr ⟨none, fun x => by simp⟩
  | cons op ops ih =>
    rcases ih (fun op' hop' => h op' (List.mem_cons_of_mem _ hop')) with ⟨c, hc⟩ | ⟨c, hc⟩
    · exact .inl ⟨c, fun x => by rw [runAll_cons, hc]⟩
    · cases op with
      | keep => exact .inr ⟨c, fun x => by rw [runAll_cons, hc, run]⟩
      | write content => exact .inl ⟨content.or c, fun x => by rw [runAll_cons, hc, run]⟩
      | fill v =>
        right
        refine ⟨(some v).or c, fun x => ?_⟩
        rw [runAll_cons, hc, run, Option.or_assoc]
      | sift p => exact absurd trivial (h (.sift p) List.mem_cons_self)

/-- Without fillings, it forgets the cell or tests its content. -/
theorem runAll_of_no_fill {ops : List (CellOp ν)} (h : ∀ op ∈ ops, ¬ op.IsFill) :
    (∃ c, ∀ x, runAll ops x = c) ∨ ∃ p : ν → Bool, ∀ x, runAll ops x = x.filter p := by
  induction ops with
  | nil => exact .inr ⟨fun _ => true, fun x => by cases x <;> rfl⟩
  | cons op ops ih =>
    rcases ih (fun op' hop' => h op' (List.mem_cons_of_mem _ hop')) with ⟨c, hc⟩ | ⟨p, hp⟩
    · exact .inl ⟨c, fun x => by rw [runAll_cons, hc]⟩
    · cases op with
      | keep => exact .inr ⟨p, fun x => by rw [runAll_cons, hp, run]⟩
      | write content => exact .inl ⟨content.filter p, fun x => by rw [runAll_cons, hp, run]⟩
      | fill v => exact absurd trivial (h (.fill v) List.mem_cons_self)
      | sift q =>
        right
        refine ⟨fun v => q v && p v, fun x => ?_⟩
        rw [runAll_cons, hp, run]
        cases x with
        | none => rfl
        | some v => cases hq : q v <;> simp [Option.filter, hq]

theorem runAll_runAll {ops : List (CellOp ν)}
    (h : (∀ op ∈ ops, ¬ op.IsSift) ∨ ∀ op ∈ ops, ¬ op.IsFill) (x : Option ν) :
    runAll ops (runAll ops x) = runAll ops x := by
  have hfilter : ∀ (p : ν → Bool) (x : Option ν), (x.filter p).filter p = x.filter p := by
    intro p x
    cases x with
    | none => rfl
    | some v => cases hp : p v <;> simp [Option.filter, hp]
  rcases h with h | h
  · rcases runAll_of_no_sift h with ⟨c, hc⟩ | ⟨c, hc⟩
    · rw [hc, hc]
    · rw [hc, hc, Option.or_assoc, Option.or_self]
  · rcases runAll_of_no_fill h with ⟨c, hc⟩ | ⟨p, hp⟩
    · rw [hc, hc]
    · rw [hp, hp, hfilter]

/-- Going through the end of a log once more changes nothing. -/
theorem runAll_suffix {ops suffix : List (CellOp ν)}
    (h : (∀ op ∈ ops, ¬ op.IsSift) ∨ ∀ op ∈ ops, ¬ op.IsFill) (hsuffix : suffix <:+ ops)
    (x : Option ν) : runAll suffix (runAll ops x) = runAll ops x := by
  obtain ⟨before, rfl⟩ := hsuffix
  rw [runAll_append]
  apply runAll_runAll
  rcases h with h | h
  · exact .inl (fun op hop => h op (List.mem_append_right _ hop))
  · exact .inr (fun op hop => h op (List.mem_append_right _ hop))

end CellOp

/-! ## Lists with keys -/

section

variable {ν κ : Type*} [DecidableEq κ]

/-- The first row of a list under a key. -/
def findKey (key : ν → κ) (l : List ν) (k : κ) : Option ν := l.find? (fun v => key v = k)

variable {key : ν → κ}

theorem findKey_append_singleton (l : List ν) (v : ν) (k : κ) :
    findKey key (l ++ [v]) k = (findKey key l k).or (if key v = k then some v else none) := by
  unfold findKey
  rw [List.find?_append]
  by_cases h : key v = k
  · simp [h]
  · simp [h]

/-- Rows are kept or left out by their keys. -/
theorem findKey_filter (l : List ν) (q : κ → Bool) (k : κ) :
    findKey key (l.filter (fun v => q (key v))) k = if q k then findKey key l k else none := by
  unfold findKey
  induction l with
  | nil => simp
  | cons v l ih =>
    rw [List.filter_cons]
    by_cases h : key v = k
    · subst h
      cases hq : q (key v) with
      | true => simp
      | false => simpa [hq] using ih
    · cases hq : q (key v) with
      | true => simp [h, ih]
      | false => simp [h, ih]

/-- A row takes the place of those under its key. -/
theorem findKey_replace (l : List ν) (v : ν) (k : κ) :
    findKey key (l.filter (fun u => key u ≠ key v) ++ [v]) k =
      if key v = k then some v else findKey key l k := by
  have hfilter : findKey key (l.filter (fun u => decide (key u ≠ key v))) k =
      if decide (k ≠ key v) then findKey key l k else none :=
    findKey_filter l (fun k' => decide (k' ≠ key v)) k
  rw [findKey_append_singleton, hfilter]
  by_cases h : key v = k
  · simp [h]
  · simp [h, Ne.symm h]

/-- A list with one row for each key is its own map. -/
theorem mem_iff_findKey {l : List ν} (h : (l.map key).Nodup) {v : ν} :
    v ∈ l ↔ findKey key l (key v) = some v := by
  constructor
  · intro hv
    obtain ⟨u, hu⟩ : ∃ u, findKey key l (key v) = some u :=
      Option.isSome_iff_exists.1 (List.find?_isSome.2 ⟨v, hv, by simp⟩)
    have hkey : key u = key v := by simpa using List.find?_some hu
    rw [hu, List.inj_on_of_nodup_map h (List.mem_of_find?_eq_some hu) hv hkey]
  · exact List.mem_of_find?_eq_some

/-- Two such lists with one map hold the same rows. -/
theorem perm_of_findKey {l m : List ν} (hl : (l.map key).Nodup) (hm : (m.map key).Nodup)
    (h : ∀ k, findKey key l k = findKey key m k) : l.Perm m := by
  apply (List.perm_ext_iff_of_nodup (List.Nodup.of_map key hl) (List.Nodup.of_map key hm)).2
  intro v
  rw [mem_iff_findKey hl, mem_iff_findKey hm, h]

/-- A row is added unless its key is taken. -/
theorem nodup_fill {l : List ν} (h : (l.map key).Nodup) (v : ν) {p : ν → Bool}
    (hp : ∀ u, p u = decide (key u = key v)) :
    ((if l.any p then l else l ++ [v]).map key).Nodup := by
  obtain rfl : p = fun u => decide (key u = key v) := funext hp
  split
  next => exact h
  next hany =>
    rw [List.map_append, List.nodup_append]
    refine ⟨h, List.nodup_singleton _, fun k hk k' hk' heq => hany ?_⟩
    obtain ⟨u, hu, rfl⟩ := List.mem_map.1 hk
    rw [List.mem_singleton.1 hk'] at heq
    exact List.any_eq_true.2 ⟨u, hu, decide_eq_true heq⟩

omit [DecidableEq κ] in
theorem nodup_filter {l : List ν} (h : (l.map key).Nodup) (p : ν → Bool) :
    ((l.filter p).map key).Nodup :=
  h.sublist (List.filter_sublist.map key)

/-- A row takes the place of those under its key. -/
theorem nodup_replace {l : List ν} (h : (l.map key).Nodup) (v : ν) {p : ν → Bool}
    (hp : ∀ u, p u = decide (key u ≠ key v)) : ((l.filter p ++ [v]).map key).Nodup := by
  rw [List.map_append, List.nodup_append]
  refine ⟨nodup_filter h p, List.nodup_singleton _, fun k hk k' hk' heq => ?_⟩
  obtain ⟨u, hu, rfl⟩ := List.mem_map.1 hk
  have hkept := (List.mem_filter.1 hu).2
  rw [hp u, decide_eq_true_eq] at hkept
  exact hkept (heq.trans (List.mem_singleton.1 hk'))

/-! ### A log of rows -/

/-- What is left of a log in which each row takes the place of those under its key. -/
def latest (key : ν → κ) (log : List ν) : List ν :=
  log.foldl (fun l v => l.filter (fun u => key u ≠ key v) ++ [v]) []

theorem latest_concat (log : List ν) (v : ν) :
    latest key (log ++ [v]) = (latest key log).filter (fun u => key u ≠ key v) ++ [v] :=
  List.foldl_concat ..

/-- The last row under a key is kept. -/
theorem findKey_latest (log : List ν) (k : κ) :
    findKey key (latest key log) k = findKey key log.reverse k := by
  induction log using List.reverseRecOn with
  | nil => rfl
  | append_singleton log v ih =>
    rw [latest_concat, findKey_replace, ih, List.reverse_concat]
    unfold findKey
    rw [List.find?_cons]
    by_cases h : key v = k
    · rw [if_pos h, decide_eq_true h]
    · rw [if_neg h, decide_eq_false h]

theorem nodup_latest (log : List ν) : ((latest key log).map key).Nodup := by
  induction log using List.reverseRecOn with
  | nil => exact List.nodup_nil
  | append_singleton log v ih =>
    rw [latest_concat]
    exact nodup_replace ih v (fun _ => rfl)

end

end Library
