import Mathlib.Data.List.Sort

/-!
# Keyed tables

A table holds rows of one type in strictly increasing order of a key the row
carries itself, so two rows never share a key and two tables with the same
lookups are equal.  This is the finite map a store keeps by primary key; what
an implementation iterates over in an unspecified order is iterated here in
key order.
-/

namespace Library

variable {ν : Type*}

/-- Dropping what a selection does not want leaves it as it was. -/
theorem filter_filter_of_imp {l : List ν} {p q : ν → Bool}
    (h : ∀ v ∈ l, p v = true → q v = true) : (l.filter q).filter p = l.filter p := by
  refine (List.filter_filter).trans (List.filter_congr (fun v hv => ?_))
  cases hp : p v with
  | false => rfl
  | true => rw [h v hv hp, Bool.and_self]

/-- An element of a list that has grown by one is the new one or an old one. -/
theorem concat_eq_split {l front back : List ν} {v w : ν} (h : l ++ [v] = front ++ w :: back) :
    (l = front ∧ v = w ∧ back = []) ∨ ∃ rest, l = front ++ w :: rest ∧ back = rest ++ [v] := by
  rcases List.eq_nil_or_concat back with rfl | ⟨rest, u, hback⟩
  · obtain ⟨hfront, hlast⟩ := List.append_inj' h rfl
    exact .inl ⟨hfront, List.singleton_inj.1 hlast, rfl⟩
  · rw [List.concat_eq_append] at hback
    subst hback
    have hassoc : l ++ [v] = (front ++ w :: rest) ++ [u] := by
      rw [h, List.append_assoc, List.cons_append]
    obtain ⟨hfront, hlast⟩ := List.append_inj' hassoc rfl
    rw [List.singleton_inj.1 hlast]
    exact .inr ⟨rest, hfront, rfl⟩

variable {κ : Type*} [LinearOrder κ]

/-- Rows in strictly increasing key order. -/
structure Table (key : ν → κ) where
  rows : List ν
  sorted : rows.Pairwise (fun a b => key a < key b)

namespace Table

variable {key : ν → κ}

/-- Two strictly key-ordered lists with the same members are the same list. -/
theorem sorted_ext {l m : List ν} (hl : l.Pairwise (fun a b => key a < key b))
    (hm : m.Pairwise (fun a b => key a < key b)) (h : ∀ v, v ∈ l ↔ v ∈ m) : l = m := by
  have nodup : ∀ {l : List ν}, l.Pairwise (fun a b => key a < key b) → l.Nodup :=
    fun hl => hl.imp fun hlt heq => absurd (heq ▸ hlt) (lt_irrefl _)
  refine List.Perm.eq_of_pairwise ?_ hl hm ((List.perm_ext_iff_of_nodup (nodup hl) (nodup hm)).2 h)
  intro a b _ _ hab hba
  exact absurd (hab.trans hba) (lt_irrefl _)

def empty : Table key := ⟨[], List.Pairwise.nil⟩

instance [DecidableEq ν] : DecidableEq (Table key) := fun t u =>
  decidable_of_iff (t.rows = u.rows) (by cases t; cases u; simp)

/-- The row stored under a key. -/
def get (t : Table key) (k : κ) : Option ν :=
  t.rows.find? (fun v => key v = k)

/-- Keep only the rows satisfying `p`. -/
def retain (t : Table key) (p : ν → Bool) : Table key :=
  ⟨t.rows.filter p, t.sorted.filter p⟩

/-- Remove the row stored under a key. -/
def erase (t : Table key) (k : κ) : Table key :=
  t.retain (fun v => key v ≠ k)

/-- Store a row under its own key, replacing the row that was there. -/
def insert (t : Table key) (v : ν) : Table key where
  rows := (t.erase (key v)).rows.orderedInsert (fun a b => key a ≤ key b) v
  sorted := by
    have hle := (t.erase (key v)).sorted.imp (fun {a b} (h : key a < key b) => h.le)
    have htotal : Std.Total (fun a b : ν => key a ≤ key b) := ⟨fun a b => le_total _ _⟩
    have htrans : IsTrans ν (fun a b => key a ≤ key b) := ⟨fun a b c => le_trans⟩
    have hperm := List.perm_orderedInsert (fun a b => key a ≤ key b) v (t.erase (key v)).rows
    have hne : (v :: (t.erase (key v)).rows).Pairwise (fun a b => key a ≠ key b) := by
      refine List.pairwise_cons.2 ⟨?_, (t.erase (key v)).sorted.imp (fun h => h.ne)⟩
      intro b hb
      have := (List.mem_filter.1 hb).2
      simp only [decide_eq_true_eq] at this
      exact fun h => this h.symm
    have hne' := hperm.symm.pairwise hne (fun h => h.symm)
    exact (hle.orderedInsert v).imp₂ (fun _ _ hle hne => lt_of_le_of_ne hle hne) hne'

/-! ## Lookups and membership -/

theorem get_eq_some {t : Table key} {k : κ} {v : ν} :
    t.get k = some v ↔ v ∈ t.rows ∧ key v = k := by
  constructor
  · intro h
    exact ⟨List.mem_of_find?_eq_some h, by simpa using List.find?_some h⟩
  · rintro ⟨hmem, rfl⟩
    obtain ⟨u, hu⟩ : ∃ u, t.get (key v) = some u :=
      Option.isSome_iff_exists.1 (List.find?_isSome.2 ⟨v, hmem, by simp⟩)
    have hkey : key u = key v := by simpa using List.find?_some hu
    have hkeys : (t.rows.map key).Nodup :=
      List.pairwise_map.2 (t.sorted.imp (fun h => h.ne))
    rw [hu, List.inj_on_of_nodup_map hkeys (List.mem_of_find?_eq_some hu) hmem hkey]

theorem get_eq_none {t : Table key} {k : κ} :
    t.get k = none ↔ ∀ v ∈ t.rows, key v ≠ k := by
  simp [get]

theorem mem_iff {t : Table key} {v : ν} : v ∈ t.rows ↔ t.get (key v) = some v := by
  simp [get_eq_some]

theorem key_of_get {t : Table key} {k : κ} {v : ν} (h : t.get k = some v) : key v = k :=
  (get_eq_some.1 h).2

theorem mem_of_get {t : Table key} {k : κ} {v : ν} (h : t.get k = some v) : v ∈ t.rows :=
  (get_eq_some.1 h).1

theorem eq_of_key {t : Table key} {u v : ν} (hu : u ∈ t.rows) (hv : v ∈ t.rows)
    (h : key u = key v) : u = v := by
  have hget := mem_iff.1 hu
  rw [h, mem_iff.1 hv] at hget
  exact (Option.some.inj hget).symm

/-- Tables with the same lookups are equal. -/
theorem ext_get {t u : Table key} (h : ∀ k, t.get k = u.get k) : t = u := by
  have hrows : t.rows = u.rows :=
    sorted_ext t.sorted u.sorted (fun v => by rw [mem_iff, mem_iff, h])
  cases t
  cases u
  simpa using hrows

@[simp] theorem rows_empty : (empty : Table key).rows = [] := rfl

@[simp] theorem get_empty (k : κ) : (empty : Table key).get k = none := rfl

@[simp] theorem mem_retain {t : Table key} {p : ν → Bool} {v : ν} :
    v ∈ (t.retain p).rows ↔ v ∈ t.rows ∧ p v = true := List.mem_filter

@[simp] theorem mem_erase {t : Table key} {k : κ} {v : ν} :
    v ∈ (t.erase k).rows ↔ v ∈ t.rows ∧ key v ≠ k := by
  simp [erase]

@[simp] theorem mem_insert {t : Table key} {u v : ν} :
    u ∈ (t.insert v).rows ↔ u = v ∨ (u ∈ t.rows ∧ key u ≠ key v) := by
  simp [insert]

theorem get_retain (t : Table key) (p : ν → Bool) (k : κ) :
    (t.retain p).get k = (t.get k).filter p := by
  ext v
  rw [Option.filter_eq_some_iff, get_eq_some, get_eq_some, mem_retain]
  tauto

theorem get_erase (t : Table key) (k l : κ) :
    (t.erase l).get k = if k = l then none else t.get k := by
  ext v
  split
  case isTrue h => simp [get_eq_some, h]
  case isFalse h =>
    simp only [get_eq_some, mem_erase]
    constructor
    · rintro ⟨⟨hmem, -⟩, hkey⟩
      exact ⟨hmem, hkey⟩
    · rintro ⟨hmem, hkey⟩
      exact ⟨⟨hmem, fun h' => h (hkey.symm.trans h')⟩, hkey⟩

theorem get_insert (t : Table key) (v : ν) (k : κ) :
    (t.insert v).get k = if k = key v then some v else t.get k := by
  ext u
  split
  case isTrue h =>
    subst h
    simp only [get_eq_some, mem_insert, Option.some.injEq]
    constructor
    · rintro ⟨rfl | ⟨-, hne⟩, hkey⟩
      · rfl
      · exact absurd hkey hne
    · rintro rfl
      exact ⟨Or.inl rfl, rfl⟩
  case isFalse h =>
    simp only [get_eq_some, mem_insert]
    constructor
    · rintro ⟨rfl | ⟨hmem, -⟩, hkey⟩
      · exact absurd hkey.symm h
      · exact ⟨hmem, hkey⟩
    · rintro ⟨hmem, hkey⟩
      exact ⟨Or.inr ⟨hmem, fun h' => h (hkey.symm.trans h')⟩, hkey⟩

@[simp] theorem get_insert_self (t : Table key) (v : ν) : (t.insert v).get (key v) = some v := by
  simp [get_insert]

theorem get_insert_of_ne (t : Table key) {v : ν} {k : κ} (h : k ≠ key v) :
    (t.insert v).get k = t.get k := by
  simp [get_insert, h]

theorem get_of_insert {t : Table key} {u v : ν} {k : κ} (h : (t.insert v).get k = some u) :
    u = v ∨ t.get k = some u := by
  by_cases hk : k = key v
  · rw [hk, get_insert_self] at h
    exact .inl (Option.some.inj h).symm
  · rw [get_insert_of_ne t hk] at h
    exact .inr h

theorem isSome_get_insert {t : Table key} {v : ν} {k : κ} (h : (t.get k).isSome) :
    ((t.insert v).get k).isSome := by
  by_cases hk : k = key v
  · rw [hk, get_insert_self]
    rfl
  · rw [get_insert_of_ne t hk]
    exact h

theorem get_of_erase {t : Table key} {k l : κ} {v : ν} (h : (t.erase l).get k = some v) :
    t.get k = some v := by
  rw [get_erase] at h
  split at h
  case isTrue => cases h
  case isFalse => exact h

/-! ## Rows that exclude each other -/

/-- Of two rows that are so related, one is the other. -/
def Apart (R : ν → ν → Prop) (t : Table key) : Prop :=
  ∀ u ∈ t.rows, ∀ v ∈ t.rows, R u v → key u = key v

theorem Apart.of_subset {R : ν → ν → Prop} {t t' : Table key} (h : t.Apart R)
    (hsubset : ∀ v ∈ t'.rows, v ∈ t.rows) : t'.Apart R :=
  fun u hu v hv => h u (hsubset u hu) v (hsubset v hv)

theorem apart_insert {R : ν → ν → Prop} (hsymm : ∀ {u v}, R u v → R v u) {t : Table key} {v : ν}
    (h : t.Apart R) : (t.insert v).Apart R ↔ ∀ u ∈ t.rows, R u v → key u = key v := by
  constructor
  · intro hafter u hu hrel
    by_contra hkey
    exact hkey (hafter u (mem_insert.2 (.inr ⟨hu, hkey⟩)) v (mem_insert.2 (.inl rfl)) hrel)
  · intro hnew u hu w hw hrel
    rcases mem_insert.1 hu with rfl | ⟨huold, -⟩
    · rcases mem_insert.1 hw with rfl | ⟨hwold, -⟩
      · rfl
      · exact (hnew w hwold (hsymm hrel)).symm
    · rcases mem_insert.1 hw with rfl | ⟨hwold, -⟩
      · exact hnew u huold hrel
      · exact h u huold w hwold hrel

/-- The second of two writes under one key is the one that stays. -/
theorem insert_insert {t : Table key} {u v : ν} (h : key u = key v) :
    (t.insert u).insert v = t.insert v := by
  refine ext_get (fun k => ?_)
  rw [get_insert, get_insert, get_insert, h]
  split <;> rfl

theorem erase_eq_self {t : Table key} {k : κ} (h : t.get k = none) : t.erase k = t := by
  refine ext_get (fun l => ?_)
  rw [get_erase]
  split
  case isTrue hl => rw [hl, h]
  case isFalse => rfl

theorem erase_erase (t : Table key) (k : κ) : (t.erase k).erase k = t.erase k :=
  erase_eq_self ((get_erase t k k).trans (if_pos rfl))

/-! ## Searches -/

/-- A search finds the row of the least key among those it is for. -/
theorem find?_rows_eq_some {t : Table key} {p : ν → Bool} {v : ν} :
    t.rows.find? p = some v ↔
      v ∈ t.rows ∧ p v = true ∧ ∀ u ∈ t.rows, p u = true → key v ≤ key u := by
  have hleast : ∀ {v}, t.rows.find? p = some v → ∀ u ∈ t.rows, p u = true → key v ≤ key u := by
    intro v h u hu hpu
    obtain ⟨-, as, bs, hrows, hbefore⟩ := List.find?_eq_some_iff_append.1 h
    have hsorted := t.sorted
    rw [hrows] at hu hsorted
    rcases List.mem_append.1 hu with hu | hu
    · have hnot := hbefore u hu
      simp [hpu] at hnot
    · rcases List.mem_cons.1 hu with rfl | hu
      · exact le_refl _
      · exact ((List.pairwise_cons.1 (List.pairwise_append.1 hsorted).2.1).1 u hu).le
  constructor
  · intro h
    exact ⟨List.mem_of_find?_eq_some h, List.find?_some h, hleast h⟩
  · rintro ⟨hv, hpv, hmin⟩
    obtain ⟨u, hu⟩ := Option.isSome_iff_exists.1 (List.find?_isSome.2 ⟨v, hv, hpv⟩)
    have hkey : key u = key v :=
      le_antisymm (hleast hu v hv hpv) (hmin u (List.mem_of_find?_eq_some hu) (List.find?_some hu))
    have hget := mem_iff.1 (List.mem_of_find?_eq_some hu)
    rw [hkey, mem_iff.1 hv] at hget
    rw [hu, Option.some.inj hget]

/-- Replacing a row by one that the search is for just as much does not change
which key is found. -/
theorem find?_rows_insert {t : Table key} {u v : ν} {p : ν → Bool} (h : t.get (key v) = some u)
    (hp : p v = p u) :
    ((t.insert v).rows.find? p).map key = (t.rows.find? p).map key := by
  have hkey := key_of_get h
  cases hfind : t.rows.find? p with
  | none =>
    rw [List.find?_eq_none] at hfind
    rw [Option.map_none, Option.map_eq_none_iff, List.find?_eq_none]
    intro x hx
    rcases mem_insert.1 hx with rfl | ⟨hx, -⟩
    · rw [hp]
      exact hfind u (mem_of_get h)
    · exact hfind x hx
  | some x =>
    obtain ⟨hx, hpx, hmin⟩ := find?_rows_eq_some.1 hfind
    have hmin' : ∀ y ∈ (t.insert v).rows, p y = true → key x ≤ key y := by
      intro y hy hpy
      rcases mem_insert.1 hy with rfl | ⟨hy, -⟩
      · rw [← hkey]
        exact hmin u (mem_of_get h) (hp ▸ hpy)
      · exact hmin y hy hpy
    by_cases hxv : key x = key v
    · obtain rfl : x = u := by
        have hget := mem_iff.1 hx
        rw [hxv, h] at hget
        exact (Option.some.inj hget).symm
      have hfound : (t.insert v).rows.find? p = some v :=
        find?_rows_eq_some.2 ⟨mem_insert.2 (.inl rfl), hp.trans hpx, hxv ▸ hmin'⟩
      rw [hfound, Option.map_some, Option.map_some, hxv]
    · have hfound : (t.insert v).rows.find? p = some x :=
        find?_rows_eq_some.2 ⟨mem_insert.2 (.inr ⟨hx, hxv⟩), hpx, hmin'⟩
      rw [hfound]

/-! ## Selections and counts -/

/-- A write that neither selects nor deselects a row leaves a selection as it was. -/
theorem filter_rows_insert {t : Table key} {v : ν} {p : ν → Bool} (hv : p v = false)
    (hold : ∀ u, t.get (key v) = some u → p u = false) :
    (t.insert v).rows.filter p = t.rows.filter p := by
  refine sorted_ext ((t.insert v).sorted.filter p) (t.sorted.filter p) (fun u => ?_)
  simp only [List.mem_filter, mem_insert]
  constructor
  · rintro ⟨rfl | ⟨hmem, -⟩, hp⟩
    · simp [hv] at hp
    · exact ⟨hmem, hp⟩
  · rintro ⟨hmem, hp⟩
    refine ⟨Or.inr ⟨hmem, fun hkey => ?_⟩, hp⟩
    have := hold u (by rw [← hkey]; exact mem_iff.1 hmem)
    simp [this] at hp

theorem filter_rows_retain {t : Table key} {p q : ν → Bool}
    (h : ∀ v ∈ t.rows, p v = true → q v = true) : (t.retain q).rows.filter p = t.rows.filter p :=
  filter_filter_of_imp h

theorem countP_erase_add (t : Table key) (k : κ) (p : ν → Bool) :
    (t.erase k).rows.countP p + ((t.get k).elim 0 fun u => if p u then 1 else 0) =
      t.rows.countP p := by
  cases hget : t.get k with
  | none => rw [erase_eq_self hget]; rfl
  | some u =>
    have hkey := key_of_get hget
    have hperm : t.rows.Perm (u :: (t.erase k).rows) := by
      refine (List.perm_ext_iff_of_nodup ?_ ?_).2 (fun w => ?_)
      · exact t.sorted.imp (fun h heq => absurd (heq ▸ h) (lt_irrefl _))
      · refine List.nodup_cons.2 ⟨by simp [hkey], ?_⟩
        exact (t.erase k).sorted.imp (fun h heq => absurd (heq ▸ h) (lt_irrefl _))
      · simp only [List.mem_cons, mem_erase]
        constructor
        · intro hw
          by_cases hk : key w = k
          · left
            have := mem_iff.1 hw
            rw [hk, hget] at this
            exact (Option.some.inj this).symm
          · exact Or.inr ⟨hw, hk⟩
        · rintro (rfl | ⟨hw, -⟩)
          · exact mem_of_get hget
          · exact hw
    rw [hperm.countP_eq, List.countP_cons]
    simp

/-- Tables that select the same keys select equally many rows. -/
theorem countP_congr {t u : Table key} {p : ν → Bool}
    (h : ∀ k, (t.get k).any p = (u.get k).any p) : t.rows.countP p = u.rows.countP p := by
  have hmem : ∀ (t : Table key) (k : κ),
      k ∈ (t.retain p).rows.map key ↔ (t.get k).any p = true := by
    intro t k
    simp only [List.mem_map, mem_retain, Option.any_eq_true]
    constructor
    · rintro ⟨v, ⟨hv, hp⟩, rfl⟩
      exact ⟨v, mem_iff.1 hv, hp⟩
    · rintro ⟨v, hv, hp⟩
      exact ⟨v, ⟨mem_of_get hv, hp⟩, key_of_get hv⟩
  have hsorted : ∀ t : Table key, ((t.retain p).rows.map key).Pairwise (fun a b => a < b) :=
    fun t => List.pairwise_map.2 (t.retain p).sorted
  have hkeys : (t.retain p).rows.map key = (u.retain p).rows.map key := by
    refine sorted_ext (hsorted t) (hsorted u) (fun k => ?_)
    rw [hmem, hmem, h]
  have hlength := congrArg List.length hkeys
  rw [List.length_map, List.length_map] at hlength
  rw [List.countP_eq_length_filter, List.countP_eq_length_filter]
  exact hlength

/-- A write moves a count by the new row's share less the replaced row's share. -/
theorem countP_insert (t : Table key) (v : ν) (p : ν → Bool) :
    (t.insert v).rows.countP p + ((t.get (key v)).elim 0 fun u => if p u then 1 else 0) =
      t.rows.countP p + (if p v then 1 else 0) := by
  have hperm := List.perm_orderedInsert (fun a b => key a ≤ key b) v (t.erase (key v)).rows
  have herase := countP_erase_add t (key v) p
  have hinsert : (t.insert v).rows.countP p =
      (t.erase (key v)).rows.countP p + (if p v then 1 else 0) := by
    rw [insert, hperm.countP_eq, List.countP_cons]
  omega

theorem countP_insert_of_get_none {t : Table key} {v : ν} (h : t.get (key v) = none)
    (p : ν → Bool) :
    (t.insert v).rows.countP p = t.rows.countP p + (if p v then 1 else 0) := by
  have := countP_insert t v p
  simpa [h] using this

theorem length_insert_of_get_none {t : Table key} {v : ν} (h : t.get (key v) = none) :
    (t.insert v).rows.length = t.rows.length + 1 := by
  have := countP_insert_of_get_none h (fun _ => true)
  simpa using this

theorem countP_insert_of_get_some {t : Table key} {u v : ν} (h : t.get (key v) = some u)
    (p : ν → Bool) :
    (t.insert v).rows.countP p + (if p u then 1 else 0) =
      t.rows.countP p + (if p v then 1 else 0) := by
  have := countP_insert t v p
  simpa [h] using this

/-- Replacing a row by one that agrees with it on `p` leaves the count. -/
theorem countP_insert_of_agree {t : Table key} {u v : ν} (h : t.get (key v) = some u)
    {p : ν → Bool} (hp : p v = p u) : (t.insert v).rows.countP p = t.rows.countP p := by
  have := countP_insert_of_get_some h p
  rw [hp] at this
  omega

/-! ## Building a table -/

/-- The rows stored one after another. -/
def ofRows (rows : List ν) : Table key := rows.foldl insert empty

theorem get_foldl_insert {l : List ν} (hl : l.Pairwise (fun a b => key a < key b)) (t : Table key)
    (k : κ) : (l.foldl insert t).get k = (l.find? (fun v => key v = k)).or (t.get k) := by
  induction l generalizing t with
  | nil => rfl
  | cons v l ih =>
    rw [List.foldl_cons, ih (List.pairwise_cons.1 hl).2, get_insert]
    by_cases hk : k = key v
    · have hnone : l.find? (fun u => key u = k) = none := by
        apply List.find?_eq_none.2
        intro u hu hkey
        have hlt := (List.pairwise_cons.1 hl).1 u hu
        rw [of_decide_eq_true hkey, hk] at hlt
        exact lt_irrefl _ hlt
      rw [hnone, if_pos hk, List.find?_cons_of_pos (by simp [hk])]
      rfl
    · rw [if_neg hk, List.find?_cons_of_neg (by simp [Ne.symm hk])]

/-- A table is built again from its own rows. -/
@[simp] theorem ofRows_rows (t : Table key) : ofRows t.rows = t := by
  apply ext_get
  intro k
  rw [ofRows, get_foldl_insert t.sorted]
  exact Option.or_none

end Table

end Library
