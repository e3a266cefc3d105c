import Mathlib.Data.Fintype.Card
import Mathlib.Data.Set.Finite.List
import Mathlib.Logic.Relation
import Mathlib.Algebra.Ring.Nat

/-!
# Forests grown from a table of children

Nodes with a list of subtrees, and the recursion that makes a forest from a table that
lists the children under each key.  The recursion has no measure of its own: it ends when
the relation between a value and the values above it has no cycle.
-/

namespace Library

/-- A relation without cycles between finitely many values is well-founded. -/
theorem wellFounded_of_acyclic {α : Type*} {r : α → α → Prop} {l : List α}
    (hl : ∀ a b, r a b → a ∈ l) (h : ∀ a, ¬ Relation.TransGen r a a) : WellFounded r := by
  have hfinite : Finite {a // a ∈ l} := (List.finite_toSet l).to_subtype
  have hirrefl : Std.Irrefl (fun a b : {a // a ∈ l} => Relation.TransGen r a b) :=
    ⟨fun a => h a⟩
  have htrans : IsTrans {a // a ∈ l} (fun a b => Relation.TransGen r a b) :=
    ⟨fun _ _ _ => Relation.TransGen.trans⟩
  have hwf := Finite.wellFounded_of_trans_of_irrefl
    (fun a b : {a // a ∈ l} => Relation.TransGen r a b)
  have hacc : ∀ a : {a // a ∈ l}, Acc r a.1 := by
    intro a
    induction a using hwf.induction with
    | h a ih => exact ⟨_, fun b hb => ih ⟨b, hl b a hb⟩ (.single hb)⟩
  exact ⟨fun a => ⟨_, fun b hb => hacc ⟨b, hl b a hb⟩⟩⟩

/-- A value with the trees below it. -/
inductive Rose (α : Type*) where
  | node (value : α) (children : List (Rose α))

namespace Rose

variable {α κ : Type*}

def value : Rose α → α
  | node v _ => v

def children : Rose α → List (Rose α)
  | node _ ts => ts

mutual

/-- The tree and those inside it, each before those below it. -/
def subtrees : Rose α → List (Rose α)
  | node v ts => node v ts :: nodes ts

/-- All nodes of a forest. -/
def nodes : List (Rose α) → List (Rose α)
  | [] => []
  | t :: forest => t.subtrees ++ nodes forest

end

def flatten (forest : List (Rose α)) : List α := (nodes forest).map value

@[simp] theorem value_node (v : α) (ts : List (Rose α)) : (node v ts).value = v := rfl

@[simp] theorem children_node (v : α) (ts : List (Rose α)) : (node v ts).children = ts := rfl

@[simp] theorem nodes_nil : nodes ([] : List (Rose α)) = [] := rfl

theorem nodes_cons (v : α) (ts forest : List (Rose α)) :
    nodes (node v ts :: forest) = node v ts :: (nodes ts ++ nodes forest) := rfl

theorem forest_induction {P : List (Rose α) → Prop} (hnil : P [])
    (hcons : ∀ v ts forest, P ts → P forest → P (node v ts :: forest)) : ∀ forest, P forest
  | [] => hnil
  | node v ts :: forest =>
    hcons v ts forest (forest_induction hnil hcons ts) (forest_induction hnil hcons forest)

/-- A node stands at the top or below a node at the top. -/
theorem mem_nodes {forest : List (Rose α)} {t : Rose α} :
    t ∈ nodes forest ↔ ∃ s ∈ forest, t = s ∨ t ∈ nodes s.children := by
  induction forest with
  | nil => simp
  | cons s forest ih =>
    obtain ⟨v, ts⟩ := s
    rw [nodes_cons, List.mem_cons, List.mem_append, ih, List.exists_mem_cons_iff, or_assoc]
    rfl

/-- What stands in a forest stands at the top or right below one of its nodes. -/
theorem count_flatten [DecidableEq α] (a : α) (forest : List (Rose α)) :
    (flatten forest).count a = (forest.map value).count a +
      ((nodes forest).map (fun t => (t.children.map value).count a)).sum := by
  induction forest using forest_induction with
  | hnil => rfl
  | hcons v ts forest ihts ihforest =>
    rw [flatten] at ihts ihforest
    simp only [flatten, nodes_cons, List.map_cons, List.map_append, List.count_cons, List.count_append,
      List.sum_cons, List.sum_append, value_node, children_node, ihts, ihforest]
    omega

end Rose

/-! ## Growing -/

section Grow

open Rose

variable {α κ : Type*} (key : α → κ) (kids : Option κ → List α)

/-- The forest below a key; a recursion that is deeper than `depth` gives up. -/
def grow : Nat → Option κ → Option (List (Rose α))
  | 0, _ => none
  | depth + 1, parent =>
    (kids parent).mapM (fun v => (grow depth (some (key v))).map (Rose.node v))

/-- Every level of the forest is the list of the children of what is above it. -/
inductive Grows : Option κ → List (Rose α) → Prop
  | intro {parent : Option κ} {forest : List (Rose α)} :
      forest.map value = kids parent →
      (∀ t ∈ forest, Grows (some (key t.value)) t.children) → Grows parent forest

variable {key kids} {parent : Option κ} {forest : List (Rose α)}

theorem Grows.values (h : Grows key kids parent forest) : forest.map value = kids parent := by
  cases h with
  | intro hvalues _ => exact hvalues

theorem Grows.children_of_mem (h : Grows key kids parent forest) :
    ∀ t ∈ nodes forest, t.children.map value = kids (some (key t.value)) := by
  induction h with
  | intro hvalues hbelow ih =>
    intro t ht
    obtain ⟨s, hs, rfl | ht⟩ := mem_nodes.1 ht
    · exact (hbelow t hs).values
    · exact ih s hs t ht

/-- What stands in the forest is listed under some key. -/
theorem Grows.exists_mem_kids (h : Grows key kids parent forest) {v : α} (hv : v ∈ flatten forest) :
    ∃ k, v ∈ kids k := by
  obtain ⟨t, ht, rfl⟩ := List.mem_map.1 hv
  clear hv
  induction h with
  | @intro parent forest hvalues hbelow ih =>
    obtain ⟨s, hs, rfl | ht⟩ := mem_nodes.1 ht
    · exact ⟨parent, hvalues ▸ List.mem_map_of_mem hs⟩
    · exact ih s hs ht

theorem Grows.count_flatten [DecidableEq α] (h : Grows key kids parent forest) (a : α) :
    (flatten forest).count a = (kids parent).count a +
      ((flatten forest).map (fun v => (kids (some (key v))).count a)).sum := by
  have hlevels : (nodes forest).map (fun t => (t.children.map value).count a) =
      (flatten forest).map (fun v => (kids (some (key v))).count a) := by
    rw [flatten, List.map_map]
    refine List.map_congr_left (fun t ht => ?_)
    rw [h.children_of_mem t ht]
    rfl
  rw [Rose.count_flatten, h.values, hlevels]

theorem exists_grow_of_forall (h : ∀ v ∈ kids parent, ∃ depth forest,
      Grows key kids (some (key v)) forest ∧
        ∀ d, depth ≤ d → grow key kids d (some (key v)) = some forest) :
    ∃ depth forest, Grows key kids parent forest ∧
      ∀ d, depth ≤ d → grow key kids d parent = some forest := by
  -- One depth for all the children.
  have hlevel : ∀ vs : List α, (∀ v ∈ vs, v ∈ kids parent) → ∃ depth forest,
      forest.map value = vs ∧ (∀ t ∈ forest, Grows key kids (some (key t.value)) t.children) ∧
        ∀ d, depth ≤ d →
          vs.mapM (fun v => (grow key kids d (some (key v))).map (Rose.node v)) = some forest := by
    intro vs hvs
    induction vs with
    | nil => exact ⟨0, [], rfl, List.forall_mem_nil _, fun _ _ => rfl⟩
    | cons v vs ih =>
      obtain ⟨hv, hvs⟩ := List.forall_mem_cons.1 hvs
      obtain ⟨m, ts, hts, hgrow⟩ := h v hv
      obtain ⟨n, forest, hvalues, hforest, hmapM⟩ := ih hvs
      refine ⟨max m n, Rose.node v ts :: forest, ?_, ?_, fun d hd => ?_⟩
      · rw [List.map_cons, hvalues, value_node]
      · exact List.forall_mem_cons.2 ⟨hts, hforest⟩
      · rw [List.mapM_cons, hgrow d (le_trans (le_max_left m n) hd),
          hmapM d (le_trans (le_max_right m n) hd)]
        rfl
  obtain ⟨depth, forest, hvalues, hforest, hmapM⟩ := hlevel (kids parent) (fun _ hv => hv)
  refine ⟨depth + 1, forest, .intro hvalues hforest, fun d hd => ?_⟩
  obtain ⟨d, rfl⟩ := Nat.exists_eq_add_of_le' hd
  exact hmapM (d + depth) (Nat.le_add_left depth d)

/-- The recursion ends below every key when no value that is listed is above itself. -/
theorem exists_grow
    (hwf : WellFounded (fun child v : α => child ∈ kids (some (key v)) ∧ ∃ k, v ∈ kids k))
    (parent : Option κ) :
    ∃ depth forest, Grows key kids parent forest ∧
      ∀ d, depth ≤ d → grow key kids d parent = some forest := by
  have hbelow : ∀ v, (∃ k, v ∈ kids k) → ∃ depth forest, Grows key kids (some (key v)) forest ∧
      ∀ d, depth ≤ d → grow key kids d (some (key v)) = some forest := by
    intro v
    induction v using hwf.induction with
    | h v ih =>
      intro hlisted
      exact exists_grow_of_forall (fun child hchild => ih child ⟨hchild, hlisted⟩ ⟨_, hchild⟩)
  exact exists_grow_of_forall (fun v hv => hbelow v ⟨parent, hv⟩)

end Grow

/-! ## Completeness -/

section Complete

open Rose

variable {α κ : Type*} [DecidableEq α] [DecidableEq κ] {key : α → κ} {kids : Option κ → List α}
  {up : α → Option κ} {l : List α} {forest : List (Rose α)}

omit [DecidableEq κ] in
theorem sum_map_ite_eq (l : List α) (a : α) :
    (l.map (fun u => if u = a then 1 else 0)).sum = l.count a := by
  induction l with
  | nil => rfl
  | cons u l ih =>
    rw [List.map_cons, List.sum_cons, ih, List.count_cons]
    by_cases h : u = a
    · simp [h, Nat.add_comm]
    · simp [h]

/-- Each of the values is listed once, under the key of the value above it. -/
structure Filed (key : α → κ) (up : α → Option κ) (l : List α) (kids : Option κ → List α) :
    Prop where
  perm : ∀ k, (kids k).Perm (l.filter (fun v => up v = k))
  above : ∀ v ∈ l, ∀ k, up v = some k → ∃ p ∈ l, key p = k
  nodup : (l.map key).Nodup

theorem Filed.count (h : Filed key up l kids) (k : Option κ) (a : α) :
    (kids k).count a = if up a = k then l.count a else 0 := by
  rw [(h.perm k).count_eq]
  split
  next hup => exact List.count_filter (by simpa using hup)
  next hup => exact List.count_eq_zero.2 (fun ha => hup (by simpa using (List.mem_filter.1 ha).2))

/-- The whole forest has each of the values once. -/
theorem Filed.flatten_perm (h : Filed key up l kids)
    (hwf : WellFounded (fun p v : α => p ∈ l ∧ v ∈ l ∧ up v = some (key p)))
    (hforest : Grows key kids none forest) : (flatten forest).Perm l := by
  have hsub : ∀ v ∈ flatten forest, v ∈ l := by
    intro v hv
    obtain ⟨k, hk⟩ := hforest.exists_mem_kids hv
    exact (List.mem_filter.1 ((h.perm k).subset hk)).1
  have hnodup : l.Nodup := h.nodup.of_map
  -- A value stands as often as what is above it.
  have honce : ∀ v, v ∈ l → (flatten forest).count v = 1 := by
    intro v
    induction v using hwf.induction with
    | h v ih =>
      intro hv
      have hone : l.count v = 1 := List.count_eq_one_of_mem hnodup hv
      rw [hforest.count_flatten]
      simp only [h.count, hone]
      cases hup : up v with
      | none => simp
      | some k =>
        obtain ⟨p, hp, rfl⟩ := h.above v hv k hup
        have hindicator : (flatten forest).map (fun u => if some (key p) = some (key u) then 1 else 0) =
            (flatten forest).map (fun u => if u = p then 1 else 0) := by
          refine List.map_congr_left (fun u hu => ?_)
          have hinj := List.inj_on_of_nodup_map h.nodup (hsub u hu) hp
          by_cases hup : u = p
          · rw [hup, if_pos rfl, if_pos rfl]
          · rw [if_neg hup, if_neg (fun heq => hup (hinj (Option.some.inj heq).symm))]
        have hcount := ih p ⟨hp, hv, hup⟩ hp
        rw [hindicator, sum_map_ite_eq, hcount]
        simp
  rw [List.perm_iff_count]
  intro v
  by_cases hv : v ∈ l
  · rw [honce v hv, List.count_eq_one_of_mem hnodup hv]
  · rw [List.count_eq_zero.2 hv, List.count_eq_zero.2 (fun hmem => hv (hsub v hmem))]

end Complete

end Library
