import Democrachat.Library.Ranking

/-!
# The ranking of custom emojis

`domain/src/emoji_ranking`, and which standing the place in the order of the scores gives.
-/

namespace Democrachat

open Library

def activeEmojiSlots : Nat := 128

def consideredEmojiSlots : Nat := 128

inductive EmojiStanding where
  | active
  | considered
  | archived
deriving DecidableEq

namespace EmojiStanding

def isActive : EmojiStanding → Bool
  | active => true
  | _ => false

def isListed : EmojiStanding → Bool
  | active | considered => true
  | archived => false

/-- The standing that goes with a rank. -/
def ofRank (rank : Nat) : EmojiStanding :=
  if rank < activeEmojiSlots then active
  else if rank < activeEmojiSlots + consideredEmojiSlots then considered
  else archived

/-- The best standing has the lowest tier. -/
def tier : EmojiStanding → Nat
  | active => 0
  | considered => 1
  | archived => 2

theorem ofRank_eq_active {rank : Nat} : ofRank rank = active ↔ rank < 128 := by
  unfold ofRank activeEmojiSlots consideredEmojiSlots
  split
  next h => simp [h]
  next h => split <;> simp [h]

theorem ofRank_eq_considered {rank : Nat} :
    ofRank rank = considered ↔ 128 ≤ rank ∧ rank < 256 := by
  unfold ofRank activeEmojiSlots consideredEmojiSlots
  split
  next h =>
    have hlow : ¬ 128 ≤ rank := by omega
    simp [hlow]
  next h =>
    split
    next h' =>
      have hmid : 128 ≤ rank ∧ rank < 256 := by omega
      simp [hmid]
    next h' =>
      have hhigh : ¬ rank < 256 := by omega
      simp [hhigh]

theorem ofRank_eq_archived {rank : Nat} : ofRank rank = archived ↔ 256 ≤ rank := by
  unfold ofRank activeEmojiSlots consideredEmojiSlots
  split
  next h =>
    have hlow : ¬ 256 ≤ rank := by omega
    simp [hlow]
  next h =>
    split
    next h' =>
      have hmid : ¬ 256 ≤ rank := by omega
      simp [hmid]
    next h' =>
      have hhigh : 256 ≤ rank := by omega
      simp [hhigh]

/-- A lower rank has no worse a standing. -/
theorem tier_ofRank_le {r r' : Nat} (h : r ≤ r') : (ofRank r).tier ≤ (ofRank r').tier := by
  unfold ofRank activeEmojiSlots consideredEmojiSlots
  by_cases hactive : r < 128
  · rw [if_pos hactive]
    exact Nat.zero_le _
  · rw [if_neg hactive, if_neg (show ¬ r' < 128 by omega)]
    by_cases hconsidered : r < 128 + 128
    · rw [if_pos hconsidered]
      split <;> decide
    · exact Nat.le_of_eq (by rw [if_neg hconsidered, if_neg (show ¬ r' < 128 + 128 by omega)])

theorem isListed_iff (s : EmojiStanding) : s.isListed = true ↔ s ≠ archived := by
  cases s <;> decide

end EmojiStanding

/-- The indices by score, the highest first. -/
def rankedIndices (scores : List Int) : List Nat :=
  (List.range scores.length).mergeSort
    (fun a b => decide (scores.getD b 0 ≤ scores.getD a 0))

def rankEmojis (scores : List Int) : List EmojiStanding :=
  (rankedIndices scores).zipIdx.foldl
    (fun standings (p : Nat × Nat) => standings.set p.1 (.ofRank p.2))
    (List.replicate scores.length .archived)

/-! ## Who outranks whom -/

/-- A higher score, or the same one and an older emoji. -/
def Outranks (scores : List Int) (i j : Nat) : Prop :=
  scores.getD j 0 < scores.getD i 0 ∨ (scores.getD i 0 = scores.getD j 0 ∧ i < j)

instance (scores : List Int) : DecidableRel (Outranks scores) := fun _ _ =>
  inferInstanceAs (Decidable (_ ∨ _))

/-- How many indices outrank this one. -/
def emojiRank (scores : List Int) (i : Nat) : Nat :=
  rank (Outranks scores) (List.range scores.length) i

section Ranks

variable {scores : List Int} {i j : Nat}

theorem Outranks.asymm (h : Outranks scores i j) : ¬ Outranks scores j i := by
  unfold Outranks at *
  omega

theorem Outranks.trans {k : Nat} (h : Outranks scores i j) (h' : Outranks scores j k) :
    Outranks scores i k := by
  unfold Outranks at *
  omega

theorem perm_rankedIndices (scores : List Int) :
    (rankedIndices scores).Perm (List.range scores.length) :=
  List.mergeSort_perm _ _

theorem pairwise_rankedIndices (scores : List Int) :
    (rankedIndices scores).Pairwise (Outranks scores) := by
  have hsorted := pairwise_mergeSort_range
    (fun a b => decide (scores.getD b 0 ≤ scores.getD a 0))
    (by
      intro a b c hab hbc
      simp only [decide_eq_true_eq] at hab hbc ⊢
      omega)
    (by
      intro a b
      simp only [Bool.or_eq_true, decide_eq_true_eq]
      omega)
    scores.length
  refine hsorted.imp (fun {a b} h => ?_)
  obtain ⟨hle, htie⟩ := h
  simp only [decide_eq_true_eq] at hle htie
  unfold Outranks
  by_cases heq : scores.getD a 0 = scores.getD b 0
  · exact .inr ⟨heq, htie (by omega)⟩
  · exact .inl (by omega)

theorem length_rankEmojis (scores : List Int) : (rankEmojis scores).length = scores.length := by
  rw [rankEmojis, length_foldl_set, List.length_replicate]

/-- Every index gets the standing of its own rank. -/
theorem getElem?_rankEmojis (hi : i < scores.length) :
    (rankEmojis scores)[i]? = some (.ofRank (emojiRank scores i)) := by
  have hperm := perm_rankedIndices scores
  obtain ⟨k, hk, rfl⟩ := List.getElem_of_mem (hperm.mem_iff.2 (List.mem_range.2 hi))
  have hrank : emojiRank scores (rankedIndices scores)[k] = k := by
    rw [emojiRank, ← rank_eq_of_perm hperm]
    exact rank_getElem (fun _ _ h => h.asymm) (pairwise_rankedIndices scores) hk
  rw [hrank]
  refine getElem?_foldl_set EmojiStanding.ofRank ?_ ?_ ?_
  · rw [List.zipIdx_map_fst]
    exact hperm.nodup_iff.2 List.nodup_range
  · rwa [List.length_replicate]
  · exact List.mem_zipIdx_iff_getElem?.2 (List.getElem?_eq_getElem hk)

/-- So many places of the first ones lie between two bounds. -/
theorem countP_range_between (a b n : Nat) :
    (List.range n).countP (fun k => decide (a ≤ k ∧ k < b)) = min b n - a := by
  induction n with
  | zero => simp
  | succ n ih =>
    rw [List.range_succ, List.countP_append, ih, List.countP_singleton]
    by_cases h : a ≤ n ∧ n < b
    · rw [if_pos (decide_eq_true h)]
      omega
    · rw [if_neg (by simpa using h)]
      omega

theorem rankEmojis_eq (scores : List Int) :
    rankEmojis scores =
      (List.range scores.length).map (fun i => .ofRank (emojiRank scores i)) := by
  refine List.ext_getElem? (fun i => ?_)
  by_cases hi : i < scores.length
  · rw [getElem?_rankEmojis hi, List.getElem?_map, List.getElem?_range hi, Option.map_some]
  · have hlen := length_rankEmojis scores
    rw [List.getElem?_eq_none (by omega), List.getElem?_eq_none (by simp; omega)]

/-- So many emojis have a standing as there are ranks for it. -/
theorem count_rankEmojis {standing : EmojiStanding} {a b : Nat}
    (h : ∀ rank, EmojiStanding.ofRank rank = standing ↔ a ≤ rank ∧ rank < b) :
    (rankEmojis scores).count standing = min b scores.length - a := by
  have hperm := perm_rankedIndices scores
  have hcount := countP_rank (fun _ _ (h : Outranks scores _ _) => h.asymm) hperm
    (pairwise_rankedIndices scores) (fun rank => decide (a ≤ rank ∧ rank < b))
  rw [List.length_range, countP_range_between] at hcount
  rw [← hcount, rankEmojis_eq, List.count, List.countP_map]
  refine List.countP_congr (fun i _ => ?_)
  rw [Function.comp_apply, beq_iff_eq, decide_eq_true_eq, h]
  exact Iff.rfl

end Ranks

/-! ## What a ranking promises -/

/-- The first indices in the order of the scores are active, the next ones considered and the
rest archived. -/
structure RankedBy (scores : List Int) (standings : List EmojiStanding) : Prop where
  length : standings.length = scores.length
  active : ∀ i, standings[i]? = some .active ↔
    i < scores.length ∧ emojiRank scores i < activeEmojiSlots
  considered : ∀ i, standings[i]? = some .considered ↔
    i < scores.length ∧ activeEmojiSlots ≤ emojiRank scores i ∧
      emojiRank scores i < activeEmojiSlots + consideredEmojiSlots
  archived : ∀ i, standings[i]? = some .archived ↔
    i < scores.length ∧ activeEmojiSlots + consideredEmojiSlots ≤ emojiRank scores i
  actives : standings.count .active = min activeEmojiSlots scores.length
  candidates : standings.count .considered =
    min consideredEmojiSlots (scores.length - activeEmojiSlots)
  ordered : ∀ i j a b, standings[i]? = some a → standings[j]? = some b → Outranks scores i j →
    a.tier ≤ b.tier

theorem rankedBy_rankEmojis (scores : List Int) : RankedBy scores (rankEmojis scores) := by
  have hstanding : ∀ i standing, (rankEmojis scores)[i]? = some standing ↔
      i < scores.length ∧ EmojiStanding.ofRank (emojiRank scores i) = standing := by
    intro i standing
    by_cases hi : i < scores.length
    · rw [getElem?_rankEmojis hi, Option.some.injEq]
      exact ⟨fun h => ⟨hi, h⟩, fun h => h.2⟩
    · have hlen := length_rankEmojis scores
      rw [List.getElem?_eq_none (by omega)]
      exact ⟨nofun, fun h => absurd h.1 hi⟩
  constructor
  · exact length_rankEmojis scores
  · intro i
    rw [hstanding, EmojiStanding.ofRank_eq_active]
    exact Iff.rfl
  · intro i
    rw [hstanding, EmojiStanding.ofRank_eq_considered]
    exact Iff.rfl
  · intro i
    rw [hstanding, EmojiStanding.ofRank_eq_archived]
    exact Iff.rfl
  · rw [count_rankEmojis (a := 0) (b := 128) (fun rank => by
      rw [EmojiStanding.ofRank_eq_active]
      omega)]
    exact Nat.sub_zero _
  · rw [count_rankEmojis (a := 128) (b := 256) (fun rank => EmojiStanding.ofRank_eq_considered)]
    show min 256 scores.length - 128 = min 128 (scores.length - 128)
    omega
  · intro i j a b ha hb h
    obtain ⟨-, rfl⟩ := (hstanding i a).1 ha
    obtain ⟨-, rfl⟩ := (hstanding j b).1 hb
    exact EmojiStanding.tier_ofRank_le (rank_le_rank (fun _ _ _ h h' => h.trans h') h)

end Democrachat
