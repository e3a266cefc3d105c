import Mathlib.Data.List.Basic
import Mathlib.Data.List.Induction
import Mathlib.Order.Defs.LinearOrder
import Mathlib.Order.Lattice

/-!
# Marked tokens

A token is a run of word symbols right after a mark that no word symbol precedes.  Where the
tokens of a text stand does not depend on how the text is gone through, and neither does the
list of the values met first.
-/

namespace Library

/-! ## Values in the order they are met first -/

section Firsts

variable {β : Type*} [DecidableEq β]

def addNew (out : List β) (b : β) : List β := if b ∈ out then out else out ++ [b]

theorem mem_addNew {out : List β} {b x : β} : x ∈ addNew out b ↔ x ∈ out ∨ x = b := by
  unfold addNew
  split
  next h => exact ⟨.inl, fun hx => hx.elim id (fun hx => hx ▸ h)⟩
  next => simp

theorem nodup_addNew {out : List β} {b : β} (h : out.Nodup) : (addNew out b).Nodup := by
  unfold addNew
  split
  next => exact h
  next hb =>
    refine List.nodup_append.2 ⟨h, List.pairwise_singleton _ b, fun x hx y hy => ?_⟩
    rw [List.mem_singleton.1 hy]
    rintro rfl
    exact hb hx

theorem mem_foldl_addNew {out l : List β} {x : β} :
    x ∈ l.foldl addNew out ↔ x ∈ out ∨ x ∈ l := by
  induction l generalizing out with
  | nil => simp
  | cons b l ih => rw [List.foldl_cons, ih, mem_addNew, List.mem_cons, or_assoc]

theorem nodup_foldl_addNew {out l : List β} (h : out.Nodup) : (l.foldl addNew out).Nodup := by
  induction l generalizing out with
  | nil => exact h
  | cons b l ih => exact ih (nodup_addNew h)

/-- Of two values of an ascending list the one that stands first is met before every place of
the other. -/
theorem pairwise_foldl_addNew {ι : Type*} [LinearOrder ι] {l : List (ι × β)}
    (h : l.Pairwise (fun p q => p.1 < q.1)) :
    ((l.map Prod.snd).foldl addNew []).Pairwise
      (fun x y => ∃ i, (i, x) ∈ l ∧ ∀ j, (j, y) ∈ l → i < j) := by
  induction l using List.reverseRecOn with
  | nil => exact List.Pairwise.nil
  | append_singleton l p ih =>
    obtain ⟨k, b⟩ := p
    obtain ⟨hl, -, hlast⟩ := List.pairwise_append.1 h
    have hbefore : ∀ i x, (i, x) ∈ l → i < k := fun i x hx => hlast _ hx _ List.mem_cons_self
    have hold := ih hl
    have hmem : ∀ x, x ∈ (l.map Prod.snd).foldl addNew [] ↔ ∃ i, (i, x) ∈ l := by
      intro x
      rw [mem_foldl_addNew, List.mem_map]
      simp
    rw [List.map_append, List.foldl_append]
    show (addNew ((l.map Prod.snd).foldl addNew []) b).Pairwise _
    -- The new entry is after every place of the list.
    have hkept : ((l.map Prod.snd).foldl addNew []).Pairwise
        (fun x y => ∃ i, (i, x) ∈ l ++ [(k, b)] ∧ ∀ j, (j, y) ∈ l ++ [(k, b)] → i < j) := by
      refine hold.imp ?_
      rintro x y ⟨i, hx, hy⟩
      refine ⟨i, List.mem_append_left _ hx, fun j hj => ?_⟩
      rcases List.mem_append.1 hj with hj | hj
      · exact hy j hj
      · obtain rfl : j = k := (Prod.mk.inj (List.mem_singleton.1 hj)).1
        exact hbefore i x hx
    unfold addNew
    split
    next => exact hkept
    next hb =>
      refine List.pairwise_append.2 ⟨hkept, List.pairwise_singleton _ _, fun x hx y hy => ?_⟩
      obtain rfl := List.mem_singleton.1 hy
      obtain ⟨i, hi⟩ := (hmem x).1 hx
      refine ⟨i, List.mem_append_left _ hi, fun j hj => ?_⟩
      rcases List.mem_append.1 hj with hj | hj
      · exact absurd ((hmem y).2 ⟨j, hj⟩) hb
      · obtain rfl : j = k := (Prod.mk.inj (List.mem_singleton.1 hj)).1
        exact hbefore i x hi

end Firsts

/-! ## Tokens -/

section Tokens

variable {α : Type*} (mark word : α → Bool)

/-- The token stands in the text after a mark, with no word symbol before the mark or after the
token; `afterWord` says so of what precedes the text. -/
structure TokenAt (afterWord : Bool) (text pre token post : List α) : Prop where
  split : ∃ m, mark m = true ∧ text = pre ++ m :: (token ++ post)
  before : (pre.getLast?.map word).getD afterWord = false
  nonempty : token ≠ []
  letters : ∀ c ∈ token, word c = true
  maximal : ∀ c ∈ post.head?, word c = false

/-- The tokens of a text with their places, counted from `pos`. -/
def spans (afterWord : Bool) (pos : Nat) : List α → List (Nat × List α)
  | [] => []
  | c :: cs =>
    if mark c = true ∧ afterWord = false ∧ cs.takeWhile word ≠ [] then
      (pos, cs.takeWhile word) :: spans (word c) (pos + 1) cs
    else
      spans (word c) (pos + 1) cs

variable {mark word} {afterWord : Bool} {pos : Nat} {text pre token post : List α}

/-- A run of word symbols that no word symbol follows is what `takeWhile` takes. -/
theorem takeWhile_run (h : ∀ c ∈ token, word c = true) (hpost : ∀ c ∈ post.head?, word c = false) :
    (token ++ post).takeWhile word = token := by
  rw [List.takeWhile_append_of_pos h]
  cases post with
  | nil => simp
  | cons c cs => simp [hpost c rfl]

theorem tokenAt_takeWhile {c : α} {cs : List α} (hmark : mark c = true)
    (hafter : afterWord = false) (hne : cs.takeWhile word ≠ []) :
    TokenAt mark word afterWord (c :: cs) [] (cs.takeWhile word) (cs.dropWhile word) where
  split := ⟨c, hmark, by rw [List.takeWhile_append_dropWhile, List.nil_append]⟩
  before := hafter
  nonempty := hne
  letters := List.all_eq_true.1 List.all_takeWhile
  maximal := by
    intro d hd
    have hstop := List.head?_dropWhile_not word cs
    rw [Option.mem_def.1 hd] at hstop
    simpa using hstop

theorem getLast?_cons_map (c : α) (pre : List α) (b : Bool) :
    (((c :: pre).getLast?).map word).getD b = (pre.getLast?.map word).getD (word c) := by
  rw [List.getLast?_cons]
  cases pre.getLast? <;> rfl

theorem tokenAt_cons_cons {c d : α} {cs : List α} :
    TokenAt mark word afterWord (c :: cs) (d :: pre) token post ↔
      d = c ∧ TokenAt mark word (word c) cs pre token post := by
  constructor
  · intro h
    obtain ⟨m, hm, htext⟩ := h.split
    obtain ⟨rfl, hcs⟩ := List.cons.inj htext
    have hbefore := h.before
    rw [getLast?_cons_map] at hbefore
    exact ⟨rfl, ⟨m, hm, hcs⟩, hbefore, h.nonempty, h.letters, h.maximal⟩
  · rintro ⟨rfl, h⟩
    obtain ⟨m, hm, htext⟩ := h.split
    refine ⟨⟨m, hm, by rw [htext, List.cons_append]⟩, ?_, h.nonempty, h.letters, h.maximal⟩
    rw [getLast?_cons_map]
    exact h.before

theorem tokenAt_cons_nil {c : α} {cs : List α} :
    TokenAt mark word afterWord (c :: cs) [] token post ↔
      mark c = true ∧ afterWord = false ∧ token ≠ [] ∧ token = cs.takeWhile word ∧
        post = cs.dropWhile word := by
  constructor
  · intro h
    obtain ⟨m, hm, htext⟩ := h.split
    obtain ⟨rfl, rfl⟩ := List.cons.inj htext
    have htake := takeWhile_run h.letters h.maximal
    refine ⟨hm, h.before, h.nonempty, htake.symm, ?_⟩
    have hsplit := List.takeWhile_append_dropWhile (p := word) (l := token ++ post)
    rw [htake] at hsplit
    exact (List.append_cancel_left hsplit).symm
  · rintro ⟨hm, hafter, hne, rfl, rfl⟩
    exact tokenAt_takeWhile hm hafter hne

/-- All tokens are listed, each at its place. -/
theorem mem_spans {k : Nat} : (k, token) ∈ spans mark word afterWord pos text ↔
    ∃ pre post, TokenAt mark word afterWord text pre token post ∧ k = pos + pre.length := by
  induction text generalizing afterWord pos with
  | nil =>
    constructor
    · intro h
      cases h
    · rintro ⟨pre, post, h, -⟩
      obtain ⟨m, -, htext⟩ := h.split
      cases pre <;> cases htext
  | cons c cs ih =>
    have hcons : (∃ pre post, TokenAt mark word afterWord (c :: cs) pre token post ∧
        k = pos + pre.length) ↔
        (mark c = true ∧ afterWord = false ∧ token ≠ [] ∧ token = cs.takeWhile word ∧ k = pos) ∨
          ∃ pre post, TokenAt mark word (word c) cs pre token post ∧
            k = pos + 1 + pre.length := by
      constructor
      · rintro ⟨pre, post, h, hk⟩
        cases pre with
        | nil =>
          obtain ⟨hm, hafter, hne, htoken, -⟩ := tokenAt_cons_nil.1 h
          exact .inl ⟨hm, hafter, hne, htoken, hk⟩
        | cons d pre =>
          rw [List.length_cons] at hk
          exact .inr ⟨pre, post, (tokenAt_cons_cons.1 h).2, by omega⟩
      · rintro (⟨hm, hafter, hne, htoken, hk⟩ | ⟨pre, post, h, hk⟩)
        · exact ⟨[], _, tokenAt_cons_nil.2 ⟨hm, hafter, hne, htoken, rfl⟩, hk⟩
        · refine ⟨c :: pre, post, tokenAt_cons_cons.2 ⟨rfl, h⟩, ?_⟩
          rw [List.length_cons]
          omega
    rw [hcons, spans, ← ih]
    split
    next h =>
      obtain ⟨hm, hafter, hne⟩ := h
      rw [List.mem_cons, Prod.mk.injEq]
      refine or_congr_left ⟨?_, ?_⟩
      · rintro ⟨rfl, rfl⟩
        exact ⟨hm, hafter, hne, rfl, rfl⟩
      · rintro ⟨-, -, -, rfl, rfl⟩
        exact ⟨rfl, rfl⟩
    next h =>
      refine (or_iff_right ?_).symm
      rintro ⟨hm, hafter, hne, rfl, -⟩
      exact h ⟨hm, hafter, hne⟩

theorem pos_le_of_mem_spans {p : Nat × List α} (h : p ∈ spans mark word afterWord pos text) :
    pos ≤ p.1 := by
  obtain ⟨pre, post, -, hk⟩ := mem_spans.1 h
  omega

/-- They are listed from left to right. -/
theorem pairwise_spans : (spans mark word afterWord pos text).Pairwise (fun p q => p.1 < q.1) := by
  induction text generalizing afterWord pos with
  | nil => exact List.Pairwise.nil
  | cons c cs ih =>
    rw [spans]
    split
    next => exact List.pairwise_cons.2 ⟨fun p hp => pos_le_of_mem_spans hp, ih⟩
    next => exact ih

theorem spans_eq_nil (h : ∀ c ∈ text, mark c = false) :
    spans mark word afterWord pos text = [] := by
  induction text generalizing afterWord pos with
  | nil => rfl
  | cons c cs ih =>
    obtain ⟨hc, hcs⟩ := List.forall_mem_cons.1 h
    rw [spans, if_neg (by simp [hc]), ih hcs]

/-- Among symbols that are neither marks nor of words nothing is listed. -/
theorem spans_append_of_neither {run rest : List α}
    (hrun : ∀ c ∈ run, mark c = false ∧ word c = false) (hne : run ≠ []) :
    spans mark word afterWord pos (run ++ rest) =
      spans mark word false (pos + run.length) rest := by
  induction run generalizing afterWord pos with
  | nil => exact absurd rfl hne
  | cons c run ih =>
    obtain ⟨⟨hmark, hword⟩, hrest⟩ := List.forall_mem_cons.1 hrun
    rw [List.cons_append, spans, if_neg (by simp [hmark]), hword, List.length_cons]
    by_cases h : run = []
    · simp [h]
    · rw [ih hrest h, Nat.add_assoc, Nat.add_comm 1]

end Tokens

end Library
