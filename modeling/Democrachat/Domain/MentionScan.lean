import Democrachat.Domain.Mentions
import Democrachat.Library.Tokens
import Democrachat.Library.Utf8

/-!
# The scan for mentions

`domain/src/chat/parse_mentions.rs` as it is written: over the bytes of the body, by index,
with the tokens cut out of the string.
-/

namespace Democrachat

open Library

namespace Bytes

/-- `str::as_bytes`. -/
def asBytes (body : String) : List UInt8 := Utf8.encode body.toList

def isAsciiAlphanumeric (b : UInt8) : Bool :=
  (48 ≤ b && b ≤ 57) || (65 ≤ b && b ≤ 90) || (97 ≤ b && b ≤ 122)

/-- Underscores and hyphens belong to a word, too. -/
def isWordByte (b : UInt8) : Bool := isAsciiAlphanumeric b || b == 95 || b == 45

def isAt (b : UInt8) : Bool := b == 64

/-- Where the inner loop of `parse_mentions` leaves `j`. -/
def wordEnd (bytes : List UInt8) (j : Nat) : Nat :=
  if h : j < bytes.length then
    if isWordByte bytes[j] then wordEnd bytes (j + 1) else j
  else
    j
termination_by bytes.length - j

/-- `body[start..stop].to_lowercase()` of a slice that is ASCII; `none` stands for the panic
on an offset that is not between two characters. -/
def sliceLowercase (body : String) (start stop : Nat) : Option String :=
  (Utf8.slice body.toList start stop).map (fun cs => String.ofList (toLowerChars cs))

theorem le_wordEnd (bytes : List UInt8) (j : Nat) : j ≤ wordEnd bytes j := by
  fun_induction wordEnd bytes j with
  | case1 j h hword ih => omega
  | case2 j h hword => exact Nat.le_refl j
  | case3 j h => exact Nat.le_refl j

/-- The outer loop. -/
def scan (body : String) (bytes : List UInt8) (i : Nat) (out : List String) :
    Option (List String) :=
  if h : i < bytes.length then
    if isAt bytes[i] then
      let precededOk := i == 0 || !isWordByte bytes[i - 1]
      let start := i + 1
      let j := wordEnd bytes start
      if precededOk && decide (start < j) then
        match sliceLowercase body start j with
        | some token => scan body bytes (max j (i + 1)) (pushNew out token)
        | none => none
      else
        scan body bytes (max j (i + 1)) out
    else
      scan body bytes (i + 1) out
  else
    some out
termination_by bytes.length - i

def parseMentions (body : String) : Option (List String) :=
  scan body (asBytes body) 0 []

/-! ## The grammar -/

/-- A run of word bytes after an `@` that is not preceded by one, as long as it can be. -/
abbrev MentionAt (bytes pre run post : List UInt8) : Prop :=
  TokenAt isAt isWordByte false bytes pre run post

/-- The lowercased text of a run. -/
def lowered (run : List UInt8) : String := String.ofList (toLowerChars (run.map Utf8.byteChar))

/-- The tokens are those of the text, each once, in the order in which they are met first. -/
structure Grammar (bytes : List UInt8) (tokens : List String) : Prop where
  exact : ∀ t, t ∈ tokens ↔ ∃ pre run post, MentionAt bytes pre run post ∧ t = lowered run
  distinct : tokens.Nodup
  ordered : tokens.Pairwise (fun t t' => ∃ pre run post, MentionAt bytes pre run post ∧
    t = lowered run ∧ ∀ pre' run' post', MentionAt bytes pre' run' post' → t' = lowered run' →
      pre.length < pre'.length)

theorem isAscii_of_isWordByte {b : UInt8} (h : isWordByte b = true) : Utf8.IsAscii b := by
  simp only [isWordByte, isAsciiAlphanumeric, Bool.or_eq_true, Bool.and_eq_true,
    decide_eq_true_eq, beq_iff_eq, UInt8.le_iff_toNat_le, ← UInt8.toNat_inj] at h
  show b.toNat < 128
  simp at h
  omega

theorem isAscii_of_isAt {b : UInt8} (h : isAt b = true) : Utf8.IsAscii b := by
  rw [show b = 64 by simpa [isAt] using h]
  show (64 : UInt8).toNat < 128
  decide

theorem isAt_eq_false_of_isWordByte {b : UInt8} (h : isWordByte b = true) : isAt b = false := by
  by_contra hat
  have hb : b = 64 := by simpa [isAt] using hat
  rw [hb] at h
  revert h
  decide

/-- The run that the inner loop goes through. -/
def runAt (bytes : List UInt8) (start : Nat) : List UInt8 := (bytes.drop start).takeWhile isWordByte

theorem wordEnd_eq (bytes : List UInt8) (j : Nat) :
    wordEnd bytes j = j + (runAt bytes j).length := by
  simp only [runAt]
  fun_induction wordEnd bytes j with
  | case1 j h hword ih =>
    rw [ih, List.drop_eq_getElem_cons h, List.takeWhile_cons, if_pos hword, List.length_cons]
    omega
  | case2 j h hword =>
    rw [List.drop_eq_getElem_cons h, List.takeWhile_cons, if_neg hword, List.length_nil,
      Nat.add_zero]
  | case3 j h =>
    rw [List.drop_of_length_le (by omega), List.takeWhile_nil, List.length_nil, Nat.add_zero]

/-- Whether the byte before an index is a word byte. -/
def afterWord (bytes : List UInt8) (i : Nat) : Bool :=
  i != 0 && (bytes[i - 1]?).any isWordByte

/-- What is left to list from an index on. -/
def remaining (bytes : List UInt8) (i : Nat) : List (Nat × List UInt8) :=
  spans isAt isWordByte (afterWord bytes i) i (bytes.drop i)

variable {bytes : List UInt8} {i : Nat}

theorem afterWord_succ (h : i < bytes.length) : afterWord bytes (i + 1) = isWordByte bytes[i] := by
  simp [afterWord, h]

theorem remaining_of_le (h : bytes.length ≤ i) : remaining bytes i = [] := by
  rw [remaining, List.drop_of_length_le h, spans]

theorem remaining_of_not_at (h : i < bytes.length) (hat : isAt bytes[i] = false) :
    remaining bytes i = remaining bytes (i + 1) := by
  rw [remaining, List.drop_eq_getElem_cons h, spans, if_neg (by simp [hat]), remaining,
    afterWord_succ h]

/-- No mention starts in a word. -/
theorem remaining_wordEnd (bytes : List UInt8) (j : Nat) :
    remaining bytes (wordEnd bytes j) = remaining bytes j := by
  fun_induction wordEnd bytes j with
  | case1 j h hword ih =>
    rw [ih, remaining_of_not_at h (isAt_eq_false_of_isWordByte hword)]
  | case2 j h hword => rfl
  | case3 j h => rfl

theorem remaining_of_at (h : i < bytes.length) (hat : isAt bytes[i] = true) :
    remaining bytes i = if afterWord bytes i = false ∧ runAt bytes (i + 1) ≠ [] then
        (i, runAt bytes (i + 1)) :: remaining bytes (wordEnd bytes (i + 1))
      else remaining bytes (wordEnd bytes (i + 1)) := by
  rw [remaining_wordEnd, remaining, List.drop_eq_getElem_cons h, spans, remaining,
    afterWord_succ h]
  simp only [hat, true_and]
  rfl

/-- The slice of a run is between characters. -/
theorem sliceLowercase_run {body : String} (h : i < (asBytes body).length)
    (hat : isAt (asBytes body)[i] = true) :
    sliceLowercase body (i + 1) (wordEnd (asBytes body) (i + 1)) =
      some (lowered (runAt (asBytes body) (i + 1))) := by
  have hbytes : Utf8.encode body.toList = (asBytes body).take i ++ (asBytes body)[i] ::
      (runAt (asBytes body) (i + 1) ++ ((asBytes body).drop (i + 1)).dropWhile isWordByte) := by
    rw [runAt, List.takeWhile_append_dropWhile, ← List.drop_eq_getElem_cons h,
      List.take_append_drop]
    rfl
  have hslice := Utf8.slice_of_isAscii hbytes (isAscii_of_isAt hat)
    (fun d hd => isAscii_of_isWordByte (List.all_eq_true.1 List.all_takeWhile d hd))
  rw [List.length_take_of_le h.le] at hslice
  rw [sliceLowercase, wordEnd_eq, hslice]
  rfl

theorem starts_iff (h : i < bytes.length) :
    ((i == 0 || !isWordByte bytes[i - 1]) && decide (i + 1 < wordEnd bytes (i + 1))) = true ↔
      afterWord bytes i = false ∧ runAt bytes (i + 1) ≠ [] := by
  have hget : bytes[i - 1]? = some bytes[i - 1] := List.getElem?_eq_getElem (by omega)
  have hpreceded : (i == 0 || !isWordByte bytes[i - 1]) = !afterWord bytes i := by
    rw [afterWord, hget]
    cases i <;> simp
  rw [hpreceded, wordEnd_eq, Bool.and_eq_true, Bool.not_eq_true', decide_eq_true_eq,
    ← List.length_pos_iff]
  exact and_congr_right (fun _ => by omega)

/-- From any index on the scan pushes what is left to list. -/
theorem scan_eq (body : String) (i : Nat) (out : List String) :
    scan body (asBytes body) i out =
      some (((remaining (asBytes body) i).map (fun p => lowered p.2)).foldl addNew out) := by
  fun_induction scan body (asBytes body) i out with
  | case1 i out h hat precededOk start j hstarts token htoken ih =>
    have hj : max j (i + 1) = wordEnd (asBytes body) (i + 1) := max_eq_left (le_wordEnd _ _)
    obtain rfl := Option.some.inj (htoken.symm.trans (sliceLowercase_run h hat))
    rw [ih, hj, remaining_of_at h hat, if_pos ((starts_iff h).1 hstarts), pushNew_eq_addNew]
    rfl
  | case2 i out h hat precededOk start j hstarts hpanic =>
    cases hpanic.symm.trans (sliceLowercase_run h hat)
  | case3 i out h hat precededOk start j hother ih =>
    have hj : max j (i + 1) = wordEnd (asBytes body) (i + 1) := max_eq_left (le_wordEnd _ _)
    rw [ih, hj, remaining_of_at h hat, if_neg (fun hstarts => hother ((starts_iff h).2 hstarts))]
  | case4 i out h hat ih =>
    rw [ih, remaining_of_not_at h (by simpa using hat)]
  | case5 i out h =>
    rw [remaining_of_le (by omega)]
    rfl

/-- The scan ends without a panic. -/
theorem parseMentions_eq (body : String) : parseMentions body =
    some (((spans isAt isWordByte false 0 (asBytes body)).map (fun p => lowered p.2)).foldl
      addNew []) :=
  scan_eq body 0 []

theorem grammar_of_spans (bytes : List UInt8) : Grammar bytes
    (((spans isAt isWordByte false 0 bytes).map (fun p => lowered p.2)).foldl addNew []) where
  exact := by
    intro t
    simp only [mem_foldl_addNew, List.not_mem_nil, false_or, List.mem_map, Prod.exists, mem_spans]
    constructor
    · rintro ⟨k, run, ⟨pre, post, hat, -⟩, rfl⟩
      exact ⟨pre, run, post, hat, rfl⟩
    · rintro ⟨pre, run, post, hat, rfl⟩
      exact ⟨_, run, ⟨pre, post, hat, rfl⟩, rfl⟩
  distinct := nodup_foldl_addNew List.nodup_nil
  ordered := by
    have hplaces : ((spans isAt isWordByte false 0 bytes).map
        (fun p => (p.1, lowered p.2))).Pairwise (fun p q => p.1 < q.1) :=
      List.pairwise_map.2 pairwise_spans
    have hplaced : ∀ {k t}, (k, t) ∈ (spans isAt isWordByte false 0 bytes).map
        (fun p => (p.1, lowered p.2)) ↔
        ∃ pre run post, MentionAt bytes pre run post ∧ k = pre.length ∧ t = lowered run := by
      intro k t
      simp only [List.mem_map, Prod.exists, Prod.mk.injEq, mem_spans, Nat.zero_add]
      constructor
      · rintro ⟨k, run, ⟨pre, post, hat, rfl⟩, rfl, rfl⟩
        exact ⟨pre, run, post, hat, rfl, rfl⟩
      · rintro ⟨pre, run, post, hat, rfl, rfl⟩
        exact ⟨_, run, ⟨pre, post, hat, rfl⟩, rfl, rfl⟩
    have hfirsts := pairwise_foldl_addNew hplaces
    rw [List.map_map] at hfirsts
    refine hfirsts.imp (fun {t t'} hbefore => ?_)
    obtain ⟨k, ht, hall⟩ := hbefore
    obtain ⟨pre, run, post, hat, rfl, rfl⟩ := hplaced.1 ht
    refine ⟨pre, run, post, hat, rfl, fun pre' run' post' hat' ht' => ?_⟩
    exact hall pre'.length (hplaced.2 ⟨pre', run', post', hat', rfl, ht'⟩)

end Bytes

end Democrachat
