import Democrachat.Domain.MentionScan

/-!
# The grammar of mentions

The scan over the bytes never cuts a character, and it lists exactly the tokens of the text.
It is the same to go over the characters.
-/

namespace Democrachat

open Library

namespace Bytes

/-! ## Bytes and characters -/

variable {b : UInt8}

theorem isAt_byteChar (hb : Utf8.IsAscii b) :
    Democrachat.isAt (Utf8.byteChar b) = isAt b := by
  have hnat := Utf8.toNat_byteChar hb
  rw [Bool.eq_iff_iff]
  simp only [Democrachat.isAt, isAt, beq_iff_eq, ← Char.toNat_inj, ← UInt8.toNat_inj, hnat]
  rfl

theorem isWordByte_byteChar (hb : Utf8.IsAscii b) :
    Democrachat.isWordByte (Utf8.byteChar b) = isWordByte b := by
  have hnat := Utf8.toNat_byteChar hb
  rw [Bool.eq_iff_iff]
  simp only [Democrachat.isWordByte, Democrachat.isAsciiAlphanumeric, isWordByte,
    isAsciiAlphanumeric, Bool.or_eq_true, Bool.and_eq_true, decide_eq_true_eq, beq_iff_eq,
    isAlphanum_iff, ← Char.toNat_inj, ← UInt8.toNat_inj, UInt8.le_iff_toNat_le, hnat]
  simp
  omega

/-- No character outside ASCII is of a word, and none is an `@`. -/
theorem neither_of_large {c : Char} (h : 128 ≤ c.toNat) :
    Democrachat.isAt c = false ∧ Democrachat.isWordByte c = false := by
  have hnot : ∀ b : Bool, b = false ↔ ¬ b = true := fun b => by simp
  simp only [hnot, Democrachat.isAt, Democrachat.isWordByte, Democrachat.isAsciiAlphanumeric,
    Bool.or_eq_true, beq_iff_eq, isAlphanum_iff, ← Char.toNat_inj]
  have hat : '@'.toNat = 64 := rfl
  have hunderscore : '_'.toNat = 95 := rfl
  have hhyphen : '-'.toNat = 45 := rfl
  omega

theorem neither_of_not_isAscii (h : ¬ Utf8.IsAscii b) : isAt b = false ∧ isWordByte b = false := by
  constructor
  · rw [← Bool.not_eq_true]
    intro hat
    exact h (isAscii_of_isAt hat)
  · rw [← Bool.not_eq_true]
    exact fun hword => h (isAscii_of_isWordByte hword)

theorem takeWhile_encode (cs : List Char) :
    ((Utf8.encode cs).takeWhile isWordByte).map Utf8.byteChar =
      cs.takeWhile Democrachat.isWordByte := by
  induction cs with
  | nil => rfl
  | cons c cs ih =>
    rw [Utf8.encode_cons]
    rcases Utf8.utf8EncodeChar_cases c with ⟨b, hb, hc, rfl⟩ | ⟨hlarge, hbytes⟩
    · rw [hc, List.singleton_append, List.takeWhile_cons, List.takeWhile_cons,
        isWordByte_byteChar hb]
      split
      next => rw [List.map_cons, ih]
      next => rfl
    · obtain ⟨d, ds, hd⟩ := List.exists_cons_of_ne_nil (String.utf8EncodeChar_ne_nil (c := c))
      have hlead := (neither_of_not_isAscii (hbytes d (by simp [hd]))).2
      rw [hd, List.cons_append, List.takeWhile_cons, List.takeWhile_cons, hlead,
        (neither_of_large hlarge).2]
      rfl

/-- The tokens of the bytes are those of the characters. -/
theorem spans_encode (afterWord : Bool) (pos pos' : Nat) (cs : List Char) :
    (spans isAt isWordByte afterWord pos (Utf8.encode cs)).map (fun p => p.2.map Utf8.byteChar) =
      (spans Democrachat.isAt Democrachat.isWordByte afterWord pos' cs).map Prod.snd := by
  induction cs generalizing afterWord pos pos' with
  | nil => rfl
  | cons c cs ih =>
    rw [Utf8.encode_cons]
    rcases Utf8.utf8EncodeChar_cases c with ⟨b, hb, hc, rfl⟩ | ⟨hlarge, hbytes⟩
    · have htoken : (Utf8.encode cs).takeWhile isWordByte ≠ [] ↔
          cs.takeWhile Democrachat.isWordByte ≠ [] := by
        rw [← takeWhile_encode, ne_eq, ne_eq, List.map_eq_nil_iff]
      rw [hc, List.singleton_append, spans, spans]
      simp only [isAt_byteChar hb, isWordByte_byteChar hb, htoken]
      split
      next => rw [List.map_cons, List.map_cons, takeWhile_encode, ih _ _ (pos' + 1)]
      next => exact ih _ _ _
    · obtain ⟨hat, hword⟩ := neither_of_large hlarge
      rw [spans_append_of_neither (fun d hd => neither_of_not_isAscii (hbytes d hd))
        String.utf8EncodeChar_ne_nil, ih _ _ (pos' + 1), spans, if_neg (by simp [hat]), hword]

/-- The scan over the bytes reads what one over the characters does. -/
theorem parseMentions_eq_some (body : String) :
    parseMentions body = some (Democrachat.parseMentions body) := by
  have htokens := congrArg (List.map (fun cs => String.ofList (toLowerChars cs)))
    (spans_encode false 0 0 body.toList)
  rw [List.map_map, List.map_map] at htokens
  rw [parseMentions_eq, Democrachat.parseMentions, parseMentionsFrom_eq false 0]
  exact congrArg (fun tokens => some (tokens.foldl addNew [])) htokens

example : parseMentions "é@Ada: a@b, @@x and @ADA" = some ["ada", "x"] := by
  rw [parseMentions_eq_some]
  decide

end Bytes

theorem mentions_grammar (body : String) :
    ∃ tokens, Bytes.parseMentions body = some tokens ∧
      Bytes.Grammar (Bytes.asBytes body) tokens :=
  ⟨_, Bytes.parseMentions_eq body, Bytes.grammar_of_spans (Bytes.asBytes body)⟩

end Democrachat
