import Mathlib.Data.List.Basic

/-!
# Characters and their bytes

Byte offsets into a text of characters.  A byte below 128 is a character of its own, so a run
of such bytes can be cut out wherever it stands.
-/

namespace Library.Utf8

/-- The UTF-8 bytes of a text. -/
def encode (cs : List Char) : List UInt8 := cs.flatMap String.utf8EncodeChar

/-- What stands from a byte offset on; nothing when the offset is inside a character or
behind the end. -/
def dropBytes : List Char → Nat → Option (List Char)
  | cs, 0 => some cs
  | [], _ + 1 => none
  | c :: cs, n + 1 => if c.utf8Size ≤ n + 1 then dropBytes cs (n + 1 - c.utf8Size) else none

/-- What stands before a byte offset. -/
def takeBytes : List Char → Nat → Option (List Char)
  | _, 0 => some []
  | [], _ + 1 => none
  | c :: cs, n + 1 =>
    if c.utf8Size ≤ n + 1 then (takeBytes cs (n + 1 - c.utf8Size)).map (c :: ·) else none

/-- The characters between two byte offsets. -/
def slice (cs : List Char) (start stop : Nat) : Option (List Char) :=
  if start ≤ stop then (dropBytes cs start).bind (takeBytes · (stop - start)) else none

/-- The bytes of a string. -/
def asBytes (s : String) : List UInt8 := s.toByteArray.data.toList

/-- The string of the bytes, if they are one. -/
def fromUtf8 (bytes : List UInt8) : Option String := String.fromUTF8? ⟨bytes.toArray⟩

def IsAscii (b : UInt8) : Prop := b.toNat < 128

/-- The character of a byte below 128. -/
def byteChar (b : UInt8) : Char := Char.ofNat b.toNat

@[simp] theorem encode_nil : encode [] = [] := rfl

@[simp] theorem encode_cons (c : Char) (cs : List Char) :
    encode (c :: cs) = String.utf8EncodeChar c ++ encode cs := rfl

@[simp] theorem encode_append (cs cs' : List Char) :
    encode (cs ++ cs') = encode cs ++ encode cs' := List.flatMap_append

theorem encode_eq_nil {cs : List Char} : encode cs = [] ↔ cs = [] := by
  cases cs with
  | nil => simp
  | cons c cs => simp

theorem length_encode_cons (c : Char) (cs : List Char) :
    (encode (c :: cs)).length = c.utf8Size + (encode cs).length := by
  rw [encode_cons, List.length_append, String.length_utf8EncodeChar]

theorem fromUtf8_asBytes (s : String) : fromUtf8 (asBytes s) = some s := by
  rw [fromUtf8, asBytes, Array.toArray_toList]
  simp [String.fromUTF8?, String.fromUTF8, s.isValidUTF8]

theorem asBytes_of_fromUtf8 {bytes : List UInt8} {s : String} (h : fromUtf8 bytes = some s) :
    asBytes s = bytes := by
  rw [fromUtf8, String.fromUTF8?] at h
  split at h
  · rw [← Option.some.inj h]
    simp [asBytes, String.fromUTF8]
  · contradiction

theorem fromUtf8_eq_some {bytes : List UInt8} {s : String} :
    fromUtf8 bytes = some s ↔ bytes = asBytes s := by
  constructor
  · intro h
    exact (asBytes_of_fromUtf8 h).symm
  · rintro rfl
    exact fromUtf8_asBytes s

/-! ## Offsets between characters -/

theorem dropBytes_cons (c : Char) (cs : List Char) (n : Nat) :
    dropBytes (c :: cs) (c.utf8Size + n) = dropBytes cs n := by
  have hpos := c.utf8Size_pos
  obtain ⟨k, hk⟩ : ∃ k, c.utf8Size = k + 1 := ⟨c.utf8Size - 1, by omega⟩
  rw [show c.utf8Size + n = (k + n) + 1 by omega, dropBytes, if_pos (by omega),
    show k + n + 1 - c.utf8Size = n by omega]

theorem takeBytes_cons (c : Char) (cs : List Char) (n : Nat) :
    takeBytes (c :: cs) (c.utf8Size + n) = (takeBytes cs n).map (c :: ·) := by
  have hpos := c.utf8Size_pos
  obtain ⟨k, hk⟩ : ∃ k, c.utf8Size = k + 1 := ⟨c.utf8Size - 1, by omega⟩
  rw [show c.utf8Size + n = (k + n) + 1 by omega, takeBytes, if_pos (by omega),
    show k + n + 1 - c.utf8Size = n by omega]

theorem dropBytes_append (pre post : List Char) :
    dropBytes (pre ++ post) (encode pre).length = some post := by
  induction pre with
  | nil => cases post <;> rfl
  | cons c pre ih => rw [length_encode_cons, List.cons_append, dropBytes_cons, ih]

theorem takeBytes_append (pre post : List Char) :
    takeBytes (pre ++ post) (encode pre).length = some pre := by
  induction pre with
  | nil => cases post <;> rfl
  | cons c pre ih =>
    rw [length_encode_cons, List.cons_append, takeBytes_cons, ih]
    rfl

theorem slice_append (pre run post : List Char) :
    slice (pre ++ (run ++ post)) (encode pre).length ((encode pre).length + (encode run).length) =
      some run := by
  rw [slice, if_pos (Nat.le_add_right _ _), dropBytes_append, Nat.add_sub_cancel_left]
  exact takeBytes_append run post

/-! ## Bytes below 128 -/

theorem toNat_ofNat_of_lt {n : Nat} (h : n < 256) : (UInt8.ofNat n).toNat = n := by
  rw [UInt8.toNat_ofNat']
  omega

/-- A byte of a character that has several. -/
theorem not_isAscii_ofNat {n : Nat} (hge : 128 ≤ n) (hlt : n < 256) : ¬ IsAscii (.ofNat n) := by
  unfold IsAscii
  rw [toNat_ofNat_of_lt hlt]
  omega

/-- A character is one byte below 128 or several bytes above. -/
theorem utf8EncodeChar_cases (c : Char) :
    (∃ b, IsAscii b ∧ String.utf8EncodeChar c = [b] ∧ c = byteChar b) ∨
      128 ≤ c.toNat ∧ ∀ b ∈ String.utf8EncodeChar c, ¬ IsAscii b := by
  have hchar : c.val.toNat = c.toNat := rfl
  by_cases hascii : c.toNat ≤ 0x7f
  · have hbyte : (UInt8.ofNat c.toNat).toNat = c.toNat := toNat_ofNat_of_lt (by omega)
    refine .inl ⟨.ofNat c.toNat, ?_, ?_, ?_⟩
    · show (UInt8.ofNat c.toNat).toNat < 128
      omega
    · simp only [String.utf8EncodeChar, hchar, if_pos hascii]
    · rw [byteChar, hbyte, Char.ofNat_toNat]
  · refine .inr ⟨by omega, ?_⟩
    simp only [String.utf8EncodeChar, hchar, if_neg hascii]
    split
    next =>
      simp only [List.forall_mem_cons]
      exact ⟨not_isAscii_ofNat (by omega) (by omega), not_isAscii_ofNat (by omega) (by omega),
        List.forall_mem_nil _⟩
    next =>
      split
      next =>
        simp only [List.forall_mem_cons]
        exact ⟨not_isAscii_ofNat (by omega) (by omega), not_isAscii_ofNat (by omega) (by omega),
          not_isAscii_ofNat (by omega) (by omega), List.forall_mem_nil _⟩
      next =>
        simp only [List.forall_mem_cons]
        exact ⟨not_isAscii_ofNat (by omega) (by omega), not_isAscii_ofNat (by omega) (by omega),
          not_isAscii_ofNat (by omega) (by omega), not_isAscii_ofNat (by omega) (by omega),
          List.forall_mem_nil _⟩

theorem toNat_byteChar {b : UInt8} (hb : IsAscii b) : (byteChar b).toNat = b.toNat := by
  unfold IsAscii at hb
  have hvalid : b.toNat.isValidChar := .inl (by omega)
  rw [byteChar, Char.ofNat, dif_pos hvalid]
  rfl

theorem utf8EncodeChar_byteChar {b : UInt8} (hb : IsAscii b) :
    String.utf8EncodeChar (byteChar b) = [b] := by
  have hnat : (byteChar b).val.toNat = b.toNat := toNat_byteChar hb
  unfold IsAscii at hb
  simp only [String.utf8EncodeChar, hnat, if_pos (show b.toNat ≤ 0x7f by omega), UInt8.ofNat_toNat]

theorem encode_map_byteChar {run : List UInt8} (hrun : ∀ b ∈ run, IsAscii b) :
    encode (run.map byteChar) = run := by
  induction run with
  | nil => rfl
  | cons b run ih =>
    obtain ⟨hb, hrun⟩ := List.forall_mem_cons.1 hrun
    rw [List.map_cons, encode_cons, utf8EncodeChar_byteChar hb, ih hrun, List.singleton_append]

/-- Where a byte below 128 stands, a character ends and its own begins. -/
theorem exists_split_of_isAscii {cs : List Char} {pre post : List UInt8} {b : UInt8}
    (h : encode cs = pre ++ b :: post) (hb : IsAscii b) :
    ∃ cpre cpost, cs = cpre ++ byteChar b :: cpost ∧ encode cpre = pre ∧ encode cpost = post := by
  induction cs generalizing pre with
  | nil => cases pre <;> cases h
  | cons c cs ih =>
    rw [encode_cons] at h
    rcases utf8EncodeChar_cases c with ⟨d, hd, hc, rfl⟩ | ⟨-, hlarge⟩
    · rw [hc, List.singleton_append] at h
      cases pre with
      | nil =>
        obtain ⟨rfl, rfl⟩ := List.cons.inj h
        exact ⟨[], cs, rfl, rfl, rfl⟩
      | cons e pre =>
        obtain ⟨rfl, hrest⟩ := List.cons.inj h
        obtain ⟨cpre, cpost, rfl, rfl, rfl⟩ := ih hrest
        exact ⟨byteChar d :: cpre, cpost, rfl, by rw [encode_cons, hc]; rfl, rfl⟩
    · -- The byte is behind those of the first character.
      have hlong : ∃ rest, pre = String.utf8EncodeChar c ++ rest := by
        rcases List.append_eq_append_iff.1 h with ⟨rest, hpre, -⟩ | ⟨rest, hc, hrest⟩
        · exact ⟨rest, hpre⟩
        · cases rest with
          | nil => exact ⟨[], by simpa using hc.symm⟩
          | cons e rest =>
            obtain ⟨rfl, -⟩ := List.cons.inj hrest
            exact absurd hb (hlarge b (hc ▸ by simp))
      obtain ⟨rest, rfl⟩ := hlong
      rw [List.append_assoc] at h
      obtain ⟨cpre, cpost, rfl, rfl, rfl⟩ := ih (List.append_cancel_left h)
      exact ⟨c :: cpre, cpost, rfl, rfl, rfl⟩

theorem exists_split_of_forall {cs : List Char} {run post : List UInt8}
    (h : encode cs = run ++ post) (hrun : ∀ b ∈ run, IsAscii b) :
    ∃ cpost, cs = run.map byteChar ++ cpost ∧ encode cpost = post := by
  induction run generalizing cs with
  | nil => exact ⟨cs, rfl, h⟩
  | cons b run ih =>
    obtain ⟨hb, hrun⟩ := List.forall_mem_cons.1 hrun
    have hsplit : encode cs = [] ++ b :: (run ++ post) := h
    obtain ⟨cpre, cpost, rfl, hpre, hpost⟩ := exists_split_of_isAscii hsplit hb
    obtain rfl := encode_eq_nil.1 hpre
    obtain ⟨cpost, rfl, hrest⟩ := ih hpost hrun
    exact ⟨cpost, rfl, hrest⟩

/-- A run of bytes below 128 that follows another is cut out whole. -/
theorem slice_of_isAscii {cs : List Char} {pre run post : List UInt8} {b : UInt8}
    (h : encode cs = pre ++ b :: (run ++ post)) (hb : IsAscii b) (hrun : ∀ d ∈ run, IsAscii d) :
    slice cs (pre.length + 1) (pre.length + 1 + run.length) = some (run.map byteChar) := by
  obtain ⟨cpre, crest, rfl, rfl, hrest⟩ := exists_split_of_isAscii h hb
  obtain ⟨cpost, rfl, rfl⟩ := exists_split_of_forall hrest hrun
  have hslice := slice_append (cpre ++ [byteChar b]) (run.map byteChar) cpost
  rw [encode_map_byteChar hrun, encode_append, encode_cons, utf8EncodeChar_byteChar hb] at hslice
  simpa using hslice

end Library.Utf8
