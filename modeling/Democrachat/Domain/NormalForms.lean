import Democrachat.Domain.Text
import Mathlib.Data.List.DropRight

/-!
# Normal forms of names

Each of the normalizing functions is a projection: a name that it has made it makes again.
-/

namespace Democrachat

/-! ## ASCII letters -/

theorem isAlphanum_iff {c : Char} : c.isAlphanum = true ↔
    (48 ≤ c.toNat ∧ c.toNat ≤ 57) ∨ (65 ≤ c.toNat ∧ c.toNat ≤ 90) ∨
      (97 ≤ c.toNat ∧ c.toNat ≤ 122) := by
  unfold Char.isAlphanum Char.isAlpha Char.isUpper Char.isLower Char.isDigit
  simp only [Bool.or_eq_true, Bool.and_eq_true, decide_eq_true_eq, UInt32.le_iff_toNat_le, ge_iff_le]
  change ((65 ≤ c.toNat ∧ c.toNat ≤ 90) ∨ (97 ≤ c.toNat ∧ c.toNat ≤ 122)) ∨
    (48 ≤ c.toNat ∧ c.toNat ≤ 57) ↔ _
  omega

theorem toNat_toLower (c : Char) :
    c.toLower.toNat = if 65 ≤ c.toNat ∧ c.toNat ≤ 90 then c.toNat + 32 else c.toNat := by
  have hupper : (c.val ≥ 'A'.val ∧ c.val ≤ 'Z'.val) ↔ 65 ≤ c.toNat ∧ c.toNat ≤ 90 := by
    simp [UInt32.le_iff_toNat_le, ← Char.toNat_val]
  by_cases h : 65 ≤ c.toNat ∧ c.toNat ≤ 90
  · unfold Char.toLower
    rw [if_pos h, dif_pos (hupper.2 h)]
    change (c.val + 32).toNat = c.val.toNat + 32
    have hval : c.val.toNat = c.toNat := rfl
    rw [UInt32.toNat_add, hval]
    exact Nat.mod_eq_of_lt (by simp; omega)
  · unfold Char.toLower
    rw [if_neg h, dif_neg (fun hval => h (hupper.1 hval))]

theorem toLower_of_not_isUpper {c : Char} (h : ¬ (65 ≤ c.toNat ∧ c.toNat ≤ 90)) :
    c.toLower = c := by
  rw [← Char.toNat_inj, toNat_toLower, if_neg h]

theorem toLower_toLower (c : Char) : c.toLower.toLower = c.toLower := by
  refine toLower_of_not_isUpper ?_
  rw [toNat_toLower]
  split <;> omega

theorem isAlphanum_toLower (c : Char) : c.toLower.isAlphanum = c.isAlphanum := by
  rw [Bool.eq_iff_iff, isAlphanum_iff, isAlphanum_iff, toNat_toLower]
  split <;> omega

/-! ## Slugs and channel names -/

/-- The loop, run on what it has written, writes it again and has no hyphen due. -/
def Slugged (out : List Char) : Prop :=
  ∀ cs, slugifyChars [] false (out ++ cs) = slugifyChars out false cs

theorem slugged_nil : Slugged [] := fun _ => rfl

theorem Slugged.append_char {out : List Char} (h : Slugged out) {c : Char}
    (hc : isAsciiAlphanumeric c = true) : Slugged (out ++ [c.toLower]) := by
  intro cs
  have hlower : isAsciiAlphanumeric c.toLower = true := (isAlphanum_toLower c).trans hc
  rw [List.append_assoc, h, List.singleton_append]
  simp [slugifyChars, hlower, toLower_toLower]

theorem Slugged.append_hyphen {out : List Char} (h : Slugged out) (hout : out.isEmpty = false)
    {c : Char} (hc : isAsciiAlphanumeric c = true) :
    Slugged ((out ++ ['-']) ++ [c.toLower]) := by
  intro cs
  have hlower : isAsciiAlphanumeric c.toLower = true := (isAlphanum_toLower c).trans hc
  have hhyphen : isAsciiAlphanumeric '-' = false := by decide
  rw [List.append_assoc, List.append_assoc, h]
  simp [slugifyChars, hlower, hhyphen, toLower_toLower, hout]

theorem slugged_slugifyChars {out : List Char} (h : Slugged out) (pendingHyphen : Bool)
    (cs : List Char) : Slugged (slugifyChars out pendingHyphen cs) := by
  induction cs generalizing out pendingHyphen with
  | nil => exact h
  | cons c cs ih =>
    rw [slugifyChars]
    split
    next hc =>
      refine ih ?_ false
      split
      next hdue =>
        rw [Bool.and_eq_true, Bool.not_eq_true'] at hdue
        exact h.append_hyphen hdue.2 hc
      next => exact h.append_char hc
    next => exact ih h true

theorem slugifyChars_slugifyChars (cs : List Char) :
    slugifyChars [] false (slugifyChars [] false cs) = slugifyChars [] false cs := by
  have hslugged := slugged_slugifyChars slugged_nil false cs []
  rwa [List.append_nil] at hslugged

theorem slugify_slugify (input : String) : slugify (slugify input) = slugify input := by
  rw [slugify, slugify, String.toList_ofList, slugifyChars_slugifyChars]

theorem normalizeChannelName_normalizeChannelName (input : String) :
    normalizeChannelName (normalizeChannelName input) = normalizeChannelName input :=
  slugify_slugify input

/-! ## Emoji names -/

def isEmojiChar (c : Char) : Bool := isAsciiAlphanumeric c || c == '-' || c == '_'

theorem isEmojiChar_toLower {c : Char} (h : isEmojiChar c = true) :
    isEmojiChar c.toLower = true := by
  rw [isEmojiChar, Bool.or_eq_true, Bool.or_eq_true, beq_iff_eq, beq_iff_eq] at h
  rcases h with (h | rfl) | rfl
  · rw [isEmojiChar, isAsciiAlphanumeric, isAlphanum_toLower, show c.isAlphanum = true from h]
    rfl
  · rfl
  · rfl

theorem normalizeEmojiName_normalizeEmojiName (input : String) :
    normalizeEmojiName (normalizeEmojiName input) = normalizeEmojiName input := by
  have hkept : ((input.toList.filter isEmojiChar).map Char.toLower).filter isEmojiChar =
      (input.toList.filter isEmojiChar).map Char.toLower := by
    rw [List.filter_eq_self]
    intro c hc
    obtain ⟨d, hd, rfl⟩ := List.mem_map.1 hc
    exact isEmojiChar_toLower (List.mem_filter.1 hd).2
  have hlower : ((input.toList.filter isEmojiChar).map Char.toLower).map Char.toLower =
      (input.toList.filter isEmojiChar).map Char.toLower := by
    rw [List.map_map]
    exact List.map_congr_left (fun c _ => toLower_toLower c)
  change String.ofList (((normalizeEmojiName input).toList.filter isEmojiChar).map Char.toLower) =
    String.ofList ((input.toList.filter isEmojiChar).map Char.toLower)
  rw [normalizeEmojiName, String.toList_ofList]
  exact congrArg String.ofList ((congrArg (List.map Char.toLower) hkept).trans hlower)

/-! ## Role names -/

def stripHyphens (cs : List Char) : List Char := (cs.reverse.dropWhile (· == '-')).reverse

theorem stripHyphens_append_hyphen (cs : List Char) :
    stripHyphens (cs ++ ['-']) = stripHyphens cs := by
  simp [stripHyphens]

theorem stripHyphens_append {cs : List Char} {c : Char} (h : c ≠ '-') :
    stripHyphens (cs ++ [c]) = cs ++ [c] := by
  simp [stripHyphens, h]

/-- The loop, run on what it has written, writes it again. -/
def Roled (out : List Char) (prevDash : Bool) : Prop :=
  ∀ cs, roleNameChars [] false (out ++ cs) = roleNameChars out prevDash cs

/-- What the loop has written, and whether it ends in the one hyphen that is to be stripped. -/
inductive RoleShape : List Char → Bool → Prop
  | bare {out : List Char} : Roled out false → stripHyphens out = out → RoleShape out false
  | dashed {out : List Char} : Roled out false → stripHyphens out = out →
      Roled (out ++ ['-']) true → RoleShape (out ++ ['-']) true

theorem RoleShape.roled {out : List Char} {prevDash : Bool} (h : RoleShape out prevDash) :
    Roled out prevDash := by
  cases h with
  | bare hroled _ => exact hroled
  | dashed _ _ hroled => exact hroled

theorem RoleShape.append_char {out : List Char} {prevDash : Bool} (h : RoleShape out prevDash)
    {c : Char} (hc : (isAsciiAlphanumeric c || c == '_') = true) : RoleShape (out ++ [c]) false := by
  refine .bare (fun cs => ?_) (stripHyphens_append ?_)
  · rw [List.append_assoc, h.roled]
    simp [roleNameChars, hc]
  · rintro rfl
    cases hc

theorem RoleShape.append_hyphen {out : List Char} (h : RoleShape out false)
    (hout : out.isEmpty = false) : RoleShape (out ++ ['-']) true := by
  cases h with
  | bare hroled hbare =>
    refine .dashed hroled hbare (fun cs => ?_)
    have hhyphen : isAsciiAlphanumeric '-' = false := by decide
    rw [List.append_assoc, hroled]
    simp [roleNameChars, hhyphen, hout]

theorem roleShape_roleNameChars {out : List Char} {prevDash : Bool} (h : RoleShape out prevDash)
    (cs : List Char) : ∃ d, RoleShape (roleNameChars out prevDash cs) d := by
  induction cs generalizing out prevDash with
  | nil => exact ⟨prevDash, h⟩
  | cons c cs ih =>
    rw [roleNameChars]
    split
    next hc => exact ih (h.append_char hc)
    next =>
      split
      next hdash =>
        simp only [Bool.and_eq_true, Bool.not_eq_true'] at hdash
        obtain ⟨⟨-, hout⟩, rfl⟩ := hdash
        exact ih (h.append_hyphen hout)
      next => exact ih h

/-- What is left of it when the hyphen is stripped. -/
theorem RoleShape.stripped {out : List Char} {prevDash : Bool} (h : RoleShape out prevDash) :
    Roled (stripHyphens out) false ∧ stripHyphens (stripHyphens out) = stripHyphens out := by
  cases h with
  | bare hroled hbare =>
    rw [hbare]
    exact ⟨hroled, hbare⟩
  | dashed hroled hbare _ =>
    rw [stripHyphens_append_hyphen, hbare]
    exact ⟨hroled, hbare⟩

/-- The characters of a role name. -/
def IsRoleChar (c : Char) : Prop := (c.isAlphanum = true ∧ c.toLower = c) ∨ c = '_' ∨ c = '-'

theorem isRoleChar_roleNameChars (prevDash : Bool) {out cs : List Char}
    (hout : ∀ c ∈ out, IsRoleChar c) (hcs : ∀ c ∈ cs, c.toLower = c) :
    ∀ c ∈ roleNameChars out prevDash cs, IsRoleChar c := by
  have hsnoc : ∀ {out : List Char} {c : Char}, (∀ d ∈ out, IsRoleChar d) → IsRoleChar c →
      ∀ d ∈ out ++ [c], IsRoleChar d := by
    intro out c hout hc d hd
    rcases List.mem_append.1 hd with hd | hd
    · exact hout d hd
    · rw [List.mem_singleton.1 hd]
      exact hc
  induction cs generalizing out prevDash with
  | nil => exact hout
  | cons c cs ih =>
    obtain ⟨hc, hcs⟩ := List.forall_mem_cons.1 hcs
    rw [roleNameChars]
    split
    next hkept =>
      rw [Bool.or_eq_true, beq_iff_eq] at hkept
      exact ih false (hsnoc hout (hkept.imp (fun h => ⟨h, hc⟩) .inl)) hcs
    next =>
      split
      next => exact ih true (hsnoc hout (.inr (.inr rfl))) hcs
      next => exact ih prevDash hout hcs

theorem toLower_of_mem_toLowercase {c d : Char} (h : d ∈ toLowercase c) : d.toLower = d := by
  unfold toLowercase at h
  split at h
  next =>
    rw [List.mem_singleton.1 h]
    rfl
  next =>
    split at h
    next =>
      rcases List.mem_cons.1 h with rfl | h
      · rfl
      · rw [List.mem_singleton.1 h]
        rfl
    next =>
      rw [List.mem_singleton.1 h]
      exact toLower_toLower c

theorem IsRoleChar.toLowercase {c : Char} (h : IsRoleChar c) : toLowercase c = [c] := by
  have hkelvin : c ≠ '\u212A' := by
    rintro rfl
    rcases h with ⟨halnum, -⟩ | h | h
    · cases halnum
    · cases h
    · cases h
  have hdotted : c ≠ '\u0130' := by
    rintro rfl
    rcases h with ⟨halnum, -⟩ | h | h
    · cases halnum
    · cases h
    · cases h
  rw [Democrachat.toLowercase, if_neg hkelvin, if_neg hdotted]
  rcases h with ⟨-, h⟩ | rfl | rfl
  · rw [h]
  · rfl
  · rfl

theorem IsRoleChar.not_whitespace {c : Char} (h : IsRoleChar c) : isWhitespace c = false := by
  rcases h with ⟨halnum, -⟩ | rfl | rfl
  · have hrange := isAlphanum_iff.1 halnum
    simp only [isWhitespace, Bool.or_eq_false_iff, Bool.and_eq_false_iff, decide_eq_false_iff_not,
      beq_eq_false_iff_ne]
    omega
  · rfl
  · rfl

theorem trimChars_of_forall {cs : List Char} (h : ∀ c ∈ cs, isWhitespace c = false) :
    trimChars cs = cs := by
  have hkept : ∀ cs : List Char, (∀ c ∈ cs, isWhitespace c = false) →
      cs.dropWhile isWhitespace = cs := by
    intro cs h
    cases cs with
    | nil => rfl
    | cons c cs => rw [List.dropWhile_cons, if_neg (by simp [h c List.mem_cons_self])]
  rw [trimChars, hkept cs h, hkept cs.reverse (fun c hc => h c (List.mem_reverse.1 hc)),
    List.reverse_reverse]

theorem trimChars_eq (cs : List Char) :
    trimChars cs = (cs.dropWhile isWhitespace).rdropWhile isWhitespace := rfl

theorem trimChars_trimChars (cs : List Char) : trimChars (trimChars cs) = trimChars cs := by
  have hfirst : (trimChars cs).dropWhile isWhitespace = trimChars cs := by
    rw [trimChars_eq, List.dropWhile_eq_self_iff]
    intro hpos
    have hfront := List.rdropWhile_prefix isWhitespace (cs.dropWhile isWhitespace)
    have hdropped := List.dropWhile_eq_self_iff.1 (List.dropWhile_idempotent isWhitespace cs)
    rw [hfront.getElem hpos]
    exact hdropped (hpos.trans_le hfront.length_le)
  rw [trimChars_eq (trimChars cs), hfirst, trimChars_eq, List.rdropWhile_idempotent]

theorem trim_trim (s : String) : trim (trim s) = trim s := by
  rw [trim, trim, String.toList_ofList, trimChars_trimChars]

theorem normalizeRoleName_normalizeRoleName (raw : String) :
    normalizeRoleName (normalizeRoleName raw) = normalizeRoleName raw := by
  have hlowered : ∀ c ∈ (trimChars raw.toList).flatMap toLowercase, c.toLower = c := by
    intro c hc
    obtain ⟨d, -, hd⟩ := List.mem_flatMap.1 hc
    exact toLower_of_mem_toLowercase hd
  have hwritten := isRoleChar_roleNameChars false (List.forall_mem_nil _) hlowered
  obtain ⟨d, hshape⟩ := roleShape_roleNameChars (.bare (fun _ => rfl) rfl)
    ((trimChars raw.toList).flatMap toLowercase)
  have hname : (normalizeRoleName raw).toList =
      stripHyphens (roleNameChars [] false ((trimChars raw.toList).flatMap toLowercase)) :=
    String.toList_ofList
  generalize roleNameChars [] false ((trimChars raw.toList).flatMap toLowercase) = out
    at hwritten hshape hname
  obtain ⟨hroled, hbare⟩ := hshape.stripped
  have hchars : ∀ c ∈ stripHyphens out, IsRoleChar c := by
    intro c hc
    refine hwritten c (List.mem_reverse.1 ?_)
    exact (List.dropWhile_sublist _).subset (List.mem_reverse.1 hc)
  have htrim := trimChars_of_forall (fun c hc => (hchars c hc).not_whitespace)
  have hlower : (stripHyphens out).flatMap toLowercase = stripHyphens out := by
    calc (stripHyphens out).flatMap toLowercase
        = (stripHyphens out).flatMap (fun c => [c]) :=
          List.flatMap_congr (fun c hc => (hchars c hc).toLowercase)
      _ = stripHyphens out := List.flatMap_singleton' _
  have hagain := hroled []
  rw [List.append_nil, roleNameChars] at hagain
  have hraw : normalizeRoleName raw = String.ofList (stripHyphens out) := by
    rw [← hname, String.ofList_toList]
  rw [hraw]
  change String.ofList (stripHyphens (roleNameChars [] false
    ((trimChars (String.ofList (stripHyphens out)).toList).flatMap toLowercase))) = _
  rw [String.toList_ofList, htrim, hlower, hagain, hbare]

end Democrachat
