import Democrachat.Properties.MentionGrammar
import Democrachat.Properties.Names
import Mathlib.Computability.Language
import Mathlib.Data.List.TakeWhile

/-!
# Normal forms as grammars

What each normalizing function makes is of a grammar of its own, and it makes again what it
has made.  A role is mentioned by the name under which it is stored.
-/

namespace Democrachat

open Library
open scoped Computability

/-! ## Slugs -/

/-- One of `a-z` and `0-9`. -/
def IsSlugChar (c : Char) : Prop :=
  (48 ≤ c.toNat ∧ c.toNat ≤ 57) ∨ (97 ≤ c.toNat ∧ c.toNat ≤ 122)

/-- `[a-z0-9]+` -/
def slugWord : Language Char := {cs | cs ≠ [] ∧ ∀ c ∈ cs, IsSlugChar c}

/-- `[a-z0-9]+(-[a-z0-9]+)*` -/
def slugGrammar : Language Char := slugWord * ({['-']} * slugWord)∗

theorem isSlugChar_toLower {c : Char} (h : isAsciiAlphanumeric c = true) :
    IsSlugChar c.toLower := by
  have hrange := isAlphanum_iff.1 h
  rw [IsSlugChar, toNat_toLower]
  split <;> omega

section Slug

variable {out : List Char} {c : Char}

theorem singleton_mem_slugWord (hc : IsSlugChar c) : [c] ∈ slugWord :=
  ⟨List.cons_ne_nil _ _, by simpa using hc⟩

theorem concat_mem_slugWord (h : out ∈ slugWord) (hc : IsSlugChar c) : out ++ [c] ∈ slugWord := by
  refine ⟨by simp, fun d hd => ?_⟩
  rcases List.mem_append.1 hd with hd | hd
  · exact h.2 d hd
  · rw [List.mem_singleton.1 hd]
    exact hc

theorem singleton_mem_slugGrammar (hc : IsSlugChar c) : [c] ∈ slugGrammar := by
  apply Language.mem_mul.2
  exact ⟨[c], singleton_mem_slugWord hc, [], Language.nil_mem_kstar _, rfl⟩

/-- The last word grows by a letter. -/
theorem concat_mem_slugGrammar (h : out ∈ slugGrammar) (hc : IsSlugChar c) :
    out ++ [c] ∈ slugGrammar := by
  obtain ⟨word, hword, rest, hrest, rfl⟩ := Language.mem_mul.1 h
  obtain ⟨parts, rfl, hparts⟩ := Language.mem_kstar.1 hrest
  apply Language.mem_mul.2
  rcases List.eq_nil_or_concat parts with rfl | ⟨front, part, rfl⟩
  · refine ⟨word ++ [c], concat_mem_slugWord hword hc, [], Language.nil_mem_kstar _, by simp⟩
  · rw [List.concat_eq_append] at hparts ⊢
    obtain ⟨dash, hdash, last, hlast, rfl⟩ := Language.mem_mul.1 (hparts part (by simp))
    refine ⟨word, hword, (front ++ [dash ++ (last ++ [c])]).flatten, ?_, by simp⟩
    refine Language.mem_kstar.2 ⟨_, rfl, fun y hy => ?_⟩
    rcases List.mem_append.1 hy with hy | hy
    · exact hparts y (List.mem_append_left _ hy)
    · rw [List.mem_singleton.1 hy]
      exact Language.mem_mul.2 ⟨dash, hdash, _, concat_mem_slugWord hlast hc, rfl⟩

/-- A new word starts behind a hyphen. -/
theorem hyphen_mem_slugGrammar (h : out ∈ slugGrammar) (hc : IsSlugChar c) :
    out ++ ['-'] ++ [c] ∈ slugGrammar := by
  obtain ⟨word, hword, rest, hrest, rfl⟩ := Language.mem_mul.1 h
  obtain ⟨parts, rfl, hparts⟩ := Language.mem_kstar.1 hrest
  apply Language.mem_mul.2
  refine ⟨word, hword, (parts ++ [['-', c]]).flatten, ?_, by simp⟩
  refine Language.mem_kstar.2 ⟨_, rfl, fun y hy => ?_⟩
  rcases List.mem_append.1 hy with hy | hy
  · exact hparts y hy
  · rw [List.mem_singleton.1 hy]
    exact Language.mem_mul.2 ⟨['-'], rfl, [c], singleton_mem_slugWord hc, rfl⟩

theorem slugifyChars_mem (pendingHyphen : Bool) (cs : List Char)
    (h : out = [] ∨ out ∈ slugGrammar) :
    slugifyChars out pendingHyphen cs = [] ∨ slugifyChars out pendingHyphen cs ∈ slugGrammar := by
  induction cs generalizing out pendingHyphen with
  | nil => exact h
  | cons c cs ih =>
    rw [slugifyChars]
    split
    next hc =>
      have hlower := isSlugChar_toLower hc
      refine ih false (.inr ?_)
      rcases h with rfl | h
      · simpa using singleton_mem_slugGrammar hlower
      · split
        next => exact hyphen_mem_slugGrammar h hlower
        next => exact concat_mem_slugGrammar h hlower
    next => exact ih true h

theorem slugify_grammar (s : String) : slugify s = "" ∨ (slugify s).toList ∈ slugGrammar := by
  rcases slugifyChars_mem false s.toList (.inl rfl) with h | h
  · left
    rw [slugify, h]
  · right
    rw [slugify, String.toList_ofList]
    exact h

end Slug

/-! ## Role names -/

/-- Over `[a-z0-9_-]`, without a leading, trailing or double hyphen. -/
structure RoleGrammar (cs : List Char) : Prop where
  letters : ∀ c ∈ cs, IsSlugChar c ∨ c = '_' ∨ c = '-'
  leading : cs.head? ≠ some '-'
  trailing : cs.getLast? ≠ some '-'
  double : cs.IsChain (fun a b => a ≠ '-' ∨ b ≠ '-')

/-- What the loop has written; `prevDash` says whether it ends in a hyphen. -/
structure RoleWritten (out : List Char) (prevDash : Bool) : Prop where
  leading : out.head? ≠ some '-'
  dashed : out.getLast? = some '-' → prevDash = true
  double : out.IsChain (fun a b => a ≠ '-' ∨ b ≠ '-')

namespace RoleWritten

variable {out : List Char} {prevDash : Bool}

theorem nil : RoleWritten [] false := ⟨by simp, by simp, .nil⟩

theorem append_char (h : RoleWritten out prevDash) {c : Char} (hc : c ≠ '-') :
    RoleWritten (out ++ [c]) false where
  leading := by
    cases out with
    | nil => simpa using hc
    | cons d out => exact h.leading
  dashed := by simp [hc]
  double := List.isChain_append.2 ⟨h.double, .singleton c, fun a _ b hb => .inr (by
    rw [← Option.mem_some_iff.1 hb]
    exact hc)⟩

theorem append_hyphen (h : RoleWritten out false) (hout : out.isEmpty = false) :
    RoleWritten (out ++ ['-']) true where
  leading := by
    cases out with
    | nil => cases hout
    | cons d out => exact h.leading
  dashed := fun _ => rfl
  double := List.isChain_append.2 ⟨h.double, .singleton '-', fun a ha b hb => .inl (by
    rintro rfl
    cases h.dashed ha)⟩

theorem roleNameChars (h : RoleWritten out prevDash) (cs : List Char) :
    ∃ d, RoleWritten (Democrachat.roleNameChars out prevDash cs) d := by
  induction cs generalizing out prevDash with
  | nil => exact ⟨prevDash, h⟩
  | cons c cs ih =>
    rw [Democrachat.roleNameChars]
    split
    next hc =>
      refine ih (h.append_char ?_)
      rintro rfl
      cases hc
    next =>
      split
      next hdash =>
        simp only [Bool.and_eq_true, Bool.not_eq_true'] at hdash
        obtain ⟨⟨-, hout⟩, rfl⟩ := hdash
        exact ih (h.append_hyphen hout)
      next => exact ih h

/-- Only the end is stripped. -/
theorem stripped (h : RoleWritten out prevDash)
    (hletters : ∀ c ∈ out, IsSlugChar c ∨ c = '_' ∨ c = '-') : RoleGrammar (stripHyphens out) := by
  obtain ⟨rest, hrest⟩ : stripHyphens out <+: out := by
    rw [stripHyphens, ← List.reverse_suffix, List.reverse_reverse]
    exact List.dropWhile_suffix _
  rw [← hrest] at h hletters
  refine ⟨fun c hc => hletters c (List.mem_append_left _ hc), ?_, ?_, h.double.left_of_append⟩
  · intro hhead
    have hleading := h.leading
    rw [List.head?_append, hhead] at hleading
    exact hleading rfl
  · intro hlast
    have hstop := List.head?_dropWhile_not (· == '-') out.reverse
    rw [stripHyphens, List.getLast?_reverse] at hlast
    rw [hlast] at hstop
    simp at hstop

end RoleWritten

theorem IsRoleChar.slugChar {c : Char} (h : IsRoleChar c) : IsSlugChar c ∨ c = '_' ∨ c = '-' := by
  refine h.imp_left (fun halnum => ?_)
  have hrange := isAlphanum_iff.1 halnum.1
  have hlower := congrArg Char.toNat halnum.2
  rw [toNat_toLower] at hlower
  unfold IsSlugChar
  split at hlower <;> omega

theorem normalizeRoleName_grammar (raw : String) : RoleGrammar (normalizeRoleName raw).toList := by
  have hlowered : ∀ c ∈ (trimChars raw.toList).flatMap toLowercase, c.toLower = c := by
    intro c hc
    obtain ⟨d, -, hd⟩ := List.mem_flatMap.1 hc
    exact toLower_of_mem_toLowercase hd
  have hletters := isRoleChar_roleNameChars false (List.forall_mem_nil _) hlowered
  obtain ⟨d, hwritten⟩ := RoleWritten.nil.roleNameChars ((trimChars raw.toList).flatMap toLowercase)
  rw [normalizeRoleName, String.toList_ofList]
  exact hwritten.stripped (fun c hc => (hletters c hc).slugChar)

/-! ## Role names in texts -/

theorem isWordByte_of_role {c : Char} (h : IsSlugChar c ∨ c = '_' ∨ c = '-') :
    isWordByte c = true ∧ isAt c = false ∧ c.toLower = c := by
  rcases h with hslug | rfl | rfl
  · have halnum : isAsciiAlphanumeric c = true := isAlphanum_iff.2 (by
      unfold IsSlugChar at hslug
      omega)
    refine ⟨by rw [isWordByte, halnum, Bool.true_or, Bool.true_or], ?_, ?_⟩
    · have hat : '@'.toNat = 64 := rfl
      rw [isAt, beq_eq_false_iff_ne, ne_eq, ← Char.toNat_inj, hat]
      unfold IsSlugChar at hslug
      omega
    · apply toLower_of_not_isUpper
      unfold IsSlugChar at hslug
      omega
  · decide
  · decide

/-- A text that is an `@` and a role name mentions the name. -/
theorem parseMentions_of_roleGrammar {name : String} (h : RoleGrammar name.toList)
    (hne : name ≠ "") : Bytes.parseMentions ("@" ++ name) = some [name] := by
  have hword : ∀ c ∈ name.toList, isWordByte c = true :=
    fun c hc => (isWordByte_of_role (h.letters c hc)).1
  have htake : name.toList.takeWhile isWordByte = name.toList :=
    List.takeWhile_eq_self_iff.2 hword
  have hchars : name.toList ≠ [] := by
    rw [ne_eq, String.toList_eq_nil_iff]
    exact hne
  have hrest : spans isAt isWordByte (isWordByte '@') 1 name.toList = [] :=
    spans_eq_nil (fun c hc => (isWordByte_of_role (h.letters c hc)).2.1)
  have hlower : toLowerChars name.toList = name.toList := by
    refine (List.map_congr_left (fun c hc => ?_)).trans (List.map_id _)
    exact (isWordByte_of_role (h.letters c hc)).2.2
  have htext : ("@" ++ name).toList = '@' :: name.toList := by
    rw [String.toList_append]
    rfl
  rw [Bytes.parseMentions_eq_some, parseMentions, htext, parseMentionsFrom_eq false 0, spans, htake,
    if_pos ⟨rfl, rfl, hchars⟩, hrest]
  show some (addNew [] (String.ofList (toLowerChars name.toList))) = some [name]
  rw [hlower, String.ofList_toList]
  rfl

/-- What the normalizing functions make of a text. -/
structure Normalizes (s : String) : Prop where
  channel : normalizeChannelName s = slugify s
  slugAgain : slugify (slugify s) = slugify s
  channelAgain : normalizeChannelName (normalizeChannelName s) = normalizeChannelName s
  roleAgain : normalizeRoleName (normalizeRoleName s) = normalizeRoleName s
  emojiAgain : normalizeEmojiName (normalizeEmojiName s) = normalizeEmojiName s
  slugForm : slugify s = "" ∨ (slugify s).toList ∈ slugGrammar
  roleForm : normalizeRoleName s = "" ∨ RoleGrammar (normalizeRoleName s).toList
  mentionable : normalizeRoleName s ≠ "" →
    Bytes.parseMentions ("@" ++ normalizeRoleName s) = some [normalizeRoleName s]

theorem normalizers_project (s : String) : Normalizes s ∧
    ∀ (services : Services) (w : World), services.Served w → ∀ r ∈ w.store.roles.rows,
      Bytes.parseMentions ("@" ++ r.name) = some [r.name] := by
  refine ⟨?_, fun services w hw r hr => ?_⟩
  · exact {
      channel := rfl
      slugAgain := slugify_slugify s
      channelAgain := normalizeChannelName_normalizeChannelName s
      roleAgain := normalizeRoleName_normalizeRoleName s
      emojiAgain := normalizeEmojiName_normalizeEmojiName s
      slugForm := slugify_grammar s
      roleForm := .inr (normalizeRoleName_grammar s)
      mentionable := parseMentions_of_roleGrammar (normalizeRoleName_grammar s) }
  · obtain ⟨hne, hname⟩ := hw.namesSound.roles.named r hr
    rw [← hname] at hne ⊢
    refine parseMentions_of_roleGrammar (normalizeRoleName_grammar r.name) (fun hempty => ?_)
    rw [hempty] at hne
    cases hne

end Democrachat
