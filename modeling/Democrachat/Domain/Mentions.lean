import Democrachat.Domain.Membership
import Democrachat.Domain.NormalForms
import Democrachat.Library.Tokens

/-!
# Mentions

`domain/src/chat/parse_mentions.rs` and `domain/src/roles/standing_role.rs`.  The source goes
over the bytes of a body: no byte of a character outside ASCII is a word byte or an `@`, so it
is the same to go over the characters.
-/

namespace Democrachat

open Library

/-! ## Tokens -/

def isWordByte (c : Char) : Bool := isAsciiAlphanumeric c || c == '_' || c == '-'

/-- `to_lowercase` of a token, which is ASCII. -/
def toLowerChars (cs : List Char) : List Char := cs.map Char.toLower

def pushNew (out : List String) (token : String) : List String :=
  if out.contains token then out else out ++ [token]

/-- The loop of `parse_mentions`; `afterWord` says of the character before these whether it
blocks a mention.  The source jumps over the token, in which there is no `@`. -/
def parseMentionsFrom (afterWord : Bool) (out : List String) : List Char → List String
  | [] => out
  | c :: cs =>
    let token := cs.takeWhile isWordByte
    if c = '@' ∧ afterWord = false ∧ token ≠ [] then
      parseMentionsFrom (isWordByte c) (pushNew out (String.ofList (toLowerChars token))) cs
    else
      parseMentionsFrom (isWordByte c) out cs

def parseMentions (body : String) : List String := parseMentionsFrom false [] body.toList

example : parseMentions "mail a@b.com, @Ada and @BOB: @ada!" = ["ada", "bob"] := by decide

/-! ## Standing roles -/

inductive StandingRole where
  | everyone | members | citizens
deriving DecidableEq

namespace StandingRole

def all : List StandingRole := [everyone, members, citizens]

def name : StandingRole → String
  | everyone => "everyone"
  | members => "members"
  | citizens => "citizens"

def fromToken (token : String) : Option StandingRole :=
  all.find? (fun r => r.name == token)

def admits : StandingRole → Tier → Bool
  | everyone, tier => tier == .member || tier == .citizen
  | members, tier => tier == .member
  | citizens, tier => tier == .citizen

theorem fromToken_eq_some {token : String} {r : StandingRole} :
    fromToken token = some r ↔ r.name = token := by
  constructor
  · intro h
    simpa using List.find?_some h
  · rintro rfl
    cases r <;> decide

end StandingRole

/-! ## What is mentioned -/

/-- The written token stands in the text after an `@`, with nothing of a word before the `@`
or after the token. -/
structure MentionedAt (afterWord : Bool) (cs pre written post : List Char) : Prop where
  text : cs = pre ++ '@' :: (written ++ post)
  before : (pre.getLast?.map isWordByte).getD afterWord = false
  after : ∀ c ∈ post.head?, isWordByte c = false

theorem pushNew_eq_addNew (out : List String) (token : String) :
    pushNew out token = addNew out token := by
  simp [pushNew, addNew]

theorem mem_pushNew {out : List String} {token t : String} :
    t ∈ pushNew out token ↔ t ∈ out ∨ t = token := by
  rw [pushNew_eq_addNew, mem_addNew]

theorem isWordByte_toLower (c : Char) : isWordByte c.toLower = isWordByte c := by
  by_cases hupper : 65 ≤ c.toNat ∧ c.toNat ≤ 90
  · have halnum : c.isAlphanum = true := isAlphanum_iff.2 (.inr (.inl hupper))
    have hlower : c.toLower.isAlphanum = true := (isAlphanum_toLower c).trans halnum
    simp only [isWordByte, isAsciiAlphanumeric, halnum, hlower, Bool.true_or]
  · rw [toLower_of_not_isUpper hupper]

/-- The lowercased token is one of the body's. -/
def Tokened (afterWord : Bool) (cs : List Char) (t : String) : Prop :=
  ∃ pre written post, MentionedAt afterWord cs pre written post ∧ written ≠ [] ∧
    (∀ c ∈ written, isWordByte c = true) ∧ t = String.ofList (toLowerChars written)

/-- An `@`, as a mark before a token. -/
def isAt (c : Char) : Bool := c == '@'

theorem tokenAt_iff {afterWord : Bool} {cs pre written post : List Char} :
    TokenAt isAt isWordByte afterWord cs pre written post ↔
      MentionedAt afterWord cs pre written post ∧ written ≠ [] ∧
        ∀ c ∈ written, isWordByte c = true := by
  constructor
  · intro h
    obtain ⟨m, hm, htext⟩ := h.split
    obtain rfl : m = '@' := by simpa [isAt] using hm
    exact ⟨⟨htext, h.before, h.maximal⟩, h.nonempty, h.letters⟩
  · rintro ⟨hat, hne, hletters⟩
    exact ⟨⟨'@', rfl, hat.text⟩, hat.before, hne, hletters, hat.after⟩

/-- The tokens are the runs of word characters after an `@` that no word character precedes,
lowercased. -/
theorem parseMentionsFrom_eq (afterWord : Bool) (pos : Nat) (out : List String) (cs : List Char) :
    parseMentionsFrom afterWord out cs =
      ((spans isAt isWordByte afterWord pos cs).map
        (fun p => String.ofList (toLowerChars p.2))).foldl addNew out := by
  induction cs generalizing afterWord pos out with
  | nil => rfl
  | cons c cs ih =>
    have hat : isAt c = true ↔ c = '@' := by simp [isAt]
    rw [parseMentionsFrom, spans]
    simp only [hat]
    split
    next =>
      rw [ih _ (pos + 1), List.map_cons, List.foldl_cons, pushNew_eq_addNew]
    next => rw [ih _ (pos + 1)]

theorem mem_parseMentionsFrom {afterWord : Bool} {out : List String} {cs : List Char}
    {t : String} :
    t ∈ parseMentionsFrom afterWord out cs ↔ t ∈ out ∨ Tokened afterWord cs t := by
  rw [parseMentionsFrom_eq afterWord 0, mem_foldl_addNew]
  refine or_congr_right ?_
  simp only [List.mem_map, Prod.exists, mem_spans, tokenAt_iff]
  constructor
  · rintro ⟨k, written, ⟨pre, post, ⟨hat, hne, hletters⟩, -⟩, rfl⟩
    exact ⟨pre, written, post, hat, hne, hletters, rfl⟩
  · rintro ⟨pre, written, post, hat, hne, hletters, rfl⟩
    exact ⟨_, written, ⟨pre, post, ⟨hat, hne, hletters⟩, rfl⟩, rfl⟩

theorem mem_parseMentions {body t : String} :
    t ∈ parseMentions body ↔ Tokened false body.toList t := by
  rw [parseMentions, mem_parseMentionsFrom, or_iff_right List.not_mem_nil]

end Democrachat
