import Democrachat.App.Mentions
import Democrachat.System.Ops

/-!
# Mentions and handles

A token is looked up lowercased and a handle is stored as it was registered, so a mention
reaches a member by the handle where the handle has no capital letter, and only there.
-/

namespace Democrachat

open Library

/-! ## What is claimed -/

def toLowerString (name : String) : String := String.ofList (toLowerChars name.toList)

/-- The name is one that a token can spell. -/
def IsMentionable (name : String) : Prop :=
  name.toList ≠ [] ∧ ∀ c ∈ name.toList, isWordByte c = true

/-- The name stands in the body after an `@`, in any mixture of cases and as a word. -/
def Mentions (body name : String) : Prop :=
  ∃ pre written post, MentionedAt false body.toList pre written post ∧
    toLowerChars written = toLowerChars name.toList

namespace Inner

variable (s : Inner)

/-- The server at the slug has the member, whom no role there is called after. -/
structure HasMember (slug : String) (server : Server) (user : User) : Prop where
  serverFound : s.findBySlug (trim slug) = some server
  userFound : s.getUser user.id = some user
  member : (s.getMembership user.id server.id).isSome = true
  mentionable : IsMentionable user.handle
  noStandingRole : StandingRole.fromToken (toLowerString user.handle) = none
  noRole : s.findRole server.id (toLowerString user.handle) = none

/-- Every mention of a member by the handle reaches the member. -/
def MentionsReach : Prop :=
  ∀ slug server user body, s.HasMember slug server user → Mentions body user.handle →
    user.handle ∈ s.mentionedHandles slug body

/-- Whom a role of the name addresses. -/
def roleHandles (sid : ServerId) (name : String) : List String :=
  match StandingRole.fromToken name with
  | some standing => s.membersAdmittedBy sid standing
  | none => ((s.findRole sid name).map (fun role => s.handlesOf (s.holders role.id))).getD []

/-- The account that is found under the handle is a member of the server. -/
def FindsMember (sid : ServerId) (handle : String) : Prop :=
  ∃ user, s.findByHandle handle = some user ∧ (s.getMembership user.id sid).isSome = true

end Inner

/-! ## Lower case -/

theorem toLowerChars_toLowerChars (cs : List Char) :
    toLowerChars (toLowerChars cs) = toLowerChars cs := by
  simp [toLowerChars, Function.comp_def, toLower_toLower]

theorem toLowerString_ofList (cs : List Char) :
    toLowerString (String.ofList (toLowerChars cs)) = String.ofList (toLowerChars cs) := by
  rw [toLowerString, String.toList_ofList, toLowerChars_toLowerChars]

theorem isWord_of_toLowerChars {cs ds : List Char} (h : toLowerChars cs = toLowerChars ds)
    (hword : ∀ c ∈ ds, isWordByte c = true) : ∀ c ∈ cs, isWordByte c = true := by
  intro c hc
  have hlower : c.toLower ∈ toLowerChars ds := by
    rw [← h]
    exact List.mem_map_of_mem hc
  obtain ⟨d, hd, heq⟩ := List.mem_map.1 hlower
  rw [← isWordByte_toLower, ← heq, isWordByte_toLower]
  exact hword d hd

/-- A mention of a name that a token can spell gives the token. -/
theorem Mentions.tokened {body name : String} (h : Mentions body name)
    (hname : IsMentionable name) : Tokened false body.toList (toLowerString name) := by
  obtain ⟨pre, written, post, hat, hlower⟩ := h
  refine ⟨pre, written, post, hat, ?_, isWord_of_toLowerChars hlower hname.2, ?_⟩
  · rintro rfl
    have hlength := congrArg List.length hlower
    simp only [toLowerChars, List.map_nil, List.length_nil, List.length_map] at hlength
    exact hname.1 (List.eq_nil_of_length_eq_zero hlength.symm)
  · rw [toLowerString, hlower]

/-! ## Whom a body addresses -/

theorem mem_foldl_pushNew {tokens out : List String} {t : String} :
    t ∈ tokens.foldl pushNew out ↔ t ∈ out ∨ t ∈ tokens := by
  induction tokens generalizing out with
  | nil => simp
  | cons token tokens ih => rw [List.foldl_cons, ih, mem_pushNew, List.mem_cons, or_assoc]

section Addressed

variable {s : Inner} {sid : ServerId} {token h : String}

/-- A token addresses whom a role of the name does, or the member of that very handle. -/
theorem mem_resolveOne : h ∈ (s.resolveOne sid token).handles ↔
    h ∈ s.roleHandles sid token ∨
      (StandingRole.fromToken token = none ∧ s.findRole sid token = none ∧ h = token ∧
        s.FindsMember sid token) := by
  unfold Inner.resolveOne Inner.roleHandles Inner.FindsMember
  cases StandingRole.fromToken token with
  | some standing => simp
  | none =>
    cases s.findRole sid token with
    | some role => simp
    | none =>
      cases hfound : s.findByHandle token with
      | none => simp
      | some user =>
        have hhandle : user.handle = token := by simpa using List.find?_some hfound
        by_cases hmember : (s.getMembership user.id sid).isSome = true
        · simp [hmember, hhandle]
        · simp [hmember]

theorem mem_mentionedHandles {slug body : String} {server : Server}
    (hserver : s.findBySlug (trim slug) = some server) :
    h ∈ s.mentionedHandles slug body ↔
      ∃ token, Tokened false body.toList token ∧ h ∈ (s.resolveOne server.id token).handles := by
  rw [Inner.mentionedHandles, mem_foldl_pushNew, or_iff_right List.not_mem_nil,
    Inner.resolveMentions, hserver]
  simp only [List.mem_flatMap, List.mem_map, mem_parseMentions]
  constructor
  · rintro ⟨_, ⟨token, htoken, rfl⟩, hh⟩
    exact ⟨token, htoken, hh⟩
  · rintro ⟨token, htoken, hh⟩
    exact ⟨_, ⟨token, htoken, rfl⟩, hh⟩

end Addressed

/-- A mention of a member by the handle reaches the member exactly where the handle has no
capital letter and finds a member, or where the body has a token of a role that addresses the
handle; and where no other account has the handle, it finds the member. -/
theorem mentions_reach_iff (s : Inner) (slug body : String) (server : Server) (user : User)
    (hmember : s.HasMember slug server user) (hbody : Mentions body user.handle) :
    (user.handle ∈ s.mentionedHandles slug body ↔
      (toLowerString user.handle = user.handle ∧ s.FindsMember server.id user.handle) ∨
        ∃ token, Tokened false body.toList token ∧
          user.handle ∈ s.roleHandles server.id token) ∧
    ((∀ v ∈ s.users.rows, v.handle = user.handle → v = user) →
      s.FindsMember server.id user.handle) := by
  constructor
  · rw [mem_mentionedHandles hmember.serverFound]
    constructor
    · rintro ⟨token, htoken, haddressed⟩
      rcases mem_resolveOne.1 haddressed with hrole | ⟨-, -, rfl, hfinds⟩
      · exact .inr ⟨token, htoken, hrole⟩
      · obtain ⟨-, written, -, -, -, -, hwritten⟩ := htoken
        refine .inl ⟨?_, hfinds⟩
        rw [hwritten, toLowerString_ofList]
    · rintro (⟨hlower, hfinds⟩ | ⟨token, htoken, hrole⟩)
      · have hstanding := hmember.noStandingRole
        have hrole := hmember.noRole
        have htoken := hbody.tokened hmember.mentionable
        rw [hlower] at hstanding hrole htoken
        exact ⟨user.handle, htoken, mem_resolveOne.2 (.inr ⟨hstanding, hrole, rfl, hfinds⟩)⟩
      · exact ⟨token, htoken, mem_resolveOne.2 (.inl hrole)⟩
  · intro hsole
    have huser : user ∈ s.users.rows := Table.mem_of_get hmember.userFound
    cases hfound : s.findByHandle user.handle with
    | none =>
      have hmissed := List.find?_eq_none.1 hfound user huser
      simp at hmissed
    | some v =>
      have hhandle : v.handle = user.handle := by simpa using List.find?_some hfound
      obtain rfl := hsole v (List.mem_of_find?_eq_some hfound) hhandle
      exact ⟨v, hfound, hmember.member⟩

namespace Agora

/-- A member with a capital letter in the handle, and one without. -/
def spelling : List Op :=
  founding ++ [.registerAccount "Ann", .joinServer "Ann" "agora", .registerAccount "bob",
    .joinServer "bob" "agora"]

def spelled : Inner := (services.run (.empty 0 ⟨0⟩) spelling).store

def capitalAnn : User := { User.new (composeId 0 2) "Ann" ⟨0⟩ with emailVerified := true }

def smallBob : User := { User.new (composeId 0 3) "bob" ⟨0⟩ with emailVerified := true }

theorem hasMember_capitalAnn : spelled.HasMember "agora" server capitalAnn where
  serverFound := by decide +kernel
  userFound := by decide +kernel
  member := by decide +kernel
  mentionable := ⟨by decide, List.all_eq_true.1 (by decide)⟩
  noStandingRole := by decide +kernel
  noRole := by decide +kernel

theorem hasMember_smallBob : spelled.HasMember "agora" server smallBob where
  serverFound := by decide +kernel
  userFound := by decide +kernel
  member := by decide +kernel
  mentionable := ⟨by decide, List.all_eq_true.1 (by decide)⟩
  noStandingRole := by decide +kernel
  noRole := by decide +kernel

end Agora

theorem mentions_reach_bob : "bob" ∈ Agora.spelled.mentionedHandles "agora" "where is @BOB?" := by
  have hbody : Mentions "where is @BOB?" "bob" :=
    ⟨"where is ".toList, "BOB".toList, "?".toList,
      ⟨by decide, by decide, fun _ h => Option.some.inj h ▸ rfl⟩, by decide⟩
  have hreach := mentions_reach_iff Agora.spelled "agora" "where is @BOB?" Agora.server
    Agora.smallBob Agora.hasMember_smallBob hbody
  exact hreach.1.2 (.inl ⟨by decide, hreach.2 (by decide +kernel)⟩)

/-- The member whose handle has a capital letter is mentioned as she spells it, and missed. -/
theorem mention_missed : ¬ Agora.spelled.MentionsReach := by
  intro hclaim
  have hbody : Mentions "hello @Ann" "Ann" :=
    ⟨"hello ".toList, "Ann".toList, [], ⟨by decide, by decide, nofun⟩, by decide⟩
  have hlisted := hclaim "agora" Agora.server Agora.capitalAnn "hello @Ann"
    Agora.hasMember_capitalAnn hbody
  have hnobody : Agora.spelled.mentionedHandles "agora" "hello @Ann" = [] := by decide +kernel
  rw [hnobody] at hlisted
  cases hlisted

end Democrachat
