import Democrachat.Federation.Ingest

/-!
# The rows of a replica

Which rows a replica holds, which scope each belongs to, and what one applied
change does to them: a row keeps its content unless the change names its key.
-/

namespace Democrachat

open Library

/-! ## Rows and their scopes -/

/-- The scope a row belongs to, as far as its own fields tell. -/
def Row.derived : Row → Federation.DerivedScope
  | user u => .owned (.userHome u.id)
  | server g => .owned (.server g.id)
  | invite i => .owned (.server i.serverId)
  | membership m => .owned (.server m.serverId)
  | channel c => .owned (.server c.serverId)
  | message m => .owned (.server m.serverId)
  | reaction r => .viaMessage r.messageId
  | proposal p => .owned (.server p.serverId)
  | vote v => .viaProposal v.proposalId
  | rule r => .owned (.server r.serverId)
  | role r => .owned (.server r.serverId)
  | roleAssignment a => .owned (.server a.serverId)
  | emoji e => .owned (.server e.serverId)
  | emojiVote v => .owned (.server v.serverId)
  | dm m => .owned (.userHome m.sender)
  | block b => .owned (.userHome b.blocker)
  | friendship f => .owned (.userHome f.requester)
  | userKeys k => .owned (.userHome k.userId)
  | channelGrant g => .owned (.server g.serverId)

namespace Inner

/-- The row is stored, with exactly this content. -/
def Holds (s : Inner) : Row → Prop
  | .user u => u ∈ s.users.rows
  | .server g => g ∈ s.servers.rows
  | .invite i => i ∈ s.invites.rows
  | .membership m => m ∈ s.memberships.rows
  | .channel c => c ∈ s.channels.rows
  | .message m => m ∈ s.messages.rows
  | .reaction r => r ∈ s.reactions
  | .proposal p => p ∈ s.proposals.rows
  | .vote v => v ∈ s.votes
  | .rule r => r ∈ s.rules.rows
  | .role r => r ∈ s.roles.rows
  | .roleAssignment a => a ∈ s.roleAssignments
  | .emoji e => e ∈ s.emojis.rows
  | .emojiVote v => v ∈ s.emojiVotes
  | .dm m => m ∈ s.dms
  | .block b => b ∈ s.blocks
  | .friendship f => f ∈ s.friends
  | .userKeys k => k ∈ s.userKeys.rows
  | .channelGrant g => g ∈ s.channelGrants.rows

/-- The row belongs to a scope, and it is not this one. -/
def Foreign (s : Inner) (scope : Federation.OwnedScope) (row : Row) : Prop :=
  ∃ other, row.derived.resolve (Federation.storeResolver s) = .ok other ∧ other ≠ scope

theorem Foreign.not_derived {s : Inner} {scope : Federation.OwnedScope} {row : Row}
    (h : s.Foreign scope row) :
    ¬ row.derived.resolve (Federation.storeResolver s) = .ok scope := by
  obtain ⟨other, hother, hdiffers⟩ := h
  rw [hother]
  exact fun heq => hdiffers (Except.ok.inj heq)

end Inner

/-! ## What a change names -/

/-- The key under which the first row is stored is the second row's. -/
def Row.replaces : Row → Row → Bool
  | user a, user b => b.id == a.id
  | server a, server b => b.id == a.id
  | invite a, invite b => b.codeHash == a.codeHash
  | membership a, membership b => b.key == a.key
  | channel a, channel b => b.id == a.id
  | message a, message b => b.id == a.id
  | proposal a, proposal b => b.id == a.id
  | vote a, vote b => b.proposalId == a.proposalId && b.voter == a.voter
  | rule a, rule b => b.id == a.id
  | role a, role b => b.id == a.id
  | emoji a, emoji b => b.id == a.id
  | emojiVote a, emojiVote b => b.emojiId == a.emojiId && b.voter == a.voter
  | friendship a, friendship b => b.isBetween a.requester a.addressee
  | userKeys a, userKeys b => b.userId == a.userId
  | channelGrant a, channelGrant b => b.key == a.key
  | _, _ => false

/-- The deletion of the first row takes the second one with it. -/
def Row.removes : Row → Row → Bool
  | user a, user b => b.id == a.id
  | server a, server b => b.id == a.id
  | membership a, membership b => b.key == a.key
  | channel a, channel b => b.id == a.id
  | channel a, message b => b.channelId == a.id
  | message a, message b => b.id == a.id
  | proposal a, proposal b => b.id == a.id
  | rule a, rule b => b.id == a.id
  | role a, role b => b.id == a.id
  | role a, roleAssignment b => b.roleId == a.id
  | roleAssignment a, roleAssignment b => b.roleId == a.roleId && b.user == a.user
  | _, _ => false

namespace Inner

theorem holds_put {s : Inner} {r row : Row} (h : s.Holds row) :
    (s.put r).Holds row ↔ r.replaces row = false ∨ row = r := by
  cases r with
  | reaction r | roleAssignment r | dm r | block r =>
    -- Appended, or already there: nothing is replaced.
    refine ⟨fun _ => .inl (by cases row <;> rfl), fun _ => ?_⟩
    rw [put]
    split
    next => exact h
    next =>
      cases row <;> first
        | exact h
        | exact List.mem_append_left _ h
  | _ =>
    -- A row of another table is where it was.
    cases row <;> first
      | exact iff_of_true h (.inl rfl)
      | simp_all [put, Holds, Row.replaces, recordVote, or_comm, imp_iff_not_or]

theorem holds_drop {s : Inner} {r row : Row} :
    (s.drop r).Holds row ↔ s.Holds row ∧ r.removes row = false := by
  cases r <;> cases row <;> first
    | exact (and_iff_left rfl).symm
    | simp [drop, Holds, Row.removes, imp_iff_not_or]

end Inner

namespace Federation

/-- Tables whose key has the scope in it, or that are only ever added to. -/
def isKeyedByScope : Row → Bool
  | .user _ | .server _ | .membership _ | .vote _ | .reaction _ | .dm _ | .block _
  | .userKeys _ => true
  | _ => false

/-- The change names the key of the row. -/
def Change.names (row : Row) : Change → Bool
  | put r => r.replaces row
  | drop r => r.removes row
  | unreact p =>
    match row with
    | .reaction r => matchesReaction p r
    | _ => false

/-- What `serde_json::from_value` makes of a payload has the scope that the
payload names: a field is read from the entry of its name. -/
structure Wire.ReadsScopes (wire : Wire) : Prop where
  derived : ∀ {kind p row}, wire.row kind p = .ok row →
    classify kind.name p = .indeterminate ∨ classify kind.name p = row.derived

theorem classify_ofName? {entity : String} {kind : RowKind} (h : RowKind.ofName? entity = some kind)
    (p : Value) : classify entity p = classify kind.name p := by
  unfold classify
  rw [h, RowKind.ofName?_name]

theorem of_map_eq_ok {ε α β : Type} {f : α → β} {x : Except ε α} {b : β} (h : x.map f = .ok b) :
    ∃ a, x = .ok a ∧ f a = b := by
  cases x with
  | error e => cases h
  | ok a => exact ⟨a, rfl, Except.ok.inj h⟩

section

variable {wire : Wire} {part : SignedPart} {s : Inner} {scope : OwnedScope}

/-- A change puts or drops the row that the payload reads as, or takes back a reaction. -/
theorem change_cases {c : Change} (hchange : wire.change part = .ok c) :
    ∃ kind, RowKind.ofName? part.entity = some kind ∧
      ((∃ row, wire.row kind part.payload = .ok row ∧ (c = .put row ∨ c = .drop row)) ∨
        kind = .reactions ∧ c = .unreact part.payload) := by
  unfold Wire.change at hchange
  cases hkind : RowKind.ofName? part.entity with
  | none =>
    rw [hkind] at hchange
    cases hchange
  | some kind =>
    refine ⟨kind, rfl, ?_⟩
    simp only [hkind] at hchange
    cases hop : part.op with
    | upsert =>
      rw [hop] at hchange
      obtain ⟨row, hrow, rfl⟩ := of_map_eq_ok hchange
      exact .inl ⟨row, hrow, .inl rfl⟩
    | delete =>
      simp only [hop] at hchange
      split at hchange
      next hreactions => exact .inr ⟨hreactions, (Except.ok.inj hchange).symm⟩
      next =>
        split at hchange
        next =>
          obtain ⟨row, hrow, rfl⟩ := of_map_eq_ok hchange
          exact .inl ⟨row, hrow, .inr rfl⟩
        next => cases hchange

theorem row_of_change {row : Row}
    (hchange : wire.change part = .ok (.put row) ∨ wire.change part = .ok (.drop row)) :
    ∃ kind, RowKind.ofName? part.entity = some kind ∧ wire.row kind part.payload = .ok row := by
  obtain ⟨c, hc, hput⟩ : ∃ c, wire.change part = .ok c ∧ (c = .put row ∨ c = .drop row) := by
    rcases hchange with hchange | hchange
    · exact ⟨_, hchange, .inl rfl⟩
    · exact ⟨_, hchange, .inr rfl⟩
  obtain ⟨kind, hkind, ⟨row', hrow, hcases⟩ | ⟨-, rfl⟩⟩ := change_cases hc
  · rcases hcases with rfl | rfl
    · rcases hput with heq | heq <;> cases heq
      exact ⟨kind, hkind, hrow⟩
    · rcases hput with heq | heq <;> cases heq
      exact ⟨kind, hkind, hrow⟩
  · rcases hput with heq | heq <;> cases heq

theorem unreact_of_change {p : Value} (hchange : wire.change part = .ok (.unreact p)) :
    p = part.payload ∧ RowKind.ofName? part.entity = some .reactions := by
  obtain ⟨kind, hkind, ⟨row, -, heq | heq⟩ | ⟨rfl, heq⟩⟩ := change_cases hchange
  · cases heq
  · cases heq
  · exact ⟨Change.unreact.inj heq, hkind⟩

/-- A row that is upserted or deleted belongs to the scope under which its event is
accepted. -/
theorem derived_of_change (hwire : wire.ReadsScopes) {row : Row}
    (hchange : wire.change part = .ok (.put row) ∨ wire.change part = .ok (.drop row))
    (hscope : (classify part.entity part.payload).resolve (storeResolver s) = .ok scope) :
    row.derived.resolve (storeResolver s) = .ok scope := by
  obtain ⟨kind, hkind, hrow⟩ := row_of_change hchange
  rw [classify_ofName? hkind] at hscope
  rcases hwire.derived hrow with hnone | heq
  · rw [hnone] at hscope
    cases hscope
  · rwa [heq] at hscope

/-- A stored reaction that a deletion matches belongs to that scope too. -/
theorem derived_of_unreact {p : Value} (hchange : wire.change part = .ok (.unreact p))
    (hscope : (classify part.entity part.payload).resolve (storeResolver s) = .ok scope)
    {r : Reaction} (hmatches : matchesReaction p r = true) :
    (Row.reaction r).derived.resolve (storeResolver s) = .ok scope := by
  obtain ⟨rfl, hkind⟩ := unreact_of_change hchange
  have hid : payloadId part.payload "message_id" = some r.messageId := by
    simp only [matchesReaction, Bool.and_eq_true, beq_iff_eq] at hmatches
    have hfield := hmatches.1.1
    unfold payloadId payloadU64
    cases hget : part.payload.get "message_id" with
    | none => rw [hget] at hfield; cases hfield
    | some v =>
      rw [hget] at hfield
      cases v with
      | number n => exact hfield
      | _ => cases hfield
  rw [classify, hkind] at hscope
  simp only [hid] at hscope
  exact hscope

/-- A row of another scope keeps its content unless the change names its key. -/
theorem holds_applyIncoming (hwire : wire.ReadsScopes)
    (hscope : (classify part.entity part.payload).resolve (storeResolver s) = .ok scope)
    {row : Row} (hrow : s.Holds row) (hforeign : s.Foreign scope row) :
    (applyIncoming wire part s).2.Holds row ↔
      ∀ c, wire.change part = .ok c → c.names row = false := by
  cases hchange : wire.change part with
  | error e =>
    rw [applyIncoming_of_error hchange]
    simp [hrow]
  | ok c =>
    rw [applyIncoming_of_change hchange]
    simp only [Except.ok.injEq, forall_eq']
    cases c with
    | put r =>
      have hne : row ≠ r := by
        rintro rfl
        exact hforeign.not_derived (derived_of_change hwire (.inl hchange) hscope)
      simp [Change.apply, Change.names, Inner.holds_put hrow, hne]
    | drop r => simp [Change.apply, Change.names, Inner.holds_drop, hrow]
    | unreact p =>
      cases row <;> simp_all [Change.apply, Change.names, Inner.Holds]

theorem derived_of_replaces {r row : Row} (hkeyed : isKeyedByScope row = true)
    (h : r.replaces row = true) : r.derived = row.derived := by
  cases row <;> cases hkeyed <;> cases r <;> first
    | cases h
    | simp_all [Row.replaces, Row.derived, Membership.key]

theorem derived_of_removes {r row : Row} (hkeyed : isKeyedByScope row = true)
    (h : r.removes row = true) : r.derived = row.derived := by
  cases row <;> cases hkeyed <;> cases r <;> first
    | cases h
    | simp_all [Row.removes, Row.derived, Membership.key]

/-- Of these tables no change names a row of another scope. -/
theorem names_eq_false_of_keyed (hwire : wire.ReadsScopes)
    (hscope : (classify part.entity part.payload).resolve (storeResolver s) = .ok scope)
    {row : Row} (hforeign : s.Foreign scope row) (hkeyed : isKeyedByScope row = true)
    {c : Change} (hchange : wire.change part = .ok c) : c.names row = false := by
  have hsame : ∀ r : Row, (wire.change part = .ok (.put r) ∨ wire.change part = .ok (.drop r)) →
      r.derived ≠ row.derived := by
    intro r hr heq
    refine hforeign.not_derived ?_
    rw [← heq]
    exact derived_of_change hwire hr hscope
  by_contra hnames
  simp only [Bool.not_eq_false] at hnames
  cases c with
  | put r =>
    refine hsame r (.inl hchange) ?_
    rw [Change.names] at hnames
    exact derived_of_replaces hkeyed hnames
  | drop r =>
    refine hsame r (.inr hchange) ?_
    rw [Change.names] at hnames
    exact derived_of_removes hkeyed hnames
  | unreact p =>
    cases row with
    | reaction r => exact hforeign.not_derived (derived_of_unreact hchange hscope hnames)
    | _ => cases hnames

end

/-! ## The first wire -/

namespace Agora

theorem payloadId_of_idField {e : Entity} {p : Value} {key : String} {id : Id e}
    (h : idField p key = .ok id) : payloadId p key = some id := by
  unfold idField at h
  unfold payloadId payloadU64
  cases hget : p.get key with
  | none => simp [hget] at h
  | some v =>
    cases v with
    | number n => cases n <;> simp_all [Value.asU64, Number.asU64, idOfU64]
    | _ => simp_all [Value.asU64]

theorem serverId_of_rule {parts : List SignedPart} {p : Value} {r : Rule}
    (h : (wire parts).rule p = .ok r) : payloadId p "server_id" = some r.serverId := by
  simp only [wire, bind, Except.bind] at h
  split at h
  next => cases h
  next =>
    split at h
    next => cases h
    next server hserver =>
      split at h
      next => cases h
      next =>
        split at h
        next =>
          obtain rfl := Except.ok.inj h
          exact payloadId_of_idField hserver
        next => cases h

theorem proposalId_of_vote {parts : List SignedPart} {p : Value} {v : Vote}
    (h : (wire parts).vote p = .ok v) : payloadId p "proposal_id" = some v.proposalId := by
  simp only [wire, bind, Except.bind] at h
  split at h
  next => cases h
  next proposal hproposal =>
    split at h
    next => cases h
    next =>
      split at h
      next =>
        obtain rfl := Except.ok.inj h
        exact payloadId_of_idField hproposal
      next => cases h

theorem wire_readsScopes (parts : List SignedPart) : (wire parts).ReadsScopes where
  derived := by
    intro kind p row hrow
    right
    cases kind with
    | rules =>
      cases hrule : (wire parts).rule p with
      | error e => simp [Wire.row, hrule, Except.map] at hrow
      | ok r =>
        obtain rfl : Row.rule r = row := by simpa [Wire.row, hrule, Except.map] using hrow
        simp [classify, RowKind.ofName?_name, classifyServer, serverId_of_rule hrule, Row.derived]
    | votes =>
      cases hvote : (wire parts).vote p with
      | error e => simp [Wire.row, hvote, Except.map] at hrow
      | ok v =>
        obtain rfl : Row.vote v = row := by simpa [Wire.row, hvote, Except.map] using hrow
        simp [classify, RowKind.ofName?_name, proposalId_of_vote hvote, Row.derived]
    | _ => cases hrow

end Agora

end Federation

end Democrachat
