import Democrachat.Federation.Mirror

/-!
# Records that are delivered

What a replica makes of a record that a peer's feed tells it: the row on the wire,
the change that `apply_row` makes of it, and what that does to the cells.
-/

namespace Democrachat

/-- The change that a replica makes of a record. -/
def ChangeRecord.applyTo (r : ChangeRecord) (s : Inner) : Inner :=
  match r.op, r.payload with
  | .upsert, row => s.put row
  | .delete, .reaction x =>
    { s with
      reactions := s.reactions.filter (fun y => !(y.messageId == x.messageId && y.user == x.user &&
        y.emoji == x.emoji)) }
  | .delete, row => s.drop row

namespace Federation

open Library

/-! ## Records on the wire -/

/-- The field that names the scope of a row, or the parent it has it from. -/
def RowKind.scopeField : RowKind → String
  | .servers | .users => "id"
  | .channels | .messages | .proposals | .memberships | .rules | .roles | .roleAssignments
  | .emojis | .emojiVotes | .channelGrants | .invites => "server_id"
  | .votes => "proposal_id"
  | .reactions => "message_id"
  | .userKeys => "user_id"
  | .dms => "sender"
  | .friendships => "requester"
  | .blocks => "blocker"

/-- `serde` of one row: it reads back, and its fields are written under their names, an
identifier as a number. -/
structure Wire.WritesRow (wire : Wire) (row : Row) : Prop where
  reads : wire.row row.kind (wire.toPayload row) = .ok row
  scope : ∃ n, (wire.toPayload row).get row.kind.scopeField = some (.number (.posInt n))
  message : ∀ r, row = .reaction r →
    (((wire.toPayload row).get "message_id").bind Value.asU64).map idOfU64 = some r.messageId
  user : ∀ r, row = .reaction r →
    (((wire.toPayload row).get "user").bind Value.asU64).map idOfU64 = some r.user
  emoji : ∀ r, row = .reaction r →
    ((wire.toPayload row).get "emoji").bind Value.asStr = some r.emoji

/-- A signed part with what a record says, under whatever envelope. -/
structure SignedPart.Tells (part : SignedPart) (r : ChangeRecord) : Prop where
  entity : part.entity = r.entity
  op : part.op = r.op
  payload : part.payload = r.payload

/-- A row with its scope field belongs to a scope. -/
theorem classify_ne_indeterminate {kind : RowKind} {p : Value} {n : Nat}
    (h : p.get kind.scopeField = some (.number (.posInt n))) :
    classify kind.name p ≠ .indeterminate := by
  have hid : ∀ {e : Entity}, payloadId (e := e) p kind.scopeField = some (idOfU64 n) := by
    intro e
    rw [payloadId, payloadU64, h]
    rfl
  rw [classify, RowKind.ofName?_name]
  cases kind with
  | votes =>
    have hproposal := hid (e := .proposal)
    simp only [RowKind.scopeField] at hproposal
    simp [hproposal]
  | reactions =>
    have hmessage := hid (e := .message)
    simp only [RowKind.scopeField] at hmessage
    simp [hmessage]
  | users | userKeys | dms | friendships | blocks =>
    have huser := hid (e := .user)
    simp only [RowKind.scopeField] at huser
    simp [classifyHome, huser]
  | _ =>
    have hserver := hid (e := .server)
    simp only [RowKind.scopeField] at hserver
    simp [classifyServer, hserver]

/-- The payload of a removed reaction fits that reaction alone. -/
theorem matchesReaction_toPayload {wire : Wire} {r : Reaction} (h : wire.WritesRow (.reaction r))
    (x : Reaction) :
    matchesReaction (wire.toPayload (.reaction r)) x =
      (x.messageId == r.messageId && x.user == r.user && x.emoji == r.emoji) := by
  rw [matchesReaction, h.message r rfl, h.user r rfl, h.emoji r rfl]
  rw [Bool.eq_iff_iff]
  simp only [Bool.and_eq_true, beq_iff_eq, Option.some.injEq]
  exact and_congr (and_congr eq_comm eq_comm) eq_comm

/-- Applying the part of a record succeeds, and makes the change of the record. -/
theorem applyRow_of_tells {wire : Wire} {r : Democrachat.ChangeRecord} {part : SignedPart}
    (hwire : wire.WritesRow r.payload) (hrecorded : r.IsRecorded)
    (htells : part.Tells ⟨r.seq, r.payload.kind.name, r.op, wire.toPayload r.payload⟩) (s : Inner) :
    applyRow wire s part = .ok (r.applyTo s) := by
  obtain ⟨seq, op, row⟩ := r
  have hreads := hwire.reads
  rw [applyRow, htells.entity, htells.op, htells.payload, RowKind.ofName?_name]
  dsimp only at hreads ⊢
  cases op with
  | upsert =>
    simp only [hreads]
    rfl
  | delete =>
    rcases hrecorded with hop | hremoved | ⟨x, rfl⟩
    · cases hop
    · have hkind : row.kind ≠ .reactions ∧ row.kind.isDeletable = true := by
        cases row <;> first | exact ⟨nofun, rfl⟩ | cases hremoved
      simp only [hkind.1, hkind.2, if_true, if_false, hreads]
      cases row <;> first | rfl | cases hremoved
    · simp only [matchesReaction_toPayload hwire]
      rfl

/-! ## What it does to the cells -/

/-- What applying one record does to a replica. -/
structure Applied (s t : Inner) (r : Democrachat.ChangeRecord) : Prop where
  cell : ∀ k, t.cell k = (r.onCell k).run (s.cell k)
  distinct : s.Distinct → t.Distinct
  rest : t.withoutRows = s.withoutRows

theorem applied_applyTo {r : Democrachat.ChangeRecord} (hrecorded : r.IsRecorded) (s : Inner) :
    Applied s (r.applyTo s) r := by
  obtain ⟨seq, op, row⟩ := r
  cases op with
  | upsert => exact ⟨s.cell_put row, fun h => h.put row, s.withoutRows_put row⟩
  | delete =>
    rcases hrecorded with hop | hremoved | ⟨x, hx⟩
    · cases hop
    · have hdrop : (⟨seq, .delete, row⟩ : Democrachat.ChangeRecord).applyTo s = s.drop row := by
        cases row <;> first | rfl | cases hremoved
      rw [hdrop]
      refine ⟨fun k => ?_, fun h => h.drop row, s.withoutRows_drop row⟩
      rw [s.cell_drop row k]
      cases row with
      | reaction r => cases hremoved
      | _ => rfl
    · obtain rfl : row = .reaction x := hx
      exact ⟨(Inner.mirrors_unreacted s x).cell,
        fun h => { h with reactions := nodup_filter h.reactions _ }, rfl⟩

end Federation

end Democrachat
