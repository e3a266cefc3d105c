import Democrachat.Federation.Delivery
import Democrachat.Federation.Rows
import Mathlib.Data.List.Forall2

/-!
# Outbox replay converges

Going through a node's outbox from its first record brings an empty replica to the
node's own rows, and going through any end of it again leaves them as they are.
-/

namespace Democrachat.Federation

open Library

/-! ## A log of records -/

/-- `apply_row`, part after part; the first failure ends it. -/
def applyAll (wire : Wire) (s : Inner) (parts : List SignedPart) : Except String Inner :=
  parts.foldlM (applyRow wire) s

/-- What applying a log does to a replica. -/
structure AppliedAll (s t : Inner) (records : List Democrachat.ChangeRecord) : Prop where
  cell : ∀ k, t.cell k = CellOp.runAll (records.map (Democrachat.ChangeRecord.onCell · k)) (s.cell k)
  distinct : s.Distinct → t.Distinct
  rest : t.withoutRows = s.withoutRows

/-- The parts tell the records, one each. -/
def TellAll (wire : Wire) (parts : List SignedPart) (records : List Democrachat.ChangeRecord) :
    Prop :=
  List.Forall₂ (fun part r => SignedPart.Tells part
    ⟨r.seq, r.payload.kind.name, r.op, wire.toPayload r.payload⟩) parts records

theorem TellAll.exists_record {wire : Wire} {parts : List SignedPart}
    {records : List Democrachat.ChangeRecord} (h : TellAll wire parts records) {part : SignedPart}
    (hpart : part ∈ parts) :
    ∃ r ∈ records,
      part.Tells ⟨r.seq, r.payload.kind.name, r.op, wire.toPayload r.payload⟩ := by
  induction h with
  | nil => cases hpart
  | @cons p r parts records htells _ ih =>
    rcases List.mem_cons.1 hpart with rfl | hpart
    · exact ⟨r, List.mem_cons_self, htells⟩
    · obtain ⟨r', hr', htells'⟩ := ih hpart
      exact ⟨r', List.mem_cons_of_mem _ hr', htells'⟩

theorem applyAll_of_tellAll {wire : Wire} {records : List Democrachat.ChangeRecord}
    {parts : List SignedPart} (hwire : ∀ r ∈ records, wire.WritesRow r.payload)
    (hrecorded : ∀ r ∈ records, r.IsRecorded) (htells : TellAll wire parts records) (s : Inner) :
    ∃ t, applyAll wire s parts = .ok t ∧ AppliedAll s t records := by
  induction htells generalizing s with
  | nil => exact ⟨s, rfl, fun _ => rfl, id, rfl⟩
  | @cons part r parts records hpart _ ih =>
    have ht := applyRow_of_tells (hwire r List.mem_cons_self) (hrecorded r List.mem_cons_self)
      hpart s
    have happlied := applied_applyTo (hrecorded r List.mem_cons_self) s
    obtain ⟨u, hu, hall⟩ := ih (fun r' hr' => hwire r' (List.mem_cons_of_mem _ hr'))
      (fun r' hr' => hrecorded r' (List.mem_cons_of_mem _ hr')) (r.applyTo s)
    refine ⟨u, ?_, fun k => ?_, fun hs => hall.distinct (happlied.distinct hs),
      hall.rest.trans happlied.rest⟩
    · rw [applyAll, List.foldlM_cons, ht]
      exact hu
    · rw [hall.cell, happlied.cell, List.map_cons, CellOp.runAll_cons]

/-- Only the cells of messages are tested. -/
theorem not_isSift_onCell (r : Democrachat.ChangeRecord) {k : RowKey} (hk : ∀ id, k ≠ .message id) :
    ¬ (r.onCell k).IsSift := by
  have hdrop : ∀ row : Row, ¬ (row.dropOn k).IsSift := by
    intro row
    unfold Row.dropOn
    split
    next => exact absurd rfl (hk _)
    next => split <;> exact id
    all_goals first | exact id | (split <;> exact id)
  have hput : ∀ row : Row, ¬ (row.putOn k).IsSift := by
    intro row
    unfold Row.putOn
    split
    next => split <;> exact id
    next => exact id
  unfold Democrachat.ChangeRecord.onCell
  split
  next => exact hput _
  next =>
    split
    next => split <;> exact id
    next => exact hdrop _

/-- The cells of messages are never filled. -/
theorem not_isFill_onCell (r : Democrachat.ChangeRecord) (id : MessageId) :
    ¬ (r.onCell (.message id)).IsFill := by
  have hdrop : ∀ row : Row, ¬ (row.dropOn (.message id)).IsFill := by
    intro row
    unfold Row.dropOn
    split
    all_goals first | exact False.elim | (split <;> exact False.elim)
  have hput : ∀ row : Row, ¬ (row.putOn (.message id)).IsFill := by
    intro row
    unfold Row.putOn
    split
    next hkey =>
      cases row with
      | reaction _ | roleAssignment _ | dm _ | block _ => cases hkey
      | _ => exact False.elim
    next => exact False.elim
  unfold Democrachat.ChangeRecord.onCell
  split
  next => exact hput _
  next =>
    split
    next => split <;> exact False.elim
    next => exact hdrop _

/-- On one cell a log does not both fill and test. -/
theorem onCell_uniform (records : List Democrachat.ChangeRecord) (k : RowKey) :
    (∀ op ∈ records.map (Democrachat.ChangeRecord.onCell · k), ¬ op.IsSift) ∨
      ∀ op ∈ records.map (Democrachat.ChangeRecord.onCell · k), ¬ op.IsFill := by
  by_cases hk : ∃ id, k = .message id
  · obtain ⟨id, rfl⟩ := hk
    right
    intro op hop
    obtain ⟨r, -, rfl⟩ := List.mem_map.1 hop
    exact not_isFill_onCell r id
  · left
    intro op hop
    obtain ⟨r, -, rfl⟩ := List.mem_map.1 hop
    exact not_isSift_onCell r (fun id hid => hk ⟨id, hid⟩)

/-- Replaying an end of a log changes no row. -/
theorem applyAll_suffix {wire : Wire} {records : List Democrachat.ChangeRecord}
    {parts suffix : List SignedPart} (hwire : ∀ r ∈ records, wire.WritesRow r.payload)
    (hrecorded : ∀ r ∈ records, r.IsRecorded) (htells : TellAll wire parts records)
    {s t : Inner} (hs : s.Distinct) (happlied : AppliedAll s t records)
    (hsuffix : suffix <:+ parts) :
    ∃ u, applyAll wire t suffix = .ok u ∧ u.SameRows t ∧ u.withoutRows = t.withoutRows := by
  obtain ⟨n, rfl⟩ : ∃ n, suffix = parts.drop n :=
    ⟨_, List.suffix_iff_eq_drop.1 hsuffix⟩
  have hlater : TellAll wire (parts.drop n) (records.drop n) := List.forall₂_drop n htells
  obtain ⟨u, hu, hall⟩ := applyAll_of_tellAll (fun r hr => hwire r (List.mem_of_mem_drop hr))
    (fun r hr => hrecorded r (List.mem_of_mem_drop hr)) hlater t
  have ht := happlied.distinct hs
  refine ⟨u, hu, Inner.sameRows_of_cell (hall.distinct ht) ht (fun k => ?_), hall.rest⟩
  rw [hall.cell, happlied.cell]
  apply CellOp.runAll_suffix (onCell_uniform records k)
  exact (List.drop_suffix _ _).map _

/-! ## The whole outbox -/

/-- Replayed from its first record, a node's outbox gives an empty replica the node's rows. -/
theorem outbox_replay_converges (wire : Wire) (a b : NodeId) (ms : List Mutation)
    (hwire : ∀ r ∈ (Mutation.runAll (.empty a) ms).outbox, wire.WritesRow r.payload)
    (parts : List SignedPart)
    (htells : TellAll wire parts (Mutation.runAll (.empty a) ms).outbox) :
    ∃ t, applyAll wire (.empty b) parts = .ok t ∧
      t.SameRows (Mutation.runAll (.empty a) ms) ∧
      (∀ part ∈ parts, classify part.entity part.payload ≠ .indeterminate) ∧
      t.outbox = [] ∧
      ∀ suffix, suffix <:+ parts →
        ∃ u, applyAll wire t suffix = .ok u ∧ u.SameRows t ∧ u.withoutRows = t.withoutRows := by
  obtain ⟨hminted, records, hmirrors⟩ := Inner.mirrors_runAll (Inner.minted_empty a) ms
  obtain rfl : (Mutation.runAll (.empty a) ms).outbox = records := hmirrors.outbox
  obtain ⟨t, ht, happlied⟩ := applyAll_of_tellAll hwire hmirrors.recorded htells (.empty b)
  have hdistinct := Inner.distinct_empty b
  refine ⟨t, ht, ?_, ?_, ?_, ?_⟩
  · apply Inner.sameRows_of_cell (happlied.distinct hdistinct) hminted.distinct
    intro k
    -- Both go from an empty cell through the same changes.
    have hempty : (Inner.empty b).cell k = (Inner.empty a).cell k := by cases k <;> rfl
    rw [happlied.cell, hmirrors.cell, hempty]
  · intro part hpart
    obtain ⟨r, hr, htold⟩ := htells.exists_record hpart
    obtain ⟨n, hn⟩ := (hwire r hr).scope
    rw [htold.entity, htold.payload]
    exact classify_ne_indeterminate hn
  · exact Inner.outbox_of_withoutRows happlied.rest
  · intro suffix hsuffix
    exact applyAll_suffix hwire hmirrors.recorded htells hdistinct happlied hsuffix

namespace Agora

def curfew : Rule := ⟨composeId 1 1, composeId 1 1, "no noise at night", ⟨0⟩⟩

/-- A rule is written and repealed, and a ballot cast in between. -/
def legislating : List Mutation :=
  [.insertRule curfew, .upsertVote ⟨composeId 1 1, composeId 1 1, true⟩, .removeRule curfew.id]

def legislated : Inner := Mutation.runAll (.empty 1) legislating

/-- The parts of a page, whatever scope and epoch they are sent under. -/
def told (r : Democrachat.ChangeRecord) : SignedPart :=
  ⟨1, 1, r.seq, .global, r.payload.kind.name, r.op, (wire []).toPayload r.payload⟩

theorem legislated_writes : ∀ r ∈ legislated.outbox, (wire []).WritesRow r.payload := by
  have hrows : ∀ r ∈ legislated.outbox,
      r.payload = .rule curfew ∨ r.payload = .vote ⟨composeId 1 1, composeId 1 1, true⟩ := by
    decide +kernel
  intro r hr
  rcases hrows r hr with h | h
  · rw [h]
    exact ⟨by decide +kernel, ⟨_, rfl⟩, nofun, nofun, nofun⟩
  · rw [h]
    exact ⟨by decide +kernel, ⟨_, rfl⟩, nofun, nofun, nofun⟩

end Agora

theorem outbox_replay_legislated :
    ∃ t, applyAll (Agora.wire []) (.empty 2) (Agora.legislated.outbox.map Agora.told) = .ok t ∧
      t.SameRows Agora.legislated ∧
      (∀ part ∈ Agora.legislated.outbox.map Agora.told,
        classify part.entity part.payload ≠ .indeterminate) ∧
      t.outbox = [] ∧
      ∀ suffix, suffix <:+ Agora.legislated.outbox.map Agora.told →
        ∃ u, applyAll (Agora.wire []) t suffix = .ok u ∧ u.SameRows t ∧
          u.withoutRows = t.withoutRows :=
  outbox_replay_converges (Agora.wire []) 1 2 Agora.legislating Agora.legislated_writes
    (Agora.legislated.outbox.map Agora.told)
    (List.forall₂_map_left_iff.2 (List.forall₂_same.2 (fun _ _ => ⟨rfl, rfl, rfl⟩)))

end Democrachat.Federation
