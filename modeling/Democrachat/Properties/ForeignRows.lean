import Democrachat.Federation.Rows
import Democrachat.Properties.Unauthentic

/-!
# Rows of other scopes

An event is accepted under the scope that its payload names; the row that it
replaces is looked up by an identifier that has no scope in it.
-/

namespace Democrachat.Federation

/-- An accepted change leaves every row of every other scope as it is exactly
when no such row is stored under a key that the change names. -/
theorem foreign_rows_kept_iff (wire : Wire) (hwire : wire.ReadsScopes) (registry : Registry)
    (s : Inner) (event : ChangeEvent) (part : SignedPart)
    (haccepted : authorize wire registry (storeResolver s) event = .ok part) :
    ∃ scope, (classify part.entity part.payload).resolve (storeResolver s) = .ok scope ∧
      ((∀ row, s.Holds row → s.Foreign scope row → (applyIncoming wire part s).2.Holds row) ↔
        ∀ c, wire.change part = .ok c →
          ∀ row, s.Holds row → s.Foreign scope row → c.names row = false) := by
  obtain ⟨-, scope, hscope, -⟩ := authorize_eq_ok.1 haccepted
  refine ⟨scope, hscope, ?_, ?_⟩
  · intro hkept c hchange row hrow hforeign
    have hstill := hkept row hrow hforeign
    exact (holds_applyIncoming hwire hscope hrow hforeign).1 hstill c hchange
  · intro hnames row hrow hforeign
    refine (holds_applyIncoming hwire hscope hrow hforeign).2 (fun c hchange => ?_)
    exact hnames c hchange row hrow hforeign

/-- The accounts, the servers and whatever else is keyed by its scope are safe. -/
theorem keyed_rows_kept (wire : Wire) (hwire : wire.ReadsScopes) (s : Inner) (part : SignedPart)
    (scope : OwnedScope)
    (hscope : (classify part.entity part.payload).resolve (storeResolver s) = .ok scope)
    (row : Row) (hkeyed : isKeyedByScope row = true) (hrow : s.Holds row)
    (hforeign : s.Foreign scope row) : (applyIncoming wire part s).2.Holds row :=
  (holds_applyIncoming hwire hscope hrow hforeign).2
    (fun _ hchange => names_eq_false_of_keyed hwire hscope hforeign hkeyed hchange)

namespace Agora

/-- A rule of a server of node 2, under an identifier of node 1's. -/
def target : Rule := ⟨composeId 1 1, composeId 2 1, "be fair", ⟨0⟩⟩

/-- A replica with that rule. -/
def holding : Inner := { Inner.empty 3 with rules := Library.Table.empty.insert target }

/-- The same rule under an identifier of node 2. -/
def bystander : Rule := { target with id := composeId 2 1 }

def beside : Inner := { Inner.empty 3 with rules := Library.Table.empty.insert bystander }

/-- Node 1 writes a rule of its own server, under the same identifier. -/
def overwriting : SignedPart := rulePart 1 1 1 (rule 1 1 1)

def overwritten : Wire := wire [overwriting]

end Agora

theorem Agora.overwriting_accepted (s : Inner) :
    authorize overwritten (owned.answers overwritten) (storeResolver s)
      (overwritten.signEvent (keypair 1) overwriting) = .ok overwriting := by
  apply accepted_of_parse
  · rfl
  · exact Nat.le_refl 1
  · rfl
  · simp [wire]

theorem Agora.overwriting_change :
    overwritten.change overwriting = .ok (.put (.rule (rule 1 1 1))) := rfl

theorem foreign_rows_agora :
    ∃ scope, (classify Agora.overwriting.entity Agora.overwriting.payload).resolve
        (storeResolver Agora.beside) = .ok scope ∧
      ∀ row, Agora.beside.Holds row → Agora.beside.Foreign scope row →
        (applyIncoming Agora.overwritten Agora.overwriting Agora.beside).2.Holds row := by
  obtain ⟨scope, hscope, hiff⟩ := foreign_rows_kept_iff Agora.overwritten (Agora.wire_readsScopes _)
    (Agora.owned.answers Agora.overwritten) Agora.beside
    (Agora.overwritten.signEvent (Agora.keypair 1) Agora.overwriting) Agora.overwriting
    (Agora.overwriting_accepted _)
  refine ⟨scope, hscope, hiff.2 (fun c hchange row hrow _ => ?_)⟩
  obtain rfl := Except.ok.inj (Agora.overwriting_change.symm.trans hchange)
  cases row with
  | rule r =>
    obtain rfl : r = Agora.bystander := by simpa [Inner.Holds, Agora.beside] using hrow
    decide
  | _ => rfl

/-- The rule of the other server is gone. -/
theorem foreign_rule_overwritten :
    ¬ ∀ scope, (classify Agora.overwriting.entity Agora.overwriting.payload).resolve
        (storeResolver Agora.holding) = .ok scope →
      authorize Agora.overwritten (Agora.owned.answers Agora.overwritten)
          (storeResolver Agora.holding)
          (Agora.overwritten.signEvent (Agora.keypair 1) Agora.overwriting) =
        .ok Agora.overwriting →
      ∀ row, Agora.holding.Holds row → Agora.holding.Foreign scope row →
        (applyIncoming Agora.overwritten Agora.overwriting Agora.holding).2.Holds row := by
  intro h
  have hforeign : Agora.holding.Foreign (Agora.server 1) (.rule Agora.target) :=
    ⟨.server (composeId 2 1), rfl, by decide⟩
  have hstill := h (Agora.server 1) rfl (Agora.overwriting_accepted _) (.rule Agora.target)
    (by unfold Inner.Holds; decide) hforeign
  have hgone : Agora.target ∉
      (applyIncoming Agora.overwritten Agora.overwriting Agora.holding).2.rules.rows := by
    decide +kernel
  exact hgone hstill

end Democrachat.Federation
