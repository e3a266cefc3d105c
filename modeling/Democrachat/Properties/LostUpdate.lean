import Democrachat.Polity.Scripts
import Democrachat.Properties.Endorsement
import Mathlib.Algebra.Ring.Int.Defs

/-!
# Lost updates of a membership

A membership is read, edited and written back in separate accesses to the store, and
what is written back is the whole row: an edit by somebody else in between is lost.
-/

namespace Democrachat

open Library Prog

/-! ## The requests -/

/-- The requests that write memberships back, and the clock beside them. -/
inductive Update where
  | setClock (now : Timestamp)
  | react (handle : String) (messageId : MessageId) (emoji : String)
  | unreact (handle : String) (messageId : MessageId) (emoji : String)
  | setHistorySharing (handle serverSlug : String) (shares : Bool)
  | tryEnfranchise (handle serverSlug : String)
  | resolveDue (serverSlug : String)
  | listProposals (serverSlug : String)

namespace Update

def program : Update → Prog World Unit
  | setClock now => Prog.modify (fun w => { w with now := now })
  | react handle messageId emoji => do
    let _ ← (Democrachat.react handle messageId emoji).run
    return ()
  | unreact handle messageId emoji => do
    let _ ← (Democrachat.unreact handle messageId emoji).run
    return ()
  | setHistorySharing handle serverSlug shares => do
    let _ ← (Democrachat.setHistorySharing handle serverSlug shares).run
    return ()
  | tryEnfranchise handle serverSlug => do
    let _ ← (Democrachat.tryEnfranchise handle serverSlug).run
    return ()
  | resolveDue serverSlug => Democrachat.resolveDue serverSlug
  | listProposals serverSlug => do
    let _ ← Democrachat.listProposals serverSlug
    return ()

theorem edits_program (k : UserId ×ₗ ServerId) (u : Update) : Edits k none u.program := by
  cases u with
  | setClock now => exact .of_guarantees (guarantees_modify (fun _ => rfl))
  | react handle messageId emoji =>
    exact .bind (editsRow_react handle messageId emoji).run fun _ => .pure _
  | unreact handle messageId emoji =>
    exact .bind (editsRow_unreact handle messageId emoji).run fun _ => .pure _
  | setHistorySharing handle serverSlug shares =>
    exact .bind (editsRow_setHistorySharing handle serverSlug shares).run fun _ => .pure _
  | tryEnfranchise handle serverSlug =>
    exact .bind (editsRow_tryEnfranchise handle serverSlug).run fun _ => .pure _
  | resolveDue serverSlug => exact edits_resolveDue serverSlug
  | listProposals serverSlug => exact .bind (edits_listProposals serverSlug) fun _ => .pure _

end Update

/-! ## The row that reflects the edits -/

namespace Edit

/-- What an edit adds to the contribution. -/
def delta : Edit → Int
  | endorse delta => delta
  | _ => 0

def tier? : Edit → Option Tier
  | enfranchise _ => some .citizen
  | _ => none

def enfranchisedAt? : Edit → Option (Option Timestamp)
  | enfranchise now => some (some now)
  | _ => none

def grantedWeight? : Edit → Option Nat
  | grant weight => some weight
  | _ => none

def shares? : Edit → Option Bool
  | share shares => some shares
  | _ => none

end Edit

/-- The value that was written to a field last, or else the one it had. -/
def lastWrite {β : Type} (write? : Edit → Option β) (edits : List Edit) (b : β) : β :=
  (edits.filterMap write?).getLast?.getD b

/-- The row with all edits made to it in turn. -/
def Membership.edited (m : Membership) (edits : List Edit) : Membership :=
  edits.foldl (fun m i => i.apply m) m

/-- Of every edit the row has what the edit was for. -/
structure Reflects (m₀ : Membership) (edits : List Edit) (m : Membership) : Prop where
  edited : m = m₀.edited edits
  /-- Unless the floor is reached. -/
  contribution : (∀ l, l <+: edits → 0 ≤ m₀.contribution + (l.map Edit.delta).sum) →
    m.contribution = m₀.contribution + (edits.map Edit.delta).sum
  isSanctioned : m.isSanctioned = (m₀.isSanctioned || edits.contains .sanction)
  tier : m.tier = lastWrite Edit.tier? edits m₀.tier
  enfranchisedAt : m.enfranchisedAt = lastWrite Edit.enfranchisedAt? edits m₀.enfranchisedAt
  grantedWeight : m.grantedWeight = lastWrite Edit.grantedWeight? edits m₀.grantedWeight
  sharesHistoryWithNewcomers : m.sharesHistoryWithNewcomers =
    lastWrite Edit.shares? edits m₀.sharesHistoryWithNewcomers

namespace Membership

variable (m : Membership) (edits : List Edit)

theorem edited_concat (i : Edit) : m.edited (edits ++ [i]) = i.apply (m.edited edits) :=
  List.foldl_concat _ _ _ _

theorem edited_contribution
    (h : ∀ l, l <+: edits → 0 ≤ m.contribution + (l.map Edit.delta).sum) :
    (m.edited edits).contribution = m.contribution + (edits.map Edit.delta).sum := by
  induction edits using List.reverseRecOn with
  | nil => exact (add_zero _).symm
  | append_singleton edits i ih =>
    have hbefore := ih (fun l hl => h l (hl.trans (List.prefix_append edits [i])))
    have hafter := h _ (List.prefix_refl _)
    rw [List.map_append, List.sum_append, List.map_singleton, List.sum_singleton] at hafter ⊢
    rw [edited_concat]
    cases i with
    | endorse delta =>
      have hdelta : (Edit.endorse delta).delta = delta := rfl
      rw [hdelta] at hafter ⊢
      calc
        ((Edit.endorse delta).apply (m.edited edits)).contribution =
            max ((m.edited edits).contribution + delta) 0 := rfl
        _ = (m.edited edits).contribution + delta := by omega
        _ = m.contribution + ((edits.map Edit.delta).sum + delta) := by omega
    | _ => exact hbefore.trans (congrArg _ (add_zero _).symm)

theorem edited_isSanctioned :
    (m.edited edits).isSanctioned = (m.isSanctioned || edits.contains .sanction) := by
  induction edits using List.reverseRecOn with
  | nil => exact (Bool.or_false _).symm
  | append_singleton edits i ih =>
    rw [edited_concat, List.contains_append, ← Bool.or_assoc, ← ih]
    cases i with
    | sanction => exact (Bool.or_true _).symm
    | _ => exact (Bool.or_false _).symm

/-- A field that the edits only overwrite. -/
theorem edited_field {β : Type} {field : Membership → β} {write? : Edit → Option β}
    (h : ∀ i m, field (i.apply m) = (write? i).getD (field m)) :
    field (m.edited edits) = lastWrite write? edits (field m) := by
  induction edits using List.reverseRecOn with
  | nil => rfl
  | append_singleton edits i ih =>
    rw [edited_concat, h, ih, lastWrite, lastWrite, List.filterMap_append]
    cases hi : write? i with
    | none => simp [hi]
    | some b => simp [hi]

end Membership

theorem reflects_edited (m₀ : Membership) (edits : List Edit) :
    Reflects m₀ edits (m₀.edited edits) where
  edited := rfl
  contribution := m₀.edited_contribution edits
  isSanctioned := m₀.edited_isSanctioned edits
  tier := m₀.edited_field edits (fun i m => by cases i <;> rfl)
  enfranchisedAt := m₀.edited_field edits (fun i m => by cases i <;> rfl)
  grantedWeight := m₀.edited_field edits (fun i m => by cases i <;> rfl)
  sharesHistoryWithNewcomers := m₀.edited_field edits (fun i m => by cases i <;> rfl)

/-! ## Interleavings -/

section

variable (user : UserId) (sid : ServerId)

/-- The requests under way, with what they do to the row in sight. -/
abbrev RowEditing := Editing World Edit Unit Membership

/-- The scripts are those of the requests. -/
def Scripts (updates : List Update) (scripts : List (Script World Edit Unit)) : Prop :=
  List.Forall₂ (Script.Spells (World.row (toLex (user, sid))) Edit.apply) scripts
    (updates.map Update.program)

/-- What a schedule of the requests comes to. -/
def interleave (w : World) (scripts : List (Script World Edit Unit)) (is : List Nat) :
    RowEditing :=
  is.foldl (Editing.tick (World.row (toLex (user, sid)))) (.start scripts w)

/-- Whatever is written back to the row is the row as it still is, but for the fields
that the request overwrites. -/
def NothingStale (w : World) (scripts : List (Script World Edit Unit)) (is : List Nat) : Prop :=
  Along (Editing.tick (World.row (toLex (user, sid))))
    (Editing.UpToDate (World.row (toLex (user, sid))) Edit.apply) (.start scripts w) is

variable {user sid}

theorem exists_scripts (updates : List Update) : ∃ scripts, Scripts user sid updates scripts := by
  induction updates with
  | nil => exact ⟨[], .nil⟩
  | cons u updates ih =>
    obtain ⟨scripts, hscripts⟩ := ih
    obtain ⟨s, herase, hlawful⟩ := u.edits_program (toLex (user, sid))
    exact ⟨s :: scripts, .cons ⟨herase, hlawful⟩ hscripts⟩

theorem Scripts.erase {updates : List Update} {scripts : List (Script World Edit Unit)}
    (h : Scripts user sid updates scripts) :
    scripts.map Script.erase = updates.map Update.program := by
  unfold Scripts at h
  generalize updates.map Update.program = programs at h ⊢
  induction h with
  | nil => rfl
  | cons hs _ ih => rw [List.map_cons, hs.erase_eq, ih]

theorem Scripts.lawful {updates : List Update} {scripts : List (Script World Edit Unit)}
    (h : Scripts user sid updates scripts) :
    ∀ s ∈ scripts, s.Lawful (World.row (toLex (user, sid))) Edit.apply none := by
  unfold Scripts at h
  generalize updates.map Update.program = programs at h
  induction h with
  | nil => exact fun s hs => (nomatch hs)
  | cons hs _ ih => exact List.forall_mem_cons.2 ⟨hs.lawful, ih⟩

/-- Scripts run as the requests do. -/
theorem Scripts.state_interleave {updates : List Update}
    {scripts : List (Script World Edit Unit)} (h : Scripts user sid updates scripts) (w : World)
    (is : List Nat) :
    (interleave user sid w scripts is).state =
      (schedule is (updates.map Update.program, w)).2 := by
  have hrun : (interleave user sid w scripts is).erase =
      schedule is (Editing.start scripts w : RowEditing).erase :=
    Editing.erase_run _ is
  rw [Editing.erase_start, h.erase] at hrun
  exact congrArg Prod.snd hrun

end

/-- However the requests interleave, the row reflects all that they have written, after
every step, if and only if nothing stale is written back. -/
theorem updates_reflected_iff (w : World) (user : UserId) (sid : ServerId) (m₀ : Membership)
    (h : w.store.getMembership user sid = some m₀) (updates : List Update) :
    (∃ scripts, Scripts user sid updates scripts) ∧
    ∀ scripts, Scripts user sid updates scripts → ∀ is,
      (∀ js, js <+: is →
        ∃ m, (schedule js (updates.map Update.program, w)).2.store.getMembership user sid = some m ∧
          Reflects m₀ (interleave user sid w scripts js).edits m) ↔
        NothingStale user sid w scripts is := by
  refine ⟨exists_scripts updates, fun scripts hscripts is => ?_⟩
  have hlawful := Editing.allLawful_start (s := w) hscripts.lawful
  have hkept : Editing.Kept (World.row (toLex (user, sid))) Edit.apply m₀ (.start scripts w) := h
  rw [NothingStale, ← Editing.kept_iff hkept hlawful is]
  apply forall_congr'
  intro js
  apply imp_congr_right
  intro _
  have hstate := hscripts.state_interleave w js
  constructor
  · rintro ⟨m, hm, hreflects⟩
    rw [← hstate, hreflects.edited] at hm
    exact hm
  · intro hjs
    refine ⟨_, ?_, reflects_edited m₀ _⟩
    rw [← hstate]
    exact hjs

namespace Agora

/-- The ballot on the ban has closed in favour and nobody has looked yet. -/
def sentenced : World :=
  services.run (.empty 0 (day 0)) (greeting ++ banOf eve.user)

/-- A reaction to what the banned member said, and the ban. -/
def pardon : List Update := [.react "zed" (composeId 0 1) "heart", .resolveDue "agora"]

/-- The reaction up to the copy of the author's row, all of the ban, and the rest. -/
def overtaking : List Nat := List.replicate 6 0 ++ List.replicate 40 1 ++ [0]

end Agora

theorem updates_reflected_pardon :
    (∃ scripts, Scripts Agora.eve.user Agora.eve.server Agora.pardon scripts) ∧
    ∀ scripts, Scripts Agora.eve.user Agora.eve.server Agora.pardon scripts → ∀ is,
      (∀ js, js <+: is →
        ∃ m, (schedule js (Agora.pardon.map Update.program, Agora.sentenced)).2.store.getMembership
            Agora.eve.user Agora.eve.server = some m ∧
          Reflects (.joined Agora.eve.user Agora.eve.server (Agora.day 0))
            (interleave Agora.eve.user Agora.eve.server Agora.sentenced scripts js).edits m) ↔
        NothingStale Agora.eve.user Agora.eve.server Agora.sentenced scripts is :=
  updates_reflected_iff Agora.sentenced Agora.eve.user Agora.eve.server _ (by decide +kernel)
    Agora.pardon

/-- Both requests are done, the ban counts as applied, and nobody is banned. -/
theorem reaction_lifts_ban :
    let c := schedule Agora.overtaking (Agora.pardon.map Update.program, Agora.sentenced)
    finished c = true ∧
      (c.2.store.getProposal (composeId 0 1)).map (fun p => (p.kind, p.isApplied)) =
        some (.ban Agora.eve.user, true) ∧
      (c.2.store.getMembership Agora.eve.user Agora.eve.server).map (·.isSanctioned) =
        some false := by
  decide +kernel

end Democrachat
