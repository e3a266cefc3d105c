import Democrachat.Polity.Invariants
import Democrachat.Polity.Turns

/-!
# Banned members

A ban flags the membership that it finds.  Nothing takes a membership away or
lifts a sanction, so the flag stays; where the ban finds no membership it leaves
no trace.
-/

namespace Democrachat

open Library

/-- Every member is still a member, and sanctioned if they were. -/
structure Persists (r r' : Roster) : Prop where
  kept : ∀ {k m}, r.get k = some m →
    ∃ m', r'.get k = some m' ∧ (m.isSanctioned = true → m'.isSanctioned = true)

namespace Persists

theorem refl (r : Roster) : Persists r r where
  kept hm := ⟨_, hm, fun h => h⟩

theorem trans {r r' r'' : Roster} (h : Persists r r') (h' : Persists r' r'') :
    Persists r r'' where
  kept := by
    intro k m hm
    obtain ⟨m', hm', hsanction⟩ := h.kept hm
    obtain ⟨m'', hm'', hsanction'⟩ := h'.kept hm'
    exact ⟨m'', hm'', fun hs => hsanction' (hsanction hs)⟩

/-- Rewriting a row without lifting its sanction. -/
theorem insert_same {r : Roster} {m m' : Membership} (hm : r.get m.key = some m)
    (hkey : m'.key = m.key) (hsanction : m.isSanctioned = true → m'.isSanctioned = true) :
    Persists r (r.insert m') where
  kept := by
    intro k x hx
    rw [Table.get_insert, hkey]
    split
    next hk =>
      rw [hk, hm] at hx
      obtain rfl := Option.some.inj hx
      exact ⟨m', rfl, hsanction⟩
    next => exact ⟨x, hx, fun h => h⟩

/-- A new row. -/
theorem insert_new {r : Roster} {m : Membership} (hnone : r.get m.key = none) :
    Persists r (r.insert m) where
  kept := by
    intro k x hx
    have hne : k ≠ m.key := by
      rintro rfl
      rw [hnone] at hx
      cases hx
    exact ⟨x, (Table.get_insert_of_ne _ hne).trans hx, fun h => h⟩

end Persists

section Steps

variable {c c' : Polity}

theorem Enacted.persists {sid : ServerId} {kind : ProposalKind} {now : Timestamp}
    (h : Enacted sid kind now c c') : Persists c.roster c'.roster := by
  cases h with
  | member hm hsame => exact Persists.insert_same (Polity.get_key hm) hsame.key hsame.sanction
  | assign => unfold Polity.assign; split <;> exact Persists.refl _
  | _ => exact Persists.refl _

theorem Move.persists (h : Move c c') : Persists c.roster c'.roster := by
  cases h with
  | enrol _ hnone => exact Persists.insert_new (m := .joined ..) hnone
  | edit hm hsame => exact Persists.insert_same hm hsame.key hsame.sanction
  | @apply p _ hdue =>
    rw [Polity.applyIfDue, if_pos hdue]
    have h := enacted_enact c p.serverId p.kind c.now
    exact h.persists
  | _ => exact Persists.refl _

theorem Moves.persists (h : Moves c c') : Persists c.roster c'.roster := by
  induction h with
  | refl => exact Persists.refl _
  | tail _ hmove ih => exact ih.trans hmove.persists

end Steps

section Runs

variable (services : Services) {w : World}

theorem persists_step (hw : services.Reachable w) (op : Op) :
    Persists w.polity.roster (services.step w op).polity.roster := by
  have hstepped := services.stepped w op
  generalize (services.step w op).polity = c at hstepped ⊢
  cases hstepped with
  | clock => exact Persists.refl _
  | moves _ hmoves => exact hmoves.persists
  | @founded _ _ _ founder _ _ _ _ =>
    refine Persists.insert_new (Table.get_eq_none.2 (fun m hm hkey => ?_))
    have hserver : m.serverId = composeId w.polity.node (w.polity.nextServer + 1) :=
      (Membership.key_eq.1 hkey).2
    exact (hw.serversMinted.members m hm).ne_composeId hserver
  | admitted hadmits _ =>
    exact Persists.insert_same (roster_get_of_getMembership hadmits.memberFound) rfl (fun h => h)

theorem persists_run (hw : services.Reachable w) (ops : List Op) :
    Persists w.polity.roster (services.run w ops).polity.roster := by
  induction ops generalizing w with
  | nil => exact Persists.refl _
  | cons op ops ih => exact (persists_step services hw op).trans (ih (hw.step op))

end Runs

/-! ## Applied bans -/

/-- The effect of a ban: on whom, and in which server. -/
structure Banned where
  user : UserId
  server : ServerId
deriving DecidableEq

/-- The ban that a turn applies. -/
def Turn.ban? (t : Turn) : Option Banned :=
  match t.proposal.kind with
  | .ban user => if t.closed.applyDue t.session.now then some ⟨user, t.proposal.serverId⟩ else none
  | _ => none

/-- The bans that an operation applies. -/
def Op.bans (w : World) (op : Op) : List Banned :=
  op.resolves?.elim [] (fun slug => (w.polity.resolveTurns slug).filterMap Turn.ban?)

section Applied

variable {c : Polity} {σ : Session} {ps : List Proposal} {t : Turn}

/-- The rest of the sweep comes after the turn. -/
theorem persists_after (hps : ps.Pairwise (fun p q => p.id ≠ q.id)) (h : ∀ p ∈ ps, OnTurn σ c p)
    (ht : t ∈ Polity.turns σ c ps) :
    Persists (t.polity.sweepOne σ t.proposal).roster (c.sweep σ ps).roster := by
  induction ps generalizing c with
  | nil => cases ht
  | cons p ps ih =>
    obtain ⟨hp, hps⟩ := List.pairwise_cons.1 hps
    have hrest : ∀ q ∈ ps, OnTurn σ (c.sweepOne σ p) q :=
      fun q hq => (h q (List.mem_cons_of_mem _ hq)).sweepOne (hp q hq).symm
    rcases List.mem_cons.1 ht with rfl | ht
    · exact (moves_sweep hps hrest).persists
    · exact ih hps hrest ht

/-- A ban flags the membership it finds. -/
theorem enact_ban {user : UserId} {sid : ServerId} {m : Membership} (now : Timestamp)
    (hm : c.roster.member user sid = some m) :
    (c.enact sid (.ban user) now).roster.member user sid =
      some { m with isSanctioned := true } := by
  have hkey : toLex (user, sid) = Membership.key { m with isSanctioned := true } :=
    (Table.key_of_get hm).symm
  rw [Polity.enact, Polity.editMembership, hm, Roster.member, hkey]
  exact Table.get_insert_self _ _

theorem sanctions_sweepOne {b : Banned} (hban : t.ban? = some b) {m : Membership}
    (hm : t.polity.roster.member b.user b.server = some m) :
    (t.polity.sweepOne t.session t.proposal).roster.member b.user b.server =
      some { m with isSanctioned := true } := by
  unfold Turn.ban? at hban
  split at hban
  next user hkind =>
    split at hban
    next hdue =>
      obtain rfl := Option.some.inj hban
      have hfound : (t.polity.closeIfDue t.session t.proposal).roster.member user
          t.proposal.serverId = some m := by
        rw [Polity.closeIfDue_roster]
        exact hm
      have hkind' : (t.polity.closed t.session t.proposal).kind = .ban user :=
        Polity.closed_kind.trans hkind
      have hdue' : (t.polity.closed t.session t.proposal).applyDue t.session.now = true := hdue
      rw [Polity.sweepOne, Polity.applyIfDue, if_pos hdue', hkind', Polity.closed_serverId]
      exact enact_ban t.session.now hfound
    next => cases hban
  next => cases hban

end Applied

section Runs

variable (services : Services) {w : World}

/-- The step that applies a ban to a member leaves the member sanctioned. -/
theorem sanctions_step {op : Op} {b : Banned} (hb : b ∈ op.bans w)
    (hmember : (w.store.getMembership b.user b.server).isSome) :
    ∃ m, (services.step w op).polity.roster.member b.user b.server = some m ∧
      m.isSanctioned = true := by
  unfold Op.bans at hb
  cases hop : op.resolves? with
  | none => rw [hop] at hb; cases hb
  | some slug =>
    rw [hop] at hb
    obtain ⟨t, ht, hban⟩ := List.mem_filterMap.1 hb
    have hpolity : (services.step w op).polity = w.polity.resolveDue slug := by
      cases op <;> cases hop
      · exact polity_resolveDue w slug
      · exact polity_listProposals w slug
    obtain ⟨m, hm⟩ := Option.isSome_iff_exists.1 hmember
    obtain ⟨server, hserver, hturn⟩ := mem_resolveTurns ht
    obtain ⟨m', hm', -⟩ := hturn.moves.persists.kept hm
    have hflag := sanctions_sweepOne hban hm'
    have hafter : Persists (t.polity.sweepOne t.session t.proposal).roster
        (w.polity.resolveDue slug).roster := by
      rw [Polity.resolveTurns, hserver] at ht
      rw [Polity.resolveDue, hserver, hturn.session]
      exact persists_after (w.polity.listForServer_pairwise server.id)
        (fun _ hp => w.polity.session_onTurn server hp) ht
    obtain ⟨m'', hm'', hsanction⟩ := hafter.kept hflag
    rw [hpolity]
    exact ⟨m'', hm'', hsanction rfl⟩

/-- A member whom a ban found stays one and stays sanctioned. -/
theorem sanctioned_after (hw : services.Reachable w) {op : Op} {b : Banned} (hb : b ∈ op.bans w)
    (hmember : (w.store.getMembership b.user b.server).isSome) (later : List Op) :
    ∃ m, (services.run w (op :: later)).polity.roster.member b.user b.server = some m ∧
      m.isSanctioned = true := by
  obtain ⟨m, hm, hsanction⟩ := sanctions_step services hb hmember
  obtain ⟨m', hm', hkept⟩ := (persists_run services (hw.step op) later).kept hm
  exact ⟨m', hm', hkept hsanction⟩

end Runs

/-! ## Joining after the ban -/

section Joining

theorem Enacted.get_eq_none {sid : ServerId} {kind : ProposalKind} {now : Timestamp}
    {c c' : Polity} (h : Enacted sid kind now c c') {k : UserId ×ₗ ServerId}
    (hk : c.roster.get k = none) : c'.roster.get k = none := by
  cases h with
  | @member m m' hm hsame =>
    exact get_insert_eq_none (Polity.get_key hm) hsame.key hk
  | assign => unfold Polity.assign; split <;> exact hk
  | _ => exact hk

/-- Resolving what is due makes nobody a member. -/
theorem resolveDue_get_eq_none {c : Polity} {k : UserId ×ₗ ServerId} (serverSlug : String)
    (hk : c.roster.get k = none) : (c.resolveDue serverSlug).roster.get k = none := by
  apply Polity.resolveDue_keeps (I := fun c' => c'.roster.get k = none)
  · exact fun _ _ h => h
  · exact fun _ _ _ h => h
  · exact fun c' sid kind now h => (enacted_enact c' sid kind now).get_eq_none h
  · exact hk

/-- Whoever becomes a member is not sanctioned. -/
theorem unsanctioned_of_new (services : Services) (w : World) (op : Op)
    {k : UserId ×ₗ ServerId} {m : Membership} (hk : w.polity.roster.get k = none)
    (hm : (services.step w op).polity.roster.get k = some m) : m.isSanctioned = false := by
  have hinsert : ∀ {m' : Membership}, (w.polity.roster.insert m').get k = some m →
      (w.polity.roster.get m'.key = none → m'.isSanctioned = false) → m.isSanctioned = false := by
    intro m' hget hnew
    rw [Table.get_insert] at hget
    split at hget
    next hkey =>
      obtain rfl := Option.some.inj hget
      exact hnew (hkey ▸ hk)
    next =>
      rw [hk] at hget
      cases hget
  have hacts := services.acts w op
  generalize (services.step w op).polity = c at hacts hm
  cases hacts with
  | ordinary _ h =>
    cases h with
    | refl => rw [hk] at hm; cases hm
    | single h =>
      cases h with
      | enrol _ _ => exact hinsert hm (fun _ => rfl)
      | edit hget hsame _ _ =>
        refine hinsert hm (fun hnone => ?_)
        rw [hsame.key, hget] at hnone
        cases hnone
      | _ => exact absurd (hk.symm.trans hm) (by simp)
  | credited _ h =>
    cases h with
    | none => rw [hk] at hm; cases hm
    | some contribution hget =>
      refine hinsert hm (fun hnone => ?_)
      exact absurd (hget.symm.trans hnone) (by simp)
  | resolved _ =>
    rw [resolveDue_get_eq_none _ hk] at hm
    cases hm
  | founded _ _ _ => exact hinsert hm (fun _ => rfl)
  | admitted hadmits _ =>
    refine hinsert hm (fun hnone => ?_)
    exact absurd ((roster_get_of_getMembership hadmits.memberFound).symm.trans hnone) (by simp)
  | voted _ h => cases h <;> exact absurd (hk.symm.trans hm) (by simp)
  | _ => exact absurd (hk.symm.trans hm) (by simp)

end Joining

/-- Whatever follows the step that applies a ban: no state after it has an
unsanctioned membership of the banned user exactly when the ban found the user a
member, or no later state has a membership of the user at all. -/
theorem ban_sticks_iff (services : Services) (node : NodeId) (now : Timestamp) (ops : List Op)
    (op : Op) (b : Banned) (hb : b ∈ op.bans (services.run (.empty node now) ops))
    (later : List Op) :
    (∀ l, l <+: later →
      ∀ m ∈ (services.run (.empty node now) (ops ++ op :: l)).store.getMembership b.user b.server,
        m.isSanctioned = true) ↔
    ((services.run (.empty node now) ops).store.getMembership b.user b.server).isSome ∨
      ∀ l, l <+: later →
        (services.run (.empty node now) (ops ++ op :: l)).store.getMembership b.user b.server =
          none := by
  have hw : services.Reachable (services.run (.empty node now) ops) := ⟨node, now, ops, rfl⟩
  constructor
  · intro hsanctioned
    refine or_iff_not_imp_left.2 (fun hstranger l hl => ?_)
    have hnone := Option.not_isSome_iff_eq_none.1 hstranger
    -- The first membership after the ban would be a new one, and new ones are not sanctioned.
    have hnew : ∀ pre, (services.run (.empty node now) pre).store.getMembership b.user b.server =
          none → ∀ op',
        (∀ m ∈ (services.run (.empty node now) (pre ++ [op'])).store.getMembership b.user b.server,
          m.isSanctioned = true) →
        (services.run (.empty node now) (pre ++ [op'])).store.getMembership b.user b.server =
          none := by
      intro pre hpre op' hall
      rw [Option.eq_none_iff_forall_ne_some]
      intro m hm
      have hflag := hall m hm
      rw [Services.run_concat] at hm
      rw [unsanctioned_of_new services _ op' hpre hm] at hflag
      cases hflag
    induction l using List.reverseRecOn with
    | nil => exact hnew ops hnone op (hsanctioned [] hl)
    | append_singleton l op' ih =>
      have hprefix : l <+: later := (List.prefix_append l [op']).trans hl
      have hstep := hnew (ops ++ op :: l) (ih hprefix) op'
      rw [List.append_assoc, List.cons_append] at hstep
      exact hstep (hsanctioned _ hl)
  · rintro (hmember | hnever) l hl m hm
    · obtain ⟨m', hm', hsanction⟩ := sanctioned_after services hw hb hmember l
      rw [Services.run_append] at hm
      obtain rfl : m' = m := Option.some.inj (hm'.symm.trans hm)
      exact hsanction
    · rw [hnever l hl] at hm
      cases hm

namespace Agora

/-- The founder, alone, bans somebody, and the window elapses. -/
def banOf (user : UserId) : List Op :=
  [.openProposal "zed" "agora" (.ban user), .castVote "zed" (composeId 0 1) true,
    .setClock (day 3)]

/-- The node's second user, in its first server. -/
def eve : Banned := ⟨composeId 0 2, sid⟩

def eveBanned : List Op :=
  founding ++ [.registerAccount "eve", .joinServer "eve" "agora"] ++ banOf eve.user

/-- The same ban, of somebody who has not joined yet. -/
def strangerBanned : List Op := founding ++ [.registerAccount "eve"] ++ banOf eve.user

end Agora

theorem ban_sticks_eve :
    (∀ l, l <+: [Op.joinServer "eve" "agora"] →
      ∀ m ∈ (Agora.services.run (.empty 0 (Agora.day 0))
          (Agora.eveBanned ++ .resolveDue "agora" :: l)).store.getMembership
            Agora.eve.user Agora.eve.server, m.isSanctioned = true) ∧
    ((Agora.services.run (.empty 0 (Agora.day 0)) Agora.eveBanned).store.getMembership
      Agora.eve.user Agora.eve.server).isSome :=
  ⟨(ban_sticks_iff Agora.services 0 (Agora.day 0) Agora.eveBanned (.resolveDue "agora") Agora.eve
    (by decide +kernel) _).2 (.inl (by decide +kernel)), by decide +kernel⟩

/-- The banned stranger joins, and is a member like any other. -/
theorem ban_of_stranger :
    Agora.eve ∈ Op.bans (Agora.services.run (.empty 0 (Agora.day 0)) Agora.strangerBanned)
      (.resolveDue "agora") ∧
    ¬ ∀ m ∈ (Agora.services.run (.empty 0 (Agora.day 0)) (Agora.strangerBanned ++
        [.resolveDue "agora", .joinServer "eve" "agora"])).store.getMembership
          Agora.eve.user Agora.eve.server, m.isSanctioned = true := by
  decide +kernel

end Democrachat
