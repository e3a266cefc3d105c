import Democrachat.Library.RateCap
import Democrachat.Polity.Invariants
import Democrachat.Polity.Roster

/-!
# The rate cap over every window

The admission dates of a server are a rate-capped roll, whatever the run, as
long as the clock does not go back.
-/

namespace Democrachat

open Library

namespace Roster

variable (r : Roster) (sid : ServerId)

/-- The citizens of the server enfranchised between the two instants. -/
def admittedWithin (first last : Timestamp) : Nat :=
  r.rows.countP fun m => m.serverId == sid && m.isCitizen &&
    m.enfranchisedAt.any (fun t => first ≤ t ∧ t ≤ last)

/-- The citizens of the server enfranchised before the instant. -/
def enfranchisedBefore (first : Timestamp) : Nat :=
  r.rows.countP fun m => m.serverId == sid && m.isCitizen && m.enfranchisedAt.any (fun t => t < first)

end Roster

/-! ## Counts of the roster as counts of its dates -/

section Counts

variable {r : Roster} (sid : ServerId)

theorem admittedSince_eq (since : Timestamp) :
    r.admittedSince sid since = (r.dates sid).countP (fun t => since.secs ≤ t) := by
  rw [countP_dates]
  rfl

variable (hr : Dated r)
include hr

theorem citizenCount_eq : r.citizenCount sid = (r.dates sid).card := by
  rw [← Multiset.countP_True, countP_dates]
  refine List.countP_congr (fun m hm => ?_)
  rw [hr m hm]
  cases hat : m.enfranchisedAt <;> simp [Membership.isDatedIn, hat]

theorem admittedWithin_eq (first last : Timestamp) :
    r.admittedWithin sid first last = joinedWithin first.secs last.secs (r.dates sid) := by
  rw [joinedWithin, countP_dates]
  refine List.countP_congr (fun m hm => ?_)
  rw [hr m hm]
  cases hat : m.enfranchisedAt <;> simp [Membership.isDatedIn, Timestamp.le_def, hat]

theorem enfranchisedBefore_eq (first : Timestamp) :
    r.enfranchisedBefore sid first = joinedBefore first.secs (r.dates sid) := by
  rw [joinedBefore, countP_dates]
  refine List.countP_congr (fun m hm => ?_)
  rw [hr m hm]
  cases hat : m.enfranchisedAt <;> simp [Membership.isDatedIn, Timestamp.lt_def, hat]

end Counts

/-! ## Runs -/

/-- The width of the window, in seconds. -/
def windowWidth : Int := rateCapWindowDays * Timestamp.secondsPerDay

/-- The roll of every server has grown under the cap. -/
def RollsCapped (r : Roster) (now : Timestamp) : Prop :=
  ∀ sid, Grown 5 9 windowWidth (r.dates sid) now.secs

/-- A newcomer for whom the cap left a slot. -/
theorem RollsCapped.insert {r : Roster} {now : Timestamp} (h : RollsCapped r now)
    {m : Membership} (hat : m.enfranchisedAt = some now)
    (hold : ∀ u, r.get m.key = some u → u.enfranchisedAt = none)
    (hslot : (r.dates m.serverId).countP (fun t => now.secs - windowWidth ≤ t) <
      max 5 (((r.dates m.serverId).card + 9) / (9 + 1))) :
    RollsCapped (r.insert m) now := by
  intro sid
  rw [dates_insert sid hat hold]
  split
  next hserver =>
    rw [hserver] at hslot
    exact (h sid).join hslot
  next => exact h sid

/-- The clock values a run sets never go back. -/
def ClockForward (now : Timestamp) (ops : List Op) : Prop :=
  (now :: ops.filterMap Op.clock?).Pairwise (fun s t => s ≤ t)

instance (now : Timestamp) (ops : List Op) : Decidable (ClockForward now ops) :=
  inferInstanceAs (Decidable (List.Pairwise _ _))

theorem ClockForward.le {now later : Timestamp} {ops : List Op}
    (h : ClockForward now (.setClock later :: ops)) : now ≤ later :=
  (List.pairwise_cons.1 h).1 later List.mem_cons_self

theorem ClockForward.tail {now : Timestamp} {op : Op} {ops : List Op}
    (h : ClockForward now (op :: ops)) : ClockForward (op.clock?.getD now) ops := by
  cases hop : op.clock? with
  | none => rwa [ClockForward, List.filterMap_cons_none hop] at h
  | some later =>
    rw [ClockForward, List.filterMap_cons_some hop] at h
    exact (List.pairwise_cons.1 h).2

section Run

variable {services : Services} {w : World}

theorem rollsCapped_step (hw : services.Reachable w)
    (hcapped : RollsCapped w.polity.roster w.now) (op : Op)
    (hop : ∀ later, op = .setClock later → w.now ≤ later) :
    RollsCapped (services.step w op).polity.roster (services.step w op).polity.now := by
  have hstepped := services.stepped w op
  generalize (services.step w op).polity = c at hstepped ⊢
  cases hstepped with
  | clock later => exact fun sid => (hcapped sid).wait (hop later rfl)
  | moves _ hmoves =>
    intro sid
    rw [hmoves.keeps.dates sid, hmoves.now]
    exact hcapped sid
  | @founded _ name isPrivate founder _ _ _ _ =>
    -- Nobody belongs to the new server yet, so its roll starts with the founder.
    have hfresh : ∀ m ∈ w.polity.roster.rows,
        m.serverId ≠ composeId w.polity.node (w.polity.nextServer + 1) :=
      fun m hm => (hw.serversMinted.members m hm).ne_composeId
    have hempty : w.polity.roster.dates (composeId w.polity.node (w.polity.nextServer + 1)) = 0 := by
      rw [← Multiset.card_eq_zero, ← Multiset.countP_True, countP_dates, List.countP_eq_zero]
      intro m hm
      simp [Membership.isDatedIn, hfresh m hm]
    refine hcapped.insert rfl ?_ ?_
    · intro u hu
      have hids := Membership.key_eq_key.1 (Table.key_of_get hu)
      exact absurd hids.2 (hfresh u (Table.mem_of_get hu))
    · change Multiset.countP _ (w.polity.roster.dates (composeId _ _)) < max 5
        (((w.polity.roster.dates (composeId _ _)).card + 9) / 10)
      rw [hempty]
      simp
  | @admitted _ _ user server m hadmits _ =>
    have hm := roster_get_of_getMembership hadmits.memberFound
    have hserver : m.serverId = server.id := (w.polity.member_userId _ hadmits.memberFound).2
    refine hcapped.insert rfl ?_ ?_
    · intro u hu
      rw [show (m.admittedAt w.now).key = m.key from rfl, hm] at hu
      obtain rfl := Option.some.inj hu
      have hdated := hw.dated m (Table.mem_of_get hm)
      rw [hadmits.notCitizen] at hdated
      simpa using hdated.symm
    · change Multiset.countP _ (w.polity.roster.dates m.serverId) < max 5
        (((w.polity.roster.dates m.serverId).card + 9) / 10)
      have hslots := enfranchisementSlots_pos (Nat.one_le_iff_ne_zero.1 hadmits.slots)
      have hcitizens := citizenCount_eq (r := w.polity.roster) server.id hw.dated
      have hadmitted := admittedSince_eq (r := w.polity.roster) server.id (windowStart w.now)
      rw [hserver, ← hcitizens]
      exact hadmitted ▸ hslots

theorem rollsCapped_run (hw : services.Reachable w)
    (hcapped : RollsCapped w.polity.roster w.now) {ops : List Op}
    (hclock : ClockForward w.now ops) :
    RollsCapped (services.run w ops).polity.roster (services.run w ops).polity.now := by
  induction ops generalizing w with
  | nil => exact hcapped
  | cons op ops ih =>
    rw [Services.run_cons]
    have hstep := rollsCapped_step hw hcapped op (fun later hop => (hop ▸ hclock).le)
    refine ih (hw.step op) hstep ?_
    rw [services.step_now w op]
    exact hclock.tail

end Run

/-- Over any run whose clock does not go back and any window of thirty days,
those admitted in the window are at most five or a ninth, rounded up, of the
citizens there were before it. -/
theorem rate_cap_every_window (services : Services) (node : NodeId) (now : Timestamp)
    (ops : List Op) (hclock : ClockForward now ops) (sid : ServerId) (last : Timestamp) :
    (services.run (.empty node now) ops).store.memberships.admittedWithin sid
        (windowStart last) last ≤
      max 5 (((services.run (.empty node now) ops).store.memberships.enfranchisedBefore sid
        (windowStart last) + 8) / 9) := by
  have hreachable : services.Reachable (services.run (.empty node now) ops) :=
    ⟨node, now, ops, rfl⟩
  have hempty : services.Reachable (.empty node now) := ⟨node, now, [], rfl⟩
  have hcapped := rollsCapped_run hempty (fun _ => Grown.start _) hclock sid
  have hwindow := hcapped.window_le (by decide) last.secs
  have hwithin := admittedWithin_eq sid hreachable.dated (windowStart last) last
  have hbefore := enfranchisedBefore_eq sid hreachable.dated (windowStart last)
  change Roster.admittedWithin (services.run (.empty node now) ops).polity.roster sid _ _ ≤
    max 5 ((Roster.enfranchisedBefore (services.run (.empty node now) ops).polity.roster sid _ + 8) / 9)
  rw [hwithin, hbefore]
  exact hwindow

theorem rate_cap_every_window_agora :
    let ops := Agora.founding ++ Agora.joining ["a", "b", "c"] ++ [.setClock (Agora.day 31)] ++
      Agora.admission ["a", "b", "c"]
    let w := Agora.services.run (.empty 0 (Agora.day 0)) ops
    ClockForward (Agora.day 0) ops ∧
      w.store.memberships.admittedWithin Agora.sid (windowStart (Agora.day 31)) (Agora.day 31) ≤
        max 5 ((w.store.memberships.enfranchisedBefore Agora.sid
          (windowStart (Agora.day 31)) + 8) / 9) :=
  ⟨by decide, rate_cap_every_window Agora.services 0 (Agora.day 0) _ (by decide) Agora.sid
    (Agora.day 31)⟩

end Democrachat
