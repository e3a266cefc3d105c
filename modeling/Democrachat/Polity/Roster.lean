import Democrachat.Polity.Requests
import Mathlib.Data.Multiset.Count

/-!
# Standing

How the tiers and admission dates of a roster change: a move keeps them,
founding adds a citizen, admission makes one.
-/

namespace Democrachat

open Library

/-- Nobody's tier or admission date changed, and whoever is new is a plain
member. -/
structure Keeps (r r' : Roster) : Prop where
  old : ∀ {k m}, r.get k = some m →
    ∃ m', r'.get k = some m' ∧ m'.tier = m.tier ∧ m'.enfranchisedAt = m.enfranchisedAt
  new : ∀ {k m'}, r'.get k = some m' →
    (∃ m, r.get k = some m ∧ m'.tier = m.tier ∧ m'.enfranchisedAt = m.enfranchisedAt) ∨
    (r.get k = none ∧ m'.tier = .member ∧ m'.enfranchisedAt = none)

namespace Keeps

theorem refl (r : Roster) : Keeps r r where
  old h := ⟨_, h, rfl, rfl⟩
  new h := .inl ⟨_, h, rfl, rfl⟩

theorem trans {r r' r'' : Roster} (h : Keeps r r') (h' : Keeps r' r'') : Keeps r r'' where
  old := by
    intro k m hm
    obtain ⟨m', hm', htier', hat'⟩ := h.old hm
    obtain ⟨m'', hm'', htier'', hat''⟩ := h'.old hm'
    exact ⟨m'', hm'', htier''.trans htier', hat''.trans hat'⟩
  new := by
    intro k m'' hm''
    obtain ⟨m', hm', htier'', hat''⟩ | ⟨hnone', htier'', hat''⟩ := h'.new hm''
    · rw [htier'', hat'']
      exact h.new hm'
    · refine .inr ⟨?_, htier'', hat''⟩
      cases hk : r.get k with
      | none => rfl
      | some m =>
        obtain ⟨m', hm', -⟩ := h.old hk
        rw [hnone'] at hm'
        cases hm'

/-- Rewriting a row in its standing. -/
theorem insert_same {r : Roster} {m m' : Membership} (hm : r.get m.key = some m)
    (h : SameStanding m m') : Keeps r (r.insert m') where
  old := by
    intro k x hx
    rw [Table.get_insert, h.key]
    split
    next hk =>
      rw [hk, hm] at hx
      obtain rfl := Option.some.inj hx
      exact ⟨m', rfl, h.tier, h.enfranchisedAt⟩
    next => exact ⟨x, hx, rfl, rfl⟩
  new := by
    intro k x hx
    rw [Table.get_insert, h.key] at hx
    split at hx
    next hk =>
      obtain rfl := Option.some.inj hx
      exact .inl ⟨m, by rw [hk, hm], h.tier, h.enfranchisedAt⟩
    next => exact .inl ⟨x, hx, rfl, rfl⟩

/-- A new member. -/
theorem insert_joined {r : Roster} {user : UserId} {sid : ServerId} {now : Timestamp}
    (hnone : r.member user sid = none) : Keeps r (r.insert (.joined user sid now)) where
  old := by
    intro k x hx
    rw [Table.get_insert]
    split
    next hk =>
      rw [hk] at hx
      exact absurd (hnone.symm.trans hx) (by simp)
    next => exact ⟨x, hx, rfl, rfl⟩
  new := by
    intro k x hx
    rw [Table.get_insert] at hx
    split at hx
    next hk =>
      obtain rfl := Option.some.inj hx
      exact .inr ⟨by rw [hk]; exact hnone, rfl, rfl⟩
    next => exact .inl ⟨x, hx, rfl, rfl⟩

end Keeps

theorem Enacted.keeps {sid : ServerId} {kind : ProposalKind} {now : Timestamp} {c c' : Polity}
    (h : Enacted sid kind now c c') : Keeps c.roster c'.roster := by
  cases h with
  | member hm hsame => exact Keeps.insert_same (Polity.get_key hm) hsame
  | assign => unfold Polity.assign; split <;> exact Keeps.refl _
  | _ => exact Keeps.refl _

theorem Move.keeps {c c' : Polity} (h : Move c c') : Keeps c.roster c'.roster := by
  cases h with
  | enrol _ hnone => exact Keeps.insert_joined hnone
  | edit hm hsame => exact Keeps.insert_same hm hsame
  | @apply p _ hdue =>
    rw [Polity.applyIfDue, if_pos hdue]
    have h := enacted_enact c p.serverId p.kind c.now
    exact h.keeps
  | _ => exact Keeps.refl _

theorem Moves.keeps {c c' : Polity} (h : Moves c c') : Keeps c.roster c'.roster := by
  induction h with
  | refl => exact Keeps.refl _
  | tail _ hmove ih => exact ih.trans hmove.keeps

/-- A count of rows by server and standing, without the plain members. -/
theorem Keeps.countP {r r' : Roster} (h : Keeps r r') {p : Membership → Bool}
    (hp : ∀ {m m' : Membership}, m'.serverId = m.serverId → m'.tier = m.tier →
      m'.enfranchisedAt = m.enfranchisedAt → p m' = p m)
    (hplain : ∀ {m : Membership}, m.tier = .member → m.enfranchisedAt = none → p m = false) :
    r'.rows.countP p = r.rows.countP p := by
  refine Table.countP_congr (fun k => ?_)
  have hserver : ∀ {m m' : Membership}, r.get k = some m → r'.get k = some m' →
      m'.serverId = m.serverId := by
    intro m m' hm hm'
    exact (Membership.key_eq_key.1 ((Table.key_of_get hm').trans (Table.key_of_get hm).symm)).2
  cases hk : r.get k with
  | some m =>
    obtain ⟨m', hm', htier, hat⟩ := h.old hk
    rw [hm', Option.any_some, Option.any_some, hp (hserver hk hm') htier hat]
  | none =>
    cases hk' : r'.get k with
    | none => rfl
    | some m' =>
      obtain ⟨m, hm, -, -⟩ | ⟨-, htier, hat⟩ := h.new hk'
      · rw [hk] at hm
        cases hm
      · rw [Option.any_some, hplain htier hat, Option.any_none]

theorem Keeps.citizenCount {r r' : Roster} (h : Keeps r r') (sid : ServerId) :
    r'.citizenCount sid = r.citizenCount sid := by
  refine h.countP (fun hserver htier _ => ?_) (fun htier _ => ?_)
  · rw [hserver, Membership.isCitizen, Membership.isCitizen, htier]
  · rw [Membership.isCitizen, htier]
    simp

/-! ## Admission dates -/

/-- The admission date is set for the citizens and for nobody else. -/
def Dated (r : Roster) : Prop := ∀ m ∈ r.rows, m.isCitizen = m.enfranchisedAt.isSome

theorem Keeps.dated {r r' : Roster} (h : Keeps r r') (hr : Dated r) : Dated r' := by
  intro m' hm'
  obtain ⟨m, hm, htier, hat⟩ | ⟨-, htier, hat⟩ := h.new (Table.mem_iff.1 hm')
  · rw [Membership.isCitizen, htier, hat]
    exact hr m (Table.mem_of_get hm)
  · rw [Membership.isCitizen, htier, hat]
    rfl

theorem Dated.insert {r : Roster} (hr : Dated r) {m : Membership}
    (hm : m.isCitizen = m.enfranchisedAt.isSome) : Dated (r.insert m) := by
  intro u hu
  rcases Table.mem_insert.1 hu with rfl | ⟨hu, -⟩
  · exact hm
  · exact hr u hu

theorem Services.Reachable.dated {services : Services} {w : World}
    (hw : services.Reachable w) : Dated w.polity.roster := by
  refine @Reachable.polity_invariant services (fun c => Dated c.roster) ?_ ?_ ?_ ?_ ?_ w hw
  · exact fun _ _ m hm => nomatch hm
  · exact fun _ _ h => h
  · exact fun _ _ h hmove => hmove.keeps.dated h
  · exact fun _ _ _ _ _ h => h.insert rfl
  · exact fun _ _ h _ _ => h.insert rfl

/-- When the citizens of a server were enfranchised. -/
def Roster.dates (r : Roster) (sid : ServerId) : Multiset Int :=
  (r.rows.filterMap fun m =>
    if m.serverId = sid then m.enfranchisedAt.map Timestamp.secs else none : List Int)

section Dates

variable (r : Roster) (sid : ServerId)

/-- Whether a row counts among the dates of the server that satisfy `p`. -/
def Membership.isDatedIn (sid : ServerId) (p : Int → Bool) (m : Membership) : Bool :=
  m.serverId == sid && m.enfranchisedAt.any (fun t => p t.secs)

theorem countP_dates (p : Int → Prop) [DecidablePred p] :
    (r.dates sid).countP p = r.rows.countP (Membership.isDatedIn sid p) := by
  rw [Roster.dates, Multiset.coe_countP, List.countP_filterMap]
  refine List.countP_congr (fun m _ => ?_)
  unfold Membership.isDatedIn
  by_cases hm : m.serverId = sid
  · cases hat : m.enfranchisedAt <;> simp [hm]
  · simp [hm]

theorem count_dates (t : Int) :
    (r.dates sid).count t = r.rows.countP (Membership.isDatedIn sid (t = ·)) :=
  countP_dates r sid (t = ·)

variable {r}

theorem Keeps.dates {r' : Roster} (h : Keeps r r') : r'.dates sid = r.dates sid := by
  refine Multiset.ext.2 (fun t => ?_)
  rw [count_dates, count_dates]
  refine h.countP (fun hserver _ hat => ?_) (fun _ hat => ?_)
  · rw [Membership.isDatedIn, Membership.isDatedIn, hserver, hat]
  · simp [Membership.isDatedIn, hat]

/-- A citizen in the place of nobody or of somebody who was none. -/
theorem dates_insert {m : Membership} {t : Timestamp} (hat : m.enfranchisedAt = some t)
    (hold : ∀ u, r.get m.key = some u → u.enfranchisedAt = none) :
    (Roster.dates (r.insert m) sid) =
      if m.serverId = sid then t.secs ::ₘ r.dates sid else r.dates sid := by
  refine Multiset.ext.2 (fun x => ?_)
  have hcount := Table.countP_insert r m (Membership.isDatedIn sid (x = ·))
  have hshare : ((r.get m.key).elim 0 fun u =>
      if u.isDatedIn sid (x = ·) then 1 else 0) = 0 := by
    cases hu : r.get m.key with
    | none => rfl
    | some u => simp [Membership.isDatedIn, hold u hu]
  rw [hshare, Nat.add_zero] at hcount
  rw [count_dates, hcount]
  by_cases hserver : m.serverId = sid
  · rw [if_pos hserver, Multiset.count_cons, count_dates]
    simp [Membership.isDatedIn, hserver, hat]
  · rw [if_neg hserver, count_dates]
    simp [Membership.isDatedIn, hserver]

end Dates

end Democrachat
