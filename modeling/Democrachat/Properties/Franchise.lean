import Democrachat.Polity.Roster

/-!
# The franchise is earned

Over any run from an empty store, a citizen is the founder of the server or was
let in by `tryEnfranchise` under the criteria and the rate cap of that moment,
and nothing ever lowers a tier.
-/

namespace Democrachat

open Library

/-- At `w` the request `op` founded the server that `m` belongs to, for the
member itself, who was not barred. -/
structure ByFounding (services : Services) (w : World) (op : Op) (m : Membership) : Prop where
  founded : ∃ founderHandle name isPrivate founder server,
    op = .foundServer founderHandle name isPrivate ∧
    w.store.findByHandle (trim founderHandle) = some founder ∧
    founder.isFranchiseBarred = false ∧
    ((foundServerWithVisibility founderHandle name isPrivate).exec w).1 = .ok server ∧
    m.userId = founder.id ∧ m.serverId = server.id
  enfranchisedAt : m.enfranchisedAt = some w.now

/-- At `w` the request `op` turned the member into a citizen, having read a row
that met every criterion and an open slot. -/
structure ByAdmission (services : Services) (w : World) (op : Op) (m : Membership) : Prop where
  admission : ∃ handle serverSlug user server m₀,
    op = .tryEnfranchise handle serverSlug ∧
    ((tryEnfranchise handle serverSlug).exec w).1 = .ok .admitted ∧
    w.store.findByHandle (trim handle) = some user ∧
    w.store.findBySlug (trim serverSlug) = some server ∧
    w.store.getMembership user.id server.id = some m₀ ∧ m₀.tier ≠ .citizen ∧
    (evaluateEligibility user m₀ server.criteria w.now).unmet = [] ∧
    1 ≤ enfranchisementSlots (w.store.citizenCount server.id)
      (w.store.admittedSince server.id (windowStart w.now)) ∧
    m.userId = user.id ∧ m.serverId = server.id
  enfranchisedAt : m.enfranchisedAt = some w.now

section Step

variable (services : Services) (w : World) (op : Op)

theorem isCitizen_iff {m : Membership} : m.isCitizen = true ↔ m.tier = .citizen := by
  simp [Membership.isCitizen]

/-- What one request does to the roster. -/
theorem roster_step :
    Keeps w.polity.roster (services.step w op).polity.roster ∨
    ∃ m, (services.step w op).polity.roster = w.polity.roster.insert m ∧ m.tier = .citizen ∧
      (ByFounding services w op m ∨ ByAdmission services w op m) := by
  have hstepped := services.stepped w op
  generalize (services.step w op).polity = c at hstepped ⊢
  cases hstepped with
  | clock now => exact .inl (Keeps.refl _)
  | moves _ h => exact .inl h.keeps
  | @founded founderHandle name isPrivate founder g hfounds hg hid =>
    refine .inr ⟨_, rfl, rfl, .inl ⟨?_, rfl⟩⟩
    exact ⟨founderHandle, name, isPrivate, founder, g, rfl, hfounds.userFound,
      hfounds.notBarred, hg, rfl, hid.symm⟩
  | @admitted handle serverSlug user server m hadmits hadmitted =>
    refine .inr ⟨m.admittedAt w.now, rfl, rfl, .inr ⟨?_, rfl⟩⟩
    have hids := w.polity.member_userId server.id hadmits.memberFound
    have htier : m.tier ≠ .citizen := by
      intro htier
      rw [← isCitizen_iff, hadmits.notCitizen] at htier
      cases htier
    exact ⟨handle, serverSlug, user, server, m, rfl, hadmitted, hadmits.userFound,
      hadmits.serverFound, hadmits.memberFound, htier, hadmits.eligible, hadmits.slots, hids.1,
      hids.2⟩

/-- The origin of a citizen speaks of their key and date only. -/
theorem origin_congr {m m' : Membership} (hkey : m'.key = m.key)
    (hat : m'.enfranchisedAt = m.enfranchisedAt)
    (h : ByFounding services w op m ∨ ByAdmission services w op m) :
    ByFounding services w op m' ∨ ByAdmission services w op m' := by
  have hids := Membership.key_eq_key.1 hkey
  cases h with
  | inl h =>
    obtain ⟨⟨founderHandle, name, isPrivate, founder, server, hop, huser, hbarred, hok, hu, hs⟩,
      hsome⟩ := h
    exact .inl ⟨⟨founderHandle, name, isPrivate, founder, server, hop, huser, hbarred, hok,
      hids.1.trans hu, hids.2.trans hs⟩, hat.trans hsome⟩
  | inr h =>
    obtain ⟨⟨handle, serverSlug, user, server, m₀, hop, hadmitted, huser, hserver, hm₀, htier,
      hunmet, hslots, hu, hs⟩, hsome⟩ := h
    exact .inr ⟨⟨handle, serverSlug, user, server, m₀, hop, hadmitted, huser, hserver, hm₀, htier,
      hunmet, hslots, hids.1.trans hu, hids.2.trans hs⟩, hat.trans hsome⟩

/-- A citizen after a request was one before it, with the same date, or is the
one it let in. -/
theorem citizen_step {k : UserId ×ₗ ServerId} {m' : Membership}
    (hm' : (services.step w op).polity.roster.get k = some m') (htier : m'.tier = .citizen) :
    (∃ m, w.polity.roster.get k = some m ∧ m.tier = .citizen ∧
      m'.enfranchisedAt = m.enfranchisedAt) ∨
    (ByFounding services w op m' ∨ ByAdmission services w op m') := by
  obtain hkeeps | ⟨m, hroster, -, horigin⟩ := roster_step services w op
  · obtain ⟨m, hm, htier', hat⟩ | ⟨-, hmember, -⟩ := hkeeps.new hm'
    · exact .inl ⟨m, hm, htier' ▸ htier, hat⟩
    · rw [hmember] at htier
      cases htier
  · rw [hroster, Table.get_insert] at hm'
    split at hm'
    next =>
      obtain rfl := Option.some.inj hm'
      exact .inr horigin
    next => exact .inl ⟨m', hm', htier, rfl⟩

/-- A request lowers nobody's tier and removes nobody. -/
theorem tier_step {k : UserId ×ₗ ServerId} {m : Membership}
    (hm : w.polity.roster.get k = some m) :
    ∃ m', (services.step w op).polity.roster.get k = some m' ∧ m.tier.rank ≤ m'.tier.rank := by
  obtain hkeeps | ⟨x, hroster, htier, -⟩ := roster_step services w op
  · obtain ⟨m', hm', htier, -⟩ := hkeeps.old hm
    exact ⟨m', hm', by rw [htier]⟩
  · rw [hroster, Table.get_insert]
    split
    next =>
      refine ⟨x, rfl, ?_⟩
      rw [htier]
      cases m.tier <;> decide
    next => exact ⟨m, hm, le_refl _⟩

end Step

section Run

variable (services : Services)

theorem citizen_run (w : World) (hw : w.polity.roster.rows = []) (ops : List Op)
    {k : UserId ×ₗ ServerId} {m : Membership}
    (hm : (services.run w ops).polity.roster.get k = some m) (htier : m.tier = .citizen) :
    ∃ pre op post, ops = pre ++ op :: post ∧
      (ByFounding services (services.run w pre) op m ∨
        ByAdmission services (services.run w pre) op m) := by
  induction ops using List.reverseRecOn generalizing m with
  | nil =>
    have hmem := Table.mem_of_get hm
    rw [Services.run_nil, hw] at hmem
    cases hmem
  | append_singleton ops op ih =>
    rw [Services.run_concat] at hm
    obtain ⟨m₀, hm₀, htier₀, hat⟩ | horigin :=
      citizen_step services (services.run w ops) op hm htier
    · obtain ⟨pre, op', post, hops, horigin⟩ := ih hm₀ htier₀
      have hkey : m.key = m₀.key := (Table.key_of_get hm).trans (Table.key_of_get hm₀).symm
      refine ⟨pre, op', post ++ [op], by rw [hops]; simp, ?_⟩
      exact origin_congr services _ op' hkey hat horigin
    · exact ⟨ops, op, [], rfl, horigin⟩

theorem tier_run (w : World) (ops : List Op) {k : UserId ×ₗ ServerId} {m : Membership}
    (hm : w.polity.roster.get k = some m) :
    ∃ m', (services.run w ops).polity.roster.get k = some m' ∧ m.tier.rank ≤ m'.tier.rank := by
  induction ops generalizing w m with
  | nil => exact ⟨m, hm, le_refl _⟩
  | cons op ops ih =>
    obtain ⟨m₁, hm₁, hle₁⟩ := tier_step services w op hm
    obtain ⟨m₂, hm₂, hle₂⟩ := ih (services.step w op) hm₁
    exact ⟨m₂, hm₂, hle₁.trans hle₂⟩

/-- The only ways into the franchise are founding the server and being admitted
on the criteria within the rate cap; the admission date is the instant of the
one or the other, and no request lowers a tier. -/
theorem franchise_criteria_only (node : NodeId) (now : Timestamp) (ops : List Op) :
    (∀ m ∈ (services.run (.empty node now) ops).store.memberships.rows, m.tier = .citizen →
      ∃ pre op post, ops = pre ++ op :: post ∧
        (ByFounding services (services.run (.empty node now) pre) op m ∨
          ByAdmission services (services.run (.empty node now) pre) op m)) ∧
    (∀ m ∈ (services.run (.empty node now) ops).store.memberships.rows,
      m.enfranchisedAt.isSome ↔ m.tier = .citizen) ∧
    (∀ pre post, ops = pre ++ post →
      ∀ m ∈ (services.run (.empty node now) pre).store.memberships.rows,
        ∃ m' ∈ (services.run (.empty node now) ops).store.memberships.rows,
          m'.userId = m.userId ∧ m'.serverId = m.serverId ∧ m.tier.rank ≤ m'.tier.rank) := by
  have hget : ∀ {w : World} {m : Membership}, m ∈ w.store.memberships.rows →
      w.polity.roster.get m.key = some m := fun h => Table.mem_iff.1 h
  refine ⟨fun m hm htier => citizen_run services _ rfl ops (hget hm) htier, fun m hm => ?_,
    fun pre post hops m hm => ?_⟩
  · have hreachable : services.Reachable (services.run (.empty node now) ops) :=
      ⟨node, now, ops, rfl⟩
    rw [← hreachable.dated m hm, isCitizen_iff]
  · obtain ⟨m', hm', hle⟩ := tier_run services _ post (hget hm)
    have hids := Membership.key_eq_key.1 (Table.key_of_get hm')
    rw [hops, Services.run_append]
    exact ⟨m', Table.mem_of_get hm', hids.1, hids.2, hle⟩

end Run

end Democrachat
