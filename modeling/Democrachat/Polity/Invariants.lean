import Democrachat.Polity.Requests

/-!
# What holds in every reachable polity

Identifiers are minted by one counter each, a message stays in its channel's
server and a role assignment in its role's, and a voter has one ballot on a
proposal.
-/

namespace Democrachat

open Library

/-- Minted here, while the counter ran up to `n`. -/
structure Minted {e : Entity} (node : NodeId) (n : Nat) (i : Id e) : Prop where
  node : i.node = node
  sequence : i.sequence ≤ n

namespace Minted

variable {e : Entity} {node : NodeId} {n : Nat} {i : Id e}

theorem succ (h : Minted node n i) : Minted node (n + 1) i :=
  ⟨h.node, Nat.le_succ_of_le h.sequence⟩

/-- The next identifier is a new one. -/
theorem ne_composeId (h : Minted node n i) : i ≠ composeId node (n + 1) := by
  rintro rfl
  have hle : n + 1 ≤ n := h.sequence
  omega

end Minted

theorem minted_composeId {e : Entity} {node : NodeId} {n : Nat} :
    Minted node n (composeId node n : Id e) :=
  ⟨rfl, le_refl _⟩

/-- Nothing is stored under the next identifier. -/
theorem get_composeId_eq_none {e : Entity} {ν : Type*} {key : ν → Id e} {t : Table key}
    {node : NodeId} {n : Nat} (ht : ∀ u ∈ t.rows, Minted node n (key u)) :
    t.get (composeId node (n + 1)) = none :=
  Table.get_eq_none.2 (fun u hu => (ht u hu).ne_composeId)

/-- Inserting a row into a table whose rows all satisfy `P`. -/
theorem forall_insert {κ ν : Type*} [LinearOrder κ] {key : ν → κ} {t : Table key}
    {P : ν → Prop} {v : ν} (ht : ∀ u ∈ t.rows, P u) (hv : P v) : ∀ u ∈ (t.insert v).rows, P u := by
  intro u hu
  rcases Table.mem_insert.1 hu with rfl | ⟨hu, -⟩
  · exact hv
  · exact ht u hu

/-! ## Servers and members -/

structure ServersMinted (c : Polity) : Prop where
  servers : ∀ g ∈ c.servers.rows, Minted c.node c.nextServer g.id
  members : ∀ m ∈ c.roster.rows, Minted c.node c.nextServer m.serverId

namespace ServersMinted

variable {c c' : Polity}

theorem member (h : ServersMinted c) {m m' : Membership} (hm : c.roster.get m.key = some m)
    (hserver : m'.serverId = m.serverId) :
    ServersMinted { c with roster := c.roster.insert m' } where
  servers := h.servers
  members := forall_insert h.members (hserver ▸ h.members m (Table.mem_of_get hm))

theorem enacted (h : ServersMinted c) {sid : ServerId} {kind : ProposalKind} {now : Timestamp}
    (he : Enacted sid kind now c c') : ServersMinted c' := by
  cases he with
  | server hs hid _ =>
    refine ⟨forall_insert h.servers ?_, h.members⟩
    rw [hid, Table.key_of_get hs]
    exact Table.key_of_get hs ▸ h.servers _ (Table.mem_of_get hs)
  | member hm hsame => exact h.member (Polity.get_key hm) hsame.serverId
  | assign => unfold Polity.assign; split <;> exact ⟨h.servers, h.members⟩
  | _ => exact ⟨h.servers, h.members⟩

theorem move (h : ServersMinted c) (hmove : Move c c') : ServersMinted c' := by
  cases hmove with
  | enrol hg _ => exact ⟨h.servers, forall_insert h.members (h.servers _ (Table.mem_of_get hg))⟩
  | edit hm hsame => exact h.member hm hsame.serverId
  | @apply p _ hdue =>
    rw [Polity.applyIfDue, if_pos hdue]
    have henacted := h.enacted (enacted_enact c p.serverId p.kind c.now)
    exact ⟨henacted.servers, henacted.members⟩
  | _ => exact ⟨h.servers, h.members⟩

theorem found (h : ServersMinted c) (slug name : String) (founder : UserId) (isPrivate : Bool) :
    ServersMinted (c.found slug name founder isPrivate) where
  servers := forall_insert (fun g hg => (h.servers g hg).succ) minted_composeId
  members := forall_insert (fun m hm => (h.members m hm).succ) minted_composeId

end ServersMinted

theorem Services.Reachable.serversMinted {services : Services} {w : World}
    (hw : services.Reachable w) : ServersMinted w.polity := by
  refine hw.polity_invariant ?_ ?_ ?_ ?_ ?_
  · exact fun _ _ => ⟨fun _ h => (nomatch h), fun _ h => (nomatch h)⟩
  · exact fun _ _ h => ⟨h.servers, h.members⟩
  · exact fun _ _ h hmove => h.move hmove
  · exact fun _ _ _ _ _ h => h.found _ _ _ _
  · exact fun _ _ h hm _ => h.member hm rfl

/-! ## Channels and messages -/

structure MessagesPlaced (c : Polity) : Prop where
  channels : ∀ x ∈ c.channels.rows, Minted c.node c.nextChannel x.id
  messages : ∀ m ∈ c.messages.rows,
    ∃ x, c.channels.get m.channelId = some x ∧ x.serverId = m.serverId

namespace MessagesPlaced

variable {c c' : Polity}

theorem addChannel (h : MessagesPlaced c) (sid : ServerId) (name topic : String)
    (now : Timestamp) : MessagesPlaced (c.addChannel sid name topic now) where
  channels := forall_insert (fun x hx => (h.channels x hx).succ) minted_composeId
  messages := by
    intro m hm
    obtain ⟨x, hx, hserver⟩ := h.messages m hm
    have hne := (h.channels x (Table.mem_of_get hx)).ne_composeId
    rw [Table.key_of_get hx] at hne
    exact ⟨x, (Table.get_insert_of_ne c.channels hne).trans hx, hserver⟩

theorem removeChannel (h : MessagesPlaced c) (id : ChannelId) :
    MessagesPlaced (c.removeChannel id) where
  channels := fun x hx => h.channels x (Table.mem_erase.1 hx).1
  messages := by
    intro m hm
    obtain ⟨hm, hne⟩ := Table.mem_retain.1 hm
    obtain ⟨x, hx, hserver⟩ := h.messages m hm
    refine ⟨x, ?_, hserver⟩
    have hne : m.channelId ≠ id := by simpa using hne
    exact (Table.get_erase _ _ _).trans ((if_neg hne).trans hx)

theorem enacted (h : MessagesPlaced c) {sid : ServerId} {kind : ProposalKind} {now : Timestamp}
    (he : Enacted sid kind now c c') : MessagesPlaced c' := by
  cases he with
  | addChannel name topic _ _ => exact h.addChannel sid name topic now
  | removeChannel _ _ => exact h.removeChannel _
  | assign => unfold Polity.assign; split <;> exact ⟨h.channels, h.messages⟩
  | _ => exact ⟨h.channels, h.messages⟩

theorem move (h : MessagesPlaced c) (hmove : Move c c') : MessagesPlaced c' := by
  cases hmove with
  | addChannel name topic _ _ => exact h.addChannel _ name topic _
  | post hx hserver => exact ⟨h.channels, forall_insert h.messages ⟨_, hx, hserver⟩⟩
  | @rewrite m m' hm _ hchannel hserver _ =>
    refine ⟨h.channels, forall_insert h.messages ?_⟩
    rw [hchannel, hserver]
    exact h.messages m (Table.mem_of_get hm)
  | @apply p _ hdue =>
    rw [Polity.applyIfDue, if_pos hdue]
    have henacted := h.enacted (enacted_enact c p.serverId p.kind c.now)
    exact ⟨henacted.channels, henacted.messages⟩
  | _ => exact ⟨h.channels, h.messages⟩

end MessagesPlaced

theorem Services.Reachable.messagesPlaced {services : Services} {w : World}
    (hw : services.Reachable w) : MessagesPlaced w.polity := by
  refine hw.polity_invariant ?_ ?_ ?_ ?_ ?_
  · exact fun _ _ => ⟨fun _ h => (nomatch h), fun _ h => (nomatch h)⟩
  · exact fun _ _ h => ⟨h.channels, h.messages⟩
  · exact fun _ _ h hmove => h.move hmove
  · exact fun _ _ _ _ _ h => ⟨h.channels, h.messages⟩
  · exact fun _ _ h _ _ => ⟨h.channels, h.messages⟩

/-! ## Roles and their assignments -/

structure RolesPlaced (c : Polity) : Prop where
  roles : ∀ r ∈ c.roles.rows, Minted c.node c.nextRole r.id
  assignments : ∀ a ∈ c.roleAssignments,
    ∃ r, c.roles.get a.roleId = some r ∧ r.serverId = a.serverId

namespace RolesPlaced

variable {c c' : Polity}

theorem addRole (h : RolesPlaced c) (sid : ServerId) (name : String) (now : Timestamp) :
    RolesPlaced (c.addRole sid name now) where
  roles := forall_insert (fun r hr => (h.roles r hr).succ) minted_composeId
  assignments := by
    intro a ha
    obtain ⟨r, hr, hserver⟩ := h.assignments a ha
    have hne := (h.roles r (Table.mem_of_get hr)).ne_composeId
    rw [Table.key_of_get hr] at hne
    exact ⟨r, (Table.get_insert_of_ne c.roles hne).trans hr, hserver⟩

theorem removeRole (h : RolesPlaced c) (id : RoleId) : RolesPlaced (c.removeRole id) where
  roles := fun r hr => h.roles r (Table.mem_erase.1 hr).1
  assignments := by
    intro a ha
    obtain ⟨ha, hne⟩ := List.mem_filter.1 ha
    obtain ⟨r, hr, hserver⟩ := h.assignments a ha
    refine ⟨r, ?_, hserver⟩
    have hne : a.roleId ≠ id := by simpa using hne
    exact (Table.get_erase _ _ _).trans ((if_neg hne).trans hr)

theorem assign (h : RolesPlaced c) {a : RoleAssignment} {r : Role}
    (hr : c.roles.get a.roleId = some r) (hserver : r.serverId = a.serverId) :
    RolesPlaced (c.assign a) := by
  unfold Polity.assign
  split
  next => exact h
  next =>
    refine ⟨h.roles, fun b hb => ?_⟩
    rcases List.mem_append.1 hb with hb | hb
    · exact h.assignments b hb
    · rw [List.mem_singleton.1 hb]
      exact ⟨r, hr, hserver⟩

theorem enacted (h : RolesPlaced c) {sid : ServerId} {kind : ProposalKind} {now : Timestamp}
    (he : Enacted sid kind now c c') : RolesPlaced c' := by
  cases he with
  | addRole name _ _ => exact h.addRole sid name now
  | removeRole _ _ => exact h.removeRole _
  | assign hsid hr hserver => exact h.assign hr (hserver.trans hsid.symm)
  | unassign _ _ _ => exact ⟨h.roles, fun a ha => h.assignments a (List.mem_filter.1 ha).1⟩
  | _ => exact ⟨h.roles, h.assignments⟩

theorem move (h : RolesPlaced c) (hmove : Move c c') : RolesPlaced c' := by
  cases hmove with
  | @apply p _ hdue =>
    rw [Polity.applyIfDue, if_pos hdue]
    have henacted := h.enacted (enacted_enact c p.serverId p.kind c.now)
    exact ⟨henacted.roles, henacted.assignments⟩
  | _ => exact ⟨h.roles, h.assignments⟩

end RolesPlaced

theorem Services.Reachable.rolesPlaced {services : Services} {w : World}
    (hw : services.Reachable w) : RolesPlaced w.polity := by
  refine hw.polity_invariant ?_ ?_ ?_ ?_ ?_
  · exact fun _ _ => ⟨fun _ h => (nomatch h), fun _ h => (nomatch h)⟩
  · exact fun _ _ h => ⟨h.roles, h.assignments⟩
  · exact fun _ _ h hmove => h.move hmove
  · exact fun _ _ _ _ _ h => ⟨h.roles, h.assignments⟩
  · exact fun _ _ h _ _ => ⟨h.roles, h.assignments⟩

/-! ## Channel names and rules -/

/-- A server has one channel of a name, and rules are minted like the rest. -/
structure NamesUnique (c : Polity) : Prop where
  channels : ∀ x ∈ c.channels.rows, ∀ y ∈ c.channels.rows,
    x.serverId = y.serverId → x.name = y.name → x = y
  rules : ∀ r ∈ c.rules.rows, Minted c.node c.nextRule r.id

namespace NamesUnique

variable {c c' : Polity}

theorem addChannel (h : NamesUnique c) {sid : ServerId} {name : String} (topic : String)
    (now : Timestamp) (hfree : c.findChannel sid name = none) :
    NamesUnique (c.addChannel sid name topic now) where
  channels := by
    have hother : ∀ y ∈ c.channels.rows, ¬ (y.serverId = sid ∧ y.name = name) := by
      intro y hy
      simpa using List.find?_eq_none.1 hfree y hy
    intro x hx y hy hserver hname
    rcases Table.mem_insert.1 hx with rfl | ⟨hx, -⟩
    · rcases Table.mem_insert.1 hy with rfl | ⟨hy, -⟩
      · rfl
      · exact absurd ⟨hserver.symm, hname.symm⟩ (hother y hy)
    · rcases Table.mem_insert.1 hy with rfl | ⟨hy, -⟩
      · exact absurd ⟨hserver, hname⟩ (hother x hx)
      · exact h.channels x hx y hy hserver hname
  rules := h.rules

theorem enacted (h : NamesUnique c) {sid : ServerId} {kind : ProposalKind} {now : Timestamp}
    (he : Enacted sid kind now c c') : NamesUnique c' := by
  cases he with
  | addChannel name topic _ hfree => exact h.addChannel topic now hfree
  | removeChannel _ _ =>
    refine ⟨fun x hx y hy => ?_, h.rules⟩
    exact h.channels x (Table.mem_erase.1 hx).1 y (Table.mem_erase.1 hy).1
  | addRule text =>
    exact ⟨h.channels, forall_insert (fun r hr => (h.rules r hr).succ) minted_composeId⟩
  | removeRule _ => exact ⟨h.channels, fun r hr => h.rules r (Table.mem_erase.1 hr).1⟩
  | assign => unfold Polity.assign; split <;> exact ⟨h.channels, h.rules⟩
  | _ => exact ⟨h.channels, h.rules⟩

theorem move (h : NamesUnique c) (hmove : Move c c') : NamesUnique c' := by
  cases hmove with
  | addChannel name topic _ hfree => exact h.addChannel topic _ hfree
  | @apply p _ hdue =>
    rw [Polity.applyIfDue, if_pos hdue]
    have henacted := h.enacted (enacted_enact c p.serverId p.kind c.now)
    exact ⟨henacted.channels, henacted.rules⟩
  | _ => exact ⟨h.channels, h.rules⟩

end NamesUnique

theorem Services.Reachable.namesUnique {services : Services} {w : World}
    (hw : services.Reachable w) : NamesUnique w.polity := by
  refine hw.polity_invariant ?_ ?_ ?_ ?_ ?_
  · exact fun _ _ => ⟨fun _ h => (nomatch h), fun _ h => (nomatch h)⟩
  · exact fun _ _ h => ⟨h.channels, h.rules⟩
  · exact fun _ _ h hmove => h.move hmove
  · exact fun _ _ _ _ _ h => ⟨h.channels, h.rules⟩
  · exact fun _ _ h _ _ => ⟨h.channels, h.rules⟩

end Democrachat
