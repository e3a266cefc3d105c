import Democrachat.Polity.Ballots
import Democrachat.Polity.UseCases
import Democrachat.Properties.Enrolment
import Democrachat.Properties.Signatures

/-!
# No reference dangles

Whatever a node has served, a row that belongs to a server, a channel, a role or a proposal belongs
to one that is stored, who has voted is a member of the proposal's server, and whoever a row stands
in the name of has an account.  Accounts, servers, members and proposals are never removed; a
channel goes with its messages, and a role with its assignments.  The reactions and key grants that
a removed channel leaves behind are not counted.
-/

namespace Democrachat

open Library Req

theorem isSome_get_insert {κ ν : Type*} [LinearOrder κ] {key : ν → κ} {t : Table key}
    {k : κ} (h : (t.get k).isSome = true) (v : ν) : ((t.insert v).get k).isSome = true := by
  rw [Table.get_insert]
  split
  next => rfl
  next => exact h

/-! ## Servers, members and proposals -/

namespace Polity

variable (c : Polity)

def HasServer (sid : ServerId) : Prop := (c.servers.get sid).isSome = true

/-- The proposal is stored, and its server has the voter for a member. -/
def Places (v : Vote) : Prop :=
  ∃ p, c.proposals.get v.proposalId = some p ∧
    (c.roster.member v.voter p.serverId).isSome = true

end Polity

structure Rooted (c : Polity) : Prop where
  minted : ∀ p ∈ c.proposals.rows, Minted c.node c.nextProposal p.id
  members : ∀ m ∈ c.roster.rows, c.HasServer m.serverId
  channels : ∀ x ∈ c.channels.rows, c.HasServer x.serverId
  rules : ∀ r ∈ c.rules.rows, c.HasServer r.serverId
  roles : ∀ r ∈ c.roles.rows, c.HasServer r.serverId
  proposals : ∀ p ∈ c.proposals.rows, c.HasServer p.serverId
  votes : ∀ v ∈ c.votes, c.Places v

namespace Rooted

variable {c c' : Polity}

theorem insertServer (h : Rooted c) (g : Server) :
    Rooted { c with servers := c.servers.insert g } where
  minted := h.minted
  members m hm := isSome_get_insert (h.members m hm) g
  channels x hx := isSome_get_insert (h.channels x hx) g
  rules r hr := isSome_get_insert (h.rules r hr) g
  roles r hr := isSome_get_insert (h.roles r hr) g
  proposals p hp := isSome_get_insert (h.proposals p hp) g
  votes := h.votes

theorem insertMember (h : Rooted c) {m : Membership} (hserver : c.HasServer m.serverId) :
    Rooted { c with roster := c.roster.insert m } where
  minted := h.minted
  members := forall_insert h.members hserver
  channels := h.channels
  rules := h.rules
  roles := h.roles
  proposals := h.proposals
  votes v hv := by
    obtain ⟨p, hp, hmember⟩ := h.votes v hv
    exact ⟨p, hp, isSome_get_insert hmember m⟩

theorem editMember (h : Rooted c) {m m' : Membership} (hm : c.roster.get m.key = some m)
    (hserver : m'.serverId = m.serverId) :
    Rooted { c with roster := c.roster.insert m' } := by
  apply h.insertMember
  rw [hserver]
  exact h.members m (Table.mem_of_get hm)

theorem insertChannel (h : Rooted c) {x : Channel} (hserver : c.HasServer x.serverId) :
    Rooted { c with channels := c.channels.insert x } where
  minted := h.minted
  members := h.members
  channels := forall_insert h.channels hserver
  rules := h.rules
  roles := h.roles
  proposals := h.proposals
  votes := h.votes

/-- A proposal is rewritten, and stays where it is. -/
theorem putProposal (h : Rooted c) {p q : Proposal} (hp : c.proposals.get p.id = some p)
    (hid : q.id = p.id) (hserver : q.serverId = p.serverId) : Rooted (c.putProposal q) where
  minted := forall_insert h.minted (hid ▸ h.minted p (Table.mem_of_get hp))
  members := h.members
  channels := h.channels
  rules := h.rules
  roles := h.roles
  proposals := by
    apply forall_insert h.proposals
    rw [hserver]
    exact h.proposals p (Table.mem_of_get hp)
  votes v hv := by
    obtain ⟨p', hp', hmember⟩ := h.votes v hv
    by_cases hsame : v.proposalId = q.id
    · refine ⟨q, ?_, ?_⟩
      · rw [hsame]
        exact Table.get_insert_self c.proposals q
      · rw [hsame, hid, hp] at hp'
        rw [hserver, Option.some.inj hp']
        exact hmember
    · exact ⟨p', (Table.get_insert_of_ne c.proposals hsame).trans hp', hmember⟩

theorem propose (h : Rooted c) {sid : ServerId} (hserver : c.HasServer sid) (proposer : UserId)
    (kind : ProposalKind) : Rooted (c.propose sid proposer kind) where
  minted := forall_insert (fun p hp => (h.minted p hp).succ) minted_composeId
  members := h.members
  channels := h.channels
  rules := h.rules
  roles := h.roles
  proposals := forall_insert h.proposals hserver
  votes v hv := by
    obtain ⟨p, hp, hmember⟩ := h.votes v hv
    have hne := (h.minted p (Table.mem_of_get hp)).ne_composeId
    rw [Table.key_of_get hp] at hne
    exact ⟨p, (Table.get_insert_of_ne c.proposals hne).trans hp, hmember⟩

theorem recordVote (h : Rooted c) {v : Vote} (hv : c.Places v) :
    Rooted { c with votes := Democrachat.recordVote c.votes v } where
  minted := h.minted
  members := h.members
  channels := h.channels
  rules := h.rules
  roles := h.roles
  proposals := h.proposals
  votes u hu := by
    rcases mem_recordVote.1 hu with ⟨hu, -⟩ | rfl
    · exact h.votes u hu
    · exact hv

/-! ## What requests do -/

theorem enacted (h : Rooted c) {sid : ServerId} {kind : ProposalKind} {now : Timestamp}
    (hsid : c.HasServer sid) (he : Enacted sid kind now c c') : Rooted c' := by
  cases he with
  | idle => exact h
  | server _ _ _ => exact h.insertServer _
  | member hm hsame => exact h.editMember (Polity.get_key hm) hsame.serverId
  | addChannel name topic _ _ =>
    have hnew := h.insertChannel
      (x := .new (composeId c.node (c.nextChannel + 1)) sid name topic now) hsid
    exact { hnew with }
  | removeChannel _ _ =>
    exact { h with channels := fun x hx => h.channels x (Table.mem_erase.1 hx).1 }
  | addRule text => exact { h with rules := forall_insert h.rules hsid }
  | removeRule _ => exact { h with rules := fun r hr => h.rules r (Table.mem_erase.1 hr).1 }
  | addRole name _ _ => exact { h with roles := forall_insert h.roles hsid }
  | removeRole _ _ => exact { h with roles := fun r hr => h.roles r (Table.mem_erase.1 hr).1 }
  | assign _ _ _ =>
    unfold Polity.assign
    split
    next => exact h
    next => exact { h with }
  | unassign _ _ _ => exact { h with }

theorem move (h : Rooted c) (hmove : Move c c') : Rooted c' := by
  cases hmove with
  | enrol hg _ => exact h.insertMember (Option.isSome_of_mem hg)
  | edit hm hsame => exact h.editMember hm hsame.serverId
  | @addChannel g name topic hg _ =>
    have hnew := h.insertChannel
      (x := .new (composeId c.node (c.nextChannel + 1)) g.id name topic c.now)
      (Option.isSome_of_mem hg)
    exact { hnew with }
  | post _ _ => exact { h with }
  | rewrite _ _ _ _ _ => exact { h with }
  | propose proposer kind hg => exact h.propose (Option.isSome_of_mem hg) proposer kind
  | @vote v p hp _ helector =>
    apply h.recordVote
    refine ⟨p, hp, ?_⟩
    obtain ⟨m, hm⟩ := Option.isSome_iff_exists.1 helector
    exact Option.isSome_of_mem (Option.filter_eq_some_iff.1 hm).1
  | close hp _ _ _ _ => exact h.putProposal hp Polity.closed_id Polity.closed_serverId
  | @apply p hp hdue =>
    rw [Polity.applyIfDue, if_pos hdue]
    have he := enacted_enact c p.serverId p.kind c.now
    have henacted := h.enacted (h.proposals p (Table.mem_of_get hp)) he
    have hget : (c.enact p.serverId p.kind c.now).proposals.get p.id = some p := by
      rw [he.sameBallots.proposals]
      exact hp
    have hput := henacted.putProposal hget (q := { p with isApplied := true }) rfl rfl
    exact { hput with }

theorem found (h : Rooted c) (slug name : String) (founder : UserId) (isPrivate : Bool) :
    Rooted (c.found slug name founder isPrivate) := by
  have hserver := h.insertServer { Server.new (composeId c.node (c.nextServer + 1)) slug name
    founder c.now with isPrivate := isPrivate }
  have hmember := hserver.insertMember
    (m := (Membership.joined founder (composeId c.node (c.nextServer + 1)) c.now).admittedAt c.now)
    (Option.isSome_of_mem (Table.get_insert_self c.servers _))
  exact { hmember with }

theorem encrypt (h : Rooted c) {x : Channel} (historyMode : HistoryMode)
    (hx : c.channels.get x.id = some x) : Rooted (c.encrypt x historyMode) :=
  h.insertChannel (x := x.enableEncryption historyMode) (h.channels x (Table.mem_of_get hx))

end Rooted

theorem Services.Served.rooted {services : Services} {w : World} (hw : services.Served w) :
    Rooted w.polity := by
  refine polity_invariant ?_ ?_ ?_ ?_ ?_ ?_ hw
  · exact fun _ _ h => { h with }
  · exact fun _ _ h hmove => h.move hmove
  · exact fun _ _ _ _ _ h => h.found _ _ _ _
  · exact fun _ _ h hm _ => h.editMember hm rfl
  · exact fun _ _ historyMode h hx => h.encrypt historyMode hx
  · exact fun _ _ => ⟨fun _ h => (nomatch h), fun _ h => (nomatch h), fun _ h => (nomatch h),
      fun _ h => (nomatch h), fun _ h => (nomatch h), fun _ h => (nomatch h),
      fun _ h => (nomatch h)⟩

/-! ## Accounts -/

/-- An account that is not stored is not heard. -/
theorem Services.serve_unknown (services : Services) {w : World} {u : UseCase} {who : UserId}
    (hcaller : u.callerId = some who) (hnone : w.store.getUser who = none) :
    services.serve w u = w := by
  cases u with
  | op op =>
    cases op with
    | castVoteById voterId =>
      obtain rfl := Option.some.inj hcaller
      simp only [serve, step, castVoteById, req_ask_bind, exec_okOr_bind, hnone]
    | _ => cases hcaller
  | sendSealedDmById fromId =>
    obtain rfl := Option.some.inj hcaller
    simp only [serve, sendSealedDmById, req_ask_bind, exec_okOr_bind, hnone]
  | blockUserById blockerId =>
    obtain rfl := Option.some.inj hcaller
    simp only [serve, blockUserById, pairById, Req.bind_assoc, req_ask_bind, exec_okOr_bind, hnone]
  | requestFriendById requesterId =>
    obtain rfl := Option.some.inj hcaller
    simp only [serve, requestFriendById, pairById, Req.bind_assoc, req_ask_bind, exec_okOr_bind,
      hnone]
  | acceptFriendById accepterId =>
    obtain rfl := Option.some.inj hcaller
    simp only [serve, acceptFriendById, pairById, Req.bind_assoc, req_ask_bind, exec_okOr_bind,
      hnone]
  | _ => cases hcaller

/-- Whoever something stands in the name of has an account. -/
def Inner.KnowsNames (s : Inner) : Prop :=
  ∀ (mark : Mark) (who : UserId), mark.signer = some who → s.Bears mark →
    ∃ user, s.getUser who = some user

theorem Inner.not_bears_empty (node : NodeId) {mark : Mark} {who : UserId}
    (hsigner : mark.signer = some who) : ¬ (Inner.empty node).Bears mark := by
  intro h
  cases mark with
  | row row => cases row <;> cases h
  | member user server => cases h

theorem Services.Served.enrolled {services : Services} {w : World} (hw : services.Served w) :
    w.Enrolled :=
  hw.invariant World.Enrolled.empty fun _ u _ h => h.serve services u

theorem Services.Served.knowsNames {services : Services} {w : World} (hw : services.Served w) :
    w.store.KnowsNames := by
  refine Services.Served.invariant (I := fun w => w.store.KnowsNames) ?_ ?_ hw
  · exact fun node _ mark who hsigner h => absurd h (Inner.not_bears_empty node hsigner)
  · intro w u hw ih mark who hsigner hafter
    have known : ∀ {user : User}, w.store.getUser who = some user →
        ∃ user', (services.serve w u).store.getUser who = some user' := by
      intro user hfound
      obtain ⟨user', huser', hsame⟩ := hw.enrolled.stays services u (Table.mem_of_get hfound)
      refine ⟨user', Table.get_eq_some.2 ⟨huser', ?_⟩⟩
      exact hsame.id.trans (Table.key_of_get hfound)
    by_cases hbefore : w.store.Bears mark
    · obtain ⟨user, hfound⟩ := ih mark who hsigner hbefore
      exact known hfound
    · rcases hw.named u hsigner hbefore hafter with hcaller | ⟨handle, user, -, huser, hid⟩
      · cases hfound : w.store.getUser who with
        | some user => exact known hfound
        | none =>
          -- The mark would have come with a request that changes nothing.
          rw [services.serve_unknown hcaller hfound] at hafter
          exact absurd hafter hbefore
      · exact known (Table.get_eq_some.2 ⟨List.mem_of_find?_eq_some huser, hid⟩)

/-! ## The store of a node -/

/-- What a row refers to is stored. -/
structure Inner.Refers (s : Inner) : Prop where
  memberships : ∀ m ∈ s.memberships.rows, ∃ g, s.getServer m.serverId = some g
  channels : ∀ x ∈ s.channels.rows, ∃ g, s.getServer x.serverId = some g
  messages : ∀ m ∈ s.messages.rows, ∃ x g, s.getChannel m.channelId = some x ∧
    x.serverId = m.serverId ∧ s.getServer m.serverId = some g
  rules : ∀ r ∈ s.rules.rows, ∃ g, s.getServer r.serverId = some g
  roles : ∀ r ∈ s.roles.rows, ∃ g, s.getServer r.serverId = some g
  roleAssignments : ∀ a ∈ s.roleAssignments, ∃ r g, s.getRole a.roleId = some r ∧
    r.serverId = a.serverId ∧ s.getServer a.serverId = some g
  proposals : ∀ p ∈ s.proposals.rows, ∃ g, s.getServer p.serverId = some g
  votes : ∀ v ∈ s.votes, ∃ p g m, s.getProposal v.proposalId = some p ∧
    s.getServer p.serverId = some g ∧ s.getMembership v.voter p.serverId = some m
  names : s.KnowsNames

/-- Whatever use-cases a node has served, in whatever order, no row of a server refers to what is
not stored, and nothing stands in the name of nobody. -/
theorem no_reference_dangles (services : Services) (node : NodeId) (now : Timestamp)
    (us : List UseCase) : (services.serveAll (.empty node now) us).store.Refers := by
  have hw : services.Served (services.serveAll (.empty node now) us) := ⟨node, now, us, rfl⟩
  generalize services.serveAll (.empty node now) us = w at hw ⊢
  have hrooted := hw.rooted
  have hserver : ∀ {sid : ServerId}, w.polity.HasServer sid →
      ∃ g, w.store.getServer sid = some g :=
    fun h => Option.isSome_iff_exists.1 h
  constructor
  · exact fun m hm => hserver (hrooted.members m hm)
  · exact fun x hx => hserver (hrooted.channels x hx)
  · intro m hm
    obtain ⟨x, hx, hplaced⟩ := hw.messagesPlaced.messages m hm
    obtain ⟨g, hg⟩ := hserver (hrooted.channels x (Table.mem_of_get hx))
    rw [hplaced] at hg
    exact ⟨x, g, hx, hplaced, hg⟩
  · exact fun r hr => hserver (hrooted.rules r hr)
  · exact fun r hr => hserver (hrooted.roles r hr)
  · intro a ha
    obtain ⟨r, hr, hplaced⟩ := hw.rolesPlaced.assignments a ha
    obtain ⟨g, hg⟩ := hserver (hrooted.roles r (Table.mem_of_get hr))
    rw [hplaced] at hg
    exact ⟨r, g, hr, hplaced, hg⟩
  · exact fun p hp => hserver (hrooted.proposals p hp)
  · intro v hv
    obtain ⟨p, hp, hmember⟩ := hrooted.votes v hv
    obtain ⟨g, hg⟩ := hserver (hrooted.proposals p (Table.mem_of_get hp))
    obtain ⟨m, hm⟩ := Option.isSome_iff_exists.1 hmember
    exact ⟨p, g, m, hp, hg, hm⟩
  · exact hw.knowsNames

end Democrachat
