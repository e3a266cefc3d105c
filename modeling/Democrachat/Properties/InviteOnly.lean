import Democrachat.Properties.Ban

/-!
# Private servers

A private server stays private, and its members come in by its founding, by an invite or by
`joinServer`, which does not look whether the server is private.
-/

namespace Democrachat

open Library

/-- At `w` the request redeemed a live invite of the server, which was open to invites, for the
member itself. -/
structure ByInvite (services : Services) (w : World) (op : Op) (m : Membership) : Prop where
  redeemed : ∃ handle code user invite server,
    op = .acceptInvite handle code ∧
    w.store.findByHandle (trim handle) = some user ∧
    w.store.inviteByHash (services.hashCode code) = some invite ∧
    invite.serverId = m.serverId ∧ invite.isRevoked = false ∧
    w.store.getServer m.serverId = some server ∧ server.invitePolicy = .open_ ∧
    m.userId = user.id

/-- Every member of a private server but its founder was created by redeeming an invite. -/
def InviteOnly (services : Services) (start : World) (ops : List Op) : Prop :=
  ∀ m ∈ (services.run start ops).store.memberships.rows,
    ∀ server, (services.run start ops).store.getServer m.serverId = some server →
      server.isPrivate = true → m.userId ≠ server.founderId →
        ∃ pre op post, ops = pre ++ op :: post ∧
          (services.run start pre).store.getMembership m.userId m.serverId = none ∧
          ((services.run start (pre ++ [op])).store.getMembership m.userId m.serverId).isSome ∧
          ByInvite services (services.run start pre) op m

/-- `joinServer` is about to let somebody else than its founder into a private server. -/
def Op.joinsPrivate (w : World) : Op → Bool
  | .joinServer handle serverSlug =>
    match w.store.findByHandle (trim handle), w.store.findBySlug (trim serverSlug) with
    | some user, some server =>
      server.isPrivate && (w.store.getMembership user.id server.id).isNone &&
        user.id != server.founderId
    | _, _ => false
  | _ => false

theorem Op.joinsPrivate_iff {w : World} {op : Op} :
    op.joinsPrivate w = true ↔
      ∃ handle serverSlug user server, op = .joinServer handle serverSlug ∧
        Joins w handle serverSlug user server ∧ server.isPrivate = true ∧
        user.id ≠ server.founderId := by
  constructor
  · intro h
    unfold joinsPrivate at h
    split at h
    next handle serverSlug =>
      split at h
      next user server huser hserver =>
        simp only [Bool.and_eq_true, Option.isNone_iff_eq_none, bne_iff_ne] at h
        exact ⟨handle, serverSlug, user, server, rfl, ⟨huser, hserver, h.1.2⟩, h.1.1, h.2⟩
      next => cases h
    next => cases h
  · rintro ⟨handle, serverSlug, user, server, rfl, hjoins, hprivate, hfounder⟩
    simp only [joinsPrivate, hjoins.userFound, hjoins.serverFound, hjoins.newcomer, hprivate,
      Option.isNone_none, Bool.and_self, Bool.true_and, bne_iff_ne]
    exact hfounder

theorem allowsMemberInvites_iff {server : Server} :
    server.allowsMemberInvites = true ↔ server.invitePolicy = .open_ := by
  rw [Server.allowsMemberInvites]
  cases server.invitePolicy <;> decide

/-! ## Who founded a server, and whether it is private -/

/-- The founder of the server, and whether it is private. -/
def Polity.door (c : Polity) (sid : ServerId) : Option (UserId × Bool) :=
  (c.servers.get sid).map (fun g => (g.founderId, g.isPrivate))

theorem Polity.door_insert (c : Polity) (g : Server) (sid : ServerId) :
    Polity.door { c with servers := c.servers.insert g } sid =
      if sid = g.id then some (g.founderId, g.isPrivate) else c.door sid := by
  rw [Polity.door, Table.get_insert]
  split
  next => rfl
  next => rfl

theorem Polity.door_found (c : Polity) (slug name : String) (founder : UserId) (isPrivate : Bool)
    (sid : ServerId) :
    (c.found slug name founder isPrivate).door sid =
      if sid = composeId c.node (c.nextServer + 1) then some (founder, isPrivate) else c.door sid :=
  c.door_insert _ sid

theorem Polity.door_editMembership (c : Polity) (user : UserId) (sid : ServerId)
    (f : Membership → Membership) : (c.editMembership user sid f).door = c.door := by
  unfold Polity.editMembership
  split
  next => rfl
  next => rfl

theorem Polity.door_editServer (c : Polity) (sid : ServerId) {f : Server → Server}
    (hf : ∀ g, (f g).id = g.id ∧ (f g).founderId = g.founderId ∧ (f g).isPrivate = g.isPrivate) :
    (c.editServer sid f).door = c.door := by
  unfold Polity.editServer
  split
  next g hg =>
    ext1 sid'
    rw [door_insert, (hf g).1, (hf g).2.1, (hf g).2.2]
    split
    next heq =>
      rw [heq, door, Table.key_of_get hg, hg]
      rfl
    next => rfl
  next => rfl

theorem Polity.door_enact (c : Polity) (sid : ServerId) (kind : ProposalKind) (now : Timestamp) :
    (c.enact sid kind now).door = c.door := by
  cases kind with
  | ban user => exact c.door_editMembership user sid _
  | timeout user until_ => exact c.door_editMembership user sid _
  | grantVoteWeight user weight => exact c.door_editMembership user sid _
  | setGovernanceSurface enabled => exact c.door_editServer sid (fun _ => ⟨rfl, rfl, rfl⟩)
  | amendCriteria proposed => exact c.door_editServer sid (fun _ => ⟨rfl, rfl, rfl⟩)
  | setJurySizing sizing => exact c.door_editServer sid (fun _ => ⟨rfl, rfl, rfl⟩)
  | setVoteWeighting scheme => exact c.door_editServer sid (fun _ => ⟨rfl, rfl, rfl⟩)
  | setWeightingScope scope => exact c.door_editServer sid (fun _ => ⟨rfl, rfl, rfl⟩)
  | setRehomingPolicy isDisabled => exact c.door_editServer sid (fun _ => ⟨rfl, rfl, rfl⟩)
  | setInvitePolicy policy => exact c.door_editServer sid (fun _ => ⟨rfl, rfl, rfl⟩)
  | assignRole user role =>
    simp only [Polity.enact, Polity.assign]
    split
    · split <;> rfl
    · rfl
  | createChannel name topic | deleteChannel name | createRole name | deleteRole role
  | unassignRole user role =>
    simp only [Polity.enact]
    split <;> rfl
  | addRule text | removeRule rule | «recall» leader | removeContent target => rfl

theorem Polity.door_resolveDue (c : Polity) (serverSlug : String) :
    (c.resolveDue serverSlug).door = c.door := by
  apply Polity.resolveDue_keeps (I := fun c' => c'.door = c.door)
  · exact fun _ _ h => h
  · exact fun _ _ _ h => h
  · exact fun c' sid kind now h => (c'.door_enact sid kind now).trans h
  · rfl

section Runs

variable (services : Services) {w : World}

/-- Nothing that happens later changes it. -/
theorem door_step (hw : services.Reachable w) (op : Op) {sid : ServerId} {d : UserId × Bool}
    (hd : w.polity.door sid = some d) : (services.step w op).polity.door sid = some d := by
  have hacts := services.acts w op
  generalize (services.step w op).polity = c at hacts ⊢
  cases hacts with
  | clock now => exact hd
  | ordinary _ h =>
    cases h with
    | refl => exact hd
    | single h => cases h <;> exact hd
  | credited _ h => cases h <;> exact hd
  | voted _ h => cases h <;> exact hd
  | resolved _ => rw [Polity.door_resolveDue, hd]
  | notFounded => exact hd
  | founded hfounds _ _ =>
    have hne : sid ≠ composeId w.polity.node (w.polity.nextServer + 1) := by
      rintro rfl
      rw [Polity.door, get_composeId_eq_none hw.serversMinted.servers] at hd
      cases hd
    rw [Polity.door_found, if_neg hne, hd]
  | notAdmitted => exact hd
  | admitted _ _ => exact hd

theorem door_run (hw : services.Reachable w) (ops : List Op) {sid : ServerId} {d : UserId × Bool}
    (hd : w.polity.door sid = some d) : (services.run w ops).polity.door sid = some d := by
  induction ops generalizing w with
  | nil => exact hd
  | cons op ops ih => exact ih (hw.step op) (door_step services hw op hd)

/-! ## How a membership begins -/

/-- The ways in: by `joinServer`, by an invite, and by founding. -/
inductive Enters (w : World) : Op → UserId → ServerId → Prop
  | joined {handle serverSlug : String} {user : User} {server : Server} :
      Joins w handle serverSlug user server →
      Enters w (.joinServer handle serverSlug) user.id server.id
  | invited {handle code : String} {user : User} {invite : Invite} {server : Server} :
      Redeems services w handle code user invite server →
      Enters w (.acceptInvite handle code) user.id server.id
  | founded {founderHandle name : String} {isPrivate : Bool} {user : UserId} {server : ServerId} :
      (services.step w (.foundServer founderHandle name isPrivate)).polity.door server =
        some (user, isPrivate) →
      Enters w (.foundServer founderHandle name isPrivate) user server

theorem joined_in {handle serverSlug : String} {user : User} {server : Server}
    (h : Joins w handle serverSlug user server) :
    ((services.step w (.joinServer handle serverSlug)).store.getMembership user.id
      server.id).isSome := by
  simp only [Services.step, joinServer, req_ask_bind, Req.exec_okOr_bind, Req.exec_ensure_bind,
    req_clockNow_bind, req_write_bind, Req.exec_pure, h.userFound, h.serverFound, h.newcomer,
    Option.isNone_none, if_true]
  exact Option.isSome_iff_exists.2 ⟨.joined user.id server.id w.now,
    Table.get_insert_self w.store.memberships (.joined user.id server.id w.now)⟩

/-- The requests by which somebody can come in. -/
def Op.isEntry : Op → Bool
  | .joinServer .. | .acceptInvite .. | .foundServer .. => true
  | _ => false

theorem nobody_step {op : Op} (hop : op.isEntry = false) {k : UserId ×ₗ ServerId}
    (hnone : w.polity.roster.get k = none) :
    (services.step w op).polity.roster.get k = none := by
  by_cases hroutine : op.isRoutine = true
  · exact (services.routinely w hroutine).nobody hnone
  have hacts := services.acts w op
  generalize (services.step w op).polity = c at hacts ⊢
  cases hacts with
  | clock now => exact hnone
  | ordinary hordinary _ =>
    cases op with
    | joinServer handle serverSlug => cases hop
    | acceptInvite handle code => cases hop
    | _ => exact absurd hordinary hroutine
  | credited _ h =>
    cases h with
    | none => exact hnone
    | @some m contribution hm =>
      have hkey : Membership.key { m with contribution := contribution } = m.key := rfl
      exact get_insert_eq_none hm hkey hnone
  | voted _ h => cases h <;> exact hnone
  | resolved _ => exact resolveDue_get_eq_none _ hnone
  | notFounded => exact hnone
  | founded _ _ _ => cases hop
  | notAdmitted => exact hnone
  | @admitted _ _ _ _ m hadmits _ =>
    have hkey : (m.admittedAt w.now).key = m.key := rfl
    exact get_insert_eq_none (roster_get_of_getMembership hadmits.memberFound) hkey hnone

theorem Roster.eq_of_new {r : Roster} {m : Membership} {user : UserId} {sid : ServerId}
    (hnone : r.member user sid = none) (hsome : (Roster.member (r.insert m) user sid).isSome) :
    m.userId = user ∧ m.serverId = sid := by
  rw [Roster.member, Table.get_insert] at hsome
  split at hsome
  next heq => exact Membership.key_eq.1 heq.symm
  next =>
    have hold : (r.member user sid).isSome := hsome
    rw [hnone] at hold
    cases hold

theorem enters_of_new (op : Op) {user : UserId} {sid : ServerId}
    (hnone : w.store.getMembership user sid = none)
    (hsome : ((services.step w op).store.getMembership user sid).isSome) :
    Enters services w op user sid := by
  have hsame : ∀ {w' : World}, w' = w → ¬ (w'.store.getMembership user sid).isSome := by
    rintro w' rfl hold
    rw [hnone] at hold
    cases hold
  by_cases hop : op.isEntry = false
  · have hstill := nobody_step services hop hnone
    change (services.step w op).store.getMembership user sid = none at hstill
    rw [hstill] at hsome
    cases hsome
  cases op with
  | joinServer handle serverSlug =>
    rcases joinServer_cases w handle serverSlug with hidle | ⟨user', server, hjoins, hadded⟩
    · exact absurd hsome (hsame hidle)
    · rw [Services.step, hadded] at hsome
      obtain ⟨rfl, rfl⟩ := Roster.eq_of_new hnone hsome
      exact .joined hjoins
  | acceptInvite handle code =>
    rcases acceptInvite_cases w services handle code with
      hidle | ⟨user', invite, server, hredeems, hadded⟩
    · exact absurd hsome (hsame hidle)
    · rw [Services.step, hadded] at hsome
      obtain ⟨rfl, rfl⟩ := Roster.eq_of_new hnone hsome
      exact .invited hredeems
  | foundServer founderHandle name isPrivate =>
    rcases foundServer_cases w founderHandle name isPrivate with
      ⟨-, hidle⟩ | ⟨founder, hfounds, -, hadded⟩
    · have hroster := congrArg (fun c => c.roster.member user sid) hidle
      change (services.step w (.foundServer founderHandle name isPrivate)).store.getMembership
        user sid = w.store.getMembership user sid at hroster
      rw [hroster, hnone] at hsome
      cases hsome
    · change (Roster.member (services.step w (.foundServer founderHandle name
        isPrivate)).polity.roster user sid).isSome at hsome
      have hstep : (services.step w (.foundServer founderHandle name isPrivate)).polity =
        w.polity.found (slugify name) (trim name) founder.id isPrivate := hadded
      rw [hstep] at hsome
      obtain ⟨rfl, rfl⟩ := Roster.eq_of_new hnone hsome
      refine .founded ?_
      rw [hstep]
      exact (Polity.door_found _ _ _ _ _ _).trans (if_pos rfl)
  | _ => exact absurd rfl hop

end Runs

/-! ## Whole runs -/

section

variable (services : Services) (node : NodeId) (now : Timestamp)

/-- Every membership began at some request of the run. -/
theorem enters_run (ops : List Op) {user : UserId} {sid : ServerId}
    (hsome : ((services.run (.empty node now) ops).store.getMembership user sid).isSome) :
    ∃ pre op post, ops = pre ++ op :: post ∧
      (services.run (.empty node now) pre).store.getMembership user sid = none ∧
      ((services.run (.empty node now) (pre ++ [op])).store.getMembership user sid).isSome ∧
      Enters services (services.run (.empty node now) pre) op user sid := by
  induction ops using List.reverseRecOn with
  | nil => cases hsome
  | append_singleton ops op ih =>
    cases hnone : (services.run (.empty node now) ops).store.getMembership user sid with
    | none =>
      have hstep := hsome
      rw [Services.run_concat] at hstep
      exact ⟨ops, op, [], rfl, hnone, hsome, enters_of_new services op hnone hstep⟩
    | some m =>
      obtain ⟨pre, op', post, hops, hentry⟩ := ih (by rw [hnone]; rfl)
      refine ⟨pre, op', post ++ [op], ?_, hentry⟩
      rw [hops]
      simp

/-- Nobody leaves, so a membership begins only once. -/
theorem member_run {ops : List Op} (later : List Op) {user : UserId} {sid : ServerId}
    (hsome : ((services.run (.empty node now) ops).store.getMembership user sid).isSome) :
    ((services.run (.empty node now) (ops ++ later)).store.getMembership user sid).isSome := by
  obtain ⟨m, hm⟩ := Option.isSome_iff_exists.1 hsome
  obtain ⟨m', hm', -⟩ := (persists_run services ⟨node, now, ops, rfl⟩ later).kept hm
  rw [Services.run_append]
  exact Option.isSome_iff_exists.2 ⟨m', hm'⟩

theorem began_before {pre post pre' post' : List Op} {op op' : Op} {user : UserId}
    {sid : ServerId} (hops : pre ++ op :: post = pre' ++ op' :: post')
    (hsome : ((services.run (.empty node now) (pre ++ [op])).store.getMembership user sid).isSome)
    (hnone : (services.run (.empty node now) pre').store.getMembership user sid = none) :
    pre'.length ≤ pre.length := by
  by_contra hlt
  have hinside : pre ++ [op] <+: pre' := by
    refine List.prefix_of_prefix_length_le ⟨post, by simp⟩
      ⟨op' :: post', hops.symm⟩ ?_
    rw [List.length_append, List.length_singleton]
    omega
  obtain ⟨rest, rfl⟩ := hinside
  have hmember := member_run services node now rest hsome
  rw [hnone] at hmember
  cases hmember

/-- What was known of a server is true of it later on. -/
theorem door_later {pre : List Op} (later : List Op) {sid : ServerId} {d : UserId × Bool}
    {server : Server} (hdoor : (services.run (.empty node now) pre).polity.door sid = some d)
    (hserver : (services.run (.empty node now) (pre ++ later)).store.getServer sid = some server) :
    server.founderId = d.1 ∧ server.isPrivate = d.2 := by
  have hlater := door_run services ⟨node, now, pre, rfl⟩ later hdoor
  rw [← Services.run_append] at hlater
  have hdoor' : (services.run (.empty node now) (pre ++ later)).polity.door sid =
      some (server.founderId, server.isPrivate) := congrArg (Option.map _) hserver
  exact Prod.ext_iff.1 (Option.some.inj (hdoor'.symm.trans hlater))

/-- A server that is there stays. -/
theorem server_later {pre : List Op} (later : List Op) {sid : ServerId} {d : UserId × Bool}
    (hdoor : (services.run (.empty node now) pre).polity.door sid = some d) :
    ∃ server, (services.run (.empty node now) (pre ++ later)).store.getServer sid =
      some server := by
  have hlater := door_run services ⟨node, now, pre, rfl⟩ later hdoor
  rw [← Services.run_append] at hlater
  obtain ⟨server, hserver, -⟩ := Option.map_eq_some_iff.1 hlater
  exact ⟨server, hserver⟩

theorem door_of_servers_get {w : World} {server : Server}
    (h : w.polity.servers.get server.id = some server) :
    w.polity.door server.id = some (server.founderId, server.isPrivate) := by
  rw [Polity.door, h]
  rfl

/-- Whoever joins a private server is there at the end, and was not invited. -/
theorem InviteOnly.never {ops : List Op} (honly : InviteOnly services (.empty node now) ops) :
    services.Throughout (fun w op => op.joinsPrivate w = false) (.empty node now) ops := by
  rw [Services.throughout_iff]
  rintro pre op post rfl
  refine Bool.eq_false_iff.2 (fun hviolates => ?_)
  obtain ⟨handle, serverSlug, user, server, rfl, hjoins, hprivate, hfounder⟩ :=
    Op.joinsPrivate_iff.1 hviolates
  have hdoor := door_of_servers_get (servers_get_of_findBySlug hjoins.serverFound)
  have hin := joined_in services hjoins
  rw [← Services.run_concat] at hin
  obtain ⟨server', hserver'⟩ := server_later services node now
    (.joinServer handle serverSlug :: post) hdoor
  obtain ⟨hfounder', hprivate'⟩ := door_later services node now _ hdoor hserver'
  have hmember := member_run services node now post hin
  rw [List.append_assoc] at hmember
  obtain ⟨m, hm⟩ := Option.isSome_iff_exists.1 hmember
  obtain ⟨huserId, hserverId⟩ := Membership.key_eq.1 (Table.key_of_get hm)
  obtain ⟨pre', op', post', hops, hnone', hin', hinvite⟩ := honly m (Table.mem_of_get hm) server'
    (by rw [hserverId]; exact hserver') (hprivate'.trans hprivate)
    (by rw [huserId, hfounder']; exact hfounder)
  rw [huserId, hserverId] at hnone' hin'
  -- Both are the one moment at which the membership began.
  have hle := began_before services node now hops hin hnone'
  have hge := began_before services node now hops.symm hin' hjoins.newcomer
  obtain ⟨rfl, hrest⟩ := List.append_inj hops (le_antisymm hge hle)
  obtain ⟨handle', code, _, _, _, hop, -⟩ := hinvite.redeemed
  rw [hop] at hrest
  cases hrest

/-- Where nobody joins a private server, all but its founder were invited. -/
theorem inviteOnly_of_never {ops : List Op}
    (hnever : services.Throughout (fun w op => op.joinsPrivate w = false) (.empty node now) ops) :
    InviteOnly services (.empty node now) ops := by
  rw [Services.throughout_iff] at hnever
  intro m hm server hserver hprivate hfounder
  have hmember : ((services.run (.empty node now) ops).store.getMembership m.userId
      m.serverId).isSome := Option.isSome_iff_exists.2 ⟨m, Table.mem_iff.1 hm⟩
  obtain ⟨pre, op, post, hops, hnone, hsome, henters⟩ :=
    enters_run services node now ops hmember
  refine ⟨pre, op, post, hops, hnone, hsome, ?_⟩
  have hquiet := hnever pre op post hops
  subst hops
  generalize huserId : m.userId = user at henters hfounder
  generalize hserverId : m.serverId = sid at henters hserver
  cases henters with
  | joined hjoins =>
    have hdoor := door_of_servers_get (servers_get_of_findBySlug hjoins.serverFound)
    obtain ⟨hfounder', hprivate'⟩ := door_later services node now _ hdoor hserver
    have hviolates := Op.joinsPrivate_iff.2 ⟨_, _, _, _, rfl, hjoins, hprivate'.symm.trans hprivate,
      fun heq => hfounder (heq.trans hfounder'.symm)⟩
    rw [hviolates] at hquiet
    cases hquiet
  | @invited handle code user invite server' hredeems =>
    have hid : server'.id = invite.serverId := Table.key_of_get hredeems.serverFound
    refine ⟨handle, code, user, invite, server', rfl, hredeems.userFound, hredeems.inviteFound,
      hid.symm.trans hserverId.symm, ?_, ?_, ?_, huserId⟩
    · simpa [Invite.isLive] using hredeems.live
    · rw [hserverId, hid]
      exact hredeems.serverFound
    · exact allowsMemberInvites_iff.1 hredeems.isOpen
  | founded hdoor =>
    rw [← Services.run_concat] at hdoor
    rw [List.append_cons] at hserver
    obtain ⟨hfounder', -⟩ := door_later services node now post hdoor hserver
    exact absurd hfounder'.symm hfounder

/-- The run is invite-only exactly when it never lets somebody else than the founder into a
private server by `joinServer`. -/
theorem private_invite_only_iff (ops : List Op) :
    InviteOnly services (.empty node now) ops ↔
      services.Throughout (fun w op => op.joinsPrivate w = false) (.empty node now) ops :=
  ⟨InviteOnly.never services node now, inviteOnly_of_never services node now⟩

end

namespace Agora

/-- The founder keeps to himself, and Eve walks in. -/
def secluded : List Op :=
  [.registerAccount "zed", .foundServer "zed" "Agora" true, .registerAccount "eve",
    .joinServer "eve" "agora"]

end Agora

theorem private_server_joined :
    ¬ InviteOnly Agora.services (.empty 0 (Agora.day 0)) Agora.secluded := by
  intro honly
  have hjoined := InviteOnly.never Agora.services 0 (Agora.day 0) honly
  revert hjoined
  decide +kernel

end Democrachat
