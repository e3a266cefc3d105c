import Democrachat.Polity.Pending
import Democrachat.Properties.SelfGovernment

/-!
# The reach of a ballot

An effect takes identifiers that its proposer chose.  All arms but one look
whether the row is of the proposal's server; `RemoveRule` does not.
-/

namespace Democrachat

open Library Prog

/-- The rows of every other server are as they were, and so are the proposals
and the votes. -/
structure SameElsewhere (sid : ServerId) (c c' : Polity) : Prop where
  servers : c'.servers.rows.filter (·.id != sid) = c.servers.rows.filter (·.id != sid)
  roster : c'.roster.rows.filter (·.serverId != sid) = c.roster.rows.filter (·.serverId != sid)
  channels : c'.channels.rows.filter (·.serverId != sid) =
    c.channels.rows.filter (·.serverId != sid)
  messages : c'.messages.rows.filter (·.serverId != sid) =
    c.messages.rows.filter (·.serverId != sid)
  rules : c'.rules.rows.filter (·.serverId != sid) = c.rules.rows.filter (·.serverId != sid)
  roles : c'.roles.rows.filter (·.serverId != sid) = c.roles.rows.filter (·.serverId != sid)
  roleAssignments : c'.roleAssignments.filter (·.serverId != sid) =
    c.roleAssignments.filter (·.serverId != sid)
  proposals : c'.proposals = c.proposals
  votes : c'.votes = c.votes

/-- The tables that are about no server, and the invites, are as they were. -/
structure SameRest (w w' : World) : Prop where
  users : w'.store.users = w.store.users
  reactions : w'.store.reactions = w.store.reactions
  invites : w'.store.invites = w.store.invites
  media : w'.store.media = w.store.media
  verificationTokens : w'.store.verificationTokens = w.store.verificationTokens

/-- Only rows of the server `sid` changed. -/
structure Confined (sid : ServerId) (w w' : World) : Prop where
  elsewhere : SameElsewhere sid w.polity w'.polity
  rest : SameRest w w'

/-- The proposal is to remove a rule of a server that is not its own. -/
def Proposal.removesForeignRule (p : Proposal) (rules : Table Rule.id) : Bool :=
  match p.kind with
  | .removeRule rule => (rules.get rule).any (·.serverId != p.serverId)
  | _ => false

/-! ## Rows elsewhere -/

namespace SameElsewhere

variable {sid : ServerId} {c : Polity}

theorem refl (sid : ServerId) (c : Polity) : SameElsewhere sid c c := by
  constructor <;> rfl

theorem editServer {s s' : Server} (hs : c.servers.get sid = some s) (hid : s'.id = s.id) :
    SameElsewhere sid c { c with servers := c.servers.insert s' } := by
  have hsid : s.id = sid := Table.key_of_get hs
  have hsame : (c.servers.insert s').rows.filter (·.id != sid) =
      c.servers.rows.filter (·.id != sid) := by
    apply Table.filter_rows_insert
    · simp [hid, hsid]
    · intro u hu
      rw [hid] at hu
      simp [Table.key_of_get hu, hsid]
  exact { refl sid c with servers := hsame }

theorem editMembership {m m' : Membership} (hm : c.roster.member m.userId sid = some m)
    (h : SameStanding m m') : SameElsewhere sid c { c with roster := c.roster.insert m' } := by
  have hserver : m.serverId = sid := (c.member_userId sid hm).2
  have hsame : (c.roster.insert m').rows.filter (·.serverId != sid) =
      c.roster.rows.filter (·.serverId != sid) := by
    apply Table.filter_rows_insert
    · simp [h.serverId, hserver]
    · intro u hu
      rw [h.key, Polity.get_key hm] at hu
      obtain rfl := Option.some.inj hu
      simp [hserver]
  exact { refl sid c with roster := hsame }

/-- A row under a new identifier replaces none. -/
theorem filter_rows_insert_new {e : Entity} {ν : Type*} {key : ν → Id e} {t : Table key} {v : ν}
    {p : ν → Bool} {node : NodeId} {n : Nat} (ht : ∀ u ∈ t.rows, Minted node n (key u))
    (hkey : key v = composeId node (n + 1)) (hp : p v = false) :
    (t.insert v).rows.filter p = t.rows.filter p := by
  refine Table.filter_rows_insert hp (fun u hu => ?_)
  rw [hkey, get_composeId_eq_none ht] at hu
  cases hu

theorem addChannel (h : MessagesPlaced c) (name topic : String) (now : Timestamp) :
    SameElsewhere sid c (c.addChannel sid name topic now) :=
  { refl sid c with
    channels := filter_rows_insert_new h.channels rfl (by simp [Channel.new]) }

theorem addRule (h : NamesUnique c) (text : String) (now : Timestamp) :
    SameElsewhere sid c (c.addRule sid text now) :=
  { refl sid c with rules := filter_rows_insert_new h.rules rfl (by simp) }

theorem addRole (h : RolesPlaced c) (name : String) (now : Timestamp) :
    SameElsewhere sid c (c.addRole sid name now) :=
  { refl sid c with roles := filter_rows_insert_new h.roles rfl (by simp) }

/-- The messages of a channel are of the channel's server. -/
theorem removeChannel (h : MessagesPlaced c) {x : Channel} (hx : x ∈ c.channels.rows)
    (hserver : x.serverId = sid) : SameElsewhere sid c (c.removeChannel x.id) := by
  have hchannels : (c.channels.erase x.id).rows.filter (·.serverId != sid) =
      c.channels.rows.filter (·.serverId != sid) := by
    refine Table.filter_rows_retain (fun y hy hother => ?_)
    have hne : y.id ≠ x.id := by
      intro hid
      have hget := Table.mem_iff.1 hy
      rw [hid, Table.mem_iff.1 hx] at hget
      obtain rfl := Option.some.inj hget
      simp [hserver] at hother
    simpa using hne
  have hmessages : (c.messages.retain (fun m => m.channelId != x.id)).rows.filter
      (·.serverId != sid) = c.messages.rows.filter (·.serverId != sid) := by
    refine Table.filter_rows_retain (fun m hm hother => ?_)
    have hne : m.channelId ≠ x.id := by
      intro hid
      obtain ⟨y, hy, hplaced⟩ := h.messages m hm
      rw [hid, Table.mem_iff.1 hx] at hy
      obtain rfl := Option.some.inj hy
      simp [← hplaced, hserver] at hother
    simpa using hne
  exact { refl sid c with channels := hchannels, messages := hmessages }

theorem removeRule {rule : RuleId} (h : ∀ r, c.rules.get rule = some r → r.serverId = sid) :
    SameElsewhere sid c { c with rules := c.rules.erase rule } := by
  have hrules : (c.rules.erase rule).rows.filter (·.serverId != sid) =
      c.rules.rows.filter (·.serverId != sid) := by
    refine Table.filter_rows_retain (fun r hr hother => ?_)
    have hne : r.id ≠ rule := by
      rintro rfl
      have hserver := h r (Table.mem_iff.1 hr)
      simp [hserver] at hother
    simpa using hne
  exact { refl sid c with rules := hrules }

/-- The assignments to a role are of the role's server. -/
theorem removeRole (h : RolesPlaced c) {r : Role} (hr : c.roles.get r.id = some r)
    (hserver : r.serverId = sid) : SameElsewhere sid c (c.removeRole r.id) := by
  have hroles : (c.roles.erase r.id).rows.filter (·.serverId != sid) =
      c.roles.rows.filter (·.serverId != sid) := by
    refine Table.filter_rows_retain (fun y hy hother => ?_)
    have hne : y.id ≠ r.id := by
      intro hid
      have hget := Table.mem_iff.1 hy
      rw [hid, hr] at hget
      obtain rfl := Option.some.inj hget
      simp [hserver] at hother
    simpa using hne
  have hassignments : (c.roleAssignments.filter (fun a => a.roleId != r.id)).filter
      (·.serverId != sid) = c.roleAssignments.filter (·.serverId != sid) := by
    refine filter_filter_of_imp (fun a ha hother => ?_)
    have hne : a.roleId ≠ r.id := by
      intro hid
      obtain ⟨y, hy, hplaced⟩ := h.assignments a ha
      rw [hid, hr] at hy
      obtain rfl := Option.some.inj hy
      simp [← hplaced, hserver] at hother
    simpa using hne
  exact { refl sid c with roles := hroles, roleAssignments := hassignments }

theorem assign {a : RoleAssignment} (ha : a.serverId = sid) : SameElsewhere sid c (c.assign a) := by
  unfold Polity.assign
  split
  next => exact refl sid c
  next =>
    have happend : (c.roleAssignments ++ [a]).filter (·.serverId != sid) =
        c.roleAssignments.filter (·.serverId != sid) := by
      simp [List.filter_append, ha]
    exact { refl sid c with roleAssignments := happend }

theorem unassign (h : RolesPlaced c) {role : RoleId} {r : Role} (hr : c.roles.get role = some r)
    (hserver : r.serverId = sid) (user : UserId) : SameElsewhere sid c (c.unassign role user) := by
  have hassignments : (c.roleAssignments.filter
      (fun a => !(a.roleId == role && a.user == user))).filter (·.serverId != sid) =
      c.roleAssignments.filter (·.serverId != sid) := by
    refine filter_filter_of_imp (fun a ha hother => ?_)
    have hne : a.roleId ≠ role := by
      rintro rfl
      obtain ⟨y, hy, hplaced⟩ := h.assignments a ha
      obtain rfl := Option.some.inj (hr.symm.trans hy)
      simp [← hplaced, hserver] at hother
    simp [hne]
  exact { refl sid c with roleAssignments := hassignments }

end SameElsewhere

/-- Every effect but the removal of a rule stays in the server of its proposal. -/
theorem Enacted.sameElsewhere {sid : ServerId} {kind : ProposalKind} {now : Timestamp}
    {c c' : Polity} (h : Enacted sid kind now c c') (hmessages : MessagesPlaced c)
    (hroles : RolesPlaced c) (hnames : NamesUnique c)
    (hrule : ∀ rule, kind = .removeRule rule →
      ∀ r, c.rules.get rule = some r → r.serverId = sid) : SameElsewhere sid c c' := by
  cases h with
  | idle => exact .refl sid c
  | server hs hid _ => exact .editServer hs hid
  | member hm hsame => exact .editMembership hm hsame
  | addChannel name topic _ _ => exact .addChannel hmessages name topic now
  | removeChannel hx hserver => exact .removeChannel hmessages hx hserver
  | addRule text => exact .addRule hnames text now
  | removeRule hkind => exact .removeRule (hrule _ hkind)
  | addRole name _ _ => exact .addRole hroles name now
  | removeRole hr hserver => exact .removeRole hroles hr hserver
  | assign ha _ _ => exact .assign ha
  | unassign user hr hserver => exact .unassign hroles hr hserver user

/-! ## The tables that no effect writes -/

namespace SameRest

theorem refl (w : World) : SameRest w w := ⟨rfl, rfl, rfl, rfl, rfl⟩

theorem trans (w w' w'' : World) (h : SameRest w w') (h' : SameRest w' w'') : SameRest w w'' where
  users := h'.users.trans h.users
  reactions := h'.reactions.trans h.reactions
  invites := h'.invites.trans h.invites
  media := h'.media.trans h.media
  verificationTokens := h'.verificationTokens.trans h.verificationTokens

end SameRest

section Guarantees

theorem guarantees_editServer (sid : ServerId) (f : Server → Server) :
    (editServer sid f).Guarantees SameRest := by
  refine .bind (guarantees_ask SameRest.refl _) (fun s => ?_)
  cases s with
  | none => exact guarantees_pure ()
  | some s => exact guarantees_write (fun _ => ⟨rfl, rfl, rfl, rfl, rfl⟩)

theorem guarantees_editMembership (user : UserId) (sid : ServerId)
    (f : Membership → Membership) : (editMembership user sid f).Guarantees SameRest := by
  refine .bind (guarantees_ask SameRest.refl _) (fun m => ?_)
  cases m with
  | none => exact guarantees_pure ()
  | some m => exact guarantees_write (fun _ => ⟨rfl, rfl, rfl, rfl, rfl⟩)

theorem sameRest_removeChannel (w : World) (id : ChannelId) :
    SameRest w (w.mapStore (fun s => (s.removeChannel id).2)) := by
  simp only [World.mapStore, Inner.removeChannel]
  split
  next => exact .refl w
  next => exact ⟨rfl, rfl, rfl, rfl, rfl⟩

theorem sameRest_removeRule (w : World) (id : RuleId) :
    SameRest w (w.mapStore (fun s => (s.removeRule id).2)) := by
  simp only [World.mapStore, Inner.removeRule]
  split
  next => exact ⟨rfl, rfl, rfl, rfl, rfl⟩
  next => exact .refl w

theorem sameRest_removeRole (w : World) (id : RoleId) :
    SameRest w (w.mapStore (fun s => (s.removeRole id).2)) := by
  simp only [World.mapStore, Inner.removeRole]
  split
  next => exact .refl w
  next => exact ⟨rfl, rfl, rfl, rfl, rfl⟩

theorem sameRest_assign (w : World) (a : RoleAssignment) :
    SameRest w (w.mapStore (fun s => (s.assign a).2)) := by
  simp only [World.mapStore, Inner.assign]
  split
  next => exact .refl w
  next => exact ⟨rfl, rfl, rfl, rfl, rfl⟩

theorem sameRest_unassign (w : World) (role : RoleId) (user : UserId) :
    SameRest w (w.mapStore (fun s => (s.unassign role user).2)) := by
  simp only [World.mapStore, Inner.unassign]
  split
  next => exact .refl w
  next => exact ⟨rfl, rfl, rfl, rfl, rfl⟩

/-- An arm that first looks whether the role is of the server. -/
theorem guarantees_ifRole {role : RoleId} {sid : ServerId} {q : Prog World Unit}
    (hq : q.Guarantees SameRest) :
    (ask (·.getRole role) >>= fun found =>
      if found.any (fun r => r.serverId == sid) then q else pure ()).Guarantees SameRest := by
  exact .bind (guarantees_ask SameRest.refl _) (fun found => .ite hq (guarantees_pure ()))

theorem guarantees_enact (sid : ServerId) (kind : ProposalKind) (now : Timestamp) :
    (enact sid kind now).Guarantees SameRest := by
  have hdone : ∀ {α : Type} (a : α), (pure () : Prog World Unit).Guarantees SameRest :=
    fun _ => guarantees_pure ()
  cases kind with
  | createChannel name topic =>
    simp only [enact]
    generalize normalizeChannelName name = normalized
    refine .ite (guarantees_pure ()) (.bind (guarantees_ask SameRest.refl _) (fun found => ?_))
    cases found with
    | some _ => exact guarantees_pure ()
    | none =>
      refine .bind (guarantees_transact (fun _ => ⟨rfl, rfl, rfl, rfl, rfl⟩)) (fun id => ?_)
      exact guarantees_write (fun _ => ⟨rfl, rfl, rfl, rfl, rfl⟩)
  | deleteChannel name =>
    refine .bind (guarantees_ask SameRest.refl _) (fun found => ?_)
    cases found with
    | none => exact guarantees_pure ()
    | some x => exact .bind (guarantees_transact (fun w => sameRest_removeChannel w x.id)) hdone
  | addRule text =>
    refine .bind (guarantees_transact (fun _ => ⟨rfl, rfl, rfl, rfl, rfl⟩)) (fun id => ?_)
    exact guarantees_write (fun _ => ⟨rfl, rfl, rfl, rfl, rfl⟩)
  | removeRule rule =>
    exact .bind (guarantees_transact (fun w => sameRest_removeRule w rule)) hdone
  | ban user => exact guarantees_editMembership user sid _
  | timeout user until_ => exact guarantees_editMembership user sid _
  | grantVoteWeight user weight => exact guarantees_editMembership user sid _
  | setGovernanceSurface enabled => exact guarantees_editServer sid _
  | amendCriteria proposed => exact guarantees_editServer sid _
  | setJurySizing sizing => exact guarantees_editServer sid _
  | setVoteWeighting scheme => exact guarantees_editServer sid _
  | setWeightingScope scope => exact guarantees_editServer sid _
  | setRehomingPolicy isDisabled => exact guarantees_editServer sid _
  | setInvitePolicy policy => exact guarantees_editServer sid _
  | createRole name =>
    simp only [enact]
    generalize normalizeRoleName name = normalized
    refine .ite (guarantees_pure ()) (.bind (guarantees_ask SameRest.refl _) (fun found => ?_))
    cases found with
    | some _ => exact guarantees_pure ()
    | none =>
      refine .bind (guarantees_transact (fun _ => ⟨rfl, rfl, rfl, rfl, rfl⟩)) (fun id => ?_)
      exact guarantees_write (fun _ => ⟨rfl, rfl, rfl, rfl, rfl⟩)
  | deleteRole role =>
    exact guarantees_ifRole (.bind (guarantees_transact (fun w => sameRest_removeRole w role)) hdone)
  | assignRole user role =>
    exact guarantees_ifRole (.bind (guarantees_transact (fun w => sameRest_assign w _)) hdone)
  | unassignRole user role =>
    exact guarantees_ifRole (.bind (guarantees_transact (fun w => sameRest_unassign w _ _)) hdone)
  | «recall» leader => exact guarantees_pure ()
  | removeContent target => exact guarantees_pure ()

end Guarantees

theorem sameRest_applyEffect (w : World) (p : Proposal) (now : Timestamp) :
    SameRest w ((applyEffect p now).exec w).2 := by
  have hnote : (noteEffect p.id now).Guarantees SameRest :=
    guarantees_modify (fun _ => ⟨rfl, rfl, rfl, rfl, rfl⟩)
  have hguarantees : (applyEffect p now).Guarantees SameRest :=
    (guarantees_enact p.serverId p.kind now).bind (fun _ => hnote)
  exact hguarantees.exec SameRest.refl SameRest.trans w

/-! ## The reach of `apply_effect` -/

theorem polity_applyEffect (w : World) (p : Proposal) (now : Timestamp) :
    ((applyEffect p now).exec w).2.polity =
      (w.polity.enact p.serverId p.kind now).noteEffect p.id now := by
  rw [applyEffect, exec_bind, polity_noteEffect, polity_enact]

theorem Proposal.removesForeignRule_eq_false {p : Proposal} {rules : Table Rule.id} :
    p.removesForeignRule rules = false ↔
      ∀ rule, p.kind = .removeRule rule →
        ∀ r, rules.get rule = some r → r.serverId = p.serverId := by
  unfold removesForeignRule
  split
  next rule hkind =>
    rw [hkind]
    constructor
    · rintro hnone _ ⟨⟩ r hr
      simpa [hr] using hnone
    · intro h
      cases hr : rules.get rule with
      | none => rfl
      | some r => simp [h rule rfl r hr]
  next hother => exact ⟨fun _ rule hkind => absurd hkind (hother rule), fun _ => rfl⟩

/-- Applying a proposal changes rows of its own server only, exactly when it is
not to remove a rule of another server. -/
theorem effect_confined_iff {services : Services} {w : World} (hw : services.Underway w)
    (p : Proposal) (now : Timestamp) :
    Confined p.serverId w ((applyEffect p now).exec w).2 ↔
      p.removesForeignRule w.store.rules = false := by
  rw [Proposal.removesForeignRule_eq_false]
  constructor
  · intro hconfined rule hkind r hr
    by_contra hforeign
    -- The rule is gone, so it is missing among the rules of other servers.
    have hrules := hconfined.elsewhere.rules
    rw [polity_applyEffect, hkind] at hrules
    have hmem : r ∈ w.polity.rules.rows.filter (·.serverId != p.serverId) :=
      List.mem_filter.2 ⟨Table.mem_of_get hr, by simpa using hforeign⟩
    rw [← hrules] at hmem
    have hkept : r ∈ (w.polity.rules.erase rule).rows := (List.mem_filter.1 hmem).1
    exact (Table.mem_erase.1 hkept).2 (Table.key_of_get hr)
  · intro hrule
    refine ⟨?_, sameRest_applyEffect w p now⟩
    have henacted := enacted_enact w.polity p.serverId p.kind now
    have hsame := henacted.sameElsewhere hw.messagesPlaced hw.rolesPlaced hw.namesUnique hrule
    rw [polity_applyEffect]
    exact { hsame with }

namespace Agora

/-- The hamlet has its rule, and the founder of another server votes to remove it. -/
def border : List Op :=
  concord ++
  [.resolveDue "agora", .registerAccount "eve", .foundServer "eve" "Forum" false,
    .openProposal "eve" "forum" (.removeRule (composeId 0 1))] ++
  [.castVote "eve" (ballot 2) true, .setClock (day 37)]

def borderWorld : World := services.run (.empty 0 (day 0)) border

def forum : Server := .new (composeId 0 2) "forum" "Forum" (composeId 0 5) (day 34)

def removal : Proposal :=
  .new (ballot 2) forum.id (composeId 0 5) (.removeRule (composeId 0 1)) (day 34) (day 37)

def removalPassed : Proposal := { removal with status := .passed (day 37) }

def removalWorld : World := closing borderWorld forum removal

theorem removalWorld_underway : services.Underway removalWorld := by
  refine Services.Reachable.closing ⟨0, day 0, border, rfl⟩ ?_
  decide +kernel

end Agora

theorem effect_confined_kindness :
    Confined Agora.sid Agora.concordWorld
      ((applyEffect (Agora.kindness 1 31) (Agora.day 34)).exec Agora.concordWorld).2 :=
  (effect_confined_iff ⟨_, ⟨0, Agora.day 0, Agora.concord, rfl⟩, .refl⟩ (Agora.kindness 1 31) _).2 rfl

/-- A passed ballot of the second server takes away the first server's rule. -/
theorem effect_escapes :
    Agora.services.Underway Agora.removalWorld ∧
    Agora.removalWorld.store.getProposal Agora.removal.id = some Agora.removalPassed ∧
    ¬ Confined Agora.removalPassed.serverId Agora.removalWorld
      ((applyEffect Agora.removalPassed Agora.removalWorld.now).exec Agora.removalWorld).2 := by
  refine ⟨Agora.removalWorld_underway, by decide +kernel, fun hconfined => ?_⟩
  have hrules := hconfined.elsewhere.rules
  revert hrules
  decide +kernel

end Democrachat
