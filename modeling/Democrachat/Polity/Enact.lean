import Democrachat.App.Governance
import Democrachat.Polity.Basic

/-!
# What governing does to the polity

The governance requests, run alone, as functions of the polity.  Each section
ends in the theorem that the request of `App.Governance` computes the function.
-/

namespace Democrachat

open Library

/-! ## Effects -/

namespace Polity

variable (c : Polity)

def editServer (sid : ServerId) (f : Server → Server) : Polity :=
  match c.servers.get sid with
  | some s => { c with servers := c.servers.insert (f s) }
  | none => c

def editMembership (user : UserId) (sid : ServerId) (f : Membership → Membership) : Polity :=
  match c.roster.member user sid with
  | some m => { c with roster := c.roster.insert (f m) }
  | none => c

def findChannel (sid : ServerId) (name : String) : Option Channel :=
  c.channels.rows.find? (fun x => x.serverId == sid && x.name == name)

def findRole (sid : ServerId) (name : String) : Option Role :=
  c.roles.rows.find? (fun r => r.serverId == sid && r.name == name)

def addChannel (sid : ServerId) (name topic : String) (now : Timestamp) : Polity :=
  { c with
    nextChannel := c.nextChannel + 1
    channels := c.channels.insert (.new (composeId c.node (c.nextChannel + 1)) sid name topic now) }

def addRule (sid : ServerId) (text : String) (now : Timestamp) : Polity :=
  { c with
    nextRule := c.nextRule + 1
    rules := c.rules.insert ⟨composeId c.node (c.nextRule + 1), sid, text, now⟩ }

def addRole (sid : ServerId) (name : String) (now : Timestamp) : Polity :=
  { c with
    nextRole := c.nextRole + 1
    roles := c.roles.insert ⟨composeId c.node (c.nextRole + 1), sid, name, now⟩ }

def removeChannel (id : ChannelId) : Polity :=
  { c with
    channels := c.channels.erase id
    messages := c.messages.retain (fun m => m.channelId != id) }

def removeRole (id : RoleId) : Polity :=
  { c with
    roles := c.roles.erase id
    roleAssignments := c.roleAssignments.filter (fun a => a.roleId != id) }

def assign (a : RoleAssignment) : Polity :=
  if c.roleAssignments.any (fun x => x.roleId == a.roleId && x.user == a.user) then c
  else { c with roleAssignments := c.roleAssignments ++ [a] }

def unassign (role : RoleId) (user : UserId) : Polity :=
  { c with roleAssignments :=
      c.roleAssignments.filter (fun a => !(a.roleId == role && a.user == user)) }

/-- The role exists and belongs to the server. -/
def hasRole (role : RoleId) (sid : ServerId) : Bool :=
  (c.roles.get role).any (fun r => r.serverId == sid)

def enact (sid : ServerId) (kind : ProposalKind) (now : Timestamp) : Polity :=
  match kind with
  | .createChannel name topic =>
    let name := normalizeChannelName name
    if name.isEmpty || (c.findChannel sid name).isSome then c else c.addChannel sid name topic now
  | .deleteChannel name =>
    match c.findChannel sid (normalizeChannelName name) with
    | some x => c.removeChannel x.id
    | none => c
  | .addRule text => c.addRule sid text now
  | .removeRule rule => { c with rules := c.rules.erase rule }
  | .ban user => c.editMembership user sid (fun m => { m with isSanctioned := true })
  | .timeout user _ => c.editMembership user sid (fun m => { m with isSanctioned := true })
  | .setGovernanceSurface enabled => c.editServer sid (·.setGovernanceSurface enabled)
  | .amendCriteria proposed => c.editServer sid (fun s => { s with criteria := proposed })
  | .setJurySizing sizing => c.editServer sid (fun s => { s with jurySizing := sizing })
  | .setVoteWeighting scheme => c.editServer sid (fun s => { s with voteWeighting := scheme })
  | .setWeightingScope scope => c.editServer sid (fun s => { s with weightingScope := scope })
  | .grantVoteWeight user weight =>
    c.editMembership user sid (fun m => { m with grantedWeight := weight })
  | .createRole name =>
    let name := normalizeRoleName name
    if name.isEmpty || (c.findRole sid name).isSome then c else c.addRole sid name now
  | .deleteRole role => if c.hasRole role sid then c.removeRole role else c
  | .assignRole user role => if c.hasRole role sid then c.assign ⟨sid, role, user⟩ else c
  | .unassignRole user role => if c.hasRole role sid then c.unassign role user else c
  | .setRehomingPolicy isDisabled =>
    c.editServer sid (fun s => { s with isRehomingDisabled := isDisabled })
  | .setInvitePolicy policy => c.editServer sid (fun s => { s with invitePolicy := policy })
  | .«recall» _ | .removeContent _ => c

end Polity

section Exec

variable (w : World)

theorem polity_editMembership (user : UserId) (sid : ServerId) (f : Membership → Membership) :
    ((editMembership user sid f).exec w).2.polity = w.polity.editMembership user sid f := by
  simp only [editMembership, Prog.exec_bind, exec_ask, Polity.editMembership]
  change _ = match w.store.getMembership user sid with | some m => _ | none => _
  cases w.store.getMembership user sid <;> rfl

theorem polity_editServer (sid : ServerId) (f : Server → Server) :
    ((editServer sid f).exec w).2.polity = w.polity.editServer sid f := by
  simp only [editServer, Prog.exec_bind, exec_ask, Polity.editServer]
  change _ = match w.store.getServer sid with | some m => _ | none => _
  cases w.store.getServer sid <;> rfl

theorem polity_removeRule (rule : RuleId) :
    (w.mapStore (fun s => (s.removeRule rule).2)).polity =
      { w.polity with rules := w.polity.rules.erase rule } := by
  simp only [World.mapStore, Inner.removeRule]
  cases h : w.store.rules.get rule with
  | some r => rfl
  | none =>
    have herase : w.polity.rules.erase rule = w.polity.rules := Table.erase_eq_self h
    rw [herase]

theorem polity_removeRole {role : RoleId} {r : Role} (h : w.polity.roles.get role = some r) :
    (w.mapStore (fun s => (s.removeRole role).2)).polity = w.polity.removeRole role := by
  have h : w.store.roles.get role = some r := h
  simp only [World.mapStore, Inner.removeRole, h]
  rfl

theorem polity_assign (a : RoleAssignment) :
    (w.mapStore (fun s => (s.assign a).2)).polity = w.polity.assign a := by
  simp only [World.mapStore, Inner.assign, Polity.assign]
  change _ = if w.store.roleAssignments.any _ then _ else _
  split <;> rfl

theorem polity_unassign (role : RoleId) (user : UserId) :
    (w.mapStore (fun s => (s.unassign role user).2)).polity = w.polity.unassign role user := by
  simp only [World.mapStore, Inner.unassign, Polity.unassign]
  split
  next hnone =>
    have hkept : w.polity.roleAssignments.filter
        (fun a => !(a.roleId == role && a.user == user)) = w.polity.roleAssignments := by
      rw [List.filter_eq_self]
      intro a ha
      have := List.find?_eq_none.1 hnone a ha
      simpa only [Bool.not_eq_true', Bool.not_eq_true] using this
    rw [hkept]
  next => rfl

/-- `enact`, run alone, computes `Polity.enact`. -/
theorem polity_enact (sid : ServerId) (kind : ProposalKind) (now : Timestamp) :
    ((enact sid kind now).exec w).2.polity = w.polity.enact sid kind now := by
  have hchannel : ∀ name, w.polity.findChannel sid name = w.store.findByName sid name :=
    fun _ => rfl
  have hrole : ∀ name, w.polity.findRole sid name = w.store.findRole sid name := fun _ => rfl
  have hasRole : ∀ role, w.polity.hasRole role sid =
      (w.store.getRole role).any (fun r => r.serverId == sid) := fun _ => rfl
  cases kind with
  | createChannel name topic =>
    simp only [enact, Polity.enact, hchannel]
    by_cases hempty : (normalizeChannelName name).isEmpty = true
    · simp [hempty]
    · cases h : w.store.findByName sid (normalizeChannelName name) with
      | none =>
        simp [hempty, h]
        rfl
      | some x => simp [hempty, h]
  | deleteChannel name =>
    simp only [enact, Polity.enact, hchannel, Prog.exec_bind, exec_ask]
    cases h : w.store.findByName sid (normalizeChannelName name) with
    | none => rfl
    | some x =>
      have hmem : x ∈ w.polity.channels.rows := List.mem_of_find?_eq_some h
      exact polity_removeChannel w (Table.get_eq_some.2 ⟨hmem, rfl⟩)
  | addRule text => rfl
  | removeRule rule => exact polity_removeRule w rule
  | ban user => exact polity_editMembership w user sid _
  | timeout user until_ => exact polity_editMembership w user sid _
  | setGovernanceSurface enabled => exact polity_editServer w sid _
  | amendCriteria proposed => exact polity_editServer w sid _
  | setJurySizing sizing => exact polity_editServer w sid _
  | setVoteWeighting scheme => exact polity_editServer w sid _
  | setWeightingScope scope => exact polity_editServer w sid _
  | grantVoteWeight user weight => exact polity_editMembership w user sid _
  | createRole name =>
    simp only [enact, Polity.enact, hrole]
    by_cases hempty : (normalizeRoleName name).isEmpty = true
    · simp [hempty]
    · cases h : w.store.findRole sid (normalizeRoleName name) with
      | none =>
        simp [hempty, h]
        rfl
      | some role => simp [hempty, h]
  | deleteRole role =>
    simp only [enact, Polity.enact, hasRole, exec_ask_bind, Prog.exec_ite]
    cases h : w.store.getRole role with
    | none => rfl
    | some r =>
      split
      · exact polity_removeRole w h
      · rfl
  | assignRole user role =>
    simp only [enact, Polity.enact, hasRole, exec_ask_bind, Prog.exec_ite]
    split
    · exact polity_assign w _
    · rfl
  | unassignRole user role =>
    simp only [enact, Polity.enact, hasRole, exec_ask_bind, Prog.exec_ite]
    split
    · exact polity_unassign w _ _
    · rfl
  | setRehomingPolicy isDisabled => exact polity_editServer w sid _
  | setInvitePolicy policy => exact polity_editServer w sid _
  | «recall» leader => rfl
  | removeContent target => rfl

end Exec

end Democrachat
