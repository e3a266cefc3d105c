import Democrachat.App.World

/-!
# The polity

The part of the world that ballots are about and that decides them: the
servers, who belongs to them and how, their channels, messages, rules and roles, the
proposals and the votes, the counters that mint their identifiers, and the
clock.  Accounts, invites, media, reactions and the outbox are left out; two
worlds with the same polity are governed alike.
-/

namespace Democrachat

open Library

@[ext] structure Polity where
  servers : Table Server.id
  roster : Roster
  channels : Table Channel.id
  messages : Table Message.id
  proposals : Table Proposal.id
  votes : List Vote
  rules : Table Rule.id
  roles : Table Role.id
  roleAssignments : List RoleAssignment
  nextServer : Nat
  nextChannel : Nat
  nextProposal : Nat
  nextRule : Nat
  nextRole : Nat
  node : NodeId
  now : Timestamp
  effects : List Effect

/-- The same rows wherever a ballot can write. -/
structure SameTables (c c' : Polity) : Prop where
  servers : c'.servers = c.servers
  roster : c'.roster = c.roster
  channels : c'.channels = c.channels
  messages : c'.messages = c.messages
  proposals : c'.proposals = c.proposals
  votes : c'.votes = c.votes
  rules : c'.rules = c.rules
  roles : c'.roles = c.roles
  roleAssignments : c'.roleAssignments = c.roleAssignments

namespace World

def polity (w : World) : Polity where
  servers := w.store.servers
  roster := w.store.memberships
  channels := w.store.channels
  messages := w.store.messages
  proposals := w.store.proposals
  votes := w.store.votes
  rules := w.store.rules
  roles := w.store.roles
  roleAssignments := w.store.roleAssignments
  nextServer := w.store.nextServer
  nextChannel := w.store.nextChannel
  nextProposal := w.store.nextProposal
  nextRule := w.store.nextRule
  nextRole := w.store.nextRole
  node := w.store.node
  now := w.now
  effects := w.effects

/-- A write that the polity does not see. -/
def SamePolity (w w' : World) : Prop := w'.polity = w.polity

theorem SamePolity.refl (w : World) : SamePolity w w := rfl

theorem SamePolity.trans (w w' w'' : World) (h : SamePolity w w') (h' : SamePolity w' w'') :
    SamePolity w w'' :=
  Eq.trans h' h

end World

/-! ## What each port writes of it -/

section Ports

variable (w : World)

@[simp] theorem polity_insertServer (g : Server) :
    (w.mapStore (·.insertServer g)).polity =
      { w.polity with servers := w.polity.servers.insert g } := rfl

@[simp] theorem polity_updateServer (g : Server) :
    (w.mapStore (·.updateServer g)).polity =
      { w.polity with servers := w.polity.servers.insert g } := rfl

@[simp] theorem polity_nextServerId :
    (w.mapStore (·.nextServerId.2)).polity =
      { w.polity with nextServer := w.polity.nextServer + 1 } := rfl

@[simp] theorem polity_upsertMembership (m : Membership) :
    (w.mapStore (·.upsertMembership m)).polity =
      { w.polity with roster := w.polity.roster.insert m } := rfl

@[simp] theorem polity_nextChannelId :
    (w.mapStore (·.nextChannelId.2)).polity =
      { w.polity with nextChannel := w.polity.nextChannel + 1 } := rfl

@[simp] theorem polity_insertChannel (c : Channel) :
    (w.mapStore (·.insertChannel c)).polity =
      { w.polity with channels := w.polity.channels.insert c } := rfl

theorem polity_removeChannel {id : ChannelId} {c : Channel}
    (h : w.polity.channels.get id = some c) :
    (w.mapStore (fun s => (s.removeChannel id).2)).polity =
      { w.polity with
        channels := w.polity.channels.erase id
        messages := w.polity.messages.retain (fun m => m.channelId != id) } := by
  have h : w.store.channels.get id = some c := h
  simp only [World.mapStore, Inner.removeChannel, h]
  rfl

@[simp] theorem polity_nextMessageId :
    (w.mapStore (·.nextMessageId.2)).polity = w.polity := rfl

@[simp] theorem polity_insertMessage (m : Message) :
    (w.mapStore (·.insertMessage m)).polity =
      { w.polity with messages := w.polity.messages.insert m } := rfl

@[simp] theorem polity_updateMessage (m : Message) :
    (w.mapStore (·.updateMessage m)).polity =
      { w.polity with messages := w.polity.messages.insert m } := rfl

@[simp] theorem polity_nextProposalId :
    (w.mapStore (·.nextProposalId.2)).polity =
      { w.polity with nextProposal := w.polity.nextProposal + 1 } := rfl

@[simp] theorem polity_insertProposal (p : Proposal) :
    (w.mapStore (·.insertProposal p)).polity =
      { w.polity with proposals := w.polity.proposals.insert p } := rfl

@[simp] theorem polity_updateProposal (p : Proposal) :
    (w.mapStore (·.updateProposal p)).polity =
      { w.polity with proposals := w.polity.proposals.insert p } := rfl

@[simp] theorem polity_upsertVote (v : Vote) :
    (w.mapStore (·.upsertVote v)).polity =
      { w.polity with votes := recordVote w.polity.votes v } := rfl

@[simp] theorem polity_nextRuleId :
    (w.mapStore (·.nextRuleId.2)).polity =
      { w.polity with nextRule := w.polity.nextRule + 1 } := rfl

@[simp] theorem polity_insertRule (r : Rule) :
    (w.mapStore (·.insertRule r)).polity =
      { w.polity with rules := w.polity.rules.insert r } := rfl

@[simp] theorem polity_nextRoleId :
    (w.mapStore (·.nextRoleId.2)).polity =
      { w.polity with nextRole := w.polity.nextRole + 1 } := rfl

@[simp] theorem polity_insertRole (r : Role) :
    (w.mapStore (·.insertRole r)).polity =
      { w.polity with roles := w.polity.roles.insert r } := rfl

end Ports

/-! ## Writes outside it -/

section Outside

variable (w : World)

@[simp] theorem polity_nextUserId : (w.mapStore (·.nextUserId.2)).polity = w.polity := rfl

@[simp] theorem polity_insertUser (u : User) :
    (w.mapStore (·.insertUser u)).polity = w.polity := rfl

@[simp] theorem polity_updateUser (u : User) :
    (w.mapStore (·.updateUser u)).polity = w.polity := rfl

@[simp] theorem polity_addInvite (i : Invite) :
    (w.mapStore (·.addInvite i)).polity = w.polity := rfl

@[simp] theorem polity_revokeInvite (h : String) :
    (w.mapStore (·.revokeInvite h)).polity = w.polity := by
  simp only [World.mapStore, Inner.revokeInvite]
  split <;> rfl

@[simp] theorem polity_addToken (t : VerificationToken) :
    (w.mapStore (·.addToken t)).polity = w.polity := rfl

@[simp] theorem polity_takeToken (h : String) (now : Int) :
    (w.mapStore (fun s => (s.takeToken h now).2)).polity = w.polity := rfl

@[simp] theorem polity_putMedia (nanos : Nat) (contentType : String) (bytes : List UInt8) :
    (w.mapStore (fun s => (s.putMedia nanos contentType bytes).2)).polity = w.polity := rfl

@[simp] theorem polity_deleteMedia (key : String) :
    (w.mapStore (·.deleteMedia key)).polity = w.polity := rfl

@[simp] theorem polity_addReaction (r : Reaction) :
    (w.mapStore (fun s => (s.addReaction r).2)).polity = w.polity := by
  simp only [World.mapStore, Inner.addReaction]
  split <;> rfl

@[simp] theorem polity_removeReaction (m : MessageId) (u : UserId) (e : String) :
    (w.mapStore (fun s => (s.removeReaction m u e).2)).polity = w.polity := by
  simp only [World.mapStore, Inner.removeReaction]
  split <;> rfl

end Outside

end Democrachat
