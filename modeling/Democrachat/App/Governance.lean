import Democrachat.App.Chat

/-!
# Governance: open a ballot, vote, close it and apply its effect

`app/src/governance_service.rs`.
-/

namespace Democrachat

open Library Req

def votingWindowDays : Int := 3

def openProposal (proposerHandle serverSlug : String) (kind : ProposalKind) :
    Req World ProposeError Proposal := do
  let user ← okOr (← ask (·.findByHandle (trim proposerHandle))) (.noSuchUser proposerHandle)
  let server ← okOr (← ask (·.findBySlug (trim serverSlug))) (.noSuchServer serverSlug)
  let membership ← ask (·.getMembership user.id server.id)
  ensure (membership.any Membership.isFranchised) .notACitizen
  ensure (server.governs kind.ballotKind) .notGoverned
  let citizens ← ask (·.citizenCount server.id)
  let phase := Phase.fromCitizenCount citizens
  ensure (thresholdFor kind.decisionClass phase).isSome .notAllowedInPhase
  let now ← clockNow
  let id ← transact (·.nextProposalId)
  let proposal := Proposal.new id server.id user.id kind now (now.plusDays votingWindowDays)
  write (·.insertProposal proposal)
  return proposal

/-- The voting window is enforced by the status alone. -/
def castVoteAs (voterId : UserId) (proposalId : ProposalId) (isAye : Bool) :
    Req World VoteError Unit := do
  let proposal ← okOr (← ask (·.getProposal proposalId)) (.noSuchProposal proposalId)
  ensure (proposal.status == .open_) .closed
  let membership ← ask (·.getMembership voterId proposal.serverId)
  ensure (membership.any Membership.isFranchised) .notACitizen
  write (·.upsertVote ⟨proposal.id, voterId, isAye⟩)

def castVote (voterHandle : String) (proposalId : ProposalId) (isAye : Bool) :
    Req World VoteError Unit := do
  let user ← okOr (← ask (·.findByHandle (trim voterHandle))) (.noSuchUser voterHandle)
  castVoteAs user.id proposalId isAye

def castVoteById (voterId : UserId) (proposalId : ProposalId) (isAye : Bool) :
    Req World VoteError Unit := do
  let user ← okOr (← ask (·.getUser voterId)) (.noSuchUser voterId.display)
  castVoteAs user.id proposalId isAye

/-! ## The tally -/

/-- The loop of `weighted_tally`: one membership read for each ballot, and a
voter who is not franchised any more is dropped. -/
def tallyVotes (server : Server) (weighted : Bool) (now : Timestamp) :
    List Vote → Tally → Prog World Tally
  | [], tally => return tally
  | v :: vs, tally => do
    match (← ask (·.getMembership v.voter server.id)).filter Membership.isFranchised with
    | some m =>
      let weight := if weighted then server.voteWeighting.weightOf m now else 1
      tallyVotes server weighted now vs
        (if v.isAye then { tally with aye := tally.aye + weight }
          else { tally with nay := tally.nay + weight })
    | none => tallyVotes server weighted now vs tally

def weightedTally (server : Server) (proposal : Proposal) (now : Timestamp) :
    Prog World Tally := do
  let weighted := server.weightingScope.appliesToBallots
  let votes ← ask (·.listForProposal proposal.id)
  tallyVotes server weighted now votes ⟨0, 0⟩

/-! ## Effects -/

/-- Read the server's row and, where there is one, write it back changed. -/
def editServer (server : ServerId) (f : Server → Server) : Prog World Unit := do
  match ← ask (·.getServer server) with
  | some s => write (·.updateServer (f s))
  | none => return ()

/-- The history variable: it is written here and read nowhere. -/
def noteEffect (proposal : ProposalId) (now : Timestamp) : Prog World Unit :=
  Prog.modify (fun w => { w with effects := w.effects ++ [⟨proposal, now⟩] })

/-- One arm for each kind of proposal. -/
def enact (sid : ServerId) (kind : ProposalKind) (now : Timestamp) : Prog World Unit :=
  match kind with
  | .createChannel name topic => do
    let name := normalizeChannelName name
    if name.isEmpty then
      return ()
    else
      match ← ask (·.findByName sid name) with
      | some _ => return ()
      | none =>
        let id ← transact (·.nextChannelId)
        write (·.insertChannel (.new id sid name topic now))
  | .deleteChannel name => do
    match ← ask (·.findByName sid (normalizeChannelName name)) with
    | some c =>
      let _ ← transact (·.removeChannel c.id)
      return ()
    | none => return ()
  | .addRule text => do
    let id ← transact (·.nextRuleId)
    write (·.insertRule ⟨id, sid, text, now⟩)
  | .removeRule rule => do
    let _ ← transact (·.removeRule rule)
    return ()
  | .ban user => editMembership user sid (fun m => { m with isSanctioned := true })
  | .timeout user _ => editMembership user sid (fun m => { m with isSanctioned := true })
  | .setGovernanceSurface enabled => editServer sid (·.setGovernanceSurface enabled)
  | .amendCriteria proposed => editServer sid (fun s => { s with criteria := proposed })
  | .setJurySizing sizing => editServer sid (fun s => { s with jurySizing := sizing })
  | .setVoteWeighting scheme => editServer sid (fun s => { s with voteWeighting := scheme })
  | .setWeightingScope scope => editServer sid (fun s => { s with weightingScope := scope })
  | .grantVoteWeight user weight =>
    editMembership user sid (fun m => { m with grantedWeight := weight })
  | .createRole name => do
    let name := normalizeRoleName name
    if name.isEmpty then
      return ()
    else
      match ← ask (·.findRole sid name) with
      | some _ => return ()
      | none =>
        let id ← transact (·.nextRoleId)
        write (·.insertRole ⟨id, sid, name, now⟩)
  | .deleteRole role => do
    -- Only a role of this server.
    if (← ask (·.getRole role)).any (fun r => r.serverId == sid) then
      let _ ← transact (·.removeRole role)
      return ()
    else
      return ()
  | .assignRole user role => do
    if (← ask (·.getRole role)).any (fun r => r.serverId == sid) then
      let _ ← transact (·.assign ⟨sid, role, user⟩)
      return ()
    else
      return ()
  | .unassignRole user role => do
    if (← ask (·.getRole role)).any (fun r => r.serverId == sid) then
      let _ ← transact (·.unassign role user)
      return ()
    else
      return ()
  | .setRehomingPolicy isDisabled =>
    editServer sid (fun s => { s with isRehomingDisabled := isDisabled })
  | .setInvitePolicy policy => editServer sid (fun s => { s with invitePolicy := policy })
  | .«recall» _ | .removeContent _ => return ()

def applyEffect (proposal : Proposal) (now : Timestamp) : Prog World Unit := do
  enact proposal.serverId proposal.kind now
  noteEffect proposal.id now

/-! ## Resolving what is due -/

/-- Close a ballot whose voting window has elapsed. -/
def closeIfDue (server : Server) (citizens : Nat) (phase : Phase) (now : Timestamp)
    (p : Proposal) : Prog World Proposal :=
  if p.status = .open_ ∧ now ≥ p.closesAt then do
    let tally ← weightedTally server p now
    let p := p.close tally citizens phase now
    write (·.updateProposal p)
    return p
  else
    return p

/-- Apply a passed, matured, not yet applied effect. -/
def applyIfDue (now : Timestamp) (p : Proposal) : Prog World Unit :=
  match p.status with
  | .passed effectiveAt =>
    if p.isApplied = false ∧ now ≥ effectiveAt then do
      applyEffect p now
      write (·.updateProposal { p with isApplied := true })
    else
      return ()
  | _ => return ()

def sweepOne (server : Server) (citizens : Nat) (phase : Phase) (now : Timestamp)
    (p : Proposal) : Prog World Unit := do
  let p ← closeIfDue server citizens phase now p
  applyIfDue now p

def sweep (server : Server) (citizens : Nat) (phase : Phase) (now : Timestamp) :
    List Proposal → Prog World Unit
  | [] => return ()
  | p :: ps => do
    sweepOne server citizens phase now p
    sweep server citizens phase now ps

def resolveDue (serverSlug : String) : Prog World Unit := do
  match ← ask (·.findBySlug (trim serverSlug)) with
  | none => return ()
  | some server =>
    let now ← clockNow
    let citizens ← ask (·.citizenCount server.id)
    let phase := Phase.fromCitizenCount citizens
    let proposals ← ask (·.listProposalsForServer server.id)
    sweep server citizens phase now proposals

/-- Every read of the list resolves what is due first. -/
def listProposals (serverSlug : String) : Prog World (List Proposal) := do
  resolveDue serverSlug
  match ← ask (·.findBySlug (trim serverSlug)) with
  | some s => ask (·.listProposalsForServer s.id)
  | none => return []

end Democrachat
