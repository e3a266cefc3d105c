import Democrachat.Polity.Sweep

/-!
# What can happen to the polity

`Enacted` lists what an effect can do, and `Move` what a request can do apart
from the two ways into the franchise.  Later modules argue about these lists
and never unfold a request again.
-/

namespace Democrachat

open Library

/-- The row was rewritten, but not who it is about, when they joined or where
they stand, and no sanction was lifted. -/
structure SameStanding (m m' : Membership) : Prop where
  userId : m'.userId = m.userId
  serverId : m'.serverId = m.serverId
  joinedAt : m'.joinedAt = m.joinedAt
  tier : m'.tier = m.tier
  enfranchisedAt : m'.enfranchisedAt = m.enfranchisedAt
  sanction : m.isSanctioned = true → m'.isSanctioned = true

theorem SameStanding.key {m m' : Membership} (h : SameStanding m m') : m'.key = m.key := by
  rw [Membership.key, Membership.key, h.userId, h.serverId]

theorem sameStanding_sanctioned (m : Membership) :
    SameStanding m { m with isSanctioned := true } :=
  ⟨rfl, rfl, rfl, rfl, rfl, fun _ => rfl⟩

theorem sameStanding_granted (weight : Nat) (m : Membership) :
    SameStanding m { m with grantedWeight := weight } :=
  ⟨rfl, rfl, rfl, rfl, rfl, fun h => h⟩

/-! ## Effects -/

inductive Enacted (sid : ServerId) (kind : ProposalKind) (now : Timestamp) (c : Polity) :
    Polity → Prop
  | idle : Enacted sid kind now c c
  | server {s s' : Server} : c.servers.get sid = some s → s'.id = s.id → s'.slug = s.slug →
      Enacted sid kind now c { c with servers := c.servers.insert s' }
  | member {m m' : Membership} : c.roster.member m.userId sid = some m → SameStanding m m' →
      Enacted sid kind now c { c with roster := c.roster.insert m' }
  | addChannel (name topic : String) : name.isEmpty = false → c.findChannel sid name = none →
      Enacted sid kind now c (c.addChannel sid name topic now)
  | removeChannel {x : Channel} : x ∈ c.channels.rows → x.serverId = sid →
      Enacted sid kind now c (c.removeChannel x.id)
  | addRule (text : String) : Enacted sid kind now c (c.addRule sid text now)
  | removeRule {rule : RuleId} : kind = .removeRule rule →
      Enacted sid kind now c { c with rules := c.rules.erase rule }
  | addRole (name : String) : name.isEmpty = false → c.findRole sid name = none →
      Enacted sid kind now c (c.addRole sid name now)
  | removeRole {r : Role} : c.roles.get r.id = some r → r.serverId = sid →
      Enacted sid kind now c (c.removeRole r.id)
  | assign {a : RoleAssignment} {r : Role} : a.serverId = sid → c.roles.get a.roleId = some r →
      r.serverId = sid → Enacted sid kind now c (c.assign a)
  | unassign {role : RoleId} (user : UserId) {r : Role} : c.roles.get role = some r →
      r.serverId = sid → Enacted sid kind now c (c.unassign role user)

section Effects

variable (c : Polity) (sid : ServerId) (kind : ProposalKind) (now : Timestamp)

theorem Polity.member_userId {user : UserId} {m : Membership}
    (h : c.roster.member user sid = some m) : m.userId = user ∧ m.serverId = sid :=
  Membership.key_eq.1 (Table.key_of_get h)

theorem enacted_editMembership (user : UserId) (f : Membership → Membership)
    (hf : ∀ m, SameStanding m (f m)) :
    Enacted sid kind now c (c.editMembership user sid f) := by
  unfold Polity.editMembership
  split
  next m hm =>
    obtain ⟨rfl, -⟩ := c.member_userId sid hm
    exact .member hm (hf m)
  next => exact .idle

theorem enacted_editServer (f : Server → Server) (hid : ∀ s, (f s).id = s.id)
    (hslug : ∀ s, (f s).slug = s.slug) :
    Enacted sid kind now c (c.editServer sid f) := by
  unfold Polity.editServer
  split
  next s hs => exact .server hs (hid s) (hslug s)
  next => exact .idle

theorem Polity.hasRole_eq_true {role : RoleId} :
    c.hasRole role sid = true ↔ ∃ r, c.roles.get role = some r ∧ r.serverId = sid := by
  simp [Polity.hasRole, Option.any_eq_true]

/-- Every arm of `enact` is one of the outcomes. -/
theorem enacted_enact : Enacted sid kind now c (c.enact sid kind now) := by
  cases kind with
  | createChannel name topic =>
    simp only [Polity.enact]
    split
    next => exact .idle
    next h =>
      simp only [Bool.or_eq_true, not_or, Bool.not_eq_true, Option.isSome_eq_false_iff,
        Option.isNone_iff_eq_none] at h
      exact .addChannel _ topic h.1 h.2
  | deleteChannel name =>
    simp only [Polity.enact]
    split
    next x hx =>
      have hserver := List.find?_some hx
      simp only [Bool.and_eq_true, beq_iff_eq] at hserver
      exact .removeChannel (List.mem_of_find?_eq_some hx) hserver.1
    next => exact .idle
  | addRule text => exact .addRule text
  | removeRule rule => exact .removeRule rfl
  | ban user => exact enacted_editMembership c sid _ now user _ sameStanding_sanctioned
  | timeout user until_ => exact enacted_editMembership c sid _ now user _ sameStanding_sanctioned
  | grantVoteWeight user weight =>
    exact enacted_editMembership c sid _ now user _ (sameStanding_granted weight)
  | setGovernanceSurface enabled =>
    exact enacted_editServer c sid _ now _ (fun _ => rfl) (fun _ => rfl)
  | amendCriteria proposed => exact enacted_editServer c sid _ now _ (fun _ => rfl) (fun _ => rfl)
  | setJurySizing sizing => exact enacted_editServer c sid _ now _ (fun _ => rfl) (fun _ => rfl)
  | setVoteWeighting scheme => exact enacted_editServer c sid _ now _ (fun _ => rfl) (fun _ => rfl)
  | setWeightingScope scope => exact enacted_editServer c sid _ now _ (fun _ => rfl) (fun _ => rfl)
  | setRehomingPolicy isDisabled =>
    exact enacted_editServer c sid _ now _ (fun _ => rfl) (fun _ => rfl)
  | setInvitePolicy policy => exact enacted_editServer c sid _ now _ (fun _ => rfl) (fun _ => rfl)
  | createRole name =>
    simp only [Polity.enact]
    split
    next => exact .idle
    next h =>
      simp only [Bool.or_eq_true, not_or, Bool.not_eq_true, Option.isSome_eq_false_iff,
        Option.isNone_iff_eq_none] at h
      exact .addRole _ h.1 h.2
  | deleteRole role =>
    simp only [Polity.enact]
    split
    next h =>
      obtain ⟨r, hr, hserver⟩ := (c.hasRole_eq_true sid).1 h
      obtain rfl := Table.key_of_get hr
      exact .removeRole hr hserver
    next => exact .idle
  | assignRole user role =>
    simp only [Polity.enact]
    split
    next h =>
      obtain ⟨r, hr, hserver⟩ := (c.hasRole_eq_true sid).1 h
      exact .assign rfl hr hserver
    next => exact .idle
  | unassignRole user role =>
    simp only [Polity.enact]
    split
    next h =>
      obtain ⟨r, hr, hserver⟩ := (c.hasRole_eq_true sid).1 h
      exact .unassign user hr hserver
    next => exact .idle
  | «recall» leader => exact .idle
  | removeContent target => exact .idle

end Effects

theorem SameStanding.isCitizen {m m' : Membership} (h : SameStanding m m') :
    m'.isCitizen = m.isCitizen := by
  rw [Membership.isCitizen, Membership.isCitizen, h.tier]

/-- Rewriting a row in its standing leaves the size of the citizenry. -/
theorem citizenCount_insert {r : Roster} {m m' : Membership} (hm : r.get m.key = some m)
    (h : SameStanding m m') (sid : ServerId) :
    Roster.citizenCount (r.insert m') sid = r.citizenCount sid := by
  refine Table.countP_insert_of_agree (u := m) (by rw [h.key, hm]) ?_
  rw [h.serverId, h.isCitizen]

/-- No effect touches the proposals, the votes, the clock or the history. -/
structure SameBallots (c c' : Polity) : Prop where
  proposals : c'.proposals = c.proposals
  votes : c'.votes = c.votes
  now : c'.now = c.now
  effects : c'.effects = c.effects
  node : c'.node = c.node
  nextServer : c'.nextServer = c.nextServer
  nextProposal : c'.nextProposal = c.nextProposal

theorem sameBallots_assign (c : Polity) (a : RoleAssignment) : SameBallots c (c.assign a) := by
  unfold Polity.assign
  split <;> constructor <;> rfl

theorem Enacted.sameBallots {sid : ServerId} {kind : ProposalKind} {now : Timestamp}
    {c c' : Polity} (h : Enacted sid kind now c c') : SameBallots c c' := by
  cases h with
  | assign => exact sameBallots_assign c _
  | _ => constructor <;> rfl

theorem Polity.get_key {c : Polity} {sid : ServerId} {m : Membership}
    (h : c.roster.member m.userId sid = some m) : c.roster.get m.key = some m := by
  rw [Membership.key, (c.member_userId sid h).2]
  exact h

/-- Nor does one admit or remove a citizen. -/
theorem Enacted.citizenCount {sid : ServerId} {kind : ProposalKind} {now : Timestamp}
    {c c' : Polity} (h : Enacted sid kind now c c') (server : ServerId) :
    c'.roster.citizenCount server = c.roster.citizenCount server := by
  cases h with
  | member hm hsame => exact citizenCount_insert (Polity.get_key hm) hsame server
  | assign => unfold Polity.assign; split <;> rfl
  | _ => rfl

/-! ## Moves -/

def Polity.propose (c : Polity) (sid : ServerId) (proposer : UserId) (kind : ProposalKind) :
    Polity :=
  { c with
    nextProposal := c.nextProposal + 1
    proposals := c.proposals.insert (.new (composeId c.node (c.nextProposal + 1)) sid proposer kind
      c.now (c.now.plusDays votingWindowDays)) }

/-- What one request can do at one clock value. -/
inductive Move (c : Polity) : Polity → Prop
  | enrol {user : UserId} {g : Server} : c.servers.get g.id = some g →
      c.roster.member user g.id = none →
      Move c { c with roster := c.roster.insert (.joined user g.id c.now) }
  | edit {m m' : Membership} : c.roster.get m.key = some m → SameStanding m m' →
      Move c { c with roster := c.roster.insert m' }
  | addChannel {g : Server} (name topic : String) : c.servers.get g.id = some g →
      c.findChannel g.id name = none → Move c (c.addChannel g.id name topic c.now)
  | post {m : Message} {x : Channel} : c.channels.get m.channelId = some x →
      x.serverId = m.serverId → Move c { c with messages := c.messages.insert m }
  | rewrite {m m' : Message} : c.messages.get m.id = some m → m'.id = m.id →
      m'.channelId = m.channelId → m'.serverId = m.serverId → m'.author = m.author →
      Move c { c with messages := c.messages.insert m' }
  | propose {g : Server} (proposer : UserId) (kind : ProposalKind) :
      c.servers.get g.id = some g → Move c (c.propose g.id proposer kind)
  | vote {v : Vote} {p : Proposal} : c.proposals.get v.proposalId = some p → p.status = .open_ →
      (c.elector p.serverId v.voter).isSome → Move c { c with votes := recordVote c.votes v }
  | close {σ : Session} {p : Proposal} : c.proposals.get p.id = some p → σ.server = p.serverId →
      σ.citizens = c.roster.citizenCount p.serverId → σ.now = c.now → p.closeDue c.now = true →
      Move c (c.putProposal (c.closed σ p))
  | apply {p : Proposal} : c.proposals.get p.id = some p → p.applyDue c.now = true →
      Move c (c.applyIfDue c.now p)

abbrev Moves : Polity → Polity → Prop := Relation.ReflTransGen Move

/-- The moves of the requests that neither credit a member, vote nor resolve. -/
inductive Ordinary (c : Polity) : Polity → Prop
  | enrol {user : UserId} {g : Server} : c.servers.get g.id = some g →
      c.roster.member user g.id = none →
      Ordinary c { c with roster := c.roster.insert (.joined user g.id c.now) }
  | edit {m m' : Membership} : c.roster.get m.key = some m → SameStanding m m' →
      m'.contribution = m.contribution → m'.isSanctioned = m.isSanctioned →
      Ordinary c { c with roster := c.roster.insert m' }
  | addChannel {g : Server} (name topic : String) : c.servers.get g.id = some g →
      c.findChannel g.id name = none → Ordinary c (c.addChannel g.id name topic c.now)
  | post {m : Message} {x : Channel} : c.channels.get m.channelId = some x →
      x.serverId = m.serverId → Ordinary c { c with messages := c.messages.insert m }
  | rewrite {m m' : Message} : c.messages.get m.id = some m → m'.id = m.id →
      m'.channelId = m.channelId → m'.serverId = m.serverId → m'.author = m.author →
      Ordinary c { c with messages := c.messages.insert m' }
  | propose {g : Server} (proposer : UserId) (kind : ProposalKind) :
      c.servers.get g.id = some g → Ordinary c (c.propose g.id proposer kind)

theorem Ordinary.move {c c' : Polity} (h : Ordinary c c') : Move c c' := by
  cases h with
  | enrol hg hnone => exact .enrol hg hnone
  | edit hm hsame _ _ => exact .edit hm hsame
  | addChannel name topic hg hfree => exact .addChannel name topic hg hfree
  | post hx hserver => exact .post hx hserver
  | rewrite hm hid hchannel hserver hauthor => exact .rewrite hm hid hchannel hserver hauthor
  | propose proposer kind hg => exact .propose proposer kind hg

/-- At most one ordinary move. -/
abbrev Ordinarily : Polity → Polity → Prop := Relation.ReflGen Ordinary

theorem Ordinarily.moves {c c' : Polity} (h : Ordinarily c c') : Moves c c' := by
  cases h with
  | refl => exact .refl
  | single h => exact .single h.move

/-- Rewriting a row brings in nobody. -/
theorem get_insert_eq_none {r : Roster} {m m' : Membership} (hm : r.get m.key = some m)
    (hkey : m'.key = m.key) {k : UserId ×ₗ ServerId} (hk : r.get k = none) :
    Table.get (r.insert m') k = none := by
  have hne : k ≠ m'.key := by
    rintro rfl
    rw [hkey, hm] at hk
    cases hk
  exact (Table.get_insert_of_ne _ hne).trans hk

/-- At most one ordinary move, and it brings in nobody. -/
structure Routinely (c c' : Polity) : Prop where
  ordinarily : Ordinarily c c'
  nobody : ∀ {k}, c.roster.get k = none → c'.roster.get k = none

namespace Routinely

variable {c c' : Polity}

@[refl] theorem refl : Routinely c c := ⟨.refl, fun h => h⟩

theorem single (h : Ordinary c c') (hroster : c'.roster = c.roster) : Routinely c c' where
  ordinarily := .single h
  nobody := by
    intro k hk
    rw [hroster]
    exact hk

theorem edit {m m' : Membership} (hm : c.roster.get m.key = some m) (hsame : SameStanding m m')
    (hcontribution : m'.contribution = m.contribution)
    (hsanction : m'.isSanctioned = m.isSanctioned) :
    Routinely c { c with roster := c.roster.insert m' } where
  ordinarily := .single (.edit hm hsame hcontribution hsanction)
  nobody := get_insert_eq_none hm hsame.key

end Routinely

/-! ## One turn of a sweep -/

section Turn

variable {c : Polity} {σ : Session} {p : Proposal}

namespace Polity

theorem closed_id : (c.closed σ p).id = p.id := by
  unfold closed
  split <;> rfl

theorem closed_serverId : (c.closed σ p).serverId = p.serverId := by
  unfold closed
  split <;> rfl

theorem closed_kind : (c.closed σ p).kind = p.kind := by
  unfold closed
  split <;> rfl

theorem closeIfDue_get (h : c.proposals.get p.id = some p) :
    (c.closeIfDue σ p).proposals.get p.id = some (c.closed σ p) := by
  unfold closeIfDue
  split
  next => rw [← closed_id (c := c) (σ := σ)]; exact Table.get_insert_self _ _
  next hdue => rw [h, closed, if_neg hdue]

theorem closeIfDue_get_of_ne {q : ProposalId} (h : q ≠ p.id) :
    (c.closeIfDue σ p).proposals.get q = c.proposals.get q := by
  unfold closeIfDue
  split
  next => exact Table.get_insert_of_ne _ (by rw [closed_id]; exact h)
  next => rfl

theorem closeIfDue_roster : (c.closeIfDue σ p).roster = c.roster := by
  unfold closeIfDue
  split <;> rfl

theorem closeIfDue_now : (c.closeIfDue σ p).now = c.now := by
  unfold closeIfDue
  split <;> rfl

theorem closeIfDue_votes : (c.closeIfDue σ p).votes = c.votes := by
  unfold closeIfDue
  split <;> rfl

variable {now : Timestamp}

theorem applyIfDue_get_of_ne {q : ProposalId} (h : q ≠ p.id) :
    (c.applyIfDue now p).proposals.get q = c.proposals.get q := by
  unfold applyIfDue
  split
  next =>
    have hne : q ≠ Proposal.id { p with isApplied := true } := h
    rw [putProposal, Table.get_insert_of_ne _ hne]
    exact congrArg (Table.get · q) (enacted_enact c p.serverId p.kind now).sameBallots.proposals
  next => rfl

theorem applyIfDue_citizenCount (sid : ServerId) :
    (c.applyIfDue now p).roster.citizenCount sid = c.roster.citizenCount sid := by
  unfold applyIfDue
  split
  next => exact (enacted_enact _ p.serverId p.kind now).citizenCount sid
  next => rfl

theorem applyIfDue_now : (c.applyIfDue now p).now = c.now := by
  unfold applyIfDue
  split
  next => exact (enacted_enact _ p.serverId p.kind now).sameBallots.now
  next => rfl

theorem applyIfDue_votes : (c.applyIfDue now p).votes = c.votes := by
  unfold applyIfDue
  split
  next => exact (enacted_enact _ p.serverId p.kind now).sameBallots.votes
  next => rfl

theorem sweepOne_get_of_ne {q : ProposalId} (h : q ≠ p.id) :
    (c.sweepOne σ p).proposals.get q = c.proposals.get q := by
  rw [sweepOne, applyIfDue_get_of_ne (by rw [closed_id]; exact h), closeIfDue_get_of_ne h]

theorem sweepOne_citizenCount (sid : ServerId) :
    (c.sweepOne σ p).roster.citizenCount sid = c.roster.citizenCount sid := by
  rw [sweepOne, applyIfDue_citizenCount, closeIfDue_roster]

theorem sweepOne_now : (c.sweepOne σ p).now = c.now := by
  rw [sweepOne, applyIfDue_now, closeIfDue_now]

theorem sweepOne_votes : (c.sweepOne σ p).votes = c.votes := by
  rw [sweepOne, applyIfDue_votes, closeIfDue_votes]

end Polity

theorem Move.now {c' : Polity} (h : Move c c') : c'.now = c.now := by
  cases h with
  | apply _ _ => exact Polity.applyIfDue_now
  | _ => rfl

theorem Moves.now {c' : Polity} (h : Moves c c') : c'.now = c.now := by
  induction h with
  | refl => rfl
  | tail _ hmove ih => exact hmove.now.trans ih

/-- What holds of a session and a proposal when the proposal's turn comes. -/
structure OnTurn (σ : Session) (c : Polity) (p : Proposal) : Prop where
  get : c.proposals.get p.id = some p
  server : σ.server = p.serverId
  citizens : σ.citizens = c.roster.citizenCount p.serverId
  now : σ.now = c.now

/-- The turn of one proposal leaves the turns of the others as they were. -/
theorem OnTurn.sweepOne {q : Proposal} (h : OnTurn σ c q) (hne : q.id ≠ p.id) :
    OnTurn σ (c.sweepOne σ p) q where
  get := (Polity.sweepOne_get_of_ne hne).trans h.get
  server := h.server
  citizens := h.citizens.trans (Polity.sweepOne_citizenCount _).symm
  now := h.now.trans Polity.sweepOne_now.symm

theorem OnTurn.closes (h : OnTurn σ c p) : Moves c (c.closeIfDue σ p) := by
  unfold Polity.closeIfDue
  split
  next hdue =>
    rw [h.now] at hdue
    exact .single (.close h.get h.server h.citizens h.now hdue)
  next => exact .refl

theorem OnTurn.moves (h : OnTurn σ c p) : Moves c (c.sweepOne σ p) := by
  refine h.closes.trans ?_
  rw [Polity.sweepOne]
  by_cases hdue : (c.closed σ p).applyDue σ.now = true
  · rw [h.now, ← Polity.closeIfDue_now (c := c) (σ := σ) (p := p)] at hdue ⊢
    refine .single (.apply ?_ hdue)
    rw [Polity.closed_id, Polity.closeIfDue_get h.get]
  · rw [Polity.applyIfDue, if_neg hdue]

theorem moves_sweep {ps : List Proposal} (hps : ps.Pairwise (fun p q => p.id ≠ q.id))
    (h : ∀ p ∈ ps, OnTurn σ c p) : Moves c (c.sweep σ ps) := by
  induction ps generalizing c with
  | nil => exact .refl
  | cons p ps ih =>
    obtain ⟨hp, hps⟩ := List.pairwise_cons.1 hps
    refine (h p List.mem_cons_self).moves.trans (ih hps ?_)
    intro q hq
    exact (h q (List.mem_cons_of_mem _ hq)).sweepOne (hp q hq).symm

end Turn

section Resolve

variable (c : Polity)

theorem Polity.listForServer_pairwise (sid : ServerId) :
    (c.listForServer sid).Pairwise (fun p q => p.id ≠ q.id) :=
  (c.proposals.sorted.imp (fun h => h.ne)).filter _

/-- Every listed proposal is on turn when the sweep starts. -/
theorem Polity.session_onTurn (server : Server) {p : Proposal}
    (hp : p ∈ c.listForServer server.id) : OnTurn (c.session server) c p := by
  obtain ⟨hmem, hserver⟩ := List.mem_filter.1 hp
  have hserver : p.serverId = server.id := by simpa using hserver
  exact ⟨Table.mem_iff.1 hmem, hserver.symm, by rw [hserver]; rfl, rfl⟩

theorem moves_resolveDue (serverSlug : String) : Moves c (c.resolveDue serverSlug) := by
  unfold Polity.resolveDue
  split
  next => exact .refl
  next server _ =>
    exact moves_sweep (c.listForServer_pairwise server.id) (fun _ hp => c.session_onTurn server hp)

end Resolve

end Democrachat
