import Democrachat.Polity.Moves
import Democrachat.Polity.Reactions
import Democrachat.Polity.Silent
import Democrachat.System.Chat
import Democrachat.System.Ops

/-!
# Requests as moves

Every request, run alone, is a sequence of moves of the polity, except for the
two that let somebody into the franchise: those are `Founds` and `Admits`.
-/

namespace Democrachat

open Library Req

section Lookups

variable {w : World}

theorem servers_get_of_findBySlug {slug : String} {g : Server}
    (h : w.store.findBySlug slug = some g) : w.polity.servers.get g.id = some g :=
  Table.mem_iff.1 (List.mem_of_find?_eq_some h)

theorem servers_get_of_getServer {id : ServerId} {g : Server}
    (h : w.store.getServer id = some g) : w.polity.servers.get g.id = some g := by
  have hid : g.id = id := Table.key_of_get h
  rw [hid]
  exact h

theorem channels_get_of_findByName {sid : ServerId} {name : String} {x : Channel}
    (h : w.store.findByName sid name = some x) : w.polity.channels.get x.id = some x :=
  Table.mem_iff.1 (List.mem_of_find?_eq_some h)

theorem roster_get_of_getMembership {user : UserId} {sid : ServerId} {m : Membership}
    (h : w.store.getMembership user sid = some m) : w.polity.roster.get m.key = some m := by
  have hkey : m.key = toLex (user, sid) := Table.key_of_get h
  rw [hkey]
  exact h

end Lookups

section Moves

variable (w : World)

/-! ## Memberships -/

/-- The rows that `joinServer` finds for somebody who is not a member yet. -/
structure Joins (w : World) (handle serverSlug : String) (user : User) (server : Server) :
    Prop where
  userFound : w.store.findByHandle (trim handle) = some user
  serverFound : w.store.findBySlug (trim serverSlug) = some server
  newcomer : w.store.getMembership user.id server.id = none

theorem joinServer_cases (handle serverSlug : String) :
    ((joinServer handle serverSlug).exec w).2 = w ∨
    ∃ user server, Joins w handle serverSlug user server ∧
      ((joinServer handle serverSlug).exec w).2 =
        w.mapStore (·.upsertMembership (.joined user.id server.id w.now)) := by
  simp only [joinServer, req_ask_bind, exec_okOr_bind, exec_ensure_bind, req_clockNow_bind,
    req_write_bind, exec_pure]
  split
  next user huser =>
    split
    next server hserver =>
      split
      next hnone =>
        rw [Option.isNone_iff_eq_none] at hnone
        exact .inr ⟨user, server, ⟨huser, hserver, hnone⟩, rfl⟩
      next => exact .inl rfl
    next => exact .inl rfl
  next => exact .inl rfl

/-- The rows that `acceptInvite` finds for somebody who is not a member yet: the invite of the
code presented is live, and its server is open to invites. -/
structure Redeems (services : Services) (w : World) (handle code : String) (user : User)
    (invite : Invite) (server : Server) : Prop where
  userFound : w.store.findByHandle (trim handle) = some user
  inviteFound : w.store.inviteByHash (services.hashCode code) = some invite
  live : invite.isLive = true
  serverFound : w.store.getServer invite.serverId = some server
  isOpen : server.allowsMemberInvites = true
  newcomer : w.store.getMembership user.id server.id = none

theorem acceptInvite_cases (services : Services) (handle code : String) :
    ((services.acceptInvite handle code).exec w).2 = w ∨
    ∃ user invite server, Redeems services w handle code user invite server ∧
      ((services.acceptInvite handle code).exec w).2 =
        w.mapStore (·.upsertMembership (.joined user.id server.id w.now)) := by
  simp only [Services.acceptInvite, req_ask_bind, exec_okOr_bind, exec_ensure_bind,
    req_clockNow_bind, req_write_bind, exec_pure]
  split
  next user huser =>
    split
    next invite hinvite =>
      obtain ⟨hfound, hlive⟩ := Option.filter_eq_some_iff.1 hinvite
      split
      next server hserver =>
        split
        next hopen =>
          split
          next hnone =>
            rw [Option.isNone_iff_eq_none] at hnone
            exact .inr ⟨user, invite, server, ⟨huser, hfound, hlive, hserver, hopen, hnone⟩, rfl⟩
          next => exact .inl rfl
        next => exact .inl rfl
      next => exact .inl rfl
    next => exact .inl rfl
  next => exact .inl rfl

theorem ordinarily_joinServer (handle serverSlug : String) :
    Ordinarily w.polity ((joinServer handle serverSlug).exec w).2.polity := by
  rcases joinServer_cases w handle serverSlug with hsame | ⟨user, server, hjoins, hadded⟩
  · rw [hsame]
  · rw [hadded]
    exact .single (.enrol (servers_get_of_findBySlug hjoins.serverFound) hjoins.newcomer)

theorem ordinarily_acceptInvite (services : Services) (handle code : String) :
    Ordinarily w.polity ((services.acceptInvite handle code).exec w).2.polity := by
  rcases acceptInvite_cases w services handle code with
    hsame | ⟨user, invite, server, hredeems, hadded⟩
  · rw [hsame]
  · rw [hadded]
    exact .single (.enrol (servers_get_of_getServer hredeems.serverFound) hredeems.newcomer)

/-- What a request that sets a member's contribution does. -/
inductive Credited (c : Polity) : Polity → Prop
  | none : Credited c c
  | some {m : Membership} (contribution : Int) : c.roster.get m.key = some m →
      Credited c { c with roster := c.roster.insert { m with contribution := contribution } }

theorem credited_setContribution (handle serverSlug : String) (contribution : Int) :
    Credited w.polity ((setContribution handle serverSlug contribution).exec w).2.polity := by
  simp only [setContribution, req_ask_bind, exec_okOr_bind, exec_liftM, exec_write]
  split
  next user _ =>
    split
    next server _ =>
      split
      next m hm => exact .some contribution (roster_get_of_getMembership hm)
      next => exact .none
    next => exact .none
  next => exact .none

theorem setHistorySharing_cases (handle serverSlug : String) (shares : Bool) :
    ((setHistorySharing handle serverSlug shares).exec w).2 = w ∨
    ∃ m, w.polity.roster.get m.key = some m ∧
      ((setHistorySharing handle serverSlug shares).exec w).2 =
        w.mapStore (·.upsertMembership { m with sharesHistoryWithNewcomers := shares }) := by
  simp only [setHistorySharing, req_ask_bind, exec_okOr_bind, exec_liftM, exec_write]
  split
  next user _ =>
    split
    next server _ =>
      split
      next m hm => exact .inr ⟨m, roster_get_of_getMembership hm, rfl⟩
      next => exact .inl rfl
    next => exact .inl rfl
  next => exact .inl rfl

theorem routinely_setHistorySharing (handle serverSlug : String) (shares : Bool) :
    Routinely w.polity ((setHistorySharing handle serverSlug shares).exec w).2.polity := by
  rcases setHistorySharing_cases w handle serverSlug shares with hsame | ⟨m, hm, hwritten⟩
  · rw [hsame]
  · rw [hwritten]
    exact .edit hm ⟨rfl, rfl, rfl, rfl, rfl, fun h => h⟩ rfl rfl

theorem credited_adjust (c : Polity) (message : Message) (delta : Int) :
    Credited c (c.adjust message delta) := by
  unfold Polity.adjust Polity.editMembership
  split
  next m hm =>
    have hkey : m.key = toLex (message.author, message.serverId) := Table.key_of_get hm
    have hget : c.roster.get m.key = some m := by
      rw [hkey]
      exact hm
    exact .some _ hget
  next => exact .none

/-! ## Channels and messages -/

/-- The rows that `createChannel` finds for a founder who may still provision the server, and
the name is free there. -/
structure Provisions (w : World) (founderHandle serverSlug name : String) (server : Server) :
    Prop where
  byFounder : ∃ user, w.store.findByHandle (trim founderHandle) = some user ∧
    user.id = server.founderId
  serverFound : w.store.findBySlug (trim serverSlug) = some server
  provisional : (Phase.fromCitizenCount (w.store.citizenCount server.id)).founderMayProvision = true
  named : (normalizeChannelName name).isEmpty = false
  free : w.store.findByName server.id (normalizeChannelName name) = none

theorem createChannel_cases (founderHandle serverSlug name topic : String) :
    ((createChannel founderHandle serverSlug name topic).exec w).2 = w ∨
    ∃ server, Provisions w founderHandle serverSlug name server ∧
      ((createChannel founderHandle serverSlug name topic).exec w).2 =
        (w.mapStore (·.nextChannelId.2)).mapStore (·.insertChannel
          (.new w.store.nextChannelId.1 server.id (normalizeChannelName name) (trim topic)
            w.now)) := by
  simp only [createChannel, req_ask_bind, exec_okOr_bind, exec_ensure_bind, req_clockNow_bind,
    req_write_bind, req_transact_bind, exec_pure]
  split
  next user huser =>
    split
    next server hserver =>
      split
      next hmay =>
        split
        next hnamed =>
          split
          next hfree =>
            rw [Bool.and_eq_true, beq_iff_eq] at hmay
            rw [Option.isNone_iff_eq_none] at hfree
            exact .inr ⟨server, ⟨⟨user, huser, hmay.2⟩, hserver, hmay.1, by simpa using hnamed, hfree⟩,
              rfl⟩
          next => exact .inl rfl
        next => exact .inl rfl
      next => exact .inl rfl
    next => exact .inl rfl
  next => exact .inl rfl

theorem routinely_createChannel (founderHandle serverSlug name topic : String) :
    Routinely w.polity ((createChannel founderHandle serverSlug name topic).exec w).2.polity := by
  rcases createChannel_cases w founderHandle serverSlug name topic with
    hsame | ⟨server, hprovisions, hadded⟩
  · rw [hsame]
  · rw [hadded]
    exact .single (.addChannel _ _ (servers_get_of_findBySlug hprovisions.serverFound)
      hprovisions.free) rfl

theorem routinely_insertMessage {channel : Channel}
    (h : w.polity.channels.get channel.id = some channel) (author : UserId) (body : String)
    (parent : Option MessageId) (attachments : List Attachment) :
    Routinely w.polity ((insertMessage author channel body parent attachments).exec w).2.polity := by
  rcases insertMessage_cases w author channel body parent attachments with
    ⟨e, herror⟩ | ⟨-, hexec⟩
  · rw [herror]
  · rw [hexec]
    exact .single (.post h rfl) rfl

/-- A request that first resolves its poster moves as its rest does. -/
theorem routinely_resolvePoster {handle serverSlug channelName : String}
    {k : Channel × UserId → Req World MessageError Message}
    (h : ∀ channel author, w.polity.channels.get channel.id = some channel →
      Routinely w.polity ((k (channel, author)).exec w).2.polity) :
    Routinely w.polity ((resolvePoster handle serverSlug channelName >>= k).exec w).2.polity := by
  rw [exec_bind]
  rcases resolvePoster_cases w handle serverSlug channelName with
    ⟨e, herror⟩ | ⟨channel, author, hmay, hexec⟩
  · rw [herror]
  · rw [hexec]
    exact h channel author hmay.channelFound

theorem routinely_postMessage (handle serverSlug channelName body : String) :
    Routinely w.polity ((postMessage handle serverSlug channelName body).exec w).2.polity :=
  routinely_resolvePoster w (fun _ _ h => routinely_insertMessage w h _ _ _ _)

theorem routinely_postMessageWithAttachments (handle serverSlug channelName body : String)
    (attachments : List Attachment) :
    Routinely w.polity ((postMessageWithAttachments handle serverSlug channelName body
      attachments).exec w).2.polity :=
  routinely_resolvePoster w (fun _ _ h => routinely_insertMessage w h _ _ _ _)

theorem routinely_postSealedMessage (handle serverSlug channelName ciphertext : String)
    (keyEpoch : Nat) (parent : Option MessageId) :
    Routinely w.polity ((postSealedMessage handle serverSlug channelName ciphertext keyEpoch
      parent).exec w).2.polity := by
  rcases postSealedMessage_cases w handle serverSlug channelName ciphertext keyEpoch parent with
    ⟨e, herror⟩ | ⟨author, channel, parent', hmay, -, -, hexec⟩
  · rw [herror]
  · rw [hexec]
    exact .single (.post hmay.channelFound rfl) rfl

theorem routinely_replyMessage (handle : String) (parentId : MessageId) (body : String) :
    Routinely w.polity ((replyMessage handle parentId body).exec w).2.polity := by
  rcases replyMessage_cases w handle parentId body with
    ⟨e, herror⟩ | ⟨parent, channel, user, hreplies, hexec⟩
  · rw [herror]
  · rw [hexec]
    exact routinely_insertMessage w hreplies.channel_get user.id body (some parent.id) []

theorem routinely_editMessage (handle : String) (messageId : MessageId) (body : String) :
    Routinely w.polity ((editMessage handle messageId body).exec w).2.polity := by
  rcases editMessage_cases w handle messageId body with ⟨e, herror⟩ | ⟨m, hauthors, hbody⟩
  · rw [herror]
  · rw [exec_editMessage hauthors hbody]
    exact .single (.rewrite hauthors.get_self rfl rfl rfl rfl) rfl

theorem polity_dropBlobs (as : List Attachment) : (w.dropBlobs as).polity = w.polity := by
  induction as generalizing w with
  | nil => rfl
  | cons a as ih => exact (ih (w.mapStore (·.deleteMedia a.key))).trans (polity_deleteMedia w a.key)

theorem routinely_deleteMessage (handle : String) (messageId : MessageId) :
    Routinely w.polity ((deleteMessage handle messageId).exec w).2.polity := by
  rcases deleteMessage_cases w handle messageId with ⟨e, herror⟩ | ⟨m, hauthors⟩
  · rw [herror]
  · rw [exec_deleteMessage hauthors, polity_updateMessage, polity_dropBlobs]
    exact .single (.rewrite hauthors.get_self rfl rfl rfl rfl) rfl

/-! ## Reactions -/

theorem credited_react (handle : String) (messageId : MessageId) (emoji : String) :
    Credited w.polity ((react handle messageId emoji).exec w).2.polity := by
  rcases react_cases w handle messageId emoji with hsame | ⟨user, message, -, hreacted⟩
  · rw [hsame]
    exact .none
  · rw [hreacted.polity]
    split
    · exact credited_adjust w.polity message 1
    · exact .none

theorem credited_unreact (handle : String) (messageId : MessageId) (emoji : String) :
    Credited w.polity ((unreact handle messageId emoji).exec w).2.polity := by
  rcases unreact_cases w handle messageId emoji with
    ⟨hsame, -⟩ | ⟨user, message, -, -, -, hunreacted⟩
  · rw [hsame]
    exact .none
  · rw [hunreacted.polity]
    split
    · exact credited_adjust w.polity message (-1)
    · exact .none

/-! ## Ballots -/

theorem routinely_openProposal (proposerHandle serverSlug : String) (kind : ProposalKind) :
    Routinely w.polity ((openProposal proposerHandle serverSlug kind).exec w).2.polity := by
  simp only [openProposal, req_ask_bind, exec_okOr_bind, exec_ensure_bind, req_clockNow_bind,
    req_transact_bind, req_write_bind, exec_pure]
  split
  next user _ =>
    split
    next server hserver =>
      split
      next =>
        split
        next =>
          split
          next => exact .single (.propose user.id kind (servers_get_of_findBySlug hserver)) rfl
          next => exact .refl
        next => exact .refl
      next => exact .refl
    next => exact .refl
  next => exact .refl

/-- What a request that casts a ballot does. -/
inductive Voted (c : Polity) : Polity → Prop
  | none : Voted c c
  | some {v : Vote} {p : Proposal} : c.proposals.get v.proposalId = some p → p.status = .open_ →
      (c.elector p.serverId v.voter).isSome → Voted c { c with votes := recordVote c.votes v }

theorem voted_castVoteAs (voterId : UserId) (proposalId : ProposalId) (isAye : Bool) :
    Voted w.polity ((castVoteAs voterId proposalId isAye).exec w).2.polity := by
  simp only [castVoteAs, req_ask_bind, exec_okOr_bind, exec_ensure_bind, exec_liftM, exec_write]
  split
  next p hp =>
    split
    next hopen =>
      split
      next hvoter =>
        have hid : p.id = proposalId := Table.key_of_get hp
        have helector : (w.polity.elector p.serverId voterId).isSome = true := by
          rw [Polity.elector, Option.isSome_filter]
          exact hvoter
        rw [← hid] at hp
        exact .some hp (by simpa using hopen) helector
      next => exact .none
    next => exact .none
  next => exact .none

theorem voted_castVote (voterHandle : String) (proposalId : ProposalId) (isAye : Bool) :
    Voted w.polity ((castVote voterHandle proposalId isAye).exec w).2.polity := by
  simp only [castVote, req_ask_bind, exec_okOr_bind]
  split
  next user _ => exact voted_castVoteAs w user.id proposalId isAye
  next => exact .none

theorem voted_castVoteById (voterId : UserId) (proposalId : ProposalId) (isAye : Bool) :
    Voted w.polity ((castVoteById voterId proposalId isAye).exec w).2.polity := by
  simp only [castVoteById, req_ask_bind, exec_okOr_bind]
  split
  next user _ => exact voted_castVoteAs w user.id proposalId isAye
  next => exact .none

/-! ## The two ways into the franchise -/

/-- A new server whose founder is its first citizen. -/
def Polity.found (c : Polity) (slug name : String) (founder : UserId) (isPrivate : Bool) :
    Polity :=
  let id := composeId c.node (c.nextServer + 1)
  { c with
    nextServer := c.nextServer + 1
    servers := c.servers.insert
      { Server.new id slug name founder c.now with isPrivate := isPrivate }
    roster := c.roster.insert ((Membership.joined founder id c.now).admittedAt c.now) }

/-- `foundServerWithVisibility` succeeded for this user, who was not barred. -/
structure Founds (w : World) (founderHandle name : String) (founder : User) : Prop where
  userFound : w.store.findByHandle (trim founderHandle) = some founder
  notBarred : founder.isFranchiseBarred = false
  named : (slugify name).isEmpty = false
  free : w.polity.findBySlug (slugify name) = none

theorem foundServer_cases (founderHandle name : String) (isPrivate : Bool) :
    ((∃ e, ((foundServerWithVisibility founderHandle name isPrivate).exec w).1 = .error e) ∧
      ((foundServerWithVisibility founderHandle name isPrivate).exec w).2.polity = w.polity) ∨
    ∃ founder, Founds w founderHandle name founder ∧
      (∃ g, ((foundServerWithVisibility founderHandle name isPrivate).exec w).1 = .ok g ∧
        g.id = composeId w.polity.node (w.polity.nextServer + 1)) ∧
      ((foundServerWithVisibility founderHandle name isPrivate).exec w).2.polity =
        w.polity.found (slugify name) (trim name) founder.id isPrivate := by
  simp only [foundServerWithVisibility, req_ask_bind, exec_okOr_bind, exec_ensure_bind,
    req_clockNow_bind, req_transact_bind, req_write_bind, exec_pure]
  split
  next founder hfounder =>
    split
    next hbarred =>
      split
      next hnamed =>
        split
        next hfree =>
          refine .inr ⟨founder, ⟨hfounder, by simpa using hbarred, by simpa using hnamed, ?_⟩,
            ⟨_, rfl, rfl⟩, rfl⟩
          exact Option.isNone_iff_eq_none.1 hfree
        next => exact .inl ⟨⟨_, rfl⟩, rfl⟩
      next => exact .inl ⟨⟨_, rfl⟩, rfl⟩
    next => exact .inl ⟨⟨_, rfl⟩, rfl⟩
  next => exact .inl ⟨⟨_, rfl⟩, rfl⟩

/-- The rows `tryEnfranchise` reads for a member who is not a citizen yet and
meets every criterion. -/
structure Contends (w : World) (handle serverSlug : String) (user : User) (server : Server)
    (m : Membership) : Prop where
  userFound : w.store.findByHandle (trim handle) = some user
  serverFound : w.store.findBySlug (trim serverSlug) = some server
  memberFound : w.store.getMembership user.id server.id = some m
  notCitizen : m.isCitizen = false
  eligible : (evaluateEligibility user m server.criteria w.now).unmet = []

/-- And a slot is open: both layers let the member through. -/
structure Admits (w : World) (handle serverSlug : String) (user : User) (server : Server)
    (m : Membership) : Prop extends Contends w handle serverSlug user server m where
  slots : 1 ≤ enfranchisementSlots (w.store.citizenCount server.id)
    (w.store.admittedSince server.id (windowStart w.now))

theorem tryEnfranchise_cases (handle serverSlug : String) :
    (((tryEnfranchise handle serverSlug).exec w).1 ≠ .ok .admitted ∧
      ((tryEnfranchise handle serverSlug).exec w).2 = w) ∨
    ∃ user server m, Admits w handle serverSlug user server m ∧
      (tryEnfranchise handle serverSlug).exec w =
        (.ok .admitted, w.mapStore (·.upsertMembership (m.admittedAt w.now))) := by
  simp only [tryEnfranchise, req_ask_bind, exec_okOr_bind, exec_ensure_bind, req_clockNow_bind,
    req_write_bind, exec_ite, exec_pure]
  split
  next user huser =>
    split
    next server hserver =>
      split
      next m hm =>
        split
        next hcitizen =>
          split
          next => exact .inl ⟨by simp, rfl⟩
          next heligible =>
            split
            next => exact .inl ⟨by simp, rfl⟩
            next hslots =>
              refine .inr ⟨user, server, m, ⟨⟨huser, hserver, hm, by simpa using hcitizen, ?_⟩,
                Nat.one_le_iff_ne_zero.2 hslots⟩, rfl⟩
              simpa [Eligibility.isEligible, List.isEmpty_iff] using heligible
        next => exact .inl ⟨by simp, rfl⟩
      next => exact .inl ⟨by simp, rfl⟩
    next => exact .inl ⟨by simp, rfl⟩
  next => exact .inl ⟨by simp, rfl⟩

end Moves

/-! ## All requests -/

/-- The requests that make ordinary moves. -/
def Op.isOrdinary : Op → Bool
  | .setClock _ | .foundServer .. | .tryEnfranchise .. | .setContribution .. | .react .. | .unreact ..
  | .castVote .. | .castVoteById .. | .resolveDue _ | .listProposals _ => false
  | _ => true

/-- The requests that bring in nobody, whatever else they do. -/
def Op.isRoutine : Op → Bool
  | .joinServer .. | .acceptInvite .. => false
  | op => op.isOrdinary

def Op.isCredit : Op → Bool
  | .setContribution .. | .react .. | .unreact .. => true
  | _ => false

def Op.isBallot : Op → Bool
  | .castVote .. | .castVoteById .. => true
  | _ => false

/-- The server whose due proposals an operation resolves. -/
def Op.resolves? : Op → Option String
  | .resolveDue serverSlug | .listProposals serverSlug => some serverSlug
  | _ => none

/-- What each operation does to the polity. -/
inductive Acts (w : World) : Op → Polity → Prop
  | clock (now : Timestamp) : Acts w (.setClock now) { w.polity with now := now }
  | ordinary {op : Op} {c : Polity} : op.isOrdinary = true → Ordinarily w.polity c → Acts w op c
  | credited {op : Op} {c : Polity} : op.isCredit = true → Credited w.polity c → Acts w op c
  | voted {op : Op} {c : Polity} : op.isBallot = true → Voted w.polity c → Acts w op c
  | resolved {op : Op} {serverSlug : String} : op.resolves? = some serverSlug →
      Acts w op (w.polity.resolveDue serverSlug)
  | notFounded {founderHandle name : String} {isPrivate : Bool} :
      Acts w (.foundServer founderHandle name isPrivate) w.polity
  | founded {founderHandle name : String} {isPrivate : Bool} {founder : User} {g : Server} :
      Founds w founderHandle name founder →
      ((foundServerWithVisibility founderHandle name isPrivate).exec w).1 = .ok g →
      g.id = composeId w.polity.node (w.polity.nextServer + 1) →
      Acts w (.foundServer founderHandle name isPrivate)
        (w.polity.found (slugify name) (trim name) founder.id isPrivate)
  | notAdmitted {handle serverSlug : String} : Acts w (.tryEnfranchise handle serverSlug) w.polity
  | admitted {handle serverSlug : String} {user : User} {server : Server} {m : Membership} :
      Admits w handle serverSlug user server m →
      ((tryEnfranchise handle serverSlug).exec w).1 = .ok .admitted →
      Acts w (.tryEnfranchise handle serverSlug)
        { w.polity with roster := w.polity.roster.insert (m.admittedAt w.now) }

/-- A routine request of a member, or one that the polity does not see. -/
theorem Services.routinely (services : Services) (w : World) {op : Op}
    (hop : op.isRoutine = true) : Routinely w.polity (services.step w op).polity := by
  have silent : ∀ {ε α : Type} {r : Req World ε α}, Silent r →
      Routinely w.polity (r.exec w).2.polity := by
    intro ε α r hr
    rw [hr.exec w]
  cases op with
  | registerAccount handle => exact silent (silent_registerAccount handle)
  | registerWithPassword drawn handle email password =>
    exact silent (silent_registerWithPassword services drawn handle email password)
  | verifyEmail rawToken => exact silent (silent_verifyEmail services rawToken)
  | issueResend drawn handle => exact silent (silent_issueResend services drawn handle)
  | setPassword drawn handle password => exact silent (silent_setPassword drawn handle password)
  | createInvite code handle serverSlug =>
    exact silent (silent_createInvite services code handle serverSlug)
  | revokeInvite handle serverSlug codeHash =>
    exact silent (silent_revokeInvite handle serverSlug codeHash)
  | createChannel founderHandle serverSlug name topic =>
    exact routinely_createChannel w founderHandle serverSlug name topic
  | postMessage handle serverSlug channelName body =>
    exact routinely_postMessage w handle serverSlug channelName body
  | postMessageWithAttachments handle serverSlug channelName body attachments =>
    exact routinely_postMessageWithAttachments w handle serverSlug channelName body attachments
  | postSealedMessage handle serverSlug channelName ciphertext keyEpoch parent =>
    exact routinely_postSealedMessage w handle serverSlug channelName ciphertext keyEpoch parent
  | replyMessage handle parentId body => exact routinely_replyMessage w handle parentId body
  | editMessage handle messageId body => exact routinely_editMessage w handle messageId body
  | deleteMessage handle messageId => exact routinely_deleteMessage w handle messageId
  | storeMedia nanos contentType bytes => exact silent (silent_storeMedia nanos contentType bytes)
  | setHistorySharing handle serverSlug shares =>
    exact routinely_setHistorySharing w handle serverSlug shares
  | openProposal proposerHandle serverSlug kind =>
    exact routinely_openProposal w proposerHandle serverSlug kind
  | _ => cases hop

/-- Every operation does one of these. -/
theorem Services.acts (services : Services) (w : World) (op : Op) :
    Acts w op (services.step w op).polity := by
  cases op with
  | setClock now => exact .clock now
  | foundServer founderHandle name isPrivate =>
    obtain ⟨-, hsame⟩ | ⟨founder, hfounds, ⟨g, hg, hid⟩, hpolity⟩ :=
      foundServer_cases w founderHandle name isPrivate
    · exact hsame.symm ▸ .notFounded
    · exact hpolity.symm ▸ .founded hfounds hg hid
  | acceptInvite handle code => exact .ordinary rfl (ordinarily_acceptInvite w services handle code)
  | joinServer handle serverSlug => exact .ordinary rfl (ordinarily_joinServer w handle serverSlug)
  | tryEnfranchise handle serverSlug =>
    obtain ⟨-, hsame⟩ | ⟨user, server, m, hadmits, hexec⟩ :=
      tryEnfranchise_cases w handle serverSlug
    · have hpolity := congrArg World.polity hsame
      exact hpolity.symm ▸ .notAdmitted
    · have hpolity := congrArg (fun r => r.2.polity) hexec
      exact hpolity.symm ▸ .admitted hadmits (congrArg Prod.fst hexec)
  | setContribution handle serverSlug contribution =>
    exact .credited rfl (credited_setContribution w handle serverSlug contribution)
  | react handle messageId emoji => exact .credited rfl (credited_react w handle messageId emoji)
  | unreact handle messageId emoji => exact .credited rfl (credited_unreact w handle messageId emoji)
  | castVote voterHandle proposalId isAye =>
    exact .voted rfl (voted_castVote w voterHandle proposalId isAye)
  | castVoteById voterId proposalId isAye =>
    exact .voted rfl (voted_castVoteById w voterId proposalId isAye)
  | resolveDue serverSlug =>
    exact (polity_resolveDue w serverSlug).symm ▸ .resolved rfl
  | listProposals serverSlug =>
    exact (polity_listProposals w serverSlug).symm ▸ .resolved rfl
  | _ => exact .ordinary rfl (services.routinely w rfl).ordinarily

/-- What one operation can do to the polity. -/
inductive Stepped (w : World) : Op → Polity → Prop
  | clock (now : Timestamp) : Stepped w (.setClock now) { w.polity with now := now }
  | moves {op : Op} {c : Polity} : op.clock? = none → Moves w.polity c → Stepped w op c
  | founded {founderHandle name : String} {isPrivate : Bool} {founder : User} {g : Server} :
      Founds w founderHandle name founder →
      ((foundServerWithVisibility founderHandle name isPrivate).exec w).1 = .ok g →
      g.id = composeId w.polity.node (w.polity.nextServer + 1) →
      Stepped w (.foundServer founderHandle name isPrivate)
        (w.polity.found (slugify name) (trim name) founder.id isPrivate)
  | admitted {handle serverSlug : String} {user : User} {server : Server} {m : Membership} :
      Admits w handle serverSlug user server m →
      ((tryEnfranchise handle serverSlug).exec w).1 = .ok .admitted →
      Stepped w (.tryEnfranchise handle serverSlug)
        { w.polity with roster := w.polity.roster.insert (m.admittedAt w.now) }

theorem Credited.moves {c c' : Polity} (h : Credited c c') : Moves c c' := by
  cases h with
  | none => exact .refl
  | some contribution hm => exact .single (.edit hm ⟨rfl, rfl, rfl, rfl, rfl, fun h => h⟩)

theorem Voted.moves {c c' : Polity} (h : Voted c c') : Moves c c' := by
  cases h with
  | none => exact .refl
  | some hp hopen hvoter => exact .single (.vote hp hopen hvoter)

theorem Acts.stepped {w : World} {op : Op} {c : Polity} (h : Acts w op c) : Stepped w op c := by
  have hclock : ∀ {op : Op}, (∀ now, op ≠ .setClock now) → op.clock? = none := by
    intro op hop
    cases op with
    | setClock now => exact absurd rfl (hop now)
    | _ => rfl
  cases h with
  | clock now => exact .clock now
  | ordinary hop h => exact .moves (hclock (by rintro _ rfl; cases hop)) h.moves
  | credited hop h => exact .moves (hclock (by rintro _ rfl; cases hop)) h.moves
  | voted hop h => exact .moves (hclock (by rintro _ rfl; cases hop)) h.moves
  | resolved hop => exact .moves (hclock (by rintro _ rfl; cases hop)) (moves_resolveDue _ _)
  | notFounded => exact .moves rfl .refl
  | founded hfounds hg hid => exact .founded hfounds hg hid
  | notAdmitted => exact .moves rfl .refl
  | admitted hadmits hresult => exact .admitted hadmits hresult

theorem Services.stepped (services : Services) (w : World) (op : Op) :
    Stepped w op (services.step w op).polity :=
  (services.acts w op).stepped

/-- Only the clock moves the clock. -/
theorem Services.step_now (services : Services) (w : World) (op : Op) :
    (services.step w op).now = op.clock?.getD w.now := by
  have hstepped := services.stepped w op
  change (services.step w op).polity.now = _
  generalize (services.step w op).polity = c at hstepped ⊢
  cases hstepped with
  | clock now => rfl
  | moves hop h =>
    rw [hop, h.now]
    rfl
  | founded => rfl
  | admitted => rfl

theorem Moves.keep {I : Polity → Prop} (hmove : ∀ c c', I c → Move c c' → I c') {c c' : Polity}
    (h : Moves c c') (hc : I c) : I c' := by
  induction h with
  | refl => exact hc
  | tail _ hstep ih => exact hmove _ _ ih hstep

/-- A property of the polity that clock moves, requests and the two ways into
the franchise keep holds of every reachable world. -/
theorem Services.Reachable.polity_invariant {services : Services} {I : Polity → Prop}
    (hempty : ∀ node now, I (World.empty node now).polity)
    (hclock : ∀ (c : Polity) now, I c → I { c with now := now })
    (hmove : ∀ c c', I c → Move c c' → I c')
    (hfound : ∀ (c : Polity) slug name founder isPrivate, I c →
      I (c.found slug name founder isPrivate))
    (hadmission : ∀ (c : Polity) m, I c → c.roster.get m.key = some m → m.isCitizen = false →
      I { c with roster := c.roster.insert (m.admittedAt c.now) })
    {w : World} (hw : services.Reachable w) : I w.polity := by
  suffices hstep : ∀ w op, I w.polity → I (services.step w op).polity by
    have hinv := hw.invariant (fun node now => hempty node now) hstep
    exact hinv
  intro w op hI
  have hstepped := services.stepped w op
  generalize (services.step w op).polity = c at hstepped ⊢
  cases hstepped with
  | clock now => exact hclock _ now hI
  | moves _ h => exact h.keep hmove hI
  | founded => exact hfound _ _ _ _ _ hI
  | @admitted _ _ _ _ m h =>
    exact hadmission _ m hI (roster_get_of_getMembership h.memberFound) h.notCitizen

end Democrachat
