import Democrachat.App.Governance
import Democrachat.App.Social
import Democrachat.Federation.Replica
import Democrachat.Federation.ReplayGuard

/-!
# Commands that are forwarded

`adapter-federation/src/command` (`command.rs`, `target_scope.rs`, `signed_command.rs`,
`signing_payload.rs`, `verify_signed.rs`, `execute.rs`), the executor of
`democrachat/src/command_executor.rs`, and the statuses of `http/command_router.rs`
and `http/command_client.rs`.
-/

namespace Democrachat.Federation

open Library Req

/-- A write that a node wants applied to a scope which it need not own. -/
inductive Command where
  | castVote (proposal : ProposalId) (voter : UserId) (aye : Bool)
  | sendDm (sender recipient : UserId) (sealedForRecipient sealedForSender : String)
  | block (blocker blocked : UserId)
  | requestFriend (requester addressee : UserId)
  | acceptFriend (accepter requester : UserId)
deriving DecidableEq

/-- `serde_json` between a command and its canonical text. -/
structure CommandText where
  render : Command → String
  parse : String → Option Command

namespace Command

/-- The scopes a command's write belongs to. -/
def targetScopes (resolver : ScopeResolver) : Command → List OwnedScope
  | castVote proposal _ _ => ((resolver.proposalServer proposal).map .server).toList
  | sendDm sender _ _ _ => [.userHome sender]
  | block blocker blocked => [.userHome blocker, .userHome blocked]
  | requestFriend requester addressee => [.userHome requester, .userHome addressee]
  | acceptFriend accepter requester => [.userHome accepter, .userHome requester]

/-- The user in whose name the command acts. -/
def actor : Command → UserId
  | castVote _ voter _ => voter
  | sendDm sender _ _ _ => sender
  | block blocker _ => blocker
  | requestFriend requester _ => requester
  | acceptFriend accepter _ => accepter

end Command

/-- `result.map_err(|e| ForwardError::Rejected(e.to_string()))`. -/
def rejecting {ε α : Type} (display : ε → String) (r : Req World ε α) :
    Req World ForwardError Unit where
  run := do
    match ← r.run with
    | .ok _ => return .ok ()
    | .error e => return .error (.rejected (display e))

/-- `ServiceCommandExecutor::execute`; saving leaves the store as it is. -/
def Command.run : Command → Req World ForwardError Unit
  | castVote proposal voter aye => rejecting VoteError.display (castVoteById voter proposal aye)
  | sendDm sender recipient sealedForRecipient sealedForSender =>
    rejecting DmError.display (sendSealedDmById sender recipient sealedForRecipient sealedForSender)
  | block blocker blocked => rejecting SocialError.display (blockUserById blocker blocked)
  | requestFriend requester addressee =>
    rejecting SocialError.display (requestFriendById requester addressee)
  | acceptFriend accepter requester =>
    rejecting SocialError.display (acceptFriendById accepter requester)

/-! ## Signing -/

structure SignedCommand where
  node : NodeId
  body : String
  issuedAt : Int64
  nonce : String
  signature : String
deriving DecidableEq

/-- The text that a forwarded command is signed over. -/
def signingPayload (node : NodeId) (issuedAt : Int64) (nonce body : String) : String :=
  "democrachat:cmd:v1\n" ++ toString node.val ++ "\n" ++ toString issuedAt.toInt ++ "\n" ++ nonce ++
    "\n" ++ body

/-- `SignedCommand::sign_at`. -/
def Command.signAt (wire : Wire) (text : CommandText) (keypair : NodeKeypair) (cmd : Command)
    (issuedAt : Int64) (nonce : String) : SignedCommand :=
  let body := text.render cmd
  let payload := signingPayload keypair.node issuedAt nonce body
  ⟨keypair.node, body, issuedAt, nonce, toHex (wire.sign keypair.seed payload)⟩

/-- `fresh_nonce`, of the clock's nanoseconds and of how many nonces the process has made. -/
def freshNonce (base n : Nat) : String := Inner.hex base ++ "-" ++ Inner.hex n

/-- `SignedCommand::sign`. -/
def Command.sign (wire : Wire) (text : CommandText) (keypair : NodeKeypair) (cmd : Command)
    (issuedAt : Int64) (base n : Nat) : SignedCommand :=
  cmd.signAt wire text keypair issuedAt (freshNonce base n)

/-- `NodePublicKey::verify_hex`. -/
def Wire.verifyHex (wire : Wire) (key : NodePublicKey) (payload signature : String) :
    Except FedError Unit := do
  let sig ← fromHex 64 signature "signature"
  if wire.verifyStrict key.verifying payload sig then return () else .error .badSignature

section

variable (wire : Wire) (text : CommandText) (registry : Registry)

def verifySigned (signed : SignedCommand) : Except ForwardError Command :=
  match registry.publicKey signed.node with
  | .error e => .error (.ownerUnreachable e.message)
  | .ok none => .error (.rejected ("unknown forwarding node " ++ toString signed.node.val))
  | .ok (some key) =>
    match wire.verifyHex key (signingPayload signed.node signed.issuedAt signed.nonce signed.body)
        signed.signature with
    | .error _ => .error (.rejected "bad command signature")
    | .ok () =>
      match text.parse signed.body with
      | some cmd => .ok cmd
      | none => .error (.rejected "malformed command body")

/-! ## Executing -/

/-- Every scope is looked up, also after one that the node owns. -/
def ownsAScope (node : NodeId) : List OwnedScope → Except ForwardError Bool
  | [] => .ok false
  | scope :: scopes =>
    match registry.ownerOf scope with
    | .error e => .error (.ownerUnreachable e.message)
    | .ok owner => do
      let rest ← ownsAScope node scopes
      return owner.any (fun o => o.owner = node) || rest

def ownsNone : ForwardError := .rejected "this node owns none of the command's scopes"

/-- `ReplayGuard::admit` over the store's own nonces. -/
def admitSigned (signed : SignedCommand) (now : Int64) : Req World ForwardError Unit := do
  let admitted ← transact (fun s =>
    match admitCommand s.nonces signed.node signed.nonce signed.issuedAt now with
    | (admitted, log) => (admitted, { s with nonces := log }))
  orElse admitted id

/-- Authenticity, then ownership, then freshness and replay, then the use-case. -/
def execute (node : NodeId) (signed : SignedCommand) (now : Int64) :
    Req World ForwardError Unit := do
  let cmd ← orElse (verifySigned wire text registry signed) id
  let scopes ← ask (fun s => cmd.targetScopes (storeResolver s))
  ensure (!scopes.isEmpty) .unowned
  let owns ← orElse (ownsAScope registry node scopes) id
  ensure owns ownsNone
  admitSigned signed now
  cmd.run

end

/-! ## What a command does -/

@[simp] theorem exec_rejecting {ε α : Type} (display : ε → String) (r : Req World ε α) (w : World) :
    (rejecting display r).exec w =
      match r.exec w with
      | (.ok _, t) => (.ok (), t)
      | (.error e, t) => (.error (.rejected (display e)), t) := by
  change Prog.exec (r.run >>= _) w = _
  rw [Prog.exec_bind]
  rcases h : r.exec w with ⟨e | a, t⟩ <;> rw [Req.exec] at h <;> rw [h] <;> rfl

namespace Command

/-- The checks of the use-case let the command through. -/
def accepts (s : Inner) : Command → Bool
  | castVote proposal voter _ =>
    (s.getUser voter).isSome &&
      (s.getProposal proposal).any (fun p =>
        p.status == .open_ && (s.getMembership voter p.serverId).any Membership.isFranchised)
  | sendDm sender recipient sealedForRecipient sealedForSender =>
    (s.getUser sender).isSome && sender != recipient &&
      !((trim sealedForRecipient).isEmpty || (trim sealedForSender).isEmpty) &&
      (s.getUser recipient).any (fun u =>
        canDm sender recipient u.dmPolicy (s.blocksInvolving recipient)
          (s.friendshipsInvolving recipient))
  | block user other | requestFriend user other =>
    (s.getUser user).isSome && (s.getUser other).isSome && user != other
  | acceptFriend accepter requester =>
    (s.getUser accepter).isSome && (s.getUser requester).isSome &&
      (s.friendshipBetween accepter requester).any (fun f =>
        !f.areFriends && f.requester == requester && f.addressee == accepter)

/-- What the use-case then writes. -/
def effect (now : Timestamp) (cmd : Command) (s : Inner) : Inner :=
  match cmd with
  | castVote proposal voter aye => s.upsertVote ⟨proposal, voter, aye⟩
  | sendDm sender recipient sealedForRecipient sealedForSender =>
    match s.nextDmId with
    | (id, s) =>
      s.insertDm ⟨id, sender, recipient, trim sealedForRecipient, trim sealedForSender, now⟩
  | block blocker blocked => (s.addBlock ⟨blocker, blocked, now⟩).2
  | requestFriend requester addressee => (s.addFriendship (.request requester addressee now)).2
  | acceptFriend accepter requester =>
    match s.friendshipBetween accepter requester with
    | some f => s.updateFriendship f.accept
    | none => s

end Command

theorem exec_pairById_bind {β : Type} (id other : UserId) (k : User × User → Req World SocialError β)
    (w : World) :
    (pairById id other >>= k).exec w =
      match w.store.getUser id, w.store.getUser other with
      | some user, some otherUser => (k (user, otherUser)).exec w
      | some _, none => (.error (.noSuchUser other.display), w)
      | none, _ => (.error (.noSuchUser id.display), w) := by
  rw [Req.exec_bind, pairById]
  simp only [req_ask_bind, exec_okOr_bind]
  cases w.store.getUser id with
  | none => rfl
  | some user =>
    cases w.store.getUser other with
    | none => rfl
    | some otherUser => rfl

theorem getUser_id {s : Inner} {id : UserId} {user : User} (h : s.getUser id = some user) :
    user.id = id :=
  Table.key_of_get h

theorem getProposal_id {s : Inner} {id : ProposalId} {p : Proposal}
    (h : s.getProposal id = some p) : p.id = id :=
  Table.key_of_get h

theorem exec_mayDm_bind {ε β : Type} (sender recipient : User) (k : Bool → Req World ε β)
    (w : World) :
    ((liftM (mayDm sender recipient) : Req World ε Bool) >>= k).exec w =
      (k (canDm sender.id recipient.id recipient.dmPolicy (w.store.blocksInvolving recipient.id)
        (w.store.friendshipsInvolving recipient.id))).exec w := rfl

/-- Through with its write, or refused with nothing written. -/
def Command.Runs (cmd : Command) (w : World) : Prop :=
  if cmd.accepts w.store then cmd.run.exec w = (.ok (), w.mapStore (cmd.effect w.now))
  else ∃ e, cmd.run.exec w = (.error (.rejected e), w)

namespace Command

theorem runs_castVote (proposal : ProposalId) (voter : UserId) (aye : Bool) (w : World) :
    (castVote proposal voter aye).Runs w := by
  simp only [Runs, run, exec_rejecting, castVoteById, castVoteAs, req_ask_bind, exec_okOr_bind,
    exec_ensure_bind, accepts]
  cases huser : w.store.getUser voter with
  | none => simp
  | some user =>
    obtain rfl := getUser_id huser
    cases hproposal : w.store.getProposal proposal with
    | none => simp
    | some p =>
      obtain rfl := getProposal_id hproposal
      by_cases hopen : p.status == .open_
      · by_cases hmember : (w.store.getMembership user.id p.serverId).any Membership.isFranchised
        · rw [if_pos (by simp [hopen, hmember])]
          simp only [hopen, hmember, if_true]
          rfl
        · simp [hopen, hmember]
      · simp [hopen]

theorem runs_sendDm (sender recipient : UserId) (sealedForRecipient sealedForSender : String)
    (w : World) : (sendDm sender recipient sealedForRecipient sealedForSender).Runs w := by
  simp only [Runs, run, exec_rejecting, sendSealedDmById, sendSealedDmCore, req_ask_bind,
    exec_okOr_bind, exec_ensure_bind, exec_mayDm_bind, accepts]
  cases hsender : w.store.getUser sender with
  | none => simp
  | some user =>
    obtain rfl := getUser_id hsender
    cases hrecipient : w.store.getUser recipient with
    | none => simp
    | some other =>
      obtain rfl := getUser_id hrecipient
      by_cases hself : user.id != other.id
      · by_cases hempty : !((trim sealedForRecipient).isEmpty || (trim sealedForSender).isEmpty)
        · by_cases hallowed : canDm user.id other.id other.dmPolicy
            (w.store.blocksInvolving other.id) (w.store.friendshipsInvolving other.id)
          · rw [if_pos (by simp [hself, hempty, hallowed])]
            simp only [hself, hempty, hallowed, if_true]
            rfl
          · simp [hself, hempty, hallowed]
        · simp [hself, hempty]
      · simp [hself]

theorem runs_block (blocker blocked : UserId) (w : World) : (block blocker blocked).Runs w := by
  simp only [Runs, run, exec_rejecting, blockUserById, blockBetween, exec_pairById_bind,
    exec_ensure_bind, accepts]
  cases huser : w.store.getUser blocker with
  | none => simp
  | some user =>
    obtain rfl := getUser_id huser
    cases hother : w.store.getUser blocked with
    | none => simp
    | some other =>
      obtain rfl := getUser_id hother
      by_cases hself : user.id != other.id
      · rw [if_pos (by simp [hself])]
        simp only [hself, if_true]
        rfl
      · simp [hself]

theorem runs_requestFriend (requester addressee : UserId) (w : World) :
    (requestFriend requester addressee).Runs w := by
  simp only [Runs, run, exec_rejecting, requestFriendById, requestFriendBetween,
    exec_pairById_bind, exec_ensure_bind, accepts]
  cases huser : w.store.getUser requester with
  | none => simp
  | some user =>
    obtain rfl := getUser_id huser
    cases hother : w.store.getUser addressee with
    | none => simp
    | some other =>
      obtain rfl := getUser_id hother
      by_cases hself : user.id != other.id
      · rw [if_pos (by simp [hself])]
        simp only [hself, if_true]
        rfl
      · simp [hself]

theorem runs_acceptFriend (accepter requester : UserId) (w : World) :
    (acceptFriend accepter requester).Runs w := by
  simp only [Runs, run, exec_rejecting, acceptFriendById, acceptFriendBetween,
    exec_pairById_bind, req_ask_bind, exec_okOr_bind, accepts]
  cases huser : w.store.getUser accepter with
  | none => simp
  | some user =>
    obtain rfl := getUser_id huser
    cases hother : w.store.getUser requester with
    | none => simp
    | some other =>
      obtain rfl := getUser_id hother
      cases hfound : w.store.friendshipBetween user.id other.id with
      | none => simp [hfound]
      | some f =>
        by_cases hpending : !f.areFriends && f.requester == other.id && f.addressee == user.id
        · have heffect : (acceptFriend user.id other.id).effect w.now w.store =
              w.store.updateFriendship f.accept := by
            simp only [effect, hfound]
          rw [if_pos (by simpa using hpending)]
          simp only [hfound, Option.filter_some, hpending, if_true, World.mapStore, heffect]
          rfl
        · have hfilter : (some f).filter
              (fun f => !f.areFriends && f.requester == other.id && f.addressee == user.id) =
                none := by
            rw [Option.filter_some, if_neg hpending]
          rw [if_neg (by simpa using hpending)]
          simp only [hfound, hfilter]
          exact ⟨_, rfl⟩

/-- Every command does one of the two. -/
theorem runs (cmd : Command) (w : World) : cmd.Runs w := by
  cases cmd with
  | castVote proposal voter aye => exact runs_castVote proposal voter aye w
  | sendDm sender recipient sealedForRecipient sealedForSender =>
    exact runs_sendDm sender recipient sealedForRecipient sealedForSender w
  | block blocker blocked => exact runs_block blocker blocked w
  | requestFriend requester addressee => exact runs_requestFriend requester addressee w
  | acceptFriend accepter requester => exact runs_acceptFriend accepter requester w

theorem run_of_accepts {cmd : Command} {w : World} (h : cmd.accepts w.store = true) :
    cmd.run.exec w = (.ok (), w.mapStore (cmd.effect w.now)) := by
  have hruns := cmd.runs w
  rwa [Runs, if_pos h] at hruns

theorem run_of_refused {cmd : Command} {w : World} (h : cmd.accepts w.store = false) :
    ∃ e, cmd.run.exec w = (.error (.rejected e), w) := by
  have hruns := cmd.runs w
  rwa [Runs, if_neg (by rw [h]; exact Bool.false_ne_true)] at hruns

/-- A command that is let through answers so, and only such a one. -/
theorem run_eq_ok {cmd : Command} {w w' : World} :
    cmd.run.exec w = (.ok (), w') ↔
      cmd.accepts w.store = true ∧ w' = w.mapStore (cmd.effect w.now) := by
  cases haccepts : cmd.accepts w.store with
  | true =>
    rw [run_of_accepts haccepts, Prod.mk.injEq]
    simp only [true_and, eq_comm]
  | false =>
    obtain ⟨e, hrun⟩ := run_of_refused haccepts
    rw [hrun]
    simp

end Command

/-! ## What executing takes -/

/-- The node owns the scope, as the control plane answers. -/
def Registry.Owns (registry : Registry) (node : NodeId) (scope : OwnedScope) : Prop :=
  ∃ o, registry.ownerOf scope = .ok (some o) ∧ o.owner = node

/-- The control plane answers for the scope. -/
def Registry.Answers (registry : Registry) (scope : OwnedScope) : Prop :=
  ∃ o, registry.ownerOf scope = .ok o

/-- The store with the log that the guard leaves. -/
def admitting (signed : SignedCommand) (now : Int64) (s : Inner) : Inner :=
  { s with
    nonces := (admitCommand s.nonces signed.node signed.nonce signed.issuedAt now).2 }

section

variable {wire : Wire} {text : CommandText} {registry : Registry}

theorem verifyHex_eq_ok {key : NodePublicKey} {payload signature : String} :
    wire.verifyHex key payload signature = .ok () ↔
      ∃ sig, fromHex 64 signature "signature" = .ok sig ∧
        wire.verifyStrict key.verifying payload sig = true := by
  unfold Wire.verifyHex
  cases hsig : fromHex 64 signature "signature" with
  | error e => simp [bind, Except.bind]
  | ok sig =>
    simp only [bind, Except.bind, pure, Except.pure]
    split
    next hverify => simp [hverify]
    next hverify => simp [hverify]

/-- Signed under the published key of the node that it names, and the text reads back. -/
theorem verifySigned_eq_ok {signed : SignedCommand} {cmd : Command} :
    verifySigned wire text registry signed = .ok cmd ↔
      text.parse signed.body = some cmd ∧
        ∃ key, registry.publicKey signed.node = .ok (some key) ∧
          wire.verifyHex key
            (signingPayload signed.node signed.issuedAt signed.nonce signed.body)
            signed.signature = .ok () := by
  unfold verifySigned
  cases hkey : registry.publicKey signed.node with
  | error e => simp
  | ok found =>
    cases found with
    | none => simp
    | some key =>
      dsimp only
      cases hverify : wire.verifyHex key
          (signingPayload signed.node signed.issuedAt signed.nonce signed.body)
          signed.signature with
      | error e => simp [hverify]
      | ok _ =>
        cases hparse : text.parse signed.body with
        | none => simp
        | some cmd' => simp [hverify]

/-- What a node signs verifies where its own key is published. -/
theorem verifySigned_signAt (hwire : wire.Signs) {keypair : NodeKeypair} {cmd : Command}
    (hkey : registry.publicKey keypair.node = .ok (some (wire.public_ keypair)))
    (hparse : text.parse (text.render cmd) = some cmd) (issuedAt : Int64) (nonce : String) :
    verifySigned wire text registry (cmd.signAt wire text keypair issuedAt nonce) = .ok cmd := by
  apply verifySigned_eq_ok.2
  refine ⟨hparse, _, hkey, verifyHex_eq_ok.2 ?_⟩
  exact ⟨_, fromHex_toHex (hwire.length _ _) _, hwire.verify _ _⟩

theorem ownsAScope_eq_ok {node : NodeId} {scopes : List OwnedScope} {owns : Bool} :
    ownsAScope registry node scopes = .ok owns ↔
      (∀ scope ∈ scopes, registry.Answers scope) ∧
        (owns = true ↔ ∃ scope ∈ scopes, registry.Owns node scope) := by
  classical
  induction scopes generalizing owns with
  | nil => simp [ownsAScope]
  | cons scope scopes ih =>
    simp only [ownsAScope, List.forall_mem_cons, List.exists_mem_cons_iff, Registry.Answers]
    cases howner : registry.ownerOf scope with
    | error e => simp
    | ok owner =>
      have hself : registry.Owns node scope ↔ owner.any (fun o => o.owner = node) = true := by
        unfold Registry.Owns
        rw [howner]
        cases owner <;> simp
      cases hrest : ownsAScope registry node scopes with
      | error e =>
        have hunanswered : ¬ ∀ scope ∈ scopes, registry.Answers scope := by
          intro hanswers
          have hok := ih.2 ⟨hanswers, decide_eq_true_iff⟩
          rw [hrest] at hok
          cases hok
        simp only [Registry.Answers] at hunanswered
        simp [bind, Except.bind, hunanswered]
      | ok rest =>
        obtain ⟨hanswers, hrest⟩ := ih.1 hrest
        simp only [Registry.Answers] at hanswers
        simp only [bind, Except.bind, pure, Except.pure, Except.ok.injEq, hself, ← hrest]
        rw [← Bool.or_eq_true]
        constructor
        · rintro rfl
          exact ⟨⟨⟨owner, rfl⟩, hanswers⟩, Iff.rfl⟩
        · rintro ⟨-, howns⟩
          exact (Bool.eq_iff_iff.2 howns).symm

theorem not_answers_of_error {node : NodeId} {scopes : List OwnedScope} {e : ForwardError}
    (h : ownsAScope registry node scopes = .error e) :
    ¬ ∀ scope ∈ scopes, registry.Answers scope := by
  classical
  intro hanswers
  have hok : ownsAScope registry node scopes =
      .ok (decide (∃ scope ∈ scopes, registry.Owns node scope)) :=
    ownsAScope_eq_ok.2 ⟨hanswers, decide_eq_true_iff⟩
  rw [h] at hok
  cases hok

theorem exec_admitSigned_bind {β : Type} (signed : SignedCommand) (now : Int64)
    (k : Unit → Req World ForwardError β) (w : World) :
    (admitSigned signed now >>= k).exec w =
      match (admitCommand w.store.nonces signed.node signed.nonce signed.issuedAt now).1 with
      | .ok () => (k ()).exec (w.mapStore (admitting signed now))
      | .error e => (.error e, w.mapStore (admitting signed now)) := by
  rw [Req.exec_bind, admitSigned, req_transact_bind]
  dsimp only
  cases hadmit : (admitCommand w.store.nonces signed.node signed.nonce signed.issuedAt now).1 with
  | ok _ => rfl
  | error e => rfl

theorem exec_execute (node : NodeId) (signed : SignedCommand) (now : Int64) (w : World) :
    (execute wire text registry node signed now).exec w =
      match verifySigned wire text registry signed with
      | .error e => (.error e, w)
      | .ok cmd =>
        if (cmd.targetScopes (storeResolver w.store)).isEmpty then (.error .unowned, w)
        else
          match ownsAScope registry node (cmd.targetScopes (storeResolver w.store)) with
          | .error e => (.error e, w)
          | .ok false => (.error ownsNone, w)
          | .ok true =>
            match (admitCommand w.store.nonces signed.node signed.nonce signed.issuedAt now).1 with
            | .error e => (.error e, w.mapStore (admitting signed now))
            | .ok () => cmd.run.exec (w.mapStore (admitting signed now)) := by
  simp only [execute, exec_orElse_bind, req_ask_bind, exec_ensure_bind, exec_admitSigned_bind, id]
  cases verifySigned wire text registry signed with
  | error e => rfl
  | ok cmd =>
    dsimp only
    by_cases hempty : (cmd.targetScopes (storeResolver w.store)).isEmpty
    · simp only [hempty, if_true]
      rfl
    · simp only [hempty]
      cases ownsAScope registry node (cmd.targetScopes (storeResolver w.store)) with
      | error e => rfl
      | ok owns =>
        cases owns with
        | false => rfl
        | true =>
          cases (admitCommand w.store.nonces signed.node signed.nonce signed.issuedAt now).1 with
          | error e => rfl
          | ok _ => rfl

/-- An answered command was authentic, addressed to a scope of the node, let in by the guard,
and accepted by its use-case. -/
theorem execute_eq_ok {node : NodeId} {signed : SignedCommand} {now : Int64} {w w' : World} :
    (execute wire text registry node signed now).exec w = (.ok (), w') ↔
      ∃ cmd, verifySigned wire text registry signed = .ok cmd ∧
        (∀ scope ∈ cmd.targetScopes (storeResolver w.store), registry.Answers scope) ∧
        (∃ scope ∈ cmd.targetScopes (storeResolver w.store), registry.Owns node scope) ∧
        (admitCommand w.store.nonces signed.node signed.nonce signed.issuedAt now).1 = .ok () ∧
        cmd.accepts (admitting signed now w.store) = true ∧
        w' = (w.mapStore (admitting signed now)).mapStore (cmd.effect w.now) := by
  rw [exec_execute]
  cases verifySigned wire text registry signed with
  | error e => simp
  | ok cmd =>
    simp only [Except.ok.injEq, exists_eq_left']
    by_cases hempty : (cmd.targetScopes (storeResolver w.store)).isEmpty
    · simp [List.isEmpty_iff.1 hempty]
    · rw [if_neg hempty]
      cases howns : ownsAScope registry node (cmd.targetScopes (storeResolver w.store)) with
      | error e =>
        simp [not_answers_of_error howns]
      | ok owns =>
        obtain ⟨hanswers, howns⟩ := ownsAScope_eq_ok.1 howns
        cases owns with
        | false =>
          have hnone := howns.not.1 Bool.false_ne_true
          simp [hnone]
        | true =>
          have hsome := howns.1 rfl
          cases hadmitted :
            (admitCommand w.store.nonces signed.node signed.nonce signed.issuedAt now).1 with
          | error e => simp
          | ok _ =>
            dsimp only
            rw [Command.run_eq_ok]
            simp only [hsome, true_and]
            exact ⟨fun h => ⟨hanswers, h⟩, fun h => h.2⟩

end

/-! ## A first text of commands

The source's JSON; texts are parsed by looking them up among the commands in play. -/

namespace Agora

def commandValue : Command → Value
  | .castVote proposal voter aye =>
    .object [("CastVote", .object [("proposal", packed proposal), ("voter", packed voter),
      ("aye", .bool aye)])]
  | .sendDm sender recipient sealedForRecipient sealedForSender =>
    .object [("SendDm", .object [("from", packed sender), ("to", packed recipient),
      ("sealed_for_recipient", .string sealedForRecipient),
      ("sealed_for_sender", .string sealedForSender)])]
  | .block blocker blocked =>
    .object [("Block", .object [("blocker", packed blocker), ("blocked", packed blocked)])]
  | .requestFriend requester addressee =>
    .object [("RequestFriend", .object [("requester", packed requester),
      ("addressee", packed addressee)])]
  | .acceptFriend accepter requester =>
    .object [("AcceptFriend", .object [("accepter", packed accepter),
      ("requester", packed requester)])]

def commandText (cmds : List Command) : CommandText where
  render := fun cmd => renderValue (commandValue cmd)
  parse := fun text => cmds.find? (fun cmd => renderValue (commandValue cmd) == text)

/-- One command in play reads back. -/
theorem parse_commandText (cmd : Command) :
    (commandText [cmd]).parse ((commandText [cmd]).render cmd) = some cmd := by
  simp [commandText]

end Agora

end Democrachat.Federation
