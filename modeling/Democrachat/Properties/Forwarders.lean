import Democrachat.Federation.Command
import Democrachat.Properties.FeedProgress
import Democrachat.System.Ops

/-!
# In whose name a forwarder may act

The gates in front of a forwarded command ask which node signed it and which node it
came to.  Nothing asks where the acting user is at home: a node with a published key is
trusted for every user that it has authenticated.
-/

namespace Democrachat.Federation

open Library

/-- The node owns what the command gives it to decide: the server of the ballot, the home of
the sender of a message, and one of the two homes of a pair. -/
def Registry.Entitles (registry : Registry) (node : NodeId) (s : Inner) : Command → Prop
  | .castVote proposal _ _ =>
    ∃ p, s.getProposal proposal = some p ∧ registry.Owns node (.server p.serverId)
  | .sendDm sender _ _ _ => registry.Owns node (.userHome sender)
  | .block user other | .requestFriend user other | .acceptFriend user other =>
    registry.Owns node (.userHome user) ∨ registry.Owns node (.userHome other)

theorem entitles_iff (registry : Registry) (node : NodeId) (s : Inner) (cmd : Command) :
    registry.Entitles node s cmd ↔
      ∃ scope ∈ cmd.targetScopes (storeResolver s), registry.Owns node scope := by
  cases cmd with
  | castVote proposal voter aye =>
    simp only [Registry.Entitles, Command.targetScopes, storeResolver]
    cases s.getProposal proposal with
    | none => simp
    | some p => simp
  | sendDm sender recipient sealedForRecipient sealedForSender =>
    simp [Registry.Entitles, Command.targetScopes]
  | block user other => simp [Registry.Entitles, Command.targetScopes]
  | requestFriend user other => simp [Registry.Entitles, Command.targetScopes]
  | acceptFriend user other => simp [Registry.Entitles, Command.targetScopes]

/-- A node applies exactly the commands that it is entitled to decide, that a node with a
published key has signed, and that the guard and the use-case let through. -/
theorem forwarded_command_applied_iff (wire : Wire) (text : CommandText) (registry : Registry)
    (node : NodeId) (signed : SignedCommand) (now : Int64) (w w' : World) :
    (execute wire text registry node signed now).exec w = (.ok (), w') ↔
      ∃ cmd key, text.parse signed.body = some cmd ∧
        registry.publicKey signed.node = .ok (some key) ∧
        wire.verifyHex key (signingPayload signed.node signed.issuedAt signed.nonce signed.body)
          signed.signature = .ok () ∧
        (∀ scope ∈ cmd.targetScopes (storeResolver w.store), registry.Answers scope) ∧
        registry.Entitles node w.store cmd ∧
        (IsFresh signed.issuedAt now ∨ WrapsAround signed.issuedAt now) ∧
        holds w.store.nonces signed.node signed.nonce now = false ∧
        cmd.run.exec (w.mapStore (admitting signed now)) = (.ok (), w') := by
  have hadmitted : (admitCommand w.store.nonces signed.node signed.nonce signed.issuedAt now).1 =
      .ok () ↔ (IsFresh signed.issuedAt now ∨ WrapsAround signed.issuedAt now) ∧
        holds w.store.nonces signed.node signed.nonce now = false := by
    rcases admitCommand_cases w.store.nonces signed.node signed.nonce signed.issuedAt now with
      ⟨hpasses, hheld, hresult⟩ | ⟨hpasses, hheld, hresult⟩ | ⟨hpasses, hresult⟩
    · simp [hresult, hpasses, hheld]
    · simp [hresult, hheld]
    · simp [hresult, hpasses]
  rw [execute_eq_ok]
  simp only [verifySigned_eq_ok, entitles_iff, hadmitted, Command.run_eq_ok]
  constructor
  · rintro ⟨cmd, ⟨hparse, key, hkey, hverify⟩, hanswers, howns, ⟨hpasses, hheld⟩, haccepts, rfl⟩
    exact ⟨cmd, key, hparse, hkey, hverify, hanswers, howns, hpasses, hheld, haccepts, rfl⟩
  · rintro ⟨cmd, key, hparse, hkey, hverify, hanswers, howns, hpasses, hheld, haccepts, rfl⟩
    exact ⟨cmd, ⟨hparse, key, hkey, hverify⟩, hanswers, howns, ⟨hpasses, hheld⟩, haccepts, rfl⟩

namespace Agora

def ann : UserId := composeId 1 1

def bob : UserId := composeId 1 2

/-- Ann and Bob have their accounts on node 1. -/
def guestbook : World :=
  Agora.services.run (.empty 1 ⟨0⟩) [.registerAccount "ann", .registerAccount "bob"]

/-- Node 1 owns the homes of the two. -/
def homes : InMemoryRegistry := ((keyed.claim (.userHome ann) 1).2.claim (.userHome bob) 1).2

/-- Ann is at home on node 1 and Bob on node 2. -/
def apart : InMemoryRegistry := ((keyed.claim (.userHome ann) 1).2.claim (.userHome bob) 2).2

def letter : Command := .sendDm ann bob "x" "y"

/-- A message of Ann's, signed by node 2. -/
def forwarded : SignedCommand :=
  letter.signAt (wire []) (commandText [letter]) (keypair 2) 0 "n"

theorem forwarded_verified :
    verifySigned (wire []) (commandText [letter]) (homes.answers (wire [])) forwarded =
      .ok letter := by
  apply verifySigned_signAt (wire_signs [])
  · exact publicKey_of_keys (.inr rfl) rfl
  · exact parse_commandText letter

theorem homes_owner : (homes.answers (wire [])).ownerOf (.userHome ann) =
    .ok (some ⟨.userHome ann, 1, 1⟩) := by
  rfl

end Agora

/-- Node 1 applies a message of a user of its own that node 2 has signed. -/
theorem command_of_another_home_applied :
    ¬ ∀ (registry : Registry) (node : NodeId) (signed : SignedCommand) (now : Int64) (w w' : World),
      (execute (Agora.wire []) (Agora.commandText [Agora.letter]) registry node signed now).exec w =
          (.ok (), w') →
        ∀ cmd, (Agora.commandText [Agora.letter]).parse signed.body = some cmd →
          registry.Owns signed.node (.userHome cmd.actor) := by
  intro h
  have happlied : (execute (Agora.wire []) (Agora.commandText [Agora.letter])
      (Agora.homes.answers (Agora.wire [])) 1 Agora.forwarded 0).exec Agora.guestbook =
        (.ok (), (Agora.guestbook.mapStore (admitting Agora.forwarded 0)).mapStore
          (Agora.letter.effect Agora.guestbook.now)) := by
    apply execute_eq_ok.2
    refine ⟨Agora.letter, Agora.forwarded_verified, ?_, ?_, ?_, ?_, rfl⟩
    · exact fun scope _ => ⟨_, rfl⟩
    · exact ⟨.userHome Agora.ann, List.mem_singleton_self _, _, Agora.homes_owner, rfl⟩
    · decide +kernel
    · decide +kernel
  obtain ⟨o, howner, hnode⟩ := h _ _ _ _ _ _ happlied Agora.letter (Agora.parse_commandText _)
  obtain rfl := Option.some.inj (Except.ok.inj (howner.symm.trans Agora.homes_owner))
  exact absurd hnode (by decide)

end Democrachat.Federation
