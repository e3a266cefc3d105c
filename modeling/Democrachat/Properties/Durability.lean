import Democrachat.Properties.Forwarders
import Democrachat.System.Disk

/-!
# What is acknowledged is on disk

A file that was written last with an older snapshot has lost what others have changed, saved and
acknowledged since that snapshot.
-/

namespace Democrachat

open Library Federation

/-- The file shows a state with every change of the requests that were answered well, and with
every change after which its request has saved, such as a remembered nonce; unless such a request
came between the snapshot and the write of the last save. -/
theorem acknowledged_durable (text : SnapshotText) (wire : Wire) (cmdText : CommandText)
    (node : NodeId) (requests : List Request) (w : World) (is : List Nat)
    (hfresh : Prog.LastSaveFresh World.store (serving text wire cmdText node requests w) is) :
    Prog.Durable World.store text.toJson (· = .done) (serving text wire cmdText node requests w)
      is := by
  refine (Prog.Behind.run rfl (fun p hp => ?_) is).durable hfresh
  obtain ⟨request, -, rfl⟩ := List.mem_map.1 hp
  exact request.saves wire cmdText node

namespace Agora

open Federation.Agora

/-- What changes here of a snapshot, as `serde_json` prints it. -/
def ballotsText : SnapshotText where
  render snap := renderValue (.object [
    ("votes", .array (snap.votes.map (fun v => .object [("proposal_id", packed v.proposalId),
      ("voter", packed v.voter), ("is_aye", .bool v.isAye)]))),
    ("nonces", .array (snap.nonces.map (fun n => .array [number n.node.val, .string n.nonce,
      number n.expiry.toInt.toNat])))])
  parse _ := .error "not read"

/-- Node 1 has a server with a proposal. -/
def assembly : World :=
  services.run (.empty 1 ⟨0⟩) (founding ++ [.openProposal "zed" "agora" (.ban (composeId 1 2))])

def ballotOf (isAye : Bool) : Command := .castVote (composeId 1 1) (composeId 1 1) isAye

def ballots : CommandText := commandText [ballotOf false, ballotOf true]

/-- Node 2 forwards the founder's ballot. -/
def forwardedBallot (isAye : Bool) (nonce : String) : Request :=
  .command ((keyed.claim (.server (composeId 1 1)) 1).2.answers (wire []))
    ((ballotOf isAye).signAt (wire []) ballots (keypair 2) 0 nonce) 0

/-- A nay and then an aye come in at node 1. -/
def recounted : List (Prog (World × String) Reply) × World × String :=
  serving ballotsText (wire []) ballots 1 [forwardedBallot false "m", forwardedBallot true "n"]
    assembly

/-- The nay has its snapshot in hand while the aye is served. -/
def overtaken : List Nat := List.replicate 9 0 ++ List.replicate 12 1 ++ [0]

end Agora

theorem acknowledged_durable_in_turn :
    Prog.Durable World.store Agora.ballotsText.toJson (· = .done) Agora.recounted
      (List.replicate 10 0 ++ List.replicate 12 1) :=
  acknowledged_durable Agora.ballotsText (Federation.Agora.wire []) Agora.ballots 1 _ Agora.assembly _
    (Prog.lastSaveFresh_of_pairwise (by decide))

/-- Both ballots are acknowledged, and the file is that of the first. -/
theorem aye_overwritten :
    Prog.finished (Prog.schedule Agora.overtaken Agora.recounted) = true ∧
      ¬ Prog.Durable World.store Agora.ballotsText.toJson (· = .done) Agora.recounted
        Agora.overtaken := by
  -- All facts about the one run are evaluated together.
  obtain ⟨hfinished, hbefore, hnonces, hanswer⟩ :
      Prog.finished (Prog.schedule Agora.overtaken Agora.recounted) = true ∧
      (∀ n ≤ 22, (Prog.schedule Agora.overtaken Agora.recounted).2.2 =
        Agora.ballotsText.toJson (Prog.upTo Agora.recounted Agora.overtaken n).2.1.store →
          n ≤ 10) ∧
      (Prog.upTo Agora.recounted Agora.overtaken (10 + 1)).2.1.store.nonces.rows.length ≠
        (Prog.upTo Agora.recounted Agora.overtaken 10).2.1.store.nonces.rows.length ∧
      (Prog.schedule Agora.overtaken Agora.recounted).1[1]?.bind (·.answer?) =
        some Reply.done := by
    decide +kernel
  refine ⟨hfinished, ?_⟩
  rintro ⟨n, hn, hfile, hlater⟩
  have hchange : Prog.ChangesAt World.store Agora.recounted Agora.overtaken 10 1 := by
    refine ⟨rfl, fun hsame => hnonces ?_⟩
    exact congrArg (fun s => s.nonces.rows.length) hsame
  have hacked : Prog.Acked (· = .done) (Prog.schedule Agora.overtaken Agora.recounted) 1 :=
    Prog.acked_of_answer hanswer rfl
  exact (hlater 10 1 (hbefore n hn hfile) hchange).1 hacked

end Democrachat
