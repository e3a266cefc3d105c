import Democrachat.Polity.UseCases
import Democrachat.Properties.VotingWindow
import Mathlib.Algebra.Order.BigOperators.Group.List

/-!
# What a tally depends on

The vote list keeps each voter's last ballot, so what `weightedTally` adds up is a function
of the members at the close and of what each of them said last.
-/

namespace Democrachat

open Library

/-! ## The ballots of a run -/

/-- The ballot that a use-case casts, where it is accepted. -/
def UseCase.cast? (w : World) : UseCase → Option Vote
  | .op operation => operation.cast? w
  | _ => none

/-- The accepted ballots of a run, in the order of its steps. -/
def Services.ballotLog (services : Services) : World → List UseCase → List Vote
  | _, [] => []
  | w, u :: us => (u.cast? w).toList ++ services.ballotLog (services.serve w u) us

/-- What the voter's last ballot on the proposal tells. -/
def lastSay (log : List Vote) (p : ProposalId) (voter : UserId) : Option Bool :=
  (log.reverse.find? (fun v => v.proposalId == p && v.voter == voter)).map (·.isAye)

/-! ## The tally of an electorate -/

/-- What a member's ballot counts. -/
def Server.ballotWeight (s : Server) (m : Membership) (now : Timestamp) : Nat :=
  if s.weightingScope.appliesToBallots then s.voteWeighting.weightOf m now else 1

/-- The franchised citizens of the server who say this. -/
def Roster.saying (r : Roster) (server : ServerId) (say : UserId → Option Bool) (isAye : Bool) :
    List Membership :=
  r.rows.filter fun m => m.serverId == server && m.isFranchised && say m.userId == some isAye

/-- What the franchised citizens weigh who say this. -/
def Server.weighSaying (s : Server) (r : Roster) (say : UserId → Option Bool) (now : Timestamp)
    (isAye : Bool) : Nat :=
  ((r.saying s.id say isAye).map (s.ballotWeight · now)).sum

def Server.tallySay (s : Server) (r : Roster) (say : UserId → Option Bool) (now : Timestamp) :
    Tally where
  aye := s.weighSaying r say now true
  nay := s.weighSaying r say now false

theorem Server.ballotWeight_eq (s : Server) (m : Membership) (now : Timestamp) :
    s.ballotWeight m now = s.ballotWeighting.weightOf m now := by
  unfold ballotWeight ballotWeighting
  split
  · rfl
  · rw [VoteWeighting.weightOf_equal]

theorem Server.ballotWeight_range (s : Server) (m : Membership) (now : Timestamp) :
    1 ≤ s.ballotWeight m now ∧ s.ballotWeight m now ≤ 16 ∧
      (s.weightingScope.appliesToBallots = false → s.ballotWeight m now = 1) := by
  rw [ballotWeight_eq]
  refine ⟨VoteWeighting.one_le_weightOf _ m now, VoteWeighting.weightOf_le _ m now, ?_⟩
  intro hscope
  rw [← ballotWeight_eq, ballotWeight, hscope]
  rfl

/-! ## Ayes are never held against a proposal -/

/-- Whoever has changed has come to say aye. -/
def Leans (say say' : UserId → Option Bool) : Prop :=
  ∀ voter, say' voter = say voter ∨ say' voter = some true

section Leans

variable {s : Server} {r : Roster} {say say' : UserId → Option Bool} {now : Timestamp}

/-- A sum over more members is no smaller. -/
theorem sum_filter_le {p q : Membership → Bool} (weight : Membership → Nat)
    (ms : List Membership) (h : ∀ m, p m = true → q m = true) :
    ((ms.filter p).map weight).sum ≤ ((ms.filter q).map weight).sum := by
  have hsub : (ms.filter p).Sublist (ms.filter q) := List.monotone_filter_right ms h
  exact (hsub.map weight).sum_le_sum (fun _ _ => Nat.zero_le _)

/-- The ayes and the nays together are the members who say anything. -/
theorem tallySay_cast : (s.tallySay r say now).cast =
    ((r.rows.filter (fun m => m.serverId == s.id && m.isFranchised &&
      (say m.userId).isSome)).map (s.ballotWeight · now)).sum := by
  show s.weighSaying r say now true + s.weighSaying r say now false = _
  unfold Server.weighSaying Roster.saying
  induction r.rows with
  | nil => rfl
  | cons m ms ih =>
    rcases hsay : say m.userId with _ | isAye
    · simpa [List.filter_cons, hsay] using ih
    · by_cases hcounts : (m.serverId == s.id && m.isFranchised) = true
      · cases isAye
        · simp only [List.filter_cons, hcounts, hsay] at ih ⊢
          simp at ih ⊢
          omega
        · simp only [List.filter_cons, hcounts, hsay] at ih ⊢
          simp at ih ⊢
          omega
      · simpa [List.filter_cons, hcounts] using ih

theorem Leans.didPass (h : Leans say say') {citizens : Nat} {threshold : Threshold}
    (hpass : ((s.tallySay r say now).decide citizens threshold).didPass = true) :
    ((s.tallySay r say' now).decide citizens threshold).didPass = true := by
  refine Tally.didPass_mono ?_ ?_ ?_ hpass
  · apply sum_filter_le
    intro m hm
    rcases h m.userId with heq | haye
    · rwa [heq]
    · simp only [Bool.and_eq_true] at hm ⊢
      exact ⟨hm.1, by rw [haye, beq_self_eq_true]⟩
  · apply sum_filter_le
    intro m hm
    rcases h m.userId with heq | haye
    · rwa [← heq]
    · rw [haye] at hm
      simp at hm
  · rw [tallySay_cast, tallySay_cast]
    apply sum_filter_le
    intro m hm
    rcases h m.userId with heq | haye
    · rwa [heq]
    · simp only [Bool.and_eq_true] at hm ⊢
      exact ⟨hm.1, by rw [haye, Option.isSome_some]⟩

end Leans

/-! ## The store keeps the last ballots -/

/-- The world as the members stand at the close. -/
def World.withRoster (w : World) (roster : Roster) : World :=
  w.mapStore (fun s => { s with memberships := roster })

section Log

variable (services : Services) (w : World)

theorem votes_serve (u : UseCase) : (services.serve w u).polity.votes =
    (u.cast? w).toList.foldl recordVote w.polity.votes := by
  have hother : (∀ op, u ≠ .op op) → (services.serve w u).polity.votes = w.polity.votes := by
    intro hu
    have hserves := services.serves w u
    generalize (services.serve w u).polity = c at hserves ⊢
    cases hserves with
    | acted _ => exact absurd rfl (hu _)
    | encrypted _ => rfl
    | unseen _ => rfl
  cases u with
  | op op => exact (votes_step services w op).2
  | _ => exact hother (fun _ h => (nomatch h))

theorem votes_serveAll (us : List UseCase) : (services.serveAll w us).polity.votes =
    (services.ballotLog w us).foldl recordVote w.polity.votes := by
  induction us generalizing w with
  | nil => rfl
  | cons u us ih =>
    show (services.serveAll (services.serve w u) us).polity.votes = _
    rw [ih, votes_serve, Services.ballotLog, List.foldl_append]

theorem mem_ballots_foldl {log : List Vote} {p : ProposalId} {voter : UserId} {isAye : Bool}
    (hvotes : w.polity.votes = log.foldl recordVote []) :
    (∃ v ∈ (w.polity.ballots p).filter (fun v => v.isAye == isAye), v.voter = voter) ↔
      lastSay log p voter = some isAye := by
  rw [lastSay, Option.map_eq_some_iff]
  constructor
  · rintro ⟨v, hv, rfl⟩
    simp only [Polity.ballots, List.mem_filter, beq_iff_eq] at hv
    obtain ⟨⟨hv, rfl⟩, rfl⟩ := hv
    rw [hvotes, mem_foldl_recordVote] at hv
    exact ⟨v, hv, rfl⟩
  · rintro ⟨v, hfound, hsay⟩
    have hkey := List.find?_some hfound
    simp only [Bool.and_eq_true, beq_iff_eq] at hkey
    have hv : v ∈ w.polity.votes := by
      rw [hvotes, mem_foldl_recordVote, hkey.1, hkey.2]
      exact hfound
    refine ⟨v, ?_, hkey.2⟩
    simp only [Polity.ballots, List.mem_filter, beq_iff_eq]
    exact ⟨⟨hv, hkey.1⟩, hsay⟩

theorem pairwise_foldl_recordVote (log : List Vote) :
    (log.foldl recordVote []).Pairwise (fun u v => ¬ u.Clashes v) := by
  have hkeys : ((log.foldl recordVote []).map (fun v => (v.proposalId, v.voter))).Nodup := by
    rw [foldl_recordVote]
    exact nodup_latest log
  rw [List.nodup_iff_pairwise_ne, List.pairwise_map] at hkeys
  refine hkeys.imp ?_
  intro u v hne hclash
  exact hne (Prod.ext hclash.1 hclash.2)

/-- What `weightedTally` computes where the vote list has come of this log. -/
theorem exec_weightedTally_log {log : List Vote} (hvotes : w.polity.votes = log.foldl recordVote [])
    (server : Server) (p : Proposal) (now : Timestamp) :
    (weightedTally server p now).exec w =
      (server.tallySay w.polity.roster (lastSay log p.id) now, w) := by
  have honce : (w.polity.ballots p.id).Pairwise (fun u v => u.voter ≠ v.voter) := by
    apply pairwise_ballots
    rw [hvotes]
    exact pairwise_foldl_recordVote log
  have hside : ∀ isAye, (((w.polity.ballots p.id).filter (fun v => v.isAye == isAye)).map
      (w.polity.weight server.ballotWeighting server.id now)).sum =
      server.weighSaying w.polity.roster (lastSay log p.id) now isAye := by
    intro isAye
    rw [sum_weight_eq _ _ (honce.filter _), Polity.weigh, Server.weighSaying]
    have hmembers : w.polity.voters server.id
        ((w.polity.ballots p.id).filter (fun v => v.isAye == isAye)) =
        w.polity.roster.saying server.id (lastSay log p.id) isAye := by
      refine List.filter_congr (fun m _ => congrArg _ ?_)
      rw [Bool.eq_iff_iff, beq_iff_eq, ← mem_ballots_foldl w hvotes]
      simp only [List.any_eq_true, beq_iff_eq]
    rw [hmembers]
    exact congrArg List.sum (List.map_congr_left fun m _ => (server.ballotWeight_eq m now).symm)
  rw [exec_weightedTally, Server.tallySay, ← hside true, ← hside false]
  simp only [Polity.tally, Polity.tallyOf, beq_true, beq_false]

end Log

/-- What `weightedTally` finds after a run of use-cases, with these members at the close. -/
def Services.finalTally (services : Services) (start : World) (us : List UseCase)
    (roster : Roster) (server : Server) (p : Proposal) (now : Timestamp) : Tally :=
  ((weightedTally server p now).exec ((services.serveAll start us).withRoster roster)).1

theorem finalTally_eq (services : Services) (node : NodeId) (start : Timestamp)
    (us : List UseCase) (roster : Roster) (server : Server) (p : Proposal) (now : Timestamp) :
    services.finalTally (.empty node start) us roster server p now =
      server.tallySay roster (lastSay (services.ballotLog (.empty node start) us) p.id) now := by
  have hvotes : ((services.serveAll (.empty node start) us).withRoster roster).polity.votes =
      (services.ballotLog (.empty node start) us).foldl recordVote [] :=
    votes_serveAll services _ us
  rw [Services.finalTally, exec_weightedTally_log _ hvotes]
  rfl

/-- After every run and with any members at the close, the tally is what the franchised
citizens weigh by their last ballots, each between one and sixteen; runs that end in the same
last ballots have the same tally; and a ballot turned towards aye is never held against the
proposal, nor one turned towards nay in its favour. -/
theorem tally_of_last_ballots (services : Services) (node : NodeId) (start : Timestamp)
    (us : List UseCase) (roster : Roster) (server : Server) (p : Proposal) (now : Timestamp) :
    let tally := fun us => services.finalTally (.empty node start) us roster server p now
    let say := fun us => lastSay (services.ballotLog (.empty node start) us) p.id
    tally us = server.tallySay roster (say us) now ∧
    (∀ m, 1 ≤ server.ballotWeight m now ∧ server.ballotWeight m now ≤ 16 ∧
      (server.weightingScope.appliesToBallots = false → server.ballotWeight m now = 1)) ∧
    ∀ us', (say us' = say us → tally us' = tally us) ∧
      ∀ citizens threshold,
        ((∀ voter, say us' voter = say us voter ∨ say us' voter = some true) →
          ((tally us).decide citizens threshold).didPass = true →
          ((tally us').decide citizens threshold).didPass = true) ∧
        ((∀ voter, say us' voter = say us voter ∨
            (say us voter = some true ∧ say us' voter = some false)) →
          ((tally us).decide citizens threshold).didPass = false →
          ((tally us').decide citizens threshold).didPass = false) := by
  intro tally say
  have htally : ∀ us, tally us = server.tallySay roster (say us) now :=
    fun us => finalTally_eq services node start us roster server p now
  refine ⟨htally us, fun m => server.ballotWeight_range m now, fun us' => ⟨?_, ?_⟩⟩
  · intro hsame
    rw [htally, htally, hsame]
  · intro citizens threshold
    rw [htally, htally]
    constructor
    · exact fun hleans hpass => Leans.didPass hleans hpass
    · intro hturned hfail
      have hleans : Leans (say us') (say us) := by
        intro voter
        rcases hturned voter with hsame | ⟨haye, -⟩
        · exact .inl hsame.symm
        · exact .inr haye
      by_contra hpass
      rw [Bool.not_eq_false] at hpass
      have hpassed := hleans.didPass hpass
      rw [hfail] at hpassed
      cases hpassed

namespace Agora

/-- The founder opens a ballot. -/
def opened : List Op :=
  founding ++ [.openProposal "zed" "agora" (.addRule "be kind")]

def nayOf : Op := .castVote "zed" (composeId 0 1) false

def ayeOf : Op := .castVote "zed" (composeId 0 1) true

/-- The founder votes, and turns his nay into an aye. -/
def wavering : List Op := opened ++ [nayOf, ayeOf]

def resolute : List Op := opened ++ [ayeOf]

def askedRules : Proposal :=
  .new (composeId 0 1) sid (composeId 0 1) (.addRule "be kind") (day 0) (day 3)

def citizens : Roster := (services.run (.empty 0 (day 0)) founding).store.memberships

end Agora

/-- Who says nay and then aye has said aye. -/
theorem tally_of_last_ballots_wavering :
    Agora.services.finalTally (.empty 0 (Agora.day 0)) (Agora.wavering.map .op) Agora.citizens
        Agora.server Agora.askedRules (Agora.day 3) =
      Agora.services.finalTally (.empty 0 (Agora.day 0)) (Agora.resolute.map .op) Agora.citizens
        Agora.server Agora.askedRules (Agora.day 3) := by
  refine ((tally_of_last_ballots Agora.services 0 (Agora.day 0) (Agora.resolute.map .op)
    Agora.citizens Agora.server Agora.askedRules (Agora.day 3)).2.2 (Agora.wavering.map .op)).1 ?_
  funext voter
  have hwavering : Agora.services.ballotLog (.empty 0 (Agora.day 0)) (Agora.wavering.map .op) =
      [⟨composeId 0 1, composeId 0 1, false⟩, ⟨composeId 0 1, composeId 0 1, true⟩] := by
    decide +kernel
  have hresolute : Agora.services.ballotLog (.empty 0 (Agora.day 0)) (Agora.resolute.map .op) =
      [⟨composeId 0 1, composeId 0 1, true⟩] := by
    decide +kernel
  have hid : Agora.askedRules.id = composeId 0 1 := rfl
  beta_reduce
  rw [hwavering, hresolute, hid]
  by_cases hvoter : (composeId 0 1 : UserId) = voter
  · simp [lastSay, hvoter]
  · simp [lastSay, hvoter]

end Democrachat
