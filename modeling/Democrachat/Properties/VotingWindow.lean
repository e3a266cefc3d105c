import Democrachat.Library.Cell
import Democrachat.Polity.Closing
import Democrachat.Properties.LifeCycle

/-!
# The voting window

A cast ballot is refused once the proposal's status is not open any more, and
the status changes only when somebody resolves what is due.  The services keep
no record of when a ballot was cast; the log of a run does.
-/

namespace Democrachat

open Library Req

/-! ## The log of the ballots -/

/-- A ballot that the services accepted, and when. -/
structure Cast where
  vote : Vote
  castAt : Timestamp
deriving DecidableEq

/-- The ballot of a voter who was looked up, if the attempt was accepted. -/
def castOf (voter : Option User) (p : ProposalId) (isAye : Bool) (result : Except VoteError Unit) :
    Option Vote :=
  match result with
  | .ok _ => voter.map (fun user => ⟨p, user.id, isAye⟩)
  | .error _ => none

/-- The ballot that an operation casts, where it is accepted. -/
def Op.cast? (w : World) : Op → Option Vote
  | .castVote handle p isAye =>
    castOf (w.store.findByHandle (trim handle)) p isAye ((Democrachat.castVote handle p isAye).exec w).1
  | .castVoteById voter p isAye =>
    castOf (w.store.getUser voter) p isAye ((Democrachat.castVoteById voter p isAye).exec w).1
  | _ => none

/-- The accepted ballots of a run, in the order of its steps. -/
def Services.casts (services : Services) : World → List Op → List Cast
  | _, [] => []
  | w, op :: ops =>
    ((op.cast? w).map (fun v => (⟨v, w.now⟩ : Cast))).toList ++ services.casts (services.step w op) ops

/-- What the voter's last ballot on the proposal before an instant says. -/
def lastBallot (casts : List Cast) (p : ProposalId) (voter : UserId) (before : Timestamp) :
    Option Bool :=
  (casts.reverse.find? (fun c =>
    c.vote.proposalId == p && c.vote.voter == voter && decide (c.castAt < before))).map (·.vote.isAye)

/-- Ballots take each other's place by proposal and voter. -/
theorem foldl_recordVote (log : List Vote) :
    log.foldl recordVote [] = latest (fun v : Vote => (v.proposalId, v.voter)) log := by
  have hreplace : recordVote = fun votes v =>
      votes.filter (fun u => (u.proposalId, u.voter) ≠ (v.proposalId, v.voter)) ++ [v] := by
    funext votes v
    refine congrArg (· ++ [v]) (List.filter_congr (fun u _ => ?_))
    rw [Bool.eq_iff_iff]
    simp
  rw [hreplace, latest]

theorem mem_foldl_recordVote {log : List Vote} {v : Vote} :
    v ∈ log.foldl recordVote [] ↔
      log.reverse.find? (fun u => u.proposalId == v.proposalId && u.voter == v.voter) = some v := by
  have hfound : (fun u : Vote => u.proposalId == v.proposalId && u.voter == v.voter) =
      fun u => decide ((u.proposalId, u.voter) = (v.proposalId, v.voter)) := by
    funext u
    rw [Bool.eq_iff_iff]
    simp
  rw [foldl_recordVote, mem_iff_findKey (nodup_latest log), findKey_latest, findKey, hfound]

/-- The step casts no ballot on a proposal whose window has elapsed. -/
def InWindow (w : World) (op : Op) : Prop :=
  ∀ v ∈ op.cast? w, ∀ p ∈ w.store.getProposal v.proposalId, w.now < p.closesAt

instance (w : World) (op : Op) : Decidable (InWindow w op) :=
  inferInstanceAs (Decidable (∀ v ∈ op.cast? w, _))

/-! ## The store keeps the last ballots of the log -/

section Log

variable (services : Services) (w : World)

theorem exec_castVoteAs_ok {voterId : UserId} {p : ProposalId} {isAye : Bool} {u : Unit}
    (h : ((castVoteAs voterId p isAye).exec w).1 = .ok u) :
    (∃ q, w.store.getProposal p = some q) ∧
      ((castVoteAs voterId p isAye).exec w).2.polity.votes =
        recordVote w.polity.votes ⟨p, voterId, isAye⟩ := by
  simp only [castVoteAs, req_ask_bind, exec_okOr_bind, exec_ensure_bind, exec_liftM,
    exec_write] at h ⊢
  split at h
  next q hq =>
    have hid : q.id = p := Table.key_of_get hq
    split at h
    next hopen =>
      split at h
      next hvoter =>
        simp only [hopen, hvoter, hid]
        exact ⟨⟨q, hq⟩, rfl⟩
      next => cases h
    next => cases h
  next => cases h

theorem exec_castVoteAs_error {voterId : UserId} {p : ProposalId} {isAye : Bool} {e : VoteError}
    (h : ((castVoteAs voterId p isAye).exec w).1 = .error e) :
    ((castVoteAs voterId p isAye).exec w).2 = w := by
  simp only [castVoteAs, req_ask_bind, exec_okOr_bind, exec_ensure_bind, exec_liftM,
    exec_write] at h ⊢
  split
  next q hq =>
    split
    next hopen =>
      split
      next hvoter =>
        simp only [hq, hopen, hvoter] at h
        cases h
      next => rfl
    next => rfl
  next => rfl

theorem votes_castOf {voter : Option User} {p : ProposalId} {isAye : Bool} {e : VoteError}
    {r : Except VoteError Unit × World}
    (hr : r = match voter with
      | some user => (castVoteAs user.id p isAye).exec w
      | none => (.error e, w)) :
    (∀ v ∈ castOf voter p isAye r.1, ∃ q, w.store.getProposal v.proposalId = some q) ∧
      r.2.polity.votes = (castOf voter p isAye r.1).toList.foldl recordVote w.polity.votes := by
  subst hr
  cases voter with
  | none => exact ⟨fun _ h => (nomatch h), rfl⟩
  | some user =>
    simp only
    cases hresult : ((castVoteAs user.id p isAye).exec w).1 with
    | error e =>
      rw [exec_castVoteAs_error w hresult]
      exact ⟨fun _ h => (nomatch h), rfl⟩
    | ok u =>
      obtain ⟨hq, hvotes⟩ := exec_castVoteAs_ok w hresult
      refine ⟨fun v hv => ?_, hvotes⟩
      obtain rfl := Option.some.inj hv
      exact hq

/-- What the log takes down is what the store writes. -/
theorem votes_step (op : Op) :
    (∀ v ∈ op.cast? w, ∃ q, w.store.getProposal v.proposalId = some q) ∧
    (services.step w op).polity.votes =
      (op.cast? w).toList.foldl recordVote w.polity.votes := by
  have hother : op.isBallot = false → (services.step w op).polity.votes = w.polity.votes := by
    intro hop
    have hacts := services.acts w op
    generalize (services.step w op).polity = c at hacts ⊢
    cases hacts with
    | clock => rfl
    | ordinary _ h =>
      cases h with
      | refl => rfl
      | single h => cases h <;> rfl
    | credited _ h => cases h <;> rfl
    | voted hballot _ => rw [hop] at hballot; cases hballot
    | resolved _ => exact Polity.resolveDue_votes
    | _ => rfl
  cases op with
  | castVote handle p isAye =>
    refine votes_castOf w (e := .noSuchUser handle) ?_
    simp only [castVote, req_ask_bind, exec_okOr_bind]
    cases w.store.findByHandle (trim handle) <;> rfl
  | castVoteById voter p isAye =>
    refine votes_castOf w (e := .noSuchUser voter.display) ?_
    simp only [castVoteById, req_ask_bind, exec_okOr_bind]
    cases w.store.getUser voter <;> rfl
  | _ => exact ⟨by rintro _ ⟨⟩, hother rfl⟩

theorem votes_run (ops : List Op) :
    (services.run w ops).polity.votes =
      ((services.casts w ops).map (·.vote)).foldl recordVote w.polity.votes := by
  induction ops generalizing w with
  | nil => rfl
  | cons op ops ih =>
    have hstep := (votes_step services w op).2
    rw [Services.run_cons, ih, Services.casts, List.map_append, List.foldl_append, hstep]
    cases op.cast? w <;> rfl

variable {w}

/-- A ballot of the log is about a stored proposal, and came before its close. -/
theorem casts_inWindow (hw : services.Reachable w) {ops : List Op}
    (h : services.Throughout InWindow w ops) :
    ∀ cast ∈ services.casts w ops, ∃ p ∈ (services.run w ops).store.proposals.rows,
      p.id = cast.vote.proposalId ∧ cast.castAt < p.closesAt := by
  induction ops generalizing w with
  | nil => exact fun _ h => (nomatch h)
  | cons op ops ih =>
    obtain ⟨hop, hops⟩ := h
    intro cast hcast
    rcases List.mem_append.1 hcast with hcast | hcast
    · obtain ⟨v, hv, rfl⟩ := Option.map_eq_some_iff.1 (Option.mem_toList.1 hcast)
      obtain ⟨q, hq⟩ := (votes_step services w op).1 v hv
      have hbefore := hop v hv q hq
      have hstored : q ∈ w.store.proposals.rows := Table.mem_of_get hq
      obtain ⟨q', hq', hages⟩ := ages_run services hw (op :: ops) q hstored
      have hid : q.id = v.proposalId := Table.key_of_get hq
      refine ⟨q', hq', hages.id.trans hid, ?_⟩
      rw [hages.closesAt]
      exact hbefore
    · exact ih (hw.step op) hops cast hcast

end Log

/-! ## What a close counts -/

namespace Turn

variable (t : Turn)

def tally : Tally :=
  t.polity.tally t.session.scheme t.session.server t.session.now t.proposal.id

/-- The franchised members of the server whose last ballot before the close says this. -/
def timely (casts : List Cast) (isAye : Bool) : List Membership :=
  t.polity.roster.rows.filter fun m =>
    m.serverId == t.session.server && m.isFranchised &&
      lastBallot casts t.proposal.id m.userId t.proposal.closesAt == some isAye

def timelyTally (casts : List Cast) : Tally where
  aye := t.weigh (t.timely casts true)
  nay := t.weigh (t.timely casts false)

end Turn

section Close

variable {services : Services} {node : NodeId} {now : Timestamp} {ops : List Op} {slug : String}
  {t : Turn}

/-- In a run that keeps to the windows, the ballots found at a close are the
voters' last ones before it. -/
theorem mem_ballots_iff (h : services.Throughout InWindow (.empty node now) ops)
    (ht : t ∈ (services.run (.empty node now) ops).polity.resolveTurns slug)
    (voter : UserId) (isAye : Bool) :
    ⟨t.proposal.id, voter, isAye⟩ ∈ t.polity.ballots t.proposal.id ↔
      lastBallot (services.casts (.empty node now) ops) t.proposal.id voter
        t.proposal.closesAt = some isAye := by
  have hempty : services.Reachable (.empty node now) := ⟨node, now, [], rfl⟩
  have hlog := casts_inWindow services hempty h
  have hstored := resolveTurns_stored ht
  have htimely : ∀ cast ∈ services.casts (.empty node now) ops,
      cast.vote.proposalId = t.proposal.id → cast.castAt < t.proposal.closesAt := by
    intro cast hcast hid
    obtain ⟨p, hp, hpid, hbefore⟩ := hlog cast hcast
    obtain rfl : p = t.proposal :=
      Table.eq_of_key hp hstored (hpid.trans hid)
    exact hbefore
  have hvotes : t.polity.votes =
      ((services.casts (.empty node now) ops).map (·.vote)).foldl recordVote [] :=
    (resolveTurns_votes ht).trans (votes_run services _ ops)
  rw [Polity.ballots, List.mem_filter, hvotes, mem_foldl_recordVote, ← List.map_reverse,
    List.find?_map, lastBallot]
  have hsame : (services.casts (.empty node now) ops).reverse.find? (fun cast =>
        cast.vote.proposalId == t.proposal.id && cast.vote.voter == voter &&
          decide (cast.castAt < t.proposal.closesAt)) =
      (services.casts (.empty node now) ops).reverse.find? (fun cast =>
        cast.vote.proposalId == t.proposal.id && cast.vote.voter == voter) := by
    rw [← List.head?_filter, ← List.head?_filter]
    refine congrArg _ (List.filter_congr (fun cast hcast => ?_))
    by_cases hid : cast.vote.proposalId = t.proposal.id
    · simp [htimely cast (List.mem_reverse.1 hcast) hid]
    · simp [hid]
  rw [hsame, Option.map_eq_some_iff, Option.map_eq_some_iff]
  constructor
  · rintro ⟨⟨cast, hcast, hvote⟩, -⟩
    exact ⟨cast, hcast, congrArg Vote.isAye hvote⟩
  · rintro ⟨cast, hcast, haye⟩
    have hvoter := List.find?_some hcast
    simp only [Bool.and_eq_true, beq_iff_eq] at hvoter
    refine ⟨⟨cast, hcast, ?_⟩, by simp⟩
    rw [← hvoter.1, ← hvoter.2, ← haye]

/-- The members behind one side of the tally. -/
theorem voters_eq_timely (h : services.Throughout InWindow (.empty node now) ops)
    (ht : t ∈ (services.run (.empty node now) ops).polity.resolveTurns slug)
    (isAye : Bool) :
    t.polity.voters t.session.server
        ((t.polity.ballots t.proposal.id).filter (fun v => v.isAye == isAye)) =
      t.timely (services.casts (.empty node now) ops) isAye := by
  refine List.filter_congr (fun m _ => ?_)
  refine congrArg _ ?_
  rw [Bool.eq_iff_iff, beq_iff_eq, ← mem_ballots_iff h ht]
  simp only [List.any_eq_true, List.mem_filter, beq_iff_eq]
  constructor
  · rintro ⟨v, ⟨hv, rfl⟩, hvoter⟩
    have hid : v.proposalId = t.proposal.id := by simpa using (List.mem_filter.1 hv).2
    have hsame : v = ⟨t.proposal.id, m.userId, v.isAye⟩ := by rw [← hid, ← hvoter]
    rwa [hsame] at hv
  · exact fun hv => ⟨_, ⟨hv, rfl⟩, rfl⟩

theorem tally_eq_timelyTally (h : services.Throughout InWindow (.empty node now) ops)
    (ht : t ∈ (services.run (.empty node now) ops).polity.resolveTurns slug) :
    t.tally = t.timelyTally (services.casts (.empty node now) ops) := by
  have hw : services.Reachable (services.run (.empty node now) ops) := ⟨node, now, ops, rfl⟩
  have honce := (hw.ballotsKept.turn ht).ballots t.proposal.id
  have hside : ∀ isAye, (((t.polity.ballots t.proposal.id).filter (fun v => v.isAye == isAye)).map
      (t.polity.weight t.session.scheme t.session.server t.session.now)).sum =
      t.weigh (t.timely (services.casts (.empty node now) ops) isAye) := by
    intro isAye
    rw [sum_weight_eq _ _ (honce.filter _), voters_eq_timely h ht, Turn.weigh]
  rw [Turn.timelyTally, ← hside true, ← hside false]
  simp only [Turn.tally, Polity.tally, Polity.tallyOf, beq_true, beq_false]

end Close

/-! ## How long after the close -/

/-- Ballots from the close on do not count. -/
theorem lastBallot_append {casts late : List Cast} {p : ProposalId} {voter : UserId}
    {before : Timestamp} (h : ∀ cast ∈ late, before ≤ cast.castAt) :
    lastBallot (casts ++ late) p voter before = lastBallot casts p voter before := by
  have hnone : late.reverse.find? (fun cast => cast.vote.proposalId == p &&
      cast.vote.voter == voter && decide (cast.castAt < before)) = none := by
    refine List.find?_eq_none.2 (fun cast hcast hfound => ?_)
    have hlate := h cast (List.mem_reverse.1 hcast)
    simp only [Bool.and_eq_true, decide_eq_true_eq, Timestamp.lt_def] at hfound
    rw [Timestamp.le_def] at hlate
    omega
  rw [lastBallot, lastBallot, List.reverse_append, List.find?_append, hnone, Option.none_or]

theorem casts_append (services : Services) (w : World) (ops late : List Op) :
    services.casts w (ops ++ late) =
      services.casts w ops ++ services.casts (services.run w ops) late := by
  induction ops generalizing w with
  | nil => rfl
  | cons op ops ih =>
    rw [List.cons_append, Services.casts, ih, Services.casts, Services.run_cons, List.append_assoc]

namespace Turn

/-- The two turns are about one proposal and find the same electorate, which
the clock does not weigh. -/
structure Alike (t t' : Turn) : Prop where
  proposal : t'.proposal = t.proposal
  roster : t'.polity.roster = t.polity.roster
  scheme : t'.session.scheme = t.session.scheme
  untimed : t.session.scheme ≠ .byTenure

theorem closed_isPassed_iff (t : Turn) (hdue : t.isDue = true) :
    t.closed.status.isPassed = true ↔
      ∃ threshold ∈ t.threshold, (t.tally.decide t.session.citizens threshold).didPass = true := by
  rw [t.closed_of_due hdue, Proposal.close, Proposal.closedStatus_isPassed]
  rfl

theorem Alike.weigh {t t' : Turn} (h : t.Alike t') (ms : List Membership) :
    t'.weigh ms = t.weigh ms := by
  unfold Turn.weigh Polity.weigh
  rw [h.scheme]
  refine congrArg List.sum (List.map_congr_left (fun m _ => ?_))
  exact VoteWeighting.weightOf_eq_of_ne_byTenure h.untimed m _ _

theorem Alike.timelyTally {t t' : Turn} (h : t.Alike t')
    (hserver : t'.session.server = t.session.server) {casts late : List Cast}
    (hlate : ∀ cast ∈ late, t.proposal.closesAt ≤ cast.castAt) :
    t'.timelyTally (casts ++ late) = t.timelyTally casts := by
  have htimely : ∀ isAye, t'.timely (casts ++ late) isAye = t.timely casts isAye := by
    intro isAye
    unfold Turn.timely
    rw [h.roster, h.proposal, hserver]
    refine List.filter_congr (fun m _ => ?_)
    rw [lastBallot_append hlate]
  rw [Turn.timelyTally, Turn.timelyTally, htimely, htimely, h.weigh, h.weigh]

end Turn

/-- In every run that accepts no ballot once the window of its proposal has
elapsed, the tally at each close is that of the voters' last ballots before the
close; and between one electorate and the same at a later close nothing that is
done about ballots from the close on changes what is decided. -/
theorem voting_window_binds (services : Services) (node : NodeId) (now : Timestamp)
    (ops : List Op) (h : services.Throughout InWindow (.empty node now) ops) :
    (∀ slug, ∀ t ∈ (services.run (.empty node now) ops).polity.resolveTurns slug,
      t.isDue = true → t.tally = t.timelyTally (services.casts (.empty node now) ops)) ∧
    ∀ late, services.Throughout InWindow (services.run (.empty node now) ops) late →
      ∀ slug slug', ∀ t ∈ (services.run (.empty node now) ops).polity.resolveTurns slug,
        ∀ t' ∈ (services.run (.empty node now) (ops ++ late)).polity.resolveTurns slug',
          t.Alike t' → t.isDue = true → t'.isDue = true →
          (∀ cast ∈ services.casts (services.run (.empty node now) ops) late,
            t.proposal.closesAt ≤ cast.castAt) →
          t'.closed.status.isPassed = t.closed.status.isPassed := by
  refine ⟨fun slug t ht _ => tally_eq_timelyTally h ht, ?_⟩
  intro late hlate slug slug' t ht t' ht' halike hdue hdue' hafter
  have hboth := (services.throughout_append _ ops late).2 ⟨h, hlate⟩
  obtain ⟨server, -, hturn⟩ := mem_resolveTurns ht
  obtain ⟨server', -, hturn'⟩ := mem_resolveTurns ht'
  have honTurn := hturn.session.symm ▸ hturn.onTurn
  have honTurn' := hturn'.session.symm ▸ hturn'.onTurn
  have hserver : t'.session.server = t.session.server := by
    rw [honTurn'.server, honTurn.server, halike.proposal]
  have hcitizens : t'.session.citizens = t.session.citizens := by
    rw [honTurn'.citizens, honTurn.citizens, halike.proposal, halike.roster]
  have htally : t'.tally = t.tally := by
    rw [tally_eq_timelyTally hboth ht', tally_eq_timelyTally h ht, casts_append,
      halike.timelyTally hserver hafter]
  have hthreshold : t'.threshold = t.threshold := by
    rw [Turn.threshold, Turn.threshold, Session.phase, Session.phase, halike.proposal, hcitizens]
  rw [Bool.eq_iff_iff, t'.closed_isPassed_iff hdue', t.closed_isPassed_iff hdue, htally, hcitizens,
    hthreshold]

namespace Agora

/-- The founder opens a ballot, nobody votes, and three days go by. -/
def unvoted : List Op :=
  founding ++ [.openProposal "zed" "agora" (.addRule "be kind"), .setClock (day 3)]

/-- Nobody has resolved what is due, and the founder votes a day late. -/
def late : List Op := [.setClock (day 4), .castVote "zed" (composeId 0 1) true]

/-- The founder votes in time. -/
def voted : List Op :=
  founding ++ [.openProposal "zed" "agora" (.addRule "be kind"), .setClock (day 2),
    .castVote "zed" (composeId 0 1) true, .setClock (day 3)]

end Agora

theorem voting_window_binds_voted :
    (∀ t ∈ (Agora.services.run (.empty 0 (Agora.day 0)) Agora.voted).polity.resolveTurns "agora",
      t.isDue = true →
        t.tally = t.timelyTally (Agora.services.casts (.empty 0 (Agora.day 0)) Agora.voted)) ∧
    ∃ t ∈ (Agora.services.run (.empty 0 (Agora.day 0)) Agora.voted).polity.resolveTurns "agora",
      t.isDue = true :=
  ⟨(voting_window_binds Agora.services 0 (Agora.day 0) Agora.voted (by decide +kernel)).1 "agora",
    by decide +kernel⟩

/-- The vote that comes a day after the close is counted, and turns the outcome. -/
theorem voting_window_open :
    ¬ ((∀ t ∈ (Agora.services.run (.empty 0 (Agora.day 0))
          (Agora.unvoted ++ Agora.late)).polity.resolveTurns "agora",
        t.isDue = true → t.tally =
          t.timelyTally (Agora.services.casts (.empty 0 (Agora.day 0)) (Agora.unvoted ++ Agora.late))) ∨
      ∀ t ∈ (Agora.services.run (.empty 0 (Agora.day 0)) Agora.unvoted).polity.resolveTurns "agora",
        ∀ t' ∈ (Agora.services.run (.empty 0 (Agora.day 0))
            (Agora.unvoted ++ Agora.late)).polity.resolveTurns "agora",
          t.closed.status.isPassed = t'.closed.status.isPassed) := by
  decide +kernel

end Democrachat
