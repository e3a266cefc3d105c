import Democrachat.App.EmojiRanking
import Democrachat.Properties.LastBallots
import Democrachat.Properties.Names

/-!
# The ranking of the emojis

What `ranked_emojis` lists in any state of the store, and what the scores are after a run of
use-cases: the last votes of the franchised members.
-/

namespace Democrachat

open Library Req

/-! ## Scores -/

/-- How many of the votes on an emoji go this way. -/
def votesFor (votes : List EmojiVote) (id : EmojiId) (isUp : Bool) : Nat :=
  votes.countP (fun v => v.emojiId == id && v.isUp == isUp)

/-- The ups of an emoji less its downs. -/
def netVotes (votes : List EmojiVote) (id : EmojiId) : Int :=
  votesFor votes id true - votesFor votes id false

theorem scoreOf_add (scores : EmojiScores) (v : EmojiVote) (id : EmojiId) :
    (scores.add v).scoreOf id =
      scores.scoreOf id + if v.emojiId = id then (if v.isUp then 1 else -1) else 0 := by
  let read := fun o : Option (EmojiId × Int) => (o.map Prod.snd).getD 0
  by_cases h : v.emojiId = id
  · subst h
    rw [if_pos rfl]
    exact congrArg read (Table.get_insert_self _ _)
  · rw [if_neg h, Int.add_zero]
    exact congrArg read (Table.get_insert_of_ne _ (Ne.symm h))

theorem scoreOf_foldl_add (votes : List EmojiVote) (scores : EmojiScores) (id : EmojiId) :
    EmojiScores.scoreOf (votes.foldl EmojiScores.add scores) id =
      scores.scoreOf id + netVotes votes id := by
  induction votes generalizing scores with
  | nil => simp [netVotes, votesFor]
  | cons v votes ih =>
    rw [List.foldl_cons, ih, scoreOf_add]
    unfold netVotes votesFor
    rw [List.countP_cons, List.countP_cons]
    by_cases h : v.emojiId = id
    · cases hup : v.isUp
      · simp [h]
        omega
      · simp [h]
        omega
    · simp [h]

/-- The net votes that the franchised members of the server have in the store. -/
def Inner.netScore (s : Inner) (server : ServerId) (id : EmojiId) : Int :=
  netVotes ((s.emojiVotesForServer server).filter
    (fun v => (s.emojiCitizens server).contains v.voter)) id

theorem scoreOf_emojiScores (s : Inner) (server : ServerId) (id : EmojiId) :
    (s.emojiScores server).scoreOf id = s.netScore server id := by
  rw [Inner.emojiScores, scoreOf_foldl_add]
  exact Int.zero_add _

/-! ## The list of a state -/

/-- A higher score, or the same one and an older emoji. -/
def Preferred (score : EmojiId → Int) (a b : EmojiId) : Prop :=
  score b < score a ∨ (score a = score b ∧ a < b)

instance (score : EmojiId → Int) : DecidableRel (Preferred score) := fun _ _ =>
  inferInstanceAs (Decidable (_ ∨ _))

/-- How many of the emojis are preferred to this one. -/
def emojiPlace (score : EmojiId → Int) (emojis : List Emoji) (id : EmojiId) : Nat :=
  rank (Preferred score) (emojis.map Emoji.id) id

/-- How an emoji is listed that has this score and this place. -/
def Emoji.ranked (e : Emoji) (score : Int) (place : Nat) (myVote : Option Bool) : RankedEmoji where
  id := e.id
  name := e.name
  url := e.url
  score := score
  standing := .ofRank place
  myVote := myVote

/-- All the emojis but the archived ones, by their places. -/
structure RankedList (emojis : List Emoji) (score : EmojiId → Int)
    (myVote : EmojiId → Option Bool) (items : List RankedEmoji) : Prop where
  listed : ∀ item, item ∈ items ↔ item.standing ≠ .archived ∧ ∃ e ∈ emojis,
    item = e.ranked (score e.id) (emojiPlace score emojis e.id) (myVote e.id)
  ordered : items.Pairwise (fun a b => Preferred score a.id b.id)
  tiers : items.Pairwise (fun a b => a.standing.tier ≤ b.standing.tier)

section Listing

variable {score score' : EmojiId → Int} {a b c : EmojiId} {emojis : List Emoji}

theorem Preferred.trans (h : Preferred score a b) (h' : Preferred score b c) :
    Preferred score a c := by
  rcases h with h | ⟨h, hlt⟩
  · rcases h' with h' | ⟨h', -⟩
    · exact .inl (by omega)
    · exact .inl (by omega)
  · rcases h' with h' | ⟨h', hlt'⟩
    · exact .inl (by omega)
    · exact .inr ⟨by omega, hlt.trans hlt'⟩

/-- The order of the indices is the order of the emojis. -/
theorem emojiRank_eq (hsorted : emojis.Pairwise (fun e e' => e.id < e'.id)) {i : Nat}
    (hi : i < emojis.length) :
    emojiRank (emojis.map (fun e => score e.id)) i = emojiPlace score emojis emojis[i].id := by
  have hscore : ∀ (k : Nat) (hk : k < emojis.length),
      (emojis.map (fun e => score e.id)).getD k 0 = score emojis[k].id := by
    intro k hk
    rw [List.getD_eq_getElem?_getD, List.getElem?_map, List.getElem?_eq_getElem hk]
    rfl
  have hids : ∀ (k : Nat) (hk : k < emojis.length), k < i ↔ emojis[k].id < emojis[i].id := by
    intro k hk
    have hlt := List.pairwise_iff_getElem.1 hsorted
    constructor
    · exact fun hki => hlt k i hk hi hki
    · intro hid
      by_contra hle
      rcases Nat.lt_or_eq_of_le (Nat.le_of_not_lt hle) with hik | rfl
      · exact lt_asymm hid (hlt i k hi hk hik)
      · exact lt_irrefl _ hid
  have hrank := rank_range (Outranks (emojis.map (fun e => score e.id)))
    (r := fun e e' : Emoji => Preferred score e.id e'.id) hi (fun k hk => by
      unfold Outranks Preferred
      rw [hscore k hk, hscore i hi, hids k hk])
  rw [emojiRank, List.length_map, hrank, emojiPlace, rank, rank, List.countP_map]
  rfl

/-- Only the scores of the emojis count. -/
theorem emojiPlace_congr (h : ∀ e ∈ emojis, score e.id = score' e.id) {e : Emoji}
    (he : e ∈ emojis) : emojiPlace score emojis e.id = emojiPlace score' emojis e.id := by
  refine rank_congr _ (fun id hid => ?_)
  obtain ⟨e', he', rfl⟩ := List.mem_map.1 hid
  unfold Preferred
  rw [h e he, h e' he']

end Listing

section State

variable (s : Inner) (serverSlug viewerHandle : String)

/-- What the viewer has voted. -/
def Inner.viewerVote (s : Inner) (viewerHandle : String) (id : EmojiId) : Option Bool :=
  ((s.findByHandle (trim viewerHandle)).map (·.id)).bind (s.myEmojiVote id)

theorem rankedEmojis_of_found {server : Server}
    (hserver : s.findBySlug (trim serverSlug) = some server) :
    s.rankedEmojis serverSlug viewerHandle =
      (((s.listEmojis server.id).map (fun e => e.ranked (s.netScore server.id e.id)
        (emojiPlace (s.netScore server.id) (s.listEmojis server.id) e.id)
        (s.viewerVote viewerHandle e.id))).filter (fun item => item.standing.isListed)).mergeSort
          RankedEmoji.isBefore := by
  have hsorted : (s.listEmojis server.id).Pairwise (fun e e' => e.id < e'.id) :=
    s.emojis.sorted.filter _
  have hstays : (s.listEmojis server.id).mergeSort (fun a b => decide (a.id ≤ b.id)) =
      s.listEmojis server.id :=
    List.mergeSort_of_pairwise (hsorted.imp (fun h => decide_eq_true h.le))
  rw [Inner.rankedEmojis, hserver]
  simp only [hstays, scoreOf_emojiScores]
  generalize s.listEmojis server.id = emojis at hsorted ⊢
  generalize s.netScore server.id = score
  let item := fun e : Emoji =>
    e.ranked (score e.id) (emojiPlace score emojis e.id) (s.viewerVote viewerHandle e.id)
  have hstanding : ∀ p ∈ emojis.zipIdx,
      (rankEmojis (emojis.map (fun e => score e.id))).getD p.2 .archived = (item p.1).standing ∧
      (emojis.map (fun e => score e.id)).getD p.2 0 = (item p.1).score := by
    intro p hp
    obtain ⟨hlt, he⟩ := List.getElem?_eq_some_iff.1 (List.mem_zipIdx_iff_getElem?.1 hp)
    rw [List.getD_eq_getElem?_getD, List.getD_eq_getElem?_getD,
      getElem?_rankEmojis (by simpa using hlt), emojiRank_eq hsorted hlt, List.getElem?_map,
      List.getElem?_eq_getElem hlt, he]
    exact ⟨rfl, rfl⟩
  refine congrArg (fun items : List RankedEmoji => items.mergeSort RankedEmoji.isBefore) ?_
  calc _ = (emojis.zipIdx.filter (fun p => (item p.1).standing.isListed)).map
        (fun p => item p.1) := by
        rw [List.filter_congr (fun p hp => by rw [(hstanding p hp).1])]
        refine List.map_congr_left (fun p hp => ?_)
        obtain ⟨hlisted, hscore⟩ := hstanding p (List.mem_filter.1 hp).1
        rw [hlisted, hscore]
        rfl
    _ = ((emojis.zipIdx.map Prod.fst).map item).filter (fun x => x.standing.isListed) := by
        rw [List.map_map, List.filter_map]
        rfl
    _ = (emojis.map item).filter (fun x => x.standing.isListed) := by
        rw [List.zipIdx_map_fst]

theorem isBefore_trans (a b c : RankedEmoji) (h : a.isBefore b = true)
    (h' : b.isBefore c = true) : a.isBefore c = true := by
  simp only [RankedEmoji.isBefore, Bool.or_eq_true, Bool.and_eq_true, decide_eq_true_eq] at *
  rcases h with h | ⟨h, hid⟩
  · rcases h' with h' | ⟨h', -⟩
    · exact .inl (by omega)
    · exact .inl (by omega)
  · rcases h' with h' | ⟨h', hid'⟩
    · exact .inl (by omega)
    · exact .inr ⟨by omega, hid.trans hid'⟩

theorem isBefore_total (a b : RankedEmoji) : (a.isBefore b || b.isBefore a) = true := by
  simp only [RankedEmoji.isBefore, Bool.or_eq_true, Bool.and_eq_true, decide_eq_true_eq]
  rcases lt_trichotomy a.score b.score with hlt | heq | hgt
  · exact .inr (.inl hlt)
  · rcases le_total a.id b.id with hid | hid
    · exact .inl (.inr ⟨heq.symm, hid⟩)
    · exact .inr (.inr ⟨heq, hid⟩)
  · exact .inl (.inl hgt)

theorem rankedList_of_found {server : Server}
    (hserver : s.findBySlug (trim serverSlug) = some server) :
    RankedList (s.listEmojis server.id) (s.netScore server.id) (s.viewerVote viewerHandle)
      (s.rankedEmojis serverSlug viewerHandle) := by
  have hsorted : (s.listEmojis server.id).Pairwise (fun e e' => e.id < e'.id) :=
    s.emojis.sorted.filter _
  rw [rankedEmojis_of_found s serverSlug viewerHandle hserver]
  generalize s.listEmojis server.id = emojis at hsorted ⊢
  generalize s.netScore server.id = score
  generalize hitems : (emojis.map (fun e => e.ranked (score e.id) (emojiPlace score emojis e.id)
    (s.viewerVote viewerHandle e.id))).filter (fun item => item.standing.isListed) = items
  have hlisted : ∀ item, item ∈ items ↔ item.standing ≠ .archived ∧ ∃ e ∈ emojis,
      item = e.ranked (score e.id) (emojiPlace score emojis e.id)
        (s.viewerVote viewerHandle e.id) := by
    intro item
    rw [← hitems, List.mem_filter, List.mem_map, EmojiStanding.isListed_iff, and_comm]
    simp only [eq_comm]
  have hdistinct : items.Pairwise (fun a b => a.id ≠ b.id) := by
    rw [← hitems]
    exact (List.pairwise_map.2 (hsorted.imp (fun h => h.ne))).filter _
  have hordered : (items.mergeSort RankedEmoji.isBefore).Pairwise
      (fun a b => Preferred score a.id b.id) := by
    have hne := (List.mergeSort_perm items RankedEmoji.isBefore).symm.pairwise hdistinct
      (fun h => h.symm)
    refine ((List.pairwise_mergeSort isBefore_trans isBefore_total items).and hne).imp_of_mem
      (fun {a b} ha hb h => ?_)
    obtain ⟨-, e, -, rfl⟩ := (hlisted a).1 (List.mem_mergeSort.1 ha)
    obtain ⟨-, e', -, rfl⟩ := (hlisted b).1 (List.mem_mergeSort.1 hb)
    have hbefore := h.1
    simp only [RankedEmoji.isBefore, Bool.or_eq_true, Bool.and_eq_true,
      decide_eq_true_eq] at hbefore
    rcases hbefore with hlt | ⟨heq, hle⟩
    · exact .inl hlt
    · exact .inr ⟨heq.symm, lt_of_le_of_ne hle h.2⟩
  refine ⟨fun item => ?_, hordered, hordered.imp_of_mem (fun {a b} ha hb h => ?_)⟩
  · rw [List.mem_mergeSort]
    exact hlisted item
  · obtain ⟨-, e, -, rfl⟩ := (hlisted a).1 (List.mem_mergeSort.1 ha)
    obtain ⟨-, e', -, rfl⟩ := (hlisted b).1 (List.mem_mergeSort.1 hb)
    exact EmojiStanding.tier_ofRank_le (rank_le_rank (fun _ _ _ h h' => h.trans h') h)

end State

/-! ## The last votes -/

/-- The emojis have ids of their own, and a vote goes to an emoji of its server. -/
structure World.EmojisSound (w : World) : Prop where
  minted : ∀ e ∈ w.store.emojis.rows, Minted w.store.node w.store.nextEmoji e.id
  placed : ∀ v ∈ w.store.emojiVotes,
    ∃ e ∈ w.store.emojis.rows, e.id = v.emojiId ∧ e.serverId = v.serverId

/-- The vote that a use-case casts, where it is accepted. -/
def UseCase.emojiVote? (w : World) : UseCase → Option EmojiVote
  | .voteEmoji voterHandle serverSlug emojiId isUp =>
    match ((Democrachat.voteEmoji voterHandle serverSlug emojiId isUp).exec w).1,
      w.store.findBySlug (trim serverSlug), w.store.findByHandle (trim voterHandle) with
    | .ok _, some server, some user => some ⟨server.id, emojiId, user.id, isUp⟩
    | _, _, _ => none
  | _ => none

/-- The accepted votes of a run, in the order of its steps. -/
def Services.emojiVoteLog (services : Services) : World → List UseCase → List EmojiVote
  | _, [] => []
  | w, u :: us => (u.emojiVote? w).toList ++ services.emojiVoteLog (services.serve w u) us

/-- What the voter's last vote on the emoji tells. -/
def lastEmojiVote (log : List EmojiVote) (id : EmojiId) (voter : UserId) : Option Bool :=
  (log.reverse.find? (fun v => v.emojiId == id && v.voter == voter)).map (·.isUp)

section Votes

variable {s : Inner} {server : ServerId}

theorem recordEmojiVote_eq (votes : List EmojiVote) (v : EmojiVote) :
    recordEmojiVote votes v = votes.filter (fun u => u.key ≠ v.key) ++ [v] := by
  refine congrArg (· ++ [v]) (List.filter_congr (fun u _ => ?_))
  rw [Bool.eq_iff_iff]
  simp [EmojiVote.key]

theorem foldl_recordEmojiVote (log : List EmojiVote) :
    log.foldl recordEmojiVote [] = latest EmojiVote.key log := by
  unfold latest
  rw [show recordEmojiVote = _ from funext fun votes => funext fun v => recordEmojiVote_eq votes v]

theorem findKey_key (votes : List EmojiVote) (id : EmojiId) (voter : UserId) :
    votes.find? (fun v => v.emojiId == id && v.voter == voter) =
      findKey EmojiVote.key votes (id, voter) := by
  refine congrArg (fun p => votes.find? p) (funext fun v => ?_)
  rw [Bool.eq_iff_iff]
  simp [EmojiVote.key]

/-- The store tells the last votes of the log. -/
theorem myEmojiVote_of_log {log : List EmojiVote}
    (hvotes : s.emojiVotes = log.foldl recordEmojiVote []) (id : EmojiId) :
    s.myEmojiVote id = lastEmojiVote log id := by
  funext voter
  rw [Inner.myEmojiVote, lastEmojiVote, hvotes, foldl_recordEmojiVote, findKey_key, findKey_key,
    findKey_latest]

theorem mem_emojiCitizens {user : UserId} : user ∈ s.emojiCitizens server ↔
    ∃ m ∈ s.memberships.rows, m.serverId = server ∧ m.isFranchised = true ∧ m.userId = user := by
  simp only [Inner.emojiCitizens, Inner.listMembers, List.mem_map, List.mem_filter, beq_iff_eq]
  constructor
  · rintro ⟨m, ⟨⟨hm, hserver⟩, hfranchised⟩, huser⟩
    exact ⟨m, hm, hserver, hfranchised, huser⟩
  · rintro ⟨m, hm, hserver, hfranchised, huser⟩
    exact ⟨m, ⟨⟨hm, hserver⟩, hfranchised⟩, huser⟩

/-- As many of the votes that count go one way as there are members who say so. -/
theorem votesFor_eq (hnodup : (s.emojiVotes.map EmojiVote.key).Nodup) {id : EmojiId}
    (hplaced : ∀ v ∈ s.emojiVotes, v.emojiId = id → v.serverId = server) (isUp : Bool) :
    votesFor ((s.emojiVotesForServer server).filter
        (fun v => (s.emojiCitizens server).contains v.voter)) id isUp =
      (s.memberships.saying server (s.myEmojiVote id) isUp).length := by
  have hvote : ∀ voter, s.myEmojiVote id voter = some isUp ↔
      ∃ v ∈ s.emojiVotes, v.emojiId = id ∧ v.voter = voter ∧ v.isUp = isUp := by
    intro voter
    rw [Inner.myEmojiVote, findKey_key, Option.map_eq_some_iff]
    constructor
    · rintro ⟨v, hfound, hup⟩
      have hkey : v.key = (id, voter) := by simpa using List.find?_some hfound
      obtain ⟨hid, hvoter⟩ := Prod.mk.inj hkey
      exact ⟨v, List.mem_of_find?_eq_some hfound, hid, hvoter, hup⟩
    · rintro ⟨v, hv, rfl, rfl, hup⟩
      exact ⟨v, (mem_iff_findKey hnodup).1 hv, hup⟩
  generalize hfrom : ((s.emojiVotesForServer server).filter
    (fun v => (s.emojiCitizens server).contains v.voter)).filter
      (fun v => v.emojiId == id && v.isUp == isUp) = counted
  have hcounted : ∀ v, v ∈ counted ↔ v ∈ s.emojiVotes ∧ v.emojiId = id ∧ v.isUp = isUp ∧
      v.voter ∈ s.emojiCitizens server := by
    intro v
    simp only [← hfrom, Inner.emojiVotesForServer, List.mem_filter, beq_iff_eq, Bool.and_eq_true,
      List.contains_iff_mem]
    constructor
    · rintro ⟨⟨⟨hv, -⟩, hcitizen⟩, hid, hup⟩
      exact ⟨hv, hid, hup, hcitizen⟩
    · rintro ⟨hv, hid, hup, hcitizen⟩
      exact ⟨⟨⟨hv, hplaced v hv hid⟩, hcitizen⟩, hid, hup⟩
  have hvoters : (counted.map (·.voter)).Nodup := by
    have hkeys : (counted.map EmojiVote.key).Nodup := by
      rw [← hfrom]
      exact nodup_filter (nodup_filter (nodup_filter hnodup _) _) _
    refine List.pairwise_map.2 ((List.pairwise_map.1 hkeys).imp_of_mem
      (fun {u v} hu hv hne hvoter => hne ?_))
    exact Prod.ext (((hcounted u).1 hu).2.1.trans ((hcounted v).1 hv).2.1.symm) hvoter
  have hmembers : ((s.memberships.saying server (s.myEmojiVote id) isUp).map
      (·.userId)).Nodup := by
    have hkeys := s.memberships.sorted.imp (fun {m m'} h => h.ne)
    refine List.pairwise_map.2 ((hkeys.filter _).imp_of_mem (fun {m m'} hm hm' hne huser => hne ?_))
    simp only [Roster.saying, List.mem_filter, Bool.and_eq_true, beq_iff_eq] at hm hm'
    exact Membership.key_eq_key.2 ⟨huser, hm.2.1.1.trans hm'.2.1.1.symm⟩
  have hperm : (counted.map (·.voter)).Perm
      ((s.memberships.saying server (s.myEmojiVote id) isUp).map (·.userId)) := by
    refine (List.perm_ext_iff_of_nodup hvoters hmembers).2 (fun voter => ?_)
    simp only [List.mem_map, hcounted, mem_emojiCitizens, Roster.saying, List.mem_filter,
      Bool.and_eq_true, beq_iff_eq]
    constructor
    · rintro ⟨v, ⟨hv, hid, hup, m, hm, hserver, hfranchised, huser⟩, rfl⟩
      exact ⟨m, ⟨hm, ⟨hserver, hfranchised⟩, (hvote _).2 ⟨v, hv, hid, huser.symm, hup⟩⟩, huser⟩
    · rintro ⟨m, ⟨hm, ⟨hserver, hfranchised⟩, hsay⟩, rfl⟩
      obtain ⟨v, hv, hid, hvoter, hup⟩ := (hvote _).1 hsay
      exact ⟨v, ⟨hv, hid, hup, m, hm, hserver, hfranchised, hvoter.symm⟩, hvoter⟩
  have hlength := hperm.length_eq
  rw [List.length_map, List.length_map] at hlength
  rw [votesFor, List.countP_eq_length_filter, hfrom, hlength]

end Votes

/-! ## Runs -/

section Run

variable {services : Services} {w : World}

theorem voteEmoji_cases (w : World) (voterHandle serverSlug : String) (emojiId : EmojiId)
    (isUp : Bool) :
    (∃ e, (voteEmoji voterHandle serverSlug emojiId isUp).exec w = (.error e, w)) ∨
    ∃ server user emoji, w.store.findBySlug (trim serverSlug) = some server ∧
      w.store.findByHandle (trim voterHandle) = some user ∧
      w.store.getEmoji emojiId = some emoji ∧ emoji.serverId = server.id ∧
      (voteEmoji voterHandle serverSlug emojiId isUp).exec w =
        (.ok (), w.mapStore (·.upsertEmojiVote ⟨server.id, emojiId, user.id, isUp⟩)) := by
  simp only [voteEmoji, req_ask_bind, exec_okOr_bind, exec_liftM, exec_write]
  split
  next server hserver =>
    split
    next user huser =>
      split
      next =>
        split
        next emoji hemoji =>
          obtain ⟨hfound, hplaced⟩ := Option.filter_eq_some_iff.1 hemoji
          have hid : emoji.id = emojiId := Table.key_of_get hfound
          rw [hid]
          exact .inr ⟨server, user, emoji, hserver, huser, hfound, beq_iff_eq.1 hplaced, rfl⟩
        next => exact .inl ⟨_, rfl⟩
      next => exact .inl ⟨_, rfl⟩
    next => exact .inl ⟨_, rfl⟩
  next => exact .inl ⟨_, rfl⟩

theorem emojiVotes_serve (services : Services) (w : World) (u : UseCase) :
    (services.serve w u).store.emojiVotes =
      (u.emojiVote? w).toList.foldl recordEmojiVote w.store.emojiVotes := by
  have hspares := spares_serve services w u
  cases u with
  | addEmoji adderHandle serverSlug name url =>
    rcases addEmoji_cases w adderHandle serverSlug name url with hsame | ⟨_, _, -, hadded⟩
    · exact congrArg (fun w => w.store.emojiVotes) hsame
    · exact congrArg (fun w => w.store.emojiVotes) hadded
  | voteEmoji voterHandle serverSlug emojiId isUp =>
    rcases voteEmoji_cases w voterHandle serverSlug emojiId isUp with
      ⟨e, herror⟩ | ⟨server, user, emoji, hserver, huser, -, -, hvoted⟩
    · rw [Services.serve, UseCase.emojiVote?, herror]
      rfl
    · rw [Services.serve, UseCase.emojiVote?, hvoted, hserver, huser]
      rfl
  | op op =>
    cases op with
    | _ => exact hspares.emojiVotes rfl
  | _ => exact hspares.emojiVotes rfl

theorem emojiVotes_serveAll (services : Services) (w : World) (us : List UseCase) :
    (services.serveAll w us).store.emojiVotes =
      (services.emojiVoteLog w us).foldl recordEmojiVote w.store.emojiVotes := by
  induction us generalizing w with
  | nil => rfl
  | cons u us ih =>
    show (services.serveAll (services.serve w u) us).store.emojiVotes = _
    rw [ih, emojiVotes_serve, Services.emojiVoteLog, List.foldl_append]

namespace World.EmojisSound

theorem of_same {w' : World} (h : w.EmojisSound) (hnode : w'.store.node = w.store.node)
    (hemojis : w'.store.emojis = w.store.emojis)
    (hnext : w'.store.nextEmoji = w.store.nextEmoji)
    (hvotes : w'.store.emojiVotes = w.store.emojiVotes) : w'.EmojisSound where
  minted := by
    rw [hemojis, hnode, hnext]
    exact h.minted
  placed := by
    rw [hemojis, hvotes]
    exact h.placed

theorem addEmoji (h : w.EmojisSound) {e : Emoji} (hid : e.id = w.store.nextEmojiId.1) :
    ((w.mapStore (·.nextEmojiId.2)).mapStore (·.insertEmoji e)).EmojisSound where
  minted := by
    intro e' he'
    rcases Table.mem_insert.1 he' with rfl | ⟨he', -⟩
    · rw [hid]
      exact minted_composeId
    · exact (h.minted e' he').succ
  placed := by
    intro v hv
    obtain ⟨e', he', hvote, hserver⟩ := h.placed v hv
    refine ⟨e', Table.mem_insert.2 (.inr ⟨he', ?_⟩), hvote, hserver⟩
    rw [hid]
    exact (h.minted e' he').ne_composeId

theorem voteEmoji (h : w.EmojisSound) {v : EmojiVote} {e : Emoji}
    (he : w.store.getEmoji v.emojiId = some e) (hserver : e.serverId = v.serverId) :
    (w.mapStore (·.upsertEmojiVote v)).EmojisSound where
  minted := h.minted
  placed := by
    intro v' hv'
    rcases List.mem_append.1 hv' with hv' | hv'
    · exact h.placed v' (List.mem_filter.1 hv').1
    · rw [List.mem_singleton.1 hv']
      exact ⟨e, Table.mem_of_get he, Table.key_of_get he, hserver⟩

theorem serve (h : w.EmojisSound) (u : UseCase) : (services.serve w u).EmojisSound := by
  have hspares := spares_serve services w u
  cases u with
  | addEmoji adderHandle serverSlug name url =>
    rcases addEmoji_cases w adderHandle serverSlug name url with hsame | ⟨_, _, -, hadded⟩
    · rw [Services.serve, hsame]
      exact h
    · rw [Services.serve, hadded]
      exact h.addEmoji rfl
  | voteEmoji voterHandle serverSlug emojiId isUp =>
    rcases voteEmoji_cases w voterHandle serverSlug emojiId isUp with
      ⟨e, herror⟩ | ⟨server, user, emoji, -, -, hemoji, hserver, hvoted⟩
    · rw [Services.serve, herror]
      exact h
    · rw [Services.serve, hvoted]
      exact h.voteEmoji hemoji hserver
  | op op =>
    cases op with
    | _ =>
      exact h.of_same hspares.node (hspares.emojis rfl) (hspares.nextEmoji rfl)
        (hspares.emojiVotes rfl)
  | _ =>
    exact h.of_same hspares.node (hspares.emojis rfl) (hspares.nextEmoji rfl)
      (hspares.emojiVotes rfl)

end World.EmojisSound

theorem Services.Served.emojisSound (hw : services.Served w) : w.EmojisSound :=
  hw.invariant (I := World.EmojisSound)
    (fun _ _ => ⟨fun _ he => (nomatch he), fun _ hv => (nomatch hv)⟩) (fun _ u _ h => h.serve u)

end Run

/-- The franchised members for an emoji less those against it, by what they said last. -/
def Roster.netSaying (r : Roster) (server : ServerId) (say : UserId → Option Bool) : Int :=
  (r.saying server say true).length - (r.saying server say false).length

/-- A net score goes by the last votes of the log. -/
theorem netScore_of_log {s : Inner} {server : ServerId} {log : List EmojiVote}
    (hvotes : s.emojiVotes = log.foldl recordEmojiVote []) {id : EmojiId}
    (hplaced : ∀ v ∈ s.emojiVotes, v.emojiId = id → v.serverId = server) :
    s.netScore server id = s.memberships.netSaying server (lastEmojiVote log id) := by
  have hnodup : (s.emojiVotes.map EmojiVote.key).Nodup := by
    rw [hvotes, foldl_recordEmojiVote]
    exact nodup_latest _
  rw [Inner.netScore, netVotes, votesFor_eq hnodup hplaced true, votesFor_eq hnodup hplaced false,
    myEmojiVote_of_log hvotes]
  rfl

/-- In a list of ranked emojis only the scores of these emojis count. -/
theorem RankedList.congr {emojis : List Emoji} {score score' : EmojiId → Int}
    {myVote : EmojiId → Option Bool} {items : List RankedEmoji}
    (h : RankedList emojis score myVote items) (heq : ∀ e ∈ emojis, score e.id = score' e.id) :
    RankedList emojis score' myVote items := by
  have hlisted : ∀ item, item ∈ items ↔ item.standing ≠ .archived ∧ ∃ e ∈ emojis,
      item = e.ranked (score' e.id) (emojiPlace score' emojis e.id) (myVote e.id) := by
    intro item
    rw [h.listed]
    refine and_congr_right (fun _ => exists_congr (fun e => and_congr_right (fun he => ?_)))
    rw [heq e he, emojiPlace_congr heq he]
  refine ⟨hlisted, h.ordered.imp_of_mem (fun {a b} ha hb hab => ?_), h.tiers⟩
  obtain ⟨-, e, he, rfl⟩ := (hlisted a).1 ha
  obtain ⟨-, e', he', rfl⟩ := (hlisted b).1 hb
  unfold Preferred at hab ⊢
  rwa [show score (e.ranked _ _ _).id = score' e.id from heq e he,
    show score (e'.ranked _ _ _).id = score' e'.id from heq e' he'] at hab

/-- For all scores the standings follow the order of the scores; in every state of the store
the list holds the emojis that are not archived, the active ones first; and after every run of
use-cases the scores are the ups less the downs of the franchised members' last votes. -/
theorem emojis_ranked :
    (∀ scores, RankedBy scores (rankEmojis scores)) ∧
    (∀ (s : Inner) (serverSlug viewerHandle : String),
      match s.findBySlug (trim serverSlug) with
      | none => s.rankedEmojis serverSlug viewerHandle = []
      | some server =>
        RankedList (s.listEmojis server.id) (s.netScore server.id) (s.viewerVote viewerHandle)
          (s.rankedEmojis serverSlug viewerHandle)) ∧
    ∀ (services : Services) (node : NodeId) (now : Timestamp) (us : List UseCase)
      (serverSlug viewerHandle : String),
      let s := (services.serveAll (.empty node now) us).store
      let say := lastEmojiVote (services.emojiVoteLog (.empty node now) us)
      match s.findBySlug (trim serverSlug) with
      | none => s.rankedEmojis serverSlug viewerHandle = []
      | some server =>
        RankedList (s.listEmojis server.id)
          (fun id => s.memberships.netSaying server.id (say id))
          (fun id => ((s.findByHandle (trim viewerHandle)).map (·.id)).bind (say id))
          (s.rankedEmojis serverSlug viewerHandle) := by
  have hstate : ∀ (s : Inner) (serverSlug viewerHandle : String),
      match s.findBySlug (trim serverSlug) with
      | none => s.rankedEmojis serverSlug viewerHandle = []
      | some server =>
        RankedList (s.listEmojis server.id) (s.netScore server.id) (s.viewerVote viewerHandle)
          (s.rankedEmojis serverSlug viewerHandle) := by
    intro s serverSlug viewerHandle
    split
    next hserver => rw [Inner.rankedEmojis, hserver]
    next server hserver => exact rankedList_of_found s serverSlug viewerHandle hserver
  refine ⟨rankedBy_rankEmojis, hstate, ?_⟩
  intro services node now us serverSlug viewerHandle s say
  have hsound : (services.serveAll (.empty node now) us).EmojisSound :=
    Services.Served.emojisSound ⟨node, now, us, rfl⟩
  have hvotes : s.emojiVotes = (services.emojiVoteLog (.empty node now) us).foldl
      recordEmojiVote [] :=
    emojiVotes_serveAll services (.empty node now) us
  have hlist := hstate s serverSlug viewerHandle
  split at hlist
  next => exact hlist
  next server hserver =>
    have hsay : ∀ id, s.myEmojiVote id = say id := myEmojiVote_of_log hvotes
    have hmine : s.viewerVote viewerHandle =
        fun id => ((s.findByHandle (trim viewerHandle)).map (·.id)).bind (say id) := by
      funext id
      rw [Inner.viewerVote, hsay]
    rw [hmine] at hlist
    refine hlist.congr (fun e he => ?_)
    obtain ⟨he, hserver⟩ := List.mem_filter.1 he
    have hplaced : ∀ v ∈ s.emojiVotes, v.emojiId = e.id → v.serverId = server.id := by
      intro v hv hid
      obtain ⟨e', he', hvote, hplace⟩ := hsound.placed v hv
      rw [← hplace, Table.eq_of_key he' he (hvote.trans hid)]
      exact beq_iff_eq.1 hserver
    exact netScore_of_log hvotes hplaced

end Democrachat
