import Democrachat.Library.Runs
import Democrachat.Polity.Credit
import Democrachat.Properties.Ban
import Mathlib.Data.Finset.Card

/-!
# Endorsement accounting

`react` looks at the reactor's standing when the first reaction is added, and
`unreact` when the last one is removed; the standing may have changed in between.
-/

namespace Democrachat

open Library Req

/-! ## The books -/

/-- The messages and users with a reaction of the user on the message. -/
def World.reactors (w : World) : Finset (MessageId × UserId) :=
  (w.store.reactions.map (fun r => (r.messageId, r.user))).toFinset

/-- A run of the services, with what the accounts are about. -/
structure Ledger where
  world : World
  /-- Every message there ever was: by whom, and in which server. -/
  posted : MessageId → Option (UserId × ServerId)
  /-- Who is reacting to what and was franchised when they began to. -/
  endorsed : Finset (MessageId × UserId)

namespace Ledger

variable (services : Services)

def start (node : NodeId) (now : Timestamp) : Ledger := ⟨.empty node now, fun _ => none, ∅⟩

def step (l : Ledger) (op : Op) : Ledger where
  world := services.step l.world op
  posted id := ((services.step l.world op).byline id).or (l.posted id)
  endorsed := (services.step l.world op).reactors.filter (fun p =>
    if p ∈ l.world.reactors then p ∈ l.endorsed else l.world.isFranchisedOn p = true)

variable (l : Ledger)

/-- The endorsements of others on what the author posted in the server. -/
def endorsements (author : UserId) (server : ServerId) : Nat :=
  (l.endorsed.filter (fun p => l.posted p.1 = some (author, server) ∧ p.2 ≠ author)).card

/-- Every member's contribution is the number of their endorsements. -/
def Accounted : Prop :=
  ∀ m ∈ l.world.store.memberships.rows, m.contribution = l.endorsements m.userId m.serverId

/-- The message and the user whose last reaction to it an operation removes. -/
def ends? : Op → Option (Message × UserId)
  | .unreact handle messageId emoji =>
    match l.world.store.findByHandle (trim handle), l.world.store.getMessage messageId with
    | some user, some message =>
      if l.world.store.userHasAny message.id user.id ∧
          ∀ r ∈ l.world.store.reactions, r.messageId = message.id → r.user = user.id →
            r.emoji = trim emoji then
        some (message, user.id)
      else none
    | _, _ => none
  | _ => none

/-- Whoever takes back their last reaction is franchised if and only if they were when
they began to react, or the author has no point to lose, or it was their own message. -/
def Settled (op : Op) : Prop :=
  ∀ x ∈ l.ends? op, x.2 = x.1.author ∨
    (l.world.isFranchisedOn (x.1.id, x.2) = true ↔ (x.1.id, x.2) ∈ l.endorsed) ∨
    ∀ m ∈ l.world.store.getMembership x.1.author x.1.serverId, m.contribution = 0

instance : Decidable l.Accounted :=
  inferInstanceAs (Decidable (∀ m ∈ l.world.store.memberships.rows,
    m.contribution = l.endorsements m.userId m.serverId))

instance (op : Op) : Decidable (l.Settled op) :=
  inferInstanceAs (Decidable (∀ x ∈ l.ends? op, x.2 = x.1.author ∨
    (l.world.isFranchisedOn (x.1.id, x.2) = true ↔ (x.1.id, x.2) ∈ l.endorsed) ∨
    ∀ m ∈ l.world.store.getMembership x.1.author x.1.serverId, m.contribution = 0))

/-- What every run keeps. -/
structure Inv : Prop where
  reachable : services.Reachable l.world
  posted : ∀ {id b}, l.world.byline id = some b → l.posted id = some b
  minted : ∀ {id b}, l.posted id = some b → id.sequence ≤ l.world.store.nextMessage
  authors : ∀ {id b}, l.posted id = some b → (l.world.store.getMembership b.1 b.2).isSome
  reacted : ∀ {p}, p ∈ l.world.reactors → (l.posted p.1).isSome
  endorsed : l.endorsed ⊆ l.world.reactors

section

variable {services l}

/-! ## The books between two operations -/

theorem mem_reactors {w : World} {message : MessageId} {user : UserId} :
    (message, user) ∈ w.reactors ↔ w.store.userHasAny message user = true := by
  simp only [World.reactors, List.mem_toFinset, List.mem_map, Prod.mk.injEq, Inner.userHasAny,
    List.any_eq_true, Bool.and_eq_true, beq_iff_eq]

theorem reactors_of_eq {w w' : World} (h : w'.store.reactions = w.store.reactions) :
    w'.reactors = w.reactors := by
  rw [World.reactors, World.reactors, h]

theorem byline_of_messages {w w' : World} (h : w'.polity.messages = w.polity.messages) :
    w'.byline = w.byline := by
  funext id
  exact congrArg (fun t => (Table.get t id).map (fun m => (m.author, m.serverId))) h

theorem isSome_credit {w : World} {user : UserId} {sid : ServerId} :
    (w.polity.roster.credit user sid).isSome = (w.store.getMembership user sid).isSome :=
  Option.isSome_map

theorem accounted_iff : l.Accounted ↔ ∀ author server n,
    l.world.polity.roster.credit author server = some n → n = l.endorsements author server := by
  constructor
  · intro h author server n hn
    obtain ⟨m, hm, rfl⟩ := Option.map_eq_some_iff.1 hn
    obtain ⟨rfl, rfl⟩ := Membership.key_eq.1 (Table.key_of_get hm)
    exact h m (Table.mem_of_get hm)
  · intro h m hm
    apply h
    exact Option.map_eq_some_iff.2 ⟨m, Table.mem_iff.1 hm, rfl⟩

theorem posted_step (op : Op) (id : MessageId) :
    (l.step services op).posted id = ((services.step l.world op).byline id).or (l.posted id) :=
  rfl

/-- What was posted stays posted. -/
theorem Inv.posted_of_some (h : l.Inv services) {op : Op}
    (hposts : Posts l.world (services.step l.world op)) {id : MessageId}
    {b : UserId × ServerId} (hid : l.posted id = some b) :
    (l.step services op).posted id = some b := by
  rw [posted_step, hid]
  cases hbyline : (services.step l.world op).byline id with
  | none => rfl
  | some b' =>
    rcases hposts.bylines hbyline with hold | ⟨hnew, -, -⟩
    · rw [← h.posted hold, hid, Option.some_or]
    · have hle := h.minted hid
      omega

/-- What is posted was posted before, or is new. -/
theorem Inv.posted_cases (h : l.Inv services) {op : Op}
    (hposts : Posts l.world (services.step l.world op)) {id : MessageId}
    {b : UserId × ServerId} (hid : (l.step services op).posted id = some b) :
    l.posted id = some b ∨ (l.world.store.nextMessage < id.sequence ∧
      id.sequence ≤ (services.step l.world op).store.nextMessage ∧
      (l.world.store.getMembership b.1 b.2).isSome) := by
  rw [posted_step] at hid
  cases hbyline : (services.step l.world op).byline id with
  | none =>
    rw [hbyline, Option.none_or] at hid
    exact .inl hid
  | some b' =>
    rw [hbyline, Option.some_or] at hid
    obtain rfl := Option.some.inj hid
    rcases hposts.bylines hbyline with hold | hnew
    · exact .inl (h.posted hold)
    · exact .inr hnew

/-- The books stay in order over an operation that posts in order, adds reactions to
messages that are there, and keeps the members. -/
theorem Inv.step_of_posts (h : l.Inv services) {op : Op}
    (hposts : Posts l.world (services.step l.world op))
    (hmembers : ∀ user sid, (l.world.store.getMembership user sid).isSome →
      ((services.step l.world op).store.getMembership user sid).isSome)
    (hreacted : ∀ p ∈ (services.step l.world op).reactors,
      p ∈ l.world.reactors ∨ (l.world.byline p.1).isSome) :
    (l.step services op).Inv services where
  reachable := h.reachable.step op
  posted := by
    intro id b hbyline
    change (services.step l.world op).byline id = some b at hbyline
    rw [posted_step, hbyline, Option.some_or]
  minted := by
    intro id b hid
    change id.sequence ≤ (services.step l.world op).store.nextMessage
    rcases h.posted_cases hposts hid with hold | ⟨-, hle, -⟩
    · exact Nat.le_trans (h.minted hold) hposts.nextMessage
    · exact hle
  authors := by
    intro id b hid
    apply hmembers
    rcases h.posted_cases hposts hid with hold | ⟨-, -, hmember⟩
    · exact h.authors hold
    · exact hmember
  reacted := by
    intro p hp
    have hposted : (l.posted p.1).isSome := by
      rcases hreacted p hp with hold | hbyline
      · exact h.reacted hold
      · obtain ⟨b, hb⟩ := Option.isSome_iff_exists.1 hbyline
        rw [h.posted hb]
        rfl
    obtain ⟨b, hb⟩ := Option.isSome_iff_exists.1 hposted
    rw [h.posted_of_some hposts hb]
    rfl
  endorsed := Finset.filter_subset _ _

/-- Where nobody begins or ceases to react, the endorsements are the same. -/
theorem Inv.endorsed_of_reactors (h : l.Inv services) {op : Op}
    (hreactors : (services.step l.world op).reactors = l.world.reactors) :
    (l.step services op).endorsed = l.endorsed := by
  ext p
  change p ∈ (services.step l.world op).reactors.filter _ ↔ _
  rw [hreactors, Finset.mem_filter]
  constructor
  · rintro ⟨hp, hkept⟩
    rwa [if_pos hp] at hkept
  · intro hp
    have hreacting := h.endorsed hp
    exact ⟨hreacting, by rwa [if_pos hreacting]⟩

/-- Whoever is reacting when they were not before has just begun to. -/
theorem Inv.endorsed_of_insert (h : l.Inv services) {op : Op} {p : MessageId × UserId}
    (hp : p ∉ l.world.reactors)
    (hreactors : (services.step l.world op).reactors = insert p l.world.reactors) :
    (l.step services op).endorsed =
      if l.world.isFranchisedOn p = true then insert p l.endorsed else l.endorsed := by
  have hnot : p ∉ l.endorsed := fun hmem => hp (h.endorsed hmem)
  ext q
  change q ∈ (services.step l.world op).reactors.filter _ ↔ _
  rw [hreactors, Finset.mem_filter, Finset.mem_insert]
  by_cases hq : q = p
  · rw [hq, if_neg hp]
    by_cases hfranchised : l.world.isFranchisedOn p = true
    · simp [hfranchised]
    · simp [hfranchised, hnot]
  · have hkept : (q ∈ l.world.reactors ∧ if q ∈ l.world.reactors then q ∈ l.endorsed else
        l.world.isFranchisedOn q = true) ↔ q ∈ l.endorsed := by
      constructor
      · rintro ⟨hmem, hkept⟩
        rwa [if_pos hmem] at hkept
      · intro hmem
        have hold := h.endorsed hmem
        exact ⟨hold, by rwa [if_pos hold]⟩
    by_cases hfranchised : l.world.isFranchisedOn p = true
    · rw [if_pos hfranchised, Finset.mem_insert, or_iff_right hq, or_iff_right hq]
      exact hkept
    · rw [if_neg hfranchised, or_iff_right hq]
      exact hkept

/-- Whoever takes back their last reaction endorses nothing any more. -/
theorem Inv.endorsed_of_erase (h : l.Inv services) {op : Op} {p : MessageId × UserId}
    (hreactors : (services.step l.world op).reactors = l.world.reactors.erase p) :
    (l.step services op).endorsed = l.endorsed.erase p := by
  ext q
  change q ∈ (services.step l.world op).reactors.filter _ ↔ _
  rw [hreactors, Finset.mem_filter, Finset.mem_erase, Finset.mem_erase]
  constructor
  · rintro ⟨⟨hne, hmem⟩, hkept⟩
    rw [if_pos hmem] at hkept
    exact ⟨hne, hkept⟩
  · rintro ⟨hne, hmem⟩
    have hold := h.endorsed hmem
    exact ⟨⟨hne, hold⟩, by rwa [if_pos hold]⟩

theorem Inv.posted_of_endorsed (h : l.Inv services) {op : Op}
    (hposts : Posts l.world (services.step l.world op)) {p : MessageId × UserId}
    (hp : p ∈ l.endorsed) : (l.step services op).posted p.1 = l.posted p.1 := by
  obtain ⟨b, hb⟩ := Option.isSome_iff_exists.1 (h.reacted (h.endorsed hp))
  rw [h.posted_of_some hposts hb, hb]

theorem Inv.endorsements_of_endorsed (h : l.Inv services) {op : Op}
    (hposts : Posts l.world (services.step l.world op))
    (hendorsed : (l.step services op).endorsed = l.endorsed) (author : UserId)
    (server : ServerId) :
    (l.step services op).endorsements author server = l.endorsements author server := by
  unfold endorsements
  rw [hendorsed]
  congr 1
  apply Finset.filter_congr
  intro p hp
  rw [h.posted_of_endorsed hposts hp]

/-- An operation that leaves the world alone leaves the books alone. -/
theorem Inv.step_eq_self (h : l.Inv services) {op : Op}
    (hsame : services.step l.world op = l.world) : l.step services op = l := by
  have hposted : (l.step services op).posted = l.posted := by
    funext id
    rw [posted_step, hsame]
    cases hbyline : l.world.byline id with
    | none => rfl
    | some b => rw [h.posted hbyline, Option.some_or]
  have hendorsed : (l.step services op).endorsed = l.endorsed :=
    h.endorsed_of_reactors (congrArg World.reactors hsame)
  calc
    l.step services op = ⟨services.step l.world op, (l.step services op).posted,
        (l.step services op).endorsed⟩ := rfl
    _ = l := by rw [hsame, hposted, hendorsed]

/-! ## Operations that credit nobody -/

theorem Inv.step_of_not_credit (h : l.Inv services) {op : Op} (hop : op.isCredit = false) :
    (l.step services op).Inv services ∧ (l.Accounted → (l.step services op).Accounted) := by
  have hreaction : op.isReaction = false := by
    cases op with
    | react => cases hop
    | unreact => cases hop
    | _ => rfl
  have hsaid := h.reachable.said hreaction
  have hcredit := h.reachable.sameCredit hop
  have hreactors := reactors_of_eq hsaid.reactions
  have hmembers : ∀ user sid, (l.world.store.getMembership user sid).isSome →
      ((services.step l.world op).store.getMembership user sid).isSome := by
    intro user sid hmember
    rw [← isSome_credit] at hmember ⊢
    rcases hcredit.credit user sid with hsame | ⟨hnone, -⟩
    · rw [hsame]
      exact hmember
    · rw [hnone] at hmember
      cases hmember
  constructor
  · apply h.step_of_posts hsaid.toPosts hmembers
    intro p hp
    rw [hreactors] at hp
    exact .inl hp
  · intro haccounted
    have hendorsements := h.endorsements_of_endorsed hsaid.toPosts (h.endorsed_of_reactors hreactors)
    rw [accounted_iff] at haccounted ⊢
    intro author server n hn
    rw [hendorsements]
    rcases hcredit.credit author server with hsame | ⟨hnone, hzero⟩
    · apply haccounted
      rw [← hsame]
      exact hn
    · -- A new member has posted nothing yet.
      have hunposted : l.endorsements author server = 0 := by
        apply Finset.card_eq_zero.2
        apply Finset.filter_eq_empty_iff.2
        rintro p - ⟨hposted, -⟩
        have hmember := h.authors hposted
        rw [← isSome_credit, hnone] at hmember
        cases hmember
      have hn' : (services.step l.world op).polity.roster.credit author server = some n := hn
      rw [hzero] at hn'
      rw [hunposted, ← Option.some.inj hn']
      rfl

/-! ## Reactions -/

/-- How the endorsements of an author change with one pair more. -/
theorem endorsements_insert {l l' : Ledger} {p : MessageId × UserId}
    (hposted : ∀ q ∈ insert p l.endorsed, l'.posted q.1 = l.posted q.1)
    (hendorsed : l'.endorsed = insert p l.endorsed) (hp : p ∉ l.endorsed) (author : UserId)
    (server : ServerId) :
    l'.endorsements author server = l.endorsements author server +
      if l.posted p.1 = some (author, server) ∧ p.2 ≠ author then 1 else 0 := by
  have hfilter : l'.endorsed.filter (fun q => l'.posted q.1 = some (author, server) ∧ q.2 ≠ author) =
      (insert p l.endorsed).filter
        (fun q => l.posted q.1 = some (author, server) ∧ q.2 ≠ author) := by
    rw [hendorsed]
    apply Finset.filter_congr
    intro q hq
    rw [hposted q hq]
  unfold endorsements
  rw [hfilter, Finset.filter_insert]
  split
  next => exact Finset.card_insert_of_notMem (fun hmem => hp (Finset.mem_filter.1 hmem).1)
  next => rfl

/-- And with one pair less. -/
theorem endorsements_erase {l l' : Ledger} {p : MessageId × UserId}
    (hposted : ∀ q ∈ l.endorsed, l'.posted q.1 = l.posted q.1)
    (hendorsed : l'.endorsed = l.endorsed.erase p) (author : UserId) (server : ServerId) :
    l.endorsements author server = l'.endorsements author server +
      if p ∈ l.endorsed ∧ l.posted p.1 = some (author, server) ∧ p.2 ≠ author then 1 else 0 := by
  by_cases hp : p ∈ l.endorsed
  · have hinsert : l.endorsed = insert p l'.endorsed := by
      rw [hendorsed, Finset.insert_erase hp]
    have hnot : p ∉ l'.endorsed := by
      rw [hendorsed]
      exact Finset.notMem_erase p _
    have hback : ∀ q ∈ insert p l'.endorsed, l.posted q.1 = l'.posted q.1 := by
      intro q hq
      rw [← hinsert] at hq
      exact (hposted q hq).symm
    rw [endorsements_insert hback hinsert hnot, hposted p hp]
    simp only [hp, true_and]
  · rw [Finset.erase_eq_of_notMem hp] at hendorsed
    have hsame : l'.endorsements author server = l.endorsements author server := by
      unfold endorsements
      rw [hendorsed]
      congr 1
      apply Finset.filter_congr
      intro q hq
      rw [hposted q hq]
    simp only [hp, false_and, if_false, hsame, Nat.add_zero]

/-- An adjustment, or none, posts nothing and keeps the members. -/
theorem posts_of_adjust {w w' : World} (hnext : w'.store.nextMessage = w.store.nextMessage)
    {adjusts : Bool} {message : Message} {delta : Int}
    (hpolity : w'.polity = if adjusts then w.polity.adjust message delta else w.polity) :
    Posts w w' ∧ ∀ user sid, (w.store.getMembership user sid).isSome →
      (w'.store.getMembership user sid).isSome := by
  have hmessages : w'.polity.messages = w.polity.messages := by
    rw [hpolity]
    split
    next => rw [adjust_messages]
    next => rfl
  have hbyline := byline_of_messages hmessages
  refine ⟨⟨Nat.le_of_eq hnext.symm, fun hid => .inl ?_⟩, fun user sid hmember => ?_⟩
  · rwa [hbyline] at hid
  · rw [← isSome_credit] at hmember ⊢
    rw [hpolity]
    split
    next =>
      rw [credit_adjust]
      split
      next => rwa [Option.isSome_map]
      next => exact hmember
    next => exact hmember

theorem byline_of_getMessage {w : World} {message : Message} {messageId : MessageId}
    (h : w.store.getMessage messageId = some message) :
    w.byline message.id = some (message.author, message.serverId) := by
  have hid : message.id = messageId := Table.key_of_get h
  rw [World.byline, hid, h]
  rfl

/-- A user endorses the author of a message in its server, unless they are the author. -/
theorem endorses_iff {message : Message} {user author : UserId} {server : ServerId} :
    (some (message.author, message.serverId) = some (author, server) ∧ user ≠ author) ↔
      (author = message.author ∧ server = message.serverId) ∧ user ≠ message.author := by
  constructor
  · rintro ⟨hsome, hne⟩
    obtain ⟨rfl, rfl⟩ := Prod.mk.inj (Option.some.inj hsome)
    exact ⟨⟨rfl, rfl⟩, hne⟩
  · rintro ⟨⟨rfl, rfl⟩, hne⟩
    exact ⟨rfl, hne⟩

/-- Where one account alone may have changed, it alone has to be looked at. -/
theorem accounted_iff_of_others {l l' : Ledger} (haccounted : l.Accounted) {a : UserId}
    {s : ServerId}
    (hothers : ∀ author server, ¬ (author = a ∧ server = s) →
      l'.world.polity.roster.credit author server = l.world.polity.roster.credit author server ∧
        l'.endorsements author server = l.endorsements author server) :
    l'.Accounted ↔ ∀ n, l'.world.polity.roster.credit a s = some n → n = l'.endorsements a s := by
  rw [accounted_iff] at haccounted ⊢
  constructor
  · exact fun hall => hall a s
  · intro hhere author server n hn
    by_cases hsame : author = a ∧ server = s
    · obtain ⟨rfl, rfl⟩ := hsame
      exact hhere n hn
    · obtain ⟨hcredit, hendorsements⟩ := hothers author server hsame
      rw [hcredit] at hn
      rw [hendorsements]
      exact haccounted author server n hn

theorem accounted_of_same {l l' : Ledger} (haccounted : l.Accounted)
    (hcredit : ∀ a s, l'.world.polity.roster.credit a s = l.world.polity.roster.credit a s)
    (hendorsements : ∀ a s, l'.endorsements a s = l.endorsements a s) : l'.Accounted := by
  rw [accounted_iff] at haccounted ⊢
  intro a s n hn
  rw [hcredit] at hn
  rw [hendorsements]
  exact haccounted a s n hn

/-- Who reacts once a user has one emoji more on a message. -/
theorem reactors_of_reacted {w w' : World} {user : User} {message : Message} {emoji : String}
    (h : Reacted w w' user message emoji) :
    w'.reactors = insert (message.id, user.id) w.reactors := by
  ext q
  simp only [World.reactors, h.reactions, List.map_append, List.map_cons, List.map_nil,
    List.mem_toFinset, List.mem_append, List.mem_singleton, Finset.mem_insert]
  exact or_comm

/-- Whoever begins to react and is franchised endorses the author from now on. -/
theorem Inv.endorsements_of_reacted (h : l.Inv services) {op : Op} {user : User}
    {message : Message} {emoji : String}
    (hposts : Posts l.world (services.step l.world op))
    (hposted : l.posted message.id = some (message.author, message.serverId))
    (hreacted : Reacted l.world (services.step l.world op) user message emoji)
    (author : UserId) (server : ServerId) :
    (l.step services op).endorsements author server = l.endorsements author server +
      if (!l.world.store.userHasAny message.id user.id &&
          l.world.isFranchisedOn (message.id, user.id) && user.id != message.author) = true ∧
        author = message.author ∧ server = message.serverId then 1 else 0 := by
  have hreactors := reactors_of_reacted hreacted
  by_cases hreacting : (message.id, user.id) ∈ l.world.reactors
  · -- One emoji more on a message that the user reacts to already.
    rw [Finset.insert_eq_of_mem hreacting] at hreactors
    rw [h.endorsements_of_endorsed hposts (h.endorsed_of_reactors hreactors)]
    simp only [mem_reactors.1 hreacting, Bool.not_true, Bool.false_and, Bool.false_eq_true,
      false_and, if_false, Nat.add_zero]
  have hany : l.world.store.userHasAny message.id user.id = false := by
    rw [← Bool.not_eq_true, ← mem_reactors]
    exact hreacting
  have hendorsed := h.endorsed_of_insert hreacting hreactors
  by_cases hfranchised : l.world.isFranchisedOn (message.id, user.id) = true
  · rw [if_pos hfranchised] at hendorsed
    have hnot : (message.id, user.id) ∉ l.endorsed := fun hmem => hreacting (h.endorsed hmem)
    have hstays : ∀ q ∈ insert (message.id, user.id) l.endorsed,
        (l.step services op).posted q.1 = l.posted q.1 := by
      intro q hq
      rcases Finset.mem_insert.1 hq with rfl | hq
      · rw [h.posted_of_some hposts hposted, hposted]
      · exact h.posted_of_endorsed hposts hq
    rw [endorsements_insert hstays hendorsed hnot, hposted]
    simp only [endorses_iff, hany, hfranchised, Bool.not_false, Bool.true_and, bne_iff_ne]
    exact congrArg _ (if_congr and_comm rfl rfl)
  · rw [if_neg hfranchised] at hendorsed
    rw [h.endorsements_of_endorsed hposts hendorsed]
    simp only [hfranchised, Bool.and_false, Bool.false_and, Bool.false_eq_true, false_and, if_false,
      Nat.add_zero]

/-- Whoever begins to react endorses the author if they are franchised, which is what the
author is credited for. -/
theorem Inv.step_of_reacted (h : l.Inv services) {op : Op} {user : User} {message : Message}
    {messageId : MessageId} {emoji : String}
    (hmessage : l.world.store.getMessage messageId = some message)
    (hreacted : Reacted l.world (services.step l.world op) user message emoji) :
    (l.step services op).Inv services ∧ (l.Accounted → (l.step services op).Accounted) := by
  have hbyline := byline_of_getMessage hmessage
  obtain ⟨hposts, hmembers⟩ := posts_of_adjust hreacted.nextMessage hreacted.polity
  have hendorsements := h.endorsements_of_reacted hposts (h.posted hbyline) hreacted
  constructor
  · apply h.step_of_posts hposts hmembers
    intro q hq
    rw [reactors_of_reacted hreacted] at hq
    rcases Finset.mem_insert.1 hq with rfl | hq
    · exact .inr (by rw [hbyline]; rfl)
    · exact .inl hq
  intro haccounted
  have hroster : (l.step services op).world.polity = _ := hreacted.polity
  generalize (!l.world.store.userHasAny message.id user.id &&
    l.world.isFranchisedOn (message.id, user.id) && user.id != message.author) = endorses
    at hroster hendorsements
  cases endorses with
  | false =>
    apply accounted_of_same haccounted
    · intro author server
      rw [hroster]
      rfl
    · intro author server
      simp [hendorsements]
  | true =>
    have hcredit : ∀ author server, (l.step services op).world.polity.roster.credit author server =
        if author = message.author ∧ server = message.serverId then
          (l.world.polity.roster.credit author server).map (fun n => max (n + 1) 0)
        else l.world.polity.roster.credit author server := by
      intro author server
      rw [hroster, if_pos rfl, credit_adjust]
    refine (accounted_iff_of_others haccounted (a := message.author) (s := message.serverId) ?_).2 ?_
    · intro author server hother
      rw [hcredit, hendorsements, if_neg hother, if_neg (fun h => hother h.2)]
      exact ⟨rfl, rfl⟩
    · intro n hn
      rw [hcredit, if_pos ⟨rfl, rfl⟩] at hn
      obtain ⟨k, hk, rfl⟩ := Option.map_eq_some_iff.1 hn
      have hcount := accounted_iff.1 haccounted _ _ _ hk
      rw [hendorsements, if_pos ⟨rfl, rfl, rfl⟩]
      omega

theorem Inv.step_react (h : l.Inv services) (handle : String) (messageId : MessageId)
    (emoji : String) :
    (l.step services (.react handle messageId emoji)).Inv services ∧
      (l.Accounted → (l.step services (.react handle messageId emoji)).Accounted) := by
  rcases react_cases l.world handle messageId emoji with hsame | ⟨user, message, hmessage, hreacted⟩
  · have hstep : services.step l.world (.react handle messageId emoji) = l.world := hsame
    rw [h.step_eq_self hstep]
    exact ⟨h, fun haccounted => haccounted⟩
  · have hstep : Reacted l.world (services.step l.world (.react handle messageId emoji)) user message
        (trim emoji) := hreacted
    exact h.step_of_reacted hmessage hstep

/-- Who reacts once an emoji of a user on a message is removed. -/
theorem reactors_of_unreacted {w w' : World} {user : User} {message : Message} {emoji : String}
    (h : Unreacted w w' user message emoji) :
    w'.reactors = if w'.store.userHasAny message.id user.id = true then w.reactors
      else w.reactors.erase (message.id, user.id) := by
  have hother : ∀ q, q ≠ (message.id, user.id) → (q ∈ w'.reactors ↔ q ∈ w.reactors) := by
    intro q hq
    simp only [World.reactors, h.reactions, List.mem_toFinset, List.mem_map, List.mem_filter]
    constructor
    · rintro ⟨r, ⟨hr, -⟩, heq⟩
      exact ⟨r, hr, heq⟩
    · rintro ⟨r, hr, rfl⟩
      refine ⟨r, ⟨hr, ?_⟩, rfl⟩
      by_contra hmatch
      simp only [Bool.not_eq_true, Bool.not_eq_false', Bool.and_eq_true, beq_iff_eq] at hmatch
      exact hq (Prod.ext hmatch.1.1 hmatch.1.2)
  have hsub : (message.id, user.id) ∈ w'.reactors → (message.id, user.id) ∈ w.reactors := by
    simp only [World.reactors, h.reactions, List.mem_toFinset, List.mem_map, List.mem_filter]
    rintro ⟨r, ⟨hr, -⟩, heq⟩
    exact ⟨r, hr, heq⟩
  ext q
  by_cases hq : q = (message.id, user.id)
  · rw [hq]
    split
    next hstill =>
      rw [← mem_reactors] at hstill
      exact iff_of_true hstill (hsub hstill)
    next hgone =>
      rw [← mem_reactors] at hgone
      simp only [Finset.mem_erase, ne_eq, not_true_eq_false, false_and, hgone]
  · rw [hother q hq]
    split
    next => rfl
    next => rw [Finset.mem_erase, and_iff_right hq]

/-- The last reaction of the user on the message is the one that is removed. -/
theorem userHasAny_of_unreacted {w w' : World} {user : User} {message : Message} {emoji : String}
    (h : Unreacted w w' user message emoji) :
    w'.store.userHasAny message.id user.id = false ↔
      ∀ r ∈ w.store.reactions, r.messageId = message.id → r.user = user.id → r.emoji = emoji := by
  rw [Inner.userHasAny, h.reactions, List.any_eq_false]
  simp only [List.mem_filter, Bool.not_eq_true', and_imp, Bool.and_eq_true, beq_iff_eq, not_and,
    Bool.and_eq_false_imp, beq_eq_false_iff_ne]
  constructor
  · intro hnone r hr hid huser
    by_contra hne
    exact hnone r hr (fun _ _ => hne) hid huser
  · intro hall r hr hother hid huser
    exact hother hid huser (hall r hr hid huser)

/-- Whoever takes back their last reaction no longer endorses the author. -/
theorem Inv.endorsements_of_unreacted (h : l.Inv services) {op : Op} {user : User}
    {message : Message} {emoji : String}
    (hposts : Posts l.world (services.step l.world op))
    (hposted : l.posted message.id = some (message.author, message.serverId))
    (hunreacted : Unreacted l.world (services.step l.world op) user message emoji)
    (author : UserId) (server : ServerId) :
    l.endorsements author server = (l.step services op).endorsements author server +
      if ((services.step l.world op).store.userHasAny message.id user.id = false ∧
          (message.id, user.id) ∈ l.endorsed ∧ user.id ≠ message.author) ∧
        author = message.author ∧ server = message.serverId then 1 else 0 := by
  have hreactors := reactors_of_unreacted hunreacted
  by_cases hstill : (services.step l.world op).store.userHasAny message.id user.id = true
  · -- The user has another emoji on the message.
    rw [if_pos hstill] at hreactors
    rw [h.endorsements_of_endorsed hposts (h.endorsed_of_reactors hreactors), hstill]
    simp only [Bool.true_eq_false, false_and, if_false, Nat.add_zero]
  · rw [if_neg hstill] at hreactors
    rw [Bool.not_eq_true] at hstill
    rw [endorsements_erase (fun q hq => h.posted_of_endorsed hposts hq)
      (h.endorsed_of_erase hreactors), hposted]
    simp only [endorses_iff, hstill, true_and]
    exact congrArg _ (if_congr (by rw [and_comm (b := user.id ≠ message.author), and_assoc]) rfl rfl)

/-- The last reaction that is taken back takes a point from an account exactly if it gave one, or
there is none to take. -/
theorem point_settled_iff {ends own franchised endorsed : Prop} [Decidable ends] [Decidable own]
    [Decidable franchised] [Decidable endorsed] {n : Int} {k : Nat}
    (hn : n = ((k + if ends ∧ endorsed ∧ ¬ own then 1 else 0 : Nat) : Int)) :
    (if ends ∧ franchised ∧ ¬ own then max (n - 1) 0 else n) = k ↔
      (ends → own ∨ (franchised ↔ endorsed) ∨ n = 0) := by
  by_cases hends : ends
  · by_cases hown : own
    · simp [hown, hn]
    · by_cases hfranchised : franchised
      · by_cases hendorsed : endorsed
        · simp [hends, hown, hfranchised, hendorsed, hn]
        · simp [hends, hown, hfranchised, hendorsed, hn]
          omega
      · by_cases hendorsed : endorsed
        · simp [hends, hown, hfranchised, hendorsed, hn]
          omega
        · simp [hends, hown, hfranchised, hendorsed, hn]
  · simp [hends, hn]

theorem forall_contribution_iff {w : World} {user : UserId} {sid : ServerId} {n : Int}
    (h : w.polity.roster.credit user sid = some n) :
    (∀ m ∈ w.store.getMembership user sid, m.contribution = 0) ↔ n = 0 := by
  obtain ⟨m, hm, rfl⟩ := Option.map_eq_some_iff.1 h
  constructor
  · exact fun hall => hall m hm
  · rintro hzero m' hm'
    rw [Option.some.inj (hm'.symm.trans hm)]
    exact hzero

/-- Whoever takes back their last reaction takes the point back if they are franchised
then, which settles the account exactly if they gave one. -/
theorem Inv.step_of_unreacted (h : l.Inv services) {op : Op} {user : User} {message : Message}
    {messageId : MessageId} {emoji : String}
    (hmessage : l.world.store.getMessage messageId = some message)
    (hunreacted : Unreacted l.world (services.step l.world op) user message emoji)
    (hends : l.ends? op =
      if ∀ r ∈ l.world.store.reactions, r.messageId = message.id → r.user = user.id →
          r.emoji = emoji then some (message, user.id) else none) :
    (l.step services op).Inv services ∧
      (l.Accounted → ((l.step services op).Accounted ↔ l.Settled op)) := by
  have hposted := h.posted (byline_of_getMessage hmessage)
  obtain ⟨hposts, hmembers⟩ := posts_of_adjust hunreacted.nextMessage hunreacted.polity
  have hendorsements := h.endorsements_of_unreacted hposts hposted hunreacted
  constructor
  · apply h.step_of_posts hposts hmembers
    intro q hq
    left
    rw [reactors_of_unreacted hunreacted] at hq
    split at hq
    next => exact hq
    next => exact Finset.mem_of_mem_erase hq
  intro haccounted
  rw [← if_congr (userHasAny_of_unreacted hunreacted) rfl rfl] at hends
  have hroster : (l.step services op).world.polity = _ := hunreacted.polity
  generalize (services.step l.world op).store.userHasAny message.id user.id = still
    at hroster hendorsements hends
  have hcredit : ∀ author server, (l.step services op).world.polity.roster.credit author server =
      if (still = false ∧ l.world.isFranchisedOn (message.id, user.id) = true ∧
          ¬ user.id = message.author) ∧ author = message.author ∧ server = message.serverId then
        (l.world.polity.roster.credit author server).map (fun n => max (n - 1) 0)
      else l.world.polity.roster.credit author server := by
    intro author server
    have hadjusts : (!still && l.world.isFranchisedOn (message.id, user.id) &&
        user.id != message.author) = true ↔ still = false ∧
          l.world.isFranchisedOn (message.id, user.id) = true ∧ ¬ user.id = message.author := by
      simp [and_assoc]
    rw [hroster, if_congr hadjusts rfl rfl]
    by_cases htakes : still = false ∧ l.world.isFranchisedOn (message.id, user.id) = true ∧
        ¬ user.id = message.author
    · rw [if_pos htakes, credit_adjust]
      exact if_congr (and_iff_right htakes).symm rfl rfl
    · rw [if_neg htakes, if_neg (fun hboth => htakes hboth.1)]
  have hmember : (l.world.polity.roster.credit message.author message.serverId).isSome = true := by
    rw [isSome_credit]
    exact h.authors hposted
  obtain ⟨n, hn⟩ := Option.isSome_iff_exists.1 hmember
  have hcount : n = l.endorsements message.author message.serverId :=
    accounted_iff.1 haccounted _ _ _ hn
  have hsettled : l.Settled op ↔ (still = false → user.id = message.author ∨
      (l.world.isFranchisedOn (message.id, user.id) = true ↔
        (message.id, user.id) ∈ l.endorsed) ∨ n = 0) := by
    unfold Settled
    rw [hends, ← forall_contribution_iff hn]
    cases still with
    | true => simp
    | false => simp
  rw [hsettled]
  refine (accounted_iff_of_others haccounted (a := message.author) (s := message.serverId) ?_).trans
    ?_
  · intro author server hother
    rw [hcredit, hendorsements author server, if_neg (fun h => hother h.2),
      if_neg (fun h => hother h.2)]
    exact ⟨rfl, rfl⟩
  · have hhere : message.author = message.author ∧ message.serverId = message.serverId := ⟨rfl, rfl⟩
    have hlost : (l.step services op).world.polity.roster.credit message.author message.serverId =
        some (if still = false ∧ l.world.isFranchisedOn (message.id, user.id) = true ∧
          ¬ user.id = message.author then max (n - 1) 0 else n) := by
      rw [hcredit, if_congr (and_iff_left hhere) rfl rfl, hn]
      split
      next => rfl
      next => rfl
    rw [hendorsements, if_congr (and_iff_left hhere) rfl rfl] at hcount
    rw [hlost, ← point_settled_iff hcount]
    simp only [Option.some.injEq, forall_eq']

theorem Inv.step_unreact (h : l.Inv services) (handle : String) (messageId : MessageId)
    (emoji : String) :
    (l.step services (.unreact handle messageId emoji)).Inv services ∧
      (l.Accounted → ((l.step services (.unreact handle messageId emoji)).Accounted ↔
        l.Settled (.unreact handle messageId emoji))) := by
  rcases unreact_cases l.world handle messageId emoji with
    ⟨hsame, hnone⟩ | ⟨user, message, huser, hmessage, hany, hunreacted⟩
  · have hstep : services.step l.world (.unreact handle messageId emoji) = l.world := hsame
    rw [h.step_eq_self hstep]
    refine ⟨h, fun haccounted => iff_of_true haccounted ?_⟩
    -- Nothing is removed, so no period ends.
    have hends : l.ends? (.unreact handle messageId emoji) = none := by
      simp only [ends?]
      split
      next user message huser hmessage =>
        rw [if_neg]
        rintro ⟨hany, hall⟩
        obtain ⟨r, hr, hpair⟩ := List.any_eq_true.1 hany
        simp only [Bool.and_eq_true, beq_iff_eq] at hpair
        exact hnone user message huser hmessage r hr
          ⟨hpair.1, hpair.2, hall r hr hpair.1 hpair.2⟩
      next => rfl
    intro x hx
    rw [hends] at hx
    cases hx
  · have hstep : Unreacted l.world (services.step l.world (.unreact handle messageId emoji)) user
        message (trim emoji) := hunreacted
    apply h.step_of_unreacted hmessage hstep
    simp only [ends?, huser, hmessage, hany, true_and]

/-- One operation: the books stay in order, and the accounts balance exactly if the
operation settles. -/
theorem Inv.step (h : l.Inv services) {op : Op}
    (hop : op.isCredit = true → op.isReaction = true) :
    (l.step services op).Inv services ∧
      (l.Accounted → ((l.step services op).Accounted ↔ l.Settled op)) := by
  by_cases hcredit : op.isCredit = true
  · cases op with
    | react handle messageId emoji =>
      obtain ⟨hinv, hkeeps⟩ := h.step_react handle messageId emoji
      exact ⟨hinv, fun haccounted => iff_of_true (hkeeps haccounted) (fun x hx => (nomatch hx))⟩
    | unreact handle messageId emoji => exact h.step_unreact handle messageId emoji
    | setContribution handle serverSlug contribution => exact absurd (hop hcredit) Bool.noConfusion
    | _ => exact absurd hcredit Bool.noConfusion
  · rw [Bool.not_eq_true] at hcredit
    obtain ⟨hinv, hkeeps⟩ := h.step_of_not_credit hcredit
    refine ⟨hinv, fun haccounted => iff_of_true (hkeeps haccounted) ?_⟩
    cases op with
    | unreact handle messageId emoji => cases hcredit
    | _ => exact fun x hx => (nomatch hx)

theorem inv_start (node : NodeId) (now : Timestamp) : (start node now).Inv services where
  reachable := ⟨node, now, [], rfl⟩
  posted := fun h => (nomatch h)
  minted := fun h => (nomatch h)
  authors := fun h => (nomatch h)
  reacted := fun h => (nomatch h)
  endorsed := Finset.Subset.refl _

end

end Ledger

/-- In a run in which only reactions are credited, every contribution is the number of
the endorsements that stand, after every operation, if and only if everybody who takes
back their last reaction is franchised exactly if they were when they began to react. -/
theorem endorsements_accounted_iff (services : Services) (node : NodeId) (now : Timestamp)
    (ops : List Op) (hops : ∀ op ∈ ops, op.isCredit = true → op.isReaction = true) :
    (∀ l, l <+: ops → (l.foldl (Ledger.step services) (.start node now)).Accounted) ↔
      Along (Ledger.step services) Ledger.Settled (.start node now) ops := by
  have haccounted : (Ledger.start node now).Accounted := fun m hm => (nomatch hm)
  have hstart : (Ledger.start node now).Inv services ∧ (Ledger.start node now).Accounted :=
    ⟨Ledger.inv_start node now, haccounted⟩
  have hcredits : Along (Ledger.step services)
      (fun _ op => op.isCredit = true → op.isReaction = true) (.start node now) ops :=
    along_of_forall (fun op hop _ => hops op hop) _
  rw [forall_prefix_iff, and_iff_right haccounted]
  constructor
  · intro hall
    have hstep : ∀ (l : Ledger) (op : Op), l.Inv services ∧ l.Accounted →
        (op.isCredit = true → op.isReaction = true) ∧ (l.step services op).Accounted →
          l.Settled op ∧ (l.step services op).Inv services ∧ (l.step services op).Accounted := by
      rintro l op ⟨hinv, hbefore⟩ ⟨hop, hafter⟩
      obtain ⟨hinv', hiff⟩ := hinv.step hop
      exact ⟨(hiff hbefore).1 hafter, hinv', hafter⟩
    exact (hcredits.and hall).imp hstep hstart
  · intro hsettled
    have hstep : ∀ (l : Ledger) (op : Op), l.Inv services ∧ l.Accounted →
        (op.isCredit = true → op.isReaction = true) ∧ l.Settled op →
          (l.step services op).Accounted ∧
            (l.step services op).Inv services ∧ (l.step services op).Accounted := by
      rintro l op ⟨hinv, hbefore⟩ ⟨hop, hsettles⟩
      obtain ⟨hinv', hiff⟩ := hinv.step hop
      have hafter := (hiff hbefore).2 hsettles
      exact ⟨hafter, hinv', hafter⟩
    exact (hcredits.and hsettled).imp hstep hstart

namespace Agora

/-- The founder, and somebody who has said something. -/
def greeting : List Op :=
  founding ++ [.registerAccount "eve", .joinServer "eve" "agora",
    .createChannel "zed" "agora" "general" "", .postMessage "eve" "agora" "general" "hello"]

/-- The founder reacts twice and takes one reaction back. -/
def thanked : List Op :=
  greeting ++ [.react "zed" (composeId 0 1) "heart", .react "zed" (composeId 0 1) "star",
    .unreact "zed" (composeId 0 1) "heart"]

/-- The founder reacts, is banned, and takes the reaction back. -/
def forsaken : List Op :=
  greeting ++ [.react "zed" (composeId 0 1) "heart"] ++ banOf (composeId 0 1) ++
    [.resolveDue "agora", .unreact "zed" (composeId 0 1) "heart"]

end Agora

theorem endorsements_accounted_thanked :
    (∀ l, l <+: Agora.thanked →
      (l.foldl (Ledger.step Agora.services) (.start 0 (Agora.day 0))).Accounted) ∧
    (Agora.thanked.foldl (Ledger.step Agora.services) (.start 0 (Agora.day 0))).endorsed ≠ ∅ :=
  ⟨(endorsements_accounted_iff Agora.services 0 (Agora.day 0) Agora.thanked
    (by decide +kernel)).2 (by decide +kernel), by decide +kernel⟩

/-- Nobody reacts any more, and the point is still there. -/
theorem endorsement_outlives_reaction :
    (∀ op ∈ Agora.forsaken, op.isCredit = true → op.isReaction = true) ∧
    (Agora.forsaken.foldl (Ledger.step Agora.services) (.start 0 (Agora.day 0))).endorsed = ∅ ∧
    ¬ (Agora.forsaken.foldl (Ledger.step Agora.services) (.start 0 (Agora.day 0))).Accounted := by
  decide +kernel

end Democrachat
