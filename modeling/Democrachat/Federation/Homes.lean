import Democrachat.Federation.Command
import Democrachat.Federation.Delivery
import Democrachat.Federation.Pairs
import Democrachat.Federation.Rows

/-!
# Two homes

Two users whose homes are on different nodes.  A command of theirs commits on each of the
two homes on its own, in any order.  Each home goes through the outbox of the other, whose
feed tells what belongs to the home of its own user.
-/

namespace Democrachat.Federation

open Library

inductive Side where
  | left | right
deriving DecidableEq

namespace Side

def other : Side → Side
  | left => right
  | right => left

@[simp] theorem other_other (p : Side) : p.other.other = p := by cases p <;> rfl

@[simp] theorem other_ne (p : Side) : p.other ≠ p := by cases p <;> decide

@[simp] theorem ne_other (p : Side) : p ≠ p.other := p.other_ne.symm

theorem eq_other_of_ne {p q : Side} (h : p ≠ q) : p = q.other := by
  cases p <;> cases q <;> first | rfl | exact absurd rfl h

end Side

/-- What one of the two asks for. -/
inductive Befriending where
  | request (requester : Side)
  | accept (accepter : Side)
deriving DecidableEq

def Befriending.command (user : Side → UserId) : Befriending → Command
  | request p => .requestFriend (user p) (user p.other)
  | accept p => .acceptFriend (user p) (user p.other)

/-- A command that came to a home, and whether it was applied. -/
structure Commit where
  home : Side
  what : Befriending
  ok : Bool

structure Homes where
  user : Side → UserId
  world : Side → World
  /-- How many records of the other's outbox a home has gone through. -/
  pulled : Side → Nat
  log : List Commit

inductive HomeStep where
  | commit (home : Side) (what : Befriending)
  | pull (home : Side)
  | setClock (home : Side) (now : Timestamp)

namespace Homes

variable (h : Homes)

def store (p : Side) : Inner := (h.world p).store

/-- What a home has still to pull. -/
def queue (p : Side) : List Democrachat.ChangeRecord :=
  (h.store p.other).outbox.drop (h.pulled p)

/-- The feed of a home has the record. -/
def tells (p : Side) (r : Democrachat.ChangeRecord) : Bool :=
  r.payload.derived = .owned (.userHome (h.user p))

/-- A home is left so by a commit. -/
def leave (w : World) (c : Commit) : Homes :=
  { h with
    world := Function.update h.world c.home w
    log := h.log ++ [c] }

def commit (p : Side) (what : Befriending) : Homes :=
  match (what.command h.user).run.exec (h.world p) with
  | (result, w) => h.leave w ⟨p, what, result.isOk⟩

def pull (p : Side) : Homes :=
  match h.queue p with
  | [] => h
  | r :: _ =>
    { h with
      world :=
        if h.tells p.other r then Function.update h.world p ((h.world p).mapStore r.applyTo)
        else h.world
      pulled := Function.update h.pulled p (h.pulled p + 1) }

def step (h : Homes) : HomeStep → Homes
  | .commit p what => h.commit p what
  | .pull p => h.pull p
  | .setClock p now =>
    { h with world := Function.update h.world p { h.world p with now := now } }

/-- How often a home has applied the command. -/
def applied (p : Side) (what : Befriending) : Nat :=
  h.log.countP (fun c => c.home = p && c.what = what && c.ok)

def pair : Sym2 UserId := s(h.user .left, h.user .right)

/-- The record that a home has of the two. -/
def record (p : Side) : Option Friendship := (h.store p).pairRecord h.pair

/-- The two users have their accounts on the node. -/
def knows (p : Side) : Bool := ((h.store p).getUser (h.user .left)).isSome &&
  ((h.store p).getUser (h.user .right)).isSome

/-- Nothing has been asked yet: there is no record between the two, and the feeds are applied. -/
structure IsFresh : Prop where
  user_ne : h.user .left ≠ h.user .right
  unrelated : ∀ p, (h.store p).pairRecords h.pair = []
  caughtUp : ∀ p, h.pulled p = (h.store p.other).outbox.length
  log : h.log = []

end Homes

/-! ## The copies of the record -/

/-- The two copies of the record, and what is on its way between them. -/
@[ext]
structure Copies where
  user : Side → UserId
  knows : Side → Bool
  record : Side → Option Friendship
  queue : Side → List (ChangeOp × Row)
  done : Side → Befriending → Bool

namespace Copies

variable (c : Copies)

/-- A command has been applied at a home. -/
def note (p : Side) (what : Befriending) : Copies :=
  { c with done := fun p' what' => c.done p' what' || (p' = p && what' = what) }

/-- A home has written its copy. -/
def write (p : Side) (f : Friendship) : Copies :=
  { c with
    record := Function.update c.record p (some f)
    queue := Function.update c.queue p.other (c.queue p.other ++ [(.upsert, .friendship f)]) }

/-- A home has passed over what is first. -/
def skip (p : Side) : Copies :=
  { c with queue := Function.update c.queue p (c.queue p).tail }

/-- A home has taken over what is first. -/
def hear (p : Side) (f : Friendship) : Copies :=
  { c.skip p with record := Function.update c.record p (some f) }

end Copies

namespace Homes

def copies (h : Homes) : Copies where
  user := h.user
  knows := h.knows
  record := h.record
  queue := fun p => (h.queue p).map (fun r => (r.op, r.payload))
  done := fun p what => 0 < h.applied p what

/-- At most one record between the two on a home, and no home is ahead of an outbox. -/
structure IsSound (h : Homes) : Prop where
  user_ne : h.user .left ≠ h.user .right
  single : ∀ p, ((h.store p).pairRecords h.pair).length ≤ 1
  pulled_le : ∀ p, h.pulled p ≤ (h.store p.other).outbox.length

variable {h : Homes}

theorem IsSound.ne (hsound : h.IsSound) (p : Side) : h.user p ≠ h.user p.other := by
  cases p with
  | left => exact hsound.user_ne
  | right => exact hsound.user_ne.symm

theorem pair_eq (h : Homes) (p : Side) : s(h.user p, h.user p.other) = h.pair := by
  cases p with
  | left => rfl
  | right => exact Sym2.eq_swap

theorem knows_eq (h : Homes) (p q : Side) :
    h.knows p = (((h.store p).getUser (h.user q)).isSome &&
      ((h.store p).getUser (h.user q.other)).isSome) := by
  cases q with
  | left => rfl
  | right => exact Bool.and_comm _ _

/-! ### What a commit does to them -/

theorem commit_of_accepts {p : Side} {what : Befriending}
    (haccepts : (what.command h.user).accepts (h.store p) = true) :
    h.commit p what =
      h.leave ((h.world p).mapStore ((what.command h.user).effect (h.world p).now))
        ⟨p, what, true⟩ := by
  rw [commit, Command.run_of_accepts haccepts]
  rfl

theorem commit_of_refused {p : Side} {what : Befriending}
    (hrefused : (what.command h.user).accepts (h.store p) = false) :
    h.commit p what = h.leave (h.world p) ⟨p, what, false⟩ := by
  obtain ⟨e, hrun⟩ := Command.run_of_refused hrefused
  rw [commit, hrun]
  rfl

theorem leave_store (w : World) (c : Commit) (p : Side) :
    (h.leave w c).store p = if p = c.home then w.store else h.store p := by
  change (Function.update h.world c.home w p).store = _
  rw [Function.update_apply]
  split
  next => rfl
  next => rfl

theorem leave_applied (w : World) (c : Commit) (p : Side) (what : Befriending) :
    (h.leave w c).applied p what =
      h.applied p what + if c.home = p ∧ c.what = what ∧ c.ok = true then 1 else 0 := by
  unfold leave applied
  rw [List.countP_append, List.countP_singleton]
  simp only [Bool.and_eq_true, decide_eq_true_eq, and_assoc]

theorem leave_done (w : World) (p : Side) (what : Befriending) :
    (h.leave w ⟨p, what, true⟩).copies.done = (h.copies.note p what).done := by
  funext p' what'
  simp only [copies, Copies.note, leave_applied, and_true]
  by_cases hsame : p = p' ∧ what = what'
  · obtain ⟨rfl, rfl⟩ := hsame
    simp
  · have hother : ¬ (p' = p ∧ what' = what) := fun ⟨hp, hwhat⟩ => hsame ⟨hp.symm, hwhat.symm⟩
    rw [if_neg hsame]
    simp [← Bool.decide_and, hother]

/-- A store with other friendships and more in its outbox. -/
structure Wrote (s t : Inner) (f : Friendship) (pair : Sym2 UserId) : Prop where
  users : t.users = s.users
  record : t.pairRecord pair = some f
  outbox : ∃ n, t.outbox = s.outbox ++ [⟨n, .upsert, .friendship f⟩]

theorem leave_knows {w : World} {c : Commit} (husers : w.store.users = (h.store c.home).users) :
    (h.leave w c).knows = h.knows := by
  funext p
  unfold knows Inner.getUser
  rw [leave_store]
  split
  next hp => rw [husers, hp]; rfl
  next => rfl

/-- The queue of the other home grows, and only that. -/
theorem leave_queue (hsound : h.IsSound) {w : World} {c : Commit}
    {records : List Democrachat.ChangeRecord}
    (houtbox : w.store.outbox = (h.store c.home).outbox ++ records) (p : Side) :
    (h.leave w c).queue p = if p = c.home.other then h.queue p ++ records else h.queue p := by
  have hpulled := hsound.pulled_le p
  have hsame : (h.leave w c).pulled = h.pulled := rfl
  unfold queue
  rw [leave_store, hsame]
  by_cases hp : p = c.home.other
  · subst hp
    rw [Side.other_other] at hpulled
    rw [Side.other_other, if_pos rfl, if_pos rfl, houtbox, List.drop_append_of_le_length hpulled]
  · have hother : p.other ≠ c.home := fun heq => hp (by rw [← heq, Side.other_other])
    rw [if_neg hother, if_neg hp]

theorem leave_record (w : World) (c : Commit) (p : Side) :
    (h.leave w c).copies.record p =
      if p = c.home then w.store.pairRecord h.pair else h.copies.record p := by
  change ((h.leave w c).store p).pairRecord h.pair = _
  rw [leave_store]
  split
  next => rfl
  next => rfl

/-- Nothing has been written. -/
theorem leave_same (hsound : h.IsSound) {w : World} {c : Commit}
    (hstore : w.store = h.store c.home) :
    (h.leave w c).copies = { h.copies with done := (h.leave w c).copies.done } := by
  have hknows : (h.leave w c).knows = h.knows := leave_knows (by rw [hstore])
  have hrecord : (h.leave w c).copies.record = h.copies.record := by
    funext p
    rw [leave_record, hstore]
    split
    next hp => rw [hp]; rfl
    next => rfl
  have hqueue : (h.leave w c).queue = h.queue := by
    funext p
    have houtbox : w.store.outbox = (h.store c.home).outbox ++ [] := by
      rw [hstore, List.append_nil]
    rw [leave_queue hsound houtbox, List.append_nil, ite_self]
  exact Copies.ext rfl hknows hrecord (by rw [copies, hqueue]; rfl) rfl

/-- A home has written its copy. -/
theorem leave_wrote (hsound : h.IsSound) {w : World} {c : Commit} {f : Friendship}
    (hwrote : Wrote (h.store c.home) w.store f h.pair) :
    (h.leave w c).copies =
      { h.copies.write c.home f with done := (h.leave w c).copies.done } := by
  obtain ⟨n, houtbox⟩ := hwrote.outbox
  have hknows : (h.leave w c).knows = h.knows := leave_knows hwrote.users
  have hrecord : (h.leave w c).copies.record = Function.update h.copies.record c.home (some f) := by
    funext p
    rw [leave_record, hwrote.record, Function.update_apply]
  have hqueue : (h.leave w c).copies.queue = (h.copies.write c.home f).queue := by
    funext p
    simp only [copies, Copies.write]
    rw [leave_queue hsound houtbox, Function.update_apply]
    split
    next hp => rw [hp, List.map_append, List.map_singleton]
    next => rfl
  exact Copies.ext rfl hknows hrecord hqueue rfl

/-- A command that is refused leaves no trace. -/
theorem copies_of_refused (hsound : h.IsSound) {p : Side} {what : Befriending}
    (hrefused : (what.command h.user).accepts (h.store p) = false) :
    (h.commit p what).copies = h.copies := by
  have hdone : (h.leave (h.world p) ⟨p, what, false⟩).copies.done = h.copies.done := by
    funext p' what'
    simp only [copies, leave_applied, Bool.false_eq_true, and_false, if_false, Nat.add_zero]
  rw [commit_of_refused hrefused, leave_same hsound (by rfl), hdone]

theorem commit_wrote (hsound : h.IsSound) {p : Side} {what : Befriending} {f : Friendship}
    (haccepts : (what.command h.user).accepts (h.store p) = true)
    (hwrote : Wrote (h.store p) ((what.command h.user).effect (h.world p).now (h.store p)) f
      h.pair) : (h.commit p what).copies = (h.copies.write p f).note p what := by
  rw [commit_of_accepts haccepts, leave_wrote hsound hwrote, leave_done]
  rfl

/-- A request where there is a record. -/
theorem copies_request_of_some (hsound : h.IsSound) {p q : Side} {f : Friendship}
    (haccepts : ((Befriending.request q).command h.user).accepts (h.store p) = true)
    (hrecord : h.copies.record p = some f) :
    (h.commit p (.request q)).copies = h.copies.note p (.request q) := by
  have hsome : ((h.store p).pairRecord s(h.user q, h.user q.other)).isSome = true := by
    rw [pair_eq]
    exact Option.isSome_of_eq_some hrecord
  have hsame : ((Befriending.request q).command h.user).effect (h.world p).now (h.store p) =
      h.store p := by
    have hunchanged := Inner.addFriendship_of_some
      (f := .request (h.user q) (h.user q.other) (h.world p).now) hsome
    exact congrArg Prod.snd hunchanged
  rw [commit_of_accepts haccepts, leave_same hsound hsame, leave_done]
  rfl

/-- A request where there is none. -/
theorem copies_request_of_none (hsound : h.IsSound) {p q : Side}
    (haccepts : ((Befriending.request q).command h.user).accepts (h.store p) = true)
    (hrecord : h.copies.record p = none) :
    (h.commit p (.request q)).copies =
      (h.copies.write p (.request (h.user q) (h.user q.other) (h.world p).now)).note p
        (.request q) := by
  have hnone : (h.store p).pairRecord
      (Friendship.request (h.user q) (h.user q.other) (h.world p).now).key = none := by
    rw [Friendship.key_request, pair_eq]
    exact hrecord
  refine commit_wrote hsound haccepts ⟨Inner.users_addFriendship _ _, ?_, ?_⟩
  · refine (Inner.pairRecord_addFriendship _ _ _).trans ?_
    rw [Friendship.key_request, pair_eq, if_pos rfl]
    rw [Friendship.key_request, pair_eq] at hnone
    rw [hnone, Option.none_or]
  · have houtbox := Inner.outbox_addFriendship (h.store p)
      (.request (h.user q) (h.user q.other) (h.world p).now)
    rw [hnone] at houtbox
    exact ⟨_, houtbox⟩

theorem accepts_accept {p q : Side} :
    ((Befriending.accept q).command h.user).accepts (h.store p) = true ↔
      h.knows p = true ∧ ∃ f, h.copies.record p = some f ∧ f.areFriends = false ∧
        f.requester = h.user q.other ∧ f.addressee = h.user q := by
  have hbetween : (h.store p).friendshipBetween (h.user q) (h.user q.other) =
      h.copies.record p := by
    rw [Inner.friendshipBetween_eq, pair_eq]
    rfl
  simp only [Befriending.command, Command.accepts, hbetween, knows_eq h p q, Option.any_eq_true,
    Bool.and_eq_true, Bool.not_eq_true', beq_iff_eq, and_assoc]

/-- An acceptance of the record that is there. -/
theorem copies_accept (hsound : h.IsSound) {p q : Side} {f : Friendship}
    (haccepts : ((Befriending.accept q).command h.user).accepts (h.store p) = true)
    (hrecord : h.copies.record p = some f) :
    (h.commit p (.accept q)).copies = (h.copies.write p f.accept).note p (.accept q) := by
  have hbetween : (h.store p).friendshipBetween (h.user q) (h.user q.other) = some f := by
    rw [Inner.friendshipBetween_eq, pair_eq]
    exact hrecord
  have hrecord' : (h.store p).pairRecord h.pair = some f := hrecord
  have hkey : f.accept.key = h.pair := by
    rw [Friendship.key_accept]
    exact Inner.pairRecord_key hrecord'
  have heffect : ((Befriending.accept q).command h.user).effect (h.world p).now (h.store p) =
      (h.store p).updateFriendship f.accept := by
    simp only [Befriending.command, Command.effect, hbetween]
  refine commit_wrote hsound haccepts ?_
  rw [heffect]
  refine ⟨Inner.users_updateFriendship _ _, ?_, ?_⟩
  · rw [Inner.pairRecord_updateFriendship, if_pos hkey, hrecord']
    rfl
  · have houtbox := Inner.outbox_updateFriendship (h.store p) f.accept
    rw [hkey, hrecord'] at houtbox
    exact ⟨_, houtbox⟩

/-! ### What a pull does to them -/

theorem pull_of_nil {p : Side} (hqueue : h.queue p = []) : h.pull p = h := by
  unfold pull
  rw [hqueue]

theorem pulled_queue {p : Side} {r : Democrachat.ChangeRecord} {rs : List Democrachat.ChangeRecord}
    (hqueue : h.queue p = r :: rs) : (h.store p.other).outbox.drop (h.pulled p + 1) = rs := by
  rw [← List.drop_drop, ← queue, hqueue]
  rfl

theorem pull_world {p : Side} {r : Democrachat.ChangeRecord} {rs : List Democrachat.ChangeRecord}
    (hqueue : h.queue p = r :: rs) :
    (h.pull p).world =
      if h.tells p.other r then Function.update h.world p ((h.world p).mapStore r.applyTo)
      else h.world := by
  unfold pull
  rw [hqueue]

theorem pull_pulled {p : Side} {r : Democrachat.ChangeRecord} {rs : List Democrachat.ChangeRecord}
    (hqueue : h.queue p = r :: rs) :
    (h.pull p).pulled = Function.update h.pulled p (h.pulled p + 1) := by
  unfold pull
  rw [hqueue]

theorem pull_user (h : Homes) (p : Side) : (h.pull p).user = h.user := by
  unfold pull
  split
  next => rfl
  next => rfl

theorem pull_log (h : Homes) (p : Side) : (h.pull p).log = h.log := by
  unfold pull
  split
  next => rfl
  next => rfl

theorem pull_store_of_untold {p : Side} {r : Democrachat.ChangeRecord}
    {rs : List Democrachat.ChangeRecord} (hqueue : h.queue p = r :: rs)
    (htells : h.tells p.other r = false) : (h.pull p).store = h.store := by
  funext q
  unfold store
  rw [pull_world hqueue, if_neg (by rw [htells]; exact Bool.false_ne_true)]

theorem pull_store_of_told {p : Side} {r : Democrachat.ChangeRecord}
    {rs : List Democrachat.ChangeRecord} (hqueue : h.queue p = r :: rs)
    (htells : h.tells p.other r = true) (q : Side) :
    (h.pull p).store q = if q = p then r.applyTo (h.store p) else h.store q := by
  unfold store
  rw [pull_world hqueue, if_pos htells, Function.update_apply]
  split
  next => rfl
  next => rfl

/-- A pull goes on by one record. -/
theorem pull_queue {p : Side} {r : Democrachat.ChangeRecord} {rs : List Democrachat.ChangeRecord}
    (hqueue : h.queue p = r :: rs)
    (houtbox : ∀ q, ((h.pull p).store q).outbox = (h.store q).outbox) (q : Side) :
    (h.pull p).queue q = if q = p then rs else h.queue q := by
  rw [queue, houtbox, pull_pulled hqueue, Function.update_apply]
  split
  next hq =>
    subst hq
    exact pulled_queue hqueue
  next => rfl

theorem pull_queue_map {p : Side} {r : Democrachat.ChangeRecord}
    {rs : List Democrachat.ChangeRecord} (hqueue : h.queue p = r :: rs)
    (houtbox : ∀ q, ((h.pull p).store q).outbox = (h.store q).outbox) :
    (h.pull p).copies.queue = (h.copies.skip p).queue := by
  funext q
  simp only [copies, Copies.skip, pull_queue hqueue houtbox, Function.update_apply, hqueue]
  split
  next => rfl
  next => rfl

theorem pull_done (h : Homes) (p : Side) : (h.pull p).copies.done = h.copies.done := by
  funext q what
  have happlied : (h.pull p).applied q what = h.applied q what := by rw [applied, pull_log, applied]
  simp only [copies, happlied]

/-- What the feed does not tell is passed over. -/
theorem copies_pull_of_untold {p : Side} {r : Democrachat.ChangeRecord}
    {rs : List Democrachat.ChangeRecord} (hqueue : h.queue p = r :: rs)
    (htells : h.tells p.other r = false) : (h.pull p).copies = h.copies.skip p := by
  have hstore := pull_store_of_untold hqueue htells
  have huser := h.pull_user p
  have hknows : (h.pull p).knows = h.knows := by
    funext q
    rw [knows, hstore, huser, knows]
  have hrecord : (h.pull p).copies.record = h.copies.record := by
    funext q
    simp only [copies, record, pair, hstore, huser]
  have hqueues := pull_queue_map hqueue (fun q => by rw [hstore])
  exact Copies.ext huser hknows hrecord hqueues (h.pull_done p)

/-- A row of the pair that the feed tells replaces the copy. -/
theorem copies_pull_of_told {p : Side} {r : Democrachat.ChangeRecord} {f : Friendship}
    {rs : List Democrachat.ChangeRecord} (hqueue : h.queue p = r :: rs)
    (htells : h.tells p.other r = true) (hop : r.op = .upsert) (hrow : r.payload = .friendship f)
    (hkey : f.key = h.pair) : (h.pull p).copies = h.copies.hear p f := by
  have happly : r.applyTo (h.store p) = (h.store p).put (.friendship f) := by
    unfold ChangeRecord.applyTo
    rw [hop, hrow]
  have hstore := pull_store_of_told hqueue htells
  rw [happly] at hstore
  have huser := h.pull_user p
  have hpair : (h.pull p).pair = h.pair := by rw [pair, huser, pair]
  have husers : ∀ q, ((h.pull p).store q).users = (h.store q).users := by
    intro q
    rw [hstore]
    split
    next hq => rw [hq]; rfl
    next => rfl
  have houtbox : ∀ q, ((h.pull p).store q).outbox = (h.store q).outbox := by
    intro q
    rw [hstore]
    split
    next hq => rw [hq]; rfl
    next => rfl
  have hknows : (h.pull p).knows = h.knows := by
    funext q
    simp only [knows, Inner.getUser, husers, huser]
  have hrecord : (h.pull p).copies.record = (h.copies.hear p f).record := by
    funext q
    simp only [copies, record, Copies.hear, hpair, hstore, Function.update_apply]
    split
    next => rw [Inner.pairRecord_putFriendship, if_pos hkey]
    next => rfl
  exact Copies.ext huser hknows hrecord (pull_queue_map hqueue houtbox) (h.pull_done p)

/-! ### What a feed tells -/

theorem classify_toPayload {wire : Wire} {row : Row} (hwire : wire.WritesRow row)
    (hreads : wire.ReadsScopes) :
    classify row.kind.name (wire.toPayload row) = row.derived := by
  obtain ⟨n, hn⟩ := hwire.scope
  rcases hreads.derived hwire.reads with hindeterminate | hderived
  · exact absurd hindeterminate (classify_ne_indeterminate hn)
  · exact hderived

/-- Where each home is owned by the node of its side, the feed of a node has the friendships
that are told. -/
theorem tells_eq_signed {wire : Wire} (hreads : wire.ReadsScopes) {registry : InMemoryRegistry}
    {node : Side → NodeId} (hnodes : node .left ≠ node .right)
    (howners : ∀ p, ∃ epoch, registry.owners (.userHome (h.user p)) = some (node p, epoch))
    {f : Friendship} (hwire : wire.WritesRow (.friendship f)) {x : Side}
    (hrequester : f.requester = h.user x) (resolver : ScopeResolver) (p : Side) (seq : Nat)
    (op : ChangeOp) :
    h.tells p ⟨seq, op, .friendship f⟩ =
      (signedPart (registry.answers wire) resolver (node p)
        ⟨seq, (Row.friendship f).kind.name, op, wire.toPayload (.friendship f)⟩).isSome := by
  have hclassify := classify_toPayload hwire hreads
  obtain ⟨epoch, howner⟩ := howners x
  have hsides : h.user x = h.user p ↔ node x = node p := by
    constructor
    · intro huser
      obtain ⟨epoch', howner'⟩ := howners p
      rw [← huser, howner] at howner'
      exact congrArg Prod.fst (Option.some.inj howner')
    · intro hnode
      by_cases hp : x = p
      · rw [hp]
      · have hother := Side.eq_other_of_ne hp
        subst hother
        cases p with
        | left => exact absurd hnode.symm hnodes
        | right => exact absurd hnode hnodes
  rw [Bool.eq_iff_iff, Option.isSome_iff_exists]
  simp only [signedPart_eq_some, hclassify, tells, Row.derived, DerivedScope.resolve,
    decide_eq_true_iff, DerivedScope.owned.injEq, OwnedScope.userHome.injEq, hrequester, hsides,
    epochOf_eq_some]
  constructor
  · intro hnode
    rw [hnode] at howner
    exact ⟨_, _, epoch, rfl, howner, rfl⟩
  · rintro ⟨part, scope, epoch', hscope, hsigned, -⟩
    obtain rfl := Except.ok.inj hscope
    rw [howner] at hsigned
    exact congrArg Prod.fst (Option.some.inj hsigned)

/-! ### Soundness -/

theorem length_pairRecords_effect {s : Inner} {pair : Sym2 UserId}
    (h : (s.pairRecords pair).length ≤ 1) (what : Befriending) (user : Side → UserId)
    (now : Timestamp) :
    (((what.command user).effect now s).pairRecords pair).length ≤ 1 := by
  cases what with
  | request q => exact Inner.length_pairRecords_addFriendship h _
  | accept q =>
    simp only [Befriending.command, Command.effect]
    split
    next => exact Inner.length_pairRecords_updateFriendship h _
    next => exact h

theorem outbox_effect (s : Inner) (what : Befriending) (user : Side → UserId) (now : Timestamp) :
    s.outbox.length ≤ ((what.command user).effect now s).outbox.length := by
  cases what with
  | request q =>
    simp only [Befriending.command, Command.effect, Inner.outbox_addFriendship, List.length_append]
    omega
  | accept q =>
    simp only [Befriending.command, Command.effect]
    split
    next =>
      rw [Inner.outbox_updateFriendship, List.length_append]
      omega
    next => omega

theorem IsSound.leave (hsound : h.IsSound) {w : World} {c : Commit}
    (hsingle : (w.store.pairRecords h.pair).length ≤ 1)
    (houtbox : (h.store c.home).outbox.length ≤ w.store.outbox.length) :
    (h.leave w c).IsSound where
  user_ne := hsound.user_ne
  single := by
    intro p
    rw [leave_store]
    split
    next => exact hsingle
    next => exact hsound.single p
  pulled_le := by
    intro p
    have hpulled := hsound.pulled_le p
    change h.pulled p ≤ _
    rw [leave_store]
    split
    next hp =>
      rw [hp] at hpulled
      omega
    next => exact hpulled

theorem IsSound.commit (hsound : h.IsSound) (p : Side) (what : Befriending) :
    (h.commit p what).IsSound := by
  cases haccepts : (what.command h.user).accepts (h.store p) with
  | true =>
    rw [commit_of_accepts haccepts]
    exact hsound.leave (length_pairRecords_effect (hsound.single p) what h.user _)
      (outbox_effect (h.store p) what h.user _)
  | false =>
    rw [commit_of_refused haccepts]
    exact hsound.leave (hsound.single p) (le_refl _)

/-- Where what comes next is a friendship. -/
theorem IsSound.pull (hsound : h.IsSound) {p : Side}
    (hnext : ∀ r ∈ (h.queue p).head?, r.op = .upsert ∧ ∃ f, r.payload = .friendship f) :
    (h.pull p).IsSound := by
  cases hqueue : h.queue p with
  | nil =>
    rw [pull_of_nil hqueue]
    exact hsound
  | cons r rs =>
    obtain ⟨hop, f, hrow⟩ := hnext r (by rw [hqueue]; exact rfl)
    have happly : ∀ s : Inner, r.applyTo s = s.put (.friendship f) := by
      intro s
      unfold ChangeRecord.applyTo
      rw [hop, hrow]
    have hstore : ∀ q, ((h.pull p).store q).outbox = (h.store q).outbox ∧
        (((h.pull p).store q).pairRecords h.pair).length ≤ 1 := by
      intro q
      cases htells : h.tells p.other r with
      | true =>
        rw [pull_store_of_told hqueue htells]
        split
        next hq =>
          rw [happly, hq]
          exact ⟨rfl, Inner.length_pairRecords_putFriendship (hsound.single p) f⟩
        next => exact ⟨rfl, hsound.single q⟩
      | false =>
        rw [pull_store_of_untold hqueue htells]
        exact ⟨rfl, hsound.single q⟩
    have huser := h.pull_user p
    refine ⟨by rw [huser]; exact hsound.user_ne, fun q => ?_, fun q => ?_⟩
    · rw [pair, huser]
      exact (hstore q).2
    · rw [(hstore q.other).1, pull_pulled hqueue, Function.update_apply]
      split
      next hq =>
        have hlength := congrArg List.length hqueue
        rw [queue, List.length_drop, List.length_cons] at hlength
        rw [hq]
        omega
      next => exact hsound.pulled_le q

theorem setClock_store (h : Homes) (p : Side) (now : Timestamp) :
    (h.step (.setClock p now)).store = h.store := by
  funext q
  change (Function.update h.world p { h.world p with now := now } q).store = (h.world q).store
  rw [Function.update_apply]
  split
  next hq => rw [hq]
  next => rfl

theorem copies_setClock (h : Homes) (p : Side) (now : Timestamp) :
    (h.step (.setClock p now)).copies = h.copies := by
  have hstore := h.setClock_store p now
  have hknows : (h.step (.setClock p now)).knows = h.knows := by
    funext q
    rw [knows, hstore]
    rfl
  have hrecord : (h.step (.setClock p now)).record = h.record := by
    funext q
    rw [record, hstore]
    rfl
  have hqueue : (h.step (.setClock p now)).queue = h.queue := by
    funext q
    rw [queue, hstore]
    rfl
  exact Copies.ext rfl hknows hrecord (by rw [copies, hqueue]; rfl) rfl

theorem IsSound.setClock (hsound : h.IsSound) (p : Side) (now : Timestamp) :
    (h.step (.setClock p now)).IsSound where
  user_ne := hsound.user_ne
  single := by
    rw [setClock_store]
    exact hsound.single
  pulled_le := by
    rw [setClock_store]
    exact hsound.pulled_le

end Homes

end Democrachat.Federation
