import Democrachat.Federation.Homes
import Democrachat.Library.Runs
import Democrachat.Properties.Forwarders

/-!
# Friendships on two homes

The copies of one record agree where all that has been written of it is written by one
requester.  Two requests that cross leave each home with the request of its own making or,
once the feeds are applied, with the other's.
-/

namespace Democrachat.Federation

open Library

namespace Copies

/-- The record is a request of the user on this side to the other. -/
def IsFrom (c : Copies) (x : Side) (f : Friendship) : Prop :=
  f.requester = c.user x ∧ f.addressee = c.user x.other

/-- Everything that is stored or on its way comes from one requester, whose home's feed brings
its copy to the other. -/
structure Directed (x : Side) (c : Copies) : Prop where
  record : ∀ p f, c.record p = some f → c.IsFrom x f
  queue : ∀ p, ∀ e ∈ c.queue p, ∃ f, e = (.upsert, .friendship f) ∧ c.IsFrom x f
  source : ∀ p, c.queue p ≠ [] → (c.record p.other).isSome = true
  last : ∀ e ∈ (c.queue x.other).getLast?, ∃ f, c.record x = some f ∧ e = (.upsert, .friendship f)
  follows : c.queue x.other = [] → ∀ f, c.record x = some f →
    c.record x.other = some f ∨ f.areFriends = false ∧ c.record x.other = some f.accept
  settled : ∀ f, c.record x = some f → f.areFriends = c.done x (.accept x.other)
  seen : ∀ f, c.record x.other = some f → f.areFriends = true →
    c.done x.other (.accept x.other) = true
  acts : ∀ p what, c.done p what = true → (c.record p).isSome = true ∧ c.knows p = true
  addressed : ∀ p, c.done p (.accept x) = false
  backed : (c.record x.other).isSome = true →
    (c.record x).isSome = true ∨ c.done x.other (.request x) = true

variable {c : Copies} {x : Side}

@[simp] theorem note_record (p : Side) (what : Befriending) : (c.note p what).record = c.record := rfl

@[simp] theorem note_queue (p : Side) (what : Befriending) : (c.note p what).queue = c.queue := rfl

@[simp] theorem note_knows (p : Side) (what : Befriending) : (c.note p what).knows = c.knows := rfl

theorem note_done (p q : Side) (what what' : Befriending) :
    (c.note p what).done q what' = (c.done q what' || (q = p && what' = what)) := rfl

theorem write_record (p q : Side) (f : Friendship) :
    (c.write p f).record q = if q = p then some f else c.record q :=
  Function.update_apply _ _ _ _

theorem write_queue (p q : Side) (f : Friendship) :
    (c.write p f).queue q =
      if q = p.other then c.queue q ++ [(.upsert, .friendship f)] else c.queue q := by
  refine (Function.update_apply _ _ _ _).trans ?_
  split
  next hq => rw [hq]
  next => rfl

@[simp] theorem write_done (p : Side) (f : Friendship) : (c.write p f).done = c.done := rfl

@[simp] theorem write_knows (p : Side) (f : Friendship) : (c.write p f).knows = c.knows := rfl

/-- Before there is a record, any direction will do. -/
theorem Directed.turn (hc : c.Directed x) (hnone : ∀ p, c.record p = none) (y : Side) :
    c.Directed y := by
  have hempty : ∀ p, c.queue p = [] := by
    intro p
    by_contra hne
    have hsome := hc.source p hne
    rw [hnone] at hsome
    exact Bool.false_ne_true hsome
  have hundone : ∀ p what, c.done p what = false := by
    intro p what
    by_contra hdone
    have hsome := (hc.acts p what (by simpa using hdone)).1
    rw [hnone] at hsome
    exact Bool.false_ne_true hsome
  constructor <;> simp [hnone, hempty, hundone]

/-- A request that finds a record. -/
theorem Directed.note_request (hc : c.Directed x) {p : Side} (q : Side)
    (hsome : (c.record p).isSome = true) (hknows : c.knows p = true) :
    (c.note p (.request q)).Directed x := by
  have haccept : ∀ p' a, (c.note p (.request q)).done p' (.accept a) = c.done p' (.accept a) := by
    intro p' a
    simp [note_done]
  refine
    { record := hc.record, queue := hc.queue, source := hc.source, last := hc.last
      follows := hc.follows, settled := ?_, seen := ?_, acts := ?_, addressed := ?_, backed := ?_ }
  · intro f hf
    rw [haccept]
    exact hc.settled f hf
  · intro f hf hfriends
    rw [haccept]
    exact hc.seen f hf hfriends
  · intro p' what hdone
    rw [note_done, Bool.or_eq_true] at hdone
    rcases hdone with hdone | hnow
    · exact hc.acts p' what hdone
    · rw [Bool.and_eq_true, decide_eq_true_eq] at hnow
      rw [hnow.1]
      exact ⟨hsome, hknows⟩
  · intro p'
    rw [haccept]
    exact hc.addressed p'
  · intro hthere
    rcases hc.backed hthere with hhere | hasked
    · exact .inl hhere
    · exact .inr (by rw [note_done, hasked, Bool.true_or])

/-- A home writes a copy that comes from the requester. -/
theorem Directed.write (hc : c.Directed x) {p : Side} {f : Friendship} {what : Befriending}
    (hfrom : c.IsFrom x f) (hknows : c.knows p = true) (hwhat : what ≠ .accept x)
    (hfollows : p = x.other → ∀ g, c.record x = some g → c.queue x.other = [] →
      f = g ∨ g.areFriends = false ∧ f = g.accept)
    (hstatus : f.areFriends = (c.done p (.accept x.other) || what = .accept x.other))
    (hbacked : p = x.other →
      (c.record x).isSome = true ∨ c.done x.other (.request x) = true ∨ what = .request x) :
    ((c.write p f).note p what).Directed x where
  record := by
    intro q g hg
    rw [note_record, write_record] at hg
    split at hg
    next =>
      obtain rfl := Option.some.inj hg
      exact hfrom
    next => exact hc.record q g hg
  queue := by
    intro q e he
    rw [note_queue, write_queue] at he
    split at he
    next =>
      rcases List.mem_append.1 he with hold | hnew
      · exact hc.queue q e hold
      · exact ⟨f, List.mem_singleton.1 hnew, hfrom⟩
    next => exact hc.queue q e he
  source := by
    intro q hq
    rw [note_queue, write_queue] at hq
    rw [note_record, write_record]
    split
    next => rfl
    next hother =>
      have hne : q ≠ p.other := fun heq => hother (by rw [heq, Side.other_other])
      rw [if_neg hne] at hq
      exact hc.source q hq
  last := by
    intro e he
    rw [note_queue, write_queue] at he
    rw [note_record, write_record]
    by_cases hp : p = x
    · subst hp
      rw [if_pos rfl, List.getLast?_concat] at he
      exact ⟨f, if_pos rfl, (Option.mem_some.1 he).symm⟩
    · have hother : p = x.other := Side.eq_other_of_ne hp
      subst hother
      rw [Side.other_other, if_neg x.other_ne] at he
      rw [if_neg x.ne_other]
      exact hc.last e he
  follows := by
    intro hempty g hg
    rw [note_queue, write_queue] at hempty
    simp only [note_record, write_record] at hg ⊢
    by_cases hp : p = x
    · subst hp
      rw [if_pos rfl] at hempty
      exact absurd hempty (List.append_ne_nil_of_right_ne_nil _ (List.cons_ne_nil _ _))
    · have hother : p = x.other := Side.eq_other_of_ne hp
      subst hother
      rw [Side.other_other, if_neg x.other_ne] at hempty
      rw [if_neg x.ne_other] at hg
      rw [if_pos rfl]
      rcases hfollows rfl g hg hempty with rfl | ⟨hpending, rfl⟩
      · exact .inl rfl
      · exact .inr ⟨hpending, rfl⟩
  settled := by
    intro g hg
    rw [note_record, write_record] at hg
    rw [note_done, write_done]
    split at hg
    next hp =>
      obtain rfl := Option.some.inj hg
      subst hp
      rw [hstatus]
      simp [eq_comm (a := what)]
    next hp =>
      rw [hc.settled g hg]
      simp [hp]
  seen := by
    intro g hg hfriends
    rw [note_record, write_record] at hg
    rw [note_done, write_done]
    split at hg
    next hp =>
      obtain rfl := Option.some.inj hg
      subst hp
      rw [hstatus] at hfriends
      simpa [eq_comm (a := what)] using hfriends
    next hp =>
      rw [hc.seen g hg hfriends, Bool.true_or]
  acts := by
    intro q what' hdone
    rw [note_done, write_done, Bool.or_eq_true] at hdone
    rw [note_record, note_knows, write_record, write_knows]
    split
    next hq =>
      rw [hq]
      exact ⟨rfl, hknows⟩
    next hq =>
      rcases hdone with hdone | hnow
      · exact hc.acts q what' hdone
      · rw [Bool.and_eq_true, decide_eq_true_eq] at hnow
        exact absurd hnow.1 hq
  addressed := by
    intro q
    rw [note_done, write_done, hc.addressed q]
    simp [hwhat.symm]
  backed := by
    intro hthere
    rw [note_record, write_record] at hthere
    rw [note_record, write_record, note_done, write_done]
    by_cases hp : p = x
    · subst hp
      exact .inl (by rw [if_pos rfl]; rfl)
    · have hother : p = x.other := Side.eq_other_of_ne hp
      subst hother
      rw [if_neg x.ne_other]
      rcases hbacked rfl with hhere | hdone | rfl
      · exact .inl hhere
      · exact .inr (by rw [hdone, Bool.true_or])
      · exact .inr (by simp)

/-- A request where there is no record, and the other home has none that comes from the other. -/
theorem Directed.request (hc : c.Directed x) {p : Side} {now : Timestamp}
    (hnone : c.record p = none) (hknows : c.knows p = true) :
    ((c.write p (.request (c.user x) (c.user x.other) now)).note p (.request x)).Directed x := by
  have hundone : ∀ what, c.done p what = false := by
    intro what
    by_contra hdone
    have hsome := (hc.acts p what (by simpa using hdone)).1
    rw [hnone] at hsome
    exact Bool.false_ne_true hsome
  refine hc.write ⟨rfl, rfl⟩ hknows nofun ?_ ?_ (fun _ => .inr (.inr rfl))
  · intro hp g hg hempty
    subst hp
    rcases hc.follows hempty g hg with hsame | ⟨-, hsame⟩
    · rw [hnone] at hsame
      cases hsame
    · rw [hnone] at hsame
      cases hsame
  · rw [hundone]
    rfl

/-- An acceptance of what is pending. -/
theorem Directed.accept (hc : c.Directed x) {p : Side} {f : Friendship}
    (hrecord : c.record p = some f) (hpending : f.areFriends = false) (hknows : c.knows p = true) :
    ((c.write p f.accept).note p (.accept x.other)).Directed x := by
  refine hc.write (hc.record p f hrecord) hknows ?_ ?_ ?_ ?_
  · exact fun heq => x.other_ne (Befriending.accept.inj heq)
  · intro hp g hg hempty
    subst hp
    rcases hc.follows hempty g hg with hsame | ⟨-, hsame⟩
    · obtain rfl := Option.some.inj (hrecord.symm.trans hsame)
      exact .inr ⟨hpending, rfl⟩
    · obtain rfl := Option.some.inj (hrecord.symm.trans hsame)
      exact absurd hpending nofun
  · simp [Friendship.accept, Friendship.areFriends]
  · intro hp
    subst hp
    rcases hc.backed (Option.isSome_of_eq_some hrecord) with hhere | hdone
    · exact .inl hhere
    · exact .inr (.inl hdone)

/-- The requester's home passes over what the other home's outbox has. -/
theorem Directed.skip (hc : c.Directed x) : (c.skip x).Directed x := by
  have hqueue : ∀ q, (c.skip x).queue q = if q = x then (c.queue x).tail else c.queue q :=
    fun q => Function.update_apply _ _ _ _
  refine { hc with queue := ?_, source := ?_, last := ?_, follows := ?_ }
  · intro q e he
    rw [hqueue] at he
    split at he
    next => exact hc.queue x e (List.mem_of_mem_tail he)
    next => exact hc.queue q e he
  · intro q hq
    rw [hqueue] at hq
    split at hq
    next heq =>
      rw [heq]
      exact hc.source x fun hempty => hq (by rw [hempty]; rfl)
    next => exact hc.source q hq
  · rw [hqueue, if_neg x.other_ne]
    exact hc.last
  · rw [hqueue, if_neg x.other_ne]
    exact hc.follows

/-- The other home takes over what comes next, no acceptance that it has not committed. -/
theorem Directed.hear (hc : c.Directed x) {f : Friendship} {rest : List (ChangeOp × Row)}
    (hnext : c.queue x.other = (.upsert, .friendship f) :: rest)
    (hseen : f.areFriends = true → c.done x.other (.accept x.other) = true) :
    (c.hear x.other f).Directed x := by
  have hqueue : ∀ q, (c.hear x.other f).queue q = if q = x.other then rest else c.queue q := by
    intro q
    refine (Function.update_apply _ _ _ _).trans ?_
    rw [hnext]
    rfl
  have hrecord : ∀ q, (c.hear x.other f).record q = if q = x.other then some f else c.record q :=
    fun q => Function.update_apply _ _ _ _
  have hfrom : c.IsFrom x f := by
    obtain ⟨g, hg, hfrom⟩ := hc.queue x.other _ (by rw [hnext]; exact List.mem_cons_self)
    obtain rfl : f = g := Row.friendship.inj (Prod.mk.inj hg).2
    exact hfrom
  have hhere : (c.record x).isSome = true := by
    have hsource := hc.source x.other (by rw [hnext]; exact List.cons_ne_nil _ _)
    rwa [Side.other_other] at hsource
  refine
    { record := ?_, queue := ?_, source := ?_, last := ?_, follows := ?_, settled := ?_
      seen := ?_, acts := ?_, addressed := hc.addressed, backed := ?_ }
  · intro q g hg
    rw [hrecord] at hg
    split at hg
    next =>
      obtain rfl := Option.some.inj hg
      exact hfrom
    next => exact hc.record q g hg
  · intro q e he
    rw [hqueue] at he
    split at he
    next hq => exact hc.queue x.other e (by rw [hnext]; exact List.mem_cons_of_mem _ he)
    next => exact hc.queue q e he
  · intro q hq
    rw [hqueue] at hq
    rw [hrecord]
    split
    next => rfl
    next =>
      split at hq
      next heq => rwa [heq, Side.other_other]
      next => exact hc.source q hq
  · intro e he
    rw [hqueue, if_pos rfl] at he
    rw [hrecord, if_neg x.ne_other]
    apply hc.last
    rw [hnext]
    cases rest with
    | nil => cases he
    | cons e' rest => exact he
  · intro hempty g hg
    rw [hqueue, if_pos rfl] at hempty
    rw [hrecord, if_neg x.ne_other] at hg
    rw [hrecord, if_pos rfl]
    obtain ⟨g', hg', he⟩ := hc.last (.upsert, .friendship f) (by rw [hnext, hempty]; rfl)
    obtain rfl : f = g' := Row.friendship.inj (Prod.mk.inj he).2
    exact .inl (hg'.symm.trans hg)
  · intro g hg
    rw [hrecord, if_neg x.ne_other] at hg
    exact hc.settled g hg
  · intro g hg hfriends
    rw [hrecord, if_pos rfl] at hg
    obtain rfl := Option.some.inj hg
    exact hseen hfriends
  · intro q what hdone
    obtain ⟨hsome, hknows⟩ := hc.acts q what hdone
    rw [hrecord]
    refine ⟨?_, hknows⟩
    split
    next => rfl
    next => exact hsome
  · intro _
    rw [hrecord, if_neg x.ne_other]
    exact .inl hhere

end Copies

/-! ## Runs -/

/-- A friendship that has been accepted. -/
def isAccepted : Row → Bool
  | .friendship f => f.areFriends
  | _ => false

namespace Homes

variable (h : Homes)

/-- The command has been applied on both homes. -/
def Committed (what : Befriending) : Prop :=
  0 < h.applied .left what ∧ 0 < h.applied .right what

instance (what : Befriending) : Decidable (h.Committed what) :=
  inferInstanceAs (Decidable (_ ∧ _))

/-- Every command that one of the homes has applied has been applied by the other. -/
def Completed : Prop := ∀ what, h.applied .left what = h.applied .right what

def CaughtUp : Prop := ∀ p, h.queue p = []

/-- The homes hold the same single record, or none where nothing has been applied. -/
def Agrees : Prop :=
  ∃ found : Option Friendship, (∀ p, (h.store p).pairRecords h.pair = found.toList) ∧
    ((∃ p what, 0 < h.applied p what) → found.isSome = true)

def Converges : Prop := h.Completed → h.CaughtUp → h.Agrees

def succeeds (p : Side) (what : Befriending) : Bool :=
  ((what.command h.user).run.exec (h.world p)).1.isOk

/-- A request that both homes have applied can be accepted. -/
def LetsAccept : HomeStep → Prop
  | .commit p (.accept q) =>
    h.Committed (.request q.other) → h.succeeds p (.accept q) = true
  | _ => True

/-- No request meets a request from the other side that its home has not seen; nobody accepts
a second time or where he was the first to ask; and no feed is ahead of an acceptance. -/
def Orderly (h : Homes) : HomeStep → Prop
  | .commit p (.request q) =>
    h.record p = none → ∀ f ∈ h.record p.other, f.requester = h.user q
  | .commit p (.accept q) =>
    h.Committed (.request q.other) →
      h.applied p (.accept q) = 0 ∧ ∀ f ∈ h.record p, f.requester ≠ h.user q
  | .pull p =>
    ∀ r ∈ (h.queue p).head?, h.tells p.other r = true → isAccepted r.payload = true →
      0 < h.applied p (.accept p)
  | .setClock _ _ => True

/-- One requester, on two sound homes. -/
structure IsSteady : Prop where
  sound : h.IsSound
  directed : ∃ x, h.copies.Directed x

instance (step : HomeStep) : Decidable (h.Orderly step) :=
  match step with
  | .commit p (.request q) =>
    inferInstanceAs (Decidable (h.record p = none → ∀ f ∈ h.record p.other, f.requester = h.user q))
  | .commit p (.accept q) =>
    inferInstanceAs (Decidable (h.Committed (.request q.other) →
      h.applied p (.accept q) = 0 ∧ ∀ f ∈ h.record p, f.requester ≠ h.user q))
  | .pull p =>
    inferInstanceAs (Decidable (∀ r ∈ (h.queue p).head?, h.tells p.other r = true →
      isAccepted r.payload = true → 0 < h.applied p (.accept p)))
  | .setClock _ _ => .isTrue trivial

variable {h : Homes}

theorem copies_done (p : Side) (what : Befriending) :
    h.copies.done p what = true ↔ 0 < h.applied p what :=
  decide_eq_true_iff

theorem IsSound.side_eq (hsound : h.IsSound) {p q : Side} (huser : h.user p = h.user q) : p = q := by
  by_contra hne
  have hother := Side.eq_other_of_ne hne
  subst hother
  exact hsound.ne q huser.symm

theorem IsFresh.steady (hfresh : h.IsFresh) : h.IsSteady := by
  have hrecord : ∀ p, h.record p = none := by
    intro p
    rw [record, ← Inner.head?_pairRecords, hfresh.unrelated p]
    rfl
  have hqueue : ∀ p, h.queue p = [] := by
    intro p
    rw [queue, hfresh.caughtUp p, List.drop_length]
  have happlied : ∀ p what, h.applied p what = 0 := by
    intro p what
    rw [applied, hfresh.log]
    rfl
  refine ⟨⟨hfresh.user_ne, fun p => ?_, fun p => (hfresh.caughtUp p).le⟩, .left, ?_⟩
  · rw [hfresh.unrelated p]
    exact Nat.zero_le 1
  · constructor <;> simp [copies, hrecord, hqueue, happlied]

theorem IsSteady.request (hs : h.IsSteady) (p q : Side)
    (horderly : h.Orderly (.commit p (.request q))) : (h.commit p (.request q)).IsSteady := by
  obtain ⟨hsound, x, hx⟩ := hs
  refine ⟨hsound.commit p _, ?_⟩
  cases haccepts : ((Befriending.request q).command h.user).accepts (h.store p) with
  | false =>
    rw [copies_of_refused hsound haccepts]
    exact ⟨x, hx⟩
  | true =>
    have hknows : h.copies.knows p = true := by
      have husers := haccepts
      simp only [Befriending.command, Command.accepts, Bool.and_eq_true] at husers
      exact (h.knows_eq p q).trans (by rw [husers.1.1, husers.1.2]; rfl)
    cases hrecord : h.copies.record p with
    | some f =>
      rw [copies_request_of_some hsound haccepts hrecord]
      exact ⟨x, hx.note_request q (by rw [hrecord]; rfl) hknows⟩
    | none =>
      rw [copies_request_of_none hsound haccepts hrecord]
      -- Where the other home has a record, the request comes from the same user.
      have hq : h.copies.Directed q := by
        cases hother : h.copies.record p.other with
        | none =>
          apply hx.turn
          intro p'
          by_cases hp : p' = p
          · rw [hp, hrecord]
          · rw [Side.eq_other_of_ne hp, hother]
        | some f =>
          have hrequester := horderly hrecord f hother
          have hfrom := (hx.record p.other f hother).1
          obtain rfl : q = x := hsound.side_eq (hrequester.symm.trans hfrom)
          exact hx
      exact ⟨q, hq.request hrecord hknows⟩

theorem IsSteady.accept (hs : h.IsSteady) (p q : Side) : (h.commit p (.accept q)).IsSteady := by
  obtain ⟨hsound, x, hx⟩ := hs
  refine ⟨hsound.commit p _, x, ?_⟩
  cases haccepts : ((Befriending.accept q).command h.user).accepts (h.store p) with
  | false =>
    rw [copies_of_refused hsound haccepts]
    exact hx
  | true =>
    obtain ⟨hknows, f, hrecord, hpending, hrequester, -⟩ := accepts_accept.1 haccepts
    rw [copies_accept hsound haccepts hrecord]
    have hfrom := (hx.record p f hrecord).1
    have hother : q.other = x := hsound.side_eq (hrequester.symm.trans hfrom)
    obtain rfl : q = x.other := by rw [← hother, Side.other_other]
    exact hx.accept hrecord hpending hknows

theorem IsSteady.pull (hs : h.IsSteady) (p : Side) (horderly : h.Orderly (.pull p)) :
    (h.pull p).IsSteady := by
  obtain ⟨hsound, x, hx⟩ := hs
  cases hqueue : h.queue p with
  | nil =>
    rw [pull_of_nil hqueue]
    exact ⟨hsound, x, hx⟩
  | cons r rs =>
    have hhead : h.copies.queue p = (r.op, r.payload) :: rs.map (fun r => (r.op, r.payload)) := by
      simp only [copies, hqueue, List.map_cons]
    obtain ⟨f, hf, hfrom⟩ := hx.queue p (r.op, r.payload) (by rw [hhead]; exact List.mem_cons_self)
    obtain ⟨hop, hrow⟩ := Prod.mk.inj hf
    refine ⟨hsound.pull ?_, x, ?_⟩
    · intro r' hr'
      rw [hqueue] at hr'
      obtain rfl : r = r' := Option.some.inj hr'
      exact ⟨hop, f, hrow⟩
    · have htells : h.tells p.other r = true ↔ p = x.other := by
        unfold tells
        rw [hrow, decide_eq_true_iff]
        simp only [Row.derived, DerivedScope.owned.injEq, OwnedScope.userHome.injEq]
        constructor
        · intro huser
          have hside : x = p.other := hsound.side_eq (hfrom.1.symm.trans huser)
          rw [hside, Side.other_other]
        · rintro rfl
          rw [Side.other_other]
          exact hfrom.1
      by_cases hp : p = x.other
      · have htold := htells.2 hp
        have hkey : f.key = h.pair := by
          rw [Friendship.key, hfrom.1, hfrom.2]
          exact h.pair_eq x
        rw [copies_pull_of_told hqueue htold hop hrow hkey]
        subst hp
        rw [hop, hrow] at hhead
        apply hx.hear hhead
        intro hfriends
        apply (copies_done _ _).2
        apply horderly r (by rw [hqueue]; rfl) htold
        rw [hrow]
        exact hfriends
      · have hskipped : h.tells p.other r = false := by
          rw [Bool.eq_false_iff]
          exact fun htold => hp (htells.1 htold)
        obtain rfl : p = x := by
          by_contra hne
          exact hp (Side.eq_other_of_ne hne)
        rw [copies_pull_of_untold hqueue hskipped]
        exact hx.skip

theorem IsSteady.step (hs : h.IsSteady) (step : HomeStep) (horderly : h.Orderly step) :
    (h.step step).IsSteady := by
  cases step with
  | commit p what =>
    cases what with
    | request q => exact hs.request p q horderly
    | accept q => exact hs.accept p q
  | pull p => exact hs.pull p horderly
  | setClock p now =>
    refine ⟨hs.sound.setClock p now, ?_⟩
    rw [copies_setClock]
    exact hs.directed

theorem IsSteady.converges (hs : h.IsSteady) : h.Converges := by
  intro hcompleted hcaughtUp
  obtain ⟨hsound, x, hx⟩ := hs
  have hdone : ∀ p q what, h.copies.done p what = true → h.copies.done q what = true := by
    intro p q what hp
    rw [copies_done] at hp ⊢
    have hboth := hcompleted what
    cases p <;> cases q <;> omega
  have hempty : h.copies.queue x.other = [] := by
    simp only [copies, hcaughtUp x.other, List.map_nil]
  have hsame : h.copies.record x.other = h.copies.record x := by
    cases hrecord : h.copies.record x with
    | some f =>
      rcases hx.follows hempty f hrecord with hother | ⟨hpending, hother⟩
      · exact hother
      · have hseen := hx.seen f.accept hother (by rfl)
        rw [hx.settled f hrecord, hdone x.other x _ hseen] at hpending
        cases hpending
    | none =>
      by_contra hsome
      rcases hx.backed (Option.isSome_iff_ne_none.2 hsome) with hhere | hasked
      · rw [hrecord] at hhere
        cases hhere
      · have hhere := (hx.acts x _ (hdone x.other x _ hasked)).1
        rw [hrecord] at hhere
        cases hhere
  have hall : ∀ p, h.record p = h.record x := by
    intro p
    by_cases hp : p = x
    · rw [hp]
    · rw [Side.eq_other_of_ne hp]
      exact hsame
  refine ⟨h.record x, fun p => ?_, ?_⟩
  · rw [Inner.pairRecords_eq (hsound.single p), ← hall p]
    rfl
  · rintro ⟨p, what, happlied⟩
    rw [← hall p]
    exact (hx.acts p what ((copies_done p what).2 happlied)).1

theorem IsSteady.letsAccept (hs : h.IsSteady) (step : HomeStep) (horderly : h.Orderly step) :
    h.LetsAccept step := by
  cases step with
  | pull p => trivial
  | setClock p now => trivial
  | commit p what =>
    cases what with
    | request q => trivial
    | accept q =>
      intro hcommitted
      obtain ⟨hsound, x, hx⟩ := hs
      obtain ⟨hunaccepted, hfirst⟩ := horderly hcommitted
      have hasked : h.copies.done p (.request q.other) = true := by
        rw [copies_done]
        cases p with
        | left => exact hcommitted.1
        | right => exact hcommitted.2
      obtain ⟨hsome, hknows⟩ := hx.acts p _ hasked
      obtain ⟨f, hrecord⟩ := Option.isSome_iff_exists.1 hsome
      obtain ⟨hrequester, haddressee⟩ := hx.record p f hrecord
      obtain rfl : q = x.other := by
        by_contra hne
        have hq := Side.eq_other_of_ne hne
        rw [Side.other_other] at hq
        subst hq
        exact hfirst f hrecord hrequester
      have hundone : h.copies.done p (.accept x.other) = false := by
        rw [Bool.eq_false_iff, ne_eq, copies_done]
        omega
      have hpending : f.areFriends = false := by
        rw [Bool.eq_false_iff]
        intro hfriends
        by_cases hp : p = x
        · subst hp
          rw [hx.settled f hrecord, hundone] at hfriends
          exact Bool.false_ne_true hfriends
        · have hother := Side.eq_other_of_ne hp
          subst hother
          rw [hx.seen f hrecord hfriends] at hundone
          cases hundone
      have haccepts : ((Befriending.accept x.other).command h.user).accepts (h.store p) = true :=
        accepts_accept.2 ⟨hknows, f, hrecord, hpending,
          by rw [Side.other_other]; exact hrequester, haddressee⟩
      unfold succeeds
      rw [Command.run_of_accepts haccepts]
      rfl

end Homes

/-- Where no two requests cross and no feed is ahead of an acceptance, the homes come to hold
the same record, and a request on both of them can be accepted on both. -/
theorem friendships_converge_of_orderly {h : Homes} {steps : List HomeStep} (hfresh : h.IsFresh)
    (horderly : Along Homes.step Homes.Orderly h steps) :
    (∀ done, done <+: steps → (done.foldl Homes.step h).Converges) ∧
      Along Homes.step Homes.LetsAccept h steps := by
  refine ⟨?_, ?_⟩
  · rintro done ⟨rest, rfl⟩
    have hdone := (along_append.1 horderly).1
    have hsteady := hdone.invariant (fun s step hs => hs.step step) hfresh.steady
    exact hsteady.converges
  · exact horderly.imp (fun s step hs ho => ⟨hs.letsAccept step ho, hs.step step ho⟩)
      hfresh.steady

namespace Agora

/-- Ann is at home on the left, Bob on the right, and each home has both accounts. -/
def couple : Homes where
  user
    | .left => ann
    | .right => bob
  world
    | .left => guestbook
    | .right => (World.empty 2 ⟨0⟩).mapStore (fun s => { s with users := guestbook.store.users })
  pulled
    | .left => 0
    | .right => guestbook.store.outbox.length
  log := []

theorem couple_isFresh : couple.IsFresh where
  user_ne := by decide
  unrelated := by
    intro p
    cases p with
    | left => decide +kernel
    | right => decide +kernel
  caughtUp := by
    intro p
    cases p with
    | left => decide +kernel
    | right => rfl
  log := rfl

/-- Ann asks, on both homes; Bob accepts, on both homes; the feeds are applied. -/
def courtship : List HomeStep :=
  [.commit .left (.request .left), .commit .right (.request .left), .pull .right,
    .commit .right (.accept .right), .commit .left (.accept .right), .pull .right, .pull .left,
    .pull .left]

/-- Each asks the other, and each request comes to the home of its own user first. -/
def crossing : List HomeStep :=
  [.commit .left (.request .left), .commit .right (.request .right),
    .commit .right (.request .left), .commit .left (.request .right), .pull .left, .pull .right]

end Agora

theorem friendships_converge_courtship :
    (∀ done, done <+: Agora.courtship → (done.foldl Homes.step Agora.couple).Converges) ∧
      Along Homes.step Homes.LetsAccept Agora.couple Agora.courtship :=
  friendships_converge_of_orderly Agora.couple_isFresh (by decide +kernel)

/-- Ann and Bob have asked each other at the same time: each home ends with the other's request. -/
theorem crossing_requests_diverge :
    ¬ ∀ (h : Homes) (steps : List HomeStep), h.IsFresh →
      (∀ done, done <+: steps → (done.foldl Homes.step h).Converges) ∧
        Along Homes.step Homes.LetsAccept h steps := by
  intro hall
  have hconverges := (hall _ Agora.crossing Agora.couple_isFresh).1 _ (List.prefix_refl _)
  have hcompleted : (Agora.crossing.foldl Homes.step Agora.couple).Completed := by
    intro what
    rcases what with (_ | _) | (_ | _) <;> decide +kernel
  have hcaughtUp : (Agora.crossing.foldl Homes.step Agora.couple).CaughtUp := by
    intro p
    cases p with
    | left => decide +kernel
    | right => decide +kernel
  obtain ⟨found, hfound, -⟩ := hconverges hcompleted hcaughtUp
  have hleft := hfound .left
  rw [← hfound .right] at hleft
  revert hleft
  decide +kernel

end Democrachat.Federation
