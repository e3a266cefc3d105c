import Democrachat.Library.Runs
import Democrachat.Federation.ReplayGuard

/-!
# No command twice

Runs of the replay guard in front of a nonce log that is saved and reloaded.  A
nonce is forgotten 240 seconds after its command was let in, and a command dated
120 seconds ahead of the owner's clock is still fresh at that very instant.
-/

namespace Democrachat.Federation

open Library

/-- What identifies a forwarded command to the guard. -/
structure Presented where
  node : NodeId
  nonce : String
  issuedAt : Int64
deriving DecidableEq

/-- The nonce log, what of it is on disk, and the commands let in so far, with the instants. -/
structure Guarded where
  log : NonceLog
  saved : NonceLog
  letIn : List (Presented × Int64)

inductive GuardAction where
  | present (c : Presented) (now : Int64)
  | save
  | reload

namespace Guarded

/-- A newly seen nonce is saved at once. -/
def step (s : Guarded) : GuardAction → Guarded
  | .present c now =>
    match admitCommand s.log c.node c.nonce c.issuedAt now with
    | (.ok (), log) => ⟨log, log, s.letIn ++ [(c, now)]⟩
    | (.error _, log) => { s with log := log }
  | .save => { s with saved := s.log }
  | .reload => { s with log := s.saved }

/-- Every command was let in once, within its window. -/
structure OnceInTime (s : Guarded) : Prop where
  once : (s.letIn.map Prod.fst).Nodup
  inTime : ∀ c t, (c, t) ∈ s.letIn → IsFresh c.issuedAt t

instance (s : Guarded) : Decidable s.OnceInTime :=
  decidable_of_iff
    ((s.letIn.map Prod.fst).Nodup ∧ ∀ a ∈ s.letIn, IsFresh a.1.issuedAt a.2)
    ⟨fun h => ⟨h.1, fun c t hc => h.2 (c, t) hc⟩, fun h => ⟨h.once, fun a ha => h.inTime a.1 a.2 ha⟩⟩

/-- A presentation that the guard judges right: the nonce is still remembered; or the instants
do not wrap around into the window, and a fresh command was not let in exactly 240 seconds
before, nor at all where the clock has come to its last 240 seconds. -/
def Timely (s : Guarded) : GuardAction → Prop
  | .present c now =>
    holds s.log c.node c.nonce now = true ∨
      (¬ WrapsAround c.issuedAt now ∧
        (IsFresh c.issuedAt now → ∀ a ∈ s.letIn, a.1 = c →
          now.toInt + 240 < 2 ^ 63 ∧ now.toInt ≠ a.2.toInt + 240))
  | _ => True

instance (s : Guarded) : (action : GuardAction) → Decidable (s.Timely action)
  | .present c now =>
    inferInstanceAs (Decidable (holds s.log c.node c.nonce now = true ∨
      (¬ WrapsAround c.issuedAt now ∧
        (IsFresh c.issuedAt now → ∀ a ∈ s.letIn, a.1 = c →
          now.toInt + 240 < 2 ^ 63 ∧ now.toInt ≠ a.2.toInt + 240))))
  | .save | .reload => .isTrue trivial

end Guarded

/-- The owner's clock at a presentation. -/
def GuardAction.clock? : GuardAction → Option Int64
  | present _ now => some now
  | _ => none

/-- The owner's clock never goes back. -/
def ClockKept (actions : List GuardAction) : Prop :=
  (actions.filterMap GuardAction.clock?).Pairwise (fun t t' => t ≤ t')

instance (actions : List GuardAction) : Decidable (ClockKept actions) :=
  inferInstanceAs (Decidable (List.Pairwise _ _))

namespace Guarded

/-! ## One step -/

theorem step_present (s : Guarded) (c : Presented) (now : Int64) :
    ((IsFresh c.issuedAt now ∨ WrapsAround c.issuedAt now) ∧
        holds s.log c.node c.nonce now = false ∧
        s.step (.present c now) =
          ⟨(s.log.remember c.node c.nonce now (now + 2 * maxCommandSkewSecs)).2,
            (s.log.remember c.node c.nonce now (now + 2 * maxCommandSkewSecs)).2,
            s.letIn ++ [(c, now)]⟩) ∨
      (holds s.log c.node c.nonce now = true ∧
        s.step (.present c now) =
          { s with
            log := (s.log.remember c.node c.nonce now (now + 2 * maxCommandSkewSecs)).2 }) ∨
      (¬ (IsFresh c.issuedAt now ∨ WrapsAround c.issuedAt now) ∧
        s.step (.present c now) = s) := by
  rcases admitCommand_cases s.log c.node c.nonce c.issuedAt now with
    ⟨hfresh, hheld, hresult⟩ | ⟨-, hheld, hresult⟩ | ⟨hfresh, hresult⟩
  · exact .inl ⟨hfresh, hheld, by rw [step, hresult]⟩
  · exact .inr (.inl ⟨hheld, by rw [step, hresult]⟩)
  · exact .inr (.inr ⟨hfresh, by rw [step, hresult]⟩)

/-- Who was let in stays on record. -/
theorem letIn_step (s : Guarded) (action : GuardAction) :
    s.letIn <+: (s.step action).letIn := by
  cases action with
  | present c now =>
    rcases step_present s c now with ⟨-, -, h⟩ | ⟨-, h⟩ | ⟨-, h⟩
    · rw [h]
      exact List.prefix_append _ _
    · rw [h]
    · rw [h]
  | save => exact List.prefix_refl _
  | reload => exact List.prefix_refl _

theorem OnceInTime.of_step {s : Guarded} {action : GuardAction} (h : (s.step action).OnceInTime) :
    s.OnceInTime where
  once := h.once.sublist ((letIn_step s action).sublist.map Prod.fst)
  inTime := fun c t hc => h.inTime c t ((letIn_step s action).subset hc)

theorem OnceInTime.of_run {s : Guarded} {actions : List GuardAction}
    (h : (actions.foldl step s).OnceInTime) : s.OnceInTime := by
  induction actions generalizing s with
  | nil => exact h
  | cons action actions ih => exact (ih h).of_step

/-- Only a timely presentation leaves the record in order. -/
theorem OnceInTime.timely {s : Guarded} {action : GuardAction} (h : (s.step action).OnceInTime) :
    s.Timely action := by
  cases action with
  | save => trivial
  | reload => trivial
  | present c now =>
    rcases step_present s c now with ⟨hpasses, hforgotten, hstep⟩ | ⟨hheld, -⟩ | ⟨hstale, hstep⟩
    · right
      have hrecorded : (c, now) ∈ (s.step (.present c now)).letIn := by
        rw [hstep]
        exact List.mem_append_right _ (List.mem_singleton_self _)
      have hfresh := h.inTime c now hrecorded
      refine ⟨fun hwraps => ?_, fun _ a ha hsame => ?_⟩
      · unfold IsFresh at hfresh
        unfold WrapsAround at hwraps
        omega
      · -- It was let in before, and now a second time.
        exfalso
        have honce := h.once
        rw [hstep, List.map_append, List.nodup_append] at honce
        exact honce.2.2 a.1 (List.mem_map_of_mem ha) c (List.mem_singleton_self _) hsame
    · exact .inl hheld
    · exact .inr ⟨fun hwraps => hstale (.inr hwraps), fun hfresh => absurd (.inl hfresh) hstale⟩

/-- The nonces of those let in less than 240 seconds ago are in the log. -/
def KnownIn (log : NonceLog) (s : Guarded) (t : Int) : Prop :=
  t + 240 < 2 ^ 63 → ∀ a ∈ s.letIn, t < a.2.toInt + 240 →
    HoldsUntil log a.1.node a.1.nonce (a.2.toInt + 240)

/-- What the guard knows of those let in, when its clock last showed `t`. -/
structure Remembers (s : Guarded) (t : Int) : Prop where
  past : ∀ a ∈ s.letIn, a.2.toInt ≤ t
  live : KnownIn s.log s t
  onDisk : KnownIn s.saved s t

theorem KnownIn.mono {log : NonceLog} {s : Guarded} {t t' : Int} (h : KnownIn log s t)
    (hle : t ≤ t') : KnownIn log s t' :=
  fun hlast a ha hrecent => h (by omega) a ha (by omega)

theorem Remembers.mono {s : Guarded} {t t' : Int} (h : s.Remembers t) (hle : t ≤ t') :
    s.Remembers t' where
  past := fun a ha => (h.past a ha).trans hle
  live := h.live.mono hle
  onDisk := h.onDisk.mono hle

/-- A presentation forgets nobody let in less than 240 seconds ago. -/
theorem KnownIn.remember {log : NonceLog} {s : Guarded} {now : Int64} (h : KnownIn log s now.toInt)
    (hpast : ∀ a ∈ s.letIn, a.2.toInt ≤ now.toInt) (c : Presented) :
    KnownIn (log.remember c.node c.nonce now (now + 2 * maxCommandSkewSecs)).2 s now.toInt := by
  intro hlast a ha hrecent
  have hexpiry := toInt_expiry hlast
  have hearlier := hpast a ha
  exact (h hlast a ha hrecent).remember hrecent (by omega) c.node c.nonce

theorem Remembers.present {s : Guarded} {now : Int64} (h : s.Remembers now.toInt) (c : Presented) :
    (s.step (.present c now)).Remembers now.toInt := by
  have hlive := h.live.remember h.past c
  rcases step_present s c now with ⟨-, -, hstep⟩ | ⟨-, hstep⟩ | ⟨-, hstep⟩
  · have hnew : KnownIn (s.log.remember c.node c.nonce now (now + 2 * maxCommandSkewSecs)).2
        (s.step (.present c now)) now.toInt := by
      intro hlast a ha hrecent
      rw [hstep] at ha
      rcases List.mem_append.1 ha with hold | hself
      · exact hlive hlast a hold hrecent
      · obtain rfl := List.mem_singleton.1 hself
        rw [← toInt_expiry hlast]
        exact holdsUntil_remember s.log c.node c.nonce now _
    refine ⟨fun a ha => ?_, ?_, ?_⟩
    · rw [hstep] at ha
      rcases List.mem_append.1 ha with hold | hself
      · exact h.past a hold
      · obtain rfl := List.mem_singleton.1 hself
        exact le_refl _
    · rw [hstep] at hnew ⊢
      exact hnew
    · rw [hstep] at hnew ⊢
      exact hnew
  · rw [hstep]
    exact ⟨h.past, hlive, h.onDisk⟩
  · rw [hstep]
    exact h

/-- A timely presentation leaves the record in order. -/
theorem OnceInTime.present {s : Guarded} {now : Int64} {c : Presented} (h : s.OnceInTime)
    (hknown : s.Remembers now.toInt) (htimely : s.Timely (.present c now)) :
    (s.step (.present c now)).OnceInTime := by
  rcases step_present s c now with ⟨hpasses, hforgotten, hstep⟩ | ⟨-, hstep⟩ | ⟨-, hstep⟩
  · rcases htimely with hheld | ⟨hwraps, hnever⟩
    · rw [hforgotten] at hheld
      cases hheld
    · have hfresh : IsFresh c.issuedAt now := hpasses.resolve_right hwraps
      have hfirst : c ∉ s.letIn.map Prod.fst := by
        intro hmem
        obtain ⟨a, ha, rfl⟩ := List.mem_map.1 hmem
        obtain ⟨hlast, hinstant⟩ := hnever hfresh a ha rfl
        -- Both instants are within 120 seconds of the date of issue.
        have hearlier := h.inTime a.1 a.2 ha
        have hrecent : now.toInt < a.2.toInt + 240 := by
          unfold IsFresh at hearlier hfresh
          omega
        have hheld := (hknown.live hlast a ha hrecent).holds hrecent
        rw [hforgotten] at hheld
        cases hheld
      rw [hstep]
      constructor
      · rw [List.map_append, List.nodup_append]
        refine ⟨h.once, List.nodup_singleton _, fun c' hc' c'' hc'' hsame => hfirst ?_⟩
        have hself : c'' = c := List.mem_singleton.1 hc''
        rw [← hself, ← hsame]
        exact hc'
      · intro c' t hmem
        rcases List.mem_append.1 hmem with hold | hself
        · exact h.inTime c' t hold
        · obtain ⟨rfl, rfl⟩ := Prod.mk.inj (List.mem_singleton.1 hself)
          exact hfresh
  · rw [hstep]
    exact ⟨h.once, h.inTime⟩
  · rw [hstep]
    exact h

/-! ## Runs -/

theorem onceInTime_run {s : Guarded} {t : Int} {actions : List GuardAction} (h : s.OnceInTime)
    (hknown : s.Remembers t)
    (hlater : ∀ now ∈ actions.filterMap GuardAction.clock?, t ≤ now.toInt)
    (hclock : ClockKept actions) (htimely : Along step Timely s actions) :
    (actions.foldl step s).OnceInTime := by
  induction actions generalizing s t with
  | nil => exact h
  | cons action actions ih =>
    cases action with
    | present c now =>
      have hknown := hknown.mono (hlater now List.mem_cons_self)
      obtain ⟨hnext, hclock⟩ := List.pairwise_cons.1 hclock
      have hlater : ∀ now' ∈ actions.filterMap GuardAction.clock?, now.toInt ≤ now'.toInt :=
        fun now' hnow' => Int64.le_iff_toInt_le.1 (hnext now' hnow')
      exact ih (h.present hknown htimely.1) (hknown.present c) hlater hclock htimely.2
    | save => exact ih ⟨h.once, h.inTime⟩ ⟨hknown.past, hknown.live, hknown.live⟩ hlater hclock htimely.2
    | reload =>
      exact ih ⟨h.once, h.inTime⟩ ⟨hknown.past, hknown.onDisk, hknown.onDisk⟩ hlater hclock htimely.2

/-- Every command is let in once and within its window exactly where each presentation of the
run is timely. -/
theorem once_in_time_iff (log saved : NonceLog) (actions : List GuardAction)
    (hclock : ClockKept actions) :
    (actions.foldl step ⟨log, saved, []⟩).OnceInTime ↔
      Along step Timely ⟨log, saved, []⟩ actions := by
  constructor
  · intro h
    have hprefix : ∀ before, before <+: actions →
        (before.foldl step ⟨log, saved, []⟩).OnceInTime := by
      rintro before ⟨after, rfl⟩
      rw [List.foldl_append] at h
      exact h.of_run
    have halong := (forall_prefix_iff.1 hprefix).2
    exact halong.imp (I := fun _ => True) (fun s a _ hafter => ⟨hafter.timely, trivial⟩) trivial
  · intro htimely
    have hstart : OnceInTime ⟨log, saved, []⟩ := ⟨List.nodup_nil, fun c t hc => (nomatch hc)⟩
    have hknown : Remembers ⟨log, saved, []⟩ (-2 ^ 63) :=
      ⟨fun a ha => (nomatch ha), fun _ a ha => (nomatch ha), fun _ a ha => (nomatch ha)⟩
    exact onceInTime_run hstart hknown (fun now _ => now.le_toInt) hclock htimely

end Guarded

namespace Agora

/-- A command dated 120 seconds ahead of the owner's clock. -/
def aheadOfTime : Presented := ⟨1, "n", 1120⟩

/-- It is presented, refused when presented again, and forgotten by a restart. -/
def restarted : List GuardAction :=
  [.present aheadOfTime 1000, .present aheadOfTime 1100, .reload, .present aheadOfTime 1239]

/-- It is presented once more when its nonce has just expired. -/
def replayed : List GuardAction := [.present aheadOfTime 1000, .present aheadOfTime 1240]

end Agora

theorem once_in_time_restarted :
    (Agora.restarted.foldl Guarded.step ⟨.empty, .empty, []⟩).OnceInTime :=
  (Guarded.once_in_time_iff .empty .empty Agora.restarted (by decide)).2 (by decide +kernel)

/-- The same command is let in twice, each time within its window. -/
theorem replay_at_expiry :
    ClockKept Agora.replayed ∧
      ¬ (Agora.replayed.foldl Guarded.step ⟨.empty, .empty, []⟩).OnceInTime := by
  decide +kernel

end Democrachat.Federation
