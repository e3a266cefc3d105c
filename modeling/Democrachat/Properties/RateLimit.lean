import Democrachat.Web.RateLimit

/-!
# The bound of the rate limiter

Each key has a counter of its own, and what a window that has elapsed counted makes no
difference.  So a limiter answers for each key like one counter, whether or not it prunes.
-/

namespace Democrachat

open Library

namespace RateLimiter

variable {Ip : Type} [LinearOrder Ip]

/-! ## Runs -/

/-- One call of the limiter. -/
structure Hit (Ip : Type) where
  ip : Ip
  bucket : Bucket
  now : Nat

def Hit.key (h : Hit Ip) : Key Ip := toLex (h.ip, h.bucket)

/-- A way to answer a call, by the windows of the calls before. -/
abbrev Limiter (Ip : Type) [LinearOrder Ip] :=
  Windows Ip → Ip → Bucket → Nat → Except Nat Unit × Windows Ip

/-- The calls with what the limiter answers them. -/
def answers (limiter : Limiter Ip) : Windows Ip → List (Hit Ip) → List (Hit Ip × Except Nat Unit)
  | _, [] => []
  | windows, h :: hs =>
    let r := limiter windows h.ip h.bucket h.now
    (h, r.1) :: answers limiter r.2 hs

/-- The windows after these calls. -/
def windowsAfter (limiter : Limiter Ip) (windows : Windows Ip) (hs : List (Hit Ip)) : Windows Ip :=
  hs.foldl (fun windows h => (limiter windows h.ip h.bucket h.now).2) windows

/-- How many calls of the key are admitted from one instant on until another. -/
def admittedIn (key : Key Ip) (start stop : Nat) (l : List (Hit Ip × Except Nat Unit)) : Nat :=
  l.countP (fun x => decide (x.1.key = key) && x.2.toBool &&
    decide (start ≤ x.1.now ∧ x.1.now < stop))

/-! ## One key -/

/-- The window of a key. -/
def windowOf (windows : Windows Ip) (key : Key Ip) : Option Window :=
  (windows.get key).map Prod.snd

/-- What a counter answers. -/
def answerOf (bucket : Bucket) (c : Option Window) (now : Nat) : Except Nat Unit :=
  if Counter.admits bucket.limit rateWindow c now then .ok ()
  else .error (retryAfter (Counter.current rateWindow c now) now)

/-- A limiter takes each call to the counter of its key, and leaves the windows of the others
that have not elapsed. -/
structure Limits (limiter : Limiter Ip) : Prop where
  answer : ∀ windows ip bucket now, (limiter windows ip bucket now).1 =
    answerOf bucket (windowOf windows (toLex (ip, bucket))) now
  own : ∀ windows ip bucket now,
    windowOf (limiter windows ip bucket now).2 (toLex (ip, bucket)) =
      some (Counter.hit bucket.limit rateWindow (windowOf windows (toLex (ip, bucket))) now)
  other : ∀ windows ip bucket now key, key ≠ toLex (ip, bucket) →
    Counter.live now (windowOf (limiter windows ip bucket now).2 key) =
      Counter.live now (windowOf windows key)

theorem windowOf_insert_self (windows : Windows Ip) (key : Key Ip) (w : Window) :
    windowOf (windows.insert (key, w)) key = some w := by
  exact congrArg (Option.map Prod.snd) (Table.get_insert_self windows (key, w))

theorem windowOf_insert_of_ne (windows : Windows Ip) {key key' : Key Ip} (w : Window)
    (h : key' ≠ key) : windowOf (windows.insert (key, w)) key' = windowOf windows key' :=
  congrArg (Option.map Prod.snd) (Table.get_insert_of_ne windows h)

/-- The window that a call finds or opens. -/
theorem current_eq (windows : Windows Ip) (key : Key Ip) (now : Nat) :
    (let w : Window := ((windows.get key).map Prod.snd).getD ⟨0, now + rateWindow⟩
      if w.resetAt ≤ now then (⟨0, now + rateWindow⟩ : Window) else w) =
      Counter.current rateWindow (windowOf windows key) now := by
  show (if ((windowOf windows key).getD ⟨0, now + rateWindow⟩).resetAt ≤ now then
    (⟨0, now + rateWindow⟩ : Window) else (windowOf windows key).getD ⟨0, now + rateWindow⟩) = _
  rw [Counter.current]
  cases windowOf windows key with
  | none =>
    show (if now + rateWindow ≤ now then (⟨0, now + rateWindow⟩ : Window)
      else ⟨0, now + rateWindow⟩) = _
    rw [ite_self]
    rfl
  | some w =>
    by_cases h : w.resetAt ≤ now
    · rw [Counter.live_of_le h]
      exact if_pos h
    · rw [Counter.live_of_lt (by omega)]
      exact if_neg h

theorem record_eq (windows : Windows Ip) (ip : Ip) (bucket : Bucket) (now : Nat) :
    record windows ip bucket now =
      (answerOf bucket (windowOf windows (toLex (ip, bucket))) now,
        windows.insert (toLex (ip, bucket),
          Counter.hit bucket.limit rateWindow (windowOf windows (toLex (ip, bucket))) now)) := by
  unfold record answerOf Counter.admits Counter.hit
  simp only [current_eq windows (toLex (ip, bucket)) now]
  by_cases h : (Counter.current rateWindow (windowOf windows (toLex (ip, bucket))) now).count <
      bucket.limit
  · rw [if_neg (by omega), if_pos (decide_eq_true h), if_pos h]
  · rw [if_pos (by omega), if_neg (by simpa using h), if_neg h]

theorem limits_record : Limits (record : Limiter Ip) where
  answer := by
    intro windows ip bucket now
    rw [record_eq]
  own := by
    intro windows ip bucket now
    rw [record_eq]
    exact windowOf_insert_self _ _ _
  other := by
    intro windows ip bucket now key hkey
    rw [record_eq]
    exact congrArg (Counter.live now) (windowOf_insert_of_ne _ _ hkey)

/-- Pruning leaves the windows that have not elapsed. -/
theorem live_prune (windows : Windows Ip) (now : Nat) (key : Key Ip) :
    Counter.live now (windowOf (prune windows now) key) =
      Counter.live now (windowOf windows key) := by
  unfold prune
  split
  · rw [windowOf, Table.get_retain, windowOf]
    cases windows.get key with
    | none => rfl
    | some e =>
      by_cases h : now < e.2.resetAt
      · rw [Option.filter_some, if_pos (decide_eq_true h)]
      · rw [Option.filter_some, if_neg (by simpa using h)]
        exact (Counter.live_of_le (by omega)).symm
  · rfl

theorem answerOf_eq_of_live {bucket : Bucket} {c c' : Option Window} {now : Nat}
    (h : Counter.live now c = Counter.live now c') : answerOf bucket c now = answerOf bucket c' now := by
  unfold answerOf Counter.admits
  rw [Counter.current_eq_of_live rateWindow h]

theorem limits_check : Limits (check : Limiter Ip) where
  answer := by
    intro windows ip bucket now
    rw [check, limits_record.answer]
    exact answerOf_eq_of_live (live_prune windows now _)
  own := by
    intro windows ip bucket now
    rw [check, limits_record.own, Counter.hit_eq_of_live _ _ (live_prune windows now _)]
  other := by
    intro windows ip bucket now key hkey
    rw [check, limits_record.other _ _ _ _ _ hkey, live_prune]

/-! ## Limiters against counters -/

/-- What the counter of a key answers its calls. -/
def counterAnswers (bucket : Bucket) : Option Window → List (Hit Ip) →
    List (Hit Ip × Except Nat Unit)
  | _, [] => []
  | c, h :: hs => (h, answerOf bucket c h.now) ::
      counterAnswers bucket (some (Counter.hit bucket.limit rateWindow c h.now)) hs

variable {limiter limiter' : Limiter Ip} {windows windows' : Windows Ip} {hs : List (Hit Ip)}

/-- Limiters that agree on what has not elapsed answer alike. -/
theorem Limits.answers_eq (hlimiter : Limits limiter) (hlimiter' : Limits limiter') {since : Nat}
    (hsame : ∀ key, Counter.live since (windowOf windows key) =
      Counter.live since (windowOf windows' key))
    (hsince : ∀ h ∈ hs, since ≤ h.now) (hsorted : hs.Pairwise (fun a b => a.now ≤ b.now)) :
    answers limiter windows hs = answers limiter' windows' hs := by
  induction hs generalizing windows windows' since with
  | nil => rfl
  | cons h hs ih =>
    obtain ⟨hle, hsorted⟩ := List.pairwise_cons.1 hsorted
    have hnow : ∀ key, Counter.live h.now (windowOf windows key) =
        Counter.live h.now (windowOf windows' key) :=
      fun key => Counter.live_eq_of_le (hsame key) (hsince h List.mem_cons_self)
    have hanswer : (limiter windows h.ip h.bucket h.now).1 =
        (limiter' windows' h.ip h.bucket h.now).1 := by
      rw [hlimiter.answer, hlimiter'.answer]
      exact answerOf_eq_of_live (hnow _)
    have hnext : ∀ key,
        Counter.live h.now (windowOf (limiter windows h.ip h.bucket h.now).2 key) =
        Counter.live h.now (windowOf (limiter' windows' h.ip h.bucket h.now).2 key) := by
      intro key
      by_cases hkey : key = toLex (h.ip, h.bucket)
      · rw [hkey, hlimiter.own, hlimiter'.own, Counter.hit_eq_of_live _ _ (hnow _)]
      · rw [hlimiter.other _ _ _ _ _ hkey, hlimiter'.other _ _ _ _ _ hkey, hnow]
    rw [answers, answers, hanswer, ih hnext hle hsorted]

theorem map_fst_answers (limiter : Limiter Ip) (windows : Windows Ip) (hs : List (Hit Ip)) :
    (answers limiter windows hs).map Prod.fst = hs := by
  induction hs generalizing windows with
  | nil => rfl
  | cons h hs ih => rw [answers, List.map_cons, ih]

/-- What a limiter answers for a key is what a counter answers its calls. -/
theorem Limits.filter_answers (hlimiter : Limits limiter) {key : Key Ip} {since : Nat}
    {c : Option Window} (hsame : Counter.live since (windowOf windows key) = Counter.live since c)
    (hsince : ∀ h ∈ hs, since ≤ h.now) (hsorted : hs.Pairwise (fun a b => a.now ≤ b.now)) :
    (answers limiter windows hs).filter (fun x => decide (x.1.key = key)) =
      counterAnswers (ofLex key).2 c (hs.filter (fun h => decide (h.key = key))) := by
  induction hs generalizing windows c since with
  | nil => rfl
  | cons h hs ih =>
    obtain ⟨hle, hsorted⟩ := List.pairwise_cons.1 hsorted
    have hnow : Counter.live h.now (windowOf windows key) = Counter.live h.now c :=
      Counter.live_eq_of_le hsame (hsince h List.mem_cons_self)
    rw [answers, List.filter_cons, List.filter_cons]
    by_cases hkey : h.key = key
    · subst hkey
      have hown : windowOf (limiter windows h.ip h.bucket h.now).2 h.key =
          some (Counter.hit h.bucket.limit rateWindow c h.now) := by
        rw [← Counter.hit_eq_of_live _ _ hnow]
        exact hlimiter.own _ _ _ _
      rw [if_pos (decide_eq_true rfl), if_pos (decide_eq_true rfl), counterAnswers,
        ih (congrArg (Counter.live h.now) hown) hle hsorted, hlimiter.answer]
      exact congrArg (fun a => (h, a) :: _) (answerOf_eq_of_live hnow)
    · rw [if_neg (by simpa using hkey), if_neg (by simpa using hkey)]
      refine ih ?_ hle hsorted
      rw [hlimiter.other _ _ _ _ _ (fun heq => hkey heq.symm)]
      exact hnow

/-- The window of a key is that of its counter. -/
theorem Limits.live_windowsAfter (hlimiter : Limits limiter) {key : Key Ip} {since now : Nat}
    {c : Option Window} (hsame : Counter.live since (windowOf windows key) = Counter.live since c)
    (hsince : ∀ h ∈ hs, since ≤ h.now) (hsorted : hs.Pairwise (fun a b => a.now ≤ b.now))
    (hnow : since ≤ now) (hlast : ∀ h ∈ hs, h.now ≤ now) :
    Counter.live now (windowOf (windowsAfter limiter windows hs) key) =
      Counter.live now (Counter.after (ofLex key).2.limit rateWindow c
        ((hs.filter (fun h => decide (h.key = key))).map Hit.now)) := by
  induction hs generalizing windows c since with
  | nil => exact Counter.live_eq_of_le hsame hnow
  | cons h hs ih =>
    obtain ⟨hle, hsorted⟩ := List.pairwise_cons.1 hsorted
    have hhere : Counter.live h.now (windowOf windows key) = Counter.live h.now c :=
      Counter.live_eq_of_le hsame (hsince h List.mem_cons_self)
    have hlater := fun h' (hh' : h' ∈ hs) => hlast h' (List.mem_cons_of_mem h hh')
    have hlate := hlast h List.mem_cons_self
    rw [windowsAfter, List.foldl_cons, List.filter_cons]
    by_cases hkey : h.key = key
    · subst hkey
      have hown : windowOf (limiter windows h.ip h.bucket h.now).2 h.key =
          some (Counter.hit h.bucket.limit rateWindow c h.now) := by
        rw [← Counter.hit_eq_of_live _ _ hhere]
        exact hlimiter.own _ _ _ _
      rw [if_pos (decide_eq_true rfl), List.map_cons, Counter.after]
      exact ih (congrArg (Counter.live h.now) hown) hle hsorted hlate hlater
    · rw [if_neg (by simpa using hkey)]
      refine ih ?_ hle hsorted hlate hlater
      rw [hlimiter.other _ _ _ _ _ (fun heq => hkey heq.symm)]
      exact hhere

theorem toBool_answerOf (bucket : Bucket) (c : Option Window) (now : Nat) :
    (answerOf bucket c now).toBool = Counter.admits bucket.limit rateWindow c now := by
  unfold answerOf
  cases Counter.admits bucket.limit rateWindow c now
  · rfl
  · rfl

omit [LinearOrder Ip] in
theorem map_counterAnswers (bucket : Bucket) (c : Option Window) (hs : List (Hit Ip)) :
    (counterAnswers bucket c hs).map (fun x => (x.1.now, x.2.toBool)) =
      Counter.run bucket.limit rateWindow c (hs.map Hit.now) := by
  induction hs generalizing c with
  | nil => rfl
  | cons h hs ih =>
    rw [counterAnswers, List.map_cons, List.map_cons, Counter.run, ih, toBool_answerOf]

/-- How many are admitted is told by the counter of the key. -/
theorem Limits.admittedIn_eq (hlimiter : Limits limiter) (key : Key Ip) (start stop : Nat)
    (hsorted : hs.Pairwise (fun a b => a.now ≤ b.now)) :
    admittedIn key start stop (answers limiter .empty hs) =
      Counter.admittedWithin start stop (Counter.run (ofLex key).2.limit rateWindow none
        ((hs.filter (fun h => decide (h.key = key))).map Hit.now)) := by
  have hfilter : (answers limiter .empty hs).filter (fun x => decide (x.1.key = key)) =
      counterAnswers (ofLex key).2 none (hs.filter (fun h => decide (h.key = key))) :=
    hlimiter.filter_answers rfl (fun _ _ => Nat.zero_le _) hsorted
  rw [← map_counterAnswers, ← hfilter, Counter.admittedWithin, List.countP_map, List.countP_filter,
    admittedIn]
  refine List.countP_congr (fun x _ => ?_)
  simp only [Function.comp_apply, Bool.and_eq_true, decide_eq_true_eq]
  exact ⟨fun h => ⟨⟨h.1.2, h.2⟩, h.1.1⟩, fun h => ⟨⟨h.2, h.1.1⟩, h.1.2⟩⟩

/-- A hit that is turned away leaves the windows that run. -/
theorem Limits.windowOf_of_rejected (hlimiter : Limits limiter) {ip : Ip} {bucket : Bucket}
    {now retry : Nat} (hrejected : (limiter windows ip bucket now).1 = .error retry) {key : Key Ip}
    {w : Window} (hw : windowOf windows key = some w) (hrunning : now < w.resetAt) :
    windowOf (limiter windows ip bucket now).2 key = some w := by
  by_cases hkey : key = toLex (ip, bucket)
  · subst hkey
    have hcurrent : Counter.current rateWindow (windowOf windows (toLex (ip, bucket))) now = w := by
      rw [hw, Counter.current, Counter.live_of_lt hrunning]
      rfl
    have hfull : ¬ w.count < bucket.limit := by
      intro hroom
      rw [hlimiter.answer, answerOf, Counter.admits, hcurrent,
        if_pos (decide_eq_true hroom)] at hrejected
      cases hrejected
    rw [hlimiter.own, Counter.hit, hcurrent, if_neg hfull]
  · have hother := hlimiter.other windows ip bucket now key hkey
    rw [hw, Counter.live_of_lt hrunning] at hother
    exact (Counter.live_eq_some.1 hother).1

/-- A key is answered as if there were no hits but its own. -/
theorem Limits.filter_answers_self (hlimiter : Limits limiter) (key : Key Ip)
    (hsorted : hs.Pairwise (fun a b => a.now ≤ b.now)) :
    (answers limiter .empty hs).filter (fun x => decide (x.1.key = key)) =
      answers limiter .empty (hs.filter (fun h => decide (h.key = key))) := by
  have hzero : ∀ {hs : List (Hit Ip)}, ∀ h ∈ hs, 0 ≤ h.now := fun _ _ => Nat.zero_le _
  have hall : ∀ x ∈ answers limiter .empty (hs.filter (fun h => decide (h.key = key))),
      decide (x.1.key = key) = true := by
    intro x hx
    have hmem := List.mem_map_of_mem (f := Prod.fst) hx
    rw [map_fst_answers] at hmem
    exact (List.mem_filter.1 hmem).2
  calc (answers limiter .empty hs).filter (fun x => decide (x.1.key = key))
      = counterAnswers (ofLex key).2 none (hs.filter (fun h => decide (h.key = key))) :=
        hlimiter.filter_answers rfl hzero hsorted
    _ = (answers limiter .empty (hs.filter (fun h => decide (h.key = key)))).filter
          (fun x => decide (x.1.key = key)) := by
        rw [hlimiter.filter_answers rfl hzero (hsorted.filter _), List.filter_filter]
        simp only [Bool.and_self]
        rfl
    _ = answers limiter .empty (hs.filter (fun h => decide (h.key = key))) :=
        List.filter_eq_self.2 hall

end RateLimiter

open RateLimiter in
/-- In a run of calls at instants that do not decrease: where a window starts, no more than the
limit is admitted until it is set back, and no more than twice the limit within any minute; a
call that is turned away leaves the windows that run as they are; and a key is answered as if
there were no calls but its own, and as if nothing were ever pruned. -/
theorem rate_limited {Ip : Type} [LinearOrder Ip] (hits : List (Hit Ip))
    (hsorted : hits.Pairwise (fun a b => a.now ≤ b.now)) :
    (∀ before h after, hits = before ++ h :: after →
      Counter.live h.now (windowOf (windowsAfter check .empty before) h.key) = none →
      ∃ w, windowOf (windowsAfter check .empty (before ++ [h])) h.key = some w ∧
        w.resetAt = h.now + rateWindow ∧
        admittedIn h.key h.now w.resetAt (answers check .empty hits) ≤ h.bucket.limit) ∧
    (∀ (key : Key Ip) start, admittedIn key start (start + rateWindow)
      (answers check .empty hits) ≤ 2 * (ofLex key).2.limit) ∧
    (∀ (windows : Windows Ip) (h : Hit Ip) retry,
      (check windows h.ip h.bucket h.now).1 = .error retry →
      ∀ key w, windowOf windows key = some w → h.now < w.resetAt →
        windowOf (check windows h.ip h.bucket h.now).2 key = some w) ∧
    (∀ key : Key Ip, (answers check .empty hits).filter (fun x => decide (x.1.key = key)) =
      answers check .empty (hits.filter (fun h => decide (h.key = key)))) ∧
    answers check .empty hits = answers record .empty hits := by
  have hzero : ∀ {hs : List (Hit Ip)}, ∀ h ∈ hs, 0 ≤ h.now := fun _ _ => Nat.zero_le _
  have hnows : ∀ key : Key Ip,
      ((hits.filter (fun h => decide (h.key = key))).map Hit.now).Pairwise (· ≤ ·) :=
    fun key => List.pairwise_map.2 (hsorted.filter _)
  refine ⟨?_, ?_, ?_, ?_, ?_⟩
  · rintro before h after rfl hlive
    obtain ⟨hbefore, -, hle⟩ := List.pairwise_append.1 hsorted
    have hown := limits_check.own (windowsAfter check .empty before) h.ip h.bucket h.now
    have hreset := Counter.resetAt_hit h.bucket.limit rateWindow
      (windowOf (windowsAfter check .empty before) h.key) h.now
    rw [Counter.resetAt_current_of_none _ hlive] at hreset
    refine ⟨_, ?_, hreset, ?_⟩
    · rw [windowsAfter, List.foldl_concat]
      exact hown
    · have htimes := hnows h.key
      have hfirst : (h :: after).filter (fun h' => decide (h'.key = h.key)) =
          h :: after.filter (fun h' => decide (h'.key = h.key)) :=
        List.filter_cons_of_pos (decide_eq_true rfl)
      rw [limits_check.admittedIn_eq _ _ _ hsorted, hreset]
      rw [List.filter_append, hfirst, List.map_append, List.map_cons] at htimes ⊢
      refine Counter.admittedWithin_window _ _ (by decide) htimes
        (Eq.trans (Eq.symm ?_) hlive)
      exact limits_check.live_windowsAfter rfl hzero hbefore (Nat.zero_le _)
        (fun h' hh' => hle h' hh' h List.mem_cons_self)
  · intro key start
    rw [limits_check.admittedIn_eq key _ _ hsorted]
    exact Counter.admittedWithin_span _ _ none start (hnows key)
  · intro windows h retry hrejected key w hw hrunning
    exact limits_check.windowOf_of_rejected hrejected hw hrunning
  · exact fun key => limits_check.filter_answers_self key hsorted
  · exact limits_check.answers_eq limits_record (fun _ => rfl) hzero hsorted

namespace Agora

/-- Somebody tries to log in every second, and somebody else once. -/
def knocks : List (RateLimiter.Hit Nat) :=
  (List.range 20).map (fun n => ⟨7, .auth, n * 1000000000⟩) ++ [⟨8, .auth, 20000000000⟩]

end Agora

/-- Of twenty tries ten are admitted at most. -/
theorem rate_limited_knocks :
    RateLimiter.admittedIn (toLex (7, .auth)) 0 60000000000
        (RateLimiter.answers RateLimiter.check .empty Agora.knocks) ≤ 2 * 10 ∧
      RateLimiter.answers RateLimiter.check .empty Agora.knocks =
        RateLimiter.answers RateLimiter.record .empty Agora.knocks := by
  obtain ⟨-, hspan, -, -, hpruned⟩ := rate_limited Agora.knocks (by decide)
  exact ⟨hspan (toLex (7, .auth)) 0, hpruned⟩

end Democrachat
