import Democrachat.Domain.Jury
import Mathlib.Algebra.BigOperators.Group.List.Basic

/-!
# The verdict of a jury

`reach_verdict` looks ahead: it convicts or acquits when every completion of the ballots cast so
far would, and never sooner.  What it has decided stands.
-/

namespace Democrachat

namespace Trial

variable (t : Trial)

/-- What the ballots weigh that say the one or the other. -/
def weigh (ballots : List JuryBallot) (guilty : Bool) : Nat :=
  ((ballots.filter (fun b => b.guilty == guilty)).map (fun b => t.jurorWeight b.juror)).sum

/-- The verdict on the ballots cast so far. -/
def verdictOn (ballots : List JuryBallot) : Option Verdict :=
  reachVerdict (t.weigh ballots true) (t.weigh ballots false) t.juryWeight

/-- The weight of the panel is that of its jurors, frozen, and its double is no overflow. -/
structure Empanelled : Prop where
  frozen : t.juryWeight = (t.jurors.map t.jurorWeight).sum
  fits : 2 * t.juryWeight < 2 ^ 64

/-- Ballots of different jurors of the panel. -/
structure Polls (ballots : List JuryBallot) : Prop where
  distinct : (ballots.map (·.juror)).Nodup
  seated : ∀ b ∈ ballots, b.juror ∈ t.jurors

/-- The rest are ballots of those who have not voted yet, one of each. -/
def Completes (ballots rest : List JuryBallot) : Prop :=
  ((ballots ++ rest).map (·.juror)).Perm t.jurors

/-- The guilty weight is two thirds of a panel that has any. -/
def Convicts (ballots : List JuryBallot) : Prop :=
  0 < t.juryWeight ∧ 2 * t.juryWeight ≤ t.weigh ballots true * 3

end Trial

section

variable {t : Trial} {ballots rest : List JuryBallot}

/-! ## The bar -/

theorem divCeil_le {a b : Nat} : divCeil a 3 ≤ b ↔ a ≤ b * 3 := by
  unfold divCeil
  split
  · omega
  · omega

theorem reachVerdict_eq {g n w : Nat} (hw : 0 < w) (hfits : 2 * w < 2 ^ 64) (hn : n ≤ w) :
    reachVerdict g n w = some (if 2 * w ≤ g * 3 then .guilty
      else if (w - n) * 3 < 2 * w then .notGuilty else .pending) := by
  have hmul : checkedMul w 2 = some (2 * w) := by
    rw [checkedMul, if_pos (by omega), Nat.mul_comm]
  have hsub : checkedSub w n = some (w - n) := if_pos hn
  have hbar : divCeil (2 * w) 3 ≤ g ↔ 2 * w ≤ g * 3 := divCeil_le
  have hrest : w - n < divCeil (2 * w) 3 ↔ (w - n) * 3 < 2 * w := by
    have hreach : divCeil (2 * w) 3 ≤ w - n ↔ 2 * w ≤ (w - n) * 3 := divCeil_le
    omega
  rw [reachVerdict, if_neg (by omega), hmul, hsub]
  by_cases hguilty : 2 * w ≤ g * 3
  · simp [hbar, hguilty]
  · by_cases hacquit : (w - n) * 3 < 2 * w
    · simp [hbar, hguilty, hrest, hacquit]
    · simp [hbar, hguilty, hrest, hacquit]

/-! ## Weighing ballots -/

theorem weigh_append (more : List JuryBallot) (guilty : Bool) :
    t.weigh (ballots ++ more) guilty = t.weigh ballots guilty + t.weigh more guilty := by
  rw [Trial.weigh, List.filter_append, List.map_append, List.sum_append]
  rfl

theorem weigh_perm {ballots' : List JuryBallot} (h : ballots.Perm ballots') (guilty : Bool) :
    t.weigh ballots guilty = t.weigh ballots' guilty :=
  ((h.filter _).map _).sum_eq

/-- Both sides together weigh what the voters weigh. -/
theorem weigh_add (ballots : List JuryBallot) :
    t.weigh ballots true + t.weigh ballots false =
      ((ballots.map (·.juror)).map t.jurorWeight).sum := by
  unfold Trial.weigh
  induction ballots with
  | nil => rfl
  | cons b ballots ih =>
    rw [List.filter_cons, List.filter_cons, List.map_cons, List.map_cons, List.sum_cons, ← ih]
    cases hb : b.guilty
    · simp
      omega
    · simp
      omega

/-- Who votes one way adds nothing to the other. -/
theorem weigh_unanimous (jurors : List UserId) (guilty : Bool) :
    t.weigh (jurors.map (fun j => ⟨j, guilty⟩)) (!guilty) = 0 := by
  have hnone : (jurors.map (fun j => (⟨j, guilty⟩ : JuryBallot))).filter
      (fun b => b.guilty == !guilty) = [] := by
    refine List.filter_eq_nil_iff.2 (fun b hb => ?_)
    obtain ⟨j, -, rfl⟩ := List.mem_map.1 hb
    cases guilty
    · exact Bool.false_ne_true
    · exact Bool.false_ne_true
  rw [Trial.weigh, hnone]
  rfl

theorem weigh_complete (ht : t.Empanelled) (h : t.Completes ballots rest) :
    t.weigh (ballots ++ rest) true + t.weigh (ballots ++ rest) false = t.juryWeight := by
  rw [weigh_add, ht.frozen]
  exact (h.map _).sum_eq

/-! ## Completions -/

/-- Those who have not voted yet could all vote this way. -/
theorem exists_completes (hballots : t.Polls ballots) (guilty : Bool) :
    ∃ rest, t.Completes ballots rest ∧ t.weigh rest (!guilty) = 0 := by
  have hseated : ∀ j ∈ ballots.map (·.juror), j ∈ t.jurors := by
    intro j hj
    obtain ⟨b, hb, rfl⟩ := List.mem_map.1 hj
    exact hballots.seated b hb
  obtain ⟨voters, hvoters, hsublist⟩ := List.subperm_of_subset hballots.distinct hseated
  obtain ⟨absent, habsent⟩ := hsublist.exists_perm_append
  have hsame : (absent.map (fun j => (⟨j, guilty⟩ : JuryBallot))).map (·.juror) = absent := by
    rw [List.map_map]
    exact List.map_id absent
  refine ⟨absent.map (fun j => ⟨j, guilty⟩), ?_, weigh_unanimous absent guilty⟩
  rw [Trial.Completes, List.map_append, hsame]
  exact (hvoters.symm.append_right absent).trans habsent.symm

theorem weigh_le (ht : t.Empanelled) (hballots : t.Polls ballots) :
    t.weigh ballots true + t.weigh ballots false ≤ t.juryWeight := by
  obtain ⟨rest, hrest, -⟩ := exists_completes hballots true
  have hall := weigh_complete ht hrest
  rw [weigh_append, weigh_append] at hall
  omega

theorem forall_convicts (hballots : t.Polls ballots) :
    (∀ rest, t.Completes ballots rest → t.Convicts (ballots ++ rest)) ↔ t.Convicts ballots := by
  constructor
  · intro h
    obtain ⟨rest, hrest, hnone⟩ := exists_completes hballots false
    obtain ⟨hpos, hbar⟩ := h rest hrest
    rw [weigh_append, show t.weigh rest true = 0 from hnone] at hbar
    exact ⟨hpos, hbar⟩
  · rintro ⟨hpos, hbar⟩ rest -
    refine ⟨hpos, ?_⟩
    rw [weigh_append]
    omega

theorem exists_convicts (ht : t.Empanelled) (hballots : t.Polls ballots) :
    (∃ rest, t.Completes ballots rest ∧ t.Convicts (ballots ++ rest)) ↔
      0 < t.juryWeight ∧ 2 * t.juryWeight ≤ (t.juryWeight - t.weigh ballots false) * 3 := by
  constructor
  · rintro ⟨rest, hrest, hpos, hbar⟩
    have hall := weigh_complete ht hrest
    rw [weigh_append, weigh_append] at hall
    rw [weigh_append] at hbar
    exact ⟨hpos, by omega⟩
  · rintro ⟨hpos, hbar⟩
    obtain ⟨rest, hrest, hnone⟩ := exists_completes hballots true
    have hall := weigh_complete ht hrest
    have hnay : t.weigh rest false = 0 := hnone
    rw [weigh_append, weigh_append] at hall
    refine ⟨rest, hrest, hpos, ?_⟩
    rw [weigh_append]
    omega

/-- What the look-ahead computes: who would be convicted come what may, and who could be. -/
theorem verdictOn_eq (ht : t.Empanelled) (hballots : t.Polls ballots) :
    (t.Convicts ballots ∧ t.verdictOn ballots = some .guilty) ∨
    (¬ (∃ rest, t.Completes ballots rest ∧ t.Convicts (ballots ++ rest)) ∧
      t.verdictOn ballots = some .notGuilty) ∨
    (¬ t.Convicts ballots ∧ (∃ rest, t.Completes ballots rest ∧ t.Convicts (ballots ++ rest)) ∧
      t.verdictOn ballots = some .pending) := by
  have hle := weigh_le ht hballots
  rw [exists_convicts ht hballots]
  unfold Trial.Convicts Trial.verdictOn
  by_cases hpos : 0 < t.juryWeight
  · rw [reachVerdict_eq hpos ht.fits (by omega)]
    by_cases hguilty : 2 * t.juryWeight ≤ t.weigh ballots true * 3
    · exact .inl ⟨⟨hpos, hguilty⟩, by rw [if_pos hguilty]⟩
    · by_cases hacquit : (t.juryWeight - t.weigh ballots false) * 3 < 2 * t.juryWeight
      · refine .inr (.inl ⟨fun h => ?_, by rw [if_neg hguilty, if_pos hacquit]⟩)
        omega
      · refine .inr (.inr ⟨fun h => hguilty h.2, ⟨hpos, by omega⟩, ?_⟩)
        rw [if_neg hguilty, if_neg hacquit]
  · exact .inr (.inl ⟨fun h => hpos h.1, if_pos (by omega)⟩)

theorem verdictOn_perm {ballots' : List JuryBallot} (h : ballots.Perm ballots') :
    t.verdictOn ballots' = t.verdictOn ballots := by
  rw [Trial.verdictOn, Trial.verdictOn, weigh_perm h, weigh_perm h]

/-- Further ballots leave fewer completions. -/
theorem completes_append {more : List JuryBallot} :
    t.Completes (ballots ++ more) rest ↔ t.Completes ballots (more ++ rest) := by
  rw [Trial.Completes, Trial.Completes, List.append_assoc]

theorem polls_of_append {more : List JuryBallot} (h : t.Polls (ballots ++ more)) :
    t.Polls ballots := by
  have hdistinct := h.distinct
  rw [List.map_append, List.nodup_append] at hdistinct
  exact ⟨hdistinct.1, fun b hb => h.seated b (List.mem_append_left more hb)⟩

/-- A decision stands. -/
theorem verdictOn_append {more : List JuryBallot} {v : Verdict} (ht : t.Empanelled)
    (hmore : t.Polls (ballots ++ more)) (hv : t.verdictOn ballots = some v)
    (hdecided : v ≠ .pending) : t.verdictOn (ballots ++ more) = some v := by
  -- Who convicts now convicts by some completion, which completes the earlier ballots too.
  have hlater : ∀ rest, t.Completes (ballots ++ more) rest → t.Convicts (ballots ++ more ++ rest) →
      ∃ rest, t.Completes ballots rest ∧ t.Convicts (ballots ++ rest) := by
    intro rest hrest hconvicts
    rw [List.append_assoc] at hconvicts
    exact ⟨more ++ rest, completes_append.1 hrest, hconvicts⟩
  obtain ⟨rest, hrest, -⟩ := exists_completes hmore false
  rcases verdictOn_eq ht (polls_of_append hmore) with
    ⟨hconvicts, hpast⟩ | ⟨hnone, hpast⟩ | ⟨-, -, hpast⟩
  · have hstill : t.Convicts (ballots ++ more) := by
      refine ⟨hconvicts.1, Nat.le_trans hconvicts.2 ?_⟩
      rw [weigh_append]
      omega
    rw [hv] at hpast
    rcases verdictOn_eq ht hmore with ⟨-, hnow⟩ | ⟨hnone, -⟩ | ⟨hnot, -, -⟩
    · rw [hnow, hpast]
    · exact absurd ⟨rest, hrest, (forall_convicts hmore).2 hstill rest hrest⟩ hnone
    · exact absurd hstill hnot
  · rw [hv] at hpast
    rcases verdictOn_eq ht hmore with ⟨hconvicts, -⟩ | ⟨-, hnow⟩ | ⟨-, ⟨rest, hrest, hnow⟩, -⟩
    · exact absurd (hlater rest hrest ((forall_convicts hmore).2 hconvicts rest hrest)) hnone
    · rw [hnow, hpast]
    · exact absurd (hlater rest hrest hnow) hnone
  · rw [hv] at hpast
    exact absurd (Option.some.inj hpast) hdecided

theorem polls_perm {ballots' : List JuryBallot} (h : t.Polls ballots)
    (hperm : ballots.Perm ballots') : t.Polls ballots' where
  distinct := (hperm.map _).nodup_iff.1 h.distinct
  seated := fun b hb => h.seated b (hperm.mem_iff.2 hb)

/-- With all ballots cast there is nothing left to wait for. -/
theorem verdictOn_complete (ht : t.Empanelled) (hballots : t.Polls ballots)
    (hall : t.Completes ballots []) : t.verdictOn ballots ≠ some .pending := by
  intro hpending
  rcases verdictOn_eq ht hballots with ⟨-, h⟩ | ⟨-, h⟩ | ⟨hnot, ⟨rest, hrest, hconvicts⟩, -⟩
  · rw [h] at hpending
    cases hpending
  · rw [h] at hpending
    cases hpending
  · have hlength : (ballots ++ rest).length = (ballots ++ []).length := by
      have hsame := (hrest.trans hall.symm).length_eq
      rwa [List.length_map, List.length_map] at hsame
    rw [List.length_append, List.length_append, List.length_nil] at hlength
    obtain rfl : rest = [] := List.length_eq_zero_iff.1 (by omega)
    rw [List.append_nil] at hconvicts
    exact hnot hconvicts

end

/-- The look-ahead is exact: the verdict on the ballots cast so far is guilty where every
completion convicts, not guilty where none does, and pending else.  It is not pending once all
have voted, further ballots leave a decision as it is, and the order of the ballots counts
neither for the verdict nor for what is decided on the way. -/
theorem verdict_exact (t : Trial) (ht : t.Empanelled) (ballots : List JuryBallot)
    (hballots : t.Polls ballots) :
    ∃ v, t.verdictOn ballots = some v ∧
      (v = .guilty ↔ ∀ rest, t.Completes ballots rest → t.Convicts (ballots ++ rest)) ∧
      (v = .notGuilty ↔ ∀ rest, t.Completes ballots rest → ¬ t.Convicts (ballots ++ rest)) ∧
      (v = .pending ↔ (∃ rest, t.Completes ballots rest ∧ t.Convicts (ballots ++ rest)) ∧
        ∃ rest, t.Completes ballots rest ∧ ¬ t.Convicts (ballots ++ rest)) ∧
      (t.Completes ballots [] → v ≠ .pending) ∧
      (∀ more, v ≠ .pending → t.Polls (ballots ++ more) →
        t.verdictOn (ballots ++ more) = some v) ∧
      (∀ ballots', ballots.Perm ballots' → t.verdictOn ballots' = some v) ∧
      ∀ early late v', (early ++ late).Perm ballots → t.verdictOn early = some v' →
        v' ≠ .pending → v' = v := by
  have hall := forall_convicts hballots
  have hsome : t.Convicts ballots →
      ∃ rest, t.Completes ballots rest ∧ t.Convicts (ballots ++ rest) := by
    intro hconvicts
    obtain ⟨rest, hrest, -⟩ := exists_completes hballots false
    exact ⟨rest, hrest, hall.2 hconvicts rest hrest⟩
  have hnone : (∀ rest, t.Completes ballots rest → ¬ t.Convicts (ballots ++ rest)) ↔
      ¬ ∃ rest, t.Completes ballots rest ∧ t.Convicts (ballots ++ rest) := by
    simp only [not_exists, not_and]
  have hfail : (∃ rest, t.Completes ballots rest ∧ ¬ t.Convicts (ballots ++ rest)) ↔
      ¬ t.Convicts ballots := by
    rw [← hall]
    simp only [not_forall, exists_prop]
  rw [hall, hnone, hfail]
  have hexact : ∃ v, t.verdictOn ballots = some v ∧ (v = .guilty ↔ t.Convicts ballots) ∧
      (v = .notGuilty ↔
        ¬ ∃ rest, t.Completes ballots rest ∧ t.Convicts (ballots ++ rest)) ∧
      (v = .pending ↔ (∃ rest, t.Completes ballots rest ∧ t.Convicts (ballots ++ rest)) ∧
        ¬ t.Convicts ballots) := by
    rcases verdictOn_eq ht hballots with ⟨hconvicts, hv⟩ | ⟨hnot, hv⟩ | ⟨hnot, hrest, hv⟩
    · exact ⟨.guilty, hv, by simp [hconvicts], by simp [hsome hconvicts], by simp [hconvicts]⟩
    · have hfree : ¬ t.Convicts ballots := fun h => hnot (hsome h)
      exact ⟨.notGuilty, hv, by simp [hfree], by simp only [hnot, not_false_eq_true],
        by simp only [hnot, false_and, reduceCtorEq]⟩
    · exact ⟨.pending, hv, by simp [hnot], by simp only [hrest, not_true, reduceCtorEq],
        by simp only [hrest, hnot, not_false_eq_true, and_self]⟩
  obtain ⟨v, hv, hguilty, hacquit, hpending⟩ := hexact
  refine ⟨v, hv, hguilty, hacquit, hpending, ?_, ?_, ?_, ?_⟩
  · intro hcomplete hpending
    exact verdictOn_complete ht hballots hcomplete (hpending ▸ hv)
  · exact fun more hdecided hmore => verdictOn_append ht hmore hv hdecided
  · exact fun ballots' hperm => (verdictOn_perm hperm).trans hv
  · intro early late v' hperm hearly hdecided
    have hpolls : t.Polls (early ++ late) := polls_perm hballots hperm.symm
    have hstands := verdictOn_append ht hpolls hearly hdecided
    rw [← verdictOn_perm hperm, hv] at hstands
    exact (Option.some.inj hstands).symm

namespace Agora

/-- Three jurors, of whom the last weighs as much as the others together. -/
def panel : Trial := ⟨[⟨0, 1⟩, ⟨0, 2⟩, ⟨0, 3⟩], 4, [1, 1, 2]⟩

/-- The heavy juror has voted. -/
def accusation : List JuryBallot := [⟨⟨0, 3⟩, true⟩]

end Agora

/-- One ballot more decides. -/
theorem verdict_exact_panel :
    ∃ v, Agora.panel.verdictOn (Agora.accusation ++ [⟨⟨0, 1⟩, true⟩]) = some v ∧
      (v = .guilty ↔ ∀ rest, Agora.panel.Completes (Agora.accusation ++ [⟨⟨0, 1⟩, true⟩]) rest →
        Agora.panel.Convicts (Agora.accusation ++ [⟨⟨0, 1⟩, true⟩] ++ rest)) := by
  have hpanel : Agora.panel.Empanelled := ⟨by decide, by decide⟩
  have hpolls : Agora.panel.Polls (Agora.accusation ++ [⟨⟨0, 1⟩, true⟩]) :=
    ⟨by decide, by decide⟩
  obtain ⟨v, hv, hguilty, -⟩ := verdict_exact Agora.panel hpanel _ hpolls
  exact ⟨v, hv, hguilty⟩

end Democrachat
