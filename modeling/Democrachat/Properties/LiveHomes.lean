import Democrachat.Library.RelyGuarantee
import Democrachat.Library.Selection
import Democrachat.System.Upkeep

/-!
# Homes that are live

The rehoming loop leaves a scope alone whose home `live_nodes` lists.  A call of `live_nodes` that
fails counts as the answer that nobody is live.
-/

namespace Democrachat.Federation

open Library

variable {Rate : Type}

/-! ## What is heard -/

/-- The answer with which the last round has begun. -/
def roundOf (heard : List (Heard Rate)) :
    Option (Except RegistryError (List (NodeStatus Rate))) :=
  heard.foldl (fun last e => match e with | .round _ live => some live | _ => last) none

/-- What has been heard since the last round began. -/
def sinceRound (heard : List (Heard Rate)) : List (Heard Rate) :=
  heard.foldl (fun since e => match e with | .round .. => [e] | _ => since ++ [e]) []

/-- The nodes that an answer lists as live. -/
def Heard.answer? : Heard Rate → Option (List (NodeStatus Rate))
  | .round _ (.ok loads) | .live _ _ (.ok loads) => some loads
  | _ => none

def Lists (loads : List (NodeStatus Rate)) (node : NodeId) : Prop := node ∈ loads.map (·.node)

/-- A home that is live is not counted as down, and a scope is claimed only in a round in which some
answer has not listed its home. -/
structure SparesLive (heard : List (Heard Rate)) : Prop where
  claims : ∀ front scope back, heard = front ++ .claim scope :: back →
    ∃ e ∈ sinceRound front, ∃ loads, e.answer? = some loads ∧ ¬ Lists loads (scopeHome scope)
  counts : ∀ front truth live scopes back,
    heard = front ++ .round truth live :: .foreign scopes :: back →
      ∀ scope ∈ Upkeep.candidates live scopes, ¬ Lists truth (scopeHome scope)

/-- In a round whose first call of `live_nodes` fails, the homes of foreign scopes are down at that
call and whenever a scope is considered. -/
structure FailsOnlyWhenDown (heard : List (Heard Rate)) : Prop where
  first : ∀ front truth e scopes back,
    heard = front ++ .round truth (.error e) :: .foreign scopes :: back →
      ∀ scope ∈ scopes, ¬ Lists truth (scopeHome scope)
  later : ∀ front scope standbys loads back,
    heard = front ++ .live scope standbys (.ok loads) :: back →
      ∀ e, roundOf front = some (.error e) → ¬ Lists loads (scopeHome scope)

/-! ## What the loop hears -/

/-- Answers are true, and a claim follows an answer in a round that has not listed the home. -/
structure Sound (heard : List (Heard Rate)) : Prop where
  rounds : ∀ front truth live back, heard = front ++ .round truth live :: back →
    ∀ loads, live = .ok loads → loads = truth
  claims : ∀ front scope back, heard = front ++ .claim scope :: back →
    ∃ front' standbys loads live, front = front' ++ [.live scope standbys (.ok loads)] ∧
      roundOf front' = some live ∧ ∀ loads', live = .ok loads' → ¬ Lists loads' (scopeHome scope)

/-- In a round that has begun with this answer. -/
structure InRound (live : Except RegistryError (List (NodeStatus Rate)))
    (heard : List (Heard Rate)) : Prop extends Sound heard where
  round : roundOf heard = some live

theorem Sound.concat {heard : List (Heard Rate)} (h : Sound heard) {e : Heard Rate}
    (hround : ∀ truth live, e = .round truth live → ∀ loads, live = .ok loads → loads = truth)
    (hclaim : ∀ scope, e = .claim scope → ∃ front' standbys loads live,
      heard = front' ++ [.live scope standbys (.ok loads)] ∧ roundOf front' = some live ∧
        ∀ loads', live = .ok loads' → ¬ Lists loads' (scopeHome scope)) : Sound (heard ++ [e]) := by
  constructor
  · intro front truth live back hsplit
    rcases concat_eq_split hsplit with ⟨-, he, -⟩ | ⟨rest, hold, -⟩
    · exact hround truth live he
    · exact h.rounds front truth live rest hold
  · intro front scope back hsplit
    rcases concat_eq_split hsplit with ⟨rfl, he, -⟩ | ⟨rest, hold, -⟩
    · exact hclaim scope he
    · exact h.claims front scope rest hold

/-- What is heard that neither begins a round nor claims. -/
theorem InRound.concat {live : Except RegistryError (List (NodeStatus Rate))}
    {heard : List (Heard Rate)} (h : InRound live heard) {e : Heard Rate}
    (hround : ∀ truth live, e ≠ .round truth live) (hclaim : ∀ scope, e ≠ .claim scope) :
    InRound live (heard ++ [e]) := by
  refine ⟨h.toSound.concat (fun truth live he => absurd he (hround truth live))
    (fun scope he => absurd he (hclaim scope)), ?_⟩
  rw [roundOf, List.foldl_append]
  cases e with
  | round truth live => exact absurd rfl (hround truth live)
  | _ => exact h.round

namespace Upkeep

section

variable {α β : Type} {Q : α → List (Heard Rate) → Prop} {I : List (Heard Rate) → Prop}

/-- A call fails, or answers from the plane it has found. -/
theorem keeps_call {f : ControlPlane Rate → α × ControlPlane Rate}
    {note : ControlPlane Rate → Except RegistryError α → List (Heard Rate)}
    {Q : Except RegistryError α → List (Heard Rate) → Prop} {heard : List (Heard Rate)}
    (h : ∀ plane answer, (∀ a, answer = .ok a → a = (f plane).1) →
      I (heard ++ note plane answer) ∧ Q answer (heard ++ note plane answer)) :
    Prog.Keeps Site.heard I Q (call f note).run heard := by
  rintro s rfl
  cases hfate : s.fate with
  | unreachable message =>
    simp only [hfate]
    exact h s.plane (.error ⟨message⟩) nofun
  | answered =>
    simp only [hfate]
    exact h s.plane (.ok (f s.plane).1) (fun a ha => (Except.ok.inj ha).symm)
  | answerLost message =>
    simp only [hfate]
    exact h s.plane (.error ⟨message⟩) nofun

theorem keeps_bind {r : Req (Site Rate) RegistryError α} {k : α → Req (Site Rate) RegistryError β}
    {Q' : Except RegistryError β → List (Heard Rate) → Prop} {heard : List (Heard Rate)}
    (h : Prog.Keeps Site.heard I (fun answer heard =>
      match answer with
      | .ok a => Prog.Keeps Site.heard I Q' (k a).run heard
      | .error e => Q' (.error e) heard) r.run heard) :
    Prog.Keeps Site.heard I Q' (r >>= k).run heard := by
  apply Prog.Keeps.bind h
  intro answer heard hanswer
  cases answer with
  | ok a => exact hanswer
  | error e => exact hanswer

end

variable {live : Except RegistryError (List (NodeStatus Rate))}

/-- Calls that nothing is noted of. -/
theorem keeps_ask_bind {α β : Type} {f : ControlPlane Rate → α}
    {k : α → Req (Site Rate) RegistryError β} {heard : List (Heard Rate)} (h : InRound live heard)
    (hk : ∀ a, Prog.Keeps Site.heard Sound (fun _ => InRound live) (k a).run heard) :
    Prog.Keeps Site.heard Sound (fun _ => InRound live) (ask f >>= k).run heard := by
  apply keeps_bind
  apply keeps_call
  intro plane answer _
  rw [unnoted, List.append_nil]
  refine ⟨h.toSound, ?_⟩
  cases answer with
  | ok a => exact hk a
  | error e => exact h

theorem keeps_setStandby_bind {β : Type} {scope : OwnedScope} {node : NodeId}
    {k : Unit → Req (Site Rate) RegistryError β} {heard : List (Heard Rate)} (h : InRound live heard)
    (hk : Prog.Keeps Site.heard Sound (fun _ => InRound live) (k ()).run heard) :
    Prog.Keeps Site.heard Sound (fun _ => InRound live)
      ((liftM (ignore (setStandby scope node) : Prog (Site Rate) Unit) :
        Req (Site Rate) RegistryError Unit) >>= k).run heard := by
  apply keeps_bind
  apply Prog.Keeps.map
  apply Prog.Keeps.map
  apply keeps_call
  intro plane answer _
  rw [unnoted, List.append_nil]
  exact ⟨h.toSound, hk⟩

variable (partialCmp : Rate → Rate → Option Ordering) (node : NodeId)

/-- A scope is considered in a round whose answer has not listed its home. -/
theorem keeps_consider {scope : OwnedScope}
    (hdown : ∀ loads, live = .ok loads → ¬ Lists loads (scopeHome scope))
    {heard : List (Heard Rate)} (h : InRound live heard) :
    Prog.Keeps Site.heard Sound (fun _ => InRound live) (consider partialCmp node scope).run
      heard := by
  apply keeps_ask_bind h
  intro owner
  split
  · exact h
  · apply keeps_ask_bind h
    intro canRehome
    split
    · exact h
    · apply keeps_ask_bind h
      intro standbys
      apply keeps_bind
      apply keeps_call
      intro plane answer _
      have hlive := h.concat (e := .live scope standbys answer) nofun nofun
      refine ⟨hlive.toSound, ?_⟩
      cases answer with
      | error e => exact hlive
      | ok loads =>
        dsimp only
        split
        · exact hlive
        · split
          · exact hlive
          · apply keeps_bind
            apply keeps_call
            intro plane outcome _
            have hclaim : Sound (heard ++ [.live scope standbys (.ok loads)] ++ [.claim scope]) := by
              apply hlive.toSound.concat
              · intro truth live' he
                cases he
              · rintro _ ⟨⟩
                exact ⟨heard, standbys, loads, live, rfl, h.round, hdown⟩
            have hround : InRound live
                (heard ++ [.live scope standbys (.ok loads)] ++ [.claim scope]) := by
              refine ⟨hclaim, ?_⟩
              rw [roundOf, List.foldl_append]
              exact hlive.round
            refine ⟨hclaim, ?_⟩
            cases outcome with
            | error e => exact hround
            | ok outcome =>
              cases outcome with
              | held by_ epoch => exact hround
              | claimed epoch =>
                dsimp only
                split
                · exact keeps_setStandby_bind hround hround
                · exact hround

theorem keeps_tick {candidates : List OwnedScope}
    (hdown : ∀ scope ∈ candidates, ∀ loads, live = .ok loads → ¬ Lists loads (scopeHome scope))
    {heard : List (Heard Rate)} (h : InRound live heard) :
    Prog.Keeps Site.heard Sound (fun _ => InRound live) (tick partialCmp node candidates) heard := by
  induction candidates generalizing heard with
  | nil => exact h
  | cons scope candidates ih =>
    have hrest : ∀ scope' ∈ candidates, ∀ loads, live = .ok loads →
        ¬ Lists loads (scopeHome scope') :=
      fun scope' hmem => hdown scope' (List.mem_cons_of_mem _ hmem)
    apply Prog.Keeps.bind (keeps_consider partialCmp node (hdown scope List.mem_cons_self) h)
    intro outcome heard' hround
    cases outcome with
    | error e => exact ih hrest hround
    | ok outcome => exact Prog.Keeps.bind (ih hrest hround) (fun _ _ h => h)

theorem mem_candidates {scopes : List OwnedScope} {scope : OwnedScope}
    (h : scope ∈ candidates live scopes) (loads : List (NodeStatus Rate)) (hlive : live = .ok loads) :
    ¬ Lists loads (scopeHome scope) := by
  subst hlive
  have hkept : decide (scopeHome scope ∉ loads.map (·.node)) = true := (List.mem_filter.1 h).2
  change ¬ scopeHome scope ∈ loads.map (·.node)
  exact of_decide_eq_true hkept

/-- A round keeps what is heard sound. -/
theorem keeps_rehomingRound {heard : List (Heard Rate)} (h : Sound heard) :
    Prog.Keeps Site.heard Sound (fun _ => Sound) (rehomingRound partialCmp node) heard := by
  apply Prog.Keeps.bind (Q := fun live => InRound live)
  · apply keeps_call
    intro plane answer hanswer
    have hround : Sound (heard ++ [.round plane.loads answer]) := by
      apply h.concat
      · rintro truth live ⟨⟩ loads hlive
        exact hanswer loads hlive
      · intro scope he
        cases he
    refine ⟨hround, hround, ?_⟩
    rw [roundOf, List.foldl_append]
    rfl
  · intro live heard hround
    apply Prog.Keeps.bind (Q := fun _ => InRound live)
    · rintro s rfl
      refine ⟨hround.toSound, ?_⟩
      rintro s' hs'
      have hforeign : InRound live (s'.heard ++ [.foreign (serversWhere (· ≠ node) s.store ++
          usersWhere (· ≠ node) s'.store)]) := by
        rw [hs']
        exact hround.concat nofun nofun
      exact ⟨hforeign.toSound, hforeign⟩
    · intro scopes heard hforeign
      split
      · exact hforeign.toSound
      · apply Prog.Keeps.bind (keeps_tick partialCmp node (fun _ => mem_candidates) hforeign)
        exact fun _ _ hend => hend.toSound

end Upkeep

/-! ## Runs of the loop -/

/-- The loop moves, or the others have left the world like this. -/
inductive Turn (Rate : Type) where
  | step
  | world (plane : ControlPlane Rate) (fate : Fate) (store : Inner)

section

variable (partialCmp : Rate → Rate → Option Ordering) (node : NodeId)

/-- What is left of the round, and what it works on.  When a round is over the next one begins. -/
def loopTurn (c : Prog (Site Rate) Unit × Site Rate) : Turn Rate → Prog (Site Rate) Unit × Site Rate
  | .step =>
    match c.1 with
    | .ret _ => (Upkeep.rehomingRound partialCmp node, c.2)
    | .step w k => (k c.2, w c.2)
  | .world plane fate store => (c.1, { c.2 with plane, fate, store })

/-- A run of a loop that has heard nothing yet. -/
def loopRun (plane : ControlPlane Rate) (fate : Fate) (store : Inner) (turns : List (Turn Rate)) :
    Prog (Site Rate) Unit × Site Rate :=
  turns.foldl (loopTurn partialCmp node) (.ret (), ⟨plane, fate, store, []⟩)

/-- What is heard is sound, and what is left keeps it. -/
structure Running (c : Prog (Site Rate) Unit × Site Rate) : Prop where
  sound : Sound c.2.heard
  keeps : Prog.Keeps Site.heard Sound (fun _ => Sound) c.1 c.2.heard

theorem Running.turn {c : Prog (Site Rate) Unit × Site Rate} (h : Running c) (turn : Turn Rate) :
    Running (loopTurn partialCmp node c turn) := by
  obtain ⟨p, s⟩ := c
  cases turn with
  | step =>
    cases p with
    | ret a => exact ⟨h.sound, Upkeep.keeps_rehomingRound partialCmp node h.sound⟩
    | step w k =>
      obtain ⟨hsound, hkeeps⟩ := h.keeps s rfl
      exact ⟨hsound, hkeeps⟩
  | world plane fate store => exact ⟨h.sound, h.keeps⟩

theorem sound_loopRun (plane : ControlPlane Rate) (fate : Fate) (store : Inner)
    (turns : List (Turn Rate)) : Sound (loopRun partialCmp node plane fate store turns).2.heard := by
  have hrun : ∀ c : Prog (Site Rate) Unit × Site Rate, Running c →
      Running (turns.foldl (loopTurn partialCmp node) c) := by
    induction turns with
    | nil => exact fun c h => h
    | cons turn turns ih => exact fun c h => ih _ (h.turn partialCmp node turn)
  have hempty : Sound ([] : List (Heard Rate)) := by
    constructor
    · intro front truth live back h
      exact absurd h (by simp)
    · intro front scope back h
      exact absurd h (by simp)
  have hstart : Running ((.ret (), ⟨plane, fate, store, []⟩) : Prog (Site Rate) Unit × Site Rate) :=
    ⟨hempty, hempty⟩
  exact (hrun _ hstart).sound

end

/-! ## What follows from what is heard -/

theorem roundOf_concat_live (heard : List (Heard Rate)) (scope : OwnedScope)
    (standbys : List NodeId) (live : Except RegistryError (List (NodeStatus Rate))) :
    roundOf (heard ++ [.live scope standbys live]) = roundOf heard := by
  rw [roundOf, List.foldl_append]
  rfl

/-- The answer with which the round has begun was heard in it. -/
theorem round_mem_sinceRound {heard : List (Heard Rate)}
    {live : Except RegistryError (List (NodeStatus Rate))} (h : roundOf heard = some live) :
    ∃ truth, .round truth live ∈ sinceRound heard := by
  induction heard using List.reverseRecOn with
  | nil => cases h
  | append_singleton heard e ih =>
    rw [roundOf, List.foldl_append] at h
    rw [sinceRound, List.foldl_append]
    cases e with
    | round truth live' =>
      obtain rfl := Option.some.inj h
      exact ⟨truth, List.mem_singleton_self _⟩
    | _ =>
      obtain ⟨truth, hmem⟩ := ih h
      exact ⟨truth, List.mem_append_left _ hmem⟩

/-- Where calls fail only when the homes are down, the homes that are live are spared. -/
theorem Sound.spares {heard : List (Heard Rate)} (h : Sound heard) (hfails : FailsOnlyWhenDown heard) :
    SparesLive heard := by
  constructor
  · intro front scope back hsplit
    obtain ⟨front', standbys, loads, live, rfl, hround, hdown⟩ := h.claims front scope back hsplit
    cases live with
    | ok loads' =>
      rw [← roundOf_concat_live front' scope standbys (.ok loads)] at hround
      obtain ⟨truth, hmem⟩ := round_mem_sinceRound hround
      exact ⟨_, hmem, loads', rfl, hdown loads' rfl⟩
    | error e =>
      have hlater := hfails.later front' scope standbys loads (.claim scope :: back)
        (by rw [hsplit, List.append_assoc]; rfl) e hround
      refine ⟨.live scope standbys (.ok loads), ?_, loads, rfl, hlater⟩
      rw [sinceRound, List.foldl_append]
      exact List.mem_append_right _ (List.mem_singleton_self _)
  · intro front truth live scopes back hsplit scope hscope
    cases live with
    | ok loads =>
      obtain rfl := h.rounds front truth (.ok loads) (.foreign scopes :: back) hsplit loads rfl
      exact Upkeep.mem_candidates hscope loads rfl
    | error e => exact hfails.first front truth e scopes back hsplit scope hscope

theorem sinceRound_subset (heard : List (Heard Rate)) : sinceRound heard ⊆ heard := by
  induction heard using List.reverseRecOn with
  | nil => exact List.Subset.refl _
  | append_singleton heard e ih =>
    have hkept : sinceRound heard ++ [e] ⊆ heard ++ [e] :=
      List.append_subset.2
        ⟨List.Subset.trans ih (List.subset_append_left _ _), List.subset_append_right _ _⟩
    rw [sinceRound, List.foldl_append]
    cases e with
    | round truth live => exact List.subset_append_right _ _
    | _ => exact hkept

/-- Nothing is asked of a run in which the first call of every round gets through. -/
theorem failsOnlyWhenDown_of_answered {heard : List (Heard Rate)}
    (h : ∀ truth e, .round truth (.error e) ∉ heard) : FailsOnlyWhenDown heard := by
  constructor
  · rintro front truth e scopes back rfl
    exact absurd (List.mem_append_right _ List.mem_cons_self) (h truth e)
  · rintro front scope standbys loads back rfl e hround
    obtain ⟨truth, hmem⟩ := round_mem_sinceRound hround
    exact absurd (List.mem_append_left _ (sinceRound_subset front hmem)) (h truth e)

/-- In every run of the loop, whatever the others do and whichever calls fail, live homes are spared
if a round whose first call of `live_nodes` fails finds the homes of foreign scopes down. -/
theorem live_homes_spared (node : NodeId) (plane : ControlPlane Binary64) (fate : Fate)
    (store : Inner) (turns : List (Turn Binary64))
    (h : FailsOnlyWhenDown (loopRun Binary64.partialCmp node plane fate store turns).2.heard) :
    SparesLive (loopRun Binary64.partialCmp node plane fate store turns).2.heard :=
  (sound_loopRun Binary64.partialCmp node plane fate store turns).spares h

/-- Node 2 replicates a server of node 1 and is its standby.  Nobody owns the server. -/
def replicating : Inner :=
  { Inner.empty 2 with servers := Table.empty.insert (.new ⟨1, 1⟩ "agora" "Agora" ⟨1, 1⟩ ⟨0⟩) }

def standingBy (live : List NodeId) : ControlPlane Binary64 :=
  { (ControlPlane.empty : ControlPlane Binary64) with
    standbys := fun _ => [2]
    loads := live.map (fun node => ⟨node, 0, ⟨0⟩⟩) }

/-- Where node 1 is down and the calls get through, node 2 takes over. -/
theorem live_homes_spared_takeover :
    .claim (.server ⟨1, 1⟩) ∈ (loopRun Binary64.partialCmp 2 (standingBy [2]) .answered replicating
        (List.replicate 9 .step)).2.heard ∧
      SparesLive (loopRun Binary64.partialCmp 2 (standingBy [2]) .answered replicating
        (List.replicate 9 .step)).2.heard := by
  have hheard : (loopRun Binary64.partialCmp 2 (standingBy [2]) .answered replicating
      (List.replicate 9 .step)).2.heard =
        [.round [⟨2, 0, ⟨0⟩⟩] (.ok [⟨2, 0, ⟨0⟩⟩]), .foreign [.server ⟨1, 1⟩],
          .live (.server ⟨1, 1⟩) [2] (.ok [⟨2, 0, ⟨0⟩⟩]), .claim (.server ⟨1, 1⟩)] := rfl
  constructor
  · rw [hheard]
    simp
  · apply live_homes_spared
    apply failsOnlyWhenDown_of_answered
    rw [hheard]
    simp

/-- One failed call is enough for node 2 to take the server of node 1, which is live. -/
theorem live_home_robbed : ¬ ∀ node plane fate store turns,
    SparesLive (loopRun Binary64.partialCmp node plane fate store turns).2.heard := by
  intro hall
  have h := hall 2 (standingBy [1, 2]) (.unreachable "etcd") replicating
    ([.step, .step, .world (standingBy [1, 2]) .answered replicating] ++ List.replicate 7 .step)
  have hheard : (loopRun Binary64.partialCmp 2 (standingBy [1, 2]) (.unreachable "etcd") replicating
      ([.step, .step, .world (standingBy [1, 2]) .answered replicating] ++
        List.replicate 7 .step)).2.heard =
        [.round [⟨1, 0, ⟨0⟩⟩, ⟨2, 0, ⟨0⟩⟩] (.error ⟨"etcd"⟩), .foreign [.server ⟨1, 1⟩],
          .live (.server ⟨1, 1⟩) [2] (.ok [⟨1, 0, ⟨0⟩⟩, ⟨2, 0, ⟨0⟩⟩]),
          .claim (.server ⟨1, 1⟩)] := rfl
  rw [hheard] at h
  obtain ⟨e, he, loads, hloads, hlists⟩ := h.claims
    [.round [⟨1, 0, ⟨0⟩⟩, ⟨2, 0, ⟨0⟩⟩] (.error ⟨"etcd"⟩), .foreign [.server ⟨1, 1⟩],
      .live (.server ⟨1, 1⟩) [2] (.ok [⟨1, 0, ⟨0⟩⟩, ⟨2, 0, ⟨0⟩⟩])] (.server ⟨1, 1⟩) [] rfl
  have hsince : sinceRound ([.round [⟨1, 0, ⟨0⟩⟩, ⟨2, 0, ⟨0⟩⟩] (.error ⟨"etcd"⟩),
      .foreign [.server ⟨1, 1⟩],
      .live (.server ⟨1, 1⟩) [2] (.ok [⟨1, 0, ⟨0⟩⟩, ⟨2, 0, ⟨0⟩⟩])] : List (Heard Binary64)) =
      [.round [⟨1, 0, ⟨0⟩⟩, ⟨2, 0, ⟨0⟩⟩] (.error ⟨"etcd"⟩), .foreign [.server ⟨1, 1⟩],
        .live (.server ⟨1, 1⟩) [2] (.ok [⟨1, 0, ⟨0⟩⟩, ⟨2, 0, ⟨0⟩⟩])] := rfl
  rw [hsince] at he
  rcases List.mem_cons.1 he with rfl | he
  · cases hloads
  · rcases List.mem_cons.1 he with rfl | he
    · cases hloads
    · obtain rfl := List.mem_singleton.1 he
      cases hloads
      exact hlists List.mem_cons_self

end Democrachat.Federation
