import Democrachat.Properties.EtcdClaims
import Mathlib.Data.List.TakeWhile

/-!
# The owner that is read

`owner_of` gets the holder of a scope and then its epoch.  Between the two gets the scope may be
released and granted to another node, so that the answer pairs the old holder with the new epoch.
-/

namespace Democrachat.Federation

open Library Req EtcdRegistry

/-- The node has the scope under this epoch. -/
def Etcd.Holds (s : Etcd) (scope : OwnedScope) (owner : NodeId) (epoch : Nat) : Prop :=
  s.storedHolder scope = some owner ∧ s.storedEpoch scope = epoch

instance (s : Etcd) (scope : OwnedScope) (owner : NodeId) (epoch : Nat) :
    Decidable (s.Holds scope owner epoch) :=
  inferInstanceAs (Decidable (_ ∧ _))

/-- The steps before call `i` makes its first. -/
def begun (i : Nat) (is : List Nat) : List Nat := is.takeWhile (· ≠ i)

/-- After the steps `is`, the next one of call `i` answers who owns the scope. -/
structure Answers (calls : List EtcdCall) (is : List Nat) (i : Nat) (scope : OwnedScope)
    (owner : NodeId) (epoch : Nat) : Prop where
  call : calls[i]? = some (.ownerOf scope)
  unanswered : ∀ a, (etcdRun calls is).1[i]? ≠ some (.ret a)
  answered : (etcdRun calls (is ++ [i])).1[i]? =
    some (.ret (.owner scope (.ok (some ⟨scope, owner, epoch⟩))))

/-- At some instant of call `i` the node had the scope under the epoch. -/
def HeldMeanwhile (calls : List EtcdCall) (is : List Nat) (i : Nat) (scope : OwnedScope)
    (owner : NodeId) (epoch : Nat) : Prop :=
  ∃ js, begun i is <+: js ∧ js <+: is ∧ (etcdRun calls js).2.Holds scope owner epoch

/-- Whoever has got the last grant of the scope is who had it when call `i` began. -/
def Unpassed (calls : List EtcdCall) (is : List Nat) (i : Nat) (scope : OwnedScope) : Prop :=
  ((etcdRun calls is).2.lastGrant scope).map (·.owner) =
    (etcdRun calls (begun i is)).2.storedHolder scope

/-! ## The two gets -/

/-- What is left of `owner_of` when the holder has been read. -/
def afterHolder (scope : OwnedScope) (owner : NodeId) : Prog Etcd EtcdAnswer :=
  EtcdAnswer.owner scope <$> (getStr (EtcdRegistry.epochOf scope) >>= fun found =>
    readEpoch found >>= fun epoch => pure (some ⟨scope, owner, epoch⟩)).run

/-- The answer is that nobody owns the scope, or an error. -/
def Empty (scope : OwnedScope) (p : Prog Etcd EtcdAnswer) : Prop :=
  ∃ result, p = .ret (.owner scope result) ∧ ∀ o, result ≠ .ok (some o)

/-- A get that is not answered ends the call with an error. -/
theorem getStr_tick {c : List (Prog Etcd EtcdAnswer) × Etcd} {i : Nat} {scope : OwnedScope}
    {key : String} {k : Option (String × Nat) → Req Etcd RegistryError (Option Ownership)}
    (h : c.1[i]? = some (EtcdAnswer.owner scope <$> (getStr key >>= k).run)) :
    ∃ p, (Prog.tick c i).1[i]? = some p ∧
      (Empty scope p ∨ p = EtcdAnswer.owner scope <$>
        (k ((c.2.kv.entries key).map (fun e => (e.value, e.modRevision)))).run) := by
  obtain ⟨htick, -⟩ := Prog.tick_of_step h
  dsimp only at htick
  cases hfate : c.2.fate with
  | unreachable message =>
    rw [hfate] at htick
    exact ⟨_, htick, .inl ⟨_, rfl, nofun⟩⟩
  | answerLost message =>
    rw [hfate] at htick
    exact ⟨_, htick, .inl ⟨_, rfl, nofun⟩⟩
  | answered =>
    rw [hfate] at htick
    exact ⟨_, htick, .inr rfl⟩

theorem ownerOf_tick {c : List (Prog Etcd EtcdAnswer) × Etcd} {i : Nat} {scope : OwnedScope}
    (h : c.1[i]? = some (EtcdCall.ownerOf scope).prog) :
    ∃ p, (Prog.tick c i).1[i]? = some p ∧
      (Empty scope p ∨
        ∃ owner, c.2.storedHolder scope = some owner ∧ p = afterHolder scope owner) := by
  obtain ⟨p, htick, hempty | hp⟩ := getStr_tick h
  · exact ⟨p, htick, .inl hempty⟩
  · refine ⟨p, htick, ?_⟩
    unfold Etcd.storedHolder
    cases hentry : c.2.kv.entries (holderOf scope) with
    | none =>
      rw [hentry] at hp
      exact .inl ⟨_, hp, nofun⟩
    | some e =>
      rw [hentry] at hp
      change p = EtcdAnswer.owner scope <$> (okOr (parseNode e.value) (parseError e.value)
        >>= fun owner => getStr (EtcdRegistry.epochOf scope) >>= fun found =>
          readEpoch found >>= fun epoch => pure (some ⟨scope, owner, epoch⟩)).run at hp
      rw [Option.bind_some]
      cases hparse : parseNode e.value with
      | none =>
        rw [hparse] at hp
        exact .inl ⟨_, hp, nofun⟩
      | some owner =>
        rw [hparse] at hp
        exact .inr ⟨owner, rfl, hp⟩

theorem afterHolder_tick {c : List (Prog Etcd EtcdAnswer) × Etcd} {i : Nat} {scope : OwnedScope}
    {owner : NodeId} (h : c.1[i]? = some (afterHolder scope owner)) :
    ∃ p, (Prog.tick c i).1[i]? = some p ∧
      (Empty scope p ∨
        p = .ret (.owner scope (.ok (some ⟨scope, owner, c.2.storedEpoch scope⟩)))) := by
  obtain ⟨p, htick, hempty | hp⟩ := getStr_tick h
  · exact ⟨p, htick, .inl hempty⟩
  · refine ⟨p, htick, ?_⟩
    unfold Etcd.storedEpoch
    cases hentry : c.2.kv.entries (EtcdRegistry.epochOf scope) with
    | none =>
      rw [hentry] at hp
      exact .inr hp
    | some e =>
      rw [hentry] at hp
      change p = EtcdAnswer.owner scope <$> (okOr (parseU64 e.value) (parseError e.value)
        >>= fun epoch => pure (some ⟨scope, owner, epoch⟩)).run at hp
      rw [Option.bind_some]
      cases hparse : parseU64 e.value with
      | none =>
        rw [hparse] at hp
        exact .inl ⟨_, hp, nofun⟩
      | some epoch =>
        rw [hparse] at hp
        exact .inr hp

/-! ## Where a call begins -/

theorem notMem_begun (i : Nat) (is : List Nat) : i ∉ begun i is := by
  intro h
  simpa using List.mem_takeWhile_imp h

theorem begun_split {i : Nat} {is : List Nat} (h : i ∈ is) :
    ∃ rest, is = begun i is ++ i :: rest := by
  induction is with
  | nil => exact absurd h List.not_mem_nil
  | cons j is ih =>
    by_cases hj : j = i
    · subst hj
      exact ⟨is, by simp [begun]⟩
    · obtain ⟨rest, hrest⟩ := ih (List.mem_of_ne_of_mem (Ne.symm hj) h)
      refine ⟨rest, ?_⟩
      rw [begun, List.takeWhile_cons_of_pos (by simp [hj]), List.cons_append, ← begun, ← hrest]

theorem etcdRun_of_notMem {calls : List EtcdCall} {i : Nat} {call : EtcdCall}
    (hcall : calls[i]? = some call) {is : List Nat} (h : i ∉ is) :
    (etcdRun calls is).1[i]? = some call.prog := by
  rw [etcdRun, Prog.getElem?_schedule_of_notMem h, List.getElem?_map, hcall]
  rfl

theorem etcdRun_append_of_notMem (calls : List EtcdCall) (is : List Nat) {i : Nat} {js : List Nat}
    (h : i ∉ js) : (etcdRun calls (is ++ js)).1[i]? = (etcdRun calls is).1[i]? := by
  rw [etcdRun_append, Prog.getElem?_schedule_of_notMem h]

/-- An answer that names an owner names the holder at the beginning of the call and the epoch at
its end. -/
theorem Answers.reads {calls : List EtcdCall} {is : List Nat} {i : Nat} {scope : OwnedScope}
    {owner : NodeId} {epoch : Nat} (h : Answers calls is i scope owner epoch) :
    (etcdRun calls (begun i is)).2.storedHolder scope = some owner ∧
      (etcdRun calls is).2.storedEpoch scope = epoch := by
  -- A call that has answered by `is` is not the one that answers now.
  have hopen : ∀ js ks a, is = js ++ ks → (etcdRun calls js).1[i]? ≠ some (.ret a) := by
    rintro js ks a rfl hret
    apply h.unanswered a
    rw [etcdRun_append]
    exact Prog.getElem?_schedule_of_ret (i := i) ks hret
  have hanswered := h.answered
  by_cases hfirst : i ∈ is
  · obtain ⟨rest, hsplit⟩ := begun_split hfirst
    have hstart := etcdRun_of_notMem h.call (notMem_begun i is)
    obtain ⟨p, hp, hcases⟩ := ownerOf_tick hstart
    rw [← etcdRun_concat] at hp
    have hwhole : is = (begun i is ++ [i]) ++ rest := by
      rw [List.append_assoc, List.singleton_append, ← hsplit]
    rcases hcases with ⟨result, rfl, -⟩ | ⟨holder, hholder, rfl⟩
    · exact absurd hp (hopen _ rest _ hwhole)
    · have hsecond : i ∉ rest := by
        intro hmem
        obtain ⟨rest', hsplit'⟩ := begun_split hmem
        have hmiddle := etcdRun_append_of_notMem calls (begun i is ++ [i])
          (notMem_begun i rest)
        obtain ⟨p, hp', hcases'⟩ := afterHolder_tick (hmiddle.trans hp)
        rw [← etcdRun_concat] at hp'
        have hlater : is = (begun i is ++ [i] ++ begun i rest ++ [i]) ++ rest' := by
          rw [List.append_assoc, List.singleton_append, List.append_assoc, ← hsplit', ← hwhole]
        rcases hcases' with ⟨result, rfl, -⟩ | rfl
        · exact absurd hp' (hopen _ rest' _ hlater)
        · exact absurd hp' (hopen _ rest' _ hlater)
      have hlast : (etcdRun calls is).1[i]? = some (afterHolder scope holder) := by
        rw [hwhole, etcdRun_append_of_notMem _ _ hsecond, hp]
      obtain ⟨p, hp', hcases'⟩ := afterHolder_tick hlast
      rw [← etcdRun_concat, hanswered] at hp'
      rcases hcases' with ⟨result, rfl, hnone⟩ | rfl
      · cases hp'
        exact absurd rfl (hnone _)
      · cases hp'
        exact ⟨hholder, rfl⟩
  · obtain ⟨p, hp, hcases⟩ := ownerOf_tick (etcdRun_of_notMem h.call hfirst)
    rw [← etcdRun_concat, hanswered] at hp
    rcases hcases with ⟨result, rfl, hnone⟩ | ⟨holder, -, rfl⟩
    · cases hp
      exact absurd rfl (hnone _)
    · cases hp

/-! ## Who has been granted the scope -/

/-- Two grants of a scope under one epoch are the same. -/
theorem Etcd.Inv.grant_eq {s : Etcd} (hs : s.Inv) {scope : OwnedScope} {g g' : Ownership}
    (hg : g ∈ s.grants scope) (hg' : g' ∈ s.grants scope) (h : g.epoch = g'.epoch) : g = g' := by
  by_contra hne
  have hdistinct : (s.grants scope).Pairwise (fun g g' => g.epoch ≠ g'.epoch) :=
    (hs.rising scope).imp (fun hlt => hlt.ne)
  have : Std.Symm (fun g g' : Ownership => g.epoch ≠ g'.epoch) := ⟨fun _ _ h => h.symm⟩
  exact hdistinct.forall hg hg' hne h

theorem Etcd.holds_grant {s : Etcd} {lease : LeaseId} {g : Ownership} {scope : OwnedScope}
    (hs : (s.grant lease g).Inv) (h : scopeKey g.scope = scopeKey scope) :
    (s.grant lease g).Holds scope g.owner g.epoch := by
  obtain ⟨e, hentry, hvalue⟩ := holder_grant s lease h.symm
  constructor
  · rw [storedHolder, hentry, Option.bind_some, hvalue, parseNode_toString]
  · rw [storedEpoch_eq hs, lastGrant_grant, if_pos h]
    rfl

/-- The last grant is as old as an earlier instant, or was in force after it. -/
theorem lastGrant_cases (calls : List EtcdCall) (scope : OwnedScope) (is js : List Nat) :
    (etcdRun calls (is ++ js)).2.lastGrant scope = (etcdRun calls is).2.lastGrant scope ∨
      ∃ ks g, ks <+: js ∧ (etcdRun calls (is ++ js)).2.lastGrant scope = some g ∧
        (etcdRun calls (is ++ ks)).2.Holds scope g.owner g.epoch := by
  -- By the later steps; each grants nothing, or something of which it is the first instant.
  induction js using List.reverseRecOn with
  | nil => exact .inl (by rw [List.append_nil])
  | append_singleton js j ih =>
    have hstep : (etcdRun calls (is ++ js)).2.Granting (etcdRun calls (is ++ js ++ [j])).2 := by
      rw [etcdRun_concat]
      refine (Prog.guarantees_tick Etcd.Granting.refl ?_ j).1
      refine Prog.guarantees_schedule Etcd.Granting.refl ?_ (is ++ js)
      intro p hp
      obtain ⟨call, -, rfl⟩ := List.mem_map.1 hp
      exact call.granting
    rw [← List.append_assoc]
    have hkept : (etcdRun calls (is ++ js ++ [j])).2.lastGrant scope =
        (etcdRun calls (is ++ js)).2.lastGrant scope →
          (etcdRun calls (is ++ js ++ [j])).2.lastGrant scope =
            (etcdRun calls is).2.lastGrant scope ∨
          ∃ ks g, ks <+: js ++ [j] ∧
            (etcdRun calls (is ++ js ++ [j])).2.lastGrant scope = some g ∧
            (etcdRun calls (is ++ ks)).2.Holds scope g.owner g.epoch := by
      intro hsame
      rw [hsame]
      rcases ih with hold | ⟨ks, g, hks, hlast, hholds⟩
      · exact .inl hold
      · exact .inr ⟨ks, g, hks.trans (List.prefix_append _ _), hlast, hholds⟩
    rcases hstep with hgranted | ⟨lease, g, hgrant⟩
    · apply hkept
      rw [Etcd.lastGrant, Etcd.grants, hgranted, Etcd.lastGrant, Etcd.grants]
    · have hinv := inv_etcdRun calls (is ++ js ++ [j])
      have hlast : (etcdRun calls (is ++ js ++ [j])).2.lastGrant scope =
          if scopeKey g.scope = scopeKey scope then some g
          else (etcdRun calls (is ++ js)).2.lastGrant scope := by
        rw [hgrant, Etcd.lastGrant_grant]
      by_cases hkey : scopeKey g.scope = scopeKey scope
      · rw [if_pos hkey] at hlast
        refine .inr ⟨js ++ [j], g, List.prefix_refl _, hlast, ?_⟩
        rw [← List.append_assoc, hgrant]
        rw [hgrant] at hinv
        exact Etcd.holds_grant hinv hkey
      · rw [if_neg hkey] at hlast
        exact hkept hlast

/-- `owner_of` answers with a pair that was in force during the call, or that was ever in force,
exactly where the last node that has got the scope by the second get is the one that had it at the
first. -/
theorem owner_in_force {calls : List EtcdCall} {is : List Nat} {i : Nat} {scope : OwnedScope}
    {owner : NodeId} {epoch : Nat} (h : Answers calls is i scope owner epoch) :
    (HeldMeanwhile calls is i scope owner epoch ↔ Unpassed calls is i scope) ∧
      ((∃ js, js <+: is ∧ (etcdRun calls js).2.Holds scope owner epoch) ↔
        Unpassed calls is i scope) := by
  obtain ⟨hholder, hepoch⟩ := h.reads
  have hbegun : begun i is <+: is := List.takeWhile_prefix _
  have hinv := inv_etcdRun calls is
  have hmeanwhile : Unpassed calls is i scope → HeldMeanwhile calls is i scope owner epoch := by
    intro hunpassed
    rw [Unpassed, hholder] at hunpassed
    obtain ⟨g, hlast, howner⟩ := Option.map_eq_some_iff.1 hunpassed
    have hg : g.epoch = epoch := by
      rw [← hepoch, Etcd.storedEpoch_eq hinv, hlast]
      rfl
    obtain ⟨rest, hrest⟩ := hbegun
    have hcases := lastGrant_cases calls scope (begun i is) rest
    rw [hrest] at hcases
    rcases hcases with hsame | ⟨ks, g', hks, hlast', hholds⟩
    · have hbefore : (etcdRun calls (begun i is)).2.lastGrant scope = some g := hsame.symm.trans hlast
      refine ⟨begun i is, List.prefix_refl _, ⟨rest, hrest⟩, hholder, ?_⟩
      rw [Etcd.storedEpoch_eq (inv_etcdRun calls _), hbefore]
      exact hg
    · obtain rfl : g = g' := Option.some.inj (hlast.symm.trans hlast')
      refine ⟨begun i is ++ ks, List.prefix_append _ _, ?_, ?_⟩
      · have hle := (List.prefix_append_right_inj (begun i is)).2 hks
        rwa [hrest] at hle
      · rw [← howner, ← hg]
        exact hholds
  have hunpassed : (∃ js, js <+: is ∧ (etcdRun calls js).2.Holds scope owner epoch) →
      Unpassed calls is i scope := by
    rintro ⟨js, ⟨rest, rfl⟩, hthen, hunder⟩
    obtain ⟨g, hlast, howner, hg⟩ := (inv_etcdRun calls js).holder_granted hthen
    have hkept := ((grows_etcdRun calls js rest).grants scope).subset (Etcd.lastGrant_mem hlast)
    rw [Etcd.storedEpoch_eq hinv] at hepoch
    cases hfinal : (etcdRun calls (js ++ rest)).2.lastGrant scope with
    | none =>
      rw [Etcd.lastGrant, List.getLast?_eq_none_iff] at hfinal
      rw [hfinal] at hkept
      exact absurd hkept List.not_mem_nil
    | some g' =>
      rw [hfinal] at hepoch
      have hsame : g'.epoch = g.epoch := by
        rw [hg, hunder]
        exact hepoch
      have hgrant := hinv.grant_eq (Etcd.lastGrant_mem hfinal) hkept hsame
      rw [Unpassed, hholder, hfinal, hgrant, ← howner]
      rfl
  refine ⟨⟨?_, hmeanwhile⟩, ⟨hunpassed, ?_⟩⟩
  · rintro ⟨js, -, hjs, hholds⟩
    exact hunpassed ⟨js, hjs, hholds⟩
  · intro h'
    obtain ⟨js, -, hjs, hholds⟩ := hmeanwhile h'
    exact ⟨js, hjs, hholds⟩

/-- Node 1 claims the server, somebody looks its owner up, node 1 releases it, node 2 claims it. -/
def takeover : List EtcdCall :=
  [.claim 7 (.server ⟨1, 1⟩) 1, .ownerOf (.server ⟨1, 1⟩), .release (.server ⟨1, 1⟩) 1,
    .claim 8 (.server ⟨1, 1⟩) 2]

/-- Where nobody interferes, node 1 is read under its epoch. -/
theorem owner_in_force_quiet : HeldMeanwhile takeover [0, 0, 0, 1] 1 (.server ⟨1, 1⟩) 1 1 := by
  have h : Answers takeover [0, 0, 0, 1] 1 (.server ⟨1, 1⟩) 1 1 := by
    refine ⟨rfl, ?_, rfl⟩
    intro a ha
    cases ha
  exact (owner_in_force h).1.2 rfl

/-- The steps of the takeover between the two gets of the lookup. -/
def takeoverSteps : List Nat := [0, 0, 0, 1, 2, 3, 3, 3]

/-- With the takeover in between, the lookup answers node 1 under the epoch of node 2. -/
theorem owner_torn : ¬ ∀ calls is i scope owner epoch, Answers calls is i scope owner epoch →
    HeldMeanwhile calls is i scope owner epoch := by
  intro hall
  have h : Answers takeover takeoverSteps 1 (.server ⟨1, 1⟩) 1 2 := by
    refine ⟨rfl, ?_, rfl⟩
    intro a ha
    cases ha
  obtain ⟨js, -, hjs, hholds⟩ := hall _ _ _ _ _ _ h
  have hnever : ∀ js ∈ takeoverSteps.inits,
      ¬ (etcdRun takeover js).2.Holds (.server ⟨1, 1⟩) 1 2 := by decide
  exact hnever js ((List.mem_inits _ _).2 hjs) hholds

end Democrachat.Federation
