import Democrachat.Federation.Grants

/-!
# Exclusive claims

Any number of nodes claim, release and look up scopes in etcd, their leases run out when they
will, and calls fail before or after they have reached etcd.
-/

namespace Democrachat.Federation

open Library

/-- Everybody's calls of an etcd that was empty, after these steps. -/
def etcdRun (calls : List EtcdCall) (is : List Nat) : List (Prog Etcd EtcdAnswer) × Etcd :=
  Prog.schedule is (calls.map EtcdCall.prog, Etcd.empty)

/-- Call `i` has been answered that the node has the scope. -/
def Claimed (c : List (Prog Etcd EtcdAnswer) × Etcd) (i : Nat) (scope : OwnedScope) (node : NodeId)
    (epoch : Nat) : Prop :=
  c.1[i]? = some (.ret (.claim scope node (.ok (.claimed epoch))))

/-- And it still has. -/
structure InForce (c : List (Prog Etcd EtcdAnswer) × Etcd) (i : Nat) (scope : OwnedScope)
    (node : NodeId) (epoch : Nat) : Prop where
  claimed : Claimed c i scope node epoch
  holder : c.2.storedHolder scope = some node
  epoch : c.2.storedEpoch scope = epoch

theorem etcdRun_append (calls : List EtcdCall) (is js : List Nat) :
    etcdRun calls (is ++ js) = Prog.schedule js (etcdRun calls is) :=
  Prog.schedule_append is js _

theorem etcdRun_concat (calls : List EtcdCall) (is : List Nat) (i : Nat) :
    etcdRun calls (is ++ [i]) = Prog.tick (etcdRun calls is) i :=
  etcdRun_append calls is [i]

theorem committing_etcdRun (calls : List EtcdCall) (is : List Nat) :
    Prog.Committing Etcd.Leads Told (etcdRun calls is) :=
  (Prog.Committing.schedule Etcd.Leads.refl Etcd.Leads.trans (committing_calls calls) is).2

theorem inv_etcdRun (calls : List EtcdCall) (is : List Nat) : (etcdRun calls is).2.Inv :=
  ((Prog.Committing.schedule Etcd.Leads.refl Etcd.Leads.trans (committing_calls calls) is).1
    Etcd.inv_empty).inv

/-- From any instant of a run to a later one. -/
theorem grows_etcdRun (calls : List EtcdCall) (is js : List Nat) :
    (etcdRun calls is).2.Grows (etcdRun calls (is ++ js)).2 := by
  rw [etcdRun_append]
  have hlater := Prog.Committing.schedule Etcd.Leads.refl Etcd.Leads.trans
    (committing_etcdRun calls is) js
  exact hlater.1 (inv_etcdRun calls is)

namespace Etcd

theorem Grows.grants {s t : Etcd} (h : s.Grows t) (scope : OwnedScope) :
    s.grants scope <+: t.grants scope :=
  h.granted.filter _

/-- The stored epoch never falls. -/
theorem Grows.storedEpoch_le {s t : Etcd} (h : s.Grows t) (hs : s.Inv) (scope : OwnedScope) :
    s.storedEpoch scope ≤ t.storedEpoch scope := by
  rw [storedEpoch_eq hs]
  cases hlast : s.lastGrant scope with
  | none => exact Nat.zero_le _
  | some g => exact epoch_le_stored h.inv ((h.grants scope).subset (lastGrant_mem hlast))

/-- Whoever holds a scope got its last grant, under the stored epoch. -/
theorem Inv.holder_granted {s : Etcd} (hs : s.Inv) {scope : OwnedScope} {node : NodeId}
    (h : s.storedHolder scope = some node) :
    ∃ g, s.lastGrant scope = some g ∧ g.owner = node ∧ g.epoch = s.storedEpoch scope := by
  obtain ⟨e, hentry, -⟩ := Option.bind_eq_some_iff.1 h
  obtain ⟨g, hlast, hholder⟩ := storedHolder_eq hs hentry
  refine ⟨g, hlast, Option.some.inj (hholder.symm.trans h), ?_⟩
  rw [storedEpoch_eq hs, hlast]
  rfl

end Etcd

/-- A claim that is answered has just been granted the next epoch. -/
theorem claimed_step {calls : List EtcdCall} {is : List Nat} {i : Nat} {p : Prog Etcd EtcdAnswer}
    {scope : OwnedScope} {node : NodeId} {epoch : Nat} (hp : (etcdRun calls is).1[i]? = some p)
    (hopen : p.isDone = false) (h : Claimed (etcdRun calls (is ++ [i])) i scope node epoch) :
    epoch = (etcdRun calls is).2.storedEpoch scope + 1 ∧
      ∃ lease, (etcdRun calls (is ++ [i])).2 =
        (etcdRun calls is).2.grant lease ⟨scope, node, epoch⟩ := by
  rw [etcdRun_concat] at h ⊢
  have htick := Prog.Committing.tick Etcd.Leads.refl Etcd.Leads.trans
    (committing_etcdRun calls is) i
  exact htick.2.2 p _ hp hopen h

/-- What has been answered lies behind, and every answer is another epoch. -/
structure Distinct (c : List (Prog Etcd EtcdAnswer) × Etcd) (scope : OwnedScope) : Prop where
  le : ∀ i node epoch, Claimed c i scope node epoch → epoch ≤ c.2.storedEpoch scope
  unique : ∀ i j node node' epoch, Claimed c i scope node epoch → Claimed c j scope node' epoch →
    i = j

theorem distinct_etcdRun (calls : List EtcdCall) (scope : OwnedScope) (is : List Nat) :
    Distinct (etcdRun calls is) scope := by
  -- By the steps made so far; a step that answers is granted an epoch above all answered ones.
  induction is using List.reverseRecOn with
  | nil =>
    have hnone : ∀ i node epoch, ¬ Claimed (etcdRun calls []) i scope node epoch := by
      intro i node epoch h
      obtain ⟨call, -, hret⟩ := List.mem_map.1 (List.mem_of_getElem? h)
      cases call with
      | _ => cases hret
    exact ⟨fun i node epoch h => absurd h (hnone i node epoch),
      fun i _ node _ epoch h => absurd h (hnone i node epoch)⟩
  | append_singleton is i ih =>
    have hmono := (grows_etcdRun calls is [i]).storedEpoch_le (inv_etcdRun calls is) scope
    have hcases : ∀ j node epoch, Claimed (etcdRun calls (is ++ [i])) j scope node epoch →
        Claimed (etcdRun calls is) j scope node epoch ∨
          j = i ∧ epoch = (etcdRun calls is).2.storedEpoch scope + 1 ∧
            epoch = (etcdRun calls (is ++ [i])).2.storedEpoch scope := by
      intro j node epoch h
      by_cases hj : j = i
      · subst hj
        have hbound : j < (etcdRun calls is).1.length := by
          have hlt := (List.getElem?_eq_some_iff.1 h).1
          rwa [etcdRun_concat, Prog.length_tick] at hlt
        have hp : (etcdRun calls is).1[j]? = some (etcdRun calls is).1[j] :=
          List.getElem?_eq_getElem hbound
        cases hopen : ((etcdRun calls is).1[j]).isDone with
        | true =>
          left
          obtain ⟨a, ha⟩ : ∃ a, (etcdRun calls is).1[j] = .ret a := by
            cases hq : (etcdRun calls is).1[j] with
            | ret a => exact ⟨a, rfl⟩
            | step w k =>
              rw [hq] at hopen
              cases hopen
          rw [ha] at hp
          have hkept := Prog.getElem?_tick_of_ret (i := j) hp
          unfold Claimed at h
          rw [etcdRun_concat, hkept] at h
          rw [Claimed, hp, h]
        | false =>
          right
          obtain ⟨hepoch, lease, hgrant⟩ := claimed_step hp hopen h
          refine ⟨rfl, hepoch, ?_⟩
          have hinv := inv_etcdRun calls (is ++ [j])
          rw [Etcd.storedEpoch_eq hinv, hgrant, Etcd.lastGrant_grant, if_pos rfl]
          rfl
      · left
        unfold Claimed at h
        rwa [etcdRun_concat, Prog.getElem?_tick_of_ne hj] at h
    constructor
    · intro j node epoch h
      rcases hcases j node epoch h with hold | ⟨-, -, hnow⟩
      · exact (ih.le j node epoch hold).trans hmono
      · exact hnow.le
    · intro j k node node' epoch hj hk
      rcases hcases j node epoch hj with holdj | ⟨rfl, hnextj, -⟩
      · rcases hcases k node' epoch hk with holdk | ⟨rfl, hnextk, -⟩
        · exact ih.unique j k node node' epoch holdj holdk
        · have hle := ih.le j node epoch holdj
          omega
      · rcases hcases k node' epoch hk with holdk | ⟨rfl, -, -⟩
        · have hle := ih.le k node' epoch holdk
          omega
        · rfl

/-- Whoever holds a scope got the last grant of it; no two claims hold it at once, nor were ever
answered with the same epoch; the stored epoch never falls; and a claim that is answered has been
granted an epoch above all that were ever granted for the scope. -/
theorem claims_exclusive (calls : List EtcdCall) (scope : OwnedScope) (is : List Nat) :
    (∀ node, (etcdRun calls is).2.storedHolder scope = some node →
      ∃ g, (etcdRun calls is).2.lastGrant scope = some g ∧ g.owner = node ∧
        g.epoch = (etcdRun calls is).2.storedEpoch scope) ∧
    (∀ i j node node' epoch epoch', InForce (etcdRun calls is) i scope node epoch →
      InForce (etcdRun calls is) j scope node' epoch' → i = j) ∧
    (∀ i j node node' epoch, Claimed (etcdRun calls is) i scope node epoch →
      Claimed (etcdRun calls is) j scope node' epoch → i = j) ∧
    (∀ js, js <+: is →
      (etcdRun calls js).2.storedEpoch scope ≤ (etcdRun calls is).2.storedEpoch scope) ∧
    (∀ i p node epoch, (etcdRun calls is).1[i]? = some p → p.isDone = false →
      Claimed (etcdRun calls (is ++ [i])) i scope node epoch →
        (∀ g ∈ (etcdRun calls is).2.grants scope, g.epoch < epoch) ∧
        InForce (etcdRun calls (is ++ [i])) i scope node epoch ∧
        (etcdRun calls (is ++ [i])).2.granted =
          (etcdRun calls is).2.granted ++ [⟨scope, node, epoch⟩]) := by
  have hdistinct := distinct_etcdRun calls scope is
  refine ⟨?_, ?_, hdistinct.unique, ?_, ?_⟩
  · exact fun node => (inv_etcdRun calls is).holder_granted
  · intro i j node node' epoch epoch' hi hj
    obtain rfl : epoch = epoch' := hi.epoch.symm.trans hj.epoch
    exact hdistinct.unique i j node node' epoch hi.claimed hj.claimed
  · rintro js ⟨rest, rfl⟩
    exact (grows_etcdRun calls js rest).storedEpoch_le (inv_etcdRun calls js) scope
  · intro i p node epoch hp hopen h
    obtain ⟨hepoch, lease, hgrant⟩ := claimed_step hp hopen h
    refine ⟨?_, ⟨h, ?_, ?_⟩, ?_⟩
    · intro g hg
      have hle := Etcd.epoch_le_stored (inv_etcdRun calls is) hg
      omega
    · rw [hgrant]
      exact Etcd.storedHolder_grant
    · rw [Etcd.storedEpoch_eq (inv_etcdRun calls (is ++ [i])), hgrant, Etcd.lastGrant_grant,
        if_pos rfl]
      rfl
    · rw [hgrant]
      rfl

end Democrachat.Federation
