import Democrachat.Library.RelyGuarantee
import Democrachat.Properties.RateCap

/-!
# The rate cap under simultaneous requests

`try_enfranchise` reads the counts and writes the new citizen in separate
accesses to the store, so a burst of requests may all see the same open slot.
-/

namespace Democrachat

open Library Prog

/-! ## A burst -/

/-- The membership of a user who may ask to be let in: no citizen yet, and every
criterion met. -/
def contender? (w : World) (serverSlug handle : String) : Option Membership :=
  match w.store.findByHandle (trim handle), w.store.findBySlug (trim serverSlug) with
  | some user, some server =>
    (w.store.getMembership user.id server.id).filter fun m =>
      !m.isCitizen && (evaluateEligibility user m server.criteria w.now).isEligible
  | _, _ => none

/-- The handles name distinct eligible members. -/
structure Contenders (w : World) (serverSlug : String) (handles : List String) : Prop where
  each : ∀ handle ∈ handles, (contender? w serverSlug handle).isSome = true
  distinct : handles.Pairwise fun h h' =>
    w.store.findByHandle (trim h) ≠ w.store.findByHandle (trim h')

instance (w : World) (serverSlug : String) (handles : List String) :
    Decidable (Contenders w serverSlug handles) :=
  decidable_of_iff ((∀ handle ∈ handles, (contender? w serverSlug handle).isSome = true) ∧
      handles.Pairwise fun h h' => w.store.findByHandle (trim h) ≠ w.store.findByHandle (trim h'))
    ⟨fun h => ⟨h.1, h.2⟩, fun h => ⟨h.each, h.distinct⟩⟩

abbrev EnfranchiseResult := Except EnfranchiseError EnfranchiseOutcome

def wasAdmitted : EnfranchiseResult → Bool
  | .ok .admitted => true
  | _ => false

/-- The number of requests that end `Admitted`. -/
def admissions (results : List EnfranchiseResult) : Nat := results.countP wasAdmitted

def burst (serverSlug : String) (handles : List String) : List (Prog World EnfranchiseResult) :=
  handles.map fun handle => (tryEnfranchise handle serverSlug).run

/-- No complete interleaving lets in more than the requests one after another. -/
def BurstKeepsCap (w : World) (serverSlug : String) (handles : List String) : Prop :=
  ∀ is, finished (schedule is (burst serverSlug handles, w)) = true →
    admissions (answers (schedule is (burst serverSlug handles, w))) ≤
      admissions (runAll (burst serverSlug handles) w).1

theorem contender?_eq_some {w : World} {serverSlug handle : String} {server : Server}
    (hserver : w.store.findBySlug (trim serverSlug) = some server)
    (h : (contender? w serverSlug handle).isSome = true) :
    ∃ user m, Contends w handle serverSlug user server m := by
  unfold contender? at h
  rw [hserver] at h
  cases huser : w.store.findByHandle (trim handle) with
  | none => simp [huser] at h
  | some user =>
    rw [huser, Option.isSome_filter, Option.any_eq_true] at h
    obtain ⟨m, hm, hmay⟩ := h
    simp only [Bool.and_eq_true, Bool.not_eq_true'] at hmay
    refine ⟨user, m, huser, hserver, hm, hmay.1, ?_⟩
    simpa [Eligibility.isEligible, List.isEmpty_iff] using hmay.2

theorem Contends.contender? {w : World} {handle serverSlug : String} {user : User}
    {server : Server} {m : Membership} (h : Contends w handle serverSlug user server m) :
    (contender? w serverSlug handle).isSome = true := by
  have hm : w.store.getMembership user.id server.id = some m := h.memberFound
  simp [Democrachat.contender?, h.userFound, h.serverFound, hm, h.notCitizen, h.eligible,
    Eligibility.isEligible]

/-! ## One request -/

/-- What is left of a contender's request once it has read everything. -/
def admission (w : World) (server : Server) (m : Membership) : Prog World EnfranchiseResult :=
  if enfranchisementSlots (w.store.citizenCount server.id)
      (w.store.admittedSince server.id (windowStart w.now)) = 0 then
    .ret (.ok (.rateCapped (w.store.admittedSince server.id (windowStart w.now))))
  else
    .step (fun v => v.mapStore (·.upsertMembership (m.admittedAt w.now)))
      (fun _ => .ret (.ok .admitted))

section Reads

variable {w : World} {α β ε : Type}

theorem reads_ask {k : α → Req World ε β} {q : Prog World (Except ε β)} (f : Inner → α)
    (h : Reads w (k (f w.store)).run q) :
    Reads w ((liftM (ask f) : Req World ε α) >>= k).run q :=
  .step rfl h

theorem reads_clockNow {k : Timestamp → Req World ε β} {q : Prog World (Except ε β)}
    (h : Reads w (k w.now).run q) :
    Reads w ((liftM clockNow : Req World ε Timestamp) >>= k).run q :=
  .step rfl h

theorem reads_okOr {k : α → Req World ε β} {q : Prog World (Except ε β)} {o : Option α} {a : α}
    (e : ε) (ho : o = some a) (h : Reads w (k a).run q) :
    Reads w (Req.okOr o e >>= k).run q := by
  subst ho
  exact h

theorem reads_ensure {k : Unit → Req World ε β} {q : Prog World (Except ε β)} {c : Bool} (e : ε)
    (hc : c = true) (h : Reads w (k ()).run q) : Reads w (Req.ensure c e >>= k).run q := by
  subst hc
  exact h

end Reads

theorem reads_tryEnfranchise {w : World} {handle serverSlug : String} {user : User}
    {server : Server} {m : Membership} (h : Contends w handle serverSlug user server m) :
    Reads w (tryEnfranchise handle serverSlug).run (admission w server m) := by
  have hcitizen : (!m.isCitizen) = true := by simp [h.notCitizen]
  have heligible : (!(evaluateEligibility user m server.criteria w.now).isEligible) ≠ true := by
    simp [Eligibility.isEligible, h.eligible]
  refine reads_ask _ (reads_okOr _ h.userFound (reads_ask _ (reads_okOr _ h.serverFound
    (reads_ask _ (reads_okOr _ h.memberFound (reads_ensure _ hcitizen (reads_clockNow ?_)))))))
  simp only [if_neg heligible]
  refine reads_ask _ (reads_ask _ ?_)
  unfold admission
  split
  next => exact .refl _
  next => exact .refl _

/-! ## The requests one after another -/

/-- The world after a contender was let in. -/
def admittedWorld (w : World) (m : Membership) : World :=
  w.mapStore (·.upsertMembership (m.admittedAt w.now))

section Sequence

variable {w : World} {handle serverSlug : String} {user : User} {server : Server} {m : Membership}

/-- The others still contend after one of them was let in. -/
theorem Contenders.tail {handles : List String} (hc : Contenders w serverSlug (handle :: handles))
    (h : Contends w handle serverSlug user server m) :
    Contenders (admittedWorld w m) serverSlug handles := by
  obtain ⟨hdistinct, htail⟩ := List.pairwise_cons.1 hc.distinct
  refine ⟨fun handle' hmem => ?_, htail⟩
  obtain ⟨user', m', h'⟩ :=
    contender?_eq_some h.serverFound (hc.each handle' (List.mem_cons_of_mem _ hmem))
  have hid : user'.id ≠ user.id := by
    intro hid
    have hrow := Table.mem_iff.1 (List.mem_of_find?_eq_some h.userFound)
    have hrow' := Table.mem_iff.1 (List.mem_of_find?_eq_some h'.userFound)
    rw [hid, hrow] at hrow'
    apply hdistinct handle' hmem
    rw [h.userFound, h'.userFound, hrow']
  have hkey : toLex (user'.id, server.id) ≠ (m.admittedAt w.now).key := by
    intro hkey
    have hids := Membership.key_eq.1 hkey.symm
    have huser := (w.polity.member_userId server.id h.memberFound).1
    exact hid (hids.1.symm.trans huser)
  have hmember : (admittedWorld w m).store.getMembership user'.id server.id = some m' :=
    (Table.get_insert_of_ne w.store.memberships hkey).trans h'.memberFound
  exact Contends.contender? ⟨h'.userFound, h'.serverFound, hmember, h'.notCitizen, h'.eligible⟩

theorem dated_admittedWorld (hd : Dated w.polity.roster) :
    Dated (admittedWorld w m).polity.roster :=
  hd.insert rfl

variable (hd : Dated w.polity.roster) (h : Contends w handle serverSlug user server m)
include hd h

/-- Letting a contender in raises the dates of the server by one: today's. -/
theorem dates_admittedWorld :
    (admittedWorld w m).polity.roster.dates server.id =
      w.now.secs ::ₘ w.polity.roster.dates server.id := by
  have hm := roster_get_of_getMembership h.memberFound
  have hserver := (w.polity.member_userId server.id h.memberFound).2
  have hundated : m.enfranchisedAt = none := by
    have hdated := hd m (Table.mem_of_get hm)
    rw [h.notCitizen] at hdated
    simpa using hdated.symm
  have hold : ∀ u, w.polity.roster.get (m.admittedAt w.now).key = some u →
      u.enfranchisedAt = none := by
    intro u hu
    obtain rfl := Option.some.inj (hm.symm.trans hu)
    exact hundated
  exact (dates_insert server.id rfl hold).trans (if_pos hserver)

theorem citizenCount_admittedWorld :
    (admittedWorld w m).store.citizenCount server.id = w.store.citizenCount server.id + 1 := by
  have hbefore := citizenCount_eq server.id hd
  have hafter := citizenCount_eq server.id (dated_admittedWorld (m := m) hd)
  rw [dates_admittedWorld hd h, Multiset.card_cons, ← hbefore] at hafter
  exact hafter

theorem admittedSince_admittedWorld :
    (admittedWorld w m).store.admittedSince server.id (windowStart w.now) =
      w.store.admittedSince server.id (windowStart w.now) + 1 := by
  have hbefore := admittedSince_eq (r := w.polity.roster) server.id (windowStart w.now)
  have hafter :=
    admittedSince_eq (r := (admittedWorld w m).polity.roster) server.id (windowStart w.now)
  have htoday : (windowStart w.now).secs ≤ w.now.secs := by
    simp only [windowStart, rateCapWindowDays, Timestamp.secondsPerDay]
    omega
  rw [dates_admittedWorld hd h, Multiset.countP_cons_of_pos _ htoday, ← hbefore] at hafter
  exact hafter

end Sequence

/-- One more citizen never opens a slot that one more admission does not take. -/
theorem enfranchisementSlots_antitone {citizens admitted j k : Nat} (hjk : j ≤ k)
    (h : enfranchisementSlots (citizens + k) (admitted + k) ≠ 0) :
    enfranchisementSlots (citizens + j) (admitted + j) ≠ 0 := by
  simp only [enfranchisementSlots, saturatingAdd, saturatingMul] at h ⊢
  generalize u64Max = top at h ⊢
  omega

section Exec

variable {w : World} {handle serverSlug : String} {user : User} {server : Server} {m : Membership}
  (h : Contends w handle serverSlug user server m)
include h

theorem exec_tryEnfranchise_full (hslots : enfranchisementSlots (w.store.citizenCount server.id)
      (w.store.admittedSince server.id (windowStart w.now)) = 0) :
    (tryEnfranchise handle serverSlug).run.exec w =
      (.ok (.rateCapped (w.store.admittedSince server.id (windowStart w.now))), w) := by
  rw [(reads_tryEnfranchise h).exec, admission, if_pos hslots, exec_ret]

theorem exec_tryEnfranchise_open (hslots : enfranchisementSlots (w.store.citizenCount server.id)
      (w.store.admittedSince server.id (windowStart w.now)) ≠ 0) :
    (tryEnfranchise handle serverSlug).run.exec w = (.ok .admitted, admittedWorld w m) := by
  rw [(reads_tryEnfranchise h).exec, admission, if_neg hslots]
  rfl

end Exec

theorem admissions_cons_admitted (results : List EnfranchiseResult) :
    admissions (.ok .admitted :: results) = admissions results + 1 :=
  List.countP_cons_of_pos rfl

theorem admissions_cons_rateCapped (admitted : Nat) (results : List EnfranchiseResult) :
    admissions (.ok (.rateCapped admitted) :: results) = admissions results :=
  List.countP_cons_of_neg (by simp [wasAdmitted])

theorem admissions_le (results : List EnfranchiseResult) : admissions results ≤ results.length :=
  List.countP_le_length

theorem admissions_runAll_le (w : World) (serverSlug : String) (handles : List String) :
    admissions (runAll (burst serverSlug handles) w).1 ≤ handles.length := by
  have hle := admissions_le (runAll (burst serverSlug handles) w).1
  rwa [length_runAll, burst, List.length_map] at hle

/-- Everybody gets in exactly when the last one still finds a slot. -/
theorem admissions_runAll {w : World} {serverSlug : String} {server : Server}
    (hd : Dated w.polity.roster) (hserver : w.store.findBySlug (trim serverSlug) = some server)
    {handles : List String} (hc : Contenders w serverSlug handles) :
    admissions (runAll (burst serverSlug handles) w).1 = handles.length ↔
      handles = [] ∨
      enfranchisementSlots (w.store.citizenCount server.id + (handles.length - 1))
        (w.store.admittedSince server.id (windowStart w.now) + (handles.length - 1)) ≠ 0 := by
  induction handles generalizing w with
  | nil => exact ⟨fun _ => .inl rfl, fun _ => rfl⟩
  | cons handle handles ih =>
    obtain ⟨user, m, h⟩ := contender?_eq_some hserver (hc.each handle List.mem_cons_self)
    have hburst : runAll (burst serverSlug (handle :: handles)) w =
        runAll ((tryEnfranchise handle serverSlug).run :: burst serverSlug handles) w := rfl
    rw [hburst, runAll_cons, List.length_cons, Nat.add_sub_cancel]
    by_cases hslots : enfranchisementSlots (w.store.citizenCount server.id)
        (w.store.admittedSince server.id (windowStart w.now)) = 0
    · -- The first is turned away, so it is not all of them.
      have hle := admissions_runAll_le w serverSlug handles
      rw [exec_tryEnfranchise_full h hslots, admissions_cons_rateCapped]
      change admissions (runAll (burst serverSlug handles) w).1 = _ ↔ _
      constructor
      · intro hall
        omega
      · rintro (hnil | hlast)
        · cases hnil
        · have hfirst := enfranchisementSlots_antitone (j := 0) (Nat.zero_le _) hlast
          rw [Nat.add_zero, Nat.add_zero] at hfirst
          exact absurd hslots hfirst
    · have hrest := ih (dated_admittedWorld hd) h.serverFound (hc.tail h)
      have hsince : (admittedWorld w m).store.admittedSince server.id
          (windowStart (admittedWorld w m).now) = _ := admittedSince_admittedWorld hd h
      rw [citizenCount_admittedWorld hd h, hsince] at hrest
      rw [exec_tryEnfranchise_open h hslots, admissions_cons_admitted, Nat.add_right_cancel_iff,
        hrest]
      cases handles with
      | nil => exact ⟨fun _ => .inr hslots, fun _ => .inl rfl⟩
      | cons handle' handles =>
        have hshift : ∀ n : Nat, n + 1 + handles.length = n + (handles.length + 1) := by
          intro n
          omega
        rw [List.length_cons, Nat.add_sub_cancel, hshift, hshift]
        simp only [reduceCtorEq, false_or]

/-! ## Bursts -/

section Burst

variable {w : World} {serverSlug : String} {server : Server} {handles : List String}

/-- Where a slot is open, everybody may see it before anybody takes it. -/
theorem burst_overshoots (hserver : w.store.findBySlug (trim serverSlug) = some server)
    (hc : Contenders w serverSlug handles)
    (hslots : enfranchisementSlots (w.store.citizenCount server.id)
      (w.store.admittedSince server.id (windowStart w.now)) ≠ 0) :
    ∃ is, finished (schedule is (burst serverSlug handles, w)) = true ∧
      admissions (answers (schedule is (burst serverSlug handles, w))) = handles.length := by
  have hreads : ∀ handles : List String,
      (∀ handle ∈ handles, (contender? w serverSlug handle).isSome = true) →
      ∃ qs, List.Forall₂ (Reads w) (burst serverSlug handles) qs ∧
        ∀ v, admissions (runAll qs v).1 = handles.length := by
    intro handles heach
    induction handles with
    | nil => exact ⟨[], .nil, fun _ => rfl⟩
    | cons handle handles ih =>
      obtain ⟨qs, hqs, hall⟩ := ih (fun h hmem => heach h (List.mem_cons_of_mem _ hmem))
      obtain ⟨user, m, h⟩ := contender?_eq_some hserver (heach handle List.mem_cons_self)
      refine ⟨_, .cons (reads_tryEnfranchise h) hqs, fun v => ?_⟩
      rw [runAll_cons, admission, if_neg hslots, exec_step, exec_ret, admissions_cons_admitted,
        hall, List.length_cons]
  obtain ⟨qs, hqs, hall⟩ := hreads handles hc.each
  obtain ⟨is, his⟩ := CanReach.burst hqs
  refine ⟨is, ?_, ?_⟩
  · rw [his]
    exact finished_map_ret _ _
  · rw [his, answers_map_ret, hall]

/-- Where none is open, nobody writes anything. -/
theorem burst_turned_away (hserver : w.store.findBySlug (trim serverSlug) = some server)
    (hc : Contenders w serverSlug handles)
    (hslots : enfranchisementSlots (w.store.citizenCount server.id)
      (w.store.admittedSince server.id (windowStart w.now)) = 0) (is : List Nat) :
    admissions (answers (schedule is (burst serverSlug handles, w))) = 0 := by
  have hsafe : ∀ p ∈ burst serverSlug handles,
      Safe (fun s t => s = t) (fun result _ => wasAdmitted result = false) p w := by
    intro p hp
    obtain ⟨handle, hmem, rfl⟩ := List.mem_map.1 hp
    obtain ⟨user, m, h⟩ := contender?_eq_some hserver (hc.each handle hmem)
    have hreads := reads_tryEnfranchise h
    rw [admission, if_pos hslots] at hreads
    exact hreads.safe rfl
  have hanswers := Safe.answers (fun _ => rfl) (fun _ _ _ => Eq.trans)
    (c := (burst serverSlug handles, w)) hsafe is
  rw [admissions, List.countP_eq_zero]
  intro result hresult
  simp [hanswers result hresult]

end Burst

/-- A burst of simultaneous requests lets in no more members than the same
requests one after another exactly when no slot is open at all or the cap,
growing with the roll, leaves a slot even for the last of them. -/
theorem burst_keeps_cap_iff {services : Services} {w : World} (hw : services.Reachable w)
    {serverSlug : String} {server : Server}
    (hserver : w.store.findBySlug (trim serverSlug) = some server)
    {handles : List String} (hc : Contenders w serverSlug handles) :
    BurstKeepsCap w serverSlug handles ↔
      handles = [] ∨
      enfranchisementSlots (w.store.citizenCount server.id)
        (w.store.admittedSince server.id (windowStart w.now)) = 0 ∨
      enfranchisementSlots (w.store.citizenCount server.id + (handles.length - 1))
        (w.store.admittedSince server.id (windowStart w.now) + (handles.length - 1)) ≠ 0 := by
  have hall := admissions_runAll hw.dated hserver hc
  constructor
  · intro hkeeps
    by_cases hslots : enfranchisementSlots (w.store.citizenCount server.id)
        (w.store.admittedSince server.id (windowStart w.now)) = 0
    · exact .inr (.inl hslots)
    · obtain ⟨is, hfinished, hcount⟩ := burst_overshoots hserver hc hslots
      have hle := hkeeps is hfinished
      have hbound := admissions_runAll_le w serverSlug handles
      rw [hcount] at hle
      rcases hall.1 (le_antisymm hbound hle) with hnil | hlast
      · exact .inl hnil
      · exact .inr (.inr hlast)
  · intro hcase is _
    have hle := admissions_le (answers (schedule is (burst serverSlug handles, w)))
    have hlength := length_answers_le (schedule is (burst serverSlug handles, w))
    rw [length_schedule, burst, List.length_map] at hlength
    by_cases hslots : enfranchisementSlots (w.store.citizenCount server.id)
        (w.store.admittedSince server.id (windowStart w.now)) = 0
    · rw [burst_turned_away hserver hc hslots is]
      exact Nat.zero_le _
    · have hopen : handles = [] ∨ _ ≠ 0 := hcase.imp_right (fun h => h.resolve_left hslots)
      rw [hall.2 hopen]
      exact hle.trans hlength

theorem burst_keeps_cap_pair : BurstKeepsCap (Agora.settled ["a", "b"]) "agora" ["a", "b"] := by
  have hserver : (Agora.settled ["a", "b"]).store.findBySlug (trim "agora") = some Agora.server := by
    decide +kernel
  have hcontenders : Contenders (Agora.settled ["a", "b"]) "agora" ["a", "b"] := by
    decide +kernel
  have hiff := burst_keeps_cap_iff (Agora.settled_reachable ["a", "b"]) hserver hcontenders
  exact hiff.2 (.inr (.inr (by decide +kernel)))

/-- Six members may ask at once, five slots are open: in sequence the sixth is
turned away, and when all six read before the first of them writes, all six get in. -/
theorem burst_breaks_cap :
    Agora.services.Reachable (Agora.settled ["a", "b", "c", "d", "e", "f"]) ∧
    Contenders (Agora.settled ["a", "b", "c", "d", "e", "f"]) "agora" ["a", "b", "c", "d", "e", "f"] ∧
    ¬ BurstKeepsCap (Agora.settled ["a", "b", "c", "d", "e", "f"]) "agora"
      ["a", "b", "c", "d", "e", "f"] := by
  refine ⟨Agora.settled_reachable _, by decide +kernel, fun hkeeps => ?_⟩
  have hle := hkeeps ((List.range 6).flatMap (fun i => List.replicate 6 i) ++ List.range 6)
    (by decide +kernel)
  revert hle
  decide +kernel

end Democrachat
