import Democrachat.Properties.Forwarders
import Democrachat.Properties.Minting
import Democrachat.Properties.Unauthentic
import Democrachat.Web.Auth

/-!
# Acting as one's own account

A session names an account by its id, and the use-cases are told the handle that the account has
now and look for an account of that handle.  The way back is sure as long as every row that puts
an account into the store finds its handle free there.
-/

namespace Democrachat

open Library

/-! ## Handles -/

namespace Inner

/-- `find_by_handle` goes through the accounts in the order of a hash map, which may be any. -/
def Finds (s : Inner) (handle : String) (found : Option User) : Prop :=
  ∃ users : List User, users.Perm s.users.rows ∧ users.find? (fun u => u.handle == handle) = found

/-- Every use-case that is told the handle trims it, and finds the account. -/
def Resolves (s : Inner) (handle : String) (uid : UserId) : Prop :=
  ∀ found, s.Finds (trim handle) found → found.map (·.id) = some uid

/-- The handle of the account is as trimming leaves it, and no other account has it. -/
def Free (s : Inner) (user : User) : Prop :=
  trim user.handle = user.handle ∧ ∀ v ∈ s.users.rows, v.handle = user.handle → v.id = user.id

/-- The handles of the accounts tell them apart. -/
def ToldApart (s : Inner) : Prop := ∀ user ∈ s.users.rows, s.Free user

/-- Whoever a live session acts as is the account that the session names. -/
def SessionsOwn (s : Inner) : Prop :=
  ∀ w : World, w.store = s → ∀ (session : UserSession) (handle : String),
    session.actor w = some handle → s.Resolves handle session.uid

/-- One of the orders is that of the ids. -/
theorem finds_findByHandle (s : Inner) (handle : String) : s.Finds handle (s.findByHandle handle) :=
  ⟨s.users.rows, List.Perm.refl _, rfl⟩

theorem resolves_of_toldApart {s : Inner} (h : s.ToldApart) {user : User}
    (huser : user ∈ s.users.rows) : s.Resolves user.handle user.id := by
  obtain ⟨htrim, honly⟩ := h user huser
  rintro found ⟨users, hperm, hfind⟩
  rw [htrim] at hfind
  cases found with
  | none =>
    have hmiss := List.find?_eq_none.1 hfind user (hperm.mem_iff.2 huser)
    simp at hmiss
  | some v =>
    have hhandle : v.handle = user.handle := by simpa using List.find?_some hfind
    have hv : v ∈ s.users.rows := hperm.mem_iff.1 (List.mem_of_find?_eq_some hfind)
    rw [Option.map_some, honly v hv hhandle]

/-- Some order begins with any other account of the handle. -/
theorem free_of_resolves {s : Inner} {user : User} (huser : user ∈ s.users.rows)
    (h : s.Resolves user.handle user.id) : s.Free user := by
  have htrim : trim user.handle = user.handle := by
    have hfound := h _ (s.finds_findByHandle (trim user.handle))
    obtain ⟨v, hfind, hid⟩ := Option.map_eq_some_iff.1 hfound
    have hv : v ∈ s.users.rows := List.mem_of_find?_eq_some hfind
    have hhandle : v.handle = trim user.handle := by simpa using List.find?_some hfind
    rw [← hhandle, Table.eq_of_key hv huser hid]
  refine ⟨htrim, ?_⟩
  intro v hv hhandle
  have hfinds : s.Finds (trim user.handle) (some v) := by
    refine ⟨v :: s.users.rows.erase v, (List.perm_cons_erase hv).symm, ?_⟩
    rw [htrim, ← hhandle, List.find?_cons, beq_self_eq_true]
  simpa using h _ hfinds

theorem sessionsOwn_iff {s : Inner} : s.SessionsOwn ↔ s.ToldApart := by
  constructor
  · intro h user huser
    apply free_of_resolves huser
    apply h ⟨s, ⟨0⟩, []⟩ rfl ⟨user.id, 0⟩
    exact UserSession.actor_eq_some.2 ⟨Int.le_refl _, user, huser, rfl, rfl⟩
  · rintro h w rfl session handle hactor
    obtain ⟨-, user, huser, hid, rfl⟩ := UserSession.actor_eq_some.1 hactor
    rw [← hid]
    exact resolves_of_toldApart h huser

/-- The handler passes on the handle of the account whose session it is presented. -/
theorem SessionsOwn.requireActor {s : Inner} (h : s.SessionsOwn) {signer : SessionSigner}
    {w : World} {cookies : Option String} {handle : String} (hw : w.store = s)
    (hactor : requireActor signer w cookies = .ok handle) :
    ∃ session, signer.presented cookies = some session ∧ s.Resolves handle session.uid := by
  obtain ⟨session, hpresented, hsession⟩ := requireActor_eq_ok.1 hactor
  exact ⟨session, hpresented, h w hw session handle hsession⟩

/-! ## Accounts that come in -/

theorem toldApart_iff {s : Inner} :
    s.ToldApart ↔ (∀ user ∈ s.users.rows, trim user.handle = user.handle) ∧
      s.users.Apart (fun u v => u.handle = v.handle) := by
  constructor
  · intro h
    exact ⟨fun user huser => (h user huser).1, fun u hu v hv hhandle => (h v hv).2 u hu hhandle⟩
  · rintro ⟨htrim, hapart⟩ user huser
    exact ⟨htrim user huser, fun v hv hhandle => hapart v hv user huser hhandle⟩

/-- An account that comes in under a free handle, and only such a one, leaves all told apart. -/
theorem toldApart_insert {s t : Inner} {user : User} (h : s.ToldApart)
    (ht : t.users = s.users.insert user) : t.ToldApart ↔ s.Free user := by
  obtain ⟨htrim, hapart⟩ := toldApart_iff.1 h
  rw [toldApart_iff, ht, Table.apart_insert (fun hhandle => hhandle.symm) hapart]
  constructor
  · rintro ⟨htrimmed, hfree⟩
    exact ⟨htrimmed user (Table.mem_insert.2 (.inl rfl)), hfree⟩
  · rintro ⟨htrimmed, hfree⟩
    refine ⟨?_, hfree⟩
    intro u hu
    rcases Table.mem_insert.1 hu with rfl | ⟨hu, -⟩
    · exact htrimmed
    · exact htrim u hu

theorem ToldApart.of_subset {s t : Inner} (h : s.ToldApart)
    (hsubset : ∀ user ∈ t.users.rows, user ∈ s.users.rows) : t.ToldApart := by
  intro user huser
  obtain ⟨htrim, honly⟩ := h user (hsubset user huser)
  exact ⟨htrim, fun v hv => honly v (hsubset v hv)⟩

theorem users_subset_drop (s : Inner) (row : Row) :
    ∀ user ∈ (s.drop row).users.rows, user ∈ s.users.rows := by
  cases row with
  | user u => exact fun user huser => (List.mem_filter.1 huser).1
  | _ => exact fun user huser => huser

end Inner

/-- The account that a call puts into the store. -/
def StoreCall.account (wire : Federation.Wire) : StoreCall → Option User
  | .write m => m.account
  | .applyIncoming part =>
    match wire.change part with
    | .ok (.put (.user user)) => some user
    | _ => none
  | _ => none

theorem toldApart_call {wire : Federation.Wire} {s : Inner} (h : s.ToldApart) (c : StoreCall) :
    (c.call wire s).2.ToldApart ↔ ∀ user, c.account wire = some user → s.Free user := by
  have hnone : (∀ user ∈ (c.call wire s).2.users.rows, user ∈ s.users.rows) →
      c.account wire = none →
      ((c.call wire s).2.ToldApart ↔ ∀ user, c.account wire = some user → s.Free user) := by
    intro hsubset haccount
    constructor
    · rintro - user huser
      rw [haccount] at huser
      cases huser
    · exact fun _ => h.of_subset hsubset
  have hsome : ∀ user, (c.call wire s).2.users = s.users.insert user →
      c.account wire = some user →
      ((c.call wire s).2.ToldApart ↔ ∀ user, c.account wire = some user → s.Free user) := by
    intro user husers haccount
    rw [Inner.toldApart_insert h husers, haccount]
    constructor
    · rintro hfree _ ⟨⟩
      exact hfree
    · exact fun hfree => hfree user rfl
  cases c with
  | write m =>
    cases haccount : m.account with
    | none =>
      apply hnone _ haccount
      have husers : (m.run s).users = s.users := (run_keeps m s).2 haccount
      intro user huser
      rw [← husers]
      exact huser
    | some user =>
      apply hsome user _ haccount
      cases m with
      | insertUser user =>
        obtain rfl := Option.some.inj haccount
        rfl
      | updateUser user =>
        obtain rfl := Option.some.inj haccount
        rfl
      | _ => cases haccount
  | applyIncoming part =>
    have hstore : ((StoreCall.applyIncoming part).call wire s).2 =
        (Federation.applyIncoming wire part s).2 := rfl
    cases hchange : wire.change part with
    | error e =>
      rw [Federation.applyIncoming_of_error hchange] at hstore
      refine hnone ?_ (by simp only [StoreCall.account, hchange])
      intro user huser
      rw [hstore] at huser
      exact huser
    | ok change =>
      rw [Federation.applyIncoming_of_change hchange] at hstore
      cases change with
      | put row =>
        have hput := (s.put_keeps row).2
        have hstored : ((StoreCall.applyIncoming part).call wire s).2 = s.put row := hstore
        cases row with
        | user user =>
          apply hsome user _ (by simp only [StoreCall.account, hchange])
          rw [hstore]
          rfl
        | _ =>
          refine hnone ?_ (by simp only [StoreCall.account, hchange])
          intro user huser
          rw [hstored, hput (by nofun)] at huser
          exact huser
      | drop row =>
        refine hnone ?_ (by simp only [StoreCall.account, hchange])
        intro user huser
        rw [hstore] at huser
        exact s.users_subset_drop row user huser
      | unreact p =>
        refine hnone ?_ (by simp only [StoreCall.account, hchange])
        intro user huser
        rw [hstore] at huser
        exact huser
  | read selects => exact hnone (fun user huser => huser) rfl
  | getMedia key => exact hnone (fun user huser => huser) rfl
  | changesSince afterSeq limit => exact hnone (fun user huser => huser) rfl
  | replicationCursor peer => exact hnone (fun user huser => huser) rfl
  | advanceCursor peer seq => exact hnone (fun user huser => huser) rfl

/-! ## Runs -/

namespace Mint

variable {text : SnapshotText} {wire : Federation.Wire}

/-- All nodes tell their accounts apart. -/
def ToldApart (w : Mint) : Prop := ∀ node, (w.stores node).ToldApart

theorem toldApart_start : start.ToldApart := by
  intro node user huser
  cases huser

theorem stores_call (w : Mint) (node : NodeId) (c : StoreCall) :
    (w.step text wire (.call node c)).stores =
      Function.update w.stores node (c.call wire (w.stores node)).2 := rfl

theorem toldApart_step_call {w : Mint} (h : w.ToldApart) (node : NodeId) (c : StoreCall) :
    (w.step text wire (.call node c)).ToldApart ↔
      ∀ user, c.account wire = some user → (w.stores node).Free user := by
  rw [← toldApart_call (h node) c]
  constructor
  · intro hafter
    have hnode := hafter node
    rw [stores_call, Function.update_self] at hnode
    exact hnode
  · intro hnode other
    rw [stores_call]
    by_cases hother : other = node
    · rw [hother, Function.update_self]
      exact hnode
    · rw [Function.update_of_ne hother]
      exact h other

/-- A snapshot holds all accounts. -/
theorem ToldApart.restart {w : Mint} (h : w.ToldApart) {node : NodeId}
    (htext : text.ReadsBack (w.stores node).toSnapshot)
    (hnode : (w.stores node).node = node) :
    (w.step text wire (.restart node)).ToldApart := by
  have hrestart := SnapshotText.restart_eq htext
  rw [hnode] at hrestart
  have hstores : (w.step text wire (.restart node)).stores =
      Function.update w.stores node (w.stores node).reloaded := by
    simp only [step, hrestart]
  intro other
  rw [hstores]
  by_cases hother : other = node
  · rw [hother, Function.update_self]
    exact (h node).of_subset (fun user huser => huser)
  · rw [Function.update_of_ne hother]
    exact h other

variable (text wire)

/-- Every account that comes into a store finds its handle free there. -/
def FindsFree (ops : List MintOp) : Prop :=
  ∀ earlier node c later, ops = earlier ++ .call node c :: later →
    ∀ user, c.account wire = some user → ((run text wire earlier).stores node).Free user

theorem toldApart_run {ops : List MintOp} (hclean : RestartsClean text wire ops)
    (hfree : FindsFree text wire ops) : (run text wire ops).ToldApart := by
  induction ops using List.reverseRecOn with
  | nil => exact toldApart_start
  | append_singleton ops op ih =>
    have hcleanBefore : RestartsClean text wire ops := by
      rintro earlier node later rfl
      apply hclean earlier node (later ++ [op])
      rw [List.append_assoc, List.cons_append]
    have hfreeBefore : FindsFree text wire ops := by
      rintro earlier node c later rfl
      apply hfree earlier node c (later ++ [op])
      rw [List.append_assoc, List.cons_append]
    have hrun : run text wire (ops ++ [op]) = (run text wire ops).step text wire op :=
      List.foldl_append
    rw [hrun]
    cases op with
    | call node c =>
      exact (toldApart_step_call (ih hcleanBefore hfreeBefore) node c).2 (hfree ops node c [] rfl)
    | restart node =>
      exact (ih hcleanBefore hfreeBefore).restart (hclean ops node [] rfl)
        ((ledger_run text wire ops hcleanBefore).node node)

end Mint

/-- However the nodes' calls, restarts and ingested rows are interleaved: every handler that is
presented a live session passes on a handle that leads all use-cases to the account of the session,
as long as every account that comes into a store finds its handle free there; and only as long. -/
theorem sessions_own_iff (text : SnapshotText) (wire : Federation.Wire) (ops : List MintOp)
    (hclean : Mint.RestartsClean text wire ops) :
    (Mint.FindsFree text wire ops →
      ∀ earlier later, ops = earlier ++ later → ∀ node signer w cookies handle,
        w.store = (Mint.run text wire earlier).stores node →
        requireActor signer w cookies = .ok handle →
        ∃ session, signer.presented cookies = some session ∧
          w.store.Resolves handle session.uid) ∧
      ((∀ earlier later, ops = earlier ++ later → ∀ node,
        ((Mint.run text wire earlier).stores node).SessionsOwn) ↔
          Mint.FindsFree text wire ops) := by
  have hown : Mint.FindsFree text wire ops → ∀ earlier later, ops = earlier ++ later → ∀ node,
      ((Mint.run text wire earlier).stores node).SessionsOwn := by
    rintro hfree earlier later rfl node
    rw [Inner.sessionsOwn_iff]
    have hcleanBefore : Mint.RestartsClean text wire earlier := by
      rintro front node back rfl
      apply hclean front node (back ++ later)
      rw [List.append_assoc, List.cons_append]
    have hfreeBefore : Mint.FindsFree text wire earlier := by
      rintro front node c back rfl
      apply hfree front node c (back ++ later)
      rw [List.append_assoc, List.cons_append]
    exact Mint.toldApart_run text wire hcleanBefore hfreeBefore node
  refine ⟨?_, ?_, hown⟩
  · intro hfree earlier later hsplit node signer w cookies handle hw hactor
    have hsessions := hown hfree earlier later hsplit node
    rw [← hw] at hsessions
    exact hsessions.requireActor rfl hactor
  · intro hsessions earlier node c later hsplit
    have hbefore : (Mint.run text wire earlier).ToldApart :=
      fun other => Inner.sessionsOwn_iff.1 (hsessions earlier _ hsplit other)
    apply (Mint.toldApart_step_call hbefore node c).1
    intro other
    have hafter := hsessions (earlier ++ [.call node c]) later (by simp [hsplit]) other
    have hrun : Mint.run text wire (earlier ++ [.call node c]) =
        (Mint.run text wire earlier).step text wire (.call node c) := List.foldl_append
    rw [← hrun]
    exact Inner.sessionsOwn_iff.1 hafter

namespace Federation.Agora

/-- A wire for accounts, too. -/
def accountWire (parts : List SignedPart) : Wire :=
  widened parts
    (fun p => do
      let id ← idField p "id"
      let handle ← textField p "handle"
      match (p.get "created_at").bind Value.asU64 with
      | some secs => return .new id handle ⟨secs⟩
      | none => throw "missing field created_at")
    (wire parts).friendship

/-- Node 1 has an account by the name of Sam. -/
def namesake : SignedPart :=
  ⟨1, 1, 1, .userHome ann, "users", .upsert,
    .object [("id", packed ann), ("handle", .string "sam"), ("created_at", number 0)]⟩

/-- Node 2 has registered one, too. -/
def sam : User := { User.new (composeId 2 1) "sam" ⟨0⟩ with emailVerified := true }

def enlisting : List MintOp :=
  [.call 2 (.write (.mint .user)), .call 2 (.write (.insertUser sam))]

/-- And then it hears of its namesake. -/
def homonyms : List MintOp :=
  enlisting ++ [.call 2 (.applyIncoming namesake), .call 2 (.advanceCursor 1 1)]

theorem namesake_accepted (s : Inner) :
    authorize (accountWire [namesake]) (apart.answers (accountWire [namesake])) (storeResolver s)
      ((accountWire [namesake]).signEvent (keypair 1) namesake) = .ok namesake := by
  have hscope : (classify namesake.entity namesake.payload).resolve (storeResolver s) =
      .ok (.userHome ann) := by
    rfl
  have howner : apart.owners (.userHome ann) = some (1, 1) := by
    rfl
  have hepoch : 1 ≤ namesake.epoch := by
    rfl
  exact widened_accepted _ _ rfl rfl howner hepoch hscope

theorem enlisting_clean :
    Mint.RestartsClean Agora.enrolment (accountWire [namesake]) enlisting := by
  rintro earlier node later hsplit
  have hmem : MintOp.restart node ∈ enlisting := by
    rw [hsplit]
    exact List.mem_append_right _ List.mem_cons_self
  rcases hmem with _ | ⟨_, _ | ⟨_, ⟨⟩⟩⟩

/-- The namesake is signed by the owner of its home, and a pull lets it in. -/
theorem homonyms_pulled :
    (Mint.run Agora.enrolment (accountWire [namesake]) homonyms).stores 2 =
      (ingest (accountWire [namesake]) (apart.answers (accountWire [namesake])) 1
        [(accountWire [namesake]).signEvent (keypair 1) namesake]
        ((Mint.run Agora.enrolment (accountWire [namesake]) enlisting).stores 2)).2 := by
  have hrun : Mint.run Agora.enrolment (accountWire [namesake]) homonyms =
      ((Mint.run Agora.enrolment (accountWire [namesake]) enlisting).step Agora.enrolment
        (accountWire [namesake]) (.call 2 (.applyIncoming namesake))).step Agora.enrolment
          (accountWire [namesake]) (.call 2 (.advanceCursor 1 1)) := List.foldl_append
  have hcursor : ((Mint.run Agora.enrolment (accountWire [namesake]) enlisting).stores 2).cursors
      1 = 0 := rfl
  generalize Mint.run Agora.enrolment (accountWire [namesake]) enlisting = w at hrun hcursor ⊢
  rw [hrun, ingest_singleton _ _ (namesake_accepted (w.stores 2)), hcursor]
  rw [Mint.stores_call, Function.update_self, Mint.stores_call, Function.update_self]
  rfl

end Federation.Agora

theorem sessions_own_enlisting :
    (Mint.FindsFree Agora.enrolment
        (Federation.Agora.accountWire [Federation.Agora.namesake]) Federation.Agora.enlisting →
      ∀ earlier later, Federation.Agora.enlisting = earlier ++ later →
        ∀ node signer w cookies handle,
          w.store = (Mint.run Agora.enrolment
            (Federation.Agora.accountWire [Federation.Agora.namesake]) earlier).stores node →
          requireActor signer w cookies = .ok handle →
          ∃ session, signer.presented cookies = some session ∧
            w.store.Resolves handle session.uid) ∧
      ((∀ earlier later, Federation.Agora.enlisting = earlier ++ later → ∀ node,
        ((Mint.run Agora.enrolment (Federation.Agora.accountWire [Federation.Agora.namesake])
          earlier).stores node).SessionsOwn) ↔
          Mint.FindsFree Agora.enrolment
            (Federation.Agora.accountWire [Federation.Agora.namesake])
            Federation.Agora.enlisting) :=
  sessions_own_iff Agora.enrolment (Federation.Agora.accountWire [Federation.Agora.namesake])
    Federation.Agora.enlisting Federation.Agora.enlisting_clean

/-- Once node 2 has pulled the namesake, Sam's session may act as the other account. -/
theorem namesake_acted_as :
    (Mint.run Agora.enrolment (Federation.Agora.accountWire [Federation.Agora.namesake])
        Federation.Agora.homonyms).stores 2 =
      (Federation.ingest (Federation.Agora.accountWire [Federation.Agora.namesake])
        (Federation.Agora.apart.answers
          (Federation.Agora.accountWire [Federation.Agora.namesake])) 1
        [(Federation.Agora.accountWire [Federation.Agora.namesake]).signEvent
          (Federation.Agora.keypair 1) Federation.Agora.namesake]
        ((Mint.run Agora.enrolment (Federation.Agora.accountWire [Federation.Agora.namesake])
          Federation.Agora.enlisting).stores 2)).2 ∧
      ¬ ((Mint.run Agora.enrolment (Federation.Agora.accountWire [Federation.Agora.namesake])
        Federation.Agora.homonyms).stores 2).SessionsOwn := by
  refine ⟨Federation.Agora.homonyms_pulled, ?_⟩
  intro hown
  have hapart := Inner.sessionsOwn_iff.1 hown
  have hrows : ∀ u ∈ [Federation.Agora.sam, User.new Federation.Agora.ann "sam" ⟨0⟩],
      u ∈ ((Mint.run Agora.enrolment
        (Federation.Agora.accountWire [Federation.Agora.namesake])
        Federation.Agora.homonyms).stores 2).users.rows := by
    decide +kernel
  have hsam := hrows Federation.Agora.sam (.head _)
  have hother := hrows (User.new Federation.Agora.ann "sam" ⟨0⟩) (.tail _ (.head _))
  have hid := (hapart _ hsam).2 _ hother rfl
  exact absurd hid (by decide)

end Democrachat
