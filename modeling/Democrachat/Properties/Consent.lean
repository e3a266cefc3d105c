import Democrachat.Library.Runs
import Democrachat.Federation.Rows
import Democrachat.Properties.Forwarders
import Democrachat.Properties.Unauthentic
import Democrachat.System.Social

/-!
# Friendship and consent

The record of a friendship is written by the use-cases of a node, by forwarded commands and
by the rows of a feed.  Only the use-case asks for the addressee: a row of the requester's
home may say that the request has been accepted, and a forwarded acceptance may come from
any node.
-/

namespace Democrachat.Federation

open Library

/-- The node is the home of the user, as the control plane answers. -/
def Registry.ownsHome (registry : Registry) (node : NodeId) (user : UserId) : Bool :=
  match registry.ownerOf (.userHome user) with
  | .ok (some o) => o.owner = node
  | _ => false

theorem ownsHome_iff {registry : Registry} {node : NodeId} {user : UserId} :
    registry.ownsHome node user = true ↔ registry.Owns node (.userHome user) := by
  unfold Registry.ownsHome Registry.Owns
  cases registry.ownerOf (.userHome user) with
  | error e => simp
  | ok found =>
    cases found with
    | none => simp
    | some o => simp

/-- The command, where it comes from the home of its actor. -/
def Command.meantBy (cmd : Command) (registry : Registry) (node : NodeId) : List Command :=
  if registry.ownsHome node cmd.actor then [cmd] else []

theorem mem_meantBy {cmd cmd' : Command} {registry : Registry} {node : NodeId} :
    cmd' ∈ cmd.meantBy registry node ↔ registry.ownsHome node cmd.actor = true ∧ cmd' = cmd := by
  unfold Command.meantBy
  split
  next howns => simp [howns]
  next howns => simp [howns]

/-! ## The runs of a node -/

structure Attested where
  world : World
  /-- What the homes of the actors have issued or performed. -/
  meant : List Command

inductive Deed where
  | operate (op : Op)
  | setDmPolicy (handle : String) (policy : DmPolicy)
  /-- A use-case of the social graph, called by handle. -/
  | socialize (registry : Registry) (op : SocialOp)
  /-- A command that the node submits and commits on itself. -/
  | perform (registry : Registry) (cmd : Command)
  /-- A command that is forwarded to the node. -/
  | execute (registry : Registry) (signed : SignedCommand) (now : Int64)
  | ingest (registry : Registry) (peer : NodeId) (events : List ChangeEvent)
  /-- Another node issues or performs a command. -/
  | elsewhere (registry : Registry) (other : NodeId) (cmd : Command)

section

variable (services : Services) (wire : Wire) (text : CommandText) (node : NodeId)

namespace Attested

/-- What the row of an event says that its node has done for a user at home there. -/
def toldBy (registry : Registry) (s : Inner) (event : ChangeEvent) : List Command :=
  match authorize wire registry (storeResolver s) event with
  | .error _ => []
  | .ok part =>
    match wire.change part with
    | .ok (.put (.friendship f)) =>
      (Command.requestFriend f.requester f.addressee).meantBy registry part.node ++
        if f.areFriends then
          (Command.acceptFriend f.addressee f.requester).meantBy registry part.node
        else []
    | _ => []

def perform (s : Attested) (registry : Registry) (cmd : Command) : Attested :=
  match cmd.run.exec s.world with
  | (result, w) => ⟨w, s.meant ++ if result.isOk then cmd.meantBy registry node else []⟩

def execute (s : Attested) (registry : Registry) (signed : SignedCommand) (now : Int64) :
    Attested :=
  match (Federation.execute wire text registry node signed now).exec s.world with
  | (result, w) =>
    ⟨w, s.meant ++
      match verifySigned wire text registry signed with
      | .error _ => []
      | .ok cmd =>
        cmd.meantBy registry signed.node ++
          if result.isOk then cmd.meantBy registry node else []⟩

def step (s : Attested) : Deed → Attested
  | .operate op => { s with world := services.step s.world op }
  | .setDmPolicy handle policy =>
    { s with world := ((Democrachat.setDmPolicy handle policy).exec s.world).2 }
  | .socialize registry op =>
    match op.command s.world.store with
    | some cmd => { s.perform node registry cmd with world := op.step s.world }
    | none => { s with world := op.step s.world }
  | .perform registry cmd => s.perform node registry cmd
  | .execute registry signed now => s.execute wire text node registry signed now
  | .ingest registry peer events =>
    ⟨s.world.mapStore (fun store => (Federation.ingest wire registry peer events store).2),
      s.meant ++ events.flatMap (toldBy wire registry s.world.store)⟩
  | .elsewhere registry other cmd => { s with meant := s.meant ++ cmd.meantBy registry other }

/-! ## What is asked of them -/

/-- No acceptance is stored that the accepter's home has not issued or performed. -/
def Consented (s : Attested) : Prop :=
  ∀ f ∈ s.world.store.friends, f.areFriends = true →
    .acceptFriend f.addressee f.requester ∈ s.meant

/-- The user has accepted the other's request or asked himself. -/
def Befriended (s : Attested) (user other : UserId) : Prop :=
  .acceptFriend user other ∈ s.meant ∨ .requestFriend user other ∈ s.meant

/-- Whoever hears friends only gets new direct messages from those alone. -/
def HearsFriends (s : Attested) (deed : Deed) : Prop :=
  ∀ m ∈ (step services wire text node s deed).world.store.dms, m ∉ s.world.store.dms →
    ∀ user, s.world.store.getUser m.recipient = some user → user.dmPolicy = .friendsOnly →
      Befriended (step services wire text node s deed) m.recipient m.sender

/-! ## The conditions -/

/-- The command comes from or comes to the home of its actor, or has been issued there. -/
def Vouched (s : Attested) (registry : Registry) (nodes : List NodeId) (cmd : Command) : Prop :=
  (∃ n ∈ nodes, registry.ownsHome n cmd.actor = true) ∨ cmd ∈ s.meant

/-- A condition on the commands that come to their use-case. -/
def OnCommands (s : Attested) (P : Registry → List NodeId → Command → Prop) : Deed → Prop
  | .socialize registry op => ∀ cmd ∈ op.command s.world.store, P registry [node] cmd
  | .perform registry cmd => P registry [node] cmd
  | .execute registry signed now =>
    ∀ cmd, verifySigned wire text registry signed = .ok cmd →
      registry.Entitles node s.world.store cmd →
      (admitCommand s.world.store.nonces signed.node signed.nonce signed.issuedAt now).1 = .ok () →
      P registry [signed.node, node] cmd
  | _ => True

/-- A condition on the rows that a feed is let in with. -/
def OnRows (s : Attested) (P : Registry → NodeId → Row → Prop) : Deed → Prop
  | .ingest registry _ events =>
    ∀ event ∈ events, ∀ part row,
      authorize wire registry (storeResolver s.world.store) event = .ok part →
        wire.change part = .ok (.put row) → P registry part.node row
  | _ => True

/-- An acceptance that goes through is the accepter's. -/
def AcceptsMeant (s : Attested) (deed : Deed) : Prop :=
  s.OnCommands wire text node
      (fun registry nodes cmd => ∀ accepter requester, cmd = .acceptFriend accepter requester →
        cmd.accepts s.world.store = true → s.Vouched registry nodes cmd) deed ∧
    s.OnRows wire
      (fun registry teller row => ∀ f, row = .friendship f → f.areFriends = true →
        s.Vouched registry [teller] (.acceptFriend f.addressee f.requester)) deed

/-- A new request is the requester's, and a feed brings those who hear friends only nothing from
others. -/
def RequestsMeant (s : Attested) (deed : Deed) : Prop :=
  s.OnCommands wire text node
      (fun registry nodes cmd => ∀ requester addressee, cmd = .requestFriend requester addressee →
        cmd.accepts s.world.store = true →
        s.world.store.friendshipBetween requester addressee = none →
          s.Vouched registry nodes cmd) deed ∧
    s.OnRows wire
      (fun _ _ row => ∀ m, row = .dm m → ∀ user, s.world.store.getUser m.recipient = some user →
        user.dmPolicy = .friendsOnly → s.Befriended m.recipient m.sender) deed

/-- No request is stored that the requester's home has not issued or performed. -/
def Requested (s : Attested) : Prop :=
  ∀ f ∈ s.world.store.friends, .requestFriend f.requester f.addressee ∈ s.meant

/-! ## What a deed does -/

/-- A command has been applied. -/
structure Applied (s s' : Attested) (registry : Registry) (nodes : List NodeId) (cmd : Command) :
    Prop where
  accepts : cmd.accepts s.world.store = true
  store : ∃ now log, s'.world.store = cmd.effect now { s.world.store with nonces := log }
  grows : ∀ c ∈ s.meant, c ∈ s'.meant
  vouched : s.Vouched registry nodes cmd → cmd ∈ s'.meant

/-- Nothing of the social graph has been written. -/
structure Untouched (s s' : Attested) : Prop where
  store : s.world.store.SameSocial s'.world.store
  grows : ∀ c ∈ s.meant, c ∈ s'.meant

theorem perform_cases (s : Attested) (registry : Registry) (cmd : Command) :
    s.Untouched (s.perform node registry cmd) ∨
      s.Applied (s.perform node registry cmd) registry [node] cmd := by
  cases haccepts : cmd.accepts s.world.store with
  | false =>
    obtain ⟨e, hrun⟩ := Command.run_of_refused haccepts
    left
    unfold perform
    rw [hrun]
    exact ⟨.refl _, fun c hc => List.mem_append_left _ hc⟩
  | true =>
    right
    have hperform : s.perform node registry cmd =
        ⟨s.world.mapStore (cmd.effect s.world.now), s.meant ++ cmd.meantBy registry node⟩ := by
      unfold perform
      rw [Command.run_of_accepts haccepts]
      rfl
    rw [hperform]
    refine ⟨haccepts, ⟨s.world.now, s.world.store.nonces, rfl⟩, ?_, ?_⟩
    · exact fun c hc => List.mem_append_left _ hc
    · rintro (⟨n, hn, howns⟩ | hmeant)
      · rw [List.mem_singleton.1 hn] at howns
        exact List.mem_append_right _ (mem_meantBy.2 ⟨howns, rfl⟩)
      · exact List.mem_append_left _ hmeant

/-- A command that is refused has written nothing of the social graph. -/
theorem execute_error {registry : Registry} {signed : SignedCommand} {now : Int64} {w w' : World}
    {e : ForwardError}
    (h : (Federation.execute wire text registry node signed now).exec w = (.error e, w')) :
    w.store.SameSocial w'.store := by
  have hadmitting : w.store.SameSocial (w.mapStore (admitting signed now)).store := ⟨rfl, rfl, rfl⟩
  rw [exec_execute] at h
  cases hcmd : verifySigned wire text registry signed with
  | error e' =>
    simp only [hcmd, Prod.mk.injEq] at h
    rw [← h.2]
    exact .refl _
  | ok cmd =>
    simp only [hcmd] at h
    split at h
    next =>
      rw [← (Prod.mk.inj h).2]
      exact .refl _
    next =>
      split at h
      next =>
        rw [← (Prod.mk.inj h).2]
        exact .refl _
      next =>
        rw [← (Prod.mk.inj h).2]
        exact .refl _
      next =>
        split at h
        next =>
          rw [← (Prod.mk.inj h).2]
          exact hadmitting
        next =>
          cases haccepts : cmd.accepts (w.mapStore (admitting signed now)).store with
          | true =>
            rw [Command.run_of_accepts haccepts] at h
            cases (Prod.mk.inj h).1
          | false =>
            obtain ⟨e', hrun⟩ := Command.run_of_refused haccepts
            rw [hrun] at h
            rw [← (Prod.mk.inj h).2]
            exact hadmitting

/-- An answered command was let in by every gate. -/
theorem execute_cases (s : Attested) (registry : Registry) (signed : SignedCommand) (now : Int64) :
    s.Untouched (s.execute wire text node registry signed now) ∨
      ∃ cmd, verifySigned wire text registry signed = .ok cmd ∧
        registry.Entitles node s.world.store cmd ∧
        (admitCommand s.world.store.nonces signed.node signed.nonce signed.issuedAt now).1 =
          .ok () ∧
        s.Applied (s.execute wire text node registry signed now) registry [signed.node, node] cmd := by
  unfold execute
  rcases hrun : (Federation.execute wire text registry node signed now).exec s.world with
    ⟨e | u, w⟩
  · exact .inl ⟨execute_error wire text node hrun, fun c hc => List.mem_append_left _ hc⟩
  · obtain ⟨cmd, hverified, -, howns, hadmitted, haccepts, rfl⟩ := execute_eq_ok.1 hrun
    refine .inr ⟨cmd, hverified, (entitles_iff _ _ _ _).2 howns, hadmitted, haccepts,
      ⟨s.world.now, _, rfl⟩, fun c hc => List.mem_append_left _ hc, ?_⟩
    rintro (⟨n, hn, hhome⟩ | hmeant)
    · apply List.mem_append_right
      simp only [hverified]
      rcases List.mem_cons.1 hn with rfl | hn
      · exact List.mem_append_left _ (mem_meantBy.2 ⟨hhome, rfl⟩)
      · rw [List.mem_singleton.1 hn] at hhome
        exact List.mem_append_right _ (mem_meantBy.2 ⟨hhome, rfl⟩)
    · exact List.mem_append_left _ hmeant

/-- A deed other than a pull applies one command, or leaves the social graph alone. -/
theorem step_cases (s : Attested) (deed : Deed) :
    (∃ registry peer events, deed = .ingest registry peer events) ∨
      s.Untouched (step services wire text node s deed) ∨
      ∃ registry nodes cmd, s.Applied (step services wire text node s deed) registry nodes cmd ∧
        ∀ P, s.OnCommands wire text node P deed → P registry nodes cmd := by
  cases deed with
  | ingest registry peer events => exact .inl ⟨registry, peer, events, rfl⟩
  | operate op =>
    right; left
    exact ⟨(civil_step services s.world op).sameSocial, fun c hc => hc⟩
  | setDmPolicy handle policy =>
    right; left
    have hcivil := (Touches.of_writesOnly (touches_setDmPolicy handle policy) s.world).civil rfl
    exact ⟨hcivil.sameSocial, fun c hc => hc⟩
  | elsewhere registry other cmd =>
    right; left
    exact ⟨.refl _, fun c hc => List.mem_append_left _ hc⟩
  | perform registry cmd =>
    right
    rcases s.perform_cases node registry cmd with huntouched | happlied
    · exact .inl huntouched
    · exact .inr ⟨registry, [node], cmd, happlied, fun P hP => hP⟩
  | execute registry signed now =>
    right
    rcases s.execute_cases wire text node registry signed now with huntouched | hcmd
    · exact .inl huntouched
    · obtain ⟨cmd, hverified, hentitles, hadmitted, happlied⟩ := hcmd
      exact .inr ⟨registry, [signed.node, node], cmd, happlied,
        fun P hP => hP cmd hverified hentitles hadmitted⟩
  | socialize registry op =>
    right
    have hstep := SocialOp.step_eq s.world op
    cases hcommand : op.command s.world.store with
    | none =>
      left
      rw [hcommand] at hstep
      simp only [step, hcommand, hstep]
      exact ⟨.refl _, fun c hc => hc⟩
    | some cmd =>
      rw [hcommand] at hstep
      have hperform : step services wire text node s (.socialize registry op) =
          s.perform node registry cmd := by
        simp only [step, hcommand, hstep, perform]
      rw [hperform]
      rcases s.perform_cases node registry cmd with huntouched | happlied
      · exact .inl huntouched
      · exact .inr ⟨registry, [node], cmd, happlied, fun P hP => hP cmd hcommand⟩

/-! ## Rows of a feed -/

section

variable {wire} {registry : Registry} (hwire : wire.ReadsScopes)

include hwire

/-- A row of a home is let in on every replica alike, and from that home alone. -/
theorem authorize_of_home {event : ChangeEvent} {part : SignedPart} {row : Row} {user : UserId}
    {s : Inner} (hderived : row.derived = .owned (.userHome user))
    (hchange : wire.change part = .ok (.put row))
    (h : authorize wire registry (storeResolver s) event = .ok part) (s' : Inner) :
    authorize wire registry (storeResolver s') event = .ok part ∧
      registry.ownsHome part.node user = true := by
  obtain ⟨hauthentic, scope, hscope, howner⟩ := authorize_eq_ok.1 h
  obtain ⟨kind, hkind, hrow⟩ := row_of_change (.inl hchange)
  rw [classify_ofName? hkind] at hscope
  rcases hwire.derived hrow with hnone | hclassify
  · rw [hnone] at hscope
    cases hscope
  · rw [hclassify, hderived] at hscope
    obtain rfl := Except.ok.inj hscope
    constructor
    · refine authorize_eq_ok.2 ⟨hauthentic, _, ?_, howner⟩
      rw [classify_ofName? hkind, hclassify, hderived]
      rfl
    · obtain ⟨-, o, hanswer, hnode, -⟩ := checkOwner_eq_ok.1 howner
      exact ownsHome_iff.2 ⟨o, hanswer, hnode⟩

/-- Where a friendship in the store comes from that a pull leaves. -/
theorem mem_friends_ingest {peer : NodeId} {events : List ChangeEvent} {s : Inner} {f : Friendship}
    (h : f ∈ (Federation.ingest wire registry peer events s).2.friends) :
    f ∈ s.friends ∨ ∃ event ∈ events, ∃ part,
      authorize wire registry (storeResolver s) event = .ok part ∧
        wire.change part = .ok (.put (.friendship f)) ∧
        registry.ownsHome part.node f.requester = true := by
  rw [ingest_store] at h
  have hdrained := drain_invariant wire registry
    (fun t => ∀ f ∈ t.friends, f ∈ s.friends ∨ ∃ event ∈ events, ∃ part,
      authorize wire registry (storeResolver s) event = .ok part ∧
        wire.change part = .ok (.put (.friendship f)) ∧
        registry.ownsHome part.node f.requester = true)
    events ?_ (p := ⟨s.cursors peer, s⟩) (fun f hf => .inl hf)
  · exact hdrained f h
  · intro event hevent part t hpart ht f hf
    rcases mem_friends_applyIncoming hf with hold | hnew
    · exact ht f hold
    · obtain ⟨hauthorized, howns⟩ := authorize_of_home hwire rfl hnew hpart s
      exact .inr ⟨event, hevent, part, hauthorized, hnew, howns⟩

theorem mem_dms_ingest {peer : NodeId} {events : List ChangeEvent} {s : Inner} {m : DmMessage}
    (h : m ∈ (Federation.ingest wire registry peer events s).2.dms) :
    m ∈ s.dms ∨ ∃ event ∈ events, ∃ part,
      authorize wire registry (storeResolver s) event = .ok part ∧
        wire.change part = .ok (.put (.dm m)) := by
  rw [ingest_store] at h
  have hdrained := drain_invariant wire registry
    (fun t => ∀ m ∈ t.dms, m ∈ s.dms ∨ ∃ event ∈ events, ∃ part,
      authorize wire registry (storeResolver s) event = .ok part ∧
        wire.change part = .ok (.put (.dm m)))
    events ?_ (p := ⟨s.cursors peer, s⟩) (fun m hm => .inl hm)
  · exact hdrained m h
  · intro event hevent part t hpart ht m hm
    rcases mem_dms_applyIncoming hm with hold | hnew
    · exact ht m hold
    · exact .inr ⟨event, hevent, part, (authorize_of_home hwire rfl hnew hpart s).1, hnew⟩

end

theorem mem_toldBy {registry : Registry} {s : Inner} {event : ChangeEvent} {part : SignedPart}
    {f : Friendship} (hpart : authorize wire registry (storeResolver s) event = .ok part)
    (hchange : wire.change part = .ok (.put (.friendship f))) {cmd : Command} :
    cmd ∈ toldBy wire registry s event ↔
      (registry.ownsHome part.node f.requester = true ∧
        cmd = .requestFriend f.requester f.addressee) ∨
      f.areFriends = true ∧ registry.ownsHome part.node f.addressee = true ∧
        cmd = .acceptFriend f.addressee f.requester := by
  simp only [toldBy, hpart, hchange, List.mem_append, mem_meantBy, Command.actor]
  split
  next hfriends => simp [mem_meantBy, hfriends, Command.actor]
  next hfriends => simp [hfriends]

variable {services wire text node} in
/-- An accepted row that the requester's home tells is stored, whoever has consented. -/
theorem not_consented_of_told {registry : Registry} {peer : NodeId} {event : ChangeEvent}
    {part : SignedPart} {f : Friendship} {s : Attested}
    (hpart : ∀ t, authorize wire registry (storeResolver t) event = .ok part)
    (hchange : wire.change part = .ok (.put (.friendship f))) (hfriends : f.areFriends = true)
    (hforeign : registry.ownsHome part.node f.addressee = false) (hmeant : s.meant = []) :
    ¬ (step services wire text node s (.ingest registry peer [event])).Consented := by
  intro hconsented
  have hstored : f ∈ (Federation.ingest wire registry peer [event] s.world.store).2.friends := by
    rw [ingest_store]
    simp only [drain, handle, hpart, applyIncoming_of_change hchange]
    exact List.mem_append_right _ (List.mem_singleton_self f)
  rcases List.mem_append.1 (hconsented f hstored hfriends) with hbefore | htold
  · rw [hmeant] at hbefore
    exact absurd hbefore List.not_mem_nil
  · obtain ⟨event', hevent, htold⟩ := List.mem_flatMap.1 htold
    rw [List.mem_singleton.1 hevent] at htold
    rcases (mem_toldBy wire (hpart _) hchange).1 htold with ⟨-, hcmd⟩ | ⟨-, howns, -⟩
    · cases hcmd
    · rw [hforeign] at howns
      cases howns

/-! ## Steps -/

theorem grows_step (s : Attested) (deed : Deed) :
    ∀ c ∈ s.meant, c ∈ (step services wire text node s deed).meant := by
  rcases s.step_cases services wire text node deed with
    ⟨registry, peer, events, rfl⟩ | huntouched | ⟨registry, nodes, cmd, happlied, -⟩
  · exact fun c hc => List.mem_append_left _ hc
  · exact huntouched.grows
  · exact happlied.grows

/-- An accepted record is the requester's, and pending. -/
theorem record_of_accepts {accepter requester : UserId} {s : Inner} {g : Friendship}
    (haccepts : (Command.acceptFriend accepter requester).accepts s = true)
    (hfound : s.friendshipBetween accepter requester = some g) :
    g ∈ s.friends ∧ g.requester = requester ∧ g.addressee = accepter := by
  simp only [Command.accepts, hfound, Option.any_some, Bool.and_eq_true, beq_iff_eq] at haccepts
  exact ⟨List.mem_of_find?_eq_some hfound, haccepts.2.1.2, haccepts.2.2⟩

variable {services wire text node}

theorem Consented.step (hwire : wire.ReadsScopes) {s : Attested} (hs : s.Consented) {deed : Deed}
    (hmeant : s.AcceptsMeant wire text node deed) :
    (Attested.step services wire text node s deed).Consented := by
  have hgrows := s.grows_step services wire text node deed
  intro f hf hfriends
  rcases s.step_cases services wire text node deed with
    ⟨registry, peer, events, rfl⟩ | huntouched | ⟨registry, nodes, cmd, happlied, hcommand⟩
  · rcases mem_friends_ingest hwire hf with hold | ⟨event, hevent, part, hpart, hchange, -⟩
    · exact hgrows _ (hs f hold hfriends)
    · rcases hmeant.2 event hevent part _ hpart hchange f rfl hfriends with
        ⟨n, hn, howns⟩ | hissued
      · rw [List.mem_singleton.1 hn] at howns
        apply List.mem_append_right
        apply List.mem_flatMap.2
        exact ⟨event, hevent, (mem_toldBy wire hpart hchange).2 (.inr ⟨hfriends, howns, rfl⟩)⟩
      · exact hgrows _ hissued
  · rw [huntouched.store.friends] at hf
    exact hgrows _ (hs f hf hfriends)
  · obtain ⟨now, log, hstore⟩ := happlied.store
    rw [hstore] at hf
    rcases mem_friends_effect hf with
      hold | ⟨requester, addressee, -, rfl, -⟩ | ⟨accepter, requester, g, rfl, hfound, rfl⟩
    · exact hgrows _ (hs f hold hfriends)
    · cases hfriends
    · obtain ⟨-, hrequester, haddressee⟩ := record_of_accepts happlied.accepts hfound
      have hvouched := hcommand _ hmeant.1 accepter requester rfl happlied.accepts
      have hissued := happlied.vouched hvouched
      rwa [← hrequester, ← haddressee] at hissued

theorem Requested.step (hwire : wire.ReadsScopes) {s : Attested} (hs : s.Requested) {deed : Deed}
    (hmeant : s.RequestsMeant wire text node deed) :
    (Attested.step services wire text node s deed).Requested := by
  have hgrows := s.grows_step services wire text node deed
  intro f hf
  rcases s.step_cases services wire text node deed with
    ⟨registry, peer, events, rfl⟩ | huntouched | ⟨registry, nodes, cmd, happlied, hcommand⟩
  · rcases mem_friends_ingest hwire hf with hold | ⟨event, hevent, part, hpart, hchange, howns⟩
    · exact hgrows _ (hs f hold)
    · -- The row is of the requester's home.
      apply List.mem_append_right
      apply List.mem_flatMap.2
      exact ⟨event, hevent, (mem_toldBy wire hpart hchange).2 (.inl ⟨howns, rfl⟩)⟩
  · rw [huntouched.store.friends] at hf
    exact hgrows _ (hs f hf)
  · obtain ⟨now, log, hstore⟩ := happlied.store
    rw [hstore] at hf
    rcases mem_friends_effect hf with
      hold | ⟨requester, addressee, rfl, rfl, hnone⟩ | ⟨accepter, requester, g, rfl, hfound, rfl⟩
    · exact hgrows _ (hs f hold)
    · have hvouched := hcommand _ hmeant.1 requester addressee rfl happlied.accepts hnone
      exact happlied.vouched hvouched
    · exact hgrows _ (hs g (record_of_accepts happlied.accepts hfound).1)

/-- Only friends get through to one who hears friends only. -/
theorem befriended_of_accepts {s : Attested} (hconsented : s.Consented) (hrequested : s.Requested)
    {sender recipient : UserId} {sealedForRecipient sealedForSender : String} {user : User}
    (haccepts : (Command.sendDm sender recipient sealedForRecipient sealedForSender).accepts
      s.world.store = true)
    (huser : s.world.store.getUser recipient = some user) (hpolicy : user.dmPolicy = .friendsOnly) :
    s.Befriended recipient sender := by
  simp only [Command.accepts, huser, Option.any_some, hpolicy, canDm, Bool.and_eq_true] at haccepts
  have hfriends := haccepts.2
  split at hfriends
  next => cases hfriends
  next =>
    obtain ⟨f, hf, hboth⟩ := List.any_eq_true.1 hfriends
    have hstored : f ∈ s.world.store.friends := (List.mem_filter.1 hf).1
    simp only [Friendship.isBetween, Bool.and_eq_true, Bool.or_eq_true, beq_iff_eq] at hboth
    obtain ⟨hfriend, ⟨hsender, hrecipient⟩ | ⟨hrecipient, hsender⟩⟩ := hboth
    · left
      have hissued := hconsented f hstored hfriend
      rwa [hsender, hrecipient] at hissued
    · right
      have hissued := hrequested f hstored
      rwa [hsender, hrecipient] at hissued

theorem hearsFriends (hwire : wire.ReadsScopes) {s : Attested} (hconsented : s.Consented)
    (hrequested : s.Requested) {deed : Deed} (hmeant : s.RequestsMeant wire text node deed) :
    s.HearsFriends services wire text node deed := by
  have hgrows := s.grows_step services wire text node deed
  have hlater : ∀ user other, s.Befriended user other →
      (Attested.step services wire text node s deed).Befriended user other := by
    rintro user other (haccepted | hrequested)
    · exact .inl (hgrows _ haccepted)
    · exact .inr (hgrows _ hrequested)
  intro m hm hnew user huser hpolicy
  apply hlater
  rcases s.step_cases services wire text node deed with
    ⟨registry, peer, events, rfl⟩ | huntouched | ⟨registry, nodes, cmd, happlied, -⟩
  · rcases mem_dms_ingest hwire hm with hold | ⟨event, hevent, part, hpart, hchange⟩
    · exact absurd hold hnew
    · exact hmeant.2 event hevent part _ hpart hchange m rfl user huser hpolicy
  · rw [huntouched.store.dms] at hm
    exact absurd hm hnew
  · obtain ⟨now, log, hstore⟩ := happlied.store
    rw [hstore] at hm
    rcases mem_dms_effect hm with hold | ⟨sender, recipient, _, _, rfl, rfl, rfl⟩
    · exact absurd hold hnew
    · exact befriended_of_accepts hconsented hrequested happlied.accepts huser hpolicy

end Attested

/-- Where every acceptance that comes to a node is the accepter's, no friendship there is accepted
without the addressee's home; and where the requests are the requesters' too, and no feed brings
them anything else, those who hear friends only hear from those that they have befriended. -/
theorem friendship_needs_consent_of_meant (hwire : wire.ReadsScopes) {s : Attested}
    {deeds : List Deed} (hstart : s.world.store.friends = [])
    (haccepts : Along (Attested.step services wire text node)
      (Attested.AcceptsMeant wire text node) s deeds) :
    (∀ done, done <+: deeds → (done.foldl (Attested.step services wire text node) s).Consented) ∧
      (Along (Attested.step services wire text node) (Attested.RequestsMeant wire text node)
          s deeds →
        Along (Attested.step services wire text node)
          (Attested.HearsFriends services wire text node) s deeds) := by
  have hconsented : s.Consented := by
    intro f hf
    rw [hstart] at hf
    exact absurd hf List.not_mem_nil
  have hrequested : s.Requested := by
    intro f hf
    rw [hstart] at hf
    exact absurd hf List.not_mem_nil
  constructor
  · rintro done ⟨rest, rfl⟩
    have hdone := (along_append.1 haccepts).1
    exact hdone.invariant (fun _ _ hs hmeant => hs.step hwire hmeant) hconsented
  · intro hrequests
    have hinvariant : ∀ t : Attested, ∀ deed, t.Consented ∧ t.Requested →
        t.AcceptsMeant wire text node deed ∧ t.RequestsMeant wire text node deed →
        t.HearsFriends services wire text node deed ∧
          (Attested.step services wire text node t deed).Consented ∧
          (Attested.step services wire text node t deed).Requested := by
      rintro t deed ⟨hc, hr⟩ ⟨ha, hq⟩
      exact ⟨Attested.hearsFriends hwire hc hr hq, hc.step hwire ha, hr.step hwire hq⟩
    exact (haccepts.and hrequests).imp hinvariant ⟨hconsented, hrequested⟩

end

namespace Agora

def friendshipValue (f : Friendship) : Value :=
  .object [("requester", packed f.requester), ("addressee", packed f.addressee),
    ("status", .string (if f.areFriends then "Accepted" else "Pending")),
    ("created_at", number f.createdAt.secs.toNat)]

/-- A wire for friendships, too. -/
def friendWire (parts : List SignedPart) : Wire :=
  { wire parts with
    friendship := fun p => do
      let requester ← idField p "requester"
      let addressee ← idField p "addressee"
      let status ← textField p "status"
      match (p.get "created_at").bind Value.asU64 with
      | some secs =>
        return ⟨requester, addressee, if status == "Accepted" then .accepted else .pending, ⟨secs⟩⟩
      | none => throw "missing field created_at" }

/-- The home of the requester says that the request has been accepted. -/
def presumed : SignedPart :=
  ⟨1, 1, 1, .userHome ann, "friendships", .upsert, friendshipValue ⟨ann, bob, .accepted, ⟨0⟩⟩⟩

theorem presumed_change : (friendWire [presumed]).change presumed =
    .ok (.put (.friendship ⟨ann, bob, .accepted, ⟨0⟩⟩)) := by
  rfl

theorem presumed_accepted (s : Inner) :
    authorize (friendWire [presumed]) (apart.answers (friendWire [presumed])) (storeResolver s)
      ((friendWire [presumed]).signEvent (keypair 1) presumed) = .ok presumed := by
  have hscope : (classify presumed.entity presumed.payload).resolve (storeResolver s) =
      .ok (.userHome ann) := by
    rfl
  have howner : apart.owners (.userHome ann) = some (1, 1) := by
    rfl
  have hepoch : 1 ≤ presumed.epoch := by
    rfl
  exact widened_accepted _ _ rfl rfl howner hepoch hscope

/-- Ann asks Bob on her home, Bob accepts on his, and his acceptance commits on hers; Bob then
hears friends only, and Ann writes to him. -/
def befriending : List Deed :=
  [.perform (apart.answers (wire [])) (.requestFriend ann bob),
    .elsewhere (apart.answers (wire [])) 2 (.acceptFriend bob ann),
    .perform (apart.answers (wire [])) (.acceptFriend bob ann),
    .setDmPolicy "bob" .friendsOnly,
    .perform (apart.answers (wire [])) letter]

theorem accepts_meant_befriending :
    Along (Attested.step Agora.services (wire []) (commandText []) 1)
      (Attested.AcceptsMeant (wire []) (commandText []) 1) ⟨guestbook, []⟩ befriending := by
  refine ⟨⟨?_, trivial⟩, ⟨trivial, trivial⟩, ⟨?_, trivial⟩, ⟨trivial, trivial⟩, ⟨?_, trivial⟩, trivial⟩
  · intro accepter requester hcmd
    cases hcmd
  · intro accepter requester _ _
    right
    decide +kernel
  · intro accepter requester hcmd
    cases hcmd

theorem requests_meant_befriending :
    Along (Attested.step Agora.services (wire []) (commandText []) 1)
      (Attested.RequestsMeant (wire []) (commandText []) 1) ⟨guestbook, []⟩ befriending := by
  refine ⟨⟨?_, trivial⟩, ⟨trivial, trivial⟩, ⟨?_, trivial⟩, ⟨trivial, trivial⟩, ⟨?_, trivial⟩, trivial⟩
  · intro requester addressee hcmd _ _
    exact .inl ⟨1, List.mem_singleton_self 1, by decide +kernel⟩
  · intro requester addressee hcmd
    cases hcmd
  · intro requester addressee hcmd
    cases hcmd

/-- The row arrives at the home of Bob, who has accepted nothing. -/
def presumption : List Deed :=
  [.ingest (apart.answers (friendWire [presumed])) 1
    [(friendWire [presumed]).signEvent (keypair 1) presumed]]

end Agora

theorem friendship_needs_consent_befriending :
    (∀ done, done <+: Agora.befriending →
      (done.foldl (Attested.step Agora.services (Agora.wire []) (Agora.commandText []) 1)
        ⟨Agora.guestbook, []⟩).Consented) ∧
      Along (Attested.step Agora.services (Agora.wire []) (Agora.commandText []) 1)
        (Attested.HearsFriends Agora.services (Agora.wire []) (Agora.commandText []) 1)
        ⟨Agora.guestbook, []⟩ Agora.befriending :=
  have hboth := friendship_needs_consent_of_meant Agora.services (Agora.wire [])
    (Agora.commandText []) 1 (Agora.wire_readsScopes []) (by decide +kernel)
    Agora.accepts_meant_befriending
  ⟨hboth.1, hboth.2 Agora.requests_meant_befriending⟩

/-- Ann's home tells Bob's that Bob has accepted her, and it is believed. -/
theorem presumed_acceptance_stored :
    ¬ ∀ (s : Attested) (deeds : List Deed), s.world.store.friends = [] →
      ∀ done, done <+: deeds →
        (done.foldl (Attested.step Agora.services (Agora.friendWire [Agora.presumed])
          (Agora.commandText []) 2) s).Consented := by
  intro hall
  have hconsented := hall ⟨.empty 2 ⟨0⟩, []⟩ Agora.presumption rfl _ (List.prefix_refl _)
  rw [Agora.presumption, List.foldl_cons, List.foldl_nil] at hconsented
  have hforeign : (Agora.apart.answers (Agora.friendWire [Agora.presumed])).ownsHome 1 Agora.bob =
      false := by
    decide +kernel
  exact Attested.not_consented_of_told Agora.presumed_accepted Agora.presumed_change rfl hforeign
    rfl hconsented

end Democrachat.Federation
