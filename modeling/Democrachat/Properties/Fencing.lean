import Democrachat.Federation.Network
import Democrachat.Properties.Unauthentic

/-!
# Fencing by epochs

The epoch is stamped on a record when a page is signed, not when the record is
written, so a node that takes a scope back serves what it wrote before it lost it.
-/

namespace Democrachat.Federation

open Library

/-! ## The registry -/

namespace InMemoryRegistry

/-- Some other node holds the scope. -/
def heldByAnother (r : InMemoryRegistry) (node : NodeId) (scope : OwnedScope) : Bool :=
  match r.owners scope with
  | some (owner, _) => owner != node
  | none => false

end InMemoryRegistry

/-! ## Records that another node has overtaken -/

/-- A network, and for each node and scope how far the node's outbox had come when
another node last held the scope. -/
structure Marked where
  net : Network
  mark : NodeId → OwnedScope → Nat

section

variable (wire : Wire) (keypair : NodeId → NodeKeypair)

/-- The marks follow the registry after every step. -/
def Marked.step (m : Marked) (action : Action) : Marked where
  net := m.net.step wire keypair action
  mark node scope :=
    if (m.net.step wire keypair action).registry.heldByAnother node scope then
      ((m.net.step wire keypair action).store node).nextOutbox
    else m.mark node scope

/-- No record is applied that its node wrote before, or while, another node held the
scope under which it is applied. -/
def FencedOff (m : Marked) : Action → Prop
  | .ingest consumer peer =>
    ∀ a ∈ m.net.applied wire keypair consumer peer, m.mark a.part.node a.scope < a.part.seq
  | _ => True

/-- At its turn, each row belongs to the scope for which it was signed. -/
def PlacedAsSigned (registry : Registry) (events : List ChangeEvent) (p : Progress) : Prop :=
  ∀ before event after, events = before ++ event :: after →
    ∀ part scope, wire.parse event.body = some part →
      (classify part.entity part.payload).resolve
          (storeResolver (drain wire registry before p).replica) = .ok scope →
        part.scope = scope.toEvent

/-- A page holds no record that another node has overtaken, and a consumer finds the
parents of votes and reactions where the peer has them. -/
def Unovertaken (m : Marked) : Action → Prop
  | .fetch consumer peer limit =>
    ∀ part ∈ m.net.page wire consumer peer limit, ∀ scope,
      part.scope = scope.toEvent → m.mark peer scope < part.seq
  | .ingest consumer peer =>
    PlacedAsSigned wire (m.net.registry.answers wire) (m.net.batch wire keypair consumer peer)
      (startOf peer (m.net.store consumer))
  | _ => True

/-- A part in flight is fenced by its epoch, unless its node is still the last to have
held the scope, and then it is past the mark. -/
structure Marked.Inv (m : Marked) : Prop where
  fenced : m.net.registry.Fenced
  flying : ∀ consumer peer, ∀ part ∈ m.net.inFlight consumer peer, part.node = peer ∧
    ∃ scope, part.scope = scope.toEvent ∧ part.epoch ≤ m.net.registry.maxEpoch scope ∧
      (part.epoch = m.net.registry.maxEpoch scope →
        m.net.registry.heldByAnother peer scope = false ∧ m.mark peer scope < part.seq)

end

theorem OwnedScope.toEvent_inj {scope scope' : OwnedScope} (h : scope.toEvent = scope'.toEvent) :
    scope = scope' := by
  cases scope with
  | server id =>
    cases scope' with
    | server id' =>
      obtain rfl := EventScope.server.inj h
      rfl
    | userHome id' => cases h
  | userHome id =>
    cases scope' with
    | server id' => cases h
    | userHome id' =>
      obtain rfl := EventScope.userHome.inj h
      rfl

section

variable {wire : Wire} {keypair : NodeId → NodeKeypair} {m : Marked}

/-- A part in flight stays fenced over a step that leaves its scope alone or gives it a
new epoch. -/
theorem Marked.Inv.flying_step (h : m.Inv) (action : Action)
    {consumer peer : NodeId} {part : SignedPart} (hpart : part ∈ m.net.inFlight consumer peer)
    (hscopes : ∀ scope, m.net.registry.maxEpoch scope <
          (m.net.step wire keypair action).registry.maxEpoch scope ∨
        ((m.net.step wire keypair action).registry.maxEpoch scope = m.net.registry.maxEpoch scope ∧
          ((m.net.step wire keypair action).registry.owners scope = m.net.registry.owners scope ∨
            (m.net.step wire keypair action).registry.owners scope = none))) :
    part.node = peer ∧ ∃ scope, part.scope = scope.toEvent ∧
      part.epoch ≤ (m.step wire keypair action).net.registry.maxEpoch scope ∧
      (part.epoch = (m.step wire keypair action).net.registry.maxEpoch scope →
        (m.step wire keypair action).net.registry.heldByAnother peer scope = false ∧
          (m.step wire keypair action).mark peer scope < part.seq) := by
  obtain ⟨hnode, scope, hscope, hepoch, hlast⟩ := h.flying consumer peer part hpart
  refine ⟨hnode, scope, hscope, ?_⟩
  change part.epoch ≤ (m.net.step wire keypair action).registry.maxEpoch scope ∧
    (part.epoch = (m.net.step wire keypair action).registry.maxEpoch scope →
      (m.net.step wire keypair action).registry.heldByAnother peer scope = false ∧ _)
  rcases hscopes scope with hnew | ⟨hsame, howners⟩
  · exact ⟨by omega, fun heq => by omega⟩
  · rw [hsame]
    refine ⟨hepoch, fun heq => ?_⟩
    obtain ⟨hheld, hmark⟩ := hlast heq
    have hheld' : (m.net.step wire keypair action).registry.heldByAnother peer scope = false := by
      unfold InMemoryRegistry.heldByAnother at hheld ⊢
      rcases howners with howners | howners
      · rw [howners]
        exact hheld
      · rw [howners]
    refine ⟨hheld', ?_⟩
    simp only [Marked.step, hheld', Bool.false_eq_true, if_false]
    exact hmark

/-- A part on a page that its peer signs now. -/
theorem Marked.Inv.flying_page (h : m.Inv) {consumer peer : NodeId} {limit : Nat}
    {part : SignedPart} (hclear : ∀ scope, part.scope = scope.toEvent → m.mark peer scope < part.seq)
    (hpart : part ∈ m.net.page wire consumer peer limit) :
    part.node = peer ∧ ∃ scope, part.scope = scope.toEvent ∧
      part.epoch ≤ (m.step wire keypair (.fetch consumer peer limit)).net.registry.maxEpoch scope ∧
      (part.epoch = (m.step wire keypair (.fetch consumer peer limit)).net.registry.maxEpoch scope →
        (m.step wire keypair (.fetch consumer peer limit)).net.registry.heldByAnother peer scope =
            false ∧
          (m.step wire keypair (.fetch consumer peer limit)).mark peer scope < part.seq) := by
  obtain ⟨r, -, scope, epoch, -, hepoch, rfl⟩ := mem_signedPage.1 hpart
  have howner := epochOf_eq_some.1 hepoch
  have hheld : m.net.registry.heldByAnother peer scope = false := by
    unfold InMemoryRegistry.heldByAnother
    rw [howner]
    exact bne_self_eq_false peer
  refine ⟨rfl, scope, rfl, Nat.le_of_eq (h.fenced scope peer epoch howner), fun _ => ⟨hheld, ?_⟩⟩
  have hmark : (m.step wire keypair (.fetch consumer peer limit)).mark peer scope =
      m.mark peer scope := by
    change (if m.net.registry.heldByAnother peer scope then _ else m.mark peer scope) = _
    rw [hheld]
    rfl
  rw [hmark]
  exact hclear scope rfl

theorem Marked.Inv.step (h : m.Inv) (action : Action)
    (hclear : Unovertaken wire keypair m action) :
    (m.step wire keypair action).Inv := by
  cases action with
  | write node tables recorded =>
    have hregistry : (m.net.step wire keypair (.write node tables recorded)).registry =
        m.net.registry := by
      cases recorded <;> rfl
    have hflight : (m.net.step wire keypair (.write node tables recorded)).inFlight =
        m.net.inFlight := by
      cases recorded <;> rfl
    constructor
    · change (m.net.step wire keypair (.write node tables recorded)).registry.Fenced
      rw [hregistry]
      exact h.fenced
    · intro consumer peer part hpart
      change part ∈ (m.net.step wire keypair (.write node tables recorded)).inFlight consumer peer
        at hpart
      rw [hflight] at hpart
      apply h.flying_step _ hpart
      intro scope
      rw [hregistry]
      exact .inr ⟨rfl, .inl rfl⟩
  | claim scope node =>
    constructor
    · exact h.fenced.claim scope node
    · intro consumer peer part hpart
      apply h.flying_step _ hpart
      intro scope'
      change _ < (m.net.registry.claim scope node).2.maxEpoch scope' ∨
        ((m.net.registry.claim scope node).2.maxEpoch scope' = _ ∧
          ((m.net.registry.claim scope node).2.owners scope' = _ ∨
            (m.net.registry.claim scope node).2.owners scope' = none))
      rcases m.net.registry.claim_cases scope node with hsame | ⟨-, howners, hepochs⟩
      · rw [hsame]
        exact .inr ⟨rfl, .inl rfl⟩
      · rw [howners, hepochs]
        by_cases hscope : scope' = scope
        · left
          rw [hscope, Function.update_self]
          omega
        · right
          rw [Function.update_of_ne hscope, Function.update_of_ne hscope]
          exact ⟨rfl, .inl rfl⟩
  | release scope node =>
    constructor
    · exact h.fenced.release scope node
    · intro consumer peer part hpart
      apply h.flying_step _ hpart
      intro scope'
      right
      exact ⟨congrFun (m.net.registry.release_maxEpoch scope node) scope',
        m.net.registry.release_owners scope scope' node⟩
  | fetch consumer peer limit =>
    constructor
    · exact h.fenced
    · intro consumer' peer' part hpart
      change part ∈ (m.net.setInFlight consumer peer (m.net.page wire consumer peer limit)).inFlight
        consumer' peer' at hpart
      rw [Network.setInFlight_inFlight] at hpart
      by_cases hhere : consumer' = consumer ∧ peer' = peer
      · rw [if_pos hhere] at hpart
        rw [hhere.2]
        exact h.flying_page (hclear part hpart) hpart
      · rw [if_neg hhere] at hpart
        apply h.flying_step _ hpart
        intro scope
        exact .inr ⟨rfl, .inl rfl⟩
  | ingest consumer peer =>
    constructor
    · exact h.fenced
    · intro consumer' peer' part hpart
      change part ∈ ((m.net.setStore consumer _).setInFlight consumer peer []).inFlight
        consumer' peer' at hpart
      rw [Network.setInFlight_inFlight] at hpart
      by_cases hhere : consumer' = consumer ∧ peer' = peer
      · rw [if_pos hhere] at hpart
        cases hpart
      · rw [if_neg hhere] at hpart
        apply h.flying_step _ hpart
        intro scope
        exact .inr ⟨rfl, .inl rfl⟩

/-- What a batch in flight applies is past the mark of its scope. -/
theorem Marked.Inv.fencedOff (h : m.Inv) (hkeypair : ∀ node, (keypair node).node = node)
    (action : Action)
    (hclear : Unovertaken wire keypair m action) (hreads : ReadsBack wire m.net action) :
    FencedOff wire keypair m action := by
  cases action with
  | ingest consumer peer =>
    intro a ha
    obtain ⟨before, event, after, hbatch, hstops, happlied⟩ := mem_applications.1 ha
    obtain ⟨hauthorize, hscope, -⟩ := appliedBy_eq_some.1 happlied
    -- The part is the one that was signed.
    have hevent : event ∈ m.net.batch wire keypair consumer peer := by
      rw [hbatch]
      exact List.mem_append_right _ List.mem_cons_self
    obtain ⟨part, hpart, rfl⟩ := List.mem_map.1 hevent
    obtain ⟨hnode, scope, hsigned, hepoch, hlast⟩ := h.flying consumer peer part hpart
    have hbody : (wire.signEvent (keypair peer) part).body = wire.render part :=
      Wire.signEvent_body (hnode.trans (hkeypair peer).symm)
    have hparse : wire.parse (wire.signEvent (keypair peer) part).body = some part := by
      rw [hbody]
      exact hreads part hpart
    obtain ⟨hauthentic, scope', hscope', howned⟩ := authorize_eq_ok.1 hauthorize
    obtain ⟨key, -, hverify⟩ := authenticate_eq_ok.1 hauthentic
    have hsame : part = a.part :=
      Option.some.inj (hparse.symm.trans (Wire.verify_eq_ok.1 hverify).1)
    rw [← hsame] at hscope hscope' howned ⊢
    have hscopes := hclear before _ after hbatch part a.scope hparse hscope
    have haccepted : scope' = a.scope := Except.ok.inj (hscope'.symm.trans hscope)
    rw [haccepted] at howned
    have hplaced : scope = a.scope := OwnedScope.toEvent_inj (hsigned.symm.trans hscopes)
    rw [hplaced] at hepoch hlast
    -- It was signed under the epoch that its scope still has.
    obtain ⟨-, owner, howner, -, hle⟩ := checkOwner_eq_ok.1 howned
    have hcurrent := h.fenced a.scope _ _ (owners_of_ownerOf howner)
    rw [hnode]
    exact (hlast (by omega)).2
  | _ => trivial

end

/-- From any network with nothing in flight: where no page ever holds a record that
another node has overtaken, no record is ever applied that its node wrote before or
while another node held its scope. -/
theorem stale_writes_fenced (wire : Wire) (keypair : NodeId → NodeKeypair)
    (hkeypair : ∀ node, (keypair node).node = node) (m : Marked)
    (hfenced : m.net.registry.Fenced) (hidle : ∀ consumer peer, m.net.inFlight consumer peer = [])
    (run : List Action)
    (hreads : Along (Marked.step wire keypair) (fun m a => ReadsBack wire m.net a) m run)
    (hclear : Along (Marked.step wire keypair) (Unovertaken wire keypair) m run) :
    Along (Marked.step wire keypair) (FencedOff wire keypair) m run := by
  have hstart : m.Inv := by
    constructor
    · exact hfenced
    · intro consumer peer part hpart
      rw [hidle] at hpart
      cases hpart
  apply (hreads.and hclear).imp _ hstart
  rintro m action hinv ⟨hreads, hclear⟩
  exact ⟨hinv.fencedOff hkeypair action hclear hreads, hinv.step action hclear⟩

/-- A row that carries its own scope belongs where it was signed. -/
theorem placedAsSigned_of_owned {wire : Wire} {registry : Registry} {keypair : NodeKeypair}
    {parts : List SignedPart} {p : Progress}
    (h : ∀ part ∈ parts, part.node = keypair.node ∧ wire.parse (wire.render part) = some part ∧
      ∃ scope, classify part.entity part.payload = .owned scope ∧ part.scope = scope.toEvent) :
    PlacedAsSigned wire registry (parts.map (wire.signEvent keypair)) p := by
  intro before event after hparts part scope hparse hscope
  have hevent : event ∈ parts.map (wire.signEvent keypair) := by
    rw [hparts]
    exact List.mem_append_right _ List.mem_cons_self
  obtain ⟨part', hpart', rfl⟩ := List.mem_map.1 hevent
  obtain ⟨hnode, hreads, scope', hclass, hsigned⟩ := h part' hpart'
  rw [Wire.signEvent_body hnode, hreads] at hparse
  obtain rfl := Option.some.inj hparse
  rw [hclass] at hscope
  obtain rfl := Except.ok.inj hscope
  exact hsigned

namespace Agora

/-- Nodes 1 and 2 with their keys, and no scope claimed yet. -/
def freshNetwork : Network := ⟨keyed, fun node => .empty node, fun _ _ => []⟩

def unmarked : Marked := ⟨freshNetwork, fun _ _ => 0⟩

/-- Node 1 writes a rule of its first server. -/
def ruling : Action := .write 1 (.empty 1) (some (.upsert, .rule (rule 1 1 1)))

/-- Node 3 pulls the feed of node 1. -/
def pulling : List Action := [.fetch 3 1 500, .ingest 3 1]

/-- The server goes to node 2 and back before the pull. -/
def reclaiming : List Action :=
  [.claim (server 1) 1, ruling, .release (server 1) 1, .claim (server 1) 2, .release (server 1) 2,
    .claim (server 1) 1]

/-- The rule as node 1 signs it under its first epoch. -/
def current : SignedPart := rulePart 1 1 1 (rule 1 1 1)

/-- The same record, signed after the server came back. -/
def overtaken : SignedPart := rulePart 1 3 1 (rule 1 1 1)

def reclaimed : Marked :=
  (reclaiming ++ [Action.fetch 3 1 500]).foldl (Marked.step (wire [overtaken]) keypair) unmarked

theorem overtaken_accepted (s : Inner) :
    authorize (wire [overtaken]) (reclaimed.net.registry.answers (wire [overtaken]))
      (storeResolver s) ((wire [overtaken]).signEvent (keypair 1) overtaken) = .ok overtaken := by
  apply accepted_of_owner
  · rfl
  · rfl
  · exact (rfl : reclaimed.net.registry.owners (server 1) = some (1, 3))
  · exact Nat.le_refl 3
  · rfl
  · simp [wire]

end Agora

theorem stale_writes_fenced_agora :
    Along (Marked.step (Agora.wire [Agora.current]) Agora.keypair)
      (FencedOff (Agora.wire [Agora.current]) Agora.keypair) Agora.unmarked
      ([.claim (Agora.server 1) 1, Agora.ruling] ++ Agora.pulling) := by
  apply stale_writes_fenced
  · exact fun _ => rfl
  · intro scope owner epoch howner
    cases howner
  · exact fun _ _ => rfl
  · refine ⟨trivial, trivial, trivial, ?_, trivial⟩
    intro part hpart
    obtain rfl : part = Agora.current := List.mem_singleton.1 hpart
    simp [Agora.wire]
  · refine ⟨trivial, trivial, ?_, ?_, trivial⟩
    · intro part hpart scope hscope
      obtain rfl : part = Agora.current := List.mem_singleton.1 hpart
      obtain rfl : Agora.server 1 = scope := OwnedScope.toEvent_inj hscope
      decide
    · apply placedAsSigned_of_owned
      · intro part hpart
        obtain rfl : part = Agora.current := List.mem_singleton.1 hpart
        exact ⟨rfl, by simp [Agora.wire], Agora.server 1, rfl, rfl⟩

/-- The rule that was written under the first epoch is applied under the third. -/
theorem stale_write_applied :
    ¬ Along (Marked.step (Agora.wire [Agora.overtaken]) Agora.keypair)
      (FencedOff (Agora.wire [Agora.overtaken]) Agora.keypair) Agora.unmarked
      (Agora.reclaiming ++ Agora.pulling) := by
  intro h
  obtain ⟨-, -, hingest, -⟩ := along_append.1 h
  have happlied : ⟨Agora.overtaken, Agora.server 1⟩ ∈
      Agora.reclaimed.net.applied (Agora.wire [Agora.overtaken]) Agora.keypair 3 1 :=
    applied_of_single (Agora.overtaken_accepted _) rfl rfl rfl
  have hlt : 1 < 1 := hingest _ happlied
  omega

end Democrachat.Federation
