import Democrachat.Polity.Pending

/-!
# How far a pending effect has come

While calls of `resolveDue` run side by side, the polity passes three stages:
the effect is pending, it has been enacted, and its proposal has been flagged.
An effect that mints no row only ever moves the polity forward.
-/

namespace Democrachat

open Library Prog

/-- The polity without its history. -/
def Polity.bare (c : Polity) : Polity := { c with effects := [] }

/-- Before the effect, after it, and after its proposal was flagged. -/
def stage (w : World) (p : Proposal) : Nat → Polity
  | 0 => w.polity.bare
  | 1 => w.polity.bare.enact p.serverId p.kind w.now
  | _ => (w.polity.bare.enact p.serverId p.kind w.now).putProposal { p with isApplied := true }

/-- The world has come to stage `i` at least. -/
def Reached (w : World) (p : Proposal) (i : Nat) (v : World) : Prop :=
  ∃ j, i ≤ j ∧ j ≤ 2 ∧ v.polity.bare = stage w p j

/-- What the other calls may do: they move no stage back. -/
abbrev Onward (w : World) (p : Proposal) : World → World → Prop := Preserving (Reached w p)

/-- The step takes the world to stage `k`, or leaves it at a later one. -/
def LiftsTo (w : World) (p : Proposal) (k : Nat) (v v' : World) : Prop :=
  ∀ j ≤ 2, v.polity.bare = stage w p j → v'.polity.bare = stage w p (max k j)

section Stages

variable {w v v' : World} {p : Proposal} {i k : Nat} {α : Type}

theorem LiftsTo.onward (h : LiftsTo w p k v v') (hk : k ≤ 2) : Onward w p v v' := by
  rintro i ⟨j, hij, hj, hv⟩
  exact ⟨max k j, hij.trans (le_max_right k j), max_le hk hj, h j hj hv⟩

theorem LiftsTo.reached (h : LiftsTo w p k v v') (hk : k ≤ 2) (hv : Reached w p i v) :
    Reached w p k v' := by
  obtain ⟨j, -, hj, hv⟩ := hv
  exact ⟨max k j, le_max_left k j, max_le hk hj, h j hj hv⟩

theorem safe_pure (a : α) (hv : Reached w p i v) :
    Safe (Onward w p) (fun _ => Reached w p i) (pure a) v :=
  fun _ hvt => hvt i hv

theorem safe_ask {β : Type} {f : Inner → β} {next : β → Prog World α}
    {Q : α → World → Prop} (hv : Reached w p i v)
    (h : ∀ t, Reached w p i t → Safe (Onward w p) Q (next (f t.store)) t) :
    Safe (Onward w p) Q (ask f >>= next) v :=
  Safe.query_bind (Preserving.refl _) (fun t hvt => h t (hvt i hv))

theorem safe_modify {f : World → World} (hk : k ≤ 2) (hv : Reached w p i v)
    (h : ∀ t, Reached w p i t → LiftsTo w p k t (f t)) :
    Safe (Onward w p) (fun _ => Reached w p k) (modify f) v := by
  intro t hvt
  have ht := hvt i hv
  exact ⟨(h t ht).onward hk, safe_pure () ((h t ht).reached hk ht)⟩

theorem safe_transact {f : Inner → α × Inner} (hk : k ≤ 2) (hv : Reached w p i v)
    (h : ∀ t, Reached w p i t → LiftsTo w p k t (t.mapStore (fun s => (f s).2))) :
    Safe (Onward w p) (fun _ => Reached w p k) (transact f) v := by
  intro t hvt
  have ht := hvt i hv
  exact ⟨(h t ht).onward hk, safe_pure _ ((h t ht).reached hk ht)⟩

/-- A write that makes the effect, and changes nothing where it was made before. -/
theorem liftsTo_enacted {F : Polity → Polity} (hF : v'.polity.bare = F v.polity.bare)
    (hcomm : ∀ c q, F (c.putProposal q) = (F c).putProposal q)
    (hfirst : F (stage w p 0) = stage w p 1) (hagain : F (stage w p 1) = stage w p 1) :
    LiftsTo w p 1 v v' := by
  intro j hj hv
  rw [hF, hv]
  obtain rfl | rfl | rfl : j = 0 ∨ j = 1 ∨ j = 2 := by omega
  · exact hfirst
  · exact hagain
  · have hflagged : F ((stage w p 1).putProposal { p with isApplied := true }) =
        (stage w p 1).putProposal { p with isApplied := true } := by
      rw [hcomm, hagain]
    exact hflagged

/-- An effect that changes nothing is made from the start. -/
theorem Reached.enacted_of_idle (h : Reached w p 0 v) (hidle : stage w p 1 = stage w p 0) :
    Reached w p 1 v := by
  obtain ⟨j, -, hj, hv⟩ := h
  rcases Nat.eq_zero_or_pos j with rfl | hpos
  · exact ⟨1, le_refl 1, by omega, hv.trans hidle.symm⟩
  · exact ⟨j, hpos, hj, hv⟩

/-- What a call that has come so far reads is what the stage holds. -/
theorem Reached.cases (h : Reached w p 0 v) :
    v.polity.bare = stage w p 0 ∨ Reached w p 1 v ∧
      (v.polity.bare = stage w p 1 ∨
        v.polity.bare = (stage w p 1).putProposal { p with isApplied := true }) := by
  obtain ⟨j, -, hj, hv⟩ := h
  obtain rfl | rfl | rfl : j = 0 ∨ j = 1 ∨ j = 2 := by omega
  · exact .inl hv
  · exact .inr ⟨⟨1, le_refl 1, by omega, hv⟩, .inl hv⟩
  · exact .inr ⟨⟨2, by omega, le_refl 2, hv⟩, .inr hv⟩

/-- A table that flagging does not touch is, from the first stage on, as the
effect left it. -/
theorem Reached.table {τ : Type} (h : Reached w p 0 v) (T : Polity → τ)
    (hT : ∀ c q, T (Polity.putProposal c q) = T c) :
    T v.polity.bare = T (stage w p 0) ∨ Reached w p 1 v ∧ T v.polity.bare = T (stage w p 1) := by
  rcases h.cases with hv | ⟨hreached, hv | hv⟩
  · exact .inl (congrArg T hv)
  · exact .inr ⟨hreached, congrArg T hv⟩
  · exact .inr ⟨hreached, (congrArg T hv).trans (hT _ _)⟩

/-- A table is as it was when the stages began where the effect changes nothing. -/
theorem Reached.table_of_idle {τ : Type} (h : Reached w p 0 v) {T : Polity → τ}
    (hT : ∀ c q, T (Polity.putProposal c q) = T c) (hidle : stage w p 1 = stage w p 0) :
    T v.polity.bare = T w.polity.bare := by
  rcases h.table T hT with hsame | ⟨-, hsame⟩
  · exact hsame
  · rw [hidle] at hsame
    exact hsame

end Stages

/-! ## The effects that mint nothing -/

section Arms

variable {w v : World} {p : Proposal} {sid : ServerId}

/-- The call looks for a row and writes over it, twice the same. -/
theorem safe_edit {ρ : Type} {l : Inner → Option ρ} {L : Polity → Option ρ} {f : ρ → ρ}
    {u : ρ → Inner → Inner} {F : ρ → Polity → Polity} {k : Option ρ → Prog World Unit}
    (hlook : ∀ t : World, l t.store = L t.polity.bare)
    (hcomm : ∀ c q, L (Polity.putProposal c q) = L c) (hskip : k none = pure ())
    (hwrites : ∀ r, k (some r) = write (u (f r)))
    (hF : ∀ r (t : World), (t.mapStore (u r)).polity.bare = F r t.polity.bare)
    (hputs : ∀ r c q, F r (Polity.putProposal c q) = (F r c).putProposal q)
    (hagain : ∀ r, f (f r) = f r)
    (hnone : L w.polity.bare = none → stage w p 1 = stage w p 0)
    (hsome : ∀ r, L w.polity.bare = some r → F (f r) w.polity.bare = stage w p 1 ∧
      L (stage w p 1) = some (f r) ∧ F (f r) (stage w p 1) = stage w p 1)
    (hv : Reached w p 0 v) : Safe (Onward w p) (fun _ => Reached w p 1) (ask l >>= k) v := by
  refine safe_ask hv (fun t ht => ?_)
  rw [hlook]
  cases hr : L w.polity.bare with
  | none =>
    have hidle := hnone hr
    rw [ht.table_of_idle hcomm hidle, hr, hskip]
    exact safe_pure () (ht.enacted_of_idle hidle)
  | some r =>
    obtain ⟨hfirst, hread, hover⟩ := hsome r hr
    obtain ⟨r', hr', hfr⟩ : ∃ r', L t.polity.bare = some r' ∧ f r' = f r := by
      rcases ht.table L hcomm with hL | ⟨-, hL⟩
      · exact ⟨r, hL.trans hr, rfl⟩
      · exact ⟨f r, hL.trans hread, hagain r⟩
    rw [hr', hwrites, hfr]
    refine safe_modify (by omega) ht (fun v' _ => ?_)
    exact liftsTo_enacted (F := F (f r)) (hF (f r) v') (hputs (f r)) hfirst hover

theorem safe_editServer {f : Server → Server} (hid : ∀ g, (f g).id = g.id)
    (hagain : ∀ g, f (f g) = f g) (hstage : stage w p 1 = w.polity.bare.editServer sid f)
    (hv : Reached w p 0 v) :
    Safe (Onward w p) (fun _ => Reached w p 1) (editServer sid f) v := by
  refine safe_edit (L := fun c => c.servers.get sid) (f := f) (u := fun g s => s.updateServer g)
    (F := fun g c => { c with servers := c.servers.insert g }) (fun _ => rfl) (fun _ _ => rfl) rfl
    (fun _ => rfl) (fun _ _ => rfl) (fun _ _ _ => rfl) hagain ?_ ?_ hv
  · intro hnone
    rw [hstage, Polity.editServer, hnone]
    rfl
  · intro g hg
    obtain rfl : g.id = sid := Table.key_of_get hg
    have hfirst : stage w p 1 =
        { w.polity.bare with servers := w.polity.bare.servers.insert (f g) } := by
      rw [hstage, Polity.editServer, hg]
    rw [hfirst]
    refine ⟨rfl, ?_, ?_⟩
    · rw [← hid g]
      exact Table.get_insert_self _ _
    · exact congrArg (fun T => { w.polity.bare with servers := T }) (Table.insert_insert rfl)

theorem safe_editMembership {user : UserId} {f : Membership → Membership}
    (hsame : ∀ m, SameStanding m (f m)) (hagain : ∀ m, f (f m) = f m)
    (hstage : stage w p 1 = w.polity.bare.editMembership user sid f) (hv : Reached w p 0 v) :
    Safe (Onward w p) (fun _ => Reached w p 1) (editMembership user sid f) v := by
  refine safe_edit (L := fun c => c.roster.member user sid) (f := f)
    (u := fun m s => s.upsertMembership m) (F := fun m c => { c with roster := c.roster.insert m })
    (fun _ => rfl) (fun _ _ => rfl) rfl (fun _ => rfl) (fun _ _ => rfl) (fun _ _ _ => rfl) hagain
    ?_ ?_ hv
  · intro hnone
    rw [hstage, Polity.editMembership, hnone]
    rfl
  · intro m hm
    have hfirst : stage w p 1 =
        { w.polity.bare with roster := w.polity.bare.roster.insert (f m) } := by
      rw [hstage, Polity.editMembership, hm]
    have hkey : toLex (user, sid) = (f m).key :=
      (Table.key_of_get hm).symm.trans (hsame m).key.symm
    rw [hfirst]
    refine ⟨rfl, ?_, ?_⟩
    · rw [Roster.member, hkey]
      exact Table.get_insert_self _ _
    · exact congrArg (fun T => { w.polity.bare with roster := T }) (Table.insert_insert rfl)

/-- A removal, an assignment or the end of one: one access that does nothing the
second time. -/
theorem safe_once {f : Inner → Bool × Inner} {F : Polity → Polity}
    (hF : ∀ t : World, (t.mapStore (fun s => (f s).2)).polity = F t.polity)
    (hbare : ∀ c, F (Polity.bare c) = (F c).bare)
    (hcomm : ∀ c q, F (c.putProposal q) = (F c).putProposal q)
    (hagain : ∀ c, F (F c) = F c) (hstage : stage w p 1 = F w.polity.bare)
    (hv : Reached w p 0 v) :
    Safe (Onward w p) (fun _ => Reached w p 1)
      (do
        let _ ← transact f
        return ()) v := by
  refine Safe.bind (Preserving.refl _) (safe_transact (k := 1) (by omega) hv (fun t _ => ?_))
    (fun _ t ht => safe_pure () ht)
  refine liftsTo_enacted (F := F) ?_ hcomm hstage.symm (by rw [hstage, hagain])
  rw [hF, hbare]

/-- The call looks for a row that the effect removes. -/
theorem safe_removal {ρ : Type} {l : Inner → Option ρ} {L : Polity → Option ρ}
    {k : Option ρ → Prog World Unit} (hlook : ∀ t : World, l t.store = L t.polity.bare)
    (hcomm : ∀ c q, L (Polity.putProposal c q) = L c) (hskip : k none = pure ())
    (hnone : L w.polity.bare = none → stage w p 1 = stage w p 0)
    (hsome : ∀ r, L w.polity.bare = some r → L (stage w p 1) = none ∧
      ∀ t, Reached w p 0 t → Safe (Onward w p) (fun _ => Reached w p 1) (k (some r)) t)
    (hv : Reached w p 0 v) : Safe (Onward w p) (fun _ => Reached w p 1) (ask l >>= k) v := by
  refine safe_ask hv (fun t ht => ?_)
  rw [hlook]
  cases hr : L w.polity.bare with
  | none =>
    have hidle := hnone hr
    rw [ht.table_of_idle hcomm hidle, hr, hskip]
    exact safe_pure () (ht.enacted_of_idle hidle)
  | some r =>
    obtain ⟨hgone, hnext⟩ := hsome r hr
    rcases ht.table L hcomm with hL | ⟨hreached, hL⟩
    · rw [hL.trans hr]
      exact hnext t ht
    · rw [hL.trans hgone, hskip]
      exact safe_pure () hreached

/-- The call does something to a role if it is a role of the server. -/
theorem safe_ifRole {role : RoleId} {f : Inner → Bool × Inner} {F : Polity → Polity}
    (hF : ∀ t : World, (t.mapStore (fun s => (f s).2)).polity = F t.polity)
    (hbare : ∀ c, F (Polity.bare c) = (F c).bare)
    (hcomm : ∀ c q, F (c.putProposal q) = (F c).putProposal q)
    (hagain : ∀ c, F (F c) = F c)
    (hstage : stage w p 1 = if w.polity.bare.hasRole role sid then F w.polity.bare
      else w.polity.bare)
    (hv : Reached w p 0 v) :
    Safe (Onward w p) (fun _ => Reached w p 1)
      (do
        if (← ask (·.getRole role)).any (fun r => r.serverId == sid) then
          let _ ← transact f
          return ()
        else
          return ()) v := by
  refine safe_ask hv (fun t ht => ?_)
  have hread : (t.store.getRole role).any (fun r => r.serverId == sid) =
      t.polity.bare.hasRole role sid := rfl
  cases hrole : w.polity.bare.hasRole role sid with
  | false =>
    have hidle : stage w p 1 = stage w p 0 := by
      rw [hstage, hrole]
      rfl
    have hnone := ht.table_of_idle (T := fun c => c.hasRole role sid) (fun _ _ => rfl) hidle
    rw [hread, hnone.trans hrole]
    exact safe_pure () (ht.enacted_of_idle hidle)
  | true =>
    rw [hrole] at hstage
    rw [hread]
    split
    next => exact safe_once hF hbare hcomm hagain hstage ht
    next hgone =>
      rcases ht.table (fun c => c.hasRole role sid) (fun _ _ => rfl) with hL | ⟨hreached, -⟩
      · exact absurd (hL.trans hrole) hgone
      · exact safe_pure () hreached

end Arms

/-! ## Accesses that do nothing the second time -/

namespace Polity

def dropChannel (c : Polity) (id : ChannelId) : Polity :=
  if (c.channels.get id).isSome then c.removeChannel id else c

def dropRole (c : Polity) (id : RoleId) : Polity :=
  if (c.roles.get id).isSome then c.removeRole id else c

variable (c : Polity)

theorem dropChannel_dropChannel (id : ChannelId) :
    (c.dropChannel id).dropChannel id = c.dropChannel id := by
  by_cases hget : (c.channels.get id).isSome = true
  · have hgone : (c.removeChannel id).channels.get id = none :=
      (Table.get_erase _ _ _).trans (if_pos rfl)
    rw [dropChannel, dropChannel, if_pos hget, hgone]
    rfl
  · rw [dropChannel, dropChannel, if_neg hget, if_neg hget]

theorem dropRole_dropRole (id : RoleId) : (c.dropRole id).dropRole id = c.dropRole id := by
  by_cases hget : (c.roles.get id).isSome = true
  · have hgone : (c.removeRole id).roles.get id = none :=
      (Table.get_erase _ _ _).trans (if_pos rfl)
    rw [dropRole, dropRole, if_pos hget, hgone]
    rfl
  · rw [dropRole, dropRole, if_neg hget, if_neg hget]

/-- `drop` and `assign` look at no table that these writes change. -/
theorem ite_comm {q : Prop} [Decidable q] (G : Polity → Polity) (c' c'' : Polity) :
    (if q then G c' else G c'') = G (if q then c' else c'') :=
  (apply_ite G q c' c'').symm

theorem assign_assign (a : RoleAssignment) : (c.assign a).assign a = c.assign a := by
  unfold assign
  split
  next => rfl
  next => rw [if_pos (by simp)]

theorem unassign_unassign (role : RoleId) (user : UserId) :
    (c.unassign role user).unassign role user = c.unassign role user := by
  simp [unassign, List.filter_filter]

end Polity

theorem polity_dropChannel (t : World) (id : ChannelId) :
    (t.mapStore (fun s => (s.removeChannel id).2)).polity = t.polity.dropChannel id := by
  cases hget : t.polity.channels.get id with
  | some x =>
    rw [polity_removeChannel t hget, Polity.dropChannel, hget]
    rfl
  | none =>
    rw [Polity.dropChannel, hget]
    have hget : t.store.channels.get id = none := hget
    simp only [World.mapStore, Inner.removeChannel, hget]
    rfl

theorem polity_dropRole (t : World) (id : RoleId) :
    (t.mapStore (fun s => (s.removeRole id).2)).polity = t.polity.dropRole id := by
  cases hget : t.polity.roles.get id with
  | some r =>
    rw [polity_removeRole t hget, Polity.dropRole, hget]
    rfl
  | none =>
    rw [Polity.dropRole, hget]
    have hget : t.store.roles.get id = none := hget
    simp only [World.mapStore, Inner.removeRole, hget]
    rfl

/-! ## Enacting -/

/-- The effect mints a row: a rule, or a channel or a role under a free name. -/
def Proposal.mints (p : Proposal) (c : Polity) : Bool :=
  match p.kind with
  | .addRule _ => true
  | .createChannel name _ =>
    !(normalizeChannelName name).isEmpty &&
      (c.findChannel p.serverId (normalizeChannelName name)).isNone
  | .createRole name =>
    !(normalizeRoleName name).isEmpty &&
      (c.findRole p.serverId (normalizeRoleName name)).isNone
  | _ => false

section Enact

variable {w v : World} {p : Proposal}

/-- A call that enacts this kind of effect brings the polity to the stage where
it is made. -/
structure Makes (w : World) (p : Proposal) (kind : ProposalKind) (v : World) : Prop where
  safe : Safe (Onward w p) (fun _ => Reached w p 1) (enact p.serverId kind w.now) v

/-- A removed channel's name is free. -/
theorem findChannel_removeChannel {c : Polity} (h : NamesUnique c) {sid : ServerId}
    {name : String} {x : Channel} (hx : c.findChannel sid name = some x) :
    (c.removeChannel x.id).findChannel sid name = none := by
  have hmem := List.mem_of_find?_eq_some hx
  have hnamed := List.find?_some hx
  simp only [Bool.and_eq_true, beq_iff_eq] at hnamed
  refine List.find?_eq_none.2 (fun y hy hfound => ?_)
  obtain ⟨hy, hne⟩ := Table.mem_erase.1 hy
  simp only [Bool.and_eq_true, beq_iff_eq] at hfound
  obtain rfl := h.channels y hy x hmem (hfound.1.trans hnamed.1.symm) (hfound.2.trans hnamed.2.symm)
  exact hne rfl

theorem stage_one {kind : ProposalKind} (hkind : p.kind = kind) :
    stage w p 1 = w.polity.bare.enact p.serverId kind w.now := by
  rw [← hkind]
  rfl

theorem makes_deleteChannel (hnames : NamesUnique w.polity) {name : String}
    (hkind : p.kind = .deleteChannel name) (hv : Reached w p 0 v) :
    Makes w p (.deleteChannel name) v := by
  constructor
  have hstage := stage_one (w := w) hkind
  refine safe_removal (l := fun s => s.findByName p.serverId (normalizeChannelName name))
    (L := fun c => c.findChannel p.serverId (normalizeChannelName name))
    (fun _ => rfl) (fun _ _ => rfl) rfl ?_ ?_ hv
  · intro hnone
    rw [hstage, Polity.enact]
    simp only [hnone]
    rfl
  · intro x hx
    have hfirst : stage w p 1 = w.polity.bare.removeChannel x.id := by
      rw [hstage, Polity.enact]
      simp only [hx]
    refine ⟨?_, fun t ht => ?_⟩
    · rw [hfirst]
      have hbare : NamesUnique w.polity.bare := ⟨hnames.channels, hnames.rules⟩
      exact findChannel_removeChannel hbare hx
    · have hmem : w.polity.bare.channels.get x.id = some x :=
        Table.mem_iff.1 (List.mem_of_find?_eq_some hx)
      refine safe_once (F := fun c => c.dropChannel x.id) (fun t => polity_dropChannel t x.id)
        ?_ ?_ (fun c => c.dropChannel_dropChannel x.id) ?_ ht
      · exact fun c => Polity.ite_comm Polity.bare (c.removeChannel x.id) c
      · exact fun c q => Polity.ite_comm (Polity.putProposal · q) (c.removeChannel x.id) c
      · rw [hfirst, Polity.dropChannel, hmem]
        rfl

/-- The call finds no name that is free, so it creates nothing. -/
theorem safe_creation {ρ : Type} {l : Inner → Option ρ} {L : Polity → Option ρ} {unnamed : Bool}
    {k : Option ρ → Prog World Unit} {created : Polity}
    (hlook : ∀ t : World, l t.store = L t.polity.bare)
    (hcomm : ∀ c q, L (Polity.putProposal c q) = L c) (hskip : ∀ r, k (some r) = pure ())
    (hstage : stage w p 1 =
      if unnamed || (L w.polity.bare).isSome then w.polity.bare else created)
    (hmints : (!unnamed && (L w.polity.bare).isNone) = false) (hv : Reached w p 0 v) :
    Safe (Onward w p) (fun _ => Reached w p 1)
      (if unnamed = true then pure () else ask l >>= k) v := by
  by_cases hunnamed : unnamed = true
  · have hidle : stage w p 1 = stage w p 0 := by
      rw [hstage, hunnamed]
      rfl
    rw [if_pos hunnamed]
    exact safe_pure () (hv.enacted_of_idle hidle)
  · have htaken : (L w.polity.bare).isSome = true := by
      simpa [hunnamed] using hmints
    have hidle : stage w p 1 = stage w p 0 := by
      rw [hstage, htaken, Bool.or_true]
      rfl
    rw [if_neg hunnamed]
    refine safe_ask hv (fun t ht => ?_)
    obtain ⟨r, hr⟩ := Option.isSome_iff_exists.1 htaken
    rw [hlook, ht.table_of_idle hcomm hidle, hr, hskip]
    exact safe_pure () (ht.enacted_of_idle hidle)

theorem makes_createChannel {name topic : String} (hkind : p.kind = .createChannel name topic)
    (hmints : p.mints w.polity = false) (hv : Reached w p 0 v) :
    Makes w p (.createChannel name topic) v := by
  constructor
  have hstage := stage_one (w := w) hkind
  simp only [Proposal.mints, hkind] at hmints
  simp only [enact, Polity.enact] at hstage ⊢
  generalize normalizeChannelName name = normalized at hmints hstage ⊢
  exact safe_creation (l := fun s => s.findByName p.serverId normalized)
    (L := fun c => c.findChannel p.serverId normalized)
    (fun _ => rfl) (fun _ _ => rfl) (fun _ => rfl) hstage hmints hv

theorem makes_createRole {name : String} (hkind : p.kind = .createRole name)
    (hmints : p.mints w.polity = false) (hv : Reached w p 0 v) :
    Makes w p (.createRole name) v := by
  constructor
  have hstage := stage_one (w := w) hkind
  simp only [Proposal.mints, hkind] at hmints
  simp only [enact, Polity.enact] at hstage ⊢
  generalize normalizeRoleName name = normalized at hmints hstage ⊢
  exact safe_creation (l := fun s => s.findRole p.serverId normalized)
    (L := fun c => c.findRole p.serverId normalized)
    (fun _ => rfl) (fun _ _ => rfl) (fun _ => rfl) hstage hmints hv

/-- An effect that mints nothing takes the polity to the stage where it is made,
whatever the other calls have done. -/
theorem makes_of_not_mints (hnames : NamesUnique w.polity) (hmints : p.mints w.polity = false)
    (hv : Reached w p 0 v) : Makes w p p.kind v := by
  cases hkind : p.kind with
  | createChannel name topic => exact makes_createChannel hkind hmints hv
  | deleteChannel name => exact makes_deleteChannel hnames hkind hv
  | addRule text => simp [Proposal.mints, hkind] at hmints
  | removeRule rule =>
    refine ⟨safe_once (F := fun c => { c with rules := c.rules.erase rule })
      (fun t => polity_removeRule t rule) (fun _ => rfl) (fun _ _ => rfl) ?_ (stage_one hkind) hv⟩
    intro c
    rw [Table.erase_erase]
  | ban user =>
    exact ⟨safe_editMembership sameStanding_sanctioned (fun _ => rfl) (stage_one hkind) hv⟩
  | timeout user until_ =>
    exact ⟨safe_editMembership sameStanding_sanctioned (fun _ => rfl) (stage_one hkind) hv⟩
  | grantVoteWeight user weight =>
    exact ⟨safe_editMembership (sameStanding_granted weight) (fun _ => rfl) (stage_one hkind) hv⟩
  | setGovernanceSurface enabled =>
    exact ⟨safe_editServer (fun _ => rfl) (fun _ => rfl) (stage_one hkind) hv⟩
  | amendCriteria proposed =>
    exact ⟨safe_editServer (fun _ => rfl) (fun _ => rfl) (stage_one hkind) hv⟩
  | setJurySizing sizing =>
    exact ⟨safe_editServer (fun _ => rfl) (fun _ => rfl) (stage_one hkind) hv⟩
  | setVoteWeighting scheme =>
    exact ⟨safe_editServer (fun _ => rfl) (fun _ => rfl) (stage_one hkind) hv⟩
  | setWeightingScope scope =>
    exact ⟨safe_editServer (fun _ => rfl) (fun _ => rfl) (stage_one hkind) hv⟩
  | setRehomingPolicy isDisabled =>
    exact ⟨safe_editServer (fun _ => rfl) (fun _ => rfl) (stage_one hkind) hv⟩
  | setInvitePolicy policy =>
    exact ⟨safe_editServer (fun _ => rfl) (fun _ => rfl) (stage_one hkind) hv⟩
  | createRole name =>
    exact makes_createRole hkind hmints hv
  | deleteRole role =>
    refine ⟨safe_ifRole (F := fun c => c.dropRole role) (fun t => polity_dropRole t role)
      ?_ ?_ (fun c => c.dropRole_dropRole role) ?_ hv⟩
    · exact fun c => Polity.ite_comm Polity.bare (c.removeRole role) c
    · exact fun c q => Polity.ite_comm (Polity.putProposal · q) (c.removeRole role) c
    · rw [stage_one hkind, Polity.enact]
      split
      next hrole =>
        obtain ⟨r, hr, -⟩ := (w.polity.bare.hasRole_eq_true p.serverId).1 hrole
        rw [Polity.dropRole, hr]
        rfl
      next => rfl
  | assignRole user role =>
    refine ⟨safe_ifRole (F := fun c => c.assign ⟨p.serverId, role, user⟩)
      (fun t => polity_assign t _) ?_ ?_ (fun c => c.assign_assign _) (stage_one hkind) hv⟩
    · exact fun c => Polity.ite_comm Polity.bare c
        { c with roleAssignments := c.roleAssignments ++ [⟨p.serverId, role, user⟩] }
    · exact fun c q => Polity.ite_comm (Polity.putProposal · q) c
        { c with roleAssignments := c.roleAssignments ++ [⟨p.serverId, role, user⟩] }
  | unassignRole user role =>
    exact ⟨safe_ifRole (F := fun c => c.unassign role user) (fun t => polity_unassign t role user)
      (fun _ => rfl) (fun _ _ => rfl) (fun c => c.unassign_unassign role user) (stage_one hkind) hv⟩
  | «recall» leader => exact ⟨safe_pure () (hv.enacted_of_idle (stage_one hkind))⟩
  | removeContent target => exact ⟨safe_pure () (hv.enacted_of_idle (stage_one hkind))⟩

end Enact

end Democrachat
