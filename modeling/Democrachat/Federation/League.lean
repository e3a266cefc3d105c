import Democrachat.Federation.Threads
import Democrachat.Library.Runs

/-!
# Nodes with one clock

Nodes that serve requests and take over each other's records, in any order and any number of
times, by clocks that agree and never go back.
-/

namespace Democrachat

open Library Federation

structure League where
  stores : NodeId → Inner
  now : Timestamp
  /-- What has been posted, in that order.  Nothing in the program reads it. -/
  posted : List Post

namespace League

inductive Act where
  | wait (secs : Nat)
  | serve (node : NodeId) (u : UseCase)
  | deliver (sender receiver : NodeId) (i : Nat)

/-- Each node starts empty. -/
def start (now : Timestamp) : League := ⟨fun node => .empty node, now, []⟩

variable (services : Services) (l : League)

/-- What the services of a node find. -/
def world (node : NodeId) : World := ⟨l.stores node, l.now, []⟩

/-- The store of the node after the request. -/
def served (node : NodeId) (u : UseCase) : Inner := (services.serve (l.world node) u).store

/-- What the node posts under a number that it has not given before. -/
def entered? : Act → Option Post
  | .serve node u =>
    (l.served services node u).posts.find? (fun e =>
      e.node = node ∧ (l.stores node).lastOf e.group < e.sequence)
  | _ => none

def step (a : Act) : League :=
  match a with
  | .wait secs => { l with now := ⟨l.now.secs + secs⟩ }
  | .serve node u =>
    { l with
      stores := Function.update l.stores node (l.served services node u)
      posted := l.posted ++ (l.entered? services a).toList }
  | .deliver sender receiver i =>
    match (l.stores sender).outbox[i]? with
    | some r =>
      { l with stores := Function.update l.stores receiver (r.applyTo (l.stores receiver)) }
    | none => l

def run (acts : List Act) : League := acts.foldl (step services) l

/-- No node posts into a thread after a node of a higher number has, at an earlier time. -/
def InTurn (a : Act) : Prop :=
  ∀ e ∈ l.entered? services a, ∀ e' ∈ l.posted,
    e.node < e'.node → e'.group = e.group → e.time ≤ e'.time

instance (a : Act) : Decidable (l.InTurn services a) :=
  inferInstanceAs (Decidable (∀ e ∈ l.entered? services a, _))

/-- What is stored and told has been posted, and what has been posted is numbered, lies in the
past, and has been posted in turn. -/
structure Kept : Prop where
  node : ∀ n, (l.stores n).node = n
  stored : ∀ n, ∀ e ∈ (l.stores n).posts, e ∈ l.posted
  told : ∀ n, ∀ r ∈ (l.stores n).outbox, ∀ e ∈ r.payload.post?, e ∈ l.posted
  counted : ∀ e ∈ l.posted, e.sequence ≤ (l.stores e.node).lastOf e.group
  past : ∀ e ∈ l.posted, e.time ≤ l.now.secs
  ordered : l.posted.Pairwise Entry.Precedes

theorem kept_start (now : Timestamp) : (start now).Kept where
  node := fun _ => rfl
  stored := fun _ _ he => absurd he List.not_mem_nil
  told := fun _ _ hr => absurd hr List.not_mem_nil
  counted := fun _ he => absurd he List.not_mem_nil
  past := fun _ he => absurd he List.not_mem_nil
  ordered := .nil

variable {services l}

theorem Kept.wait (h : l.Kept) (secs : Nat) : (l.step services (.wait secs)).Kept :=
  { h with
    past := by
      intro e he
      have hpast := h.past e he
      show e.time ≤ l.now.secs + secs
      omega }

/-- One node has a new store, and has posted something or nothing. -/
theorem Kept.update (h : l.Kept) {node : NodeId} {t : Inner} {new : List Post}
    (hnode : t.node = node) (hlast : ∀ thread, (l.stores node).lastOf thread ≤ t.lastOf thread)
    (hposts : ∀ e ∈ t.posts, e ∈ l.posted ++ new)
    (houtbox : ∀ r ∈ t.outbox, ∀ e ∈ r.payload.post?, e ∈ l.posted ++ new)
    (hcounted : ∀ e ∈ new, e.node = node ∧ e.sequence ≤ t.lastOf e.group)
    (hpast : ∀ e ∈ new, e.time ≤ l.now.secs)
    (hordered : (l.posted ++ new).Pairwise Entry.Precedes) :
    Kept ⟨Function.update l.stores node t, l.now, l.posted ++ new⟩ where
  node := by
    intro n
    show (Function.update l.stores node t n).node = n
    by_cases hn : n = node
    · rw [hn, Function.update_self, hnode]
    · rw [Function.update_of_ne hn, h.node n]
  stored := by
    intro n e he
    replace he : e ∈ (Function.update l.stores node t n).posts := he
    by_cases hn : n = node
    · rw [hn, Function.update_self] at he
      exact hposts e he
    · rw [Function.update_of_ne hn] at he
      exact List.mem_append_left _ (h.stored n e he)
  told := by
    intro n r hr e he
    replace hr : r ∈ (Function.update l.stores node t n).outbox := hr
    by_cases hn : n = node
    · rw [hn, Function.update_self] at hr
      exact houtbox r hr e he
    · rw [Function.update_of_ne hn] at hr
      exact List.mem_append_left _ (h.told n r hr e he)
  counted := by
    intro e he
    show e.sequence ≤ (Function.update l.stores node t e.node).lastOf e.group
    rcases List.mem_append.1 he with hold | hnew
    · have hbefore := h.counted e hold
      by_cases hn : e.node = node
      · rw [hn] at hbefore ⊢
        rw [Function.update_self]
        exact hbefore.trans (hlast e.group)
      · rw [Function.update_of_ne hn]
        exact hbefore
    · obtain ⟨hown, hnumber⟩ := hcounted e hnew
      rw [hown, Function.update_self]
      exact hnumber
  past := by
    intro e he
    rcases List.mem_append.1 he with hold | hnew
    · exact h.past e hold
    · exact hpast e hnew
  ordered := hordered

/-! ## A record that is delivered -/

theorem mem_posts_put {s : Inner} {row : Row} {e : Post} (h : e ∈ (s.put row).posts) :
    e ∈ s.posts ∨ row.post? = some e := by
  cases row with
  | message m =>
    rcases Inner.mem_posts.1 h with ⟨x, hx, rfl⟩ | hdm
    · rcases Table.mem_insert.1 hx with rfl | ⟨hold, -⟩
      · exact .inr rfl
      · exact .inl (Inner.mem_posts.2 (.inl ⟨x, hold, rfl⟩))
    · exact .inl (Inner.mem_posts.2 (.inr hdm))
  | dm m =>
    rw [Inner.put] at h
    split at h
    next => exact .inl h
    next =>
      rcases Inner.mem_posts.1 h with hmessage | ⟨x, hx, rfl⟩
      · exact .inl (Inner.mem_posts.2 (.inl hmessage))
      · rcases List.mem_append.1 hx with hold | hnew
        · exact .inl (Inner.mem_posts.2 (.inr ⟨x, hold, rfl⟩))
        · rw [List.mem_singleton.1 hnew]
          exact .inr rfl
  | reaction | roleAssignment | block =>
    rw [Inner.put] at h
    split at h <;> exact .inl h
  | _ => exact .inl h

theorem mem_posts_drop {s : Inner} {row : Row} {e : Post} (h : e ∈ (s.drop row).posts) :
    e ∈ s.posts := by
  have hless : ∀ {t : Inner}, e ∈ t.posts → (∀ m ∈ t.messages.rows, m ∈ s.messages.rows) →
      t.dms = s.dms → e ∈ s.posts := by
    intro t he hmessages hdms
    rw [Inner.mem_posts, hdms] at he
    rcases he with ⟨m, hm, hpost⟩ | hdm
    · exact Inner.mem_posts.2 (.inl ⟨m, hmessages m hm, hpost⟩)
    · exact Inner.mem_posts.2 (.inr hdm)
  cases row with
  | channel c => exact hless h (fun _ hm => (Table.mem_retain.1 hm).1) rfl
  | message m => exact hless h (fun _ hm => (Table.mem_erase.1 hm).1) rfl
  | _ => exact h

/-- A replica takes over the post of the record. -/
theorem mem_posts_applyTo {s : Inner} {r : Democrachat.ChangeRecord} {e : Post}
    (h : e ∈ (r.applyTo s).posts) : e ∈ s.posts ∨ r.payload.post? = some e := by
  obtain ⟨seq, op, row⟩ := r
  cases op with
  | upsert => exact mem_posts_put h
  | delete =>
    cases row with
    | reaction x => exact .inl h
    | _ => exact .inl (mem_posts_drop h)

theorem withoutRows_applyTo (s : Inner) (r : Democrachat.ChangeRecord) :
    (r.applyTo s).withoutRows = s.withoutRows := by
  obtain ⟨seq, op, row⟩ := r
  cases op with
  | upsert => exact s.withoutRows_put row
  | delete =>
    cases row with
    | reaction x => rfl
    | _ => exact s.withoutRows_drop _

theorem lastOf_of_withoutRows {s t : Inner} (h : s.withoutRows = t.withoutRows) :
    s.lastOf = t.lastOf := by
  have hlast : s.withoutRows.lastOf = t.withoutRows.lastOf := by rw [h]
  exact hlast

theorem Kept.deliver (h : l.Kept) (sender receiver : NodeId) (i : Nat) :
    (l.step services (.deliver sender receiver i)).Kept := by
  rw [step]
  split
  next r hr =>
    have hrest := withoutRows_applyTo (l.stores receiver) r
    have hkept : Kept ⟨Function.update l.stores receiver (r.applyTo (l.stores receiver)), l.now,
        l.posted ++ []⟩ := by
      refine h.update ?_ (fun thread => ?_) (fun e he => ?_) ?_ nofun nofun ?_
      · rw [Inner.node_of_withoutRows hrest, h.node]
      · rw [lastOf_of_withoutRows hrest]
      · rw [List.append_nil]
        rcases mem_posts_applyTo he with hold | htold
        · exact h.stored receiver e hold
        · exact h.told sender r (List.mem_of_getElem? hr) e htold
      · rw [Inner.outbox_of_withoutRows hrest, List.append_nil]
        exact h.told receiver
      · rw [List.append_nil]
        exact h.ordered
    rwa [List.append_nil] at hkept
  next => exact h

/-! ## A request that is served -/

/-- What a node has stored of its own has been numbered. -/
theorem not_fresh (h : l.Kept) {node : NodeId} {e : Post} (he : e ∈ (l.stores node).posts)
    (hown : e.node = node) : ¬ (l.stores node).lastOf e.group < e.sequence := by
  have hcounted := h.counted e (h.stored node e he)
  rw [hown] at hcounted
  omega

/-- A request that adds nothing enters nothing. -/
theorem entered?_of_quiet (h : l.Kept) {node : NodeId} {u : UseCase}
    (hquiet : (l.stores node).Quiet (l.served services node u)) :
    l.entered? services (.serve node u) = none := by
  refine List.find?_eq_none.2 (fun e he hfresh => ?_)
  obtain ⟨hown, hfresh⟩ := of_decide_eq_true hfresh
  exact not_fresh h (hquiet.posts e he) hown hfresh

/-- The post is the one that the request adds. -/
theorem entered?_of_adds (h : l.Kept) {node : NodeId} {u : UseCase} {e : Post}
    (hadds : (l.stores node).Adds l.now (l.served services node u) e) :
    l.entered? services (.serve node u) = some e := by
  have hown := hadds.own.trans (h.node node)
  rw [entered?]
  cases hfound : List.find? _ _ with
  | none =>
    exact absurd (decide_eq_true ⟨hown, hadds.fresh⟩) (List.find?_eq_none.1 hfound e hadds.added)
  | some e' =>
    have hfresh := List.find?_some hfound
    obtain ⟨hown', hfresh⟩ := of_decide_eq_true hfresh
    rcases hadds.posts e' (List.mem_of_find?_eq_some hfound) with hold | rfl
    · exact absurd hfresh (not_fresh h hold hown')
    · rfl

/-- The post comes after what has been posted. -/
theorem precedes_of_adds (h : l.Kept) {node : NodeId} {t : Inner} {e : Post}
    (hadds : (l.stores node).Adds l.now t e)
    (hturn : ∀ e' ∈ l.posted, e.node < e'.node → e'.group = e.group → e.time ≤ e'.time) :
    ∀ e' ∈ l.posted, e'.Precedes e := by
  intro e' he'
  have hown := hadds.own.trans (h.node node)
  refine ⟨?_, fun hgroup hnode => ?_, fun hgroup hnode => hturn e' he' hnode hgroup⟩
  · rw [hadds.time]
    exact h.past e' he'
  · calc e'.sequence ≤ (l.stores e'.node).lastOf e'.group := h.counted e' he'
      _ = (l.stores node).lastOf e.group := by rw [hnode, hown, hgroup]
      _ < e.sequence := hadds.fresh

theorem Kept.serve (h : l.Kept) {node : NodeId} {u : UseCase}
    (hturn : l.InTurn services (.serve node u)) : (l.step services (.serve node u)).Kept := by
  have happends : Appends l.now (l.stores node) (l.served services node u) :=
    appends_serve (w := l.world node) services u
  rcases happends with hquiet | ⟨e, hadds⟩
  · rw [step, entered?_of_quiet h hquiet]
    refine h.update (hquiet.node.trans (h.node node)) hquiet.last (fun e he => ?_)
      (fun r hr e he => ?_) nofun nofun ?_
    · exact List.mem_append_left _ (h.stored node e (hquiet.posts e he))
    · refine List.mem_append_left _ ?_
      rcases hquiet.outbox r hr with hold | hposts
      · exact h.told node r hold e he
      · exact h.stored node e (hposts e he)
    · exact List.pairwise_append.2 ⟨h.ordered, .nil, nofun⟩
  · have hentered := entered?_of_adds h hadds
    have hprecedes := precedes_of_adds h hadds (hturn e hentered)
    rw [step, hentered]
    refine h.update (hadds.node.trans (h.node node)) hadds.last (fun e' he' => ?_)
      (fun r hr e' he' => ?_) (fun e' he' => ?_) (fun e' he' => ?_) ?_
    · rcases hadds.posts e' he' with hold | rfl
      · exact List.mem_append_left _ (h.stored node e' hold)
      · exact List.mem_append_right _ (List.mem_singleton_self e')
    · rcases hadds.outbox r hr with hold | hnew
      · exact List.mem_append_left _ (h.told node r hold e' he')
      · obtain rfl := Option.some.inj (hnew.symm.trans he')
        exact List.mem_append_right _ (List.mem_singleton_self e)
    · rw [List.mem_singleton.1 he']
      exact ⟨hadds.own.trans (h.node node), hadds.counted⟩
    · rw [List.mem_singleton.1 he', hadds.time]
    · refine List.pairwise_append.2 ⟨h.ordered, List.pairwise_singleton _ e, ?_⟩
      intro e' he' e'' he''
      rw [List.mem_singleton.1 he'']
      exact hprecedes e' he'

theorem Kept.step (h : l.Kept) {a : Act} (hturn : l.InTurn services a) :
    (l.step services a).Kept := by
  cases a with
  | wait secs => exact h.wait secs
  | serve node u => exact h.serve hturn
  | deliver sender receiver i => exact h.deliver sender receiver i

/-- A run in which all posting is in turn. -/
theorem Kept.run (h : l.Kept) {acts : List Act}
    (hturn : Along (League.step services) (InTurn services) l acts) : (l.run services acts).Kept :=
  hturn.invariant (fun _ _ hkept hnow => hkept.step hnow) h

end League

end Democrachat
