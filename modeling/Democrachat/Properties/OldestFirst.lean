import Democrachat.App.Listing
import Democrachat.Federation.League

/-!
# Read oldest first

The messages of a channel and a conversation are listed in the order of their ids, of which the
minting node is the higher part.  The lists of all nodes are in the order of time as long as no
node posts into one of them after a node of a higher number has.
-/

namespace Democrachat

open Library

/-- Channels and conversations are listed in the order in which they were posted. -/
structure World.ReadsOldestFirst (w : World) : Prop where
  listForChannel : ∀ channel,
    (w.store.listForChannel channel).Pairwise (fun m m' => m.createdAt ≤ m'.createdAt)
  conversation : ∀ a b,
    (w.store.conversation a b).Pairwise (fun m m' => m.createdAt ≤ m'.createdAt)
  byHandle : ∀ aHandle bHandle,
    (w.conversation aHandle bHandle).Pairwise (fun m m' => m.createdAt ≤ m'.createdAt)

theorem DmMessage.isBetween_iff {m : DmMessage} {a b : UserId} :
    m.isBetween a b = true ↔ s(m.sender, m.recipient) = s(a, b) := by
  rw [Sym2.eq_iff, DmMessage.isBetween, Bool.or_eq_true, Bool.and_eq_true, Bool.and_eq_true]
  simp only [beq_iff_eq]

theorem conversation_ranked (s : Inner) (a b : UserId) :
    (s.conversation a b).Pairwise (fun m m' => m.post.rank ≤ m'.post.rank) := by
  have hsorted : (s.conversation a b).Pairwise (fun m m' => decide (m.id ≤ m'.id) = true) := by
    apply List.pairwise_mergeSort
    · intro m m' m'' h h'
      exact decide_eq_true ((of_decide_eq_true h).trans (of_decide_eq_true h'))
    · intro m m'
      simpa using le_total m.id m'.id
  exact hsorted.imp (fun h => of_decide_eq_true h)

/-- In a conversation that reads oldest first the message of the lower id is not the later one. -/
theorem World.ReadsOldestFirst.createdAt_le {w : World} (h : w.ReadsOldestFirst) {a b : UserId}
    {m m' : DmMessage} (hm : m ∈ w.store.conversation a b) (hm' : m' ∈ w.store.conversation a b)
    (hid : m.id < m'.id) : m.createdAt ≤ m'.createdAt := by
  have hforall : ∀ ⦃x⦄, x ∈ w.store.conversation a b → ∀ ⦃y⦄, y ∈ w.store.conversation a b →
      x.id < y.id → x.createdAt ≤ y.createdAt := by
    apply List.Pairwise.forall_of_forall_of_flip
    · intro x _ hself
      exact absurd hself (lt_irrefl _)
    · exact (h.conversation a b).imp (fun {x y} htime (_ : x.id < y.id) => htime)
    · exact (conversation_ranked w.store a b).imp (fun hrank hless => absurd hless hrank.not_gt)
  exact hforall hm hm' hid

namespace League.Kept

variable {l : League}

theorem listForChannel (h : l.Kept) (n : NodeId) (channel : ChannelId) :
    ((l.stores n).listForChannel channel).Pairwise (fun m m' => m.createdAt ≤ m'.createdAt) := by
  have hposted : ∀ m ∈ (l.stores n).listForChannel channel,
      m.post ∈ l.posted ∧ m.post.group = .channel channel := by
    intro m hm
    obtain ⟨hrow, hchannel⟩ := List.mem_filter.1 hm
    refine ⟨h.stored n _ (Inner.mem_posts.2 (.inl ⟨m, hrow, rfl⟩)), ?_⟩
    exact congrArg Thread.channel (beq_iff_eq.1 hchannel)
  have hranked : ((l.stores n).listForChannel channel).Pairwise
      (fun m m' => m.post.rank ≤ m'.post.rank) :=
    ((l.stores n).messages.sorted.filter _).imp (fun hid => hid.le)
  exact Entry.pairwise_time h.ordered hposted hranked

theorem conversation (h : l.Kept) (n : NodeId) (a b : UserId) :
    ((l.stores n).conversation a b).Pairwise (fun m m' => m.createdAt ≤ m'.createdAt) := by
  have hposted : ∀ m ∈ (l.stores n).conversation a b,
      m.post ∈ l.posted ∧ m.post.group = .pair s(a, b) := by
    intro m hm
    obtain ⟨hrow, hbetween⟩ := List.mem_filter.1 (List.mem_mergeSort.1 hm)
    refine ⟨h.stored n _ (Inner.mem_posts.2 (.inr ⟨m, hrow, rfl⟩)), ?_⟩
    exact congrArg Thread.pair (DmMessage.isBetween_iff.1 hbetween)
  exact Entry.pairwise_time h.ordered hposted (conversation_ranked (l.stores n) a b)

theorem readsOldestFirst (h : l.Kept) (n : NodeId) : (l.world n).ReadsOldestFirst where
  listForChannel := h.listForChannel n
  conversation := h.conversation n
  byHandle := by
    intro aHandle bHandle
    rw [World.conversation]
    split
    next a b _ _ => exact h.conversation n a.id b.id
    next => exact .nil

end League.Kept

/-- While all posting is in turn, every node reads oldest first. -/
theorem oldest_first_of_inTurn (services : Services) (now : Timestamp) (acts : List League.Act)
    (h : Along (League.step services) (League.InTurn services) (.start now) acts) (n : NodeId) :
    (((League.start now).run services acts).world n).ReadsOldestFirst :=
  ((League.kept_start now).run h).readsOldestFirst n

namespace Agora

/-- Two users whose home nodes know of each other's. -/
def acquainted : List League.Act :=
  [.serve 1 (.op (.registerAccount "ann")), .serve 2 (.op (.registerAccount "bob")),
    .deliver 1 2 0, .deliver 2 1 0]

def annWrites : List League.Act :=
  [.serve 1 (.sendSealedDmById (composeId 1 1) (composeId 2 1) "hello" "hello"), .deliver 1 2 1]

def bobWrites : List League.Act :=
  [.serve 2 (.sendSealedDmById (composeId 2 1) (composeId 1 1) "hi" "hi"), .deliver 2 1 1]

/-- A second goes by between the two messages. -/
def corresponding (first second : List League.Act) : League :=
  (League.start ⟨0⟩).run services (acquainted ++ first ++ [.wait 1] ++ second)

end Agora

theorem oldest_first_of_inTurn_corresponding :
    ((Agora.corresponding Agora.annWrites Agora.bobWrites).world 1).ReadsOldestFirst :=
  oldest_first_of_inTurn Agora.services ⟨0⟩ _ (by decide +kernel) 1

/-- Bob writes first, and ann's answer is listed above it. -/
theorem answer_above_question :
    ¬ ∀ (services : Services) (now : Timestamp) (acts : List League.Act) (n : NodeId),
      (((League.start now).run services acts).world n).ReadsOldestFirst := by
  intro h
  have hread := h Agora.services ⟨0⟩
    (Agora.acquainted ++ Agora.bobWrites ++ [.wait 1] ++ Agora.annWrites) 1
  have hdms : ((Agora.corresponding Agora.bobWrites Agora.annWrites).world 1).store.dms =
      [⟨composeId 2 1, composeId 2 1, composeId 1 1, "hi", "hi", ⟨0⟩⟩,
        ⟨composeId 1 1, composeId 1 1, composeId 2 1, "hello", "hello", ⟨1⟩⟩] := by
    decide +kernel
  have hlisted : ∀ m ∈ ((Agora.corresponding Agora.bobWrites Agora.annWrites).world 1).store.dms,
      m.isBetween (composeId 1 1) (composeId 2 1) = true →
      m ∈ ((Agora.corresponding Agora.bobWrites Agora.annWrites).world 1).store.conversation
        (composeId 1 1) (composeId 2 1) :=
    fun m hm hbetween => List.mem_mergeSort.2 (List.mem_filter.2 ⟨hm, hbetween⟩)
  rw [hdms] at hlisted
  have hlate := hread.createdAt_le (hlisted _ (.tail _ (.head _)) rfl) (hlisted _ (.head _) rfl)
    (by decide)
  exact absurd hlate (by decide)

end Democrachat
