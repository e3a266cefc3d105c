import Democrachat.Federation.Command
import Democrachat.Library.WriteBehind
import Democrachat.Store.Snapshot

/-!
# Requests that save

The save hook of `democrachat/src/main.rs` behind the handlers of `adapter-web`, the nonce log of
`democrachat/src/nonce_log.rs` and the executor of `democrachat/src/command_executor.rs`.  A file is
the text that it opens to; writing it is one step and succeeds.
-/

namespace Democrachat

open Library Req Federation

section

variable (text : SnapshotText)

/-- `save`: the snapshot under the lock of the store, the write outside it. -/
def saveStore : Prog (World × String) Unit := Prog.save World.store text.toJson

/-- Only what went well is saved, before anything else happens. -/
def saving {ε α : Type} (r : Req World ε α) : Req (World × String) ε α where
  run := do
    match ← r.run.within with
    | .ok a => do
      saveStore text
      return .ok a
    | .error e => return .error e

/-- `execute`, with the saves of the nonce log and of the executor. -/
def executeSaving (wire : Wire) (cmdText : CommandText) (registry : Registry) (node : NodeId)
    (signed : SignedCommand) (now : Int64) : Req (World × String) ForwardError Unit := do
  let cmd ← orElse (verifySigned wire cmdText registry signed) id
  let scopes ← liftM (Prog.within (φ := String) (ask (fun s => cmd.targetScopes (storeResolver s))))
  ensure (!scopes.isEmpty) .unowned
  let owns ← orElse (ownsAScope registry node scopes) id
  ensure owns ownsNone
  saving text (admitSigned signed now)
  saving text cmd.run

/-- What goes on at a node at the same time. -/
inductive Request : Type 1 where
  /-- A handler that persists after its use-case. -/
  | web {ε α : Type} (useCase : Req World ε α)
  /-- The `vote` handler with a router, at the node that owns the proposal. -/
  | routedVote (proposal : ProposalId) (voter : UserId) (aye : Bool)
  /-- A command that another node has forwarded. -/
  | command (registry : Registry) (signed : SignedCommand) (now : Int64)
  /-- Whatever else touches the store and does not save, such as a page that sweeps. -/
  | unsaved {α : Type} (p : Prog World α)

inductive Reply where
  /-- A write is acknowledged. -/
  | done
  | refused
  | shown
deriving DecidableEq

def Reply.ofResult {ε α : Type} : Except ε α → Reply
  | .ok _ => .done
  | .error _ => .refused

/-- How the node serves a request. -/
def Request.serve (wire : Wire) (cmdText : CommandText) (node : NodeId) :
    Request → Prog (World × String) Reply
  | web useCase => Reply.ofResult <$> (saving text useCase).run
  | routedVote proposal voter aye => do
    match ← (saving text (Command.castVote proposal voter aye).run).run with
    | .ok _ => do
      saveStore text
      return .done
    | .error _ => return .refused
  | command registry signed now =>
    Reply.ofResult <$> (executeSaving text wire cmdText registry node signed now).run
  | unsaved p => (fun _ => .shown) <$> p.within

/-- The requests before a node that has just started, on a file of its own store. -/
def serving (wire : Wire) (cmdText : CommandText) (node : NodeId) (requests : List Request)
    (w : World) : List (Prog (World × String) Reply) × World × String :=
  (requests.map (Request.serve text wire cmdText node), w, text.toJson w.store)

end

variable {text : SnapshotText}

/-! ## Saving leaves the store alone -/

theorem exec_saving {ε α : Type} (r : Req World ε α) (w : World) (file : String) :
    (saving text r).exec (w, file) =
      ((r.exec w).1, (r.exec w).2,
        match (r.exec w).1 with
        | .ok _ => text.toJson (r.exec w).2.store
        | .error _ => file) := by
  change Prog.exec (r.run.within >>= _) (w, file) = _
  rw [Prog.exec_bind, Prog.exec_within, Req.exec]
  rcases r.run.exec w with ⟨e | a, t⟩
  · rfl
  · rfl

/-- Alone, a command answers and writes as `execute` says. -/
theorem exec_executeSaving (wire : Wire) (cmdText : CommandText) (registry : Registry)
    (node : NodeId) (signed : SignedCommand) (now : Int64) (w : World) (file : String) :
    ∃ file', (executeSaving text wire cmdText registry node signed now).exec (w, file) =
      (((execute wire cmdText registry node signed now).exec w).1,
        ((execute wire cmdText registry node signed now).exec w).2, file') := by
  unfold executeSaving execute
  simp only [exec_orElse_bind]
  cases verifySigned wire cmdText registry signed with
  | error e => exact ⟨file, rfl⟩
  | ok cmd =>
    simp only [exec_liftM_bind, Prog.exec_within, exec_ensure_bind, exec_orElse_bind]
    split
    · cases ownsAScope registry node _ with
      | error e => exact ⟨file, rfl⟩
      | ok owns =>
        dsimp only
        split
        · rw [Req.exec_bind, Req.exec_bind, exec_saving]
          rcases (admitSigned signed now).exec _ with ⟨e | u, w'⟩
          · exact ⟨file, rfl⟩
          · exact ⟨_, exec_saving cmd.run w' _⟩
        · exact ⟨file, rfl⟩
    · exact ⟨file, rfl⟩

/-! ## Every request saves before it acknowledges -/

/-- Whatever a request goes on with, it has saved before it goes on well. -/
structure Orderly (text : SnapshotText) {ε α : Type} (r : Req (World × String) ε α) : Prop where
  saves : ∀ f : Except ε α → Prog (World × String) Reply,
    (∀ a, (∃ reply, f (.ok a) = .ret reply) ∨
      Prog.Saves World.store text.toJson (· = .done) (f (.ok a)) none) →
    (∀ e, Prog.Saves World.store text.toJson (· = .done) (f (.error e)) none) →
    Prog.Saves World.store text.toJson (· = .done) (r.run >>= f) none

namespace Orderly

variable {ε α β : Type}

theorem saving (r : Req World ε α) : Orderly text (Democrachat.saving text r) where
  saves := by
    intro f hok herror
    change Prog.Saves _ _ _ ((r.run.within >>= _) >>= f) none
    rw [Prog.bind_assoc]
    refine Prog.Saves.within_bind (fun result => ?_)
    cases result with
    | ok a => exact Prog.Saves.save_bind (f := fun _ => f (.ok a)) (hok a)
    | error e => exact herror e

theorem bind {r : Req (World × String) ε α} {k : α → Req (World × String) ε β}
    (hr : Orderly text r) (hk : ∀ a, Orderly text (k a)) : Orderly text (r >>= k) where
  saves := by
    intro f hok herror
    change Prog.Saves _ _ _ ((r.run >>= _) >>= f) none
    rw [Prog.bind_assoc]
    exact hr.saves _ (fun a => .inr ((hk a).saves f hok herror)) herror

/-- Part of the request is a program on the store alone. -/
theorem step {p : Prog World α} {k : α → Req (World × String) ε β} (hk : ∀ a, Orderly text (k a)) :
    Orderly text ((liftM (Prog.within (φ := String) p) : Req (World × String) ε α) >>= k) where
  saves := by
    intro f hok herror
    change Prog.Saves _ _ _ (((p.within >>= _) >>= _) >>= f) none
    rw [Prog.bind_assoc, Prog.bind_assoc]
    exact Prog.Saves.within_bind (fun a => (hk a).saves f hok herror)

theorem ensure {c : Bool} {e : ε} {k : Unit → Req (World × String) ε β}
    (hk : Orderly text (k ())) : Orderly text (Req.ensure c e >>= k) := by
  cases c with
  | true => exact hk
  | false => exact ⟨fun f _ herror => herror e⟩

theorem orElse {ε' : Type} {r : Except ε' α} {g : ε' → ε} {k : α → Req (World × String) ε β}
    (hk : ∀ a, Orderly text (k a)) : Orderly text (Req.orElse r g >>= k) := by
  cases r with
  | ok a => exact hk a
  | error e => exact ⟨fun f _ herror => herror (g e)⟩

theorem executeSaving (wire : Wire) (cmdText : CommandText) (registry : Registry) (node : NodeId)
    (signed : SignedCommand) (now : Int64) :
    Orderly text (Democrachat.executeSaving text wire cmdText registry node signed now) :=
  orElse fun cmd => step fun _ => ensure <| orElse fun _ => ensure <|
    bind (saving (admitSigned signed now)) fun _ => saving cmd.run

theorem reply {r : Req (World × String) ε α} (hr : Orderly text r) :
    Prog.Saves World.store text.toJson (· = .done) (Reply.ofResult <$> r.run) none :=
  hr.saves (fun result => .ret (.ofResult result)) (fun _ => .inl ⟨_, rfl⟩) (fun _ => nofun)

end Orderly

theorem Request.saves (wire : Wire) (cmdText : CommandText) (node : NodeId) (request : Request) :
    Prog.Saves World.store text.toJson (· = .done) (request.serve text wire cmdText node) none := by
  cases request with
  | web useCase => exact (Orderly.saving useCase).reply
  | routedVote proposal voter aye =>
    refine (Orderly.saving (Command.castVote proposal voter aye).run).saves _ (fun _ => .inr ?_)
      (fun _ => nofun)
    exact Prog.Saves.save_bind (f := fun _ => Prog.ret Reply.done) (.inl ⟨_, rfl⟩)
  | command registry signed now =>
    exact (Orderly.executeSaving wire cmdText registry node signed now).reply
  | unsaved p =>
    refine Prog.Saves.within_bind (f := fun _ => Prog.ret Reply.shown) (fun _ => ?_)
    intro hdone
    cases hdone

end Democrachat
