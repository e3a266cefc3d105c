import Democrachat.Library.Schedule
import Democrachat.Store.Ports

/-!
# The world a request runs in

The services hold one store behind one lock and a clock.  Every port call is
one atomic step, and a request is the sequence of its port calls: nothing holds
the lock between two of them.
-/

namespace Democrachat

open Library

/-- One run of `apply_effect`: for which proposal, at which clock value. -/
structure Effect where
  proposal : ProposalId
  appliedAt : Timestamp
deriving DecidableEq

structure World where
  store : Inner
  now : Timestamp
  /-- The runs of `apply_effect` so far.  Nothing in the program reads it. -/
  effects : List Effect

namespace World

/-- An initially empty store on a node whose clock reads `now`. -/
def empty (node : NodeId) (now : Timestamp) : World := ⟨.empty node, now, []⟩

def mapStore (w : World) (f : Inner → Inner) : World := { w with store := f w.store }

@[simp] theorem mapStore_store (w : World) (f : Inner → Inner) :
    (w.mapStore f).store = f w.store := rfl

@[simp] theorem mapStore_now (w : World) (f : Inner → Inner) : (w.mapStore f).now = w.now := rfl

@[simp] theorem mapStore_effects (w : World) (f : Inner → Inner) :
    (w.mapStore f).effects = w.effects := rfl

end World

/-! ## Port calls -/

def ask {α : Type} (f : Inner → α) : Prog World α :=
  Prog.query (fun w => f w.store)

def write (f : Inner → Inner) : Prog World Unit :=
  Prog.modify (fun w => w.mapStore f)

def transact {α : Type} (f : Inner → α × Inner) : Prog World α :=
  Prog.call (fun w => ((f w.store).1, w.mapStore (fun s => (f s).2)))

/-- `Clock::now`. -/
def clockNow : Prog World Timestamp :=
  Prog.query World.now

@[simp] theorem exec_ask {α : Type} (f : Inner → α) (w : World) :
    (ask f).exec w = (f w.store, w) := rfl

@[simp] theorem exec_write (f : Inner → Inner) (w : World) :
    (write f).exec w = ((), w.mapStore f) := rfl

@[simp] theorem exec_transact {α : Type} (f : Inner → α × Inner) (w : World) :
    (transact f).exec w = ((f w.store).1, w.mapStore (fun s => (f s).2)) := rfl

@[simp] theorem exec_clockNow (w : World) : clockNow.exec w = (w.now, w) := rfl

section Bind

variable {α β ε : Type}

theorem exec_ask_bind (f : Inner → α) (k : α → Prog World β) (w : World) :
    (ask f >>= k).exec w = (k (f w.store)).exec w := rfl

theorem exec_write_bind (f : Inner → Inner) (k : Unit → Prog World β) (w : World) :
    (write f >>= k).exec w = (k ()).exec (w.mapStore f) := rfl

theorem exec_clockNow_bind (k : Timestamp → Prog World β) (w : World) :
    (clockNow >>= k).exec w = (k w.now).exec w := rfl

theorem req_ask_bind (f : Inner → α) (k : α → Req World ε β) (w : World) :
    ((liftM (ask f) : Req World ε α) >>= k).exec w = (k (f w.store)).exec w := rfl

theorem req_write_bind (f : Inner → Inner) (k : Unit → Req World ε β) (w : World) :
    ((liftM (write f) : Req World ε Unit) >>= k).exec w = (k ()).exec (w.mapStore f) := rfl

theorem req_transact_bind (f : Inner → α × Inner) (k : α → Req World ε β) (w : World) :
    ((liftM (transact f) : Req World ε α) >>= k).exec w =
      (k (f w.store).1).exec (w.mapStore (fun s => (f s).2)) := rfl

theorem req_clockNow_bind (k : Timestamp → Req World ε β) (w : World) :
    ((liftM clockNow : Req World ε Timestamp) >>= k).exec w = (k w.now).exec w := rfl

end Bind

/-! ## What the port calls guarantee -/

section Guarantees

variable {α : Type} {G : World → World → Prop}

theorem guarantees_ask (hG : ∀ w, G w w) (f : Inner → α) : (ask f).Guarantees G :=
  Prog.guarantees_query hG _

theorem guarantees_clockNow (hG : ∀ w, G w w) : clockNow.Guarantees G :=
  Prog.guarantees_query hG _

theorem guarantees_write {f : Inner → Inner} (h : ∀ w, G w (w.mapStore f)) :
    (write f).Guarantees G :=
  Prog.guarantees_modify h

theorem guarantees_transact {f : Inner → α × Inner}
    (h : ∀ w, G w (w.mapStore (fun s => (f s).2))) : (transact f).Guarantees G :=
  Prog.guarantees_call h

end Guarantees

end Democrachat
