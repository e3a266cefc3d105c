import Democrachat.App.Chat
import Democrachat.Polity.Basic

/-!
# Requests the polity does not see

Accounts, tokens, invite codes and media: every single write of these requests
leaves the polity as it was, whatever runs beside them.
-/

namespace Democrachat

open Library Req World

/-- No write of the request changes the polity. -/
structure Silent {ε α : Type} (r : Req World ε α) : Prop where
  guarantees : r.Guarantees SamePolity

namespace Silent

variable {α β ε ε' : Type}

theorem exec {r : Req World ε α} (h : Silent r) (w : World) :
    (r.exec w).2.polity = w.polity :=
  Req.Guarantees.exec SamePolity.refl SamePolity.trans h.guarantees w

theorem pure (a : α) : Silent (Pure.pure a : Req World ε α) := ⟨trivial⟩

theorem bind {r : Req World ε α} {k : α → Req World ε β} (hr : Silent r)
    (hk : ∀ a, Silent (k a)) : Silent (r >>= k) :=
  ⟨Req.Guarantees.bind hr.guarantees (fun a => (hk a).guarantees)⟩

theorem ensure {c : Bool} {e : ε} {k : Unit → Req World ε β} (hk : Silent (k ())) :
    Silent (Req.ensure c e >>= k) :=
  bind ⟨guarantees_ensure c e⟩ (fun _ => hk)

theorem okOr {o : Option α} {e : ε} {k : α → Req World ε β} (hk : ∀ a, Silent (k a)) :
    Silent (Req.okOr o e >>= k) :=
  bind ⟨guarantees_okOr o e⟩ hk

theorem orElse {r : Except ε' α} {f : ε' → ε} {k : α → Req World ε β}
    (hk : ∀ a, Silent (k a)) : Silent (Req.orElse r f >>= k) :=
  bind ⟨guarantees_orElse r f⟩ hk

theorem ask {f : Inner → α} {k : α → Req World ε β} (hk : ∀ a, Silent (k a)) :
    Silent ((liftM (Democrachat.ask f) : Req World ε α) >>= k) :=
  bind ⟨guarantees_liftM (guarantees_ask SamePolity.refl f)⟩ hk

theorem clockNow {k : Timestamp → Req World ε β} (hk : ∀ a, Silent (k a)) :
    Silent ((liftM Democrachat.clockNow : Req World ε Timestamp) >>= k) :=
  bind ⟨guarantees_liftM (guarantees_clockNow SamePolity.refl)⟩ hk

theorem lastWrite {f : Inner → Inner} (hf : ∀ w : World, (w.mapStore f).polity = w.polity) :
    Silent (liftM (Democrachat.write f) : Req World ε Unit) :=
  ⟨guarantees_liftM (guarantees_write hf)⟩

theorem write {f : Inner → Inner} {k : Unit → Req World ε β}
    (hf : ∀ w : World, (w.mapStore f).polity = w.polity) (hk : Silent (k ())) :
    Silent ((liftM (Democrachat.write f) : Req World ε Unit) >>= k) :=
  bind (lastWrite hf) (fun _ => hk)

theorem transact {f : Inner → α × Inner} {k : α → Req World ε β}
    (hf : ∀ w : World, (w.mapStore (fun s => (f s).2)).polity = w.polity) (hk : ∀ a, Silent (k a)) :
    Silent ((liftM (Democrachat.transact f) : Req World ε α) >>= k) :=
  bind ⟨guarantees_liftM (guarantees_transact hf)⟩ hk

theorem ite {c : Prop} [Decidable c] {r r' : Req World ε α} (h : Silent r) (h' : Silent r') :
    Silent (if c then r else r') :=
  ⟨guarantees_ite h.guarantees h'.guarantees⟩

end Silent

/-! ## Accounts -/

theorem silent_registerAccount (handle : String) : Silent (registerAccount handle) :=
  .ensure <| .ask fun _ => .ensure <| .transact polity_nextUserId fun _ =>
    .clockNow fun _ => .write (fun w => polity_insertUser w _) <| .pure _

section Services

variable (services : Services)

theorem silent_sealNewEmail (drawn : Drawn) (email : String) :
    Silent (services.sealNewEmail drawn email) :=
  .ite (.ask fun _ => .ensure <| .pure _) (.pure _)

theorem silent_newVerificationToken (drawn : Drawn) (user : UserId) :
    Silent (services.newVerificationToken drawn user) :=
  .ite (.clockNow fun _ => .write (fun w => polity_addToken w _) <| .pure _) (.pure _)

theorem silent_registerWithPassword (drawn : Drawn) (handle email password : String) :
    Silent (services.registerWithPassword drawn handle email password) :=
  .ensure <| .orElse fun _ => .orElse fun _ => .ask fun _ => .ensure <|
    .bind (silent_sealNewEmail services drawn email) fun _ => .okOr fun _ =>
    .transact polity_nextUserId fun _ => .clockNow fun _ =>
    .bind (silent_newVerificationToken services drawn _) fun _ =>
    .write (fun w => polity_insertUser w _) <| .pure _

theorem silent_verifyEmail (rawToken : String) : Silent (services.verifyEmail rawToken) :=
  .clockNow fun _ => .transact (fun w => polity_takeToken w _ _) fun _ => .okOr fun _ =>
    .ask fun _ => .okOr fun _ => .write (fun w => polity_updateUser w _) <| .pure _

theorem silent_issueResend (drawn : Drawn) (handle : String) :
    Silent (services.issueResend drawn handle) :=
  .ensure <| .ensure <| .ask fun _ => .okOr fun _ => .ensure <| .okOr fun _ => .clockNow fun _ =>
    .write (fun w => polity_addToken w _) <| .pure _

theorem silent_setPassword (drawn : Drawn) (handle password : String) :
    Silent (setPassword drawn handle password) :=
  .orElse fun _ => .ask fun _ => .okOr fun _ => .okOr fun _ =>
    .lastWrite (fun w => polity_updateUser w _)

/-! ## Invite codes and media -/

theorem silent_createInvite (code handle serverSlug : String) :
    Silent (services.createInvite code handle serverSlug) :=
  .ask fun _ => .okOr fun _ => .ask fun _ => .okOr fun _ => .ask fun _ => .ensure <| .ensure <|
    .clockNow fun _ => .write (fun w => polity_addInvite w _) <| .pure _

end Services

theorem silent_revokeInvite (handle serverSlug codeHash : String) :
    Silent (revokeInvite handle serverSlug codeHash) :=
  .ask fun _ => .okOr fun _ => .ask fun _ => .okOr fun _ => .ask fun _ => .ensure <| .ask fun _ =>
    .ite (.lastWrite (fun w => polity_revokeInvite w _)) (.pure _)

theorem silent_storeMedia (nanos : Nat) (contentType : String) (bytes : List UInt8) :
    Silent (storeMedia nanos contentType bytes) :=
  .ensure <| .ensure <| .ensure <| .okOr fun _ =>
    .transact (fun w => polity_putMedia w _ _ _) fun _ => .pure _

end Democrachat
