import Democrachat.App.Emojis
import Democrachat.App.Keys
import Democrachat.System.Social

/-!
# Runs of all use-cases

The operations of `System.Ops` together with the use-cases of the social graph, of the
keys and of the emojis: whatever the services can be asked to write.
-/

namespace Democrachat

open Library Req

inductive UseCase where
  | op (op : Op)
  | social (op : SocialOp)
  | sendSealedDmById (fromId toId : UserId) (sealedForRecipient sealedForSender : String)
  | blockUserById (blockerId blockedId : UserId)
  | requestFriendById (requesterId addresseeId : UserId)
  | acceptFriendById (accepterId requesterId : UserId)
  | setDmPolicy (handle : String) (policy : DmPolicy)
  | publishKeys (handle publicKey : String) (wrappedSecret : WrappedKey)
  | enableChannelEncryption (handle serverSlug channelName : String) (historyMode : HistoryMode)
  | grantChannelKey (granterHandle serverSlug channelName : String) (epoch : Nat)
      (memberHandle sealedKey : String)
  | addEmoji (adderHandle serverSlug name url : String)
  | voteEmoji (voterHandle serverSlug : String) (emojiId : EmojiId) (isUp : Bool)

namespace Services

variable (services : Services)

/-- The world after one use-case. -/
def serve (w : World) : UseCase → World
  | .op op => services.step w op
  | .social op => op.step w
  | .sendSealedDmById fromId toId sealedForRecipient sealedForSender =>
    ((sendSealedDmById fromId toId sealedForRecipient sealedForSender).exec w).2
  | .blockUserById blockerId blockedId => ((blockUserById blockerId blockedId).exec w).2
  | .requestFriendById requesterId addresseeId =>
    ((requestFriendById requesterId addresseeId).exec w).2
  | .acceptFriendById accepterId requesterId =>
    ((acceptFriendById accepterId requesterId).exec w).2
  | .setDmPolicy handle policy => ((Democrachat.setDmPolicy handle policy).exec w).2
  | .publishKeys handle publicKey wrappedSecret =>
    ((publishKeys handle publicKey wrappedSecret).exec w).2
  | .enableChannelEncryption handle serverSlug channelName historyMode =>
    ((enableChannelEncryption handle serverSlug channelName historyMode).exec w).2
  | .grantChannelKey granterHandle serverSlug channelName epoch memberHandle sealedKey =>
    ((grantChannelKey granterHandle serverSlug channelName epoch memberHandle sealedKey).exec w).2
  | .addEmoji adderHandle serverSlug name url =>
    ((addEmoji adderHandle serverSlug name url).exec w).2
  | .voteEmoji voterHandle serverSlug emojiId isUp =>
    ((voteEmoji voterHandle serverSlug emojiId isUp).exec w).2

def serveAll (w : World) (us : List UseCase) : World := us.foldl services.serve w

/-- What a node that starts empty can come to. -/
def Served (w : World) : Prop :=
  ∃ node now us, w = services.serveAll (.empty node now) us

theorem serveAll_append (w : World) (us us' : List UseCase) :
    services.serveAll w (us ++ us') = services.serveAll (services.serveAll w us) us' :=
  List.foldl_append

theorem serveAll_concat (w : World) (us : List UseCase) (u : UseCase) :
    services.serveAll w (us ++ [u]) = services.serve (services.serveAll w us) u :=
  serveAll_append services w us [u]

variable {services}

theorem Served.invariant {I : World → Prop} (hempty : ∀ node now, I (.empty node now))
    (hstep : ∀ w u, services.Served w → I w → I (services.serve w u)) {w : World}
    (hw : services.Served w) : I w := by
  obtain ⟨node, now, us, rfl⟩ := hw
  induction us using List.reverseRecOn with
  | nil => exact hempty node now
  | append_singleton us u ih =>
    rw [serveAll_concat]
    exact hstep _ _ ⟨node, now, us, rfl⟩ ih

theorem Served.empty (node : NodeId) (now : Timestamp) : services.Served (.empty node now) :=
  ⟨node, now, [], rfl⟩

theorem Served.serve {w : World} (hw : services.Served w) (u : UseCase) :
    services.Served (services.serve w u) := by
  obtain ⟨node, now, us, rfl⟩ := hw
  exact ⟨node, now, us ++ [u], (serveAll_concat services _ us u).symm⟩

end Services

/-! ## What they write -/

theorem touches_enableChannelEncryption (handle serverSlug channelName : String)
    (historyMode : HistoryMode) :
    WritesOnly (Touches [.channels])
      (enableChannelEncryption handle serverSlug channelName historyMode) :=
  Touches.ask fun _ => .okOr fun _ => Touches.ask fun _ => .okOr fun _ =>
    Touches.ask fun _ => .okOr fun _ => Touches.ask fun _ => .okOr fun _ =>
    .last (Touches.write (.insertChannel _) (fun _ => rfl) rfl)

theorem touches_grantChannelKey (granterHandle serverSlug channelName : String) (epoch : Nat)
    (memberHandle sealedKey : String) :
    WritesOnly (Touches [.keys])
      (grantChannelKey granterHandle serverSlug channelName epoch memberHandle sealedKey) :=
  Touches.ask fun _ => .okOr fun _ => Touches.ask fun _ => .okOr fun _ =>
    Touches.ask fun _ => .okOr fun _ => Touches.ask fun _ => .okOr fun _ => .ensure <|
    Touches.ask fun _ => .okOr fun _ => Touches.ask fun _ => .okOr fun _ => .ensure <|
    .last (Touches.write (.putGrant _) (fun _ => rfl) rfl)

theorem touches_publishKeys (handle publicKey : String) (wrappedSecret : WrappedKey) :
    WritesOnly (Touches [.keys]) (publishKeys handle publicKey wrappedSecret) :=
  Touches.ask fun _ => .okOr fun _ => .ensure <|
    .last (Touches.write (.putKeys _) (fun _ => rfl) rfl)

theorem touches_addEmoji (adderHandle serverSlug name url : String) :
    WritesOnly (Touches [.emojis]) (addEmoji adderHandle serverSlug name url) :=
  Touches.ask fun _ => .okOr fun _ => Touches.ask fun _ => .okOr fun _ =>
    Touches.ask fun _ => .okOr fun _ => .ensure <| Touches.ask fun _ => .ensure <|
    .step (Touches.transact (.mint .emoji) (fun _ => rfl) rfl) fun _ => Touches.clockNow fun _ =>
    .step (Touches.write (.insertEmoji _) (fun _ => rfl) rfl) fun _ => .pure _

theorem touches_voteEmoji (voterHandle serverSlug : String) (emojiId : EmojiId) (isUp : Bool) :
    WritesOnly (Touches [.emojis]) (voteEmoji voterHandle serverSlug emojiId isUp) :=
  Touches.ask fun _ => .okOr fun _ => Touches.ask fun _ => .okOr fun _ =>
    Touches.ask fun _ => .okOr fun _ => Touches.ask fun _ => .okOr fun _ =>
    .last (Touches.write (.upsertEmojiVote _) (fun _ => rfl) rfl)

/-! ## The social graph -/

abbrev SocialOnly (w w' : World) : Prop := Spares [.social] w.store w'.store

namespace SocialOnly

theorem ask {α β ε : Type} {f : Inner → α} {k : α → Req World ε β}
    (hk : ∀ a, WritesOnly SocialOnly (k a)) :
    WritesOnly SocialOnly ((liftM (Democrachat.ask f) : Req World ε α) >>= k) :=
  .step (guarantees_ask (fun _ => .refl _ _) f) hk

theorem clockNow {β ε : Type} {k : Timestamp → Req World ε β}
    (hk : ∀ a, WritesOnly SocialOnly (k a)) :
    WritesOnly SocialOnly ((liftM Democrachat.clockNow : Req World ε Timestamp) >>= k) :=
  .step (guarantees_clockNow (fun _ => .refl _ _)) hk

theorem pairByHandle {β : Type} {handle other : String}
    {k : User × User → Req World SocialError β} (hk : ∀ a, WritesOnly SocialOnly (k a)) :
    WritesOnly SocialOnly (Democrachat.pairByHandle handle other >>= k) :=
  .bind (ask fun _ => .okOr fun _ => ask fun _ => .okOr fun _ => .pure _) hk

theorem pairById {β : Type} {id other : UserId} {k : User × User → Req World SocialError β}
    (hk : ∀ a, WritesOnly SocialOnly (k a)) :
    WritesOnly SocialOnly (Democrachat.pairById id other >>= k) :=
  .bind (ask fun _ => .okOr fun _ => ask fun _ => .okOr fun _ => .pure _) hk

theorem addBlock (b : Block) : (transact (·.addBlock b)).Guarantees SocialOnly := by
  refine guarantees_transact (fun w => ?_)
  simp only [World.mapStore, Inner.addBlock]
  split <;> constructor <;> intros <;> rfl

theorem addFriendship (f : Friendship) :
    (transact (·.addFriendship f)).Guarantees SocialOnly := by
  refine guarantees_transact (fun w => ?_)
  simp only [World.mapStore, Inner.addFriendship]
  split <;> constructor <;> intros <;> rfl

theorem updateFriendship (f : Friendship) :
    (write (·.updateFriendship f)).Guarantees SocialOnly := by
  refine guarantees_write (fun w => ?_)
  simp only [World.mapStore, Inner.updateFriendship]
  split <;> constructor <;> intros <;> rfl

theorem nextDmId : (transact (·.nextDmId)).Guarantees SocialOnly :=
  guarantees_transact (fun w => by constructor <;> intros <;> rfl)

theorem insertDm (m : DmMessage) : (write (·.insertDm m)).Guarantees SocialOnly :=
  guarantees_write (fun w => by constructor <;> intros <;> rfl)

theorem sendSealedDmCore (sender recipient : User) (sealedForRecipient sealedForSender : String) :
    WritesOnly SocialOnly
      (Democrachat.sendSealedDmCore sender recipient sealedForRecipient sealedForSender) := by
  have hmay : (mayDm sender recipient).Guarantees SocialOnly :=
    .bind (guarantees_ask (fun _ => .refl _ _) _) fun _ =>
      .bind (guarantees_ask (fun _ => .refl _ _) _) fun _ => Prog.guarantees_pure _
  exact .ensure <| .ensure <| .step hmay fun _ => .ensure <| .step nextDmId fun _ =>
    clockNow fun _ => .step (insertDm _) fun _ => .pure _

theorem blockBetween (blocker blocked : User) :
    WritesOnly SocialOnly (Democrachat.blockBetween blocker blocked) :=
  .ensure <| clockNow fun _ => .step (addBlock _) fun _ => .pure _

theorem requestFriendBetween (requester addressee : User) :
    WritesOnly SocialOnly (Democrachat.requestFriendBetween requester addressee) :=
  .ensure <| clockNow fun _ => .step (addFriendship _) fun _ => .pure _

theorem acceptFriendBetween (me other : User) :
    WritesOnly SocialOnly (Democrachat.acceptFriendBetween me other) :=
  ask fun _ => .okOr fun _ => .last (updateFriendship _)

theorem exec {ε α : Type} {r : Req World ε α} (hr : WritesOnly SocialOnly r) (w : World) :
    SocialOnly w (r.exec w).2 :=
  hr.exec (fun _ => .refl _ _) (fun _ _ _ => .trans) w

theorem step (w : World) (op : SocialOp) : SocialOnly w (op.step w) := by
  cases op with
  | sendSealedDm =>
    exact exec (ask fun _ => .okOr fun _ => ask fun _ => .okOr fun _ =>
      sendSealedDmCore _ _ _ _) w
  | blockUser => exact exec (pairByHandle fun _ => blockBetween _ _) w
  | requestFriend => exact exec (pairByHandle fun _ => requestFriendBetween _ _) w
  | acceptFriend => exact exec (pairByHandle fun _ => acceptFriendBetween _ _) w

end SocialOnly

/-! ## The parts that a use-case touches -/

def UseCase.parts : UseCase → List Part
  | .op operation => operation.parts
  | .social _ | .sendSealedDmById .. | .blockUserById .. | .requestFriendById .. |
    .acceptFriendById .. => [.social]
  | .setDmPolicy .. => [.accounts]
  | .publishKeys .. | .grantChannelKey .. => [.keys]
  | .enableChannelEncryption .. => [.channels]
  | .addEmoji .. | .voteEmoji .. => [.emojis]

theorem spares_serve (services : Services) (w : World) (u : UseCase) :
    Spares u.parts w.store (services.serve w u).store := by
  cases u with
  | op op => exact (touches_step services w op).spares
  | social op => exact SocialOnly.step w op
  | sendSealedDmById =>
    exact SocialOnly.exec (SocialOnly.ask fun _ => .okOr fun _ => SocialOnly.ask fun _ =>
      .okOr fun _ => SocialOnly.sendSealedDmCore _ _ _ _) w
  | blockUserById =>
    exact SocialOnly.exec (SocialOnly.pairById fun _ => SocialOnly.blockBetween _ _) w
  | requestFriendById =>
    exact SocialOnly.exec (SocialOnly.pairById fun _ => SocialOnly.requestFriendBetween _ _) w
  | acceptFriendById =>
    exact SocialOnly.exec (SocialOnly.pairById fun _ => SocialOnly.acceptFriendBetween _ _) w
  | setDmPolicy => exact (Touches.of_writesOnly (touches_setDmPolicy _ _) w).spares
  | publishKeys => exact (Touches.of_writesOnly (touches_publishKeys _ _ _) w).spares
  | enableChannelEncryption =>
    exact (Touches.of_writesOnly (touches_enableChannelEncryption _ _ _ _) w).spares
  | grantChannelKey =>
    exact (Touches.of_writesOnly (touches_grantChannelKey _ _ _ _ _ _) w).spares
  | addEmoji => exact (Touches.of_writesOnly (touches_addEmoji _ _ _ _) w).spares
  | voteEmoji => exact (Touches.of_writesOnly (touches_voteEmoji _ _ _ _) w).spares

end Democrachat
