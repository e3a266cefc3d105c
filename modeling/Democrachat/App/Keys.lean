import Democrachat.App.Errors
import Democrachat.App.World
import Democrachat.Domain.Text

/-!
# Encrypted channels and the key directory

`app/src/channel_key_service.rs` and `app/src/key_directory_service.rs`.  The services
never see a key: they store what the clients have sealed.
-/

namespace Democrachat

open Library Req

def enableChannelEncryption (handle serverSlug channelName : String) (historyMode : HistoryMode) :
    Req World ChannelKeyError Unit := do
  let user ← okOr (← ask (·.findByHandle (trim handle))) (.noSuchUser handle)
  let server ← okOr (← ask (·.findBySlug (trim serverSlug))) (.noSuchServer serverSlug)
  let membership ← ask (·.getMembership user.id server.id)
  let _ ← okOr (membership.filter Membership.isFranchised) .notACitizen
  let name := normalizeChannelName channelName
  let channel ← okOr (← ask (·.findByName server.id name)) (.noSuchChannel channelName)
  write (·.insertChannel (channel.enableEncryption historyMode))

def grantChannelKey (granterHandle serverSlug channelName : String) (epoch : Nat)
    (memberHandle sealedKey : String) : Req World ChannelKeyError Unit := do
  let granter ← okOr (← ask (·.findByHandle (trim granterHandle))) (.noSuchUser granterHandle)
  let server ← okOr (← ask (·.findBySlug (trim serverSlug))) (.noSuchServer serverSlug)
  let _ ← okOr (← ask (·.getMembership granter.id server.id)) (.notAMember granterHandle)
  let name := normalizeChannelName channelName
  let channel ← okOr (← ask (·.findByName server.id name)) (.noSuchChannel channelName)
  ensure channel.isEncrypted .notEncrypted
  let member ← okOr (← ask (·.findByHandle (trim memberHandle))) (.noSuchUser memberHandle)
  let _ ← okOr (← ask (·.getMembership member.id server.id)) (.notAMember memberHandle)
  let sealedKey := trim sealedKey
  ensure (!sealedKey.isEmpty) .emptySeal
  write (·.putGrant ⟨server.id, channel.id, epoch, member.id, sealedKey⟩)

def isHexDigit (c : Char) : Bool :=
  c.isDigit || ('a' ≤ c && c ≤ 'f') || ('A' ≤ c && c ≤ 'F')

/-- `PublicIdentity::from_hex` accepts the hex form of 32 bytes. -/
def isPublicKey (publicKey : String) : Bool :=
  (trim publicKey).toList.length == 64 && (trim publicKey).toList.all isHexDigit

def publishKeys (handle publicKey : String) (wrappedSecret : WrappedKey) :
    Req World KeyError Unit := do
  let user ← okOr (← ask (·.findByHandle (trim handle))) (.noSuchUser handle)
  ensure (isPublicKey publicKey) .badPublicKey
  write (·.putKeys ⟨user.id, trim publicKey, wrappedSecret⟩)

end Democrachat
