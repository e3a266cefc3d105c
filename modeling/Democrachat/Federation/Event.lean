import Democrachat.Store.Inner

/-!
# Change events and what carries them

`federation/src`: `signed_part.rs`, `change_event.rs`, `fed_error.rs`,
`from_hex.rs`, `to_hex.rs`, `node_public_key.rs` and `node_keypair.rs`.

`serde_json` and `ed25519-dalek` are the parameter `Wire`; JSON values are a
type of their own, since the code reads them field by field.
-/

namespace Democrachat.Federation

/-! ## JSON -/

/-- `serde_json::Number`. -/
inductive Number where
  | posInt (n : Nat)
  | negInt (n : Nat)
  | float (digits : String)

/-- `serde_json::Value`. -/
inductive Value where
  | null
  | bool (b : Bool)
  | number (n : Number)
  | string (s : String)
  | array (items : List Value)
  | object (fields : List (String × Value))

def Number.asU64 : Number → Option Nat
  | posInt n => some n
  | negInt _ | float _ => none

namespace Value

def get (v : Value) (key : String) : Option Value :=
  match v with
  | object fields => fields.lookup key
  | _ => none

def asU64 : Value → Option Nat
  | number n => n.asU64
  | _ => none

def asStr : Value → Option String
  | string s => some s
  | _ => none

end Value

/-- `str::parse::<u64>`: decimal digits after at most one plus sign. -/
def parseU64 (s : String) : Option Nat :=
  let digits := match s.toList with
    | '+' :: cs => cs
    | cs => cs
  if digits ≠ [] ∧ digits.all (·.isDigit) then
    let n := digits.foldl (fun n c => 10 * n + (c.toNat - '0'.toNat)) 0
    if n < 2 ^ 64 then some n else none
  else none

/-- Read a `u64` id from a payload field, tolerating a string encoding. -/
def payloadU64 (payload : Value) (key : String) : Option Nat :=
  match payload.get key with
  | some (.number n) => n.asU64
  | some (.string s) => parseU64 s
  | _ => none

/-! ## Hex -/

/-- `char::to_digit(16)`. -/
def hexDigit (c : Char) : Option Nat :=
  if c.isDigit then some (c.toNat - '0'.toNat)
  else if 'a' ≤ c ∧ c ≤ 'f' then some (10 + (c.toNat - 'a'.toNat))
  else if 'A' ≤ c ∧ c ≤ 'F' then some (10 + (c.toNat - 'A'.toNat))
  else none

/-- The bytes of an even number of hex digits. -/
def hexBytes : List Char → Option (List UInt8)
  | hi :: lo :: cs => do
    let h ← hexDigit hi
    let l ← hexDigit lo
    let bytes ← hexBytes cs
    return UInt8.ofNat (16 * h + l) :: bytes
  | [] => some []
  | [_] => none

inductive FedError where
  | badHex (what : String)
  | badKey
  | badSignature
  | badBody
deriving DecidableEq

/-- Exactly `n` bytes. -/
def fromHex (n : Nat) (s what : String) : Except FedError (List UInt8) :=
  if s.utf8ByteSize ≠ 2 * n then .error (.badHex what)
  else
    match hexBytes s.toList with
    | some bytes => .ok bytes
    | none => .error (.badHex what)

/-- The lower-case digit. -/
def hexChar (n : Nat) : Char := "0123456789abcdef".toList.getD n '0'

def toHex (bytes : List UInt8) : String :=
  String.ofList (bytes.flatMap (fun b => [hexChar (b.toNat / 16), hexChar (b.toNat % 16)]))

theorem hexDigit_hexChar :
    ∀ k < 16, hexDigit (hexChar k) = some k ∧ (hexChar k).utf8Size = 1 := by
  decide

theorem hexBytes_digits (bytes : List UInt8) :
    hexBytes (bytes.flatMap (fun b => [hexChar (b.toNat / 16), hexChar (b.toNat % 16)])) =
      some bytes := by
  induction bytes with
  | nil => rfl
  | cons b bytes ih =>
    have hb := b.toNat_lt
    have hhigh := (hexDigit_hexChar (b.toNat / 16) (by omega)).1
    have hlow := (hexDigit_hexChar (b.toNat % 16) (by omega)).1
    have hbyte : 16 * (b.toNat / 16) + b.toNat % 16 = b.toNat := by omega
    simp only [List.flatMap_cons, List.cons_append, List.nil_append, hexBytes, hhigh, hlow, ih]
    simp only [Option.bind_eq_bind, Option.bind_some, hbyte, UInt8.ofNat_toNat]
    rfl

theorem utf8ByteSize_toHex (bytes : List UInt8) : (toHex bytes).utf8ByteSize = 2 * bytes.length := by
  unfold toHex
  induction bytes with
  | nil => rfl
  | cons b bytes ih =>
    have hb := b.toNat_lt
    have hhigh := (hexDigit_hexChar (b.toNat / 16) (by omega)).2
    have hlow := (hexDigit_hexChar (b.toNat % 16) (by omega)).2
    have hpair : (String.ofList [hexChar (b.toNat / 16), hexChar (b.toNat % 16)]).utf8ByteSize = 2 := by
      rw [String.ofList_cons, String.ofList_cons]
      simp [hhigh, hlow]
    rw [List.flatMap_cons, String.ofList_append, String.utf8ByteSize_append, hpair, ih,
      List.length_cons]
    omega

/-- Bytes read back as they were written. -/
theorem fromHex_toHex {n : Nat} {bytes : List UInt8} (h : bytes.length = n) (what : String) :
    fromHex n (toHex bytes) what = .ok bytes := by
  have hdigits : hexBytes (toHex bytes).toList = some bytes := by
    rw [toHex, String.toList_ofList]
    exact hexBytes_digits bytes
  unfold fromHex
  rw [if_neg (by rw [utf8ByteSize_toHex, h]; exact not_not.2 rfl), hdigits]

/-! ## The signed part -/

inductive EventScope where
  | server (id : ServerId)
  | userHome (id : UserId)
  | global
deriving DecidableEq

/-- Everything a consumer's decision may depend on. -/
structure SignedPart where
  node : NodeId
  epoch : Nat
  seq : Nat
  scope : EventScope
  entity : String
  op : ChangeOp
  payload : Value

/-- A change event on the wire: the signed bytes, kept verbatim, and the hex
of the signature over them. -/
structure ChangeEvent where
  body : String
  signature : String
deriving DecidableEq

/-- One outbox record, as the feed reads it. -/
structure ChangeRecord where
  seq : Nat
  entity : String
  op : ChangeOp
  payload : Value

/-- A node and its verifying key. -/
structure NodePublicKey where
  node : NodeId
  verifying : List UInt8
deriving DecidableEq

structure NodeKeypair where
  node : NodeId
  seed : List UInt8
deriving DecidableEq

/-- What `serde_json` and `ed25519-dalek` compute. -/
structure Wire where
  /-- `serde_json::to_string` of a signed part. -/
  render : SignedPart → String
  /-- `serde_json::from_str` to a signed part. -/
  parse : String → Option SignedPart
  /-- `VerifyingKey::from_bytes` accepts the bytes. -/
  isVerifyingKey : List UInt8 → Bool
  /-- `SigningKey::verifying_key`. -/
  verifyingKey : List UInt8 → List UInt8
  sign : List UInt8 → String → List UInt8
  verifyStrict : List UInt8 → String → List UInt8 → Bool
  /-- `serde_json::to_value` of a row. -/
  toPayload : Row → Value
  /-- `serde_json::from_value`, for each type of row. -/
  user : Value → Except String User
  server : Value → Except String Server
  invite : Value → Except String Invite
  membership : Value → Except String Membership
  channel : Value → Except String Channel
  message : Value → Except String Message
  reaction : Value → Except String Reaction
  proposal : Value → Except String Proposal
  vote : Value → Except String Vote
  rule : Value → Except String Rule
  role : Value → Except String Role
  roleAssignment : Value → Except String RoleAssignment
  emoji : Value → Except String Emoji
  emojiVote : Value → Except String EmojiVote
  dm : Value → Except String DmMessage
  block : Value → Except String Block
  friendship : Value → Except String Friendship
  userKeys : Value → Except String UserKeys
  channelGrant : Value → Except String ChannelKeyGrant

namespace Wire

variable (wire : Wire)

/-- `NodePublicKey::from_hex`. -/
def publicKey (node : NodeId) (hex : String) : Except FedError NodePublicKey := do
  let bytes ← fromHex 32 hex "public key"
  if wire.isVerifyingKey bytes then return ⟨node, bytes⟩ else throw .badKey

/-- `NodeKeypair::public`. -/
def public_ (keypair : NodeKeypair) : NodePublicKey :=
  ⟨keypair.node, wire.verifyingKey keypair.seed⟩

/-- `ChangeEvent::sign`: the keypair's node is stamped into the part. -/
def signEvent (keypair : NodeKeypair) (part : SignedPart) : ChangeEvent :=
  let body := wire.render { part with node := keypair.node }
  ⟨body, toHex (wire.sign keypair.seed body)⟩

/-- Read the signed part without verifying it. -/
def peek (event : ChangeEvent) : Except FedError SignedPart :=
  match wire.parse event.body with
  | some part => .ok part
  | none => .error .badBody

/-- The signed part, only after the signature over the received bytes checks out. -/
def verify (event : ChangeEvent) (key : NodePublicKey) : Except FedError SignedPart := do
  let sig ← fromHex 64 event.signature "signature"
  if wire.verifyStrict key.verifying event.body sig then
    match wire.parse event.body with
    | some part => if key.node ≠ part.node then throw .badSignature else return part
    | none => throw .badBody
  else throw .badSignature

variable {wire}

theorem verify_eq_ok {event : ChangeEvent} {key : NodePublicKey} {part : SignedPart} :
    wire.verify event key = .ok part ↔
      wire.parse event.body = some part ∧ key.node = part.node ∧
        ∃ sig, fromHex 64 event.signature "signature" = .ok sig ∧
          wire.verifyStrict key.verifying event.body sig = true := by
  unfold verify
  cases hsig : fromHex 64 event.signature "signature" with
  | error e => simp [bind, Except.bind]
  | ok sig =>
    cases hparse : wire.parse event.body with
    | none =>
      simp only [bind, Except.bind]
      split <;> simp [throw, throwThe, MonadExceptOf.throw]
    | some claimed =>
      simp only [bind, Except.bind, throw, throwThe, MonadExceptOf.throw, pure, Except.pure]
      split
      next hverify =>
        split
        next hnode =>
          simp only [reduceCtorEq, Option.some.injEq, false_iff]
          rintro ⟨rfl, hnode', -⟩
          exact hnode hnode'
        next hnode =>
          simp only [Except.ok.injEq, Option.some.injEq, exists_eq_left']
          constructor
          · rintro rfl
            exact ⟨rfl, not_not.1 hnode, hverify⟩
          · exact fun h => h.1
      next hverify => simp [hverify]

/-- Ed25519: 64 bytes, and a verifying key accepts what its signing key made. -/
structure Signs (wire : Wire) : Prop where
  length : ∀ seed text, (wire.sign seed text).length = 64
  verify : ∀ seed text, wire.verifyStrict (wire.verifyingKey seed) text (wire.sign seed text) = true

theorem signEvent_body {keypair : NodeKeypair} {part : SignedPart} (hnode : part.node = keypair.node) :
    (wire.signEvent keypair part).body = wire.render part := by
  have hpart : { part with node := keypair.node } = part := by rw [← hnode]
  simp only [signEvent, hpart]

/-- What a node signs verifies under its own key, as far as it reads back. -/
theorem verify_signEvent (hwire : wire.Signs) {keypair : NodeKeypair} {part : SignedPart}
    (hnode : part.node = keypair.node) (hparse : wire.parse (wire.render part) = some part) :
    wire.verify (wire.signEvent keypair part) (wire.public_ keypair) = .ok part := by
  have hpart : { part with node := keypair.node } = part := by rw [← hnode]
  rw [verify_eq_ok]
  simp only [signEvent, public_, hpart]
  exact ⟨hparse, hnode.symm, wire.sign keypair.seed (wire.render part),
    fromHex_toHex (hwire.length _ _) _, hwire.verify _ _⟩

end Wire

/-! ## A first wire

A node's JSON text, and signatures that a key makes and checks itself; texts are
parsed by looking them up among the parts in play. -/

namespace Agora

def quoted (s : String) : String := "\"" ++ s ++ "\""

mutual

def renderValue : Value → String
  | .null => "null"
  | .bool b => toString b
  | .number (.posInt n) => toString n
  | .number (.negInt n) => "-" ++ toString n
  | .number (.float digits) => digits
  | .string s => quoted s
  | .array items => "[" ++ ",".intercalate (renderItems items) ++ "]"
  | .object fields => "\x7b" ++ ",".intercalate (renderFields fields) ++ "\x7d"

def renderItems : List Value → List String
  | [] => []
  | v :: vs => renderValue v :: renderItems vs

def renderFields : List (String × Value) → List String
  | [] => []
  | (key, v) :: fields => (quoted key ++ ":" ++ renderValue v) :: renderFields fields

end

def number (n : Nat) : Value := .number (.posInt n)

def packed {e : Entity} (i : Id e) : Value := number (i.node.val * 2 ^ 48 + i.sequence)

def scopeValue : EventScope → Value
  | .server id => .object [("kind", .string "server"), ("id", packed id)]
  | .userHome id => .object [("kind", .string "userhome"), ("id", packed id)]
  | .global => .object [("kind", .string "global")]

def renderPart (part : SignedPart) : String :=
  renderValue (.object [("node", number part.node.val), ("epoch", number part.epoch),
    ("seq", number part.seq), ("scope", scopeValue part.scope), ("entity", .string part.entity),
    ("op", .string (if part.op = .upsert then "upsert" else "delete")), ("payload", part.payload)])

/-- The low `n` bytes of a number. -/
def lowBytes : Nat → Nat → List UInt8
  | 0, _ => []
  | n + 1, k => UInt8.ofNat (k % 256) :: lowBytes n (k / 256)

/-- 64 bytes that depend on the seed and on the text. -/
def signText (seed : List UInt8) (text : String) : List UInt8 :=
  let seed := seed.foldl (fun h b => 256 * h + b.toNat) 0
  lowBytes 32 seed ++
    lowBytes 32 (text.toList.foldl (fun h c => (h * 65599 + c.toNat) % 2 ^ 256) seed)

def idField {e : Entity} (p : Value) (key : String) : Except String (Id e) :=
  match (p.get key).bind Value.asU64 with
  | some n => .ok ⟨⟨n / 2 ^ 48 % 2 ^ 16, originNode_lt n⟩, n % 2 ^ 48⟩
  | none => .error ("missing field " ++ key)

def textField (p : Value) (key : String) : Except String String :=
  match (p.get key).bind Value.asStr with
  | some s => .ok s
  | none => .error ("missing field " ++ key)

def rulePayload (r : Rule) : Value :=
  .object [("id", packed r.id), ("server_id", packed r.serverId), ("text", .string r.text),
    ("added_at", number r.addedAt.secs.toNat)]

/-- A wire for rules and votes. -/
def wire (parts : List SignedPart) : Wire where
  render := renderPart
  parse := fun text => parts.find? (fun part => renderPart part == text)
  isVerifyingKey := fun key => key.length == 32
  verifyingKey := fun seed => seed
  sign := signText
  verifyStrict := fun key text sig => sig == signText key text
  toPayload
    | .rule r => rulePayload r
    | .vote v => .object [("proposal_id", packed v.proposalId), ("voter", packed v.voter),
        ("is_aye", .bool v.isAye)]
    | _ => .null
  rule p := do
    let id ← idField p "id"
    let server ← idField p "server_id"
    let text ← textField p "text"
    match (p.get "added_at").bind Value.asU64 with
    | some secs => return ⟨id, server, text, ⟨secs⟩⟩
    | none => throw "missing field added_at"
  vote p := do
    let proposal ← idField p "proposal_id"
    let voter ← idField p "voter"
    match p.get "is_aye" with
    | some (.bool isAye) => return ⟨proposal, voter, isAye⟩
    | _ => throw "missing field is_aye"
  user _ := .error "not an account"
  server _ := .error "not a server"
  invite _ := .error "not an invite"
  membership _ := .error "not a membership"
  channel _ := .error "not a channel"
  message _ := .error "not a message"
  reaction _ := .error "not a reaction"
  proposal _ := .error "not a proposal"
  role _ := .error "not a role"
  roleAssignment _ := .error "not a role assignment"
  emoji _ := .error "not an emoji"
  emojiVote _ := .error "not an emoji vote"
  dm _ := .error "not a direct message"
  block _ := .error "not a block"
  friendship _ := .error "not a friendship"
  userKeys _ := .error "not a key entry"
  channelGrant _ := .error "not a grant"

theorem lowBytes_length (n k : Nat) : (lowBytes n k).length = n := by
  induction n generalizing k with
  | zero => rfl
  | succ n ih => rw [lowBytes, List.length_cons, ih]

/-- Two parts in play read back, as far as their texts differ. -/
theorem parse_pair {p q : SignedPart} (h : (renderPart p == renderPart q) = false) :
    (wire [p, q]).parse (renderPart p) = some p ∧ (wire [p, q]).parse (renderPart q) = some q := by
  have hparse : ∀ text, (wire [p, q]).parse text =
      [p, q].find? (fun part => renderPart part == text) := fun _ => rfl
  generalize renderPart = render at *
  rw [hparse, hparse]
  simp only [List.find?_cons, beq_self_eq_true, h, and_self]

theorem wire_signs (parts : List SignedPart) : (wire parts).Signs where
  length seed text := by
    have hlength : (signText seed text).length = 64 := by
      rw [signText, List.length_append, lowBytes_length, lowBytes_length]
    exact hlength
  verify seed text := beq_self_eq_true (signText seed text)

end Agora

end Democrachat.Federation
