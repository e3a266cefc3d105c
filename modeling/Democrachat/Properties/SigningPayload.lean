import Mathlib
import Democrachat.Federation.Command
import Democrachat.Library.Lines
import Democrachat.Properties.FeedProgress

/-!
# What a signature covers

The signed text of a command is a join of lines that nothing escapes, so other fields may join to
the same text.  They do not where the nonce and the body are single lines, as they are when a node
signs.
-/

namespace Democrachat.Federation

open Library

/-! ## The lines of a payload -/

/-- No line ends in it. -/
def SingleLine (s : String) : Prop := '\n' ∉ s.toList

instance (s : String) : Decidable (SingleLine s) := inferInstanceAs (Decidable (_ ∉ _))

theorem singleLine_append {s t : String} :
    SingleLine (s ++ t) ↔ SingleLine s ∧ SingleLine t := by
  rw [SingleLine, String.toList_append, List.mem_append, not_or]
  exact Iff.rfl

theorem newline_notMem_toDigits (b n : Nat) (hb : 1 < b) : '\n' ∉ Nat.toDigits b n := by
  induction n using Nat.strongRecOn with
  | _ n ih =>
    rw [Nat.toDigits_eq_if hb]
    have hdigit : ∀ d : Nat, '\n' ≠ d.digitChar :=
      fun d => (Nat.digitChar_ne '\n' (by decide)).symm
    by_cases hlt : n < b
    · rw [if_pos hlt, List.mem_singleton]
      exact hdigit n
    · rw [if_neg hlt, List.mem_append, List.mem_singleton, not_or]
      exact ⟨ih (n / b) (Nat.div_lt_self (by omega) hb), hdigit _⟩

theorem singleLine_hex (n : Nat) : SingleLine (Inner.hex n) := by
  rw [SingleLine, Inner.hex, String.toList_ofList]
  exact newline_notMem_toDigits 16 n (by decide)

theorem singleLine_repr (n : Nat) : SingleLine n.repr := by
  rw [SingleLine, Nat.toList_repr]
  exact newline_notMem_toDigits 10 n (by decide)

theorem singleLine_toString_int (i : Int) : SingleLine (toString i) := by
  cases i with
  | ofNat n => exact singleLine_repr n
  | negSucc n =>
    change SingleLine ("-" ++ (n + 1).repr)
    exact singleLine_append.2 ⟨by decide, singleLine_repr (n + 1)⟩

theorem singleLine_freshNonce (base n : Nat) : SingleLine (freshNonce base n) := by
  rw [freshNonce, singleLine_append, singleLine_append]
  exact ⟨⟨singleLine_hex base, by decide⟩, singleLine_hex n⟩

/-- What is joined to a payload. -/
def payloadLines (node : NodeId) (issuedAt : Int64) (nonce body : String) : List (List Char) :=
  ["democrachat:cmd:v1".toList, (toString node.val).toList, (toString issuedAt.toInt).toList,
    nonce.toList, body.toList]

theorem toList_signingPayload (node : NodeId) (issuedAt : Int64) (nonce body : String) :
    (signingPayload node issuedAt nonce body).toList =
      ['\n'].intercalate (payloadLines node issuedAt nonce body) := by
  have htag : "democrachat:cmd:v1\n" = "democrachat:cmd:v1" ++ "\n" := by decide +kernel
  have hnewline : "\n".toList = ['\n'] := by decide +kernel
  unfold signingPayload payloadLines
  -- as literals, their characters would be computed
  generalize toString node.val = n, toString issuedAt.toInt = i
  simp only [htag, String.toList_append, hnewline, List.intercalate_cons_cons,
    List.intercalate_singleton, List.append_assoc]

/-- With a single line for nonce and body, the joined text has no other cut. -/
theorem signingPayload_injective {node node' : NodeId} {issuedAt issuedAt' : Int64}
    {nonce nonce' body body' : String} (hnonce : SingleLine nonce) (hbody : SingleLine body)
    (h : signingPayload node' issuedAt' nonce' body' = signingPayload node issuedAt nonce body) :
    node' = node ∧ issuedAt' = issuedAt ∧ nonce' = nonce ∧ body' = body := by
  have hjoin := congrArg String.toList h
  rw [toList_signingPayload, toList_signingPayload] at hjoin
  have hsingle : ∀ l ∈ payloadLines node issuedAt nonce body, '\n' ∉ l := by
    intro l hl
    simp only [payloadLines, List.mem_cons, List.not_mem_nil, or_false] at hl
    rcases hl with rfl | rfl | rfl | rfl | rfl
    · decide
    · exact singleLine_repr node.val
    · exact singleLine_toString_int issuedAt.toInt
    · exact hnonce
    · exact hbody
  have hlines : payloadLines node' issuedAt' nonce' body' = payloadLines node issuedAt nonce body :=
    eq_of_intercalate hsingle rfl hjoin
  simp only [payloadLines, List.cons.injEq, true_and, and_true, String.toList_inj] at hlines
  obtain ⟨hnode, hissued, hsameNonce, hsameBody⟩ := hlines
  refine ⟨?_, ?_, hsameNonce, hsameBody⟩
  · exact Fin.ext (Nat.repr_injective hnode)
  · exact Int64.toInt_inj.1 (Int.repr_injective hissued)

/-- In general it has. -/
example : signingPayload 1 0 "a\nb" "c" = signingPayload 1 0 "a" "b\nc" := by
  decide +kernel

/-! ## Captured commands -/

/-- The text that its signature has to be of. -/
def SignedCommand.payload (signed : SignedCommand) : String :=
  signingPayload signed.node signed.issuedAt signed.nonce signed.body

/-- What is signed for one text verifies for the other, under whatever key, only if the two are
the same. -/
def Wire.Binds (wire : Wire) (seed : List UInt8) (payload other : String) : Prop :=
  ∀ key, wire.verifyStrict key other (wire.sign seed payload) = true → other = payload

/-- Whatever carries the signature of a command that a node has signed, and passes, is that
command: no other cut of the signed text has a nonce or a body of its own. -/
theorem signed_command_uncut (wire : Wire) (hwire : wire.Signs) (text : CommandText)
    (registry : Registry) (keypair : NodeKeypair) (cmd : Command)
    (hbody : SingleLine (text.render cmd)) (issuedAt : Int64) (base n : Nat)
    (signed : SignedCommand)
    (hbinds : wire.Binds keypair.seed
      (cmd.sign wire text keypair issuedAt base n).payload signed.payload)
    (hsignature : signed.signature = (cmd.sign wire text keypair issuedAt base n).signature)
    (cmd' : Command) (hverified : verifySigned wire text registry signed = .ok cmd') :
    signed = cmd.sign wire text keypair issuedAt base n ∧
      text.parse (text.render cmd) = some cmd' := by
  obtain ⟨hparse, key, -, hverify⟩ := verifySigned_eq_ok.1 hverified
  obtain ⟨sig, hsig, haccepted⟩ := verifyHex_eq_ok.1 hverify
  have hmade : fromHex 64 signed.signature "signature" = .ok (wire.sign keypair.seed
      (cmd.sign wire text keypair issuedAt base n).payload) := by
    rw [hsignature]
    exact fromHex_toHex (hwire.length _ _) _
  rw [hmade] at hsig
  obtain rfl := Except.ok.inj hsig
  have hpayload := hbinds key.verifying haccepted
  obtain ⟨hnode, hissued, hnonce, hsame⟩ :=
    signingPayload_injective (singleLine_freshNonce base n) hbody hpayload
  constructor
  · calc signed
        = ⟨signed.node, signed.body, signed.issuedAt, signed.nonce, signed.signature⟩ := rfl
      _ = cmd.sign wire text keypair issuedAt base n := by
        rw [hnode, hsame, hissued, hnonce, hsignature]
        rfl
  · rw [← hsame]
    exact hparse

namespace Agora

/-- A block that node 2 forwards. -/
def shun : Command := .block (composeId 2 1) (composeId 1 1)

theorem signed_command_uncut_shun :
    shun.sign (wire []) (commandText [shun]) (keypair 2) 60 1000 0 =
        shun.sign (wire []) (commandText [shun]) (keypair 2) 60 1000 0 ∧
      (commandText [shun]).parse ((commandText [shun]).render shun) = some shun := by
  apply signed_command_uncut (wire []) (wire_signs []) (commandText [shun])
    (keyed.answers (wire [])) (keypair 2) shun (by decide +kernel) 60 1000 0
    (shun.sign (wire []) (commandText [shun]) (keypair 2) 60 1000 0) (fun _ _ => rfl) rfl shun
  apply verifySigned_signAt (wire_signs [])
  · exact publicKey_of_keys (.inr rfl) rfl
  · exact parse_commandText shun

end Agora

end Democrachat.Federation
