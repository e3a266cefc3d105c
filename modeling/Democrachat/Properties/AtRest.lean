import Democrachat.Properties.Restart
import Democrachat.System.Boot

/-!
# The dataset at rest

Seen from outside, a deployment keeps the store that was written last under a lock: whoever starts the
program with the key gets that store back, and whoever starts it with another one, or with none, is
refused.
-/

namespace Democrachat

open Library Library.Utf8 Federation

/-- What the disk holds, without its text: a store, and the key that it was sealed under. -/
structure Archived where
  store : Inner
  lock : Option VaultKey

structure ArchiveProcess where
  key : Option VaultKey
  store : Inner
  pending : List Inner

structure Archive where
  saved : Option Archived
  process : Option ArchiveProcess

namespace Archive

def new : Archive := ⟨none, none⟩

/-- What is not locked opens to everyone; what is locked, to its key. -/
def load (key : Option VaultKey) : Option Archived → Except Refusal Inner
  | none => .ok (.empty 0)
  | some ⟨store, none⟩ => .ok store.reloaded
  | some ⟨store, some lock⟩ =>
    match key with
    | none => .error .keyMissing
    | some key => if key = lock then .ok store.reloaded else .error (.undecryptable .decrypt)

section

variable (vault : Vault)

def boot (env : Environment) (saved : Option Archived) : Except Refusal ArchiveProcess := do
  let node ← nodeIdFromEnv env
  let key ← vault.dataKeyFromEnv env
  let store ← load key saved
  return ⟨key, store.withNode node, []⟩

def machine : Machine Archive DeployStep DeployAnswer
  | a, .start env =>
    match boot vault env a.saved with
    | .ok process => (.started process.store, { a with process := some process })
    | .error refusal => (.refused refusal, { a with process := none })
  | a, .work f =>
    (.done, { a with process := a.process.map (fun p => { p with store := f p.store }) })
  | a, .snapshot =>
    (.done, { a with process := a.process.map (fun p => { p with pending := p.pending ++ [p.store] }) })
  | a, .write nth _ =>
    match a.process with
    | none => (.done, a)
    | some p =>
      match p.pending[nth]? with
      | none => (.done, a)
      | some store =>
        (.done, { saved := some ⟨store, p.key⟩
                  process := some { p with pending := p.pending.eraseIdx nth } })

end

end Archive

/-! ## Texts -/

section

variable (vault : Vault) (text : SnapshotText)

/-- `serde` reads the snapshot back, and does not take it for an envelope. -/
structure IsStorable (s : Inner) : Prop where
  readsBack : text.ReadsBack s.toSnapshot
  isPlain : ∃ reason, vault.parse (text.toJson s) = .error reason

/-- The keys that a deployment is ever given open nothing that another of them has sealed. -/
def KeysSeparate (keys : Set VaultKey) : Prop :=
  keys.Pairwise (fun key key' => vault.cipher.Separates key.bytes key'.bytes)

/-- The file holds this store under this lock. -/
def IsFileOf (keys : Set VaultKey) : Option String → Option Archived → Prop
  | file, none => file = none
  | file, some archived =>
    IsStorable vault text archived.store ∧ (∀ lock ∈ archived.lock, lock ∈ keys) ∧
      ∃ drawn, file = some (vault.output drawn archived.lock (text.toJson archived.store))

structure IsProcessOf (keys : Set VaultKey) (p : Process) (p' : ArchiveProcess) : Prop where
  key : p.key = p'.key
  store : p.store = p'.store
  pending : p.pending = p'.pending.map text.toJson
  known : ∀ key ∈ p'.key, key ∈ keys
  storable : ∀ s ∈ p'.store :: p'.pending, IsStorable vault text s

structure Mirrors (keys : Set VaultKey) (d : Deployment) (a : Archive) : Prop where
  file : IsFileOf vault text keys d.file a.saved
  process : Option.Rel (IsProcessOf vault text keys) d.process a.process

/-- What the operator and the program's threads may do: configure one of the keys, and leave a store
that can be saved. -/
def DeployStep.Allowed (keys : Set VaultKey) : DeployStep → Prop
  | .start env => ∀ key, vault.dataKeyFromEnv env = .ok (some key) → key ∈ keys
  | .work f => ∀ s, IsStorable vault text s → IsStorable vault text (f s)
  | .snapshot | .write _ _ => True

variable {vault text} {keys : Set VaultKey} {s t : Inner}

theorem IsStorable.of_toSnapshot_eq (h : IsStorable vault text s)
    (heq : t.toSnapshot = s.toSnapshot) : IsStorable vault text t := by
  refine ⟨?_, ?_⟩
  · rw [heq]
    exact h.readsBack
  · rw [SnapshotText.toJson, heq]
    exact h.isPlain

theorem IsStorable.fromJson (h : IsStorable vault text s) :
    text.fromJson (text.toJson s) = .ok (Inner.ofSnapshot s.toSnapshot) := by
  rw [SnapshotText.fromJson, SnapshotText.toJson, h.readsBack]
  rfl

theorem IsStorable.notSealed (h : IsStorable vault text s) :
    ∃ e, vault.fromJson (text.toJson s) = .error e := by
  obtain ⟨reason, hreason⟩ := h.isPlain
  refine ⟨.format reason, ?_⟩
  rw [Vault.fromJson, hreason]
  rfl

/-- The node is the process's, never the file's. -/
theorem withNode_ofSnapshot_toSnapshot (s : Inner) (node : NodeId) :
    (Inner.ofSnapshot s.toSnapshot).withNode node = s.reloaded.withNode node := by
  calc (Inner.ofSnapshot s.toSnapshot).withNode node
      = ((Inner.ofSnapshot s.toSnapshot).withNode s.node).withNode node := rfl
    _ = s.reloaded.withNode node := by rw [Inner.withNode_ofSnapshot]

/-! ## Starts -/

theorem loadStore_eq (hvault : vault.Lawful) (hkeys : KeysSeparate vault keys)
    {file : Option String} {saved : Option Archived} (h : IsFileOf vault text keys file saved)
    {key : Option VaultKey} (hkey : ∀ k ∈ key, k ∈ keys) (node : NodeId) :
    (vault.loadStore text file key).map (·.withNode node) =
      (Archive.load key saved).map (·.withNode node) := by
  cases saved with
  | none =>
    rw [show file = none from h]
    rfl
  | some archived =>
    obtain ⟨store, lock⟩ := archived
    obtain ⟨hstorable, hlock, drawn, rfl⟩ := h
    have hrestored := withNode_ofSnapshot_toSnapshot store node
    have hjson : text.fromJson (text.toJson store) = _ := hstorable.fromJson
    unfold Vault.loadStore Vault.loadDataset
    cases lock with
    | none =>
      obtain ⟨e, hplain⟩ := hstorable.notSealed
      cases key with
      | none =>
        simp only [Vault.output, hplain, bind, Except.bind, hjson, Except.mapError, Except.map,
          hrestored, Archive.load]
      | some key =>
        simp only [Vault.output, hplain, bind, Except.bind, hjson, Except.mapError, Except.map,
          hrestored, Archive.load]
    | some lock =>
      have hsealed := Vault.fromJson_toJson hvault drawn lock (asBytes (text.toJson store))
      cases key with
      | none => simp only [Vault.output, hsealed, bind, Except.bind, Except.map, Archive.load]
      | some key =>
        by_cases heq : key = lock
        · subst heq
          have hopen := Vault.vaultOpen_vaultSeal hvault.cipher drawn key
            (asBytes (text.toJson store))
          simp only [Vault.output, hsealed, hopen, bind, Except.bind, Except.mapError,
            fromUtf8_asBytes, Option.elim_some, hjson, Except.map, hrestored, Archive.load, if_true]
        · have hseparates := hkeys (hlock lock rfl) (hkey key rfl) (Ne.symm heq)
          have hclosed := Vault.vaultOpen_of_separates hseparates drawn
            (asBytes (text.toJson store))
          simp only [Vault.output, hsealed, hclosed, bind, Except.bind, Except.mapError, Except.map,
            Archive.load, heq, if_false]

theorem IsFileOf.storable_of_load {file : Option String} {saved : Option Archived}
    (h : IsFileOf vault text keys file saved) (hempty : IsStorable vault text (.empty 0))
    {key : Option VaultKey} (hload : Archive.load key saved = .ok s) :
    IsStorable vault text s := by
  cases saved with
  | none =>
    rw [← Except.ok.inj hload]
    exact hempty
  | some archived =>
    obtain ⟨store, lock⟩ := archived
    have hstore : IsStorable vault text store.reloaded := h.1.of_toSnapshot_eq rfl
    cases lock with
    | none =>
      rw [← Except.ok.inj hload]
      exact hstore
    | some lock =>
      cases key with
      | none => cases hload
      | some key =>
        simp only [Archive.load] at hload
        split at hload
        · rw [← Except.ok.inj hload]
          exact hstore
        · cases hload

/-- Both starts are refused for the same reason, or neither is. -/
theorem boot_cases (hvault : vault.Lawful) (hkeys : KeysSeparate vault keys)
    (hempty : IsStorable vault text (.empty 0)) {file : Option String} {saved : Option Archived}
    (h : IsFileOf vault text keys file saved) {env : Environment}
    (henv : DeployStep.Allowed vault text keys (.start env)) :
    (∃ refusal, vault.boot text env file = .error refusal ∧
      Archive.boot vault env saved = .error refusal) ∨
    ∃ p p', vault.boot text env file = .ok p ∧ Archive.boot vault env saved = .ok p' ∧
      IsProcessOf vault text keys p p' := by
  unfold Vault.boot Archive.boot
  cases nodeIdFromEnv env with
  | error refusal => exact .inl ⟨refusal, rfl, rfl⟩
  | ok node =>
    cases hkey : vault.dataKeyFromEnv env with
    | error refusal => exact .inl ⟨refusal, rfl, rfl⟩
    | ok key =>
      have hknown : ∀ k ∈ key, k ∈ keys := by
        rintro k rfl
        exact henv k hkey
      have hload := loadStore_eq hvault hkeys h hknown node
      simp only [bind, Except.bind]
      cases hstored : Archive.load key saved with
      | error refusal =>
        rw [hstored] at hload
        cases hfound : vault.loadStore text file key with
        | error refusal' =>
          rw [hfound] at hload
          exact .inl ⟨refusal, congrArg Except.error (Except.error.inj hload), rfl⟩
        | ok t =>
          rw [hfound] at hload
          cases hload
      | ok s =>
        rw [hstored] at hload
        cases hfound : vault.loadStore text file key with
        | error refusal' =>
          rw [hfound] at hload
          cases hload
        | ok t =>
          rw [hfound] at hload
          refine .inr ⟨_, _, rfl, rfl, rfl, Except.ok.inj hload, rfl, hknown, ?_⟩
          intro u hu
          rw [List.mem_singleton.1 hu]
          exact (h.storable_of_load hempty hstored).of_toSnapshot_eq rfl

/-! ## Lives -/

namespace IsProcessOf

variable {p : Process} {p' : ArchiveProcess} (h : IsProcessOf vault text keys p p')

include h

theorem work {f : Inner → Inner} (hf : ∀ s, IsStorable vault text s → IsStorable vault text (f s)) :
    IsProcessOf vault text keys { p with store := f p.store } { p' with store := f p'.store } where
  key := h.key
  store := congrArg f h.store
  pending := h.pending
  known := h.known
  storable := by
    obtain ⟨hstore, hpending⟩ := List.forall_mem_cons.1 h.storable
    exact List.forall_mem_cons.2 ⟨hf p'.store hstore, hpending⟩

theorem snapshot :
    IsProcessOf vault text keys { p with pending := p.pending ++ [text.toJson p.store] }
      { p' with pending := p'.pending ++ [p'.store] } where
  key := h.key
  store := h.store
  pending := by
    rw [List.map_append, ← h.pending, h.store]
    rfl
  known := h.known
  storable := by
    obtain ⟨hstore, hpending⟩ := List.forall_mem_cons.1 h.storable
    exact List.forall_mem_cons.2 ⟨hstore, List.forall_mem_append.2
      ⟨hpending, List.forall_mem_singleton.2 hstore⟩⟩

theorem eraseIdx (nth : Nat) :
    IsProcessOf vault text keys { p with pending := p.pending.eraseIdx nth }
      { p' with pending := p'.pending.eraseIdx nth } where
  key := h.key
  store := h.store
  pending := by
    rw [h.pending]
    exact List.eraseIdx_map text.toJson p'.pending nth
  known := h.known
  storable := by
    obtain ⟨hstore, hpending⟩ := List.forall_mem_cons.1 h.storable
    exact List.forall_mem_cons.2
      ⟨hstore, fun t ht => hpending t (List.mem_of_mem_eraseIdx ht)⟩

end IsProcessOf

theorem simulates_archive (hvault : vault.Lawful) (hkeys : KeysSeparate vault keys)
    (hempty : IsStorable vault text (.empty 0)) :
    Machine.Simulates (Deployment.machine vault text) (Archive.machine vault) (fun _ => 0)
      (DeployStep.Allowed vault text keys) Eq (fun _ => Mirrors vault text keys) := by
  constructor
  rintro - ⟨file, process⟩ ⟨saved, process'⟩ step ⟨hfile, hprocess⟩ hallowed
  cases step with
  | start env =>
    simp only [Deployment.machine, Archive.machine]
    obtain ⟨refusal, hboot, hboot'⟩ | ⟨p, p', hboot, hboot', hp⟩ :=
      boot_cases hvault hkeys hempty hfile hallowed
    · rw [hboot, hboot']
      exact ⟨rfl, hfile, .none⟩
    · rw [hboot, hboot']
      exact ⟨congrArg DeployAnswer.started hp.store, hfile, .some hp⟩
  | work f =>
    refine ⟨rfl, hfile, ?_⟩
    cases hprocess with
    | none => exact .none
    | some hp => exact .some (hp.work hallowed)
  | snapshot =>
    refine ⟨rfl, hfile, ?_⟩
    cases hprocess with
    | none => exact .none
    | some hp => exact .some hp.snapshot
  | write nth drawn =>
    cases hprocess with
    | none => exact ⟨rfl, hfile, .none⟩
    | @some p p' hp =>
      simp only [Deployment.machine, Archive.machine, hp.pending, List.getElem?_map]
      cases hnth : p'.pending[nth]? with
      | none => exact ⟨rfl, hfile, .some hp⟩
      | some store =>
        have hstorable := hp.storable store (.tail _ (List.mem_of_getElem? hnth))
        refine ⟨rfl, ⟨hstorable, hp.known, drawn, ?_⟩, .some ?_⟩
        · rw [hp.key]
          rfl
        · rw [← hp.pending]
          exact hp.eraseIdx nth

end

namespace Agora

/-- A cipher that hides nothing and keeps keys apart. -/
def cipher : Aead (BytesOf 32) (BytesOf 12) (List UInt8) (List UInt8) where
  encrypt key nonce p := key.1 ++ nonce.1 ++ p
  decrypt key nonce c := if (key.1 ++ nonce.1).isPrefixOf c then some (c.drop 44) else none

theorem lawful_cipher : cipher.Lawful where
  opens := by
    intro key nonce p
    have hlength : (key.1 ++ nonce.1).length = 44 := by
      rw [List.length_append, key.2, nonce.2]
    simp only [cipher, List.isPrefixOf_iff_prefix, List.prefix_append, if_true]
    rw [← hlength, List.drop_left]
  authentic := by
    intro key nonce c p h
    have hlength : (key.1 ++ nonce.1).length = 44 := by
      rw [List.length_append, key.2, nonce.2]
    simp only [cipher, List.isPrefixOf_iff_prefix] at h
    split at h
    next hprefix =>
      obtain ⟨rest, rfl⟩ := hprefix
      rw [← hlength, List.drop_left] at h
      rw [← Option.some.inj h]
      rfl
    next => cases h

theorem separates_cipher {key key' : BytesOf 32} (h : key ≠ key') : cipher.Separates key key' := by
  intro nonce nonce' p
  simp only [cipher, List.isPrefixOf_iff_prefix]
  rw [if_neg]
  intro hprefix
  rw [List.append_assoc] at hprefix
  have hkeys : key'.1 <+: key.1 :=
    List.prefix_of_prefix_length_le ((List.prefix_append _ _).trans hprefix)
      (List.prefix_append _ _) (by rw [key.2, key'.2])
  exact h (Subtype.ext (hkeys.eq_of_length (by rw [key.2, key'.2])).symm)

/-- The text of an envelope of version 1, between its quotes. -/
def pieces (sealed : Vault.Sealed) : List (List Char) :=
  ["\x7b", "vault", ":1,", "wrapped_key", ":", sealed.wrappedKey, ",", "key_nonce", ":",
    sealed.keyNonce, ",", "nonce", ":", sealed.nonce, ",", "ciphertext", ":", sealed.ciphertext,
    "\x7d"].map String.toList

def envelopeText (sealed : Vault.Sealed) : List Char := ['"'].intercalate (pieces sealed)

def parseEnvelope (cs : List Char) : Except String Vault.Sealed :=
  match cs.splitOn '"' with
  | [_, _, _, _, _, wrappedKey, _, _, _, keyNonce, _, _, _, nonce, _, _, _, ciphertext, _] =>
    let sealed : Vault.Sealed :=
      ⟨1, .ofList wrappedKey, .ofList keyNonce, .ofList nonce, .ofList ciphertext⟩
    if cs = envelopeText sealed then .ok sealed else .error "not an envelope"
  | _ => .error "not an envelope"

def vault : Vault where
  cipher := cipher
  render sealed := String.ofList (envelopeText sealed)
  parse s := parseEnvelope s.toList
  hexError _ := "not hex"
  utf8Error _ := "not UTF-8"

theorem quote_notMem_toHex (bytes : List UInt8) : '"' ∉ (toHex bytes).toList := by
  have hdigits : ∀ k < 16, hexChar k ≠ '"' := by decide
  rw [toHex, String.toList_ofList, List.mem_flatMap]
  rintro ⟨b, -, hb⟩
  have hb' := b.toNat_lt
  rcases List.mem_cons.1 hb with hhigh | hlow
  · exact hdigits (b.toNat / 16) (by omega) hhigh.symm
  · exact hdigits (b.toNat % 16) (by omega) (List.mem_singleton.1 hlow).symm

theorem parseEnvelope_envelopeText {sealed : Vault.Sealed} (hversion : sealed.vault = vaultVersion)
    (hpieces : ∀ l ∈ pieces sealed, '"' ∉ l) :
    parseEnvelope (envelopeText sealed) = .ok sealed := by
  have hsplit : (envelopeText sealed).splitOn '"' = pieces sealed :=
    List.splitOn_intercalate '"' hpieces (by simp [pieces])
  obtain ⟨version, wrappedKey, keyNonce, nonce, ciphertext⟩ := sealed
  subst hversion
  rw [parseEnvelope, hsplit]
  simp only [pieces, List.map_cons, List.map_nil, String.ofList_toList]
  exact if_pos rfl

theorem lawful_vault : vault.Lawful where
  cipher := lawful_cipher
  readsBack := by
    intro drawn key p
    simp only [vault, String.toList_ofList]
    apply parseEnvelope_envelopeText
    · rfl
    · simp [pieces, Vault.vaultSeal, quote_notMem_toHex]

/-- The snapshots of a store with a rule and of one without. -/
def atRest : SnapshotText := rulesText [(Inner.empty 0).toSnapshot, pulled.toSnapshot]

theorem parse_atRest (text : String) :
    atRest.parse text =
      match [(Inner.empty 0).toSnapshot, pulled.toSnapshot].find?
        (fun snap => atRest.render snap == text) with
      | some snap => .ok snap
      | none => .error "not a snapshot" := rfl

theorem isStorable_empty : IsStorable vault atRest (.empty 0) where
  readsBack := by
    rw [SnapshotText.ReadsBack, parse_atRest]
    generalize atRest.render = render
    rw [List.find?_cons, beq_self_eq_true]
  isPlain := ⟨"not an envelope", by decide +kernel⟩

theorem isStorable_pulled : IsStorable vault atRest pulled where
  readsBack := by
    have hother : atRest.render (Inner.empty 0).toSnapshot ≠ atRest.render pulled.toSnapshot := by
      decide +kernel
    rw [SnapshotText.ReadsBack, parse_atRest]
    revert hother
    generalize atRest.render = render
    intro hother
    rw [List.find?_cons, beq_false_of_ne hother, List.find?_cons, beq_self_eq_true]
  isPlain := ⟨"not an envelope", by decide +kernel⟩

def kek (byte : UInt8) : String := toHex (List.replicate 32 byte)

def draw : SealDraw :=
  ⟨⟨List.replicate 32 7, rfl⟩, ⟨List.replicate 12 8, rfl⟩, ⟨List.replicate 12 9, rfl⟩⟩

/-- A rule is written and saved under a key; the next starts have no key, another key, and the key. -/
def tenure : List DeployStep :=
  [.start ⟨some "1", some (kek 0x11)⟩, .work (fun _ => pulled), .snapshot, .write 0 draw,
    .start ⟨some "1", none⟩, .start ⟨some "1", some (kek 0x22)⟩,
    .start ⟨some " 1 ", some (kek 0x11)⟩]

end Agora

end Democrachat
