import Democrachat.App.Keys
import Democrachat.App.Vault
import Democrachat.Library.RelyGuarantee

/-!
# The media directory

`adapter-media-fs/src/lib.rs`.  A step of a program is one call of the file system, and a write
appends byte by byte.  A name stands for its file: no name is created twice while it is written.
Reading or removing a file that is there does not fail.
-/

namespace Democrachat

open Library Library.Utf8 Federation

structure MediaDir where
  /-- The files of the directory, by name. -/
  files : String → Option (List UInt8)
  /-- The file system takes nothing more. -/
  isFull : Bool

/-! ## Calls of the file system -/

/-- Opens for writing; a file that exists is emptied. -/
def createFile (name : String) : Prog MediaDir Bool :=
  Prog.call fun d =>
    if d.isFull then (false, d)
    else (true, { d with files := Function.update d.files name (some []) })

/-- A file that was removed meanwhile is written on, without a name. -/
def appendByte (name : String) (byte : UInt8) : Prog MediaDir Bool :=
  Prog.call fun d =>
    if d.isFull then (false, d)
    else
      let content := (d.files name).map (· ++ [byte])
      (true, { d with files := Function.update d.files name content })

def writeAll (name : String) : List UInt8 → Prog MediaDir Bool
  | [] => return true
  | byte :: bytes => do
    if ← appendByte name byte then writeAll name bytes
    else return false

/-- `fs::write`. -/
def writeFile (name : String) (bytes : List UInt8) : Prog MediaDir Bool := do
  if ← createFile name then writeAll name bytes
  else return false

/-- `fs::read(..).ok()`. -/
def readFile (name : String) : Prog MediaDir (Option (List UInt8)) :=
  Prog.query (fun d => d.files name)

def removeFile (name : String) : Prog MediaDir Unit :=
  Prog.modify fun d => { d with files := Function.update d.files name none }

/-! ## The store -/

namespace FsMediaStore

/-- The two digests, each in sixteen hex digits. -/
def mintKey (digests : BytesOf 16) : String := toHex digests.1

/-- The name of the blob's file. -/
def pathFor (key : String) : Option String :=
  if key.isEmpty ∨ 64 < key.utf8ByteSize ∨ key.toList.all isHexDigit = false then none
  else some key

/-- `path.with_extension("ct")`, where the name has no extension. -/
def contentTypeFile (path : String) : String := path ++ ".ct"

/-- `none` where the source has `MediaError::Io`. -/
def put (digests : BytesOf 16) (contentType : String) (bytes : List UInt8) :
    Prog MediaDir (Option String) := do
  let key := mintKey digests
  if ← writeFile key bytes then
    if ← writeFile (contentTypeFile key) (asBytes contentType) then return some key
    else return none
  else return none

/-- What is no UTF-8, or missing, is some bytes. -/
def contentTypeOf (file : Option (List UInt8)) : String :=
  ((file.bind fromUtf8).map trim).getD "application/octet-stream"

def get (key : String) : Prog MediaDir (Option (String × List UInt8)) :=
  match pathFor key with
  | none => return none
  | some path => do
    match ← readFile path with
    | none => return none
    | some bytes =>
      let file ← readFile (contentTypeFile path)
      return some (contentTypeOf file, bytes)

def delete (key : String) : Prog MediaDir Unit :=
  match pathFor key with
  | none => return ()
  | some path => do
    removeFile path
    removeFile (contentTypeFile path)

end FsMediaStore

/-- What the node asks of its media directory; and the disk fills up, or gets room again. -/
inductive MediaCall where
  | put (digests : BytesOf 16) (contentType : String) (bytes : List UInt8)
  | get (key : String)
  | delete (key : String)
  | setFull (isFull : Bool)
deriving DecidableEq

inductive MediaAnswer where
  | key (key : Option String)
  | blob (blob : Option (String × List UInt8))
  | done
deriving DecidableEq

def MediaCall.prog : MediaCall → Prog MediaDir MediaAnswer
  | put digests contentType bytes => .key <$> FsMediaStore.put digests contentType bytes
  | get key => .blob <$> FsMediaStore.get key
  | delete key => (fun _ => .done) <$> FsMediaStore.delete key
  | setFull isFull => (fun _ => .done) <$> Prog.modify (fun d => { d with isFull })

/-! ## Keys -/

namespace FsMediaStore

theorem isHexDigit_of_pathFor {key path : String} (h : pathFor key = some path) :
    path = key ∧ ∀ c ∈ key.toList, isHexDigit c = true := by
  unfold pathFor at h
  split at h
  next => cases h
  next hkey =>
    simp only [not_or, Bool.not_eq_false, List.all_eq_true] at hkey
    exact ⟨(Option.some.inj h).symm, hkey.2.2⟩

theorem isHexDigit_toHex (bytes : List UInt8) :
    ∀ c ∈ (toHex bytes).toList, isHexDigit c = true := by
  have hdigits : ∀ k < 16, isHexDigit (hexChar k) = true := by decide
  intro c hc
  rw [toHex, String.toList_ofList, List.mem_flatMap] at hc
  obtain ⟨b, -, hb⟩ := hc
  have hb' := b.toNat_lt
  rcases List.mem_cons.1 hb with rfl | hlow
  · exact hdigits (b.toNat / 16) (by omega)
  · rw [List.mem_singleton.1 hlow]
    exact hdigits (b.toNat % 16) (by omega)

/-- A minted key passes the guard. -/
theorem pathFor_mintKey (digests : BytesOf 16) :
    pathFor (mintKey digests) = some (mintKey digests) := by
  have hsize : (mintKey digests).utf8ByteSize = 32 := by
    rw [mintKey, utf8ByteSize_toHex, digests.2]
  have hnonempty : (mintKey digests).isEmpty = false := by
    rw [String.isEmpty, beq_eq_false_iff_ne, hsize]
    omega
  have hhex := isHexDigit_toHex digests.1
  rw [pathFor, if_neg]
  simp only [not_or, hnonempty, hsize, Bool.not_eq_false, List.all_eq_true]
  exact ⟨Bool.false_ne_true, by omega, hhex⟩

/-- No key is the name of a content type. -/
theorem ne_contentTypeFile {name : String} (h : ∀ c ∈ name.toList, isHexDigit c = true)
    (path : String) : name ≠ contentTypeFile path := by
  rintro rfl
  have hdot : '.' ∈ (contentTypeFile path).toList := by
    simp [contentTypeFile]
  exact absurd (h '.' hdot) (by decide)

theorem contentTypeFile_injective : Function.Injective contentTypeFile := by
  intro path path' h
  have hlists := congrArg String.toList h
  simp only [contentTypeFile, String.toList_append, List.append_cancel_right_eq] at hlists
  exact String.toList_inj.1 hlists

end FsMediaStore

/-! ## The two files of a blob -/

namespace MediaDir

open FsMediaStore

/-- The bytes and the content type. -/
def blob (key : String) (d : MediaDir) : Option (List UInt8) × Option (List UInt8) :=
  (d.files key, d.files (contentTypeFile key))

/-- What is left of a blob is as it was. -/
def Fades (l m : Option (List UInt8) × Option (List UInt8)) : Prop :=
  (m.1 = l.1 ∨ m.1 = none) ∧ (m.2 = l.2 ∨ m.2 = none)

theorem Fades.refl (l : Option (List UInt8) × Option (List UInt8)) : Fades l l :=
  ⟨.inl rfl, .inl rfl⟩

theorem Fades.trans (l m n : Option (List UInt8) × Option (List UInt8)) (h : Fades l m)
    (h' : Fades m n) : Fades l n := by
  constructor
  · rcases h'.1 with hn | hn
    · rw [hn]
      exact h.1
    · exact .inr hn
  · rcases h'.2 with hn | hn
    · rw [hn]
      exact h.2
    · exact .inr hn

theorem Fades.of_none {m : Option (List UInt8) × Option (List UInt8)}
    (h : Fades (none, none) m) : m = (none, none) := by
  apply Prod.ext
  · exact h.1.elim id id
  · exact h.2.elim id id

end MediaDir

end Democrachat
