import Democrachat.App.Vault
import Democrachat.Federation.EtcdRegistry
import Democrachat.Library.Simulation
import Democrachat.Store.Snapshot

/-!
# Starts and saves

`main`, `load_dataset` and `save` of `democrachat/src/main.rs`, as far as the dataset goes.  A process
is one boot of the program; whatever it does to its store between two saves is a function.
-/

namespace Democrachat

open Library Library.Utf8 Federation

/-- The variables that `main` reads before it loads the dataset. -/
structure Environment where
  nodeId : Option String
  dataKek : Option String

/-- Why the program exits with 2. -/
inductive Refusal where
  | badNodeId (reason : String)
  | badDataKek (e : VaultError)
  | undecryptable (e : VaultError)
  | notUtf8 (reason : String)
  | keyMissing
  | corrupt (reason : String)
deriving DecidableEq

def Refusal.display (path : String) : Refusal → String
  | badNodeId reason => "error: DEMOCRACHAT_NODE_ID must be 0–65535: " ++ reason
  | badDataKek e => "error: DEMOCRACHAT_DATA_KEK is invalid: " ++ e.display
  | undecryptable e => "error: could not decrypt " ++ path ++ ": " ++ e.display
  | notUtf8 reason => "error: decrypted " ++ path ++ " is not valid UTF-8: " ++ reason
  | keyMissing => "error: " ++ path ++ " is encrypted but DEMOCRACHAT_DATA_KEK is not set"
  | corrupt reason => "error: " ++ path ++ " is corrupt: " ++ reason

/-- The text of `str::parse::<u16>`. -/
def parseU16Error (s : String) : String :=
  let digits := match s.toList with
    | '+' :: cs => cs
    | cs => cs
  if s = "" then "cannot parse integer from empty string"
  else if digits ≠ [] ∧ digits.all Char.isDigit then "number too large to fit in target type"
  else "invalid digit found in string"

def nodeIdFromEnv (env : Environment) : Except Refusal NodeId :=
  match env.nodeId with
  | none => .ok 0
  | some raw => (EtcdRegistry.parseNode (trim raw)).elim (.error (.badNodeId (parseU16Error (trim raw)))) .ok

namespace Vault

variable (vault : Vault)

def dataKeyFromEnv (env : Environment) : Except Refusal (Option VaultKey) :=
  match env.dataKek with
  | none => .ok none
  | some raw =>
    if trim raw = "" then .ok none
    else ((vault.keyFromHex raw).map some).mapError .badDataKek

/-- The dataset as plain JSON; `none` where there is no file yet. -/
def loadDataset (file : Option String) (key : Option VaultKey) :
    Except Refusal (Option String) :=
  match file with
  | none => .ok none
  | some raw =>
    match key, vault.fromJson raw with
    | some key, .ok sealed => do
      let bytes ← (vault.vaultOpen key sealed).mapError .undecryptable
      (fromUtf8 bytes).elim (.error (.notUtf8 (vault.utf8Error bytes))) (fun s => .ok (some s))
    | some _, .error _ => .ok (some raw)
    | none, .ok _ => .error .keyMissing
    | none, .error _ => .ok (some raw)

/-- What `save` writes for the JSON of the store. -/
def output (drawn : SealDraw) (key : Option VaultKey) (json : String) : String :=
  match key with
  | some key => vault.toJson (vault.vaultSeal drawn key (asBytes json))
  | none => json

end Vault

/-- A boot of the program, and the snapshots its threads have taken and not written yet. -/
structure Process where
  key : Option VaultKey
  store : Inner
  pending : List String

structure Deployment where
  file : Option String
  process : Option Process

def Deployment.new : Deployment := ⟨none, none⟩

section

variable (vault : Vault) (text : SnapshotText)

def Vault.loadStore (file : Option String) (key : Option VaultKey) : Except Refusal Inner := do
  match ← vault.loadDataset file key with
  | some json => (text.fromJson json).mapError .corrupt
  | none => .ok (.empty 0)

/-- `main` up to the store. -/
def Vault.boot (env : Environment) (file : Option String) : Except Refusal Process := do
  let node ← nodeIdFromEnv env
  let key ← vault.dataKeyFromEnv env
  let store ← vault.loadStore text file key
  return ⟨key, store.withNode node, []⟩

/-- What happens to a deployment. -/
inductive DeployStep where
  /-- The process is gone, if there was one, and the program is started. -/
  | start (env : Environment)
  | work (f : Inner → Inner)
  /-- A save serializes the store under its lock. -/
  | snapshot
  /-- A save writes what it has serialized. -/
  | write (nth : Nat) (drawn : SealDraw)

inductive DeployAnswer where
  | started (store : Inner)
  | refused (refusal : Refusal)
  | done

def Deployment.machine : Machine Deployment DeployStep DeployAnswer
  | d, .start env =>
    match vault.boot text env d.file with
    | .ok process => (.started process.store, { d with process := some process })
    | .error refusal => (.refused refusal, { d with process := none })
  | d, .work f =>
    (.done, { d with process := d.process.map (fun p => { p with store := f p.store }) })
  | d, .snapshot =>
    (.done, { d with
      process := d.process.map (fun p => { p with pending := p.pending ++ [text.toJson p.store] }) })
  | d, .write nth drawn =>
    match d.process with
    | none => (.done, d)
    | some p =>
      match p.pending[nth]? with
      | none => (.done, d)
      | some json =>
        (.done, { file := some (vault.output drawn p.key json)
                  process := some { p with pending := p.pending.eraseIdx nth } })

end

end Democrachat
