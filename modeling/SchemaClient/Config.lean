import SchemaClient.Failure
import SchemaClient.Json.Value
import SchemaClient.Toml.Document

/-!
# Configuration

How an inventory is fetched and where modules are written to. A configuration is kept as a TOML
document; every setting that it leaves out has its default.
-/

namespace SchemaClient

/-- How an inventory is fetched. -/
structure FetchConfig where
  timeoutSeconds : Nat := 30
  maxConcurrentRequests : Nat := 16
deriving DecidableEq, Repr, Inhabited

/-- Where modules are written to. -/
structure OutputConfig where
  directory : String := "."
deriving DecidableEq, Repr, Inhabited

/-- A configuration. -/
structure Config where
  fetch : FetchConfig := {}
  output : OutputConfig := {}
deriving DecidableEq, Repr, Inhabited

namespace Config

open SchemaClient.Toml

/-- Fails unless every setting is in range. -/
def validate (c : Config) : Except Failure Unit :=
  if c.fetch.timeoutSeconds = 0 then
    .error (.invalidConfig "fetch.timeout_seconds must be greater than 0")
  else if c.fetch.maxConcurrentRequests = 0 then
    .error (.invalidConfig "fetch.max_concurrent_requests must be greater than 0")
  else .ok ()

mutual

/-- Whether a number in a value cannot be read. -/
def isUnreadable : Value → Bool
  | .scalar s => s.isUnreadable
  | .array vs => anyUnreadableItem vs
  | .table es => anyUnreadableEntry es

/-- Whether a number in one of the values cannot be read. -/
def anyUnreadableItem : List Value → Bool
  | [] => false
  | v :: vs => isUnreadable v || anyUnreadableItem vs

/-- Whether a number in one of the entries cannot be read. -/
def anyUnreadableEntry : List (String × Value) → Bool
  | [] => false
  | (_, v) :: es => isUnreadable v || anyUnreadableEntry es

end

/-- A setting: its key, and how its value is stored. -/
structure Setting (σ : Type) where
  key : String
  store : Value → σ → Option σ

/-- Stores the entries of a table; those of other keys are ignored. -/
def storeEntries {σ : Type} (settings : List (Setting σ)) :
    List (String × Value) → σ → Option σ
  | [], s => some s
  | (k, v) :: es, s =>
    match settings.find? (·.key == k) with
    | some setting => do storeEntries settings es (← setting.store v s)
    | none => if isUnreadable v then none else storeEntries settings es s

/-- Stores the values of an array in the order of the settings; those too many are ignored. -/
def storeItems {σ : Type} : List (Setting σ) → List Value → σ → Option σ
  | setting :: settings, v :: vs, s => do storeItems settings vs (← setting.store v s)
  | _, _, s => some s

/-- Stores the settings of a section, which may be written as a table or as an array of values. A
date is a section that gives no setting. -/
def storeSection {σ : Type} (settings : List (Setting σ)) (v : Value) (s : σ) : Option σ :=
  match v with
  | .table es => storeEntries settings es s
  | .array vs => storeItems settings vs s
  | .scalar .moment => some s
  | .scalar _ => none

/-- A number of 64 bits that is not negative. -/
def word? : Value → Option Nat
  | .scalar (.integer i) => if 0 ≤ i ∧ i ≤ 0xFFFFFFFFFFFFFFFF then some i.toNat else none
  | _ => none

/-- A text. -/
def text? : Value → Option String
  | .scalar (.string cs) => some (String.ofList cs)
  | _ => none

def fetchSettings : List (Setting FetchConfig) :=
  [⟨"timeout_seconds", fun v f => (word? v).map fun n => { f with timeoutSeconds := n }⟩,
   ⟨"max_concurrent_requests",
    fun v f => (word? v).map fun n => { f with maxConcurrentRequests := n }⟩]

def outputSettings : List (Setting OutputConfig) :=
  [⟨"directory", fun v o => (text? v).map fun s => { o with directory := s }⟩]

/-- The sections of a configuration. -/
def sections : List (Setting Config) :=
  [⟨"fetch", fun v c => (storeSection fetchSettings v {}).map fun f => { c with fetch := f }⟩,
   ⟨"output", fun v c => (storeSection outputSettings v {}).map fun o => { c with output := o }⟩]

/-- The configuration of a TOML document, not yet validated. -/
def ofChars? (cs : List Char) : Option Config := do
  storeEntries sections (← Document.ofChars? cs) {}

/-- The configuration of a text. -/
def read (cs : List Char) : Except Failure Config :=
  match ofChars? cs with
  | none => .error .unreadableConfig
  | some c => c.validate.map fun _ => c

/-- The line of a setting. -/
def line (key : String) (value : List Char) : List Char :=
  key.toList ++ " = ".toList ++ value ++ ['\n']

/-- The text of a configuration, with all settings. -/
def write (c : Config) : List Char :=
  "[fetch]\n".toList ++
    line "timeout_seconds" (Nat.toDigits 10 c.fetch.timeoutSeconds) ++
    line "max_concurrent_requests" (Nat.toDigits 10 c.fetch.maxConcurrentRequests) ++
    "\n[output]\n".toList ++
    line "directory" (Quoted.write c.output.directory.toList)

/-- The report of a configuration. -/
def toJson (c : Config) : Json :=
  .object
    [("fetch", .object
      [("timeout_seconds", .nat c.fetch.timeoutSeconds),
       ("max_concurrent_requests", .nat c.fetch.maxConcurrentRequests)]),
     ("output", .object [("directory", .string c.output.directory)])]

end Config

end SchemaClient
