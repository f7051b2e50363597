import SchemaClient.Command.Run

/-!
# The program

Runs the request of the command line on the files of the machine.
-/

namespace SchemaClient.Shell

open SchemaClient.Command SchemaClient.Store SchemaClient.Text

/-- The problem that an error of the system is. -/
def problemOf : IO.Error → Problem
  | .noFileOrDirectory _ _ _ => .notFound
  | .alreadyExists _ _ _ => .alreadyExists
  | e => .other (toString e)

/-- The result of an action, with the problem that it may meet. -/
def attempt {α : Type} (action : IO α) : IO (Except Problem α) := do
  try return .ok (← action)
  catch e => return .error (problemOf e)

/-- Whether an action succeeds. -/
def succeeds {α : Type} (action : IO α) : IO Bool := do
  return (← attempt action).toOption.isSome

/-- The bytes of a file's content. -/
def encode (c : Content) : ByteArray :=
  ⟨(c.flatMap Glyph.bytes).toArray⟩

/-- How many names are tried for a scratch file. -/
def scratchAttempts : Nat := 100

/-- Creates an empty file in a directory under the first name that is free. -/
def createScratch (directory : String) : Nat → IO (Except Problem String)
  | 0 => return .error .alreadyExists
  | n + 1 => do
    let path := Path.join directory (".typegen" ++ toString (← IO.rand 0 999999999))
    match ← attempt (IO.FS.Handle.mk path .writeNew) with
    | .ok _ => return .ok path
    | .error .alreadyExists => createScratch directory n
    | .error p => return .error p

/-- Files and directories of the machine. A directory can be opened but not read. -/
instance : Disk IO where
  isThere path := succeeds (IO.FS.Handle.mk path .read)
  isDirectory path := do
    match ← attempt (IO.FS.Handle.mk path .read) with
    | .ok h => return !(← succeeds (h.read 1))
    | .error _ => return false
  read path := do
    return (← attempt (IO.FS.readBinFile path)).map fun bytes => Glyph.ofBytes bytes.toList
  write path c := attempt (IO.FS.writeBinFile path (encode c))
  createDirectory path := attempt (IO.FS.createDir path)
  createScratch directory := createScratch directory scratchAttempts
  install scratch path c := do
    let r ← attempt do
      IO.FS.writeBinFile scratch (encode c)
      IO.FS.rename scratch path
    if r.toOption.isNone then
      let _ ← attempt (IO.FS.removeFile scratch)
    return r

/-- The program brings no client for the web along. -/
instance : Web IO := .offline

/-- The path of the configuration if none is given. -/
def defaultConfig : IO (Option String) := do
  let path (directory : String) := Path.join directory "typegen/config.toml"
  match ← IO.getEnv "XDG_CONFIG_HOME", ← IO.getEnv "HOME" with
  | some directory, home =>
    if Path.isAbsolute directory then return some (path directory)
    else return home.map fun h => path (Path.join h ".config")
  | none, home => return home.map fun h => path (Path.join h ".config")

/-- Asks whether the file of a path may be replaced. Without a terminal the answer is no. -/
def confirm (path : String) : IO Bool := do
  let input ← IO.getStdin
  if !(← input.isTty) then return false
  IO.eprint (path ++ " already exists. Overwrite? [y/N] ")
  let answer ← input.getLine
  return ["y", "yes"].contains (String.ofList ((trimEnd answer.toList).map Char.toLower))

/-- The session of the program. -/
def session : IO (Session IO) := do
  return ⟨← defaultConfig, ← (← IO.getStdout).isTty, confirm⟩

/-- Runs the request of a command line and gives the exit code. -/
def run (args : List String) : IO UInt32 := do
  let environment ← IO.getEnv "TYPEGEN_CONFIG"
  let (outcome, error) ← runRequest (← session) (Request.ofArguments environment args)
  IO.print outcome.output
  if let some e := error then IO.eprintln ("error: " ++ e.chain)
  return outcome.code.value.toNat.toUInt32

end SchemaClient.Shell

/-- Runs the request of the command line. -/
def main (args : List String) : IO UInt32 :=
  SchemaClient.Shell.run args
