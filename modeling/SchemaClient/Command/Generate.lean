import SchemaClient.Client.Module
import SchemaClient.Command.Session

/-!
# Generating a module

The command writes the module for an inventory into a directory, or prints it. The file appears at
once and complete, and an earlier file is replaced only if the user agrees.
-/

namespace SchemaClient.Command

open SchemaClient.Store SchemaClient.Text

/-- What is to be generated. -/
structure GenerateOptions where
  inventory : String
  /-- The directory for the module; without one, that of the configuration. -/
  output : Option String
  /-- Whether an earlier file is replaced without asking. -/
  yes : Bool
  /-- Whether the module is printed. -/
  stdout : Bool
deriving DecidableEq, Repr

variable {m : Type → Type} [Monad m] [Disk m]

/-- Whether the user has to be asked before a path is written to. -/
def mustAsk (path : String) (yes : Bool) : m Bool := do
  if yes then return false else Disk.isThere path

/-- Whether a path is to be written to; `confirm` asks the user. -/
def shouldWrite (path : String) (yes : Bool) (confirm : String → m Bool) : m Bool := do
  if ← mustAsk path yes then confirm path else return true

/-- Writes a text to a path, by way of a scratch file in a directory, which is created if it is
missing. -/
def writeAtOnce (directory path text : String) : Run m Unit := do
  during ("failed to create " ++ directory) <|
    orDiskError (Disk.createAll directory)
  let scratch ← during ("failed to create temporary file in " ++ directory) <|
    orDiskError (Disk.createScratch directory)
  during ("failed to write " ++ path) <|
    orDiskError (Disk.install scratch path (Glyph.ofString text))

/-- The numbers of a module for its report. -/
def statsJson (s : Client.Stats) : Json :=
  .object
    [("structs", .nat s.structs), ("enums", .nat s.enums), ("variants", .nat s.variants),
     ("omitted_variants", .nat s.omittedVariants), ("routes", .nat s.routes),
     ("skipped_items", .nat s.skippedItems)]

/-- The report of a module that has been written to a path. -/
def moduleJson (path : String) (c : Client.Module) : Json :=
  .object
    [("version", .string c.version), ("path", .string path),
     ("bytes", .nat c.content.utf8ByteSize), ("stats", statsJson c.stats)]

/-- Writes or prints the module for an inventory. -/
def generate [Web m] (s : Session m) (config : Option String) (format : Report.Format)
    (o : GenerateOptions) : Run m Outcome := do
  let c ← loadConfig s config
  let inv ← loadInventory o.inventory c
  let client ← during ("failed to generate module for v" ++ inv.version) <|
    orFail (pure (Client.generate inv))
  if o.stdout then return ⟨.success, client.content⟩
  let directory := o.output.getD c.output.directory
  let path := Path.join directory client.fileName
  if ← (shouldWrite path o.yes s.confirm : m Bool) then
    writeAtOnce directory path client.content
    return s.report format (moduleJson path client)
  return ⟨.aborted, ""⟩

end SchemaClient.Command
