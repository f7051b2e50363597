import SchemaClient.Store.Path
import SchemaClient.Store.Problem
import SchemaClient.Text.Glyph

/-!
# Disks

What a command may do with files and directories, and what it makes of these operations: creating
a directory with all directories above it, and replacing a file at once.
-/

namespace SchemaClient.Store

open SchemaClient.Text

/-- What a file holds. -/
abbrev Content := List Glyph

/-- The operations on files and directories. -/
class Disk (m : Type → Type) where
  /-- Whether a path names a file or a directory. -/
  isThere : String → m Bool
  isDirectory : String → m Bool
  read : String → m (Except Problem Content)
  write : String → Content → m (Except Problem Unit)
  /-- Creates a directory in a directory that is there. -/
  createDirectory : String → m (Except Problem Unit)
  /-- Creates an empty file under a name of its own in a directory and gives its path. -/
  createScratch : String → m (Except Problem String)
  /-- Fills a scratch file and puts it under a path at once, in place of an earlier file there.
  Where this fails the scratch file is removed. -/
  install : String → String → Content → m (Except Problem Unit)

namespace Disk

variable {m : Type → Type} [Monad m] [Disk m]

/-- Creates a directory, unless it is there. -/
def ensureDirectory (path : String) : m (Except Problem Unit) := do
  match ← createDirectory path with
  | .ok () => return .ok ()
  | .error e => if ← isDirectory path then return .ok () else return .error e

/-- Creates a directory and the directories above it, as far as they are missing. `fuel` bounds how
many there are. -/
def createAllUpTo : Nat → String → m (Except Problem Unit)
  | 0, _ => return .error .notFound
  | fuel + 1, path => do
    if path.isEmpty then return .ok ()
    match ← createDirectory path with
    | .ok () => return .ok ()
    | .error .notFound =>
      match Path.parent? path with
      | none => return .error .notFound
      | some parent =>
        match ← createAllUpTo fuel parent with
        | .ok () => ensureDirectory path
        | .error e => return .error e
    | .error e => if ← isDirectory path then return .ok () else return .error e

/-- Creates a directory and the directories above it, as far as they are missing. -/
def createAll (path : String) : m (Except Problem Unit) :=
  createAllUpTo (path.length + 1) path

end Disk

end SchemaClient.Store
