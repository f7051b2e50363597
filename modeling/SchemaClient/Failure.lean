import SchemaClient.Json.Token

/-!
# Failures

What may go wrong when an inventory is loaded, a configuration is read or a module is made, and
the message for it.
-/

namespace SchemaClient

/-- What went wrong. -/
inductive Failure where
  /-- A document cannot be fetched. -/
  | fetchFailed (location reason : String)
  /-- A document is not of the schema. -/
  | invalidSchema (location : String) (cause : Json.Cause)
  /-- A file cannot be read. -/
  | io (path reason : String)
  /-- A text is no configuration. -/
  | unreadableConfig
  /-- A setting of a configuration is out of range. -/
  | invalidConfig (message : String)
  | invalidArgument (message : String)
  /-- Types contain each other; the chain leads from one back to itself. -/
  | flattenCycle (chain : List String)
  /-- A text cannot be made from a template. -/
  | render (message : String)
deriving DecidableEq, Repr

namespace Failure

/-- The message for a failure. -/
def message : Failure → String
  | fetchFailed location _ => "failed to fetch schema from " ++ location
  | invalidSchema location _ => "invalid schema document at " ++ location
  | io path _ => "I/O error on " ++ path
  | unreadableConfig => "Configuration error: the text is no configuration"
  | invalidConfig m => "Configuration error: " ++ m
  | invalidArgument m => "Invalid argument: " ++ m
  | flattenCycle chain => "flattened fields form a cycle: " ++ " -> ".intercalate chain
  | render m => "Render error: " ++ m

/-- The reason behind a failure, where one is told. -/
def reason? : Failure → Option String
  | fetchFailed _ reason => some reason
  | io _ reason => some reason
  | _ => none

/-- Whether a document of the inventory is the problem. -/
def isFetch : Failure → Bool
  | fetchFailed _ _ => true
  | invalidSchema _ _ => true
  | _ => false

/-- Whether the configuration is the problem. -/
def isConfig : Failure → Bool
  | unreadableConfig => true
  | invalidConfig _ => true
  | _ => false

/-- Whether types contain each other. -/
def isCycle : Failure → Bool
  | flattenCycle _ => true
  | _ => false

/-- Whether a file is the problem. -/
def isFile : Failure → Bool
  | io _ _ => true
  | _ => false

end Failure

end SchemaClient
