import SchemaClient.Store.Disk

/-!
# The web

What a command may ask of a client for the web. Which servers there are and how they are reached is
left open: a client comes back with the answer of a server, or with the reason why there is none.
-/

namespace SchemaClient.Store

/-- How a client presents itself, and how long it waits. -/
structure Agent where
  name : String := "typegen/0.1.0"
  /-- After how many seconds a request is given up. -/
  timeoutSeconds : Nat := 30
deriving DecidableEq, Repr

/-- What a server answers to a request. -/
structure Response where
  status : Nat
  /-- How the client words that the status is that of a refusal. -/
  refusal : String
  /-- The body, or why it breaks off. -/
  body : Except String Content

/-- Whether the status is that of a refusal, for which client or server may be to blame. -/
def Response.isRefusal (r : Response) : Bool :=
  400 ≤ r.status && r.status < 600

/-- The operations of a client for the web; where one fails it says why. -/
class Web (m : Type → Type) where
  /-- Makes a client ready. -/
  prepare : Agent → m (Except String Unit)
  /-- Sends a request for the document at an address. -/
  get : Agent → String → m (Except String Response)

namespace Web

variable {m : Type → Type} [Monad m]

/-- The client of a machine from which no server is reached. -/
@[reducible]
def offline : Web m where
  prepare _ := return .ok ()
  get _ _ := return .error "the web cannot be reached"

/-- Reads the document at an address. -/
def read [Web m] (agent : Agent) (address : String) : m (Except String Content) := do
  match ← get agent address with
  | .error e => return .error e
  | .ok r => return if r.isRefusal then .error r.refusal else r.body

end Web

end SchemaClient.Store
