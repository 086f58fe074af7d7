import RegionSync.Config
import RegionSync.Discovery.Listing
import RegionSync.Trust

/-!
What a peer reports to its host, and why an operation of a peer fails.
-/

namespace RegionSync

/-- Where a remote player is, as far as a peer knows. -/
inductive Location
  /-- Discovered, and no position accepted yet. -/
  | discovered
  /-- The last position accepted. -/
  | known (p : Point)
  /-- Given up after too many timeouts. -/
  | dropped
  deriving DecidableEq

def Location.position? : Location → Option Point
  | known p => some p
  | _ => none

inductive Severity
  | debug
  | info
  | warning
  | error
  deriving DecidableEq, Repr

/-- The level of a report in words. -/
def Severity.text : Severity → String
  | .debug => "debug"
  | .info => "info"
  | .warning => "warn"
  | .error => "error"

inductive Event
  | log (severity : Severity) (text : String)
  | located (player : EntityName) (location : Location)
  | tagged (player : EntityName) (tag : String)
  deriving DecidableEq

inductive PeerError
  | region (error : RegionError)
  | wire (error : WireError)
  | transport (error : TransportError)
  | trust (error : TrustError)
  | config (error : ConfigError)
  | alreadyStarted
  deriving DecidableEq

def PeerError.message : PeerError → String
  | region e => e.message
  | wire e => e.message
  | transport e => e.message
  | trust e => e.message
  | config e => e.message?.getD ""
  | alreadyStarted => "instance already started"

end RegionSync
