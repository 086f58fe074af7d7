import RegionSync.Instance.Basic

/-!
How an instance answers the requests that come in under its registered names. An answer is given at
once, or the request waits a little for a position that is not published yet.
-/

namespace RegionSync.Handler

/-- The reply of a peer to a request; requests that make no sense are passed over. -/
def reply (σ : Scheme) (peer : Peer) (handler : Handler) (name : Name) (timestamp : UInt64) :
    Peer.PlayerReply × List Event :=
  match handler with
  | .discovery =>
    let (response, events) := peer.answerDiscovery σ name timestamp
    (.answered response, events)
  | .player =>
    match peer.answerPlayer σ name timestamp with
    | .ok (.ok answer) => answer
    | _ => (.silent, [])

/-- How often a request that waits is looked at again. -/
def retries (peer : Peer) : Nat :=
  peer.config.aheadRetries.toNat

/-- Milliseconds from one look at a waiting request to the next. -/
def patience (peer : Peer) : Nat :=
  peer.config.positionInterval.toNat

end RegionSync.Handler
