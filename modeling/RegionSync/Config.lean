import RegionSync.Json.Reader
import RegionSync.Json.Record
import RegionSync.Message
import RegionSync.Position.Window
import RegionSync.Region.Geometry

/-!
Configuration of a peer. Every setting has a default, so a document names only what it changes; a
configuration is checked as a whole before a peer is made from it.
-/

namespace RegionSync

structure Config where
  /-- Owner of every player name that the peer publishes. -/
  hub : String := "/ndn/edu/ucla/remap/apps/Matryoshka"
  /-- Name under which discovery requests stand. -/
  broadcast : String := "/ndn/broadcast/apps/Matryoshka"
  /-- Levels of the octree. -/
  depth : Nat := 7
  /-- The world's edge is `2 ^ worldBits`. -/
  worldBits : UInt32 := 16
  /-- Discovery subscriptions stand this many levels above the leaves. -/
  levelsUp : Nat := 1
  /-- Milliseconds from one discovery sweep to the next. -/
  broadcastInterval : UInt64 := 3000
  /-- Milliseconds to wait for a discovery answer. -/
  broadcastTimeout : UInt64 := 300
  /-- One request asks for all tracked leaves of a parent. -/
  batchSiblings : Bool := false
  /-- Seconds that a discovery answer stays fresh. -/
  digestFreshness : UInt64 := 20
  /-- Milliseconds from one poll, and from one publication, to the next. -/
  positionInterval : UInt64 := 200
  /-- Milliseconds to wait for a position. -/
  positionTimeout : UInt64 := 800
  /-- Milliseconds that a position stays fresh. -/
  positionFreshness : UInt64 := 1000
  /-- Sequence numbers wrap here. -/
  windowSize : UInt32 := 1024
  /-- The largest distance of a number that is not produced yet. -/
  aheadThreshold : UInt32 := 3
  /-- The largest lag that history serves. -/
  behindThreshold : UInt32 := 20
  /-- How often a request for a number ahead is looked at again. -/
  aheadRetries : UInt32 := 1
  /-- Timeouts in a row that a player survives. -/
  dropThreshold : UInt32 := 20
  /-- Milliseconds to wait for a render tag. -/
  infoTimeout : UInt64 := 1000
  /-- How the local player is to be shown. -/
  renderTag : String := "default"
  deriving DecidableEq, Repr

inductive ConfigError
  | unreadable
  | unparsable
  /-- The settings do not go together. -/
  | invalid (reason : String)
  deriving DecidableEq, Repr

/-- The reason of a configuration error, where one is given. -/
def ConfigError.message? : ConfigError → Option String
  | unreadable => none
  | unparsable => none
  | invalid reason => some s!"invalid config: {reason}"

namespace Config

def geometry (c : Config) : Except ConfigError Geometry :=
  match Geometry.make c.depth c.worldBits with
  | .ok g => .ok g
  | .error e => .error (.invalid e.message)

def window (c : Config) : Window :=
  ⟨c.windowSize, c.aheadThreshold, c.behindThreshold⟩

def nameOf (text : String) : Except ConfigError Name :=
  match Name.parse text with
  | .ok n => .ok n
  | .error e => .error (.invalid e.message)

def hubName (c : Config) : Except ConfigError Name :=
  nameOf c.hub

def broadcastName (c : Config) : Except ConfigError Name :=
  nameOf c.broadcast

/-- Refuses with this reason where the condition holds. -/
def refuseIf (bad : Bool) (reason : String) : Except ConfigError Unit :=
  if bad then .error (.invalid reason) else .ok ()

/-- Refuses settings that the protocols cannot run with; the first fault is reported. -/
def validate (c : Config) : Except ConfigError Unit := do
  let _ ← c.geometry
  let _ ← c.hubName
  let _ ← c.broadcastName
  refuseIf (c.depth < c.levelsUp) "subscription_levels_up exceeds octree_depth"
  refuseIf (c.batchSiblings && c.levelsUp == 0)
    "batch_siblings needs subscriptions at least one level above the leaf"
  refuseIf (c.windowSize < 4) "sequence_window must be at least 4"
  refuseIf (c.aheadThreshold == 0 ||
      decide (c.windowSize.toNat ≤ c.aheadThreshold.toNat + c.behindThreshold.toNat))
    "ahead/behind thresholds must leave room in the sequence window"
  refuseIf (c.broadcastInterval == 0 || c.positionInterval == 0) "intervals must be positive"
  refuseIf (c.broadcastTimeout == 0 || c.positionTimeout == 0) "timeouts must be positive"
  refuseIf (c.renderTag.toList.any Text.isBlank) "render_tag may not contain whitespace"

/-- The names of the settings in documents, in order. -/
def settingNames : List String :=
  ["hub_prefix", "broadcast_prefix", "octree_depth", "world_bits", "subscription_levels_up",
    "broadcast_interval_ms", "broadcast_timeout_ms", "batch_siblings", "digest_freshness_secs",
    "position_interval_ms", "position_timeout_ms", "position_freshness_ms", "sequence_window",
    "ahead_threshold", "behind_threshold", "ahead_retries", "drop_threshold", "info_timeout_ms",
    "render_tag"]

/-- The configuration of a document, the settings it leaves out at their defaults. -/
def ofJson? (j : Json) : Option Config := do
  let values ← Json.record? settingNames j
  let base : Config := {}
  let text (i : Nat) (d : String) := Json.optional d Json.string? (values.getD i none)
  let size (i : Nat) (d : Nat) := Json.optional d (Json.nat? (2 ^ 64)) (values.getD i none)
  let word (i : Nat) (d : UInt32) := Json.optional d Json.uint32? (values.getD i none)
  let long (i : Nat) (d : UInt64) := Json.optional d Json.uint64? (values.getD i none)
  return {
    hub := ← text 0 base.hub
    broadcast := ← text 1 base.broadcast
    depth := ← size 2 base.depth
    worldBits := ← word 3 base.worldBits
    levelsUp := ← size 4 base.levelsUp
    broadcastInterval := ← long 5 base.broadcastInterval
    broadcastTimeout := ← long 6 base.broadcastTimeout
    batchSiblings := ← Json.optional base.batchSiblings Json.bool? (values.getD 7 none)
    digestFreshness := ← long 8 base.digestFreshness
    positionInterval := ← long 9 base.positionInterval
    positionTimeout := ← long 10 base.positionTimeout
    positionFreshness := ← long 11 base.positionFreshness
    windowSize := ← word 12 base.windowSize
    aheadThreshold := ← word 13 base.aheadThreshold
    behindThreshold := ← word 14 base.behindThreshold
    aheadRetries := ← word 15 base.aheadRetries
    dropThreshold := ← word 16 base.dropThreshold
    infoTimeout := ← long 17 base.infoTimeout
    renderTag := ← text 18 base.renderTag }

def toJson (c : Config) : Json :=
  .ofFields (settingNames.zip
    [.ofString c.hub, .ofString c.broadcast, .ofNat c.depth, .ofNat c.worldBits.toNat,
      .ofNat c.levelsUp, .ofNat c.broadcastInterval.toNat, .ofNat c.broadcastTimeout.toNat,
      .bool c.batchSiblings, .ofNat c.digestFreshness.toNat, .ofNat c.positionInterval.toNat,
      .ofNat c.positionTimeout.toNat, .ofNat c.positionFreshness.toNat, .ofNat c.windowSize.toNat,
      .ofNat c.aheadThreshold.toNat, .ofNat c.behindThreshold.toNat, .ofNat c.aheadRetries.toNat,
      .ofNat c.dropThreshold.toNat, .ofNat c.infoTimeout.toNat, .ofString c.renderTag])

/-- The configuration that a text writes, without a check of how the settings go together. -/
def ofText? (text : String) : Option Config := do
  ofJson? (← Json.read? text)

/-- The checked configuration that a text writes. -/
def parse (text : String) : Except ConfigError Config :=
  match ofText? text with
  | none => .error .unparsable
  | some c =>
    match c.validate with
    | .error e => .error e
    | .ok () => .ok c

/-- The checked configuration of a file, given its text unless the file cannot be read. -/
def load (contents : Option String) : Except ConfigError Config :=
  match contents with
  | none => .error .unreadable
  | some text => parse text

/-- Milliseconds that a discovery answer stays fresh. -/
def digestFreshnessMs (c : Config) : Nat :=
  c.digestFreshness.toNat * 1000

end Config

end RegionSync
