import RegionSync.Command.Options
import RegionSync.Json.Basic
import RegionSync.World.Scenario

/-!
The command: it runs scenarios for seeds in a row and sums up what came of them. The exit code tells
whether all passed (0), one failed (1), the arguments are wrong (2) or a computation had no result.
-/

namespace RegionSync.Command

/-- What the command prints, and its exit code. -/
structure Printed where
  code : UInt8
  output : List String := []
  errors : List String := []

/-- Counts at the end of a trial as a document, names in order. -/
def metrics (v : Verdict) : Json :=
  .ofFields [("accurate_pairs", .ofNat v.visibility.accurate),
    ("answered", .ofNat v.traffic.answered), ("dropped", .ofNat v.traffic.dropped),
    ("drops_reported", .ofNat v.drops), ("expected_pairs", .ofNat v.visibility.expected),
    ("requests", .ofNat v.traffic.requests)]

/-- A floating-point number as a document; what is not finite has none. -/
def real (x : Double) : Json :=
  if x.isFinite then .number (x.text .report) else .null

/-- A verdict as a document, names in order. -/
def verdict (v : Verdict) : Json :=
  .ofFields [
    ("failure_reason", match v.failure with
      | none => .null
      | some f => .ofString f.message),
    ("metrics", metrics v), ("passed", .bool v.passed), ("peers", .ofNat v.trial.peers),
    ("scenario", .ofString v.trial.scenario.name), ("seed", .ofNat v.trial.seed.toNat),
    ("time_secs", real v.time)]

/-- The summary of verdicts as a document, names in order. -/
def summary (vs : List Verdict) : Json :=
  let passed := (vs.filter Verdict.passed).length
  .ofFields [("failed", .ofNat (vs.length - passed)), ("passed", .ofNat passed),
    ("results", .array (vs.map verdict)), ("total", .ofNat vs.length)]

def line (v : Verdict) : String :=
  let trial := s!"{v.trial.scenario.name} (seed={v.trial.seed})"
  match v.failure with
  | none => s!"{trial} PASSED"
  | some f => s!"{trial} FAILED: {f.message}"

def lines (vs : List Verdict) : List String :=
  let failed := (vs.filter fun v => !v.passed).length
  vs.map line ++ [
    if failed = 0 then s!"All {vs.length} scenario runs passed"
    else s!"{failed}/{vs.length} scenario runs failed"]

/-- The scenarios of a name, which may be that of all. -/
def scenarios? (name : String) : Option (List Scenario) :=
  if name = "all" then some Scenario.all else (Scenario.ofName? name).map fun s => [s]

/-- The names that can be given for a scenario. -/
def available : String :=
  ", ".intercalate (Scenario.all.map Scenario.name ++ ["all"])

/-- The trials that options ask for, seed by seed. -/
def trials (o : Options) (seed : UInt64) (scenarios : List Scenario) : List Trial :=
  (List.range o.seeds).flatMap fun n =>
    scenarios.map fun s => .make s (seed + .ofNat n) o.peers o.duration

/-- Runs trials and prints what came of them. -/
def report (timer : Timer) (o : Options) (ts : List Trial) : Except Fault Printed := do
  let vs ← ts.mapM (Trial.run timer)
  let code := if vs.all Verdict.passed then 0 else 1
  return if o.json then { code, output := [(summary vs).pretty] } else { code, errors := lines vs }

/-- Runs the command. A seed of zero stands for the clock. -/
def run (timer : Timer) (args : List String) (clock : UInt64) : Printed :=
  match Options.parse args with
  | .error .help => { code := 0, output := [helpText] }
  | .error (.usage message) => { code := 2, errors := [s!"error: {message}"] }
  | .ok o =>
    match scenarios? o.scenario with
    | none =>
      { code := 2
        errors := [s!"Error: {Scenario.unknownMessage o.scenario}",
          s!"Available scenarios: {available}"] }
    | some scenarios =>
      match report timer o (trials o (if o.seed = 0 then clock else o.seed) scenarios) with
      | .ok printed => printed
      | .error _ => { code := 101, errors := ["a computation has no result"] }

end RegionSync.Command
