import RegionSync.Message
import RegionSync.Position.History
import RegionSync.Position.Payload
import RegionSync.Position.Window

/-!
Polls of a player's position and the answers to them. A poll asks for the number after the last one
seen, or for whatever is current; the player answers from its history, asks to wait for a number it
has not produced yet, or resets a poller that is too far behind.
-/

namespace RegionSync

/-- What a request to a player asks for. -/
inductive Ask
  /-- The position of this number, or the current one. -/
  | position (sequence : Option UInt32)
  | renderTag
  deriving DecidableEq, Repr

/-- What a request under a player's name asks for. -/
def Ask.ofName (player name : Name) : Except WireError Ask :=
  let refused := .error (.unexpectedName name.text)
  match player.rest? name with
  | some ["position"] => .ok (.position none)
  | some ["position", sequence] =>
    match Text.readUInt32? sequence.toList with
    | some s => .ok (.position (some s))
    | none => refused
  | some ["info", "render"] => .ok .renderTag
  | _ => refused

/-- The number that the name of a position answer ends in. -/
def answerSequence (position name : Name) : Except WireError UInt32 :=
  match position.rest? name with
  | some [sequence] =>
    match Text.readUInt32? sequence.toList with
    | some s => .ok s
    | none => .error (.unexpectedName name.text)
  | _ => .error (.unexpectedName name.text)

/-- What a player does with a poll. -/
inductive Reply
  /-- Answer under this number. -/
  | answer (sequence : UInt32) (payload : Payload)
  /-- The number is not produced yet. -/
  | wait
  /-- There is nothing to say. -/
  | silent
  deriving DecidableEq

/-- The reply of a player whose current number is `current`. -/
def Reply.to (w : Window) (current : Option UInt32) (history : History)
    (requested : Option UInt32) : Except Fault Reply :=
  match current, requested with
  | none, _ => .ok .silent
  | some current, none =>
    match history.get? current with
    | some p => .ok (.answer current (.position p))
    | none => .ok .silent
  | some current, some requested => do
    match ← w.relate current requested with
    | .ahead => return .wait
    | .behind => return .answer requested (.reset current "behind")
    | .current =>
      match history.get? requested with
      | some p => return .answer requested (.position p)
      | none => return .answer requested (.reset current "missing")

end RegionSync
