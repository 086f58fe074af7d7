import RegionSync.Message
import RegionSync.Network.Conditions

/-!
The hub of a simulated network. Nodes register names with a responder; a request is offered to every
other node that registered a name it starts with, each message subject to the network's conditions.
-/

namespace RegionSync.Network

/-- A registered name and who answers under it. -/
structure Route (ρ : Type) where
  node : NodeId
  id : RegistrationId
  name : Name
  responder : ρ

/-- Counts of what passed through a hub. -/
structure Traffic where
  /-- Requests made. -/
  requests : Nat
  /-- Messages lost on the way. -/
  dropped : Nat
  /-- Requests answered in time. -/
  answered : Nat
  deriving DecidableEq, Repr

/-- A hub with its registrations in order. -/
structure Hub (ρ : Type) where
  routes : List (Route ρ)
  next : UInt64
  conditions : Conditions
  traffic : Traffic

namespace Hub

variable {ρ : Type}

/-- A hub without registrations; they are numbered from one. -/
def empty (conditions : Conditions) : Hub ρ :=
  ⟨[], 1, conditions, ⟨0, 0, 0⟩⟩

def register (h : Hub ρ) (node : NodeId) (name : Name) (responder : ρ) : RegistrationId × Hub ρ :=
  (⟨h.next⟩, { h with
    routes := h.routes ++ [⟨node, ⟨h.next⟩, name, responder⟩]
    next := h.next + 1 })

/-- The registration is this node's own. -/
def owns (node : NodeId) (id : RegistrationId) (r : Route ρ) : Bool :=
  r.id == id && r.node == node

/-- Takes back a registration; only its owner can. -/
def unregister (h : Hub ρ) (node : NodeId) (id : RegistrationId) :
    Except TransportError (Hub ρ) :=
  if h.routes.any (owns node id) then
    .ok { h with routes := h.routes.filter fun r => !owns node id r }
  else .error (.unknownRegistration id.number)

/-- The names that a node has registered. -/
def namesOf (h : Hub ρ) (node : NodeId) : List Name :=
  (h.routes.filter (·.node == node)).map (·.name)

/-- The routes that a request of a node is offered to. -/
def offers (h : Hub ρ) (asker : NodeId) (name : Name) : List (Route ρ) :=
  h.routes.filter fun r => r.node != asker && r.name.covers name

theorem mem_offers {h : Hub ρ} {asker : NodeId} {name : Name} {r : Route ρ} :
    r ∈ h.offers asker name ↔ r ∈ h.routes ∧ r.node ≠ asker ∧ r.name.covers name := by
  simp [offers]

/-- Sends a message over a link: its latency, or nothing if it is lost. -/
def hop (h : Hub ρ) (link : Link) : Except Fault (Option Nat × Hub ρ) := do
  let (delivered, conditions) ← h.conditions.delivers link
  if delivered then return (some (conditions.latency link), { h with conditions })
  else return (none, { h with
    conditions
    traffic := { h.traffic with dropped := h.traffic.dropped + 1 } })

def countRequest (h : Hub ρ) : Hub ρ :=
  { h with traffic := { h.traffic with requests := h.traffic.requests + 1 } }

def countAnswer (h : Hub ρ) : Hub ρ :=
  { h with traffic := { h.traffic with answered := h.traffic.answered + 1 } }

end Hub

end RegionSync.Network
