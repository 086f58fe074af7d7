import RegionSync.Node
import RegionSync.Random.Generator

/-!
What a simulation derives from its seed. Movement, message loss and every peer's key have sources of
their own, so that a draw from one does not disturb the others.
-/

namespace RegionSync.Simulation

def movementSeed (seed : UInt64) : UInt64 :=
  seed * 0x9e3779b97f4a7c15

def lossSeed (seed : UInt64) : UInt64 :=
  seed * NodeId.spreader

def secretOf (seed number : UInt64) : Bytes :=
  ((Random.Generator.ofSeed (seed * NodeId.spreader ^^^ number)).bytes 8).1

/-- A secret has the length that signing asks for. -/
theorem length_secretOf (seed number : UInt64) : (secretOf seed number).length = 32 :=
  Random.Generator.length_bytes ..

end RegionSync.Simulation
