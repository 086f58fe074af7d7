/-!
Powers of whole numbers are those of the core library, also where a larger one is imported that
brings its own.
-/

namespace RegionSync

@[default_instance 20000]
instance (priority := 20000) natPow : Pow Nat Nat := instPowNat

end RegionSync
