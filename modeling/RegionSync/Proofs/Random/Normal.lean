import RegionSync.Proofs.Binary.Magnitude
import RegionSync.Proofs.Binary.Order
import RegionSync.Proofs.Random.Rejection

/-!
How large samples can be. A sample comes from the width of a layer or from the logarithm of a number
above zero, and both are bounded, so every seed gives numbers only.
-/

namespace RegionSync

open Binary

namespace Random

variable {g : Generator} {n i : Nat}

theorem atMost_entry (h : n ≤ 4 * 10 ^ 18) : (entry n).AtMost 2 :=
  atMost_ofRatio (by decide) (by decide) h

theorem atLeast_tailStart : (entry tailStart).AtLeast Width.double.places := by
  refine atLeast_ofRatio (m := 2) (by decide) (by decide) (by decide) ?_
  rw [Nat.mul_comm, Width.one]
  exact Nat.mul_le_mul_right _ (by decide)

theorem atMost_edge (i : Nat) : (edge i).AtMost 2 := by
  have hall : layerEdges.toList.all (· ≤ 4 * 10 ^ 18) = true := by decide +kernel
  unfold edge edges
  rw [Array.getD_eq_getD_getElem?, Array.getElem?_map]
  cases hi : layerEdges[i]? with
  | none =>
      rw [Option.map_none, Option.getD_none]
      exact atMost_zero 2
  | some e =>
      rw [Option.map_some, Option.getD_some]
      have hmem : e ∈ layerEdges.toList := Array.mem_toList_iff.2 (Array.mem_of_getElem? hi)
      exact atMost_entry (of_decide_eq_true (List.all_eq_true.1 hall e hmem))

theorem shiftRight_lt (word : UInt64) : (word >>> 12).toNat < 2 ^ 52 := by
  have := word.toNat_lt
  rw [UInt64.toNat_shiftRight, Nat.shiftRight_eq_div_pow]
  simp
  omega

theorem atMost_acrossLayer (bits : UInt64) : (acrossLayer bits).AtMost 0 := by
  have hbits := shiftRight_lt bits
  unfold acrossLayer
  dsimp only
  split
  · exact atMost_ofRatio (by decide) (by decide) (by omega)
  · exact atMost_ofRatio (by decide) (by decide) (by omega)

theorem atLeast_openFraction (g : Generator) : g.openFraction.1.AtLeast 0 := by
  have hword := shiftRight_lt g.long.1
  have hone : 2 ^ 53 ≤ Width.double.one := Nat.pow_le_pow_right (by decide) (by decide)
  unfold Generator.openFraction
  dsimp only
  refine atLeast_ofRatio (m := 0) (by decide) (by decide) (by omega) ?_
  calc 2 ^ 0 * 2 ^ 53 = 1 * 2 ^ 53 := rfl
    _ ≤ (2 * (g.long.1 >>> 12).toNat + 1) * Width.double.one := Nat.mul_le_mul (by omega) hone

theorem atMost_tailOnce {negative : Bool} {r : Double × Generator} (h : tailOnce negative g = .ok r) :
    r.1.AtMost 23 := by
  -- a logarithm is at most `2 ^ 22`, and so is its quotient by a number above one
  have hroom : Width.double.places + (22 + 1) < Width.double.span := by decide
  have hstart : (entry tailStart).AtMost 22 :=
    (atMost_entry (n := tailStart) (by decide)).mono (by decide)
  have hx : (g.openFraction.1.log.div (entry tailStart)).AtMost 22 :=
    (atLeast_openFraction g).log.div atLeast_tailStart (by decide)
  have hleft := hx.sub hstart hroom
  have hright := hstart.sub hx hroom
  unfold tailOnce at h
  dsimp only at h
  split at h
  · cases h
  · split at h
    · obtain rfl := Except.ok.inj h
      dsimp only
      exact hleft
    · obtain rfl := Except.ok.inj h
      dsimp only
      exact hright

theorem atMost_tail {negative : Bool} {r : Double × Generator} (h : tail? negative g = some r) :
    r.1.AtMost 23 := by
  obtain ⟨g', -, hdrawn⟩ := exists_of_persist (P := fun _ => True) (fun _ _ => trivial) trivial h
  exact atMost_tailOnce hdrawn

theorem atMost_layerOnce {r : Double × Generator} (h : layerOnce g = .ok (some r)) :
    r.1.AtMost 23 := by
  have hx := ((atMost_acrossLayer g.long.1).mul
    (atMost_edge (g.long.1 &&& 0xff).toNat) (by decide)).mono (n := 23) (by decide)
  unfold layerOnce at h
  dsimp only at h
  split at h
  · obtain rfl := Option.some.inj (Except.ok.inj h)
    exact hx
  · split at h
    · exact atMost_tail (Except.ok.inj h)
    · split at h
      · obtain rfl := Option.some.inj (Except.ok.inj h)
        exact hx
      · cases h

theorem atMost_standardNormal {r : Double × Generator} (h : standardNormal? g = some r) :
    r.1.AtMost 23 := by
  rw [standardNormal?, Option.join_eq_some_iff] at h
  obtain ⟨g', -, hdrawn⟩ := exists_of_persist (P := fun _ => True) (fun _ _ => trivial) trivial h
  exact atMost_layerOnce hdrawn

/-- A sample is a number, also where it is beyond the largest ones. -/
theorem normal_ne_nan {deviation : Single} (h : deviation.isFinite = true) (g : Generator) :
    (normal deviation g).1 ≠ .nan := by
  have hz : ((standardNormal? g).getD (.zero, g)).1.AtMost 23 := by
    cases hdrawn : standardNormal? g with
    | none => exact atMost_zero 23
    | some r => exact atMost_standardNormal hdrawn
  exact add_ne_nan rfl (mul_ne_nan h (hz.convert (by decide)).isFinite)

end Random

end RegionSync
