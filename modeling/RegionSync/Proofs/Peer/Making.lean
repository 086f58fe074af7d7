import RegionSync.Proofs.Peer.Run
import RegionSync.Proofs.Region.Words

/-!
Peers that cannot be made. A checked configuration whose depth is a word gives a peer or a reason
why there is none; one with a depth of 2^32 and more passes the check if its low 32 bits do, and then
no player of the world has a leaf.
-/

namespace RegionSync

theorem Config.broadcastName_of_validate {config : Config} (h : config.validate = .ok ()) :
    ∃ broadcast, config.broadcastName = .ok broadcast := by
  unfold Config.validate at h
  obtain ⟨_, -, h⟩ := ok_of_bind h
  obtain ⟨_, -, h⟩ := ok_of_bind h
  obtain ⟨broadcast, hbroadcast, -⟩ := ok_of_bind h
  exact ⟨broadcast, hbroadcast⟩

namespace Peer

variable {config : Config} {id : String} {position : Point} {secret : Bytes} {g : Geometry}
  {fault : Fault}

theorem make_misnamed (hvalid : config.validate = .ok ()) (hgeometry : config.geometry = .ok g)
    (hname : ¬ EntityName.isValid config.hub id = true) (position : Point) (secret : Bytes) :
    make config id position secret =
      .ok (.error (.wire (.invalidEntityName (config.hub ++ ":" ++ id)))) := by
  obtain ⟨broadcast, hbroadcast⟩ := Config.broadcastName_of_validate hvalid
  unfold make
  rw [hvalid, hgeometry, hbroadcast, EntityName.make, EntityName.make?, if_neg hname]
  rfl

/-- Making a peer fails only where the leaf of its player does. -/
theorem make_eq_error_iff (hvalid : config.validate = .ok ())
    (hgeometry : config.geometry = .ok g) :
    make config id position secret = .error fault ↔
      EntityName.isValid config.hub id = true ∧ g.leafAt position = .error fault := by
  by_cases hname : EntityName.isValid config.hub id = true
  · obtain ⟨broadcast, hbroadcast⟩ := Config.broadcastName_of_validate hvalid
    unfold make
    rw [hvalid, hgeometry, hbroadcast, EntityName.make, EntityName.make?, if_pos hname,
      and_iff_right hname]
    simp only [Except.mapError, bind, Except.bind, pure, Except.pure]
    cases g.leafAt position with
    | error fault' => simp
    | ok answer =>
        cases answer with
        | error reason => simp
        | ok region =>
            dsimp only
            split <;> simp
  · rw [make_misnamed hvalid hgeometry hname]
    simp [hname]

/-- An accepted geometry is what its words compute, fault for fault. It has at least one level, no
more levels than bits and at most 24 bits exactly if its depth is below 2^32, which is exactly when
nothing fails whatever is asked. At a depth of 2^32 and more, of which only the low 32 bits were
compared, there is a fault for every point of the world and for every region below the last bit. So a
checked configuration makes a peer fail exactly if it has such a depth and nothing else is wrong. -/
theorem faultless_iff_depth {depth : Nat} {worldBits : UInt32}
    (h : Geometry.make depth worldBits = .ok g) :
    g.ByWords ∧
    (1 ≤ depth ∧ depth ≤ worldBits.toNat ∧ worldBits.toNat ≤ 24 ↔ depth < 2 ^ 32) ∧
    (g.Faultless ↔ depth < 2 ^ 32) ∧
    (2 ^ 32 ≤ depth → (∀ p, g.inWorld p = true → g.leafAt p = .error .overflow) ∧
      ∀ q : RegionPath, worldBits.toNat < q.depth → q.depth < 2 ^ 32 →
        g.cubeOf q = .error .overflow) ∧
    ∀ (config : Config) (id : String) (position : Point) (secret : Bytes) (fault : Fault),
      config.validate = .ok () → config.geometry = .ok g →
      (make config id position secret = .error fault ↔ fault = .overflow ∧ 2 ^ 32 ≤ depth ∧
        EntityName.isValid config.hub id = true ∧ g.inWorld position = true) := by
  have haccepted := Geometry.accepted_of_make h
  obtain rfl := (Geometry.make_eq_ok_iff.1 h).1
  have hfaults : 2 ^ 32 ≤ depth → ∀ p, Geometry.inWorld ⟨depth, worldBits⟩ p = true →
      Geometry.leafAt ⟨depth, worldBits⟩ p = .error .overflow :=
    fun hdepth _ hp => Geometry.leafAt_of_lt (Geometry.lt_depth_of_le hdepth) hp
  refine ⟨haccepted.byWords, ?_, haccepted.faultless_iff, fun hdepth => ⟨hfaults hdepth, ?_⟩, ?_⟩
  · rw [← show Geometry.Exact ⟨depth, worldBits⟩ ↔ _ from haccepted.exact_iff]
    exact ⟨fun ⟨hpos, hlevels, hbits⟩ => ⟨hpos, hlevels, hbits⟩, fun h => ⟨h.pos, h.levels, h.bits⟩⟩
  · exact fun q hdeep hword =>
      Geometry.cubeOf_of_lt hdeep (Nat.le_trans (Nat.le_of_lt hword) hdepth) hword
  · intro config id position secret fault hvalid hgeometry
    rw [make_eq_error_iff hvalid hgeometry]
    constructor
    · rintro ⟨hname, hleaf⟩
      have hdepth : 2 ^ 32 ≤ depth := by
        by_contra hword
        obtain ⟨answer, hanswer⟩ := (haccepted.faultless_iff.2 (Nat.not_le.1 hword)).leafAt position
        rw [hanswer] at hleaf
        cases hleaf
      have hp : Geometry.inWorld ⟨depth, worldBits⟩ position = true := by
        by_contra hout
        rw [Geometry.leafAt_outside hout] at hleaf
        cases hleaf
      rw [hfaults hdepth position hp] at hleaf
      exact ⟨(Except.error.inj hleaf).symm, hdepth, hname, hp⟩
    · rintro ⟨rfl, hdepth, hname, hp⟩
      exact ⟨hname, hfaults hdepth position hp⟩

/-- With 2^32 levels more than the usual seven, the configuration passes and the peer fails. -/
theorem faultless_iff_depth_wrapped :
    let config : Config := { depth := 2 ^ 32 + 7 }
    Geometry.make (2 ^ 32 + 7) 16 = .ok ⟨2 ^ 32 + 7, 16⟩ ∧ config.validate = .ok () ∧
      ¬ Geometry.Faultless ⟨2 ^ 32 + 7, 16⟩ ∧
      make config "alice" ⟨.zero, .zero, .zero⟩ [] = .error .overflow := by
  intro config
  have hmake : Geometry.make (2 ^ 32 + 7) 16 = .ok ⟨2 ^ 32 + 7, 16⟩ := by decide
  have hvalid : config.validate = .ok () := ok_of_toOption (by decide +kernel)
  have hgeometry : config.geometry = .ok ⟨2 ^ 32 + 7, 16⟩ := by decide
  obtain ⟨-, -, hfaultless, -, hpeers⟩ := faultless_iff_depth hmake
  refine ⟨hmake, hvalid, fun h => absurd (hfaultless.1 h) (by decide), ?_⟩
  exact (hpeers config "alice" _ [] .overflow hvalid hgeometry).2
    ⟨rfl, by decide, by decide, by decide +kernel⟩

end Peer

end RegionSync
