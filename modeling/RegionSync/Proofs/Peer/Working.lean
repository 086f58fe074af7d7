import RegionSync.Proofs.Message.Name
import RegionSync.Proofs.Peer.Answering
import RegionSync.Proofs.Peer.Making

/-!
Peers of checked configurations at work. The check reads the hub's prefix as a name only, although it
becomes the owner of the peer's player as well; and it sets no bound on how long discovery answers
stay fresh, although they say so in milliseconds as a word. So peers are made for just the prefixes that
can own a player, and answer discovery and requests for their render tag just within such a bound.
-/

namespace RegionSync

namespace Config

variable {config : Config}

theorem hasBlank_hub_of_validate (h : config.validate = .ok ()) :
    Name.hasBlank config.hub = false := by
  unfold validate at h
  obtain ⟨_, -, h⟩ := ok_of_bind h
  obtain ⟨hub, hhub, -⟩ := ok_of_bind h
  unfold hubName nameOf at hhub
  split at hhub
  · next hparse => exact (Name.parse_eq_ok hparse).1
  · cases hhub

theorem geometry_eq_ok_iff {g : Geometry} :
    config.geometry = .ok g ↔ Geometry.make config.depth config.worldBits = .ok g := by
  unfold geometry
  cases Geometry.make config.depth config.worldBits with
  | error reason => simp
  | ok made => simp

end Config

/-- The text can be the id of a player: it is not empty and has no colon, slash or blank. -/
def EntityName.IsId (id : String) : Prop :=
  id.toList ≠ [] ∧ ∀ c ∈ id.toList, c ≠ ':' ∧ c ≠ '/' ∧ Text.isBlank c = false

instance (id : String) : Decidable (EntityName.IsId id) :=
  @instDecidableAnd _ _ inferInstance (List.decidableBAll _ _)

/-- A hub's prefix that is a name can own a player unless it is empty or has a colon. -/
theorem EntityName.isValid_iff {owner id : String} (howner : Name.hasBlank owner = false)
    (hid : IsId id) : isValid owner id = true ↔ owner.toList ≠ [] ∧ ':' ∉ owner.toList := by
  have hpart : isPart id = true := by
    rw [isPart, Bool.and_eq_true, Bool.not_eq_true', List.isEmpty_eq_false_iff, List.all_eq_true]
    refine ⟨hid.1, fun c hc => ?_⟩
    obtain ⟨hcolon, -, hblank⟩ := hid.2 c hc
    simp [hcolon, hblank]
  have hslash : id.toList.contains '/' = false := by
    rw [Bool.eq_false_iff, ne_eq, List.contains_iff_mem]
    exact fun hmem => (hid.2 '/' hmem).2.1 rfl
  have hblank : ∀ c ∈ owner.toList, Text.isBlank c = false :=
    fun c hc => Bool.eq_false_iff.2 (List.any_eq_false.1 howner c hc)
  rw [isValid, hpart, hslash, Bool.and_true, Bool.not_false, Bool.and_true, isPart,
    Bool.and_eq_true, Bool.not_eq_true', List.isEmpty_eq_false_iff, List.all_eq_true]
  refine and_congr_right fun _ => ⟨fun hall hcolon => ?_, fun hcolon c hc => ?_⟩
  · simpa using hall ':' hcolon
  · rw [hblank c hc, Bool.not_false, Bool.and_true, bne_iff_ne]
    rintro rfl
    exact hcolon hc

namespace Peer

variable {σ : Scheme} {config : Config} {id : String} {position : Point} {secret : Bytes}
  {g : Geometry} {leaf : RegionPath} {name : Name}

/-- An answer under this name with this content that can be trusted, and no report. -/
def Answers (σ : Scheme) (name : Name) (content : Bytes)
    (outcome : Option Response × List Event) : Prop :=
  ∃ response, outcome = (some response, []) ∧ response.name = name ∧ response.content = content ∧
    σ.check response = .ok ()

/-- No answer, but the report that it could not be signed. -/
def Unsigned (name : Name) (outcome : Option Response × List Event) : Prop :=
  let error : TrustError := .signingFailed "freshness out of range"
  outcome = (none, [.log .error s!"signing {name} failed: {error.message}"])

/-- What a peer of the configuration answers for: positions always, what it knows about regions and
its render tag if the freshness of these answers is a word. -/
structure Works (σ : Scheme) (config : Config) (peer : Peer) : Prop where
  position : ∀ s payload timestamp, Answers σ (peer.self.name.numbered s) payload.bytes
    (peer.signPosition σ s payload timestamp)
  discovery : ∀ name q timestamp, Query.ofName peer.broadcast name = .ok q →
    (∃ c ∈ q.claims, peer.isTracked c.1 = true ∧ peer.octree.digest? c.1 ≠ some c.2) →
      (config.digestFreshnessMs < 2 ^ 64 → Answers σ name
        (Listing.body (Discovery.answer peer.octree q)) (peer.answerDiscovery σ name timestamp)) ∧
      (2 ^ 64 ≤ config.digestFreshnessMs → Unsigned name (peer.answerDiscovery σ name timestamp))
  tag : ∀ name timestamp,
    (config.digestFreshnessMs < 2 ^ 64 →
      Answers σ name (Text.bytesOf config.renderTag) (peer.signTag σ name timestamp)) ∧
    (2 ^ 64 ≤ config.digestFreshnessMs → Unsigned name (peer.signTag σ name timestamp))

/-! Making the peer. -/

theorem exists_make_of_leafAt (hvalid : config.validate = .ok ())
    (hgeometry : config.geometry = .ok g) (hname : EntityName.isValid config.hub id = true)
    (hleaf : g.leafAt position = .ok (.ok leaf)) (hdepth : leaf.digits.length = g.depth)
    (secret : Bytes) : ∃ start, make config id position secret = .ok (.ok start) := by
  obtain ⟨broadcast, hbroadcast⟩ := Config.broadcastName_of_validate hvalid
  have hadd : (Octree.empty g).addName leaf ⟨config.hub, id⟩ = .ok _ :=
    Octree.addName_eq_ok_iff.2 ⟨Octree.isLeaf_iff.2 hdepth, rfl⟩
  unfold make
  rw [hvalid, hgeometry, hbroadcast, EntityName.make, EntityName.make?, if_pos hname]
  simp only [Except.mapError, bind, Except.bind, pure, Except.pure, hleaf, hadd]
  exact ⟨_, rfl⟩

/-! What the peer signs. -/

theorem answers_signed (hσ : σ.Sound) (peer : Peer) (name : Name) (content : Bytes)
    {freshness : Nat} (h : freshness < 2 ^ 64) (timestamp : UInt64) :
    Answers σ name content (peer.signed σ name content freshness timestamp) := by
  obtain ⟨response, hsigned, hrespond, hname, hcontent⟩ :=
    exists_signed (σ := σ) peer name content h timestamp
  exact ⟨response, hsigned, hname, hcontent, Scheme.check_respond hσ hrespond⟩

theorem unsigned_signed (peer : Peer) (name : Name) (content : Bytes) {freshness : Nat}
    (h : 2 ^ 64 ≤ freshness) (timestamp : UInt64) :
    Unsigned name (peer.signed σ name content freshness timestamp) := by
  rw [Unsigned, signed, Scheme.respond, if_neg (Nat.not_lt.2 h)]

theorem answerDiscovery_of_differs (peer : Peer) {q : Query}
    (hquery : Query.ofName peer.broadcast name = .ok q)
    (hdiffers : ∃ c ∈ q.claims, peer.isTracked c.1 = true ∧ peer.octree.digest? c.1 ≠ some c.2)
    (timestamp : UInt64) : peer.answerDiscovery σ name timestamp = peer.signed σ name
      (Listing.body (Discovery.answer peer.octree q)) peer.config.digestFreshnessMs timestamp := by
  have hanswer := List.isEmpty_eq_false_iff.2 (Discovery.answer_ne_nil_iff.2 hdiffers)
  rw [answerDiscovery, hquery]
  simp only [hanswer, Bool.false_eq_true, if_false]

theorem works (hσ : σ.Sound) (peer : Peer) (htag : peer.self.renderTag = peer.config.renderTag) :
    Works σ peer.config peer where
  position s payload timestamp :=
    answers_signed hσ peer _ payload.bytes peer.config.positionFreshness.toNat_lt timestamp
  discovery name q timestamp hquery hdiffers := by
    rw [answerDiscovery_of_differs peer hquery hdiffers]
    exact ⟨fun h => answers_signed hσ peer name _ h timestamp,
      fun h => unsigned_signed peer name _ h timestamp⟩
  tag name timestamp := by
    rw [signTag, htag]
    exact ⟨fun h => answers_signed hσ peer name _ h timestamp,
      fun h => unsigned_signed peer name _ h timestamp⟩

/-- A checked configuration of at most 24 levels gives a peer for every id and every position of the
world exactly if the hub's prefix can own a player; otherwise the peer cannot be made for its name.
In all of its states the peer signs positions; it answers discovery where it knows better, and
requests for its render tag, exactly if the freshness of these answers is a word of milliseconds,
and otherwise only reports that it could not sign. -/
theorem make_works (hσ : σ.Sound) (hvalid : config.validate = .ok ()) (hdepth : config.depth ≤ 24)
    (hid : EntityName.IsId id) (hgeometry : config.geometry = .ok g)
    (hposition : g.inWorld position = true) (secret : Bytes) :
    (config.hub.toList ≠ [] ∧ ':' ∉ config.hub.toList →
      ∃ start, make config id position secret = .ok (.ok start)) ∧
    (¬ (config.hub.toList ≠ [] ∧ ':' ∉ config.hub.toList) →
      make config id position secret =
        .ok (.error (.wire (.invalidEntityName (config.hub ++ ":" ++ id))))) ∧
    ∀ start operations, make config id position secret = .ok (.ok start) →
      Works σ config (start.run σ operations) := by
  have hname := EntityName.isValid_iff (Config.hasBlank_hub_of_validate hvalid) hid
  refine ⟨fun hhub => ?_, fun hhub => ?_, fun start operations hmake => ?_⟩
  · have hmade := Config.geometry_eq_ok_iff.1 hgeometry
    have hlevels : g.depth < 2 ^ 32 := by
      obtain ⟨rfl, -⟩ := Geometry.make_eq_ok_iff.1 hmade
      exact Nat.lt_of_le_of_lt hdepth (by decide)
    have hexact := (Geometry.accepted_of_make hmade).exact_iff.2 hlevels
    exact exists_make_of_leafAt hvalid hgeometry (hname.2 hhub) (hexact.leafAt_eq hposition)
      (by simp [Geometry.leaf]) secret
  · exact make_misnamed hvalid hgeometry (mt hname.1 hhub) position secret
  · obtain ⟨-, -, -, -, -, -, hstart⟩ := make_eq_ok hmake
    have hidentity := identity_run (σ := σ) start operations
    have hconfig : (start.run σ operations).config = config :=
      (congrArg Identity.config hidentity).trans (by rw [hstart]; rfl)
    have htag : (start.run σ operations).self.renderTag = config.renderTag :=
      (congrArg Identity.renderTag hidentity).trans (by rw [hstart]; rfl)
    have hworks := works hσ (start.run σ operations) (hconfig ▸ htag)
    rwa [hconfig] at hworks

/-- Of three configurations that pass the check one gives a peer that answers discovery, one gives
none, and one gives a peer that answers no request for its render tag. -/
theorem make_works_alice :
    let usual : Config := { hub := "/hub", depth := 2, worldBits := 2 }
    let colon : Config := { usual with hub := "/hub:b" }
    let lasting : Config := { usual with digestFreshness := 0xFFFFFFFFFFFFFFFF }
    let origin : Point := ⟨.zero, .zero, .zero⟩
    usual.validate = .ok () ∧ colon.validate = .ok () ∧ lasting.validate = .ok () ∧
      (∃ start name content, make usual "alice" origin [] = .ok (.ok start) ∧
        Answers .sealing name content
          ((start.run .sealing [.track ⟨[0, 0]⟩]).answerDiscovery .sealing name 0)) ∧
      make colon "alice" origin [] =
        .ok (.error (.wire (.invalidEntityName "/hub:b:alice"))) ∧
      ∃ start, make lasting "alice" origin [] = .ok (.ok start) ∧
        ∀ name, Unsigned name (start.signTag .sealing name 0) := by
  intro usual colon lasting origin
  have hvalid : usual.validate = .ok () := ok_of_toOption (by decide +kernel)
  have hvalid' : colon.validate = .ok () := ok_of_toOption (by decide +kernel)
  have hvalid'' : lasting.validate = .ok () := ok_of_toOption (by decide +kernel)
  have hgeometry : usual.geometry = .ok ⟨2, 2⟩ := ok_of_toOption (by decide +kernel)
  have hid : EntityName.IsId "alice" := by decide +kernel
  have horigin : Geometry.inWorld ⟨2, 2⟩ origin = true := by decide +kernel
  have hsound := Scheme.sound_sealing
  refine ⟨hvalid, hvalid', hvalid'', ?_, ?_, ?_⟩
  · have hmade : (made? usual "alice" origin []).any (fun start =>
        let peer := start.run .sealing [.track ⟨[0, 0]⟩]
        decide (peer.isTracked ⟨[0, 0]⟩ = true ∧ peer.octree.digest? ⟨[0, 0]⟩ ≠ some 0)) = true := by
      decide +kernel
    obtain ⟨start, hstart, hdiffers⟩ := exists_make hmade
    obtain ⟨-, -, hworks⟩ := make_works hsound hvalid (by decide) hid hgeometry horigin []
    have hdiscovery := (hworks start [.track ⟨[0, 0]⟩] hstart).discovery _ _ 0
      (Query.ofName_name (q := ⟨⟨[0, 0]⟩, .whole 0⟩) trivial)
      ⟨(⟨[0, 0]⟩, 0), List.mem_singleton_self _, of_decide_eq_true hdiffers⟩
    exact ⟨start, _, _, hstart, hdiscovery.1 (by decide)⟩
  · obtain ⟨-, hmisnamed, -⟩ := make_works hsound hvalid' (by decide) hid hgeometry horigin []
    exact hmisnamed (by decide)
  · obtain ⟨hmake, -, hworks⟩ := make_works hsound hvalid'' (by decide) hid hgeometry horigin []
    obtain ⟨start, hstart⟩ := hmake (by decide)
    exact ⟨start, hstart, fun name => ((hworks start [] hstart).tag name 0).2 (by decide)⟩

end Peer

end RegionSync
