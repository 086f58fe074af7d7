import RegionSync.Discovery.Listing
import RegionSync.Fault
import RegionSync.Proofs.Message.Name
import RegionSync.Proofs.Text.Utf8
import RegionSync.Trust

/-!
What a signature covers. The bytes that are signed tell the two times, and the name and the content as
long as no name holds a zero; where one does, its text may begin with that of another name and a zero,
and the two answers are signed alike.
-/

namespace RegionSync

theorem LowFirst.eq_of_bytes_eq {a b : UInt64}
    (h : LowFirst.bytes 8 a.toNat = LowFirst.bytes 8 b.toNat) : a = b := by
  have hnumber := congrArg LowFirst.number h
  have ha : a.toNat < 256 ^ 8 := a.toNat_lt
  have hb : b.toNat < 256 ^ 8 := b.toNat_lt
  rw [LowFirst.number_bytes, LowFirst.number_bytes, Nat.mod_eq_of_lt ha, Nat.mod_eq_of_lt hb]
    at hnumber
  exact UInt64.toNat_inj.1 hnumber

namespace Scheme

variable {σ : Scheme} {secret content : Bytes} {name : Name}

/-- The signature verifies for no other message than this one. -/
def Binds (σ : Scheme) (key signature message : Bytes) : Prop :=
  ∀ other, σ.verify key signature other = .ok () → other = message

/-- Every seal binds. -/
theorem binds_sealing {freshness : Nat} {timestamp : UInt64} {r : Response}
    (hr : sealing.respond secret name content freshness timestamp = .ok r) :
    sealing.Binds r.key r.signature r.signed := by
  unfold respond at hr
  split at hr
  · cases hr
    intro other h
    simp only [sealing] at h
    split at h
    · next heq => exact (List.append_cancel_left heq).symm
    · cases h
  · cases hr

/-- An answer passes its check with a signature that was made for another one, if the two are signed
alike. -/
theorem check_altered (hsound : σ.Sound) {freshness : Nat} {timestamp : UInt64}
    {r altered : Response} (hr : σ.respond secret name content freshness timestamp = .ok r)
    (hsignature : altered.signature = r.signature) (hkey : altered.key = r.key)
    (hsigned : altered.signed = r.signed) : σ.check altered = .ok () := by
  rw [check, hkey, hsignature, hsigned]
  exact check_respond hsound hr

theorem Binds.signed_eq {r altered : Response} (hbinds : σ.Binds r.key r.signature r.signed)
    (hsignature : altered.signature = r.signature) (hkey : altered.key = r.key)
    (hcheck : σ.check altered = .ok ()) : altered.signed = r.signed := by
  rw [check, hkey, hsignature] at hcheck
  exact hbinds _ hcheck

theorem covered_of_respond {freshness : Nat} {timestamp : UInt64} {r : Response}
    (hr : σ.respond secret name content freshness timestamp = .ok r) :
    r.name = name ∧ r.content = content ∧ r.timestamp = timestamp := by
  unfold respond at hr
  split at hr
  · cases hr
    exact ⟨rfl, rfl, rfl⟩
  · cases hr

end Scheme

namespace Response

variable {n n' : Name} {c c' : Bytes} {freshness freshness' timestamp timestamp' : UInt64}

/-- The text of `n'` is that of `n`, a zero, and a text with which the content `c` begins; a zero and
`c'` follow there. -/
def Spills (n : Name) (c : Bytes) (n' : Name) (c' : Bytes) : Prop :=
  ∃ rest : List Char, n'.text.toList = n.text.toList ++ '\x00' :: rest ∧
    c = Text.encode rest ++ 0 :: c'

theorem Spills.covered_eq (h : Spills n c n' c') :
    Text.bytesOf n.text ++ 0 :: c = Text.bytesOf n'.text ++ 0 :: c' := by
  obtain ⟨rest, htext, rfl⟩ := h
  calc Text.bytesOf n.text ++ 0 :: (Text.encode rest ++ 0 :: c')
      = Text.encode n.text.toList ++ Text.encode ('\x00' :: rest) ++ 0 :: c' := by
        rw [Text.encode_cons, List.append_assoc]
        rfl
    _ = Text.bytesOf n'.text ++ 0 :: c' := by
        rw [← Text.encode_append, ← htext]
        rfl

/-- Where one name's text begins with that of another and the contents make up for the rest, the rest
is nothing, or it begins with a zero. -/
theorem eq_or_spills (h : n.Built) (h' : n'.Built) {gap : Bytes}
    (htext : Text.bytesOf n'.text = Text.bytesOf n.text ++ gap)
    (hcontent : 0 :: c = gap ++ 0 :: c') : n = n' ∧ c = c' ∨ Spills n c n' c' := by
  obtain ⟨rest, hrest, rfl⟩ := Text.exists_of_encode_eq_append htext
  cases rest with
  | nil =>
      rw [List.append_nil, String.toList_inj] at hrest
      exact Or.inl ⟨h.eq_of_text_eq h' hrest.symm, (List.cons.inj hcontent).2⟩
  | cons first rest =>
      obtain ⟨a, tail, hbytes, hnext⟩ := Text.decodeNext?_encode first (Text.encode rest ++ 0 :: c')
      rw [Text.encode_cons, List.append_assoc, hbytes] at hcontent
      obtain ⟨rfl, rfl⟩ := List.cons.inj hcontent
      have hzero : Text.decodeNext? 0 c = some ('\x00', c) := Text.decodeNext?_one '\x00' (by decide)
      rw [hzero, Option.some.injEq, Prod.mk.injEq] at hnext
      obtain ⟨rfl, rfl⟩ := hnext
      exact Or.inr ⟨rest, hrest, rfl⟩

/-- These names and contents are covered alike. -/
def Alike (n : Name) (c : Bytes) (n' : Name) (c' : Bytes) : Prop :=
  n = n' ∧ c = c' ∨ Spills n c n' c' ∨ Spills n' c' n c

theorem covered_eq_iff (h : n.Built) (h' : n'.Built) :
    Text.bytesOf n.text ++ 0 :: c = Text.bytesOf n'.text ++ 0 :: c' ↔ Alike n c n' c' := by
  constructor
  · intro heq
    rcases List.append_eq_append_iff.1 heq with ⟨gap, htext, hcontent⟩ | ⟨gap, htext, hcontent⟩
    · exact (eq_or_spills h h' htext hcontent).imp_right Or.inl
    · rcases eq_or_spills h' h htext hcontent with ⟨hname, hsame⟩ | hspills
      · exact Or.inl ⟨hname.symm, hsame.symm⟩
      · exact Or.inr (Or.inr hspills)
  · rintro (⟨rfl, rfl⟩ | hspills | hspills)
    · rfl
    · exact hspills.covered_eq
    · exact hspills.covered_eq.symm

/-- The times stand in the last sixteen bytes, whatever is before them. -/
theorem signable_eq_iff : signable n c freshness timestamp = signable n' c' freshness' timestamp' ↔
    Text.bytesOf n.text ++ 0 :: c = Text.bytesOf n'.text ++ 0 :: c' ∧
      freshness = freshness' ∧ timestamp = timestamp' := by
  constructor
  · intro heq
    obtain ⟨hrest, htimestamp⟩ := List.append_inj' heq (by simp)
    obtain ⟨hcovered, hfreshness⟩ := List.append_inj' hrest (by simp)
    exact ⟨hcovered, LowFirst.eq_of_bytes_eq hfreshness, LowFirst.eq_of_bytes_eq htimestamp⟩
  · rintro ⟨hcovered, rfl, rfl⟩
    simp only [signable, hcovered]

theorem not_spills_of_name (h : '\x00' ∉ n'.text.toList) : ¬ Spills n c n' c' := by
  rintro ⟨rest, htext, -⟩
  apply h
  rw [htext]
  exact List.mem_append_right _ List.mem_cons_self

theorem not_spills_of_content (h : 0 ∉ c) : ¬ Spills n c n' c' := by
  rintro ⟨rest, -, rfl⟩
  exact h (List.mem_append_right _ List.mem_cons_self)

/-- Where the names or the contents are free of zeros, only what is the same is covered alike. -/
theorem Alike.eq (h : Alike n c n' c')
    (hfree : '\x00' ∉ n.text.toList ∧ '\x00' ∉ n'.text.toList ∨ 0 ∉ c ∧ 0 ∉ c') :
    n = n' ∧ c = c' := by
  rcases h with heq | hspills
  · exact heq
  · have hno : ¬(Spills n c n' c' ∨ Spills n' c' n c) := by
      rw [not_or]
      rcases hfree with ⟨hn, hn'⟩ | ⟨hc, hc'⟩
      · exact ⟨not_spills_of_name hn', not_spills_of_name hn⟩
      · exact ⟨not_spills_of_content hc, not_spills_of_content hc'⟩
    exact absurd hspills hno

/-- Two answers under names that text builds are signed alike just when their times agree and either
all else does or one of them spills over into the other. So the bytes that are signed determine an
answer where the names or the contents are free of zeros. Elsewhere the signature that was made for one
answer passes the check of another, and, if this signature binds, it does so in no other way. -/
theorem signed_alike_iff (h : n.Built) (h' : n'.Built) (c c' : Bytes)
    (freshness freshness' timestamp timestamp' : UInt64) :
    (signable n c freshness timestamp = signable n' c' freshness' timestamp' ↔
      freshness = freshness' ∧ timestamp = timestamp' ∧ Alike n c n' c') ∧
    (('\x00' ∉ n.text.toList ∧ '\x00' ∉ n'.text.toList ∨ 0 ∉ c ∧ 0 ∉ c') →
      signable n c freshness timestamp = signable n' c' freshness' timestamp' →
        n = n' ∧ c = c' ∧ freshness = freshness' ∧ timestamp = timestamp') ∧
    ∀ (σ : Scheme) (secret : Bytes) (lifetime : Nat) (r altered : Response),
      σ.respond secret n c lifetime timestamp = .ok r →
        altered = { r with name := n', content := c' } →
          (σ.Sound → Alike n c n' c' → σ.check altered = .ok ()) ∧
            (σ.Binds r.key r.signature r.signed → σ.check altered = .ok () → Alike n c n' c') := by
  have halike : ∀ freshness freshness' timestamp timestamp' : UInt64,
      signable n c freshness timestamp = signable n' c' freshness' timestamp' ↔
        freshness = freshness' ∧ timestamp = timestamp' ∧ Alike n c n' c' := by
    intro freshness freshness' timestamp timestamp'
    rw [signable_eq_iff, covered_eq_iff h h', and_comm, and_assoc]
  refine ⟨halike _ _ _ _, ?_, ?_⟩
  · intro hfree heq
    obtain ⟨hfreshness, htimestamp, hsame⟩ := (halike _ _ _ _).1 heq
    obtain ⟨hname, hcontent⟩ := hsame.eq hfree
    exact ⟨hname, hcontent, hfreshness, htimestamp⟩
  · intro σ secret lifetime r altered hr haltered
    obtain ⟨hname, hcontent, -⟩ := Scheme.covered_of_respond hr
    have hkey : altered.key = r.key := by rw [haltered]
    have hsignature : altered.signature = r.signature := by rw [haltered]
    have hsigned : altered.signed = r.signed ↔ Alike n c n' c' := by
      rw [eq_comm, signed, signed, hname, hcontent, haltered, halike]
      simp only [true_and]
    exact ⟨fun hsound hsame => Scheme.check_altered hsound hr hsignature hkey (hsigned.2 hsame),
      fun hbinds hcheck => hsigned.1 (hbinds.signed_eq hsignature hkey hcheck)⟩

/-- A listing of one player passes as a listing of another one: the name takes up what the content
began with. -/
theorem signed_alike_iff_listing :
    let n : Name := ⟨["b"]⟩
    let n' : Name := ⟨["b\x00x"]⟩
    let c := Text.bytesOf "x\x00/h:m 0/0\n"
    let c' := Text.bytesOf "/h:m 0/0\n"
    n.Built ∧ n'.Built ∧ n ≠ n' ∧ c ≠ c' ∧
      signable n c 1000 0 = signable n' c' 1000 0 ∧
      Listing.ofBody c = .ok [⟨⟨[0, 0]⟩, [⟨"x\x00/h", "m"⟩]⟩] ∧
      Listing.ofBody c' = .ok [⟨⟨[0, 0]⟩, [⟨"/h", "m"⟩]⟩] ∧
      Scheme.sealing.Sound ∧
      ∃ r, Scheme.sealing.respond [7] n c 1000 0 = .ok r ∧
        Scheme.sealing.Binds r.key r.signature r.signed ∧
        Scheme.sealing.check { r with name := n', content := c' } = .ok () := by
  intro n n' c c'
  have h : n.Built := .parse (ok_of_toOption (x := Name.parse "/b") (by decide +kernel))
  have h' : n'.Built := .parse (ok_of_toOption (x := Name.parse "/b\x00x") (by decide +kernel))
  have halike : Alike n c n' c' := .inr (.inl ⟨['x'], by decide +kernel, by decide +kernel⟩)
  obtain ⟨hsigned, -, hcheck⟩ := signed_alike_iff h h' c c' 1000 1000 0 0
  have hc : Listing.ofBody (Text.bytesOf "x\x00/h:m 0/0\n") =
      .ok [⟨⟨[0, 0]⟩, [⟨"x\x00/h", "m"⟩]⟩] := ok_of_toOption (by decide +kernel)
  have hc' : Listing.ofBody (Text.bytesOf "/h:m 0/0\n") = .ok [⟨⟨[0, 0]⟩, [⟨"/h", "m"⟩]⟩] :=
    ok_of_toOption (by decide +kernel)
  obtain ⟨r, hr⟩ : ∃ r, Scheme.sealing.respond [7] n c 1000 0 = .ok r := ⟨_, if_pos (by omega)⟩
  exact ⟨h, h', by decide +kernel, by decide +kernel, hsigned.2 ⟨rfl, rfl, halike⟩, hc, hc',
    Scheme.sound_sealing, r, hr, Scheme.binds_sealing hr,
    (hcheck _ _ _ r _ hr rfl).1 Scheme.sound_sealing halike⟩

end Response

end RegionSync
