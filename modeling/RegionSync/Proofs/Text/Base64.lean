import RegionSync.Proofs.Text.Utf8
import RegionSync.Text.Base64

/-!
Base64 without padding. The form of a whole number of triples holds only symbols of the alphabet,
and decoding it gives the triples back.
-/

namespace RegionSync.Text.Base64

def byteOf (c : Char) : UInt8 :=
  UInt8.ofNat c.toNat

theorem value?_symbol {v : Nat} (h : v < 64) : value? (byteOf (symbol v)) = some v := by
  have hall : ∀ v : Fin 64, value? (byteOf (symbol v)) = some v.val := by decide
  exact hall ⟨v, h⟩

theorem byteOf_symbol_ne_pad {v : Nat} (h : v < 64) : byteOf (symbol v) ≠ pad := by
  have hall : ∀ v : Fin 64, byteOf (symbol v) ≠ pad := by decide
  exact hall ⟨v, h⟩

def IsSymbol (c : Char) : Prop :=
  ∃ v < 64, c = symbol v

theorem IsSymbol.encode {c : Char} (h : IsSymbol c) : String.utf8EncodeChar c = [byteOf c] := by
  obtain ⟨v, hv, rfl⟩ := h
  have hall : ∀ v : Fin 64, String.utf8EncodeChar (symbol v) = [byteOf (symbol v)] := by decide
  exact hall ⟨v, hv⟩

theorem IsSymbol.ne {c : Char} (h : IsSymbol c) : c ≠ '_' ∧ c ≠ '=' := by
  obtain ⟨v, hv, rfl⟩ := h
  have hall : ∀ v : Fin 64, symbol v ≠ '_' ∧ symbol v ≠ '=' := by decide
  exact hall ⟨v, hv⟩

/-- A whole number of triples is written in symbols alone. -/
theorem isSymbol_of_mem_encode {bytes : Bytes} (h : 3 ∣ bytes.length) :
    ∀ c ∈ encode bytes, IsSymbol c := by
  fun_induction encode bytes with
  | case1 a b c rest n ih =>
      have ha := a.toNat_lt
      have hb := b.toNat_lt
      have hc := c.toNat_lt
      have hrest : 3 ∣ rest.length := by
        simp only [List.length_cons] at h
        omega
      simp only [List.mem_cons]
      rintro d (rfl | rfl | rfl | rfl | hd)
      · exact ⟨_, by omega, rfl⟩
      · exact ⟨_, Nat.mod_lt _ (by decide), rfl⟩
      · exact ⟨_, Nat.mod_lt _ (by decide), rfl⟩
      · exact ⟨_, Nat.mod_lt _ (by decide), rfl⟩
      · exact ih hrest d hd
  | case2 => simp at h
  | case3 => simp at h
  | case4 => simp

theorem encode_of_isSymbol {cs : List Char} (h : ∀ c ∈ cs, IsSymbol c) :
    Text.encode cs = cs.map byteOf := by
  induction cs with
  | nil => rfl
  | cons c cs ih =>
      have hc := (h c List.mem_cons_self).encode
      rw [Text.encode_cons, hc, ih fun d hd => h d (List.mem_cons_of_mem _ hd)]
      rfl

theorem valueAt_symbol (offset : Nat) {v : Nat} (h : v < 64) :
    valueAt offset (byteOf (symbol v)) = .ok v := by
  rw [valueAt, value?_symbol h]

/-- The number that four values write. -/
def join (v w x y : Nat) : Nat :=
  ((v * 64 + w) * 64 + x) * 64 + y

/-- The three bytes that four values carry. -/
theorem bytes_of_join {a b c : UInt8} {n : Nat}
    (hn : n = (a.toNat * 256 + b.toNat) * 256 + c.toNat) :
    UInt8.ofNat (join (n / 262144) (n / 4096 % 64) (n / 64 % 64) (n % 64) / 65536) = a ∧
      UInt8.ofNat (join (n / 262144) (n / 4096 % 64) (n / 64 % 64) (n % 64) / 256 % 256) = b ∧
      UInt8.ofNat (join (n / 262144) (n / 4096 % 64) (n / 64 % 64) (n % 64) % 256) = c := by
  have ha := a.toNat_lt
  have hb := b.toNat_lt
  have hc := c.toNat_lt
  have hjoin : join (n / 262144) (n / 4096 % 64) (n / 64 % 64) (n % 64) = n := by
    unfold join
    omega
  have h1 : n / 65536 = a.toNat := by omega
  have h2 : n / 256 % 256 = b.toNat := by omega
  have h3 : n % 256 = c.toNat := by omega
  rw [hjoin, h1, h2, h3]
  simp

theorem length_encode_of_dvd {bytes : Bytes} (h : 3 ∣ bytes.length) :
    (encode bytes).length = bytes.length / 3 * 4 := by
  fun_induction encode bytes with
  | case1 a b c rest n ih =>
      have hrest : 3 ∣ rest.length := by
        simp only [List.length_cons] at h
        omega
      simp only [List.length_cons, ih hrest]
      omega
  | case2 => simp at h
  | case3 => simp at h
  | case4 => rfl

section

variable {v w x y : Nat} (hv : v < 64) (hw : w < 64) (hx : x < 64) (hy : y < 64) (start : Nat)

include hv hw hx hy

theorem decodeFrom_last : decodeFrom start [byteOf (symbol v), byteOf (symbol w),
      byteOf (symbol x), byteOf (symbol y)] =
    .ok [UInt8.ofNat (join v w x y / 65536), UInt8.ofNat (join v w x y / 256 % 256),
      UInt8.ofNat (join v w x y % 256)] := by
  simp [decodeFrom, decodeGroup, readGroup, join, byteOf_symbol_ne_pad hv,
    byteOf_symbol_ne_pad hw, byteOf_symbol_ne_pad hx, byteOf_symbol_ne_pad hy, valueAt_symbol _ hv,
    valueAt_symbol _ hw, valueAt_symbol _ hx, valueAt_symbol _ hy, bind, Except.bind, pure,
    Except.pure]

theorem decodeFrom_cons {e : UInt8} {rest bytes : Bytes}
    (h : decodeFrom (start + 4) (e :: rest) = .ok bytes) :
    decodeFrom start (byteOf (symbol v) :: byteOf (symbol w) :: byteOf (symbol x) ::
        byteOf (symbol y) :: e :: rest) =
      .ok (UInt8.ofNat (join v w x y / 65536) :: UInt8.ofNat (join v w x y / 256 % 256) ::
        UInt8.ofNat (join v w x y % 256) :: bytes) := by
  simp only [decodeFrom, valueAt_symbol _ hv, valueAt_symbol _ hw, valueAt_symbol _ hx,
    valueAt_symbol _ hy, h, bind, Except.bind, pure, Except.pure, join]

end

theorem decodeFrom_encode {bytes : Bytes} (h : 3 ∣ bytes.length) (hne : bytes ≠ [])
    (start : Nat) : decodeFrom start ((encode bytes).map byteOf) = .ok bytes := by
  fun_induction encode bytes generalizing start with
  | case1 a b c rest n ih =>
      have hn : n = (a.toNat * 256 + b.toNat) * 256 + c.toNat := rfl
      obtain ⟨hfirst, hsecond, hthird⟩ := bytes_of_join hn
      clear_value n
      have h1 : n / 262144 < 64 := by
        have ha := a.toNat_lt
        have hb := b.toNat_lt
        have hc := c.toNat_lt
        omega
      have h2 : n / 4096 % 64 < 64 := Nat.mod_lt _ (by decide)
      have h3 : n / 64 % 64 < 64 := Nat.mod_lt _ (by decide)
      have h4 : n % 64 < 64 := Nat.mod_lt _ (by decide)
      have hrest : 3 ∣ rest.length := by
        simp only [List.length_cons] at h
        omega
      cases hcode : encode rest with
      | nil =>
          have hnil : rest = [] := by
            have hlength := length_encode_of_dvd hrest
            rw [hcode, List.length_nil] at hlength
            exact List.length_eq_zero_iff.1 (by omega)
          rw [hnil, ← hfirst, ← hsecond, ← hthird]
          exact decodeFrom_last h1 h2 h3 h4 start
      | cons d tail =>
          have htail := ih hrest (by rintro rfl; cases hcode) (start + 4)
          rw [hcode, List.map_cons] at htail
          rw [← hfirst, ← hsecond, ← hthird]
          exact decodeFrom_cons h1 h2 h3 h4 start htail
  | case2 => simp at h
  | case3 => simp at h
  | case4 => simp at hne

/-- Decoding the Base64 form of a whole number of triples gives them back. -/
theorem decode_encode {bytes : Bytes} (h : 3 ∣ bytes.length) :
    decode (Text.encode (encode bytes)) = .ok bytes := by
  rw [encode_of_isSymbol (isSymbol_of_mem_encode h)]
  by_cases hne : bytes = []
  · subst hne
    rfl
  have hlength : ((encode bytes).map byteOf).length % 4 ≠ 1 := by
    rw [List.length_map, length_encode_of_dvd h]
    omega
  have hcode := decodeFrom_encode h hne 0
  unfold decode
  split
  · next hlast =>
      rw [List.getLast?_eq_none_iff] at hlast
      rw [hlast] at hcode
      rw [← hcode]
      rfl
  · next last hlast => rw [if_neg fun hbad => hlength hbad.1, hcode]

end RegionSync.Text.Base64
