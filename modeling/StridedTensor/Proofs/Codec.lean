import StridedTensor.Proofs.ScalarOperand

/-!
# Scalars as bytes

The bytes of a scalar are its pattern, least significant byte first, and they say everything about it. Of the bytes of
one element only those of a boolean can be written in more than one way (`ElementType.encode_decode`), so reading and
writing undo each other (`Scalar.ofBytes_eq_ok`), also by way of a tensor (`Workspace.scalars_as_bytes`).
-/

namespace StridedTensor

/-! ### Numbers and their bytes -/

namespace Bytes

private theorem toNat_lt_pow (bytes : List UInt8) : toNat bytes < 256 ^ bytes.length := by
  induction bytes with
  | nil => decide
  | cons b bs ih =>
    have hb := b.toNat_lt
    rw [toNat, List.length_cons, Nat.pow_succ]
    omega

private theorem ofNat_toNat (bytes : List UInt8) : ofNat bytes.length (toNat bytes) = bytes := by
  induction bytes with
  | nil => rfl
  | cons b bs ih =>
    have hb := b.toNat_lt
    have hhead : (b.toNat + 256 * toNat bs) % 256 = b.toNat := by omega
    have htail : (b.toNat + 256 * toNat bs) / 256 = toNat bs := by omega
    rw [List.length_cons, toNat, ofNat, hhead, htail, ih, UInt8.ofNat_toNat]

end Bytes

namespace ElementType

/-- The bytes that stand for the same element and are the ones written for it. -/
def normalize (t : ElementType) (bytes : List UInt8) : List UInt8 :=
  if t = .bool then bytes.map fun b => if b = 0 then 0 else 1 else bytes

theorem encode_decode {t : ElementType} {bytes : List UInt8} (h : bytes.length = t.size) :
    t.encode (t.decode bytes) = t.normalize bytes := by
  by_cases ht : t = .bool
  · subst ht
    obtain ⟨b, rfl⟩ := List.length_eq_one_iff.1 h
    by_cases hb : b = 0
    · subst hb
      rfl
    · have hnat : b.toNat ≠ 0 := fun h => hb (UInt8.toNat_inj.1 h)
      have hbit : (b.toNat != 0) = true := bne_iff_ne.2 hnat
      simp only [encode, decode, normalize, Bytes.toNat, Nat.mul_zero, Nat.add_zero, hbit, if_true, List.map_cons,
        if_neg hb]
      rfl
  · have hlt : Bytes.toNat bytes < 2 ^ t.width := by
      rw [two_pow_width ht, ← h]
      exact Bytes.toNat_lt_pow bytes
    rw [encode, decode, normalize, if_neg ht, if_neg ht, BitVec.toNat_ofNat, Nat.mod_eq_of_lt hlt, ← h,
      Bytes.ofNat_toNat]

end ElementType

/-! ### Scalars -/

namespace Scalar

variable {t : ElementType} {bytes : List UInt8} {s : Scalar}

theorem length_toBytes (s : Scalar) : s.toBytes.length = s.type.size := s.type.length_encode s.bits

theorem toNat_toBytes (s : Scalar) : Bytes.toNat s.toBytes = s.pattern := s.type.toNat_encode s.bits

theorem ofBytes_of_length (h : bytes.length = t.size) : ofBytes t bytes = .ok ⟨t, t.decode bytes⟩ :=
  if_neg (not_not.2 h)

/-- What is read is the value whose bytes these are, but for the byte of a boolean. -/
theorem ofBytes_eq_ok :
    ofBytes t bytes = .ok s ↔ s.type = t ∧ bytes.length = t.size ∧ s.toBytes = t.normalize bytes := by
  constructor
  · intro h
    unfold ofBytes at h
    split at h
    · simp at h
    · rename_i hlength
      obtain rfl := Except.ok.inj h
      exact ⟨rfl, not_not.1 hlength, ElementType.encode_decode (not_not.1 hlength)⟩
  · rintro ⟨rfl, hlength, hbytes⟩
    have hread := s.ofBytes_toBytes
    rw [hbytes, ← ElementType.encode_decode hlength] at hread
    rw [ofBytes_of_length hlength, ← hread]
    exact (ofBytes_toBytes ⟨s.type, s.type.decode bytes⟩).symm

end Scalar

namespace Workspace

/-- A scalar has as many bytes as an element of its type, and can be read back from them; bytes are those of an element
if there are as many of them. Bytes of another length are not written over. A tensor that is made of a scalar holds the
same scalar. -/
theorem scalars_as_bytes (s : Scalar) (t : ElementType) (bytes : List UInt8) :
    (s.toBytes.length = s.type.size ∧ Bytes.toNat s.toBytes = s.pattern ∧
      Scalar.ofBytes s.type s.toBytes = .ok s) ∧
    ((∃ v, Scalar.ofBytes t bytes = .ok v) ↔ bytes.length = t.size) ∧
    (∀ v, Scalar.ofBytes t bytes = .ok v → v.type = t ∧ v.toBytes = t.normalize bytes) ∧
    (s.writeOver bytes = if bytes.length = s.type.size then (.ok (), s.toBytes)
      else (Result.reject (.bytes s.type bytes.length), bytes)) ∧
    ∀ {w device u w'}, ofScalar w s device = (.ok u, w') → w'.context.toScalar u = .ok s := by
  refine ⟨⟨s.length_toBytes, s.toNat_toBytes, s.ofBytes_toBytes⟩, ⟨?_, fun h => ?_⟩, fun v h => ?_, ite_not _ _ _,
    fun {w device u w'} h => ?_⟩
  · rintro ⟨v, h⟩
    exact (Scalar.ofBytes_eq_ok.1 h).2.1
  · exact ⟨_, Scalar.ofBytes_of_length h⟩
  · obtain ⟨htype, -, hbytes⟩ := Scalar.ofBytes_eq_ok.1 h
    exact ⟨htype, hbytes⟩
  · have hboxes := boxes_of_ofScalar h
    have hscalar : u.isScalar = true := by
      show (u.shape.rank == 0) = true
      rw [hboxes.shape]
      rfl
    exact (if_pos hscalar).trans hboxes.get

/-- A byte of seven is true and is written as one; a NaN keeps its payload on its way through a tensor. -/
theorem nan_as_bytes : Scalar.ofBytes .bool [7] = .ok ⟨.bool, 1#1⟩ ∧ Scalar.toBytes ⟨.bool, 1#1⟩ = [1] ∧
    ∃ s c t w', Session.initial.performAll [.build {}] = some s ∧ s.context? 0 = some c ∧
      ofScalar ⟨c, s.resources⟩ ⟨.f32, 0xffc01234#32⟩ .cpu = (.ok t, w') ∧
      w'.context.toScalar t = .ok ⟨.f32, 0xffc01234#32⟩ := by
  obtain ⟨-, -, hread, -, hstored⟩ := scalars_as_bytes ⟨.f32, 0xffc01234#32⟩ .bool [7]
  have hseven : Scalar.ofBytes .bool [7] = .ok ⟨.bool, 1#1⟩ := rfl
  refine ⟨hseven, (hread _ hseven).2, ?_⟩
  obtain ⟨s, c, t, w', hs, hc, hmade⟩ : ∃ s c t w', Session.initial.performAll [.build {}] = some s ∧
      s.context? 0 = some c ∧ ofScalar ⟨c, s.resources⟩ ⟨.f32, 0xffc01234#32⟩ .cpu = (.ok t, w') :=
    ⟨_, _, _, _, rfl, rfl, rfl⟩
  exact ⟨s, c, t, w', hs, hc, hmade, hstored hmade⟩

end Workspace

end StridedTensor
