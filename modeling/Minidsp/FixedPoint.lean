import Mathlib.Data.Int.ConditionallyCompleteOrder
import Mathlib.Data.Rat.Floor
import Mathlib.Data.Set.Function
import Mathlib.Order.Interval.Set.Defs
import Mathlib.Order.Monotone.Defs
import Mathlib.Tactic.Linarith
import Mathlib.Tactic.Ring
import Minidsp.Wire

/-! Fixed-point words: an offset number of 28 bits, of which 23 are behind the point. The floats
are taken as exact rationals. -/
namespace Minidsp
namespace FixedPoint

open Buffer

/-- `as i64`: the cast truncates towards zero and saturates. -/
def asI64 (x : ℚ) : ℤ :=
  max (-2^63) (min (2^63-1) (if 0 ≤ x then ⌊x⌋ else ⌈x⌉))

def fromF32 (val : ℚ) : FixedPoint :=
  let encoded := val * 2^23
  let encoded := encoded + 2^27
  let encoded := UInt32.ofInt (asI64 encoded)
  let encoded := encoded ^^^ 0x08000000
  ⟨if encoded &&& 0xF0000000 = 0xF0000000 then encoded &&& 0x0FFFFFFF else encoded⟩

def toF32 (fp : FixedPoint) : ℚ :=
  let val := fp.toU32 ^^^ 0x08000000
  let sub := (val - 0x08000000).toBitVec.toInt
  sub / 2^23

/-! The words between the two conversions. -/

theorem asI64_intCast {e : ℤ} (h : |e| < 2^63) : asI64 e = e := by
  obtain ⟨hlo,hhi⟩ := abs_lt.mp h
  have hround : (if 0 ≤ (e : ℚ) then ⌊(e : ℚ)⌋ else ⌈(e : ℚ)⌉) = e := by
    split_ifs <;> simp
  rw [asI64,hround]
  omega

/-- The word a number of steps of `2^-23` is offset to. -/
def offset (n : ℤ) : UInt32 := UInt32.ofInt (n + 2^27)

theorem offset_toNat (n : ℤ) : ((offset n).toNat : ℤ) = (n + 2^27) % 2^32 := by
  have h : offset n = UInt32.ofNat ((n + 2^27) % 2^32).toNat := rfl
  rw [h,UInt32.toNat_ofNat']
  omega

theorem high_and_iff (w : UInt32) : w &&& 0xF0000000 = 0xF0000000 ↔ 0xF0000000 ≤ w.toNat := by
  have hw := w.toNat_lt
  have hsplit : w.toNat = (w.toNat/2^28) <<< 28 ||| w.toNat % 2^28 := by
    rw [Nat.shiftLeft_eq,Nat.mul_comm,← Nat.two_pow_add_eq_or_of_lt (Nat.mod_lt _ (by decide)),
      Nat.div_add_mod]
  have hlow : w.toNat % 2^28 &&& 15 <<< 28 = 0 := by
    have h := Nat.and_two_pow_sub_one_eq_mod w.toNat 28
    rw [← h,Nat.and_assoc]
    exact Nat.and_zero _
  have hhigh : w.toNat/2^28 &&& 15 = w.toNat/2^28 :=
    (Nat.and_two_pow_sub_one_eq_mod _ 4).trans (Nat.mod_eq_of_lt (by omega))
  have hand : (w &&& 0xF0000000).toNat = (w.toNat/2^28) <<< 28 := by
    rw [UInt32.toNat_and]
    change w.toNat &&& 15 <<< 28 = _
    conv_lhs => rw [hsplit,Nat.and_or_distrib_right,hlow,Nat.or_zero]
    rw [← Nat.shiftLeft_and_distrib,hhigh]
  rw [← UInt32.toNat_inj,hand,Nat.shiftLeft_eq]
  change _ = 0xF0000000 ↔ _
  omega

theorem flip_flip (w : UInt32) : (w ^^^ 0x08000000) ^^^ 0x08000000 = w := by
  rw [UInt32.xor_assoc,UInt32.xor_self,UInt32.xor_zero]

theorem flip_low_flip (w : UInt32) :
    ((w ^^^ 0x08000000) &&& 0x0FFFFFFF) ^^^ 0x08000000 = w &&& 0x0FFFFFFF := by
  have hdistrib : (w ^^^ 0x08000000) &&& 0x0FFFFFFF = (w &&& 0x0FFFFFFF) ^^^ 0x08000000 := by
    apply UInt32.toNat_inj.mp
    simp only [UInt32.toNat_and,UInt32.toNat_xor,Nat.and_xor_distrib_right]
    rfl
  rw [hdistrib,flip_flip]

theorem high_flip (w : UInt32) :
    (w ^^^ 0x08000000) &&& 0xF0000000 = w &&& 0xF0000000 := by
  apply UInt32.toNat_inj.mp
  simp only [UInt32.toNat_and,UInt32.toNat_xor,Nat.and_xor_distrib_right]
  exact Nat.xor_zero _

theorem toInt_sub_offset (w : UInt32) :
    (w - 0x08000000).toBitVec.toInt = ((w.toNat : ℤ) - 2^27).bmod (2^32) := by
  have hw := w.toNat_lt
  have hsub : (w - 0x08000000).toBitVec.toNat = (2^32 - 2^27 + w.toNat) % 2^32 :=
    UInt32.toNat_sub w 0x08000000
  rw [BitVec.toInt_eq_toNat_bmod,hsub,Int.bmod,Int.bmod]
  omega

/-! What a number of steps decodes to. -/

theorem fromF32_steps {n : ℤ} (h : |n| ≤ 2^30) : fromF32 (n/2^23) =
    ⟨if 0xF0000000 ≤ (offset n).toNat then (offset n ^^^ 0x08000000) &&& 0x0FFFFFFF
      else offset n ^^^ 0x08000000⟩ := by
  have hscaled : (n/2^23 : ℚ) * 2^23 + 2^27 = ((n + 2^27 : ℤ) : ℚ) := by
    push_cast
    ring
  have hsmall : |n + 2^27| < 2^63 := by
    obtain ⟨hlo,hhi⟩ := abs_le.mp h
    exact abs_lt.mpr ⟨by omega,by omega⟩
  simp only [fromF32,hscaled,asI64_intCast hsmall,high_flip,high_and_iff]
  rfl

/-- The values whose high bits are cleared: from -48 up to -16. -/
def Masked (n : ℤ) : Prop := -48 * 2^23 ≤ n ∧ n < -16 * 2^23

instance (n : ℤ) : Decidable (Masked n) := inferInstanceAs (Decidable (_ ∧ _))

theorem high_iff_masked {n : ℤ} (h : |n| ≤ 2^30) :
    0xF0000000 ≤ (offset n).toNat ↔ Masked n := by
  obtain ⟨hlo,hhi⟩ := abs_le.mp h
  have hoffset := offset_toNat n
  unfold Masked
  omega

theorem toF32_unmasked {n : ℤ} (h : |n| ≤ 2^30) (hn : ¬Masked n) :
    (fromF32 (n/2^23)).toF32 = n/2^23 := by
  obtain ⟨hlo,hhi⟩ := abs_le.mp h
  have hoffset := offset_toNat n
  have hback : ((offset n).toNat - 2^27 : ℤ).bmod (2^32) = n := by
    rw [Int.bmod]
    omega
  rw [fromF32_steps h,if_neg (mt (high_iff_masked h).mp hn)]
  simp only [toF32,flip_flip,toInt_sub_offset,hback]

/-- With its high bits cleared, a value comes back 32 too large. -/
theorem toF32_masked {n : ℤ} (hn : Masked n) :
    (fromF32 (n/2^23)).toF32 = (n + 2^28 : ℤ)/2^23 := by
  have h : |n| ≤ 2^30 := by
    obtain ⟨hlo,hhi⟩ := hn
    exact abs_le.mpr ⟨by omega,by omega⟩
  have hoffset := offset_toNat n
  have hlow : (offset n &&& 0x0FFFFFFF).toNat = (offset n).toNat % 2^28 := by
    rw [UInt32.toNat_and]
    exact Nat.and_two_pow_sub_one_eq_mod _ 28
  have hback : (((offset n &&& 0x0FFFFFFF).toNat : ℤ) - 2^27).bmod (2^32) = n + 2^28 := by
    obtain ⟨hlo,hhi⟩ := hn
    rw [hlow,Int.bmod]
    omega
  rw [fromF32_steps h,if_pos ((high_iff_masked h).mpr hn)]
  simp only [toF32,flip_low_flip,toInt_sub_offset,hback]

def RoundTrips (n : ℤ) : Prop := (fromF32 (n/2^23)).toF32 = n/2^23

theorem roundTrips_iff {n : ℤ} (h : |n| ≤ 2^30) : RoundTrips n ↔ ¬Masked n := by
  refine ⟨fun hround hn => ?_,toF32_unmasked h⟩
  have hshift := (toF32_masked hn).symm.trans hround
  push_cast at hshift
  linarith

theorem injOn_roundTrips : Set.InjOn (fun n : ℤ => fromF32 (n/2^23)) {n | RoundTrips n} := by
  intro n hn m hm hword
  have hsame : (n/2^23 : ℚ) = m/2^23 := by
    rw [← hn,← hm]
    exact congrArg toF32 hword
  have hsteps : (n : ℚ) = m := by linarith
  exact_mod_cast hsteps

/-- From -128 to 128 the values outside the masked interval, and no others, are decoded to
themselves; on them the encoding is injective. -/
theorem roundTrips_iff_unmasked (n : ℤ) :
    (|n| ≤ 2^30 → (RoundTrips n ↔ ¬Masked n)) ∧
      Set.InjOn (fun n : ℤ => fromF32 (n/2^23)) {n | |n| ≤ 2^30 ∧ ¬Masked n} :=
  ⟨roundTrips_iff,injOn_roundTrips.mono fun _ hn => (roundTrips_iff hn.1).mpr hn.2⟩

/-- The word of -32 is that of 0. -/
theorem minus_32_decodes_to_0 :
    ¬((∀ n : ℤ, |n| ≤ 2^30 → RoundTrips n) ∧
      Set.InjOn (fun n : ℤ => fromF32 (n/2^23)) {n | |n| ≤ 2^30}) := by
  rintro ⟨hall,-⟩
  exact (roundTrips_iff (by decide)).mp (hall (-32*2^23) (by decide)) (by decide)

/-! The format 5.23: from -16 up to 16, in steps of `2^-23`. -/

def steps (v : ℚ) : ℤ := ⌊v * 2^23⌋

/-- The offset is large enough for the cast to round down. -/
theorem fromF32_eq_steps {v : ℚ} (hlo : -16 ≤ v) :
    fromF32 v = fromF32 (steps v/2^23) := by
  have hnonneg : 0 ≤ v * 2^23 + 2^27 := by linarith
  have hfloor : ⌊v * 2^23 + 2^27⌋ = steps v + 2^27 := by
    rw [steps,← Int.floor_add_intCast]
    push_cast
    rfl
  have hsteps : ⌊((steps v/2^23 : ℚ)) * 2^23 + 2^27⌋ = steps v + 2^27 := by
    have hscaled : (steps v/2^23 : ℚ) * 2^23 + 2^27 = ((steps v + 2^27 : ℤ) : ℚ) := by
      push_cast
      ring
    rw [hscaled,Int.floor_intCast]
  have hpos : 0 ≤ steps v + 2^27 := hfloor ▸ Int.floor_nonneg.mpr hnonneg
  have hback : 0 ≤ (steps v/2^23 : ℚ) * 2^23 + 2^27 := by
    rw [← Int.floor_nonneg,hsteps]
    exact hpos
  simp only [fromF32,asI64,if_pos hnonneg,if_pos hback,hfloor,hsteps]

theorem steps_bounds {v : ℚ} (h : v ∈ Set.Ico (-16) 16) :
    -2^27 ≤ steps v ∧ steps v < 2^27 := by
  obtain ⟨hlo,hhi⟩ := h
  constructor
  · rw [steps,Int.le_floor]
    push_cast
    linarith
  · rw [steps,Int.floor_lt]
    push_cast
    linarith

theorem flip_high {w : UInt32} (hw : w.toNat < 2^28) :
    (w ^^^ 0x08000000).toNat = (w.toNat + 2^27) % 2^28 := by
  have hxor : (w ^^^ 0x08000000).toNat = w.toNat ^^^ 2^27 := UInt32.toNat_xor w 0x08000000
  have hlow : (w.toNat ^^^ 2^27) % 2^27 = w.toNat % 2^27 := by
    rw [Nat.xor_mod_two_pow,Nat.mod_self,Nat.xor_zero]
  have hhigh : (w.toNat ^^^ 2^27) / 2^27 = w.toNat / 2^27 ^^^ 1 := Nat.xor_div_two_pow
  rw [hxor]
  have hbit : w.toNat / 2^27 = 0 ∨ w.toNat / 2^27 = 1 := by omega
  rcases hbit with hbit | hbit
  · rw [hbit,Nat.zero_xor] at hhigh
    omega
  · rw [hbit,Nat.xor_self] at hhigh
    omega

/-- The word of a value is its steps as a number of 28 bits in two's complement. -/
theorem toU32_steps {n : ℤ} (hlo : -2^27 ≤ n) (hhi : n < 2^27) :
    (fromF32 (n/2^23)).toU32.toBitVec = (BitVec.ofInt 28 n).setWidth 32 := by
  have h : |n| ≤ 2^30 := abs_le.mpr ⟨by omega,by omega⟩
  have hunmasked : ¬0xF0000000 ≤ (offset n).toNat := by
    rw [high_iff_masked h,Masked]
    omega
  have hoffset := offset_toNat n
  have hflip := flip_high (w := offset n) (by omega)
  apply BitVec.eq_of_toNat_eq
  rw [fromF32_steps h,if_neg hunmasked,BitVec.toNat_setWidth,BitVec.toNat_ofInt]
  change (offset n ^^^ 0x08000000).toNat = _
  rw [hflip]
  omega

def signed (fp : FixedPoint) : ℤ := (fp.toU32.toBitVec.setWidth 28).toInt

theorem signed_steps {n : ℤ} (hlo : -2^27 ≤ n) (hhi : n < 2^27) :
    (fromF32 (n/2^23)).signed = n := by
  rw [signed,toU32_steps hlo hhi,BitVec.setWidth_setWidth_of_le _ (by decide),BitVec.setWidth_eq,
    BitVec.toInt_ofInt]
  exact Int.bmod_eq_of_le_mul_two (by omega) (by omega)

theorem steps_mono : Monotone steps := by
  intro v w h
  exact Int.floor_mono (by linarith)

theorem toF32_steps {v : ℚ} (h : v ∈ Set.Ico (-16) 16) : (fromF32 v).toF32 = steps v/2^23 := by
  obtain ⟨hlo,hhi⟩ := steps_bounds h
  rw [fromF32_eq_steps h.1,toF32_unmasked (abs_le.mpr ⟨by omega,by omega⟩)]
  unfold Masked
  omega

theorem monotoneOn_signed : MonotoneOn (fun v => (fromF32 v).signed) (Set.Ico (-16) 16) := by
  intro v hv w hw h
  have hsigned : ∀ u ∈ Set.Ico (-16 : ℚ) 16, (fromF32 u).signed = steps u := by
    intro u hu
    obtain ⟨hlo,hhi⟩ := steps_bounds hu
    rw [fromF32_eq_steps hu.1,signed_steps hlo hhi]
  change (fromF32 v).signed ≤ (fromF32 w).signed
  rw [hsigned v hv,hsigned w hw]
  exact steps_mono h

/-- On these values the encoding rounds down to a step and writes it in two's complement. -/
theorem conforms_to_5_23 :
    MonotoneOn (fun v => (fromF32 v).signed) (Set.Ico (-16) 16) ∧
    ∀ v ∈ Set.Ico (-16 : ℚ) 16,
      (fromF32 v).toU32.toBitVec = (BitVec.ofInt 28 ⌊v * 2^23⌋).setWidth 32 ∧
      (fromF32 v).toF32 = ⌊v * 2^23⌋/2^23 ∧
      (fromF32 v).toF32 ≤ v ∧ v < (fromF32 v).toF32 + 1/2^23 := by
  refine ⟨monotoneOn_signed,fun v hv => ?_⟩
  obtain ⟨hlo,hhi⟩ := steps_bounds hv
  have hword : (fromF32 v).toU32.toBitVec = (BitVec.ofInt 28 (steps v)).setWidth 32 := by
    rw [fromF32_eq_steps hv.1,toU32_steps hlo hhi]
  have hbelow : (steps v : ℚ) ≤ v * 2^23 := Int.floor_le _
  have habove : v * 2^23 < steps v + 1 := Int.lt_floor_add_one _
  refine ⟨hword,toF32_steps hv,?_,?_⟩ <;> rw [toF32_steps hv] <;> linarith

end FixedPoint
end Minidsp
