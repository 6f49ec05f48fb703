import Minidsp.Packet

/-! The addresses and values that commands carry, and how they lie on the wire. -/
namespace Minidsp

open Buffer

inductive ProtocolError
  | badCommandId
  | unexpectedResponseType
  | parseError (e : Packet.ParseError)
  | malformedHardwareId
  | decodeError (e : TryGetError)
  deriving DecidableEq, Repr

instance : From TryGetError ProtocolError := ⟨.decodeError⟩

abbrev F32Bits := UInt32

structure FixedPoint where
  toU32 : UInt32
  deriving DecidableEq, Repr

structure Addr where
  val : UInt32
  len : UInt8
  extraBit : Bool
  deriving DecidableEq, Repr

namespace Addr

section Read
variable {ε : Type} [From TryGetError ε]

def readU16 (buf : Bytes) : Exec ε (Addr × Bytes) := do
  let (val,buf) ← tryGetU16 buf
  let extraBit := (val &&& 0x8000) != 0
  let val := val &&& 0x0FFF
  return ({ val := val.toUInt32, len := 2, extraBit },buf)

def readU24 (buf : Bytes) : Exec ε (Addr × Bytes) := do
  let (high,buf) ← tryGetU8 buf
  let extraBit := (high &&& 0x80) != 0
  let high := high &&& 0x0F
  let (addr,buf) ← tryGetU16 buf
  let val := high.toUInt32 <<< 16 ||| addr.toUInt32
  return ({ val, len := 3, extraBit },buf)

def read (buf : Bytes) (len : UInt8) : Exec ε (Addr × Bytes) :=
  if len = 2 then readU16 buf
  else if len = 3 then readU24 buf
  else .error (.panic (.explicit "invalid address len"))

end Read

def write (a : Addr) : Except Panic Bytes :=
  if a.len = 2 then
    let val := 0x8000 ||| (a.val &&& 0x7FFF)
    let val := if a.extraBit then val else val ^^^ 0x8000
    .ok (putU16 val.toUInt16)
  else if a.len = 3 then
    let val := 0x800000 ||| (a.val &&& 0x7FFFFF)
    let val := if a.extraBit then val else val ^^^ 0x800000
    .ok (((val >>> 16) &&& 0xFF).toUInt8 :: putU16 val.toUInt16)
  else .error (.explicit "invalid address len")

def OnWire (a : Addr) : Prop :=
  (a.len = 2 ∧ a.val < 0x1000) ∨ (a.len = 3 ∧ a.val < 0x100000)

instance (a : Addr) : Decidable a.OnWire :=
  inferInstanceAs (Decidable (_ ∧ _ ∨ _ ∧ _))

theorem write_two {a : Addr} (hl : a.len = 2) (hv : a.val < 0x1000) :
    a.write = .ok (putU16 (UInt16.ofNat ((if a.extraBit then 0x8000 else 0) + a.val.toNat))) := by
  have hlt : a.val.toNat < 0x1000 := hv
  have h := flagged_toNat (n := 15) (by omega) a.val (by omega) a.extraBit
  simp only [write,hl,if_true]
  congr 2
  apply UInt16.toNat_inj.mp
  rw [UInt32.toNat_toUInt16,UInt16.toNat_ofNat']
  exact congrArg (· % 2^16) h

theorem write_three {a : Addr} (hl : a.len = 3) (hv : a.val < 0x100000) :
    a.write = .ok (UInt8.ofNat ((if a.extraBit then 0x80 else 0) + a.val.toNat/65536) ::
      putU16 (UInt16.ofNat a.val.toNat)) := by
  have hlt : a.val.toNat < 0x100000 := hv
  have h := flagged_toNat (n := 23) (by omega) a.val (by omega) a.extraBit
  have h3 : ¬(3 : UInt8) = 2 := by decide
  simp only [write,hl,h3,if_false,if_true]
  generalize hw : (if a.extraBit then 0x800000 ||| (a.val &&& 0x7FFFFF)
    else (0x800000 ||| (a.val &&& 0x7FFFFF)) ^^^ 0x800000 : UInt32) = w
  have hw' : w.toNat = (if a.extraBit then 0x800000 else 0) + a.val.toNat := by
    rw [← hw]
    exact h
  congr 2
  · apply UInt8.toNat_inj.mp
    have hm := and_mask_toNat (w >>> 16) 8 (by omega)
    have hs : (w >>> 16).toNat = w.toNat/65536 := by
      rw [UInt32.toNat_shiftRight]
      exact Nat.shiftRight_eq_div_pow _ _
    rw [UInt32.toNat_toUInt8,UInt8.toNat_ofNat']
    refine (congrArg (· % 2^8) hm).trans ?_
    rw [hs,hw']
    split_ifs <;> omega
  · congr 1
    apply UInt16.toNat_inj.mp
    rw [UInt32.toNat_toUInt16,UInt16.toNat_ofNat',hw']
    split_ifs <;> omega

theorem val24_toNat (x : UInt8) (w : UInt16) :
    ((x &&& 0x0F).toUInt32 <<< 16 ||| w.toUInt32).toNat = (x &&& 0x0F).toNat*65536 + w.toNat := by
  have hx : (x &&& 0x0F).toNat < 16 := by
    rw [UInt8.toNat_and]
    exact Nat.lt_of_le_of_lt Nat.and_le_right (by decide)
  have hw : w.toNat < 2^16 := w.toNat_lt
  have hshift : ((x &&& 0x0F).toUInt32 <<< 16).toNat = 2^16 * (x &&& 0x0F).toNat := by
    rw [UInt32.toNat_shiftLeft,UInt8.toNat_toUInt32]
    refine (congrArg (· % 2^32) (Nat.shiftLeft_eq _ _)).trans ?_
    simp only [UInt32.toNat_ofNat,Nat.reducePow,Nat.reduceMod]
    omega
  rw [UInt32.toNat_or,hshift,UInt16.toNat_toUInt32,← Nat.two_pow_add_eq_or_of_lt hw]
  omega

section
variable {ε : Type} [From TryGetError ε]

theorem read_write_two {a : Addr} (hl : a.len = 2) (hv : a.val < 0x1000) (rest : Bytes) :
    (read (putU16 (UInt16.ofNat ((if a.extraBit then 0x8000 else 0) + a.val.toNat)) ++ rest) 2 :
      Exec ε _) = .ok (a,rest) := by
  have hlt : a.val.toNat < 0x1000 := hv
  simp only [read,if_true,readU16,tryGetU16_put]
  generalize hw : UInt16.ofNat ((if a.extraBit then 0x8000 else 0) + a.val.toNat) = w
  have hw' : w.toNat = (if a.extraBit then 2^15 else 0) + a.val.toNat := by
    rw [← hw,UInt16.toNat_ofNat']
    split_ifs <;> omega
  have hflag : ((w &&& 0x8000) != 0) = a.extraBit := by
    apply bne_zero_u16 (n := 15)
    rw [UInt16.toNat_and,hw']
    exact flag_and (by omega) a.extraBit
  have hval : (w &&& 0x0FFF).toUInt32 = a.val := by
    apply UInt32.toNat_inj.mp
    rw [UInt16.toNat_toUInt32,UInt16.toNat_and]
    refine (Nat.and_two_pow_sub_one_eq_mod w.toNat 12).trans ?_
    rw [hw']
    split_ifs <;> omega
  obtain ⟨val,len,extraBit⟩ := a
  simp only at hl hflag hval
  subst hl
  simp only [bind,Except.bind,pure,Except.pure,hflag,hval]

theorem read_write_three {a : Addr} (hl : a.len = 3) (hv : a.val < 0x100000) (rest : Bytes) :
    (read (UInt8.ofNat ((if a.extraBit then 0x80 else 0) + a.val.toNat/65536) ::
      (putU16 (UInt16.ofNat a.val.toNat) ++ rest)) 3 : Exec ε _) = .ok (a,rest) := by
  have hlt : a.val.toNat < 0x100000 := hv
  have h3 : ¬(3 : UInt8) = 2 := by decide
  simp only [read,h3,if_false,if_true,readU24,tryGetU8_cons,bind,Except.bind,tryGetU16_put]
  generalize hw : UInt8.ofNat ((if a.extraBit then 0x80 else 0) + a.val.toNat/65536) = w
  have hw' : w.toNat = (if a.extraBit then 2^7 else 0) + a.val.toNat/65536 := by
    rw [← hw,UInt8.toNat_ofNat']
    split_ifs <;> omega
  have hflag : ((w &&& 0x80) != 0) = a.extraBit := by
    apply bne_zero_u8 (n := 7)
    rw [UInt8.toNat_and,hw']
    exact flag_and (by omega) a.extraBit
  have hval : (w &&& 0x0F).toUInt32 <<< 16 ||| (UInt16.ofNat a.val.toNat).toUInt32 = a.val := by
    apply UInt32.toNat_inj.mp
    have hhigh : (w &&& 0x0F).toUInt32.toNat = a.val.toNat/65536 := by
      rw [UInt8.toNat_toUInt32,UInt8.toNat_and]
      refine (Nat.and_two_pow_sub_one_eq_mod w.toNat 4).trans ?_
      rw [hw']
      split_ifs <;> omega
    rw [val24_toNat,← UInt8.toNat_toUInt32,hhigh,UInt16.toNat_ofNat']
    omega
  obtain ⟨val,len,extraBit⟩ := a
  simp only at hl hflag hval
  subst hl
  simp only [pure,Except.pure,hflag,hval]

end

theorem exists_write {a : Addr} (h : a.OnWire) (ε : Type) [From TryGetError ε] :
    ∃ b, a.write = .ok b ∧ b.length = a.len.toNat ∧
      ∀ rest, (read (b ++ rest) a.len : Exec ε _) = .ok (a,rest) := by
  rcases h with ⟨hl,hv⟩ | ⟨hl,hv⟩
  · exact ⟨_,write_two hl hv,by rw [hl]; rfl,fun rest => by rw [hl]; exact read_write_two hl hv rest⟩
  · exact ⟨_,write_three hl hv,by rw [hl]; rfl,
      fun rest => by rw [hl]; exact read_write_three hl hv rest⟩

end Addr

inductive Value
  | unknown (b : Bytes)
  | float (f : F32Bits)
  | fixedPoint (fp : FixedPoint)
  | int (i : UInt16)
  | int32 (i : UInt32)
  deriving DecidableEq, Repr

namespace Value

instance : Inhabited Value := ⟨.float 0⟩

def intoBytes : Value → Bytes
  | .unknown b => b
  | .float f => putU32Le f
  | .fixedPoint fp => putU32 fp.toU32
  | .int i => putU16Le i ++ putU16 0
  | .int32 i => putU32 i

def fromBytes {ε : Type} [From TryGetError ε] (b : Bytes) : Exec ε Value :=
  match b with
  | [b0,b1,b2,b3] =>
    if (b0 ≠ 0 ∨ b1 ≠ 0) ∧ b2 = 0 ∧ b3 = 0 then do
      let (i,_) ← tryGetU16Le b
      return .int i
    else return .unknown b
  | _ => return .unknown b

/-- Parsing a value keeps its bytes, whichever constructor it picks. -/
theorem fromBytes_ok {ε : Type} [From TryGetError ε] (b : Bytes) :
    ∃ v : Value, (fromBytes b : Exec ε Value) = .ok v ∧ v.intoBytes = b := by
  unfold fromBytes
  split
  · rename_i b0 b1 b2 b3
    split_ifs with h
    · obtain ⟨-,rfl,rfl⟩ := h
      exact ⟨.int (u16Of b1 b0),rfl,by simp [intoBytes,putU16Le,putU16]⟩
    · exact ⟨_,rfl,rfl⟩
  · exact ⟨_,rfl,rfl⟩

end Value
end Minidsp
