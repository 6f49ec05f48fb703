import Mathlib.Data.UInt
import Minidsp.Buffer

/-! Framing of packets: a length byte that counts itself, the payload, a checksum. -/
namespace Minidsp
namespace Packet

open Buffer

inductive ParseError
  | emptyPacket
  | unexpectedLength (expected actual : ℕ) (data : Bytes)
  deriving DecidableEq, Repr

/-- Sum of the bytes as a wrapping 32-bit number, low byte. -/
def checksum (data : Bytes) : UInt8 :=
  ((data.map fun x => x.toUInt32).sum &&& 0xFF).toUInt8

def frame (packet : Bytes) : Bytes :=
  let buf := UInt8.ofNat (packet.length+1) :: packet
  buf ++ [checksum buf]

def unframe : Bytes → Except ParseError Bytes
  | [] => .error .emptyPacket
  | response@(b :: _) =>
    let len := b.toNat
    if response.length < len then .error (.unexpectedLength len response.length response)
    else if len = 0 then .error .emptyPacket
    else .ok ((response.take len).drop 1)

@[simp] theorem frame_length (packet : Bytes) : (frame packet).length = packet.length+2 := by
  simp [frame]

/-- What `unframe` accepts: a non-zero length byte that the frame reaches. -/
theorem unframe_ok_iff {response p : Bytes} :
    unframe response = .ok p ↔
      ∃ b rest, response = b :: rest ∧ b ≠ 0 ∧ b.toNat ≤ rest.length+1 ∧
        p = rest.take (b.toNat-1) := by
  cases response with
  | nil => simp [unframe]
  | cons b rest =>
    have hz : b.toNat = 0 ↔ b = 0 := by
      rw [← UInt8.toNat_inj]
      rfl
    simp only [unframe,List.length_cons,hz]
    split_ifs with hlen hzero
    · simp only [List.cons.injEq,false_iff,not_exists,not_and]
      rintro c cs ⟨rfl,rfl⟩ - hle
      omega
    · simp [hzero]
    · have hpos : 0 < b.toNat := by
        have := mt hz.mp hzero
        omega
      obtain ⟨n,hn⟩ := Nat.exists_eq_add_of_le' hpos
      simp only [hn,List.take_succ_cons,List.drop_succ_cons,List.drop_zero,Except.ok.injEq]
      constructor
      · rintro rfl
        exact ⟨b,rest,rfl,hzero,by omega,by simp [hn]⟩
      · rintro ⟨c,cs,he,-,-,rfl⟩
        obtain ⟨rfl,rfl⟩ := List.cons.inj he
        simp [hn]

theorem unframe_length {response p : Bytes} (h : unframe response = .ok p) : p.length ≤ 254 := by
  obtain ⟨b,rest,-,-,-,rfl⟩ := unframe_ok_iff.mp h
  have hb := b.toNat_lt
  rw [List.length_take]
  omega

theorem lengthByte_toNat {p : Bytes} (hp : p.length ≤ 254) :
    (UInt8.ofNat (p.length+1)).toNat = p.length+1 :=
  UInt8.toNat_ofNat_of_lt' (Nat.lt_succ_of_le (Nat.succ_le_succ hp))

theorem lengthByte_ne_zero {p : Bytes} (hp : p.length ≤ 254) : UInt8.ofNat (p.length+1) ≠ 0 := by
  intro h
  have hlen := lengthByte_toNat hp
  rw [h] at hlen
  simp at hlen

theorem unframe_frame {p : Bytes} (hp : p.length ≤ 254) (pad : Bytes) :
    unframe (frame p ++ pad) = .ok p := by
  have hlen := lengthByte_toNat hp
  refine unframe_ok_iff.mpr ⟨UInt8.ofNat (p.length+1),
    p ++ [checksum (UInt8.ofNat (p.length+1) :: p)] ++ pad,rfl,lengthByte_ne_zero hp,?_,?_⟩
  · rw [hlen]
    simp
  · rw [hlen,Nat.add_sub_cancel,List.append_assoc,List.take_left]

end Packet
end Minidsp
