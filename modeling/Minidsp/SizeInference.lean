import Minidsp.FixedSize

/-! What size a client infers when packets are coalesced in its first read: the whole length is
halved, so that only a power of two of packets is told apart from other sizes. -/
namespace Minidsp

open Buffer

namespace Codec

/-- Whatever is inferred, halving has led to it. -/
theorem halve_spec (fuel len : ℕ) : ∃ j, len = 2^j * halve fuel len := by
  induction fuel generalizing len with
  | zero => exact ⟨0,by simp [halve]⟩
  | succ fuel ih =>
    simp only [halve]
    split_ifs with hc
    · obtain ⟨j,hj⟩ := ih (len/2)
      refine ⟨j+1,?_⟩
      rw [pow_succ',mul_assoc,← hj]
      omega
    · exact ⟨0,by simp⟩

theorem halve_two_pow {size : ℕ} (h50 : 50 < size) (h100 : size ≤ 100) {j fuel : ℕ}
    (hj : j ≤ fuel) : halve fuel (2^j * size) = size := by
  induction fuel generalizing j with
  | zero =>
    obtain rfl := Nat.le_zero.mp hj
    simp [halve]
  | succ fuel ih =>
    cases j with
    | zero =>
      simp only [halve]
      rw [if_neg (by omega)]
      simp
    | succ j =>
      have hhalf : 2^(j+1) * size = 2 * (2^j * size) := by
        rw [pow_succ',mul_assoc]
      have hlarge : size ≤ 2^j * size := Nat.le_mul_of_pos_left size (Nat.two_pow_pos j)
      simp only [halve]
      rw [if_pos (by omega),hhalf,Nat.mul_div_cancel_left _ (by decide)]
      exact ih (by omega)

/-- The size of coalesced packets is inferred from a power of two of them, and no other
number. -/
theorem inferSize_eq_iff {size : ℕ} (h50 : 50 < size) (h100 : size ≤ 100) (k : ℕ) :
    inferSize (k * size) = size ↔ ∃ j, k = 2^j := by
  constructor
  · intro h
    obtain ⟨j,hj⟩ := halve_spec (k * size) (k * size)
    change k * size = 2^j * inferSize (k * size) at hj
    rw [h] at hj
    exact ⟨j,Nat.eq_of_mul_eq_mul_right (by omega) hj⟩
  · rintro ⟨j,rfl⟩
    have hfuel : j ≤ 2^j * size :=
      Nat.lt_two_pow_self.le.trans (Nat.le_mul_of_pos_right _ (by omega))
    exact halve_two_pow h50 h100 hfuel

theorem decode_newClient {src : Bytes} (h64 : 64 ≤ src.length) :
    decode newClient src = decode (fixedClient (inferSize src.length)) src := by
  have hclient : newClient.InFixedMode := ⟨rfl,rfl⟩
  have hfixed : (fixedClient (inferSize src.length)).InFixedMode := ⟨rfl,rfl⟩
  rw [decode_fixedMode hclient h64,decode_fixedMode hfixed h64]
  rfl

theorem decode_keeps_size {c c' : Codec} {src rest : Bytes} {item : Option Bytes} {size : ℕ}
    (hc : c.fixedPacketSize = some size) (h : decode c src = .ok (c',rest,item)) :
    c'.fixedPacketSize = some size := by
  by_cases hfix : c.InFixedMode ∧ 64 ≤ src.length
  · have hsize : c.sizeAt src = size := by simp [sizeAt,hc]
    rw [decode_fixedMode hfix.1 hfix.2,hsize] at h
    cases hbuf : (splitTo size src : Exec IoError _) with
    | error e => simp [hbuf,bind,Except.bind] at h
    | ok r =>
      cases hfirst : (index r.1 0 : Exec IoError _) with
      | error e => simp [hbuf,hfirst,bind,Except.bind] at h
      | ok first =>
        simp only [hbuf,hfirst,bind,Except.bind] at h
        by_cases hnull : first = 0
        · rw [if_pos hnull] at h
          obtain ⟨rfl,-⟩ := Prod.mk.inj (Except.ok.inj h)
          rfl
        · rw [if_neg hnull] at h
          cases hitem : (splitTo first.toNat r.1 : Exec IoError _) with
          | error e => simp [hitem] at h
          | ok q =>
            rw [hitem] at h
            obtain ⟨rfl,-⟩ := Prod.mk.inj (Except.ok.inj h)
            rfl
  · obtain ⟨d,hd,hsize,-⟩ := decode_short fun hm => not_le.mp fun h64 => hfix ⟨hm,h64⟩
    obtain ⟨src',item',hok⟩ := decodeLengthPrefixed_ok d src
    rw [hd,hok] at h
    obtain ⟨rfl,-⟩ := Prod.mk.inj (Except.ok.inj h)
    rw [hsize,hc]

/-- All the packets come in the first read, and the calls take off one after the other, with
the size of each. -/
def RecoversCoalesced (size : ℕ) (packets : List Bytes) : Prop :=
  ∃ n, Framed.drain decode n newClient packets.flatten =
    some ⟨fixedClient size,[],packets.map payload⟩

def IsFullPacket (size : ℕ) (p : Bytes) : Prop :=
  p.length = size ∧ 1 ≤ (p.headD 0).toNat ∧ (p.headD 0).toNat ≤ size

instance (size : ℕ) (p : Bytes) : Decidable (IsFullPacket size p) :=
  inferInstanceAs (Decidable (_ ∧ _ ∧ _))

section

variable {size : ℕ} {packets : List Bytes}

theorem length_flatten (hp : ∀ p ∈ packets, IsFullPacket size p) :
    packets.flatten.length = packets.length * size := by
  induction packets with
  | nil => simp
  | cons p packets ih =>
    rw [List.flatten_cons,List.length_append,(hp p (by simp)).1,
      ih fun q hq => hp q (by simp [hq]),List.length_cons]
    rw [Nat.succ_mul,Nat.add_comm]

theorem IsFullPacket.not_null {p : Bytes} (h : IsFullPacket size p) : isNull p = false := by
  obtain ⟨-,hfirst,-⟩ := h
  simp only [isNull,decide_eq_false_iff_not]
  intro hzero
  rw [hzero] at hfirst
  exact absurd hfirst (by decide)

theorem payloads_full (hp : ∀ p ∈ packets, IsFullPacket size p) :
    payloads packets = packets.map payload := by
  rw [payloads,List.filter_eq_self.mpr]
  intro p hmem
  rw [(hp p hmem).not_null]
  rfl

theorem infers_of_recovers (h64 : 64 ≤ packets.flatten.length)
    (h : RecoversCoalesced size packets) : inferSize packets.flatten.length = size := by
  obtain ⟨n,hdrain⟩ := h
  rw [Framed.drain_congr n (decode_newClient h64)] at hdrain
  have hkeeps := Framed.drain_keeps
    (I := fun c => c.fixedPacketSize = some (inferSize packets.flatten.length))
    (fun _ _ _ _ _ hc hcall => decode_keeps_size hc hcall) rfl hdrain
  exact (Option.some.inj hkeeps).symm

/-- A power of two of packets is recovered whole, any other number is not. -/
theorem recoversCoalesced_iff (h64 : 64 ≤ size) (h100 : size ≤ 100) (hne : packets ≠ [])
    (hp : ∀ p ∈ packets, IsFullPacket size p) :
    RecoversCoalesced size packets ↔ ∃ j, packets.length = 2^j := by
  have hpos := List.length_pos_iff.mpr hne
  have hlen := length_flatten hp
  have hread : 64 ≤ packets.flatten.length := by
    rw [hlen]
    exact h64.trans (Nat.le_mul_of_pos_left size hpos)
  rw [← inferSize_eq_iff (by omega) h100,← hlen]
  refine ⟨infers_of_recovers hread,fun hsize => ⟨packets.length+1,?_⟩⟩
  rw [Framed.drain_congr _ (decode_newClient hread),hsize,← payloads_full hp]
  exact drain_packets h64 (fun p hmem => ⟨(hp p hmem).1,(hp p hmem).2.2⟩)
    (fun p hmem => (hp p (List.mem_of_mem_dropLast hmem)).not_null) (Nat.lt_succ_self _)

end

theorem recoversCoalesced_pwr_ice :
    RecoversCoalesced 70 [4 :: List.replicate 69 0xff,5 :: List.replicate 69 0xff] ↔
      ∃ j, [4 :: List.replicate 69 0xff,5 :: List.replicate 69 (0xff : UInt8)].length = 2^j :=
  recoversCoalesced_iff (by decide) (by decide) (by simp) (by decide)

/-- Three packets of 64 bytes are taken for two of 96. -/
theorem three_packets_taken_for_two :
    ¬∀ (size : ℕ) (packets : List Bytes), size = 64 ∨ size = 70 → packets ≠ [] →
      (∀ p ∈ packets, IsFullPacket size p) → RecoversCoalesced size packets := by
  intro h
  have hp : ∀ p ∈ List.replicate 3 (1 :: List.replicate 63 (0 : UInt8)), IsFullPacket 64 p := by
    decide
  have hlen := length_flatten hp
  have hinfers := infers_of_recovers (by rw [hlen]; decide) (h 64 _ (.inl rfl) (by simp) hp)
  rw [hlen] at hinfers
  exact absurd hinfers (by decide)

end Codec
end Minidsp
