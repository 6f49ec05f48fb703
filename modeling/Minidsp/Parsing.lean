import Minidsp.Commands

/-! Which byte strings the parsers get through. Every read of a field is checked but the
coefficients of a biquad, which are copied without looking at what is left. -/
namespace Buffer
namespace Exec

variable {ε α β : Type}

theorem Returns.ok (a : α) : Returns (.ok a : Exec ε α) := by simp [Returns]

theorem Returns.error (e : ε) : Returns (.error (.error e) : Exec ε α) := by
  simp [Returns]

theorem not_returns_panic (p : Panic) : ¬Returns (.error (.panic p) : Exec ε α) :=
  fun h => h p rfl

theorem Returns.bind {x : Exec ε α} {f : α → Exec ε β} (hx : x.Returns)
    (hf : ∀ a, x = .ok a → (f a).Returns) : (x >>= f).Returns := by
  cases x with
  | ok a => exact hf a rfl
  | error e =>
    cases e with
    | error e => exact .error e
    | panic p => exact absurd rfl (hx p)

def Yields (x : Exec ε α) (P : α → Prop) : Prop := ∀ a, x = .ok a → P a

theorem Yields.ok {P : α → Prop} {a : α} (h : P a) : Yields (.ok a : Exec ε α) P := by
  intro b hb
  exact Except.ok.inj hb ▸ h

theorem Yields.bind {x : Exec ε α} {f : α → Exec ε β} {P : β → Prop}
    (hf : ∀ a, x = .ok a → (f a).Yields P) : (x >>= f).Yields P := by
  intro b hb
  cases x with
  | ok a => exact hf a rfl b hb
  | error e => cases hb

end Exec

end Buffer

namespace Minidsp

open Buffer

section
variable {ε : Type} [From TryGetError ε]

theorem Addr.read_returns {buf : Bytes} {len : UInt8} (hl : len = 2 ∨ len = 3) :
    (Addr.read buf len : Exec ε _).Returns := by
  rcases hl with rfl | rfl
  · exact (tryGetU16_returns buf).bind fun _ _ => .ok _
  · exact (tryGetU8_returns buf).bind fun _ _ => (tryGetU16_returns _).bind fun _ _ => .ok _

omit [From TryGetError ε] in
theorem tryGetU8_ok {buf rest : Bytes} {x : UInt8} [From TryGetError ε]
    (h : (tryGetU8 buf : Exec ε _) = .ok (x,rest)) : buf = x :: rest := by
  cases buf with
  | nil => simp [tryGetU8] at h
  | cons b buf =>
    obtain ⟨rfl,rfl⟩ := Prod.mk.inj (Except.ok.inj h)
    rfl

theorem tryGetU16_ok {buf rest : Bytes} {x : UInt16}
    (h : (tryGetU16 buf : Exec ε _) = .ok (x,rest)) :
    ∃ hi lo, buf = hi :: lo :: rest ∧ x = u16Of hi lo := by
  match buf, h with
  | hi :: lo :: buf, h =>
    obtain ⟨rfl,rfl⟩ := Prod.mk.inj (Except.ok.inj h)
    exact ⟨hi,lo,rfl,rfl⟩

theorem Addr.read_ok {buf rest : Bytes} {len : UInt8} {a : Addr}
    (h : (Addr.read buf len : Exec ε _) = .ok (a,rest)) :
    a.len = len ∧ buf.length = len.toNat + rest.length := by
  unfold Addr.read at h
  split_ifs at h with h2 h3
  · cases hval : (tryGetU16 buf : Exec ε _) with
    | error e => simp [readU16,hval,bind,Except.bind] at h
    | ok r =>
      obtain ⟨hi,lo,rfl,-⟩ := tryGetU16_ok hval
      simp only [readU16,hval,bind,Except.bind,pure,Except.pure,Except.ok.injEq,
        Prod.mk.injEq] at h
      obtain ⟨rfl,rfl⟩ := h
      subst h2
      exact ⟨rfl,by simp; omega⟩
  · cases hhigh : (tryGetU8 buf : Exec ε _) with
    | error e => simp [readU24,hhigh,bind,Except.bind] at h
    | ok r =>
      cases hval : (tryGetU16 r.2 : Exec ε _) with
      | error e => simp [readU24,hhigh,hval,bind,Except.bind] at h
      | ok r' =>
        obtain rfl := tryGetU8_ok hhigh
        obtain ⟨hi,lo,hr,-⟩ := tryGetU16_ok hval
        simp only [readU24,hhigh,hval,bind,Except.bind,pure,Except.pure,Except.ok.injEq,
          Prod.mk.injEq] at h
        obtain ⟨rfl,rfl⟩ := h
        subst h3
        exact ⟨rfl,by simp [hr]; omega⟩

/-- A two-byte address has twelve bits, a three-byte one four more above its last two bytes. -/
theorem Addr.read_val {buf rest : Bytes} {len : UInt8} {a : Addr}
    (h : (Addr.read buf len : Exec ε _) = .ok (a,rest)) :
    (len = 2 → a.val.toNat < 4096) ∧
      (len = 3 → ∃ x y z, buf = x :: y :: z :: rest ∧
        a.val.toNat = (x &&& 0x0F).toNat*65536 + (u16Of y z).toNat) := by
  constructor
  · rintro rfl
    cases hval : (tryGetU16 buf : Exec ε _) with
    | error e => simp [Addr.read,readU16,hval,bind,Except.bind] at h
    | ok r =>
      simp only [Addr.read,readU16,hval,bind,Except.bind,pure,Except.pure,if_true,Except.ok.injEq,
        Prod.mk.injEq] at h
      obtain ⟨rfl,-⟩ := h
      rw [UInt16.toNat_toUInt32,UInt16.toNat_and]
      exact Nat.lt_of_le_of_lt Nat.and_le_right (by decide)
  · rintro rfl
    have h3 : ¬(3 : UInt8) = 2 := by decide
    cases hhigh : (tryGetU8 buf : Exec ε _) with
    | error e => simp [Addr.read,h3,readU24,hhigh,bind,Except.bind] at h
    | ok r =>
      cases hval : (tryGetU16 r.2 : Exec ε _) with
      | error e => simp [Addr.read,h3,readU24,hhigh,hval,bind,Except.bind] at h
      | ok r' =>
        obtain rfl := tryGetU8_ok hhigh
        obtain ⟨y,z,hr,hw⟩ := tryGetU16_ok hval
        simp only [Addr.read,h3,if_false,if_true,readU24,hhigh,hval,bind,Except.bind,pure,
          Except.pure,Except.ok.injEq,Prod.mk.injEq] at h
        obtain ⟨rfl,rfl⟩ := h
        exact ⟨r.1,y,z,by rw [hr],by rw [val24_toNat,hw]⟩

theorem Value.fromBytes_returns (b : Bytes) : (Value.fromBytes b : Exec ε _).Returns := by
  obtain ⟨v,hv,-⟩ := Value.fromBytes_ok (ε := ε) b
  rw [hv]
  exact .ok v

end

namespace Commands

/-- A biquad that ends within its coefficients. -/
def CutBiquad (b : Bytes) : Prop := ∃ rest, b = 0x30 :: rest ∧ 4 ≤ rest.length ∧ rest.length < 24

theorem readCoeffs_returns {n : ℕ} (frame : Bytes) (h : 4*n ≤ frame.length) :
    ∃ data, readCoeffs n frame = .ok (data,frame.drop (4*n)) := by
  induction n with
  | zero => exact ⟨#v[],rfl⟩
  | succ n ih =>
    obtain ⟨data,hdata⟩ := ih (by omega)
    have hlen : 4 ≤ (frame.drop (4*n)).length := by
      rw [List.length_drop]
      omega
    refine ⟨data.push (.unknown ((frame.drop (4*n)).take 4)),?_⟩
    simp only [readCoeffs,hdata,bind,Except.bind,splitTo_ok hlen,pure,Except.pure,List.drop_drop]
    rfl

theorem readCoeffs_panics {n : ℕ} {frame : Bytes} (h : frame.length < 4*n) :
    ∃ p, readCoeffs n frame = .error (.panic p) := by
  induction n with
  | zero => omega
  | succ n ih =>
    by_cases hn : frame.length < 4*n
    · obtain ⟨p,hp⟩ := ih hn
      exact ⟨p,by simp only [readCoeffs,hp,bind,Except.bind]⟩
    · obtain ⟨data,hdata⟩ := readCoeffs_returns (n := n) frame (by omega)
      have hlen : (frame.drop (4*n)).length < 4 := by
        rw [List.length_drop]
        omega
      refine ⟨.slice 4 (frame.drop (4*n)).length,?_⟩
      simp only [readCoeffs,hdata,bind,Except.bind,splitTo_panics hlen]

theorem guess_cases {P : Prop} [Decidable P] :
    (if P then (3 : UInt8) else 2) = 2 ∨ (if P then (3 : UInt8) else 2) = 3 := by
  split <;> simp

theorem fromBytes_biquad_returns {rest : Bytes} (h : rest.length < 4 ∨ 24 ≤ rest.length) :
    (fromBytes (0x30 :: rest)).Returns := by
  refine (Addr.read_returns guess_cases).bind fun r hr => ?_
  refine (tryGetU16_returns r.2).bind fun r' hr' => ?_
  obtain ⟨-,hlen⟩ := Addr.read_ok hr
  obtain ⟨hi,lo,hr2,-⟩ := tryGetU16_ok hr'
  have hleft : r.2.length = r'.2.length + 2 := by rw [hr2]; rfl
  have hcoeffs : 4*5 ≤ r'.2.length := by
    split_ifs at hlen with h24
    · have : (3 : UInt8).toNat = 3 := rfl
      omega
    · have : (2 : UInt8).toNat = 2 := rfl
      omega
  obtain ⟨data,hdata⟩ := readCoeffs_returns _ hcoeffs
  refine Exec.Returns.bind (hdata ▸ .ok _) fun _ _ => .ok _

theorem fromBytes_returns {b : Bytes} (h : ¬CutBiquad b) : (fromBytes b).Returns := by
  cases b with
  | nil => exact .error _
  | cons id rest =>
    by_cases h30 : id = 0x30
    · subst h30
      refine fromBytes_biquad_returns ?_
      by_contra hlen
      exact h ⟨rest,rfl,by omega,by omega⟩
    unfold fromBytes
    simp only [tryGetU8_cons,bind,Except.bind]
    split
    · exact (Addr.read_returns guess_cases).bind fun _ _ => (tryGetU8_returns _).bind fun _ _ => .ok _
    · exact (tryGetU16_returns _).bind fun _ _ => .ok _
    · exact (tryGetU16_returns _).bind fun _ _ => (tryGetU8_returns _).bind fun _ _ => .ok _
    · exact .ok _
    · exact (tryGetU8_returns _).bind fun _ _ => .ok _
    · exact .ok _
    · exact (Addr.read_returns guess_cases).bind fun _ _ => (Value.fromBytes_returns _).bind fun _ _ => .ok _
    · exact (tryGetU16_returns _).bind fun _ _ => (tryGetU8_returns _).bind fun _ _ => .ok _
    · exact (tryGetU8_returns _).bind fun _ _ => .ok _
    · exact (Addr.read_returns guess_cases).bind fun _ _ => .ok _
    · exact (tryGetU8_returns _).bind fun _ _ => (tryGetU8_returns _).bind fun _ _ => .ok _
    · exact .ok _
    · exact (Addr.read_returns (Or.inl rfl)).bind fun _ _ => (tryGetU8_returns _).bind fun _ _ =>
        (tryGetU8_returns _).bind fun _ _ => .ok _
    · exact absurd rfl h30
    · exact (tryGetU8_returns _).bind fun _ _ => .ok _
    · exact (tryGetU8_returns _).bind fun _ _ => .ok _
    · exact (tryGetU8_returns _).bind fun _ _ => .ok _
    · exact .ok _
    · exact (tryGetU8_returns _).bind fun _ _ => .ok _
    · exact .ok _

/-- The copies of a cut biquad run past its end. -/
theorem fromBytes_cutBiquad {b : Bytes} (h : CutBiquad b) :
    ∃ p, fromBytes b = .error (.panic p) := by
  obtain ⟨rest,rfl,h4,h24⟩ := h
  match rest, h4, h24 with
  | x :: y :: hi :: lo :: coeffs, _, h24 =>
    have hcoeffs : coeffs.length < 4*5 := by
      simp only [List.length_cons] at h24
      omega
    have hguess : ¬24 < (x :: y :: hi :: lo :: coeffs).length := by omega
    obtain ⟨p,hp⟩ := readCoeffs_panics hcoeffs
    refine ⟨p,?_⟩
    simp only [fromBytes,tryGetU8_cons,bind,Except.bind,hguess,if_false,Addr.read,if_true,
      Addr.readU16,tryGetU16_cons,pure,Except.pure,hp]

theorem fromBytes_returns_iff (b : Bytes) : (fromBytes b).Returns ↔ ¬CutBiquad b := by
  refine ⟨fun hb hcut => ?_,fromBytes_returns⟩
  obtain ⟨p,hp⟩ := fromBytes_cutBiquad hcut
  exact hb p hp

def cmdId : Commands → UInt8
  | .readHardwareId => 0x31
  | .readFloats .. => 0x14
  | .writeMemory .. => 0x04
  | .readMemory .. => 0x05
  | .setConfig .. => 0x25
  | .setSource _ => 0x34
  | .setMute _ => 0x17
  | .setVolume _ => 0x42
  | .writeBiquad .. => 0x30
  | .writeBiquadBypass .. => 0x19
  | .read .. => 0x02
  | .write .. => 0x13
  | .firLoadStart _ => 0x39
  | .firLoadData .. => 0x3a
  | .firLoadEnd => 0x3b
  | .diracBypass _ => 0x3f
  | .bulkLoad _ => 0x12
  | .bulkLoadFilterData _ => 0x06
  | .unk07 _ => 0x07
  | .switchMux .. => 0x29
  | .unknown cmdId _ => cmdId

theorem fromBytes_cmdId (id : UInt8) (rest : Bytes) :
    (fromBytes (id :: rest)).Yields fun c => c.cmdId = id := by
  unfold fromBytes
  simp only [tryGetU8_cons]
  refine .bind fun r hr => ?_
  obtain rfl : (id,rest) = r := Except.ok.inj hr
  dsimp only
  split
  · exact .bind fun _ _ => .bind fun _ _ => .ok rfl
  · exact .bind fun _ _ => .ok rfl
  · exact .bind fun _ _ => .bind fun _ _ => .ok rfl
  · exact .ok rfl
  · exact .bind fun _ _ => .ok rfl
  · exact .ok rfl
  · exact .bind fun _ _ => .bind fun _ _ => .ok rfl
  · exact .bind fun _ _ => .bind fun _ _ => .ok rfl
  · exact .bind fun _ _ => .ok rfl
  · exact .bind fun _ _ => .ok rfl
  · exact .bind fun _ _ => .bind fun _ _ => .ok rfl
  · exact .ok rfl
  · exact .bind fun _ _ => .bind fun _ _ => .bind fun _ _ => .ok rfl
  · exact .bind fun _ _ => .bind fun _ _ => .bind fun _ _ => .ok rfl
  · exact .bind fun _ _ => .ok rfl
  · exact .bind fun _ _ => .ok rfl
  · exact .bind fun _ _ => .ok rfl
  · exact .ok rfl
  · exact .bind fun _ _ => .ok rfl
  · exact .ok rfl

end Commands

/-- The response parser gets through every byte string. -/
theorem Responses.fromBytes_returns (b : Bytes) : (Responses.fromBytes b).Returns := by
  by_cases hcut : Truncated b
  · obtain ⟨e,he⟩ := fromBytes_truncated hcut
    exact he ▸ .error _
  · obtain ⟨r,hr⟩ := fromBytes_whole hcut
    exact hr ▸ .ok _

end Minidsp
