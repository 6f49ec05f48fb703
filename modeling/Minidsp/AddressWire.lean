import Minidsp.Commands

/-! Commands that carry an address, from the encoder back through the decoder. The width
of the address is not on the wire; the decoder guesses it per command from the length of
what is left of the frame, and two of its guesses are wrong. -/
namespace Minidsp
namespace Commands

open Buffer

/-- The commands with an address that fits its width and four-byte values. -/
def CarriesAddr : Commands → Prop
  | .read addr _ => addr.OnWire
  | .write addr value => addr.OnWire ∧ value.intoBytes.length = 4
  | .writeBiquad addr data => addr.OnWire ∧ ∀ v ∈ data.toList, v.intoBytes.length = 4
  | .writeBiquadBypass addr _ => addr.OnWire
  | .switchMux addr max _ _ => addr.OnWire ∧ max < 0x80
  | _ => False

/-- The same constructor with the same address, payload bytes and scalars. A bypass is sent
in the extra bit of its address. -/
def SameContents : Commands → Commands → Prop
  | .read addr len, .read addr' len' => addr' = addr ∧ len' = len
  | .write addr value, .write addr' value' => addr' = addr ∧ value'.intoBytes = value.intoBytes
  | .writeBiquad addr data, .writeBiquad addr' data' =>
    addr' = addr ∧ data'.toList.map Value.intoBytes = data.toList.map Value.intoBytes
  | .writeBiquadBypass addr value, .writeBiquadBypass addr' value' =>
    addr' = { addr with extraBit := value } ∧ value' = value
  | .switchMux addr max arg slot, .switchMux addr' max' arg' slot' =>
    addr' = addr ∧ max' = max ∧ arg' = arg ∧ slot' = slot
  | _, _ => False

/-- Decoding the encoded command succeeds and gives the same contents. -/
def Survives (c : Commands) : Prop :=
  ∃ b c', c.toBytes = .ok b ∧ fromBytes b = .ok c' ∧ SameContents c c'

/-- The decoder's guess of the address width is the width that was sent. -/
def WidthGuessed : Commands → Prop
  | .read addr _ => addr.len ≠ 2
  | .switchMux addr .. => addr.len ≠ 3
  | _ => True

theorem readCoeffs_flatMap {n : ℕ} (data : Vector Value n)
    (h4 : ∀ v ∈ data.toList, v.intoBytes.length = 4) (rest : Bytes) :
    readCoeffs n (data.toList.flatMap Value.intoBytes ++ rest) =
      .ok (data.map fun v => .unknown v.intoBytes,rest) := by
  induction n generalizing rest with
  | zero => simp [readCoeffs,Vector.eq_empty]
  | succ n ih =>
    have hp := Vector.push_pop_back data
    rw [← hp] at h4 ⊢
    generalize data.pop = front at h4 ⊢
    generalize data.back = coeff at h4 ⊢
    simp only [Vector.toList_push,List.mem_append,List.mem_singleton] at h4
    have hc : coeff.intoBytes.length = 4 := h4 coeff (Or.inr rfl)
    have hs := splitTo_append (ε := ProtocolError) coeff.intoBytes rest
    rw [hc] at hs
    simp only [readCoeffs,Vector.toList_push,List.flatMap_append,List.flatMap_singleton,
      List.append_assoc,ih front (fun v hv => h4 v (Or.inl hv)),bind,Except.bind,hs,
      Vector.map_push,pure,Except.pure]

theorem read_survives {addr : Addr} {len : UInt8} (h : addr.OnWire) (hl : addr.len ≠ 2) :
    Survives (.read addr len) := by
  have h3 : addr.len = 3 := by
    rcases h with h | h
    · exact absurd h.1 hl
    · exact h.1
  obtain ⟨b,hb,hlen,hread⟩ := Addr.exists_write h ProtocolError
  have hguess : (if 3 ≤ (b ++ [len]).length then 3 else 2) = addr.len := by simp [hlen,h3]
  refine ⟨0x02 :: (b ++ [len]),.read addr len,?_,?_,rfl,rfl⟩
  · simp only [toBytes,hb]
    rfl
  · simp only [fromBytes,tryGetU8_cons,bind,Except.bind,hguess,hread]
    rfl

theorem write_survives {addr : Addr} {value : Value} (h : addr.OnWire)
    (hv : value.intoBytes.length = 4) : Survives (.write addr value) := by
  obtain ⟨b,hb,hlen,hread⟩ := Addr.exists_write h ProtocolError
  have hguess : (if 7 ≤ (b ++ value.intoBytes).length then 3 else 2) = addr.len := by
    rcases h with h | h <;> simp [hlen,hv,h.1]
  obtain ⟨value',hvalue,hbytes⟩ := Value.fromBytes_ok (ε := ProtocolError) value.intoBytes
  refine ⟨0x13 :: (b ++ value.intoBytes),.write addr value',?_,?_,rfl,hbytes⟩
  · simp only [toBytes,hb]
    rfl
  · simp only [fromBytes,tryGetU8_cons,bind,Except.bind,hguess,hread,hvalue]
    rfl

theorem writeBiquad_survives {addr : Addr} {data : Vector Value 5} (h : addr.OnWire)
    (hv : ∀ v ∈ data.toList, v.intoBytes.length = 4) : Survives (.writeBiquad addr data) := by
  obtain ⟨b,hb,hlen,hread⟩ := Addr.exists_write h ProtocolError
  have hcoeffs : (data.toList.flatMap Value.intoBytes).length = 20 := by
    rw [List.length_flatMap,List.map_congr_left hv]
    simp
  have hguess : (if 24 < (b ++ (putU16 0 ++ data.toList.flatMap Value.intoBytes)).length
      then 3 else 2) = addr.len := by
    rcases h with h | h <;> simp [hlen,hcoeffs,h.1]
  have hdata := readCoeffs_flatMap data hv []
  rw [List.append_nil] at hdata
  refine ⟨0x30 :: (b ++ (putU16 0 ++ data.toList.flatMap Value.intoBytes)),
    .writeBiquad addr (data.map fun v => .unknown v.intoBytes),?_,?_,rfl,?_⟩
  · simp only [toBytes,hb]
    rfl
  · simp only [fromBytes,tryGetU8_cons,bind,Except.bind,hguess,hread,tryGetU16_put,hdata]
    rfl
  · rw [Vector.toList_map,List.map_map]
    rfl

theorem writeBiquadBypass_survives {addr : Addr} {value : Bool} (h : addr.OnWire) :
    Survives (.writeBiquadBypass addr value) := by
  have h' : ({ addr with extraBit := value } : Addr).OnWire := h
  obtain ⟨b,hb,hlen,hread⟩ := Addr.exists_write h' ProtocolError
  have hguess : (if 2 < b.length then 3 else 2) = addr.len := by
    rcases h with h | h <;> simp [hlen,h.1]
  have hread' := hread []
  rw [List.append_nil] at hread'
  refine ⟨0x19 :: b,.writeBiquadBypass { addr with extraBit := value } value,?_,?_,rfl,rfl⟩
  · simp only [toBytes,hb]
    rfl
  · simp only [fromBytes,tryGetU8_cons,bind,Except.bind,hguess,hread']
    rfl

theorem muxByte {max : UInt8} (h : max < 0x80) (arg : Bool) :
    (((if arg then max ||| 0x80 else max) &&& 0x80) != 0) = arg ∧
      (if arg then (if arg then max ||| 0x80 else max) ^^^ 0x80
        else if arg then max ||| 0x80 else max) = max := by
  have hlt : max.toNat < 2^7 := h
  have hor : (max ||| 0x80).toNat = 2^7 ||| max.toNat := by
    rw [UInt8.toNat_or]
    exact Nat.lor_comm _ _
  constructor
  · apply bne_zero_u8 (n := 7)
    have hand := flag_and hlt arg
    cases arg
    · rw [← hand]
      exact (UInt8.toNat_and _ _).trans (by simp)
    · rw [← hand]
      refine (UInt8.toNat_and _ _).trans ?_
      rw [if_pos rfl,hor,or_two_pow hlt]
      rfl
  · cases arg
    · rfl
    · apply UInt8.toNat_inj.mp
      refine (UInt8.toNat_xor _ _).trans ?_
      rw [if_pos rfl,hor]
      exact or_xor_two_pow hlt

theorem switchMux_survives {addr : Addr} {max slot : UInt8} {arg : Bool} (h : addr.OnWire)
    (hm : max < 0x80) (hl : addr.len ≠ 3) : Survives (.switchMux addr max arg slot) := by
  have h2 : addr.len = 2 := by
    rcases h with h | h
    · exact h.1
    · exact absurd h.1 hl
  obtain ⟨b,hb,hlen,hread⟩ := Addr.exists_write h ProtocolError
  obtain ⟨harg,hmax⟩ := muxByte hm arg
  rw [h2] at hread
  refine ⟨0x29 :: (b ++ [if arg then max ||| 0x80 else max,slot]),.switchMux addr max arg slot,
    ?_,?_,rfl,rfl,rfl,rfl⟩
  · simp only [toBytes,hb]
    rfl
  · simp only [fromBytes,tryGetU8_cons,bind,Except.bind,hread,harg,hmax]
    rfl

/-- A two-byte address swallows the length byte after it, and no length is left. -/
theorem not_read_survives {addr : Addr} {len : UInt8} (h : addr.OnWire) (hl : addr.len = 2) :
    ¬Survives (.read addr len) := by
  obtain ⟨b,hb,hlen,-⟩ := Addr.exists_write h ProtocolError
  rw [hl] at hlen
  obtain ⟨x,y,rfl⟩ := List.length_eq_two.mp hlen
  rintro ⟨wire,c',hwire,hc',-⟩
  simp only [toBytes,hb] at hwire
  obtain rfl : 0x02 :: ([x,y] ++ [len]) = wire := Except.ok.inj hwire
  have hfail : fromBytes (0x02 :: ([x,y] ++ [len])) =
      .error (.error (.decodeError ⟨1,0⟩)) := rfl
  rw [hfail] at hc'
  cases hc'

/-- A three-byte address of a mux is read back as two bytes. -/
theorem not_switchMux_survives {addr : Addr} {max slot : UInt8} {arg : Bool} (h : addr.OnWire)
    (hl : addr.len = 3) : ¬Survives (.switchMux addr max arg slot) := by
  obtain ⟨b,hb,hlen,-⟩ := Addr.exists_write h ProtocolError
  rw [hl] at hlen
  obtain ⟨x,y,z,rfl⟩ := List.length_eq_three.mp hlen
  rintro ⟨wire,c',hwire,hc',hsame⟩
  simp only [toBytes,hb] at hwire
  obtain rfl : 0x29 :: ([x,y,z] ++ [if arg then max ||| 0x80 else max,slot]) = wire :=
    Except.ok.inj hwire
  simp only [fromBytes,tryGetU8_cons,bind,Except.bind,Addr.read,if_true,Addr.readU16,
    List.cons_append,tryGetU16_cons,List.nil_append,pure,Except.pure,Except.ok.injEq] at hc'
  subst hc'
  have hlen' : (2 : UInt8) = addr.len := congrArg Addr.len hsame.1
  rw [hl] at hlen'
  exact absurd hlen' (by decide)

/-- Exactly the commands whose address width the decoder guesses survive the wire. -/
theorem survives_iff_widthGuessed (c : Commands) (hc : CarriesAddr c) :
    Survives c ↔ WidthGuessed c := by
  cases c with
  | read addr len =>
    constructor
    · intro hs hl
      exact not_read_survives hc hl hs
    · exact read_survives hc
  | write addr value => exact iff_of_true (write_survives hc.1 hc.2) trivial
  | writeBiquad addr data => exact iff_of_true (writeBiquad_survives hc.1 hc.2) trivial
  | writeBiquadBypass addr value => exact iff_of_true (writeBiquadBypass_survives hc) trivial
  | switchMux addr max arg slot =>
    constructor
    · intro hs hl
      exact not_switchMux_survives hc.1 hl hs
    · exact switchMux_survives hc.1 hc.2
  | _ => exact absurd hc id

theorem write_two_byte_survives :
    Survives (.write ⟨0x10,2,true⟩ (.int 2)) ↔ WidthGuessed (.write ⟨0x10,2,true⟩ (.int 2)) :=
  survives_iff_widthGuessed _ ⟨Or.inl ⟨rfl,by decide⟩,by decide⟩

/-- Reading at the two-byte address 0x10: the encoded command does not decode. -/
theorem read_two_byte_lost :
    CarriesAddr (.read ⟨0x10,2,true⟩ 3) ∧ ¬Survives (.read ⟨0x10,2,true⟩ 3) :=
  ⟨Or.inl ⟨rfl,by decide⟩,not_read_survives (Or.inl ⟨rfl,by decide⟩) rfl⟩

end Commands
end Minidsp
