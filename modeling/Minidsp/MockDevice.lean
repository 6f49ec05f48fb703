import Minidsp.Decoder
import Minidsp.Device
import Minidsp.Transport

/-! The mock device behind the mock transport, fed with frames. -/
namespace Minidsp

open Buffer

/-- The EEPROM and the DSP settings have an entry for every 16-bit address. -/
structure MockDevice where
  hwId : UInt8
  firmwareVersion : UInt8 × UInt8
  spec : Device
  eeprom : Vector UInt8 65536
  settings : Vector UInt32 65536

namespace MockDevice

/-- A level of -10 dB, which every read of the DSP is answered with. -/
def readLevel : FixedPoint := ⟨0x00287A26⟩

def writeEepromU8 (dev : MockDevice) (addr : UInt16) (value : UInt8) : MockDevice :=
  { dev with eeprom := dev.eeprom.set addr.toNat value addr.toNat_lt }

/-- Unchecked: copy `data` over the entries from `start` on. -/
def splice {ε α : Type} {n : ℕ} (dst : Vector α n) (start : ℕ) (data : List α) :
    Exec ε (Vector α n) :=
  if start + data.length ≤ n then
    .ok (.ofFn fun i => ((if start ≤ i.val then data[i.val-start]? else none).getD dst[i]))
  else .error (.panic (.slice (start + data.length) n))

/-- `BytesMut::resize`: cut, or filled up with a byte. -/
def resize (data : Bytes) (size : ℕ) (fill : UInt8) : Bytes :=
  data.take size ++ List.replicate (size - data.length) fill

def execute (dev : MockDevice) : Commands → Exec MiniDSPError (MockDevice × Responses)
  | .readHardwareId =>
    return (dev,.hardwareId ⟨dev.firmwareVersion.1,dev.firmwareVersion.2,dev.hwId⟩)
  | .readMemory addr size => do
    let effectiveSize :=
      if 65536 < addr.toNat + size.toNat then 65535 - addr.toNat else size.toNat
    let data ← slice dev.eeprom.toList addr.toNat (addr.toNat + effectiveSize)
    return (dev,.memoryData ⟨addr,resize data size.toNat 0xFF⟩)
  | .writeMemory addr data => do
    let eeprom ← splice dev.eeprom addr.toNat data
    return ({ dev with eeprom },.ack)
  | .readFloats addr len => do
    let data ← slice dev.settings.toList addr.toNat (addr.toNat + len.toNat)
    return (dev,.floatData ⟨addr,data⟩)
  | .write addr value =>
    match value.intoBytes with
    | [a,b,c,d] =>
      if h : addr.val.toNat < 65536 then
        return ({ dev with settings := dev.settings.set addr.val.toNat (u32OfLe a b c d) h },.ack)
      else .error (.panic (.index addr.val.toNat 65536))
    | _ => return (dev,.ack)
  | .setConfig config _ => return (dev.writeEepromU8 Eeprom.preset config,.configChanged)
  | .setSource source => return (dev.writeEepromU8 Eeprom.source source,.ack)
  | .setMute value => return (dev.writeEepromU8 Eeprom.mute (Commands.boolByte value),.ack)
  | .setVolume value => return (dev.writeEepromU8 Eeprom.masterVolume value.toU8,.ack)
  | .firLoadStart _ => return (dev,.firLoadSize dev.spec.firMaxTaps)
  | .unk07 _ => return (dev,.unk02)
  | .read addr _ => return (dev,.read addr [.fixedPoint readLevel])
  | _ => return (dev,.ack)

/-- The sending half of the transport: a command that does not parse is passed on as unknown,
with the first byte of what was in the frame as its id. -/
def accept (cmd : Bytes) : Exec MiniDSPError Commands := do
  let unframed ← Exec.unwrap (Packet.unframe cmd)
  match Commands.fromBytes unframed with
  | .ok c => return c
  | .error (.error _) => do
    let (cmdId,payload) ← getU8 unframed
    return .unknown cmdId payload
  | .error (.panic p) => .error (.panic p)

def answer (dev : MockDevice) (cmd : Commands) : Exec MiniDSPError (MockDevice × Bytes) := do
  let (dev,response) ← dev.execute cmd
  let packet ← Exec.ofPanic response.toBytes
  return (dev,Packet.frame packet)

def serve (dev : MockDevice) (cmd : Bytes) : Exec MiniDSPError (MockDevice × Bytes) := do
  let cmd ← accept cmd
  dev.answer cmd

def InRange : Commands → Prop
  | .writeMemory addr data => addr.toNat + data.length ≤ 65536
  | .readFloats addr len => addr.toNat + len.toNat ≤ 65536
  | .write addr value => value.intoBytes.length = 4 → addr.val.toNat < 65536
  | .read addr _ => addr.len = 2 ∨ addr.len = 3
  | _ => True

theorem write_returns {addr : Addr} (h : addr.len = 2 ∨ addr.len = 3) : ∃ b, addr.write = .ok b := by
  rcases h with h | h <;> simp [Addr.write,h]

theorem answer_returns {dev : MockDevice} (cmd : Commands) (h : InRange cmd) :
    (dev.answer cmd).Returns := by
  cases cmd with
  | readMemory addr size =>
    have haddr := addr.toNat_lt
    have hstop : addr.toNat + (if 65536 < addr.toNat + size.toNat then 65535 - addr.toNat
        else size.toNat) ≤ dev.eeprom.toList.length := by
      simp only [Vector.length_toList]
      split_ifs <;> omega
    simp only [answer,execute,slice_ok (Nat.le_add_right _ _) hstop]
    exact .ok _
  | writeMemory addr data =>
    have hlen : addr.toNat + data.length ≤ 65536 := h
    simp only [answer,execute,splice,hlen,if_true]
    exact .ok _
  | readFloats addr len =>
    have hstop : addr.toNat + len.toNat ≤ dev.settings.toList.length := by
      rw [Vector.length_toList]
      exact h
    simp only [answer,execute,slice_ok (Nat.le_add_right _ _) hstop]
    exact .ok _
  | write addr value =>
    simp only [answer,execute]
    split
    · rename_i a b c d hbytes
      have hlt : addr.val.toNat < 65536 := h (by rw [hbytes]; rfl)
      simp only [hlt,dif_pos]
      exact .ok _
    · exact .ok _
  | read addr len =>
    obtain ⟨b,hb⟩ := write_returns h
    have hpacket : (Responses.read addr [.fixedPoint readLevel]).toBytes =
        .ok (0x02 :: (b ++ [Value.fixedPoint readLevel].flatMap Value.intoBytes)) := by
      simp only [Responses.toBytes,hb]
      rfl
    simp only [answer,execute,pure,Except.pure,bind,Except.bind,hpacket]
    exact .ok _
  | _ => exact .ok _

/-- A memory write or a float read that runs past the last address, or a value stored past it. -/
def Overruns (b : Bytes) : Prop :=
  (∃ hi lo data, b = 0x04 :: hi :: lo :: data ∧ 65536 < (u16Of hi lo).toNat + data.length) ∨
  (∃ hi lo len rest, b = 0x14 :: hi :: lo :: len :: rest ∧
    65536 < (u16Of hi lo).toNat + len.toNat) ∨
  (∃ x y z value, b = 0x13 :: x :: y :: z :: value ∧ value.length = 4 ∧ x &&& 0x0F ≠ 0)

theorem answer_writeMemory_panics (dev : MockDevice) {addr : UInt16} {data : Bytes}
    (h : 65536 < addr.toNat + data.length) : ¬(dev.answer (.writeMemory addr data)).Returns := by
  have hlen : ¬addr.toNat + data.length ≤ 65536 := by omega
  simp only [answer,execute,splice,hlen,if_false]
  exact Exec.not_returns_panic _

theorem answer_readFloats_panics (dev : MockDevice) {addr : UInt16} {len : UInt8}
    (h : 65536 < addr.toNat + len.toNat) : ¬(dev.answer (.readFloats addr len)).Returns := by
  have hstop : dev.settings.toList.length < addr.toNat + len.toNat := by
    rw [Vector.length_toList]
    exact h
  simp only [answer,execute,slice_panics hstop]
  exact Exec.not_returns_panic _

theorem answer_write_panics (dev : MockDevice) {addr : Addr} {value : Value}
    (hv : value.intoBytes.length = 4) (h : 65536 ≤ addr.val.toNat) :
    ¬(dev.answer (.write addr value)).Returns := by
  have hlt : ¬addr.val.toNat < 65536 := by omega
  obtain ⟨a,b,c,d,hbytes⟩ : ∃ a b c d, value.intoBytes = [a,b,c,d] := by
    match value.intoBytes, hv with
    | [a,b,c,d], _ => exact ⟨a,b,c,d,rfl⟩
  simp only [answer,execute,hbytes,hlt,dif_neg,not_false_eq_true]
  exact Exec.not_returns_panic _

theorem writeMemory_inRange {rest data : Bytes} {addr : UInt16} (h : ¬Overruns (0x04 :: rest))
    (hc : Commands.fromBytes (0x04 :: rest) = .ok (.writeMemory addr data)) :
    InRange (.writeMemory addr data) := by
  match rest, hc, h with
  | [], hc, _ => cases hc
  | [_], hc, _ => cases hc
  | hi :: lo :: data', hc, h =>
    obtain ⟨rfl,rfl⟩ := Commands.writeMemory.inj (Except.ok.inj hc)
    by_contra hlen
    exact h (Or.inl ⟨hi,lo,data',rfl,by simpa [InRange] using hlen⟩)

theorem readFloats_inRange {rest : Bytes} {addr : UInt16} {len : UInt8}
    (h : ¬Overruns (0x14 :: rest))
    (hc : Commands.fromBytes (0x14 :: rest) = .ok (.readFloats addr len)) :
    InRange (.readFloats addr len) := by
  match rest, hc, h with
  | [], hc, _ => cases hc
  | [_], hc, _ => cases hc
  | [_,_], hc, _ => cases hc
  | hi :: lo :: n :: rest', hc, h =>
    obtain ⟨rfl,rfl⟩ := Commands.readFloats.inj (Except.ok.inj hc)
    by_contra hlen
    exact h (Or.inr (Or.inl ⟨hi,lo,n,rest',rfl,by simpa [InRange] using hlen⟩))

theorem write_inRange {rest : Bytes} {addr : Addr} {value : Value} (h : ¬Overruns (0x13 :: rest))
    (hc : Commands.fromBytes (0x13 :: rest) = .ok (.write addr value)) :
    InRange (.write addr value) := by
  obtain ⟨a,v,hcv,hread⟩ := Commands.fromBytes_write rest _ hc
  obtain ⟨rfl,rfl⟩ := Commands.write.inj hcv
  intro hv
  obtain ⟨hval2,hval3⟩ := Addr.read_val hread
  by_cases h7 : 7 ≤ rest.length
  · obtain ⟨x,y,z,rfl,hval⟩ := hval3 (if_pos h7)
    have hx : x &&& 0x0F = 0 := by
      by_contra hx
      exact h (Or.inr (Or.inr ⟨x,y,z,_,rfl,hv,hx⟩))
    have hw := (u16Of y z).toNat_lt
    rw [hval,hx]
    simpa using hw
  · have := hval2 (if_neg h7)
    omega

theorem read_inRange (rest : Bytes) : (Commands.fromBytes (0x02 :: rest)).Yields InRange := by
  have heq : Commands.fromBytes (0x02 :: rest) = do
      let r ← Addr.read rest (if 3 ≤ rest.length then 3 else 2)
      let s ← tryGetU8 r.2
      return .read r.1 s.1 := rfl
  rw [heq]
  refine .bind fun r hr => .bind fun s hs => .ok ?_
  obtain ⟨hrlen,-⟩ := Addr.read_ok hr
  rw [InRange,hrlen]
  exact Commands.guess_cases

/-- The parsed command leaves the memory exactly on the packets that overrun it. -/
theorem inRange_of_not_overruns {b : Bytes} (h : ¬Overruns b) :
    (Commands.fromBytes b).Yields InRange := by
  intro c hc
  cases b with
  | nil => cases hc
  | cons id rest =>
    have hid := Commands.fromBytes_cmdId id rest c hc
    cases c with
    | writeMemory addr data =>
      obtain rfl : 0x04 = id := hid
      exact writeMemory_inRange h hc
    | readFloats addr len =>
      obtain rfl : 0x14 = id := hid
      exact readFloats_inRange h hc
    | write addr value =>
      obtain rfl : 0x13 = id := hid
      exact write_inRange h hc
    | read addr len =>
      obtain rfl : 0x02 = id := hid
      exact read_inRange rest _ hc
    | _ => trivial

theorem accept_parsed {frame b : Bytes} {c : Commands} (hb : Packet.unframe frame = .ok b)
    (hc : Commands.fromBytes b = .ok c) : accept frame = .ok c := by
  simp only [accept,hb,Exec.unwrap,bind,Except.bind,hc]
  rfl

theorem serve_refused (dev : MockDevice) {frame : Bytes} {p : Panic}
    (h : accept frame = .error (.panic p)) : ¬(dev.serve frame).Returns := by
  rw [serve,h]
  exact Exec.not_returns_panic _

theorem serve_empty_panics (dev : MockDevice) {frame : Bytes}
    (hb : Packet.unframe frame = .ok []) : ¬(dev.serve frame).Returns := by
  refine dev.serve_refused (p := .index 0 0) ?_
  simp only [accept,hb,Exec.unwrap,bind,Except.bind]
  rfl

theorem serve_cutBiquad_panics (dev : MockDevice) {frame b : Bytes}
    (hb : Packet.unframe frame = .ok b) (hcut : Commands.CutBiquad b) :
    ¬(dev.serve frame).Returns := by
  obtain ⟨p,hp⟩ := Commands.fromBytes_cutBiquad hcut
  refine dev.serve_refused (p := p) ?_
  simp only [accept,hb,Exec.unwrap,bind,Except.bind,hp]

theorem serve_overrun_panics (dev : MockDevice) {frame b : Bytes}
    (hb : Packet.unframe frame = .ok b) (h : Overruns b) : ¬(dev.serve frame).Returns := by
  rcases h with ⟨hi,lo,data,rfl,hlen⟩ | ⟨hi,lo,len,rest,rfl,hlen⟩ | ⟨x,y,z,value,rfl,hv,hx⟩
  · have haccept : accept frame = .ok (.writeMemory (u16Of hi lo) data) := accept_parsed hb rfl
    simp only [serve,haccept]
    exact answer_writeMemory_panics dev hlen
  · have haccept : accept frame = .ok (.readFloats (u16Of hi lo) len) := accept_parsed hb rfl
    simp only [serve,haccept]
    exact answer_readFloats_panics dev hlen
  · obtain ⟨addr,v,hc,hbytes,hval⟩ :=
      Commands.fromBytes_wideWrite (x := x) (y := y) (z := z) hv
    have hpos : (x &&& 0x0F).toNat ≠ 0 := fun h0 => hx (UInt8.toNat_inj.mp h0)
    simp only [serve,accept_parsed hb hc]
    refine answer_write_panics dev ?_ ?_
    · rw [hbytes]
      exact hv
    · omega

/-- The frames the mock gets through. -/
theorem serve_returns_iff (dev : MockDevice) {frame b : Bytes}
    (hb : Packet.unframe frame = .ok b) :
    (dev.serve frame).Returns ↔ b ≠ [] ∧ ¬Commands.CutBiquad b ∧ ¬Overruns b := by
  constructor
  · intro hserve
    refine ⟨?_,fun hcut => dev.serve_cutBiquad_panics hb hcut hserve,
      fun h => dev.serve_overrun_panics hb h hserve⟩
    rintro rfl
    exact dev.serve_empty_panics hb hserve
  · rintro ⟨hne,hcut,hrange⟩
    obtain ⟨x,rest,rfl⟩ := List.exists_cons_of_ne_nil hne
    cases hc : Commands.fromBytes (x :: rest) with
    | ok c =>
      simp only [serve,accept_parsed hb hc]
      exact answer_returns c (inRange_of_not_overruns hrange c hc)
    | error e =>
      cases e with
      | error e =>
        have haccept : accept frame = .ok (.unknown x rest) := by
          simp only [accept,hb,Exec.unwrap,bind,Except.bind,hc]
          rfl
        simp only [serve,haccept]
        exact answer_returns (.unknown x rest) trivial
      | panic p => exact absurd hc (Commands.fromBytes_returns hcut p)

end MockDevice

def Harmless (d : Decoder) (dev : MockDevice) (b : Bytes) : Prop :=
  (Commands.fromBytes b).Returns ∧ (Responses.fromBytes b).Returns ∧
    ∀ frame, Packet.unframe frame = .ok b →
      (d.feedSent frame).Returns ∧ (d.feedRecv frame).Returns ∧ (dev.serve frame).Returns

/-- A biquad cut within its coefficients crashes all of them. A packet short enough for a frame
crashes the decoder if it writes no value, and the mock if it is empty or leaves the memory. -/
theorem harmless_iff (d : Decoder) (dev : MockDevice) (b : Bytes) :
    Harmless d dev b ↔ ¬Commands.CutBiquad b ∧
      (b.length ≤ 254 → ¬Commands.EmptyWrite b ∧ b ≠ [] ∧ ¬MockDevice.Overruns b) := by
  constructor
  · rintro ⟨hparse,-,hframes⟩
    refine ⟨(Commands.fromBytes_returns_iff b).mp hparse,fun hlen => ?_⟩
    have hb := Packet.unframe_frame hlen []
    obtain ⟨hsent,hrecv,hserve⟩ := hframes _ hb
    obtain ⟨-,hempty⟩ := (d.feed_returns_iff hb).mp ⟨hsent,hrecv⟩
    obtain ⟨hne,-,hrange⟩ := (dev.serve_returns_iff hb).mp hserve
    exact ⟨hempty,hne,hrange⟩
  · rintro ⟨hcut,hframed⟩
    refine ⟨Commands.fromBytes_returns hcut,Responses.fromBytes_returns b,fun frame hb => ?_⟩
    obtain ⟨hempty,hne,hrange⟩ := hframed (Packet.unframe_length hb)
    obtain ⟨hsent,hrecv⟩ := (d.feed_returns_iff hb).mpr ⟨hcut,hempty⟩
    exact ⟨hsent,hrecv,(dev.serve_returns_iff hb).mpr ⟨hne,hcut,hrange⟩⟩

/-- A biquad with the two bytes of its address, two zeros, and nothing after them. -/
theorem cut_biquad_crashes :
    (∃ p, Commands.fromBytes [0x30,0x80,0x10,0x00,0x00] = .error (.panic p)) ∧
      Packet.unframe [0x06,0x30,0x80,0x10,0x00,0x00,0xc6] = .ok [0x30,0x80,0x10,0x00,0x00] ∧
      ∀ d dev, ¬Harmless d dev [0x30,0x80,0x10,0x00,0x00] := by
  have hcut : Commands.CutBiquad [0x30,0x80,0x10,0x00,0x00] :=
    ⟨_,rfl,by decide,by decide⟩
  refine ⟨Commands.fromBytes_cutBiquad hcut,rfl,fun d dev h => ?_⟩
  exact (Commands.fromBytes_returns_iff _).mp h.1 hcut

end Minidsp
