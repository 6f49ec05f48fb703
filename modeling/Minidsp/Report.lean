import Minidsp.Channels
import Minidsp.FirUpload

/-! Frames in the reports of the HID link: a report has a fixed size, and a frame is padded to
it. -/
namespace Minidsp

open Buffer Dialogue

/-- `resize`: cut off, or pad. -/
def resize {α : Type} (n : ℕ) (x : α) (xs : List α) : List α :=
  xs.take n ++ List.replicate (n - xs.length) x

theorem resize_of_le {α : Type} {n : ℕ} {xs : List α} (h : xs.length ≤ n) (x : α) :
    resize n x xs = xs ++ List.replicate (n - xs.length) x := by
  rw [resize,List.take_of_length_le h]

namespace HidStream

/-- 1 byte report id and 64 bytes of data. -/
def packetSize : ℕ := 65

/-- The report of a frame, padded with 0xFF. -/
def send (frame : Bytes) : Bytes := resize packetSize 0xFF (0 :: frame)

end HidStream

namespace Packet

theorem sum_toUInt32 (data : Bytes) :
    (data.map fun x : UInt8 => x.toUInt32).sum.toNat = (data.map UInt8.toNat).sum % 2^32 := by
  induction data with
  | nil => rfl
  | cons b data ih =>
    rw [List.map_cons,List.sum_cons,List.map_cons,List.sum_cons,UInt32.toNat_add,ih,
      UInt8.toNat_toUInt32,Nat.add_mod_mod]

theorem checksum_eq (data : Bytes) : checksum data = UInt8.ofNat (data.map UInt8.toNat).sum := by
  apply UInt8.toNat_inj.mp
  rw [checksum,UInt32.toNat_toUInt8,UInt8.toNat_ofNat']
  have hmask := and_mask_toNat (data.map fun x : UInt8 => x.toUInt32).sum 8 (by omega)
  have hsum := sum_toUInt32 data
  refine (congrArg (· % 2^8) hmask).trans ?_
  omega

theorem frame_eq (p : Bytes) : frame p = (frame p).dropLast ++
    [UInt8.ofNat ((frame p).dropLast.map UInt8.toNat).sum] := by
  have hlast : (frame p).dropLast = UInt8.ofNat (p.length+1) :: p := List.dropLast_concat
  rw [hlast,← checksum_eq]
  rfl

/-- A frame that ends before its payload does is refused. -/
theorem unframe_prefix {p q : Bytes} (hp : p.length ≤ 254) (hq : q <+: frame p)
    (hlen : q.length ≤ p.length) : ∃ e, unframe q = .error e := by
  cases q with
  | nil => exact ⟨.emptyPacket,rfl⟩
  | cons b rest =>
    obtain ⟨rfl,-⟩ := List.cons_prefix_cons.mp hq
    have hshort : (UInt8.ofNat (p.length+1) :: rest).length < p.length+1 := by omega
    exact ⟨_,by rw [unframe,lengthByte_toNat hp,if_pos hshort]⟩

end Packet

/-! Sizes of commands. -/

namespace Commands

/-- The command is framed into 64 bytes at most, and the report holds the whole frame. -/
def Fits (cmd : Commands) : Prop :=
  ∃ b, cmd.toBytes = .ok b ∧ (Packet.frame b).length ≤ 64 ∧
    HidStream.send (Packet.frame b) =
      0 :: Packet.frame b ++ List.replicate (64 - (Packet.frame b).length) 0xFF

theorem fits_of_length {cmd : Commands} {b : Bytes} (h : cmd.toBytes = .ok b)
    (hlen : b.length ≤ 62) : cmd.Fits := by
  have hframe : (Packet.frame b).length ≤ 64 := by
    rw [Packet.frame_length]
    omega
  refine ⟨b,h,hframe,?_⟩
  rw [HidStream.send,resize_of_le (by rw [List.length_cons,HidStream.packetSize]; omega),
    List.length_cons,HidStream.packetSize]
  congr 2
  omega

end Commands

theorem Addr.write_length {a : Addr} (h : a.len = 2 ∨ a.len = 3) :
    ∃ b, a.write = .ok b ∧ b.length ≤ 3 := by
  rcases h with h | h
  · refine ⟨_,by rw [Addr.write,if_pos h],?_⟩
    simp
  · refine ⟨_,by rw [Addr.write,h,if_neg (by decide),if_pos rfl],?_⟩
    simp

def Value.Word (v : Value) : Prop := v.intoBytes.length = 4

namespace Dialect

variable (d : Dialect) (floats : Floats)

theorem float_word (value : F32Bits) : (d.float floats value).Word := by
  unfold float
  split <;> rfl

theorem db_word (value : ℚ) : (d.db floats value).Word := by
  unfold db
  split <;> rfl

theorem delay_word (numSamples : UInt32) : (d.delay numSamples).Word := by
  unfold delay
  split <;> rfl

theorem mute_word (mute : Bool) : (d.mute mute).Word := by
  unfold Dialect.mute
  split <;> rfl

theorem invert_word (value : Bool) : (d.invert value).Word := by
  unfold invert
  split <;> rfl

end Dialect

theorem Dialect.addr_len (d : Dialect) (value : UInt16) :
    (d.addr value).len = 2 ∨ (d.addr value).len = 3 := by
  unfold Dialect.addr Addr.new AddrEncoding.toU8
  cases d.addrEncoding <;> simp

namespace Commands

section
variable {addr : Addr} (h : addr.len = 2 ∨ addr.len = 3)
include h

theorem write_fits {v : Value} (hv : v.Word) : (write addr v).Fits := by
  obtain ⟨b,hb,hlen⟩ := Addr.write_length h
  have hv : v.intoBytes.length = 4 := hv
  refine fits_of_length (b := 0x13 :: (b ++ v.intoBytes)) ?_ ?_
  · rw [toBytes,hb]
    rfl
  · simp only [List.length_cons,List.length_append,hv]
    omega

theorem writeBiquad_fits {data : Vector Value 5} (hdata : ∀ v ∈ data.toList, v.Word) :
    (writeBiquad addr data).Fits := by
  obtain ⟨b,hb,hlen⟩ := Addr.write_length h
  have hbytes : (data.toList.flatMap Value.intoBytes).length = 20 := by
    rw [List.length_flatMap,List.map_congr_left fun v hv => hdata v hv]
    simp
  refine fits_of_length (b := 0x30 :: (b ++ (putU16 0 ++ data.toList.flatMap Value.intoBytes)))
    ?_ ?_
  · rw [toBytes,hb]
    rfl
  · simp only [List.length_cons,List.length_append,putU16_length,hbytes]
    omega

theorem writeBiquadBypass_fits (value : Bool) : (writeBiquadBypass addr value).Fits := by
  obtain ⟨b,hb,hlen⟩ := Addr.write_length (a := { addr with extraBit := value }) h
  refine fits_of_length (b := 0x19 :: b) ?_ ?_
  · rw [toBytes,hb]
    rfl
  · rw [List.length_cons]
    omega

end

theorem firLoadData_fits (index : UInt8) {data : List F32Bits} (h : data.length ≤ 14) :
    (firLoadData index data).Fits := by
  obtain ⟨b,hb,hlen,-⟩ := firLoadData_decoded index data
  exact fits_of_length hb (by omega)

theorem readMemory_fits (addr : UInt16) (size : UInt8) : (readMemory addr size).Fits :=
  fits_of_length rfl (by simp)

theorem readFloats_fits (addr : UInt16) (len : UInt8) : (readFloats addr len).Fits :=
  fits_of_length rfl (by simp)

end Commands
/-! Everything that the methods send. -/

theorem okOr_asks {α : Type} (x : Option α) (e : MiniDSPError) :
    Asks Commands.Fits (okOr x e) := by
  cases x <;> trivial

theorem expect_asks {α : Type} {cmd : Commands} (h : cmd.Fits)
    (f : Responses → Except ProtocolError α) :
    Asks Commands.Fits (Dialogue.roundtrip cmd >>= fun r => Client.expect (f r)) :=
  (Asks.roundtrip h).bind fun _ => Asks.lift _

theorem readChunks_asks (fuel : ℕ) (addrs : List UInt16) :
    Asks Commands.Fits (Client.readChunks fuel addrs) := by
  induction fuel generalizing addrs with
  | zero => trivial
  | succ fuel ih =>
    refine (Asks.lift _).bind fun x => ?_
    rcases x with ⟨_ | ⟨minAddr,rest⟩,addrs⟩
    · trivial
    · refine (Asks.lift _).bind fun _ => (Asks.lift _).bind fun _ => ?_
      refine (expect_asks (Commands.readFloats_fits _ _) _).bind fun _ => ?_
      exact (Asks.lift _).bind fun _ => (ih addrs).bind fun _ => Asks.pure _

theorem unwrap_asks {α : Type} (x : Option α) : Asks Commands.Fits (Client.unwrap x) := by
  cases x <;> trivial

theorem getDeviceInfo_asks : Asks Commands.Fits Client.getDeviceInfo := by
  have hhardware : Commands.readHardwareId.Fits := Commands.fits_of_length rfl (by simp)
  refine (Asks.roundtrip hhardware).bind fun _ => (Asks.lift _).bind fun hwId => ?_
  refine (expect_asks (Commands.readMemory_fits _ _) _).bind fun dspVersionView => ?_
  refine (expect_asks (Commands.readMemory_fits _ _) _).bind fun serialView => ?_
  refine (Asks.lift _).bind fun dspVersion => (unwrap_asks _).bind fun _ => ?_
  exact (Asks.lift _).bind fun serial => (unwrap_asks _).bind fun _ =>
    (Asks.lift _).bind fun _ => Asks.pure _

namespace MiniDSP

variable (dsp : MiniDSP) (floats : Floats)

theorem writeDsp_asks (addr : UInt16) {value : Value} (h : value.Word) :
    Asks Commands.Fits (Client.writeDsp (dsp.addr addr) value) :=
  expect_asks (Commands.write_fits (Dialect.addr_len _ _) h) _

theorem writeDspInt_asks (addr value : UInt16) :
    Asks Commands.Fits (dsp.writeDspInt addr value) :=
  have hword : (dsp.device.dialect.int value).Word := rfl
  dsp.writeDsp_asks addr hword

theorem writeDspFloat_asks (addr : UInt16) (value : F32Bits) :
    Asks Commands.Fits (dsp.writeDspFloat floats addr value) :=
  dsp.writeDsp_asks addr (Dialect.float_word _ _ _)

theorem writeDspDb_asks (addr : UInt16) (value : ℚ) :
    Asks Commands.Fits (dsp.writeDspDb floats addr value) :=
  dsp.writeDsp_asks addr (Dialect.db_word _ _ _)

theorem getMasterStatus_asks : Asks Commands.Fits dsp.getMasterStatus :=
  (expect_asks (Commands.readMemory_fits _ _) _).bind fun _ => Asks.pure _

theorem awaitConfig_asks (config : UInt8) (polls : ℕ) :
    Asks Commands.Fits (dsp.awaitConfig config polls) := by
  induction polls with
  | zero => trivial
  | succ polls ih =>
    refine dsp.getMasterStatus_asks.bind fun status => ?_
    exact (unwrap_asks _).bind fun _ => Asks.ite (Asks.pure _) ih

theorem setBiquad_asks (value : UInt16) (coefficients : List F32Bits) :
    Asks Commands.Fits (dsp.setBiquad floats (dsp.addr value) coefficients) := by
  unfold setBiquad
  split
  · rename_i b0 b1 b2 a1 a2 hcoeffs
    refine expect_asks (Commands.writeBiquad_fits (Dialect.addr_len _ _) fun v hv => ?_) _
    have hmem : v ∈ coefficients.map (dsp.device.dialect.float floats) := hcoeffs ▸ hv
    obtain ⟨x,-,rfl⟩ := List.mem_map.mp hmem
    exact Dialect.float_word _ _ _
  · exact Asks.lift _

theorem setBiquadBypass_asks (value : UInt16) (bypass : Bool) :
    Asks Commands.Fits (setBiquadBypass (dsp.addr value) bypass) :=
  expect_asks (Commands.writeBiquadBypass_fits (Dialect.addr_len _ _) _) _

theorem setCoefficients_asks (fir : Device.Fir) (coefficients : List F32Bits) :
    Asks Commands.Fits (dsp.setCoefficients fir coefficients) := by
  rw [setCoefficients_eq]
  refine dsp.getMasterStatus_asks.bind fun status => (dsp.writeDspInt_asks _ _).bind fun _ => ?_
  refine (expect_asks (Commands.fits_of_length rfl (by simp)) _).bind fun size => ?_
  refine Asks.ite (Asks.fail _) ?_
  have hblocks : ∀ block ∈ chunks 14 coefficients, Asks Commands.Fits
      (Dialogue.roundtrip (.firLoadData fir.index block) >>= fun r => Client.expect r.intoAck) :=
    fun block hb => expect_asks (Commands.firLoadData_fits _ (mem_chunks (by omega) hb).2) _
  refine (Asks.forEach hblocks).bind fun _ => ?_
  refine (expect_asks (Commands.fits_of_length rfl (by simp)) _).bind fun _ => ?_
  exact (unwrap_asks _).bind fun _ => expect_asks (Commands.fits_of_length rfl (by simp)) _

end MiniDSP

inductive Method
  | getDeviceInfo
  | getMasterStatus
  | getInputOutputLevels
  | getInputLevels
  | getOutputLevels
  | setMasterVolume (value : Gain)
  | setMasterMute (value : Bool)
  | setSource (source : Source)
  | setConfig (polls : ℕ) (config : UInt8)
  | setDirac (enabled : Bool)
  | setMute (channel : MiniDSP.Channel) (value : Bool)
  | setGain (channel : MiniDSP.Channel) (value : Gain)
  | setOutputEnable (input : Device.Input) (outputIndex : ℕ) (value : Bool)
  | setOutputGain (input : Device.Input) (outputIndex : ℕ) (gain : Gain)
  | setInvert (output : Device.Output) (value : Bool)
  | setDelay (output : Device.Output) (micros : ℕ)
  | peqClear (channel : MiniDSP.Channel) (index : ℕ)
  | peqSetCoefficients (channel : MiniDSP.Channel) (index : ℕ) (coefficients : List F32Bits)
  | peqSetBypass (channel : MiniDSP.Channel) (index : ℕ) (bypass : Bool)
  | crossoverClear (spec : Device.Crossover) (group : ℕ)
  | crossoverSetCoefficients (spec : Device.Crossover) (group index : ℕ)
      (coefficients : List F32Bits)
  | crossoverSetBypass (spec : Device.Crossover) (group : ℕ) (bypass : Bool)
  | compressorSetBypass (spec : Device.Compressor) (value : Bool)
  | compressorSetThreshold (spec : Device.Compressor) (value : F32Bits)
  | compressorSetRatio (spec : Device.Compressor) (value : F32Bits)
  | compressorSetAttack (spec : Device.Compressor) (value : F32Bits)
  | compressorSetRelease (spec : Device.Compressor) (value : F32Bits)
  | compressorGetLevel (spec : Device.Compressor)
  | firSetBypass (spec : Device.Fir) (bypass : Bool)
  | firClear (spec : Device.Fir)
  | firSetCoefficients (spec : Device.Fir) (coefficients : List F32Bits)

namespace Method

def call (floats : Floats) (dsp : MiniDSP) : Method → Call Unit
  | getDeviceInfo => do let _ ← Client.getDeviceInfo
  | getMasterStatus => do let _ ← dsp.getMasterStatus
  | getInputOutputLevels => do let _ ← dsp.getInputOutputLevels
  | getInputLevels => do let _ ← dsp.getInputLevels
  | getOutputLevels => do let _ ← dsp.getOutputLevels
  | setMasterVolume value => MiniDSP.setMasterVolume value
  | setMasterMute value => MiniDSP.setMasterMute value
  | setSource source => dsp.setSource source
  | setConfig polls config => dsp.setConfig polls config
  | setDirac enabled => MiniDSP.setDirac enabled
  | setMute channel value => dsp.setMute channel value
  | setGain channel value => dsp.setGain floats channel value
  | setOutputEnable input outputIndex value => dsp.setOutputEnable input outputIndex value
  | setOutputGain input outputIndex gain => dsp.setOutputGain floats input outputIndex gain
  | setInvert output value => dsp.setInvert output value
  | setDelay output micros => dsp.setDelay output micros
  | peqClear channel index => do dsp.clearBiquad floats (← dsp.peq channel index)
  | peqSetCoefficients channel index coefficients => do
    dsp.setBiquad floats (← dsp.peq channel index) coefficients
  | peqSetBypass channel index bypass => do
    MiniDSP.setBiquadBypass (← dsp.peq channel index) bypass
  | crossoverClear spec group => Crossover.clear dsp floats spec group
  | crossoverSetCoefficients spec group index coefficients =>
    Crossover.setCoefficients dsp floats spec group index coefficients
  | crossoverSetBypass spec group bypass => Crossover.setBypass dsp spec group bypass
  | compressorSetBypass spec value => Compressor.setBypass dsp spec value
  | compressorSetThreshold spec value => Compressor.setThreshold dsp floats spec value
  | compressorSetRatio spec value => Compressor.setRatio dsp floats spec value
  | compressorSetAttack spec value => Compressor.setAttack dsp floats spec value
  | compressorSetRelease spec value => Compressor.setRelease dsp floats spec value
  | compressorGetLevel spec => do let _ ← Compressor.getLevel spec
  | firSetBypass spec bypass => Fir.setBypass dsp spec bypass
  | firClear spec => Fir.clear dsp spec
  | firSetCoefficients spec coefficients => dsp.setCoefficients spec coefficients

theorem short_asks {α : Type} {cmd : Commands} {b : Bytes} (h : cmd.toBytes = .ok b)
    (hlen : b.length ≤ 62) (f : Responses → Except ProtocolError α) :
    Asks Commands.Fits (Dialogue.roundtrip cmd >>= fun r => Client.expect (f r)) :=
  expect_asks (Commands.fits_of_length h hlen) f

theorem peq_asks (dsp : MiniDSP) (channel : MiniDSP.Channel) (index : ℕ)
    {f : Addr → Call Unit} (h : ∀ value, Asks Commands.Fits (f (dsp.addr value))) :
    Asks Commands.Fits (dsp.peq channel index >>= f) := by
  unfold MiniDSP.peq
  simp only [bind_assoc,pure_bind]
  exact (okOr_asks _ _).bind h

/-- Whatever a method is given, and whatever the device answers. -/
theorem call_asks (floats : Floats) (dsp : MiniDSP) (m : Method) :
    Asks Commands.Fits (m.call floats dsp) := by
  cases m with
  | getDeviceInfo => exact getDeviceInfo_asks.bind fun _ => Asks.pure _
  | getMasterStatus => exact dsp.getMasterStatus_asks.bind fun _ => Asks.pure _
  | getInputOutputLevels =>
    refine Asks.bind ?_ fun _ => Asks.pure _
    exact (readChunks_asks _ _).bind fun _ => (Asks.lift _).bind fun _ => Asks.pure _
  | getInputLevels | getOutputLevels => exact (readChunks_asks _ _).bind fun _ => Asks.pure _
  | setMasterVolume value => exact short_asks rfl (by simp) _
  | setMasterMute value => exact short_asks rfl (by simp) _
  | setSource source => exact short_asks rfl (by simp) _
  | setConfig polls config =>
    refine (Asks.roundtrip (Commands.fits_of_length rfl (by simp))).bind fun _ => ?_
    exact (Asks.lift _).bind fun _ => dsp.awaitConfig_asks config polls
  | setDirac enabled => exact short_asks rfl (by simp) _
  | setMute channel value =>
    exact (okOr_asks _ _).bind fun _ => dsp.writeDsp_asks _ (Dialect.mute_word _ _)
  | setGain channel value =>
    exact (okOr_asks _ _).bind fun _ => (okOr_asks _ _).bind fun _ =>
      dsp.writeDspDb_asks floats _ _
  | setOutputEnable input outputIndex value =>
    exact (okOr_asks _ _).bind fun _ => dsp.writeDsp_asks _ (Dialect.mute_word _ _)
  | setOutputGain input outputIndex gain =>
    exact (okOr_asks _ _).bind fun _ => (okOr_asks _ _).bind fun _ =>
      dsp.writeDspDb_asks floats _ _
  | setInvert output value => exact dsp.writeDsp_asks _ (Dialect.invert_word _ _)
  | setDelay output micros =>
    exact Asks.ite (Asks.fail _) ((okOr_asks _ _).bind fun _ =>
      dsp.writeDsp_asks _ (Dialect.delay_word _ _))
  | peqClear channel index => exact peq_asks dsp _ _ fun _ => dsp.setBiquad_asks floats _ _
  | peqSetCoefficients channel index coefficients =>
    exact peq_asks dsp _ _ fun _ => dsp.setBiquad_asks floats _ _
  | peqSetBypass channel index bypass =>
    exact peq_asks dsp _ _ fun _ => dsp.setBiquadBypass_asks _ _
  | crossoverClear spec group =>
    exact (Asks.lift _).bind fun _ => (Asks.lift _).bind fun _ =>
      Asks.forEach fun _ _ => dsp.setBiquad_asks floats _ _
  | crossoverSetCoefficients spec group index coefficients =>
    exact Asks.ite (Asks.fail _) ((Asks.lift _).bind fun _ => (Asks.lift _).bind fun _ =>
      dsp.setBiquad_asks floats _ _)
  | crossoverSetBypass spec group bypass =>
    exact Asks.ite (Asks.fail _) ((Asks.lift _).bind fun _ => dsp.setBiquadBypass_asks _ _)
  | compressorSetBypass spec value => exact dsp.writeDspInt_asks _ _
  | compressorSetThreshold spec value | compressorSetRatio spec value
  | compressorSetAttack spec value | compressorSetRelease spec value =>
    exact dsp.writeDspFloat_asks floats _ _
  | compressorGetLevel spec =>
    refine Asks.bind ?_ fun _ => Asks.pure _
    refine (okOr_asks _ _).bind fun _ => ?_
    refine (Asks.roundtrip (Commands.readFloats_fits _ _)).bind fun _ => ?_
    exact (Asks.lift _).bind fun _ => Asks.lift _
  | firSetBypass spec bypass => exact dsp.writeDspInt_asks _ _
  | firClear spec => exact dsp.setCoefficients_asks spec _
  | firSetCoefficients spec coefficients => exact dsp.setCoefficients_asks spec _

end Method

/-- A frame is unframed whatever follows it, ends with the sum of its bytes, and is refused when
a part of its payload is missing; and every command that a method sends is framed into a report
without being cut. -/
theorem frames_survive_reports :
    (∀ p pad : Bytes, p.length ≤ 254 → Packet.unframe (Packet.frame p ++ pad) = .ok p ∧
      Packet.frame p = (Packet.frame p).dropLast ++
        [UInt8.ofNat ((Packet.frame p).dropLast.map UInt8.toNat).sum] ∧
      ∀ q, q <+: Packet.frame p → q.length ≤ p.length → ∃ e, Packet.unframe q = .error e) ∧
    ∀ (floats : Floats) (dsp : MiniDSP) (m : Method) (σ : Type)
      (dev : Dialogue.Device σ Commands Responses MiniDSPError) (s : σ),
      ∀ cmd ∈ asked dev (m.call floats dsp) s, cmd.Fits := by
  refine ⟨fun p pad hp => ⟨Packet.unframe_frame hp pad,Packet.frame_eq p,fun q hq hlen =>
    Packet.unframe_prefix hp hq hlen⟩,fun floats dsp m σ dev s => ?_⟩
  exact (m.call_asks floats dsp).asked s

end Minidsp
