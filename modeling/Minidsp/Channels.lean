import Minidsp.FixedPoint
import Minidsp.MiniDSP

/-! The channels of a device and what can be set on them: gates, equalizers, crossovers,
compressors and filters. -/
namespace Minidsp

open Buffer Dialogue

/-- The arithmetic of floats, however it rounds: the number of a pattern, the pattern of a
number, and the linear value of a number of decibels. -/
structure Floats where
  value : F32Bits → ℚ
  bits : ℚ → F32Bits
  linear : ℚ → ℚ

def FixedPoint.fromDb (floats : Floats) (db : ℚ) : FixedPoint := fromF32 (floats.linear db)

namespace Dialect

def float (d : Dialect) (floats : Floats) (value : F32Bits) : Value :=
  match d.floatEncoding with
  | .float32LE => .float value
  | .fixedPoint => .fixedPoint (.fromF32 (floats.value value))

def db (d : Dialect) (floats : Floats) (value : ℚ) : Value :=
  match d.floatEncoding with
  | .float32LE => .float (floats.bits value)
  | .fixedPoint => .fixedPoint (.fromDb floats value)

def delay (d : Dialect) (numSamples : UInt32) : Value :=
  match d.addrEncoding with
  | .addrLen2 => .int32 numSamples
  | .addrLen3 => .int numSamples.toUInt16

def mute (d : Dialect) (mute : Bool) : Value :=
  match d.addrEncoding with
  | .addrLen2 => .int32 (if mute then 0x0 else 0x00800000)
  | .addrLen3 => .int (if mute then 0x1 else 0x2)

def invert (d : Dialect) (value : Bool) : Value :=
  match d.addrEncoding with
  | .addrLen2 => .int32 (if value then 0xFF800000 else 0x00800000)
  | .addrLen3 => .int (if value then 1 else 0)

end Dialect

namespace WriteInt

def enabled : UInt16 := 2
def bypassed : UInt16 := 3

end WriteInt

def okOr {α : Type} (x : Option α) (e : MiniDSPError) : Call α :=
  match x with
  | some a => pure a
  | none => .fail e

namespace MiniDSP

variable (dsp : MiniDSP) (floats : Floats)

def addr (value : UInt16) : Addr := dsp.device.dialect.addr value

def writeDspFloat (addr : UInt16) (value : F32Bits) : Call Unit :=
  Client.writeDsp (dsp.addr addr) (dsp.device.dialect.float floats value)

def writeDspDb (addr : UInt16) (value : ℚ) : Call Unit :=
  Client.writeDsp (dsp.addr addr) (dsp.device.dialect.db floats value)

/-! Channels. -/

structure Channel where
  gate : Option Device.Gate
  peq : List UInt16

def ofInput (spec : Device.Input) : Channel := ⟨spec.gate,spec.peq⟩
def ofOutput (spec : Device.Output) : Channel := ⟨some spec.gate,spec.peq⟩

def setMute (channel : Channel) (value : Bool) : Call Unit := do
  let gate ← okOr channel.gate .noSuchPeripheral
  Client.writeDsp (dsp.addr gate.enable) (dsp.device.dialect.mute value)

def setGain (channel : Channel) (value : Gain) : Call Unit := do
  let gate ← okOr channel.gate .noSuchPeripheral
  let gain ← okOr gate.gain .noSuchPeripheral
  dsp.writeDspDb floats gain value.val

def peq (channel : Channel) (index : ℕ) : Call Addr := do
  let start ← okOr channel.peq[index]? .outOfRange
  return dsp.addr start

def peqsAll (channel : Channel) : List Addr := channel.peq.map dsp.addr

def setOutputEnable (input : Device.Input) (outputIndex : ℕ) (value : Bool) : Call Unit := do
  let gate ← okOr input.routing[outputIndex]? .outOfRange
  Client.writeDsp (dsp.addr gate.enable) (dsp.device.dialect.mute !value)

def setOutputGain (input : Device.Input) (outputIndex : ℕ) (gain : Gain) : Call Unit := do
  let gate ← okOr input.routing[outputIndex]? .outOfRange
  let addr ← okOr gate.gain .noSuchPeripheral
  dsp.writeDspDb floats addr gain.val

def setInvert (output : Device.Output) (value : Bool) : Call Unit :=
  Client.writeDsp (dsp.addr output.invertAddr) (dsp.device.dialect.invert value)

/-- The delay in microseconds as a number of samples, rounded half up. -/
def delaySamples (micros : ℕ) : ℕ :=
  ⌊(micros * dsp.device.internalSamplingRate.toNat : ℚ)/1000000 + 1/2⌋.toNat

def setDelay (output : Device.Output) (micros : ℕ) : Call Unit := do
  let value := dsp.delaySamples micros
  if 8000 < value then
    .fail (.internalError s!"Delay should be within [0, 80] ms was {value}")
  else
    let addr ← okOr output.delayAddr .noSuchPeripheral
    Client.writeDsp (dsp.addr addr) (dsp.device.dialect.delay (UInt32.ofNat value))

/-! Biquad filters, by their address. -/

/-- The coefficients of the filter that changes nothing: 1, 0, 0, 0, 0. -/
def identityBiquad : List F32Bits := [0x3f800000,0,0,0,0]

/-- The coefficients in the order b0, b1, b2, a1, a2. -/
def setBiquad (filter : Addr) (coefficients : List F32Bits) : Call Unit :=
  match coefficients.map (dsp.device.dialect.float floats) with
  | [b0,b1,b2,a1,a2] => do
    Client.expect (← .roundtrip (.writeBiquad filter #v[b0,b1,b2,a1,a2])).intoAck
  | _ => .lift (.error (.panic (.explicit
      "biquad coefficients are always 5 floating point values")))

def clearBiquad (filter : Addr) : Call Unit := dsp.setBiquad floats filter identityBiquad

def setBiquadBypass (filter : Addr) (bypass : Bool) : Call Unit := do
  Client.expect (← .roundtrip (.writeBiquadBypass filter bypass)).intoAck

end MiniDSP

/-! Crossovers: groups of four biquads, five words each. -/
namespace Crossover

variable (dsp : MiniDSP) (floats : Floats) (spec : Device.Crossover)

def numGroups : ℕ := spec.peqs.length
def numFilterPerGroup : ℕ := 4

/-- `self.spec.peqs[group]` -/
def start (group : ℕ) : Call UInt16 :=
  .lift (match spec.peqs[group]? with
    | some start => .ok start
    | none => .error (.panic (.index group spec.peqs.length)))

/-- `(start..(start + 5 * 4)).step_by(5)` -/
def filters (start : UInt16) : List UInt16 :=
  (List.range 4).map fun i => start + 5 * UInt16.ofNat i

def clear (group : ℕ) : Call Unit := do
  let start ← start spec group
  let _ ← .lift (addU16 start (5*4))
  forM (filters start) fun addr => dsp.clearBiquad floats (dsp.addr addr)

def setCoefficients (group index : ℕ) (coefficients : List F32Bits) : Call Unit := do
  if numGroups spec ≤ group ∨ numFilterPerGroup ≤ index then .fail .outOfRange
  else
    let start ← start spec group
    let addr ← .lift (addU16 start (UInt16.ofNat index * 5))
    dsp.setBiquad floats (dsp.addr addr) coefficients

def setBypass (group : ℕ) (bypass : Bool) : Call Unit := do
  if numGroups spec ≤ group then .fail .outOfRange
  else
    let addr ← start spec group
    MiniDSP.setBiquadBypass (dsp.addr addr) bypass

end Crossover

namespace Compressor

variable (dsp : MiniDSP) (floats : Floats) (spec : Device.Compressor)

def setBypass (value : Bool) : Call Unit :=
  dsp.writeDspInt spec.bypass (if value then WriteInt.bypassed else WriteInt.enabled)

def setThreshold (value : F32Bits) : Call Unit := dsp.writeDspFloat floats spec.threshold value
def setRatio (value : F32Bits) : Call Unit := dsp.writeDspFloat floats spec.ratio value
def setAttack (value : F32Bits) : Call Unit := dsp.writeDspFloat floats spec.attack value
def setRelease (value : F32Bits) : Call Unit := dsp.writeDspFloat floats spec.release value

def getLevel : Call F32Bits := do
  let meter ← okOr spec.meter .noSuchPeripheral
  let view ← Client.expect (← .roundtrip (.readFloats meter 1)).intoFloatView
  .lift (view.get meter)

end Compressor

namespace Fir

variable (dsp : MiniDSP) (spec : Device.Fir)

def setBypass (bypass : Bool) : Call Unit :=
  dsp.writeDspInt spec.bypass (if bypass then WriteInt.bypassed else WriteInt.enabled)

def clear : Call Unit := dsp.setCoefficients spec (List.replicate 16 0)

end Fir
end Minidsp
