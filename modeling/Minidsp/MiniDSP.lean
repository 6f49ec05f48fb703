import Minidsp.Client
import Minidsp.Device

/-! The high-level interface of a device: its master settings, its levels and its filters. -/
namespace Minidsp

open Buffer

/-- Settings applying to all outputs; an absent field is not reported, or not to be set. -/
structure MasterStatus where
  preset : Option UInt8
  source : Option Source
  volume : Option Gain
  mute : Option Bool
  dirac : Option Bool
  deriving DecidableEq, Repr

namespace MasterStatus

instance : Inhabited MasterStatus := ⟨⟨none,none,none,none,none⟩⟩

def fromMemory (info : DeviceInfo) (view : MemoryView) : MasterStatus where
  preset := view.readU8 Eeprom.preset
  source := ((view.readU8 Eeprom.source).or (view.readU8 Eeprom.sourceAsync)).map
    (Source.fromId · info)
  volume := (view.readU8 Eeprom.masterVolume).map Gain.ofU8
  mute := (view.readU8 Eeprom.mute).map (· == 1)
  dirac := if info.supportsDirac then (view.readU8 Eeprom.diracBypass).map (· == 0) else none

/-- The fields of `status`, and those of `before` where it has none. -/
def onto (status before : MasterStatus) : MasterStatus where
  preset := status.preset.or before.preset
  source := status.source.or before.source
  volume := status.volume.or before.volume
  mute := status.mute.or before.mute
  dirac := status.dirac.or before.dirac

@[simp] theorem onto_default (status : MasterStatus) : status.onto default = status := by
  cases status
  simp [onto,default]

@[simp] theorem onto_self (status : MasterStatus) : status.onto status = status := by
  cases status
  simp [onto]

theorem onto_assoc (a b c : MasterStatus) : (a.onto b).onto c = a.onto (b.onto c) := by
  simp [onto,Option.or_assoc]

end MasterStatus

structure MiniDSP where
  device : Device
  deviceInfo : DeviceInfo
  deriving DecidableEq, Repr

namespace MiniDSP

def getMasterStatus (dsp : MiniDSP) : Call MasterStatus := do
  let memory ← Client.readMemory Eeprom.preset 9
  return .fromMemory dsp.deviceInfo memory

/-! Levels. -/

def inputMeters (dsp : MiniDSP) : List UInt16 := dsp.device.inputs.filterMap (·.meter)
def outputMeters (dsp : MiniDSP) : List UInt16 := dsp.device.outputs.filterMap (·.meter)

def getInputOutputLevels (dsp : MiniDSP) : Call (List F32Bits × List F32Bits) := do
  let inputs := dsp.inputMeters
  let outputs := dsp.outputMeters
  let levels ← Client.readFloatsMulti (inputs ++ outputs)
  let outputs ← .lift (slice levels inputs.length levels.length)
  return (levels.take dsp.device.inputs.length,outputs)

def getInputLevels (dsp : MiniDSP) : Call (List F32Bits) :=
  Client.readFloatsMulti dsp.inputMeters

def getOutputLevels (dsp : MiniDSP) : Call (List F32Bits) :=
  Client.readFloatsMulti dsp.outputMeters

/-! Master settings. -/

def setMasterVolume (value : Gain) : Call Unit := do
  Client.expect (← .roundtrip (.setVolume value)).intoAck

def setMasterMute (value : Bool) : Call Unit := do
  Client.expect (← .roundtrip (.setMute value)).intoAck

def setSource (dsp : MiniDSP) (source : Source) : Call Unit := do
  Client.expect (← .roundtrip (.setSource (source.toId dsp.deviceInfo))).intoAck

/-- Poll until the new configuration is reported, `polls` times at most. -/
def awaitConfig (dsp : MiniDSP) (config : UInt8) : (polls : ℕ) → Call Unit
  | 0 => .done .unfinished
  | polls+1 => do
    let status ← dsp.getMasterStatus
    let preset ← Client.unwrap status.preset
    if preset = config then return () else dsp.awaitConfig config polls

def setConfig (dsp : MiniDSP) (polls : ℕ) (config : UInt8) : Call Unit := do
  Client.expect (← .roundtrip (.setConfig config true)).intoConfigChanged
  dsp.awaitConfig config polls

def setDirac (enabled : Bool) : Call Unit := do
  Client.expect (← .roundtrip (.diracBypass (Commands.boolByte !enabled))).intoAck

def writeDspInt (dsp : MiniDSP) (addr value : UInt16) : Call Unit :=
  Client.writeDsp (dsp.device.dialect.addr addr) (dsp.device.dialect.int value)

/-! FIR filters. -/

/-- Load all coefficients; the device changes the master mute while it loads them. -/
def setCoefficients (dsp : MiniDSP) (fir : Device.Fir) (coefficients : List F32Bits) :
    Call Unit := do
  let masterStatus ← dsp.getMasterStatus
  dsp.writeDspInt fir.numCoefficients (UInt16.ofNat coefficients.length)
  let maxCoeff ← Client.expect (← .roundtrip (.firLoadStart fir.index)).intoFirSize
  if maxCoeff.toNat < coefficients.length then .fail .tooManyCoefficients
  else do
    forM (chunks 14 coefficients) fun block => do
      Client.expect (← .roundtrip (.firLoadData fir.index block)).intoAck
    Client.expect (← .roundtrip .firLoadEnd).intoAck
    setMasterMute (← Client.unwrap masterStatus.mute)

end MiniDSP

def MasterStatus.apply (status : MasterStatus) (polls : ℕ) (dsp : MiniDSP) : Call Unit := do
  forM status.preset (dsp.setConfig polls)
  forM status.source dsp.setSource
  forM status.volume MiniDSP.setMasterVolume
  forM status.mute MiniDSP.setMasterMute
  forM status.dirac MiniDSP.setDirac

end Minidsp
