import Minidsp.PeqImport
import Minidsp.XoverConfig

/-! The configurations of the remote control: every field is optional, and sets something when
it is there. They are applied field by field, in the order of the document. -/
namespace Minidsp

open Buffer Dialogue

namespace Model

structure Gate where
  mute : Option Bool
  gain : Option Gain
  deriving DecidableEq, Repr

structure Peq where
  index : Option ℕ
  coeff : Option Biquad
  bypass : Option Bool
  deriving DecidableEq, Repr

structure RoutingEntry where
  index : Option ℕ
  gate : Gate
  deriving DecidableEq, Repr

structure Input where
  index : Option ℕ
  gate : Gate
  peq : List Peq
  routing : List RoutingEntry
  deriving DecidableEq, Repr

structure Compressor where
  bypass : Option Bool
  threshold : Option F32Bits
  ratio : Option F32Bits
  attack : Option F32Bits
  release : Option F32Bits
  deriving DecidableEq, Repr

structure Fir where
  bypass : Option Bool
  coefficients : Option (List F32Bits)
  deriving DecidableEq, Repr

/-- The delay is in whole microseconds. -/
structure Output where
  index : Option ℕ
  gate : Gate
  peq : List Peq
  invert : Option Bool
  delay : Option ℕ
  crossover : List Crossover
  compressor : Option Compressor
  fir : Option Fir
  deriving DecidableEq, Repr

structure Config where
  masterStatus : Option MasterStatus
  inputs : List Input
  outputs : List Output
  deriving DecidableEq, Repr

/-! The messages of the errors. -/

def missingInput : MiniDSPError := .internalError "missing input index field"
def missingOutput : MiniDSPError := .internalError "missing output index field"
def missingPeq : MiniDSPError := .internalError "missing peq index field"
def missingRouting : MiniDSPError :=
  .internalError "missing output channel index inside routing entry"

section
variable (dsp : MiniDSP) (floats : Floats)

def Gate.apply (config : Gate) (channel : MiniDSP.Channel) : Call Unit := do
  forM config.mute (dsp.setMute channel)
  forM config.gain (dsp.setGain floats channel)

def Peq.apply (config : Peq) (peq : Addr) : Call Unit := do
  forM config.bypass (MiniDSP.setBiquadBypass peq)
  forM config.coeff fun coeff => dsp.setBiquad floats peq coeff.toArray

def applyPeqs (peqs : List Peq) (channel : MiniDSP.Channel) : Call Unit :=
  forM peqs fun peq => do
    let peqIndex ← okOr peq.index missingPeq
    peq.apply dsp floats (← dsp.peq channel peqIndex)

def RoutingEntry.apply (config : RoutingEntry) (input : Device.Input) : Call Unit := do
  let index ← okOr config.index missingRouting
  forM config.gate.gain (dsp.setOutputGain floats input index)
  forM config.gate.mute fun mute => dsp.setOutputEnable input index !mute

def Input.apply (config : Input) (input : Device.Input) : Call Unit := do
  config.gate.apply dsp floats (MiniDSP.ofInput input)
  applyPeqs dsp floats config.peq (MiniDSP.ofInput input)
  forM config.routing fun entry => entry.apply dsp floats input

def Compressor.apply (config : Compressor) (compressor : Device.Compressor) : Call Unit := do
  forM config.bypass (Minidsp.Compressor.setBypass dsp compressor)
  forM config.threshold (Minidsp.Compressor.setThreshold dsp floats compressor)
  forM config.ratio (Minidsp.Compressor.setRatio dsp floats compressor)
  forM config.attack (Minidsp.Compressor.setAttack dsp floats compressor)
  forM config.release (Minidsp.Compressor.setRelease dsp floats compressor)

/-- An empty list of coefficients clears the filter. -/
def Fir.apply (config : Fir) (fir : Device.Fir) : Call Unit := do
  forM config.bypass (Minidsp.Fir.setBypass dsp fir)
  forM config.coefficients fun coefficients =>
    if coefficients.isEmpty then Minidsp.Fir.clear dsp fir
    else dsp.setCoefficients fir coefficients

def Output.apply (config : Output) (output : Device.Output) : Call Unit := do
  config.gate.apply dsp floats (MiniDSP.ofOutput output)
  applyPeqs dsp floats config.peq (MiniDSP.ofOutput output)
  forM config.invert (dsp.setInvert output)
  forM config.delay (dsp.setDelay output)
  forM config.crossover fun xover => do
    let deviceXover ← okOr output.xover .noSuchPeripheral
    xover.apply dsp floats deviceXover
  forM config.compressor fun compressor => do
    let deviceCompressor ← okOr output.compressor .noSuchPeripheral
    compressor.apply dsp floats deviceCompressor
  forM config.fir fun fir => do
    let deviceFir ← okOr output.fir .noSuchPeripheral
    fir.apply dsp deviceFir

/-- `dsp.input(index)?` -/
def openInput (index : ℕ) : Call Device.Input := okOr dsp.device.inputs[index]? .outOfRange

/-- `dsp.output(index)?` -/
def openOutput (index : ℕ) : Call Device.Output := okOr dsp.device.outputs[index]? .outOfRange

/-- The master status comes first: it may change the preset that is active. -/
def Config.apply (config : Config) (polls : ℕ) : Call Unit := do
  forM config.masterStatus fun status => status.apply polls dsp
  forM config.inputs fun input => do
    let inputIndex ← okOr input.index missingInput
    input.apply dsp floats (← openInput dsp inputIndex)
  forM config.outputs fun output => do
    let outputIndex ← okOr output.index missingOutput
    output.apply dsp floats (← openOutput dsp outputIndex)

end
end Model
end Minidsp
