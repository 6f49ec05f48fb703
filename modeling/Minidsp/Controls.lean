import Minidsp.Config

/-! What a configuration asks for, as a list of items: each sets one control of the device, or
says what has to be there. Applying the configuration is performing the items in order. -/
namespace Minidsp

open Buffer Dialogue

namespace Model

inductive Port
  | input (i : ℕ)
  | output (i : ℕ)
  deriving DecidableEq, Repr

inductive CompressorWord
  | bypass | threshold | ratio | attack | release
  deriving DecidableEq, Repr

inductive WordControl
  | mute (p : Port)
  | gain (p : Port)
  | routing (i j : ℕ)
  | routingGain (i j : ℕ)
  | invert (i : ℕ)
  | delay (i : ℕ)
  | compressor (i : ℕ) (w : CompressorWord)
  | firBypass (i : ℕ)
  | firTaps (i : ℕ)
  deriving DecidableEq, Repr

inductive FilterControl
  | peq (p : Port) (j : ℕ)
  | xover (i group slot : ℕ)
  deriving DecidableEq, Repr

inductive FlagControl
  | peq (p : Port) (j : ℕ)
  | xover (i group : ℕ)
  deriving DecidableEq, Repr

inductive Part
  | port (p : Port)
  | peq (p : Port) (j : ℕ)
  | xover (i : ℕ)
  | compressor (i : ℕ)
  | fir (i : ℕ)
  deriving DecidableEq, Repr

inductive Control
  | word (c : WordControl)
  | filter (c : FilterControl)
  | flag (c : FlagControl)
  deriving DecidableEq, Repr

inductive Setting
  | word (c : WordControl) (value : Value)
  | filter (c : FilterControl) (data : Vector Value 5)
  | flag (c : FlagControl) (value : Bool)
  deriving DecidableEq, Repr

def Setting.control : Setting → Control
  | .word c _ => .word c
  | .filter c _ => .filter c
  | .flag c _ => .flag c

inductive Item
  | reject (e : MiniDSPError)
  | need (part : Part)
  | set (setting : Setting)
  | load (i : ℕ) (coefficients : List F32Bits)
  deriving DecidableEq, Repr

abbrev Lookup := Exec MiniDSPError

def Lookup.of {α : Type} (x : Option α) (e : MiniDSPError) : Lookup α :=
  match x with
  | some a => .ok a
  | none => .error (.error e)

theorem lift_of {α : Type} (x : Option α) (e : MiniDSPError) :
    (Dialogue.lift (Lookup.of x e) : Call α) = okOr x e := by
  cases x <;> rfl

theorem lift_bind {α β : Type} (x : Lookup α) (f : α → Lookup β) :
    (Dialogue.lift (x >>= f) : Call β) = Dialogue.lift x >>= fun a => Dialogue.lift (f a) := by
  rcases x with (_ | _) | _ <;> rfl

theorem lift_ok {α : Type} (a : α) : (Dialogue.lift (.ok a) : Call α) = pure a := rfl

theorem lift_pure {α : Type} (a : α) : (Dialogue.lift (pure a : Lookup α) : Call α) = pure a := rfl

section Tables

variable (dsp : MiniDSP)

def inputSpec (i : ℕ) : Lookup Device.Input := .of dsp.device.inputs[i]? .outOfRange
def outputSpec (i : ℕ) : Lookup Device.Output := .of dsp.device.outputs[i]? .outOfRange

def Port.channel : Port → Lookup MiniDSP.Channel
  | .input i => (inputSpec dsp i).map MiniDSP.ofInput
  | .output i => (outputSpec dsp i).map MiniDSP.ofOutput

def peqAddr (p : Port) (j : ℕ) : Lookup UInt16 := do
  .of (← p.channel dsp).peq[j]? .outOfRange

def xoverSpec (i : ℕ) : Lookup Device.Crossover := do
  .of (← outputSpec dsp i).xover .noSuchPeripheral
def compressorSpec (i : ℕ) : Lookup Device.Compressor := do
  .of (← outputSpec dsp i).compressor .noSuchPeripheral
def firSpec (i : ℕ) : Lookup Device.Fir := do .of (← outputSpec dsp i).fir .noSuchPeripheral

def Part.find : Part → Lookup Unit
  | .port p => do let _ ← p.channel dsp; return ()
  | .peq p j => do let _ ← peqAddr dsp p j; return ()
  | .xover i => do let _ ← xoverSpec dsp i; return ()
  | .compressor i => do let _ ← compressorSpec dsp i; return ()
  | .fir i => do let _ ← firSpec dsp i; return ()

def CompressorWord.addr (spec : Device.Compressor) : CompressorWord → UInt16
  | .bypass => spec.bypass
  | .threshold => spec.threshold
  | .ratio => spec.ratio
  | .attack => spec.attack
  | .release => spec.release

def WordControl.addr : WordControl → Lookup UInt16
  | .mute p => do return (← .of (← p.channel dsp).gate .noSuchPeripheral).enable
  | .gain p => do .of (← .of (← p.channel dsp).gate .noSuchPeripheral).gain .noSuchPeripheral
  | .routing i j => do return (← .of (← inputSpec dsp i).routing[j]? .outOfRange).enable
  | .routingGain i j => do
    .of (← .of (← inputSpec dsp i).routing[j]? .outOfRange).gain .noSuchPeripheral
  | .invert i => do return (← outputSpec dsp i).invertAddr
  | .delay i => do .of (← outputSpec dsp i).delayAddr .noSuchPeripheral
  | .compressor i w => do return w.addr (← compressorSpec dsp i)
  | .firBypass i => do return (← firSpec dsp i).bypass
  | .firTaps i => do return (← firSpec dsp i).numCoefficients

/-- A slot of a crossover is five words on from the slot before it. -/
def slotAddr (spec : Device.Crossover) (group slot : ℕ) : Lookup UInt16 :=
  if Minidsp.Crossover.numGroups spec ≤ group ∨ Minidsp.Crossover.numFilterPerGroup ≤ slot then
    .error (.error .outOfRange)
  else addU16 (spec.peqs.getD group 0) (UInt16.ofNat slot * 5)

def groupAddr (spec : Device.Crossover) (group : ℕ) : Lookup UInt16 :=
  .of spec.peqs[group]? .outOfRange

def FilterControl.addr : FilterControl → Lookup UInt16
  | .peq p j => peqAddr dsp p j
  | .xover i group slot => do slotAddr (← xoverSpec dsp i) group slot

def FlagControl.addr : FlagControl → Lookup UInt16
  | .peq p j => peqAddr dsp p j
  | .xover i group => do groupAddr (← xoverSpec dsp i) group

def Setting.command : Setting → Lookup Commands
  | .word c value => do return .write (dsp.addr (← c.addr dsp)) value
  | .filter c data => do return .writeBiquad (dsp.addr (← c.addr dsp)) data
  | .flag c value => do return .writeBiquadBypass (dsp.addr (← c.addr dsp)) value

def Item.perform : Item → Call Unit
  | .reject e => .fail e
  | .need part => .lift (part.find dsp)
  | .set setting => do acknowledged (← .lift (setting.command dsp))
  | .load i coefficients => do dsp.setCoefficients (← .lift (firSpec dsp i)) coefficients

def performAll (items : List Item) : Call Unit := forM items (Item.perform dsp)

end Tables

/-! The items of a configuration. -/

section Items

variable (dsp : MiniDSP) (floats : Floats)

/-- The items of an entry with an index, which comes before anything else. -/
def indexed (index : Option ℕ) (e : MiniDSPError) (items : ℕ → List Item) : List Item :=
  match index with
  | some i => items i
  | none => [.reject e]

def Gate.items (config : Gate) (p : Port) : List Item :=
  config.mute.toList.map (fun value => .set (.word (.mute p) (dsp.device.dialect.mute value))) ++
    config.gain.toList.map fun value =>
      .set (.word (.gain p) (dsp.device.dialect.db floats value.val))

def Peq.items (config : Peq) (p : Port) : List Item :=
  indexed config.index missingPeq fun j => .need (.peq p j) ::
    (config.bypass.toList.map (fun value => .set (.flag (.peq p j) value)) ++
      config.coeff.toList.map fun coeff =>
        .set (.filter (.peq p j) (Xover.words dsp floats coeff)))

def RoutingEntry.items (config : RoutingEntry) (i : ℕ) : List Item :=
  indexed config.index missingRouting fun j =>
    config.gate.gain.toList.map (fun gain =>
        .set (.word (.routingGain i j) (dsp.device.dialect.db floats gain.val))) ++
      config.gate.mute.toList.map fun mute =>
        .set (.word (.routing i j) (dsp.device.dialect.mute mute))

def Input.items (config : Input) : List Item :=
  indexed config.index missingInput fun i => .need (.port (.input i)) ::
    (config.gate.items dsp floats (.input i) ++
      config.peq.flatMap (fun peq => peq.items dsp floats (.input i)) ++
      config.routing.flatMap fun entry => entry.items dsp floats i)

def delayItem (i micros : ℕ) : Item :=
  let value := dsp.delaySamples micros
  if 8000 < value then
    .reject (.internalError s!"Delay should be within [0, 80] ms was {value}")
  else .set (.word (.delay i) (dsp.device.dialect.delay (UInt32.ofNat value)))

/-- That every biquad has an index is checked before the first of them is written. -/
def Crossover.items (config : Crossover) (i : ℕ) : List Item :=
  .need (.xover i) ::
    indexed config.index (.internalError "Invalid crossover group index") fun group =>
      if config.coeff.any fun c => c.index.isNone then
        [.reject (.internalError "biquad index not specified")]
      else
        config.coeff.map (fun c => .set (.filter (.xover i group (c.index.getD 0).toNat)
            (Xover.words dsp floats c))) ++
          config.bypass.toList.map fun value => .set (.flag (.xover i group) value)

def bypassWord (value : Bool) : Value :=
  dsp.device.dialect.int (if value then WriteInt.bypassed else WriteInt.enabled)

def Compressor.items (config : Compressor) (i : ℕ) : List Item :=
  let float (w : CompressorWord) (value : F32Bits) : Item :=
    .set (.word (.compressor i w) (dsp.device.dialect.float floats value))
  .need (.compressor i) ::
    (config.bypass.toList.map
        (fun value => .set (.word (.compressor i .bypass) (bypassWord dsp value))) ++
      config.threshold.toList.map (float .threshold) ++ config.ratio.toList.map (float .ratio) ++
      config.attack.toList.map (float .attack) ++ config.release.toList.map (float .release))

def Fir.items (config : Fir) (i : ℕ) : List Item :=
  .need (.fir i) ::
    (config.bypass.toList.map
        (fun value => .set (.word (.firBypass i) (bypassWord dsp value))) ++
      config.coefficients.toList.map fun coefficients =>
        .load i (if coefficients.isEmpty then List.replicate 16 0 else coefficients))

def Output.items (config : Output) : List Item :=
  indexed config.index missingOutput fun i => .need (.port (.output i)) ::
    (config.gate.items dsp floats (.output i) ++
      config.peq.flatMap (fun peq => peq.items dsp floats (.output i)) ++
      config.invert.toList.map
        (fun value => .set (.word (.invert i) (dsp.device.dialect.invert value))) ++
      config.delay.toList.map (delayItem dsp i) ++
      config.crossover.flatMap (fun xover => xover.items dsp floats i) ++
      config.compressor.toList.flatMap (fun compressor => compressor.items dsp floats i) ++
      config.fir.toList.flatMap fun fir => fir.items dsp i)

/-- Everything but the master status. -/
def Config.items (config : Config) : List Item :=
  config.inputs.flatMap (fun input => input.items dsp floats) ++
    config.outputs.flatMap fun output => output.items dsp floats

end Items
end Model
end Minidsp
