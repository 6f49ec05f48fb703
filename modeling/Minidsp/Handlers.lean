import Minidsp.ConfigApply
import Minidsp.Volume

/-! The commands of the command line on a device. What a command sets, a configuration with
nothing else in it sets as well, with the same commands in the same order. -/
namespace Minidsp

open Buffer Dialogue

inductive ToggleBool
  | on | off | toggle
  deriving DecidableEq, Repr

inductive RoutingCommand
  | enable (value : Bool)
  | gain (value : Gain)

inductive InputCommand
  | gain (value : Gain)
  | mute (value : Bool)
  | routing (outputIndex : ℕ) (cmd : RoutingCommand)
  | peq (index : PEQTarget) (cmd : FilterCommand)

/-- The delay is in milliseconds. -/
inductive OutputCommand
  | gain (value : Gain)
  | mute (value : Bool)
  | delay (delay : F32Bits)
  | invert (value : Bool)
  | peq (index : PEQTarget) (cmd : FilterCommand)
  | fir (cmd : FilterCommand)
  | crossover (group index : PEQTarget) (cmd : FilterCommand)
  | compressor (config : Model.Compressor)

inductive SubCommand
  | gain (value : Gain) (relative : Bool)
  | mute (value : ToggleBool)
  | source (value : Source)
  | config (value : UInt8)
  | dirac (value : ToggleBool)
  | input (inputIndex : ℕ) (cmd : InputCommand)
  | output (outputIndex : ℕ) (cmd : OutputCommand)
  | status

/-- What the commands take from elsewhere: how a float is parsed, how milliseconds become whole
microseconds, and the samples of a file at some sampling rate. -/
structure Host where
  fromStr : Line → Option F32Bits
  micros : F32Bits → Exec MiniDSPError ℕ
  readWavFilter : List Char → UInt32 → Exec MiniDSPError (List F32Bits)

namespace Handlers

section
variable (dsp : MiniDSP) (floats : Floats) (host : Host)

def runPeq (peqs : List Addr) (cmd : FilterCommand) : Call Unit := do
  let _ ← Peq.runPeq dsp floats host.fromStr peqs cmd
  return ()

def runPeqs (channel : MiniDSP.Channel) (index : PEQTarget) (cmd : FilterCommand) : Call Unit :=
  match index with
  | .one index => do runPeq dsp floats host [← dsp.peq channel index] cmd
  | .all => runPeq dsp floats host (dsp.peqsAll channel) cmd

def runFir (fir : Device.Fir) (cmd : FilterCommand) : Call Unit :=
  match cmd with
  | .set coeff => dsp.setCoefficients fir coeff
  | .bypass value => Fir.setBypass dsp fir value
  | .clear => Fir.clear dsp fir
  | .importFrom file => do
    dsp.setCoefficients fir (← .lift (host.readWavFilter file dsp.device.internalSamplingRate))

def runInput (cmd : InputCommand) (inputIndex : ℕ) : Call Unit := do
  let input ← Model.openInput dsp inputIndex
  match cmd with
  | .gain value => dsp.setGain floats (MiniDSP.ofInput input) value
  | .mute value => dsp.setMute (MiniDSP.ofInput input) value
  | .routing outputIndex (.enable value) => dsp.setOutputEnable input outputIndex value
  | .routing outputIndex (.gain value) => dsp.setOutputGain floats input outputIndex value
  | .peq index cmd => runPeqs dsp floats host (MiniDSP.ofInput input) index cmd

def runOutput (outputIndex : ℕ) (cmd : OutputCommand) : Call Unit := do
  let output ← Model.openOutput dsp outputIndex
  match cmd with
  | .gain value => dsp.setGain floats (MiniDSP.ofOutput output) value
  | .mute value => dsp.setMute (MiniDSP.ofOutput output) value
  | .delay delay => do dsp.setDelay output (← .lift (host.micros delay))
  | .invert value => dsp.setInvert output value
  | .peq index cmd => runPeqs dsp floats host (MiniDSP.ofOutput output) index cmd
  | .fir cmd => do runFir dsp host (← okOr output.fir .noSuchPeripheral) cmd
  | .crossover group index cmd => do
    let xover ← okOr output.xover .noSuchPeripheral
    Xover.runXover dsp floats xover host.fromStr cmd group index
  | .compressor config => do
    let compressor ← okOr output.compressor .noSuchPeripheral
    forM config.bypass (Compressor.setBypass dsp compressor)
    forM config.threshold (Compressor.setThreshold dsp floats compressor)
    forM config.ratio (Compressor.setRatio dsp floats compressor)
    forM config.attack (Compressor.setAttack dsp floats compressor)
    forM config.release (Compressor.setRelease dsp floats compressor)

/-- A toggle is the opposite of what the device reports. -/
def toggled (current : MasterStatus → Option Bool) : ToggleBool → Call Bool
  | .on => pure true
  | .off => pure false
  | .toggle => do return !(← Client.unwrap (current (← dsp.getMasterStatus)))

def runCommand (polls : ℕ) : SubCommand → Call Unit
  | .gain value relative => runGain dsp value relative
  | .mute value => do MiniDSP.setMasterMute (← toggled dsp (·.mute) value)
  | .source value => dsp.setSource value
  | .config value => dsp.setConfig polls value
  | .dirac value => do MiniDSP.setDirac (← toggled dsp (·.dirac) value)
  | .input inputIndex cmd => runInput dsp floats host cmd inputIndex
  | .output outputIndex cmd => runOutput dsp floats host outputIndex cmd
  | .status => do
    let _ ← dsp.getMasterStatus
    let _ ← dsp.getInputOutputLevels
    return ()

end

/-! The configurations. -/

def ofInput (i : ℕ) (gate : Model.Gate) (peq : List Model.Peq) (routing : List Model.RoutingEntry) :
    Model.Config := ⟨none,[⟨some i,gate,peq,routing⟩],[]⟩

def blankOutput (i : ℕ) : Model.Output := ⟨some i,⟨none,none⟩,[],none,none,[],none,none⟩

def ofMaster (status : MasterStatus) : Model.Config := ⟨some status,[],[]⟩

def blankStatus : MasterStatus := ⟨none,none,none,none,none⟩

/-- To clear an equalizer is to set it to what changes nothing, and then to enable it. -/
def peqConfigs (indices : List ℕ) : FilterCommand → Option (List Model.Peq)
  | .set [b0,b1,b2,a1,a2] =>
    some (indices.map fun j => ⟨some j,some ⟨none,b0,b1,b2,a1,a2⟩,none⟩)
  | .bypass value => some (indices.map fun j => ⟨some j,none,some value⟩)
  | .clear => some (indices.flatMap fun j =>
    [⟨some j,some .default,none⟩,⟨some j,none,some false⟩])
  | _ => none

def firConfig : FilterCommand → Option Model.Fir
  | .set coeff => if coeff.isEmpty then none else some ⟨none,some coeff⟩
  | .bypass value => some ⟨some value,none⟩
  | .clear => some ⟨none,some []⟩
  | .importFrom _ => none

/-- The index of a biquad has sixteen bits. -/
def fits : PEQTarget → Bool
  | .all => true
  | .one n => n < 65536

def xoverConfigs (group index : PEQTarget) (cmd : FilterCommand) : Option (List Model.Crossover) :=
  if fits group && fits index then
    match cmd with
    | .set [b0,b1,b2,a1,a2] => some ((group.range 2).map fun g =>
      ⟨some g,(index.range 4).map fun k => ⟨some (UInt16.ofNat k),b0,b1,b2,a1,a2⟩,none⟩)
    | .bypass value => some ((group.range 2).map fun g => ⟨some g,[],some value⟩)
    | _ => none
  else none

/-- The configuration that sets what the command sets. A toggle, a step and an import are none:
they depend on the device, or on a file. -/
def InputCommand.asConfig (dsp : MiniDSP) (i : ℕ) : InputCommand → Option Model.Config
  | .gain value => some (ofInput i ⟨none,some value⟩ [] [])
  | .mute value => some (ofInput i ⟨some value,none⟩ [] [])
  | .routing j (.enable value) => some (ofInput i ⟨none,none⟩ [] [⟨some j,⟨some !value,none⟩⟩])
  | .routing j (.gain value) => some (ofInput i ⟨none,none⟩ [] [⟨some j,⟨none,some value⟩⟩])
  | .peq index cmd =>
    let peqs := (dsp.device.inputs[i]?).elim [] (·.peq)
    (peqConfigs (index.range peqs.length) cmd).map fun configs => ofInput i ⟨none,none⟩ configs []

def OutputCommand.asOutput (dsp : MiniDSP) (host : Host) (i : ℕ) :
    OutputCommand → Option Model.Output
  | .gain value => some { blankOutput i with gate := ⟨none,some value⟩ }
  | .mute value => some { blankOutput i with gate := ⟨some value,none⟩ }
  | .delay delay =>
    match host.micros delay with
    | .ok micros => some { blankOutput i with delay := some micros }
    | .error _ => none
  | .invert value => some { blankOutput i with invert := some value }
  | .peq index cmd =>
    let peqs := (dsp.device.outputs[i]?).elim [] (·.peq)
    (peqConfigs (index.range peqs.length) cmd).map fun configs =>
      { blankOutput i with peq := configs }
  | .fir cmd => (firConfig cmd).map fun config => { blankOutput i with fir := some config }
  | .crossover group index cmd =>
    (xoverConfigs group index cmd).map fun configs => { blankOutput i with crossover := configs }
  | .compressor config => some { blankOutput i with compressor := some config }

def switched : ToggleBool → Option Bool
  | .on => some true
  | .off => some false
  | .toggle => none

def SubCommand.asConfig (dsp : MiniDSP) (host : Host) : SubCommand → Option Model.Config
  | .gain value relative =>
    if relative then none else some (ofMaster { blankStatus with volume := some value })
  | .mute value =>
    (switched value).map fun mute => ofMaster { blankStatus with mute := some mute }
  | .source value => some (ofMaster { blankStatus with source := some value })
  | .config value => some (ofMaster { blankStatus with preset := some value })
  | .dirac value =>
    (switched value).map fun dirac => ofMaster { blankStatus with dirac := some dirac }
  | .input inputIndex cmd => InputCommand.asConfig dsp inputIndex cmd
  | .output outputIndex cmd =>
    (OutputCommand.asOutput dsp host outputIndex cmd).map fun output => ⟨none,[],[output]⟩
  | .status => none

section
variable {dsp : MiniDSP} {floats : Floats} {host : Host}

/-! Equalizers. -/

def onPeq (dsp : MiniDSP) (floats : Floats) (cmd : FilterCommand) (peq : Addr) : Call Unit :=
  match cmd with
  | .set coeff => dsp.setBiquad floats peq coeff
  | .bypass value => MiniDSP.setBiquadBypass peq value
  | .clear => do
    dsp.clearBiquad floats peq
    MiniDSP.setBiquadBypass peq false
  | .importFrom _ => pure ()

theorem runPeq_eq {indices : List ℕ} {cmd : FilterCommand} {configs : List Model.Peq}
    (h : peqConfigs indices cmd = some configs) (peqs : List Addr) :
    runPeq dsp floats host peqs cmd = forM peqs (onPeq dsp floats cmd) := by
  cases cmd with
  | importFrom file => cases h
  | _ => 
    rw [runPeq,Peq.runPeq]
    simp only [bind_assoc,pure_bind]
    exact bind_pure _

theorem forM_getElem? {α : Type} (xs : List α) (e : MiniDSPError) (f : α → Call Unit) :
    (forM (List.range xs.length) fun j => okOr xs[j]? e >>= f) = forM xs f := by
  induction xs with
  | nil => rfl
  | cons x xs ih =>
    rw [List.length_cons,List.range_succ_eq_map,List.forM_cons,List.forM_map]
    exact congrArg (f x >>= fun _ => ·) ih

theorem forM_congr {α : Type} {xs : List α} {f g : α → Call Unit} (h : ∀ x ∈ xs, f x = g x) :
    forM xs f = forM xs g := by
  induction xs with
  | nil => rfl
  | cons x xs ih =>
    rw [List.forM_cons,List.forM_cons,h x (by simp),ih fun y hy => h y (by simp [hy])]

theorem runPeqs_eq_forM {indices : List ℕ} {cmd : FilterCommand} {configs : List Model.Peq}
    (h : peqConfigs indices cmd = some configs) (channel : MiniDSP.Channel) (index : PEQTarget) :
    runPeqs dsp floats host channel index cmd =
      forM (index.range channel.peq.length) fun j =>
        dsp.peq channel j >>= onPeq dsp floats cmd := by
  cases index with
  | one j =>
    rw [runPeqs,PEQTarget.range]
    simp only [runPeq_eq h,List.forM_cons,List.forM_nil]
    rw [bind_assoc]
  | all =>
    rw [runPeqs,PEQTarget.range,runPeq_eq h,MiniDSP.peqsAll,List.forM_map,
      ← forM_getElem? _ .outOfRange]
    simp only [MiniDSP.peq,bind_assoc,pure_bind]

/-- An equalizer that is looked up twice is looked up once. -/
theorem peq_twice (channel : MiniDSP.Channel) (j : ℕ) (f g : Addr → Call Unit) :
    ((dsp.peq channel j >>= f) >>= fun _ => dsp.peq channel j >>= g) =
      dsp.peq channel j >>= fun peq => f peq >>= fun _ => g peq := by
  rw [MiniDSP.peq]
  cases channel.peq[j]? with
  | none => rfl
  | some start => rfl

theorem applyPeqs_eq {indices : List ℕ} {cmd : FilterCommand} {configs : List Model.Peq}
    (h : peqConfigs indices cmd = some configs) (channel : MiniDSP.Channel) :
    Model.applyPeqs dsp floats configs channel =
      forM indices fun j => dsp.peq channel j >>= onPeq dsp floats cmd := by
  unfold peqConfigs at h
  split at h
  · obtain rfl := Option.some.inj h
    rw [Model.applyPeqs,List.forM_map]
    rfl
  · obtain rfl := Option.some.inj h
    rw [Model.applyPeqs,List.forM_map]
    refine forM_congr fun j _ => congrArg (dsp.peq channel j >>= ·) (funext fun peq => ?_)
    exact bind_pure (MiniDSP.setBiquadBypass peq _)
  · obtain rfl := Option.some.inj h
    rw [Model.applyPeqs,forM_flatMap]
    refine forM_congr fun j _ => ?_
    refine Eq.trans ?_ (peq_twice channel j (dsp.clearBiquad floats)
      fun peq => MiniDSP.setBiquadBypass peq false)
    rw [List.forM_cons,List.forM_cons,List.forM_nil,bind_pure_unit]
    refine congrArg ((dsp.peq channel j >>= dsp.clearBiquad floats) >>= fun _ => ·) ?_
    exact congrArg (dsp.peq channel j >>= ·) (funext fun peq => bind_pure_unit)
  · cases h

theorem runPeqs_eq {cmd : FilterCommand} {configs : List Model.Peq} {channel : MiniDSP.Channel}
    {index : PEQTarget} (h : peqConfigs (index.range channel.peq.length) cmd = some configs) :
    runPeqs dsp floats host channel index cmd = Model.applyPeqs dsp floats configs channel := by
  rw [runPeqs_eq_forM h,applyPeqs_eq h]

/-! Filters and crossovers. -/

theorem runFir_eq {cmd : FilterCommand} {config : Model.Fir} (h : firConfig cmd = some config)
    (fir : Device.Fir) : runFir dsp host fir cmd = config.apply dsp fir := by
  cases cmd with
  | set coeff =>
    rw [firConfig] at h
    by_cases hempty : coeff.isEmpty
    · rw [if_pos hempty] at h
      cases h
    · rw [if_neg hempty] at h
      obtain rfl := Option.some.inj h
      exact (if_neg hempty).symm
  | bypass value =>
    obtain rfl := Option.some.inj h
    exact bind_pure_unit.symm
  | clear =>
    obtain rfl := Option.some.inj h
    rfl
  | importFrom file => cases h

theorem intoRange_of_fits {target : PEQTarget} (h : fits target = true) (n : ℕ) :
    target.intoRange n = .ok (target.range n) := by
  cases target with
  | all => rfl
  | one k =>
    rw [fits,decide_eq_true_eq] at h
    exact if_pos (by omega)

theorem range_ne_nil (target : PEQTarget) : target.range 2 ≠ [] := by
  cases target <;> simp [PEQTarget.range]

theorem lt_of_fits {target : PEQTarget} (h : fits target = true) {k : ℕ}
    (hk : k ∈ target.range 4) : k < 65536 := by
  cases target with
  | all =>
    rw [PEQTarget.range,List.mem_range] at hk
    omega
  | one n =>
    rw [fits,decide_eq_true_eq] at h
    obtain rfl := List.mem_singleton.mp hk
    exact h

theorem okOr_forM {α β : Type} (x : Option α) (e : MiniDSPError) {ys : List β} (hys : ys ≠ [])
    (f : α → β → Call Unit) :
    (okOr x e >>= fun a => forM ys (f a)) = forM ys fun y => okOr x e >>= fun a => f a y := by
  cases x with
  | some a => rfl
  | none =>
    obtain ⟨y,ys,rfl⟩ := List.exists_cons_of_ne_nil hys
    rfl

theorem applyXover_eq (spec : Device.Crossover) (g : ℕ) (coeff : List Biquad)
    (hcoeff : ∀ c ∈ coeff, c.index ≠ none) (bypass : Option Bool) :
    Model.Crossover.apply ⟨some g,coeff,bypass⟩ dsp floats spec =
      forM coeff (Model.Crossover.applyBiquad dsp floats spec g) >>= fun _ =>
        Model.Crossover.applyBypass ⟨some g,coeff,bypass⟩ dsp spec g :=
  Model.Crossover.apply_eq rfl hcoeff

theorem runXover_eq {cmd : FilterCommand} {group index : PEQTarget}
    {configs : List Model.Crossover} (h : xoverConfigs group index cmd = some configs)
    (xover : Option Device.Crossover) :
    (okOr xover .noSuchPeripheral >>= fun spec =>
        Xover.runXover dsp floats spec host.fromStr cmd group index) =
      forM configs fun config => okOr xover .noSuchPeripheral >>= config.apply dsp floats := by
  unfold xoverConfigs at h
  by_cases hfits : fits group && fits index
  · rw [if_pos hfits] at h
    obtain ⟨hgroup,hindex⟩ := Bool.and_eq_true_iff.mp hfits
    split at h
    · obtain rfl := Option.some.inj h
      rw [List.forM_map,← okOr_forM _ _ (range_ne_nil group)]
      refine congrArg (okOr xover _ >>= ·) (funext fun spec => ?_)
      show Dialogue.lift _ >>= _ = _
      rw [intoRange_of_fits hgroup,lift_ok_bind rfl]
      refine forM_congr fun g _ => ?_
      rw [intoRange_of_fits hindex,lift_ok_bind rfl,applyXover_eq]
      · refine Eq.trans ?_ bind_pure_unit.symm
        rw [List.forM_map]
        refine forM_congr fun k hk => ?_
        have hindex16 : (UInt16.ofNat k).toNat = k := by
          rw [UInt16.toNat_ofNat',Nat.mod_eq_of_lt (lt_of_fits hindex hk)]
        exact (congrArg (Crossover.setCoefficients dsp floats spec g · _) hindex16).symm
      · simp
    · obtain rfl := Option.some.inj h
      rw [List.forM_map,← okOr_forM _ _ (range_ne_nil group)]
      refine congrArg (okOr xover _ >>= ·) (funext fun spec => ?_)
      show Dialogue.lift _ >>= _ = _
      rw [intoRange_of_fits hgroup,lift_ok_bind rfl]
      refine forM_congr fun g _ => ?_
      rw [applyXover_eq _ _ _ (by simp)]
      rfl
    · cases h
  · rw [if_neg hfits] at h
    cases h

/-! Whole commands. -/

theorem apply_ofInput (i : ℕ) (gate : Model.Gate) (peq : List Model.Peq)
    (routing : List Model.RoutingEntry) (polls : ℕ) :
    (ofInput i gate peq routing).apply dsp floats polls = Model.openInput dsp i >>=
      Model.Input.apply dsp floats ⟨some i,gate,peq,routing⟩ := by
  show (((Model.openInput dsp i >>= Model.Input.apply dsp floats ⟨some i,gate,peq,routing⟩) >>=
    fun _ => (pure () : Call Unit)) >>= fun _ => (pure () : Call Unit)) = _
  rw [bind_pure_unit,bind_pure_unit]

theorem apply_ofOutput (output : Model.Output) (polls : ℕ) :
    Model.Config.apply dsp floats ⟨none,[],[output]⟩ polls =
      okOr output.index Model.missingOutput >>= fun i =>
        Model.openOutput dsp i >>= output.apply dsp floats := by
  show ((okOr output.index Model.missingOutput >>= fun i =>
    Model.openOutput dsp i >>= output.apply dsp floats) >>= fun _ => (pure () : Call Unit)) = _
  exact bind_pure_unit

theorem runInput_some {cmd : InputCommand} {i : ℕ} {config : Model.Config} {input : Device.Input}
    (hi : dsp.device.inputs[i]? = some input)
    (h : InputCommand.asConfig dsp i cmd = some config) (polls : ℕ) :
    runInput dsp floats host cmd i = config.apply dsp floats polls := by
  have hopen : Model.openInput dsp i = pure input := by rw [Model.openInput,hi]; rfl
  rw [runInput,hopen,pure_bind]
  cases cmd with
  | gain value =>
    obtain rfl := Option.some.inj h
    rw [apply_ofInput,hopen,pure_bind]
    exact bind_pure_unit.symm
  | mute value =>
    obtain rfl := Option.some.inj h
    rw [apply_ofInput,hopen,pure_bind]
    show _ = ((_ >>= fun _ => pure ()) >>= fun _ => pure ())
    rw [bind_pure_unit,bind_pure_unit]
    rfl
  | routing j cmd =>
    cases cmd with
    | enable value =>
      obtain rfl := Option.some.inj h
      rw [apply_ofInput,hopen,pure_bind]
      show dsp.setOutputEnable input j value =
        (dsp.setOutputEnable input j (!!value) >>= fun _ => pure ())
      rw [bind_pure_unit,Bool.not_not]
    | gain value =>
      obtain rfl := Option.some.inj h
      rw [apply_ofInput,hopen,pure_bind]
      show _ = ((_ >>= fun _ => pure ()) >>= fun _ => pure ())
      rw [bind_pure_unit,bind_pure_unit]
      rfl
  | peq index cmd =>
    rw [InputCommand.asConfig,hi] at h
    obtain ⟨configs,hconfigs,rfl⟩ := Option.map_eq_some_iff.mp h
    rw [apply_ofInput,hopen,pure_bind]
    exact (runPeqs_eq hconfigs).trans bind_pure_unit.symm

theorem InputCommand.asConfig_shape {cmd : InputCommand} {i : ℕ} {config : Model.Config}
    (h : InputCommand.asConfig dsp i cmd = some config) :
    ∃ gate peq routing, config = ofInput i gate peq routing := by
  cases cmd with
  | peq index cmd =>
    obtain ⟨configs,-,rfl⟩ := Option.map_eq_some_iff.mp h
    exact ⟨_,_,_,rfl⟩
  | routing j cmd => cases cmd <;> exact ⟨_,_,_,(Option.some.inj h).symm⟩
  | _ => exact ⟨_,_,_,(Option.some.inj h).symm⟩

theorem runInput_eq {cmd : InputCommand} {i : ℕ} {config : Model.Config}
    (h : InputCommand.asConfig dsp i cmd = some config) (polls : ℕ) :
    runInput dsp floats host cmd i = config.apply dsp floats polls := by
  cases hi : dsp.device.inputs[i]? with
  | none =>
    obtain ⟨gate,peq,routing,rfl⟩ := InputCommand.asConfig_shape h
    rw [apply_ofInput,runInput,Model.openInput,hi]
    rfl
  | some input => exact runInput_some hi h polls

theorem OutputCommand.asOutput_index {cmd : OutputCommand} {i : ℕ} {o : Model.Output}
    (h : OutputCommand.asOutput dsp host i cmd = some o) : o.index = some i := by
  cases cmd with
  | delay delay =>
    rw [asOutput] at h
    split at h
    · obtain rfl := Option.some.inj h
      rfl
    · cases h
  | peq index cmd =>
    obtain ⟨configs,-,rfl⟩ := Option.map_eq_some_iff.mp h
    rfl
  | fir cmd =>
    obtain ⟨config,-,rfl⟩ := Option.map_eq_some_iff.mp h
    rfl
  | crossover group index cmd =>
    obtain ⟨configs,-,rfl⟩ := Option.map_eq_some_iff.mp h
    rfl
  | _ =>
    obtain rfl := Option.some.inj h
    rfl

theorem runOutput_some {cmd : OutputCommand} {i : ℕ} {o : Model.Output} {output : Device.Output}
    (hi : dsp.device.outputs[i]? = some output)
    (ho : OutputCommand.asOutput dsp host i cmd = some o) :
    runOutput dsp floats host i cmd = o.apply dsp floats output := by
  have hopen : Model.openOutput dsp i = pure output := by rw [Model.openOutput,hi]; rfl
  rw [runOutput,hopen,pure_bind]
  cases cmd with
  | mute value =>
    obtain rfl := Option.some.inj ho
    show _ = ((_ >>= fun _ => pure ()) >>= fun _ => pure ())
    rw [bind_pure_unit,bind_pure_unit]
    rfl
  | delay delay =>
    rw [OutputCommand.asOutput] at ho
    cases hmicros : host.micros delay with
    | error e =>
      rw [hmicros] at ho
      cases ho
    | ok micros =>
      rw [hmicros] at ho
      obtain rfl := Option.some.inj ho
      refine (lift_ok_bind hmicros _).trans ?_
      exact bind_pure_unit.symm
  | peq index cmd =>
    rw [OutputCommand.asOutput,hi] at ho
    obtain ⟨configs,hconfigs,rfl⟩ := Option.map_eq_some_iff.mp ho
    exact (runPeqs_eq hconfigs).trans bind_pure_unit.symm
  | fir cmd =>
    obtain ⟨config,hconfig,rfl⟩ := Option.map_eq_some_iff.mp ho
    simp only [runFir_eq hconfig]
    rfl
  | crossover group index cmd =>
    obtain ⟨configs,hconfigs,rfl⟩ := Option.map_eq_some_iff.mp ho
    exact (runXover_eq hconfigs output.xover).trans bind_pure_unit.symm
  | _ =>
    obtain rfl := Option.some.inj ho
    exact bind_pure_unit.symm

theorem runOutput_eq {cmd : OutputCommand} {i : ℕ} {o : Model.Output}
    (h : OutputCommand.asOutput dsp host i cmd = some o) (polls : ℕ) :
    runOutput dsp floats host i cmd = Model.Config.apply dsp floats ⟨none,[],[o]⟩ polls := by
  rw [apply_ofOutput,OutputCommand.asOutput_index h]
  show _ = Model.openOutput dsp i >>= o.apply dsp floats
  cases hi : dsp.device.outputs[i]? with
  | none =>
    rw [runOutput,Model.openOutput,hi]
    rfl
  | some output =>
    rw [runOutput_some hi h,Model.openOutput,hi]
    rfl

theorem toggled_eq {dsp : MiniDSP} {current : MasterStatus → Option Bool} {value : ToggleBool}
    {b : Bool} (h : switched value = some b) : toggled dsp current value = pure b := by
  cases value with
  | toggle => cases h
  | _ =>
    obtain rfl := Option.some.inj h
    rfl

theorem apply_ofMaster (status : MasterStatus) (polls : ℕ) :
    (ofMaster status).apply dsp floats polls = status.apply polls dsp := by
  show status.apply polls dsp >>= (fun _ => (pure () : Call Unit)) = _
  exact bind_pure_unit

/-- A command that sets something does to every device what its configuration does, and ends
as that does. -/
theorem runCommand_eq_apply (dsp : MiniDSP) (floats : Floats) (host : Host) (polls : ℕ)
    (cmd : SubCommand) (config : Model.Config)
    (h : SubCommand.asConfig dsp host cmd = some config) :
    runCommand dsp floats host polls cmd = config.apply dsp floats polls := by
  cases cmd with
  | gain value relative =>
    cases relative with
    | true => cases h
    | false =>
      obtain rfl := Option.some.inj h
      rw [apply_ofMaster]
      exact bind_pure_unit.symm
  | mute value =>
    obtain ⟨mute,hmute,rfl⟩ := Option.map_eq_some_iff.mp h
    rw [apply_ofMaster,runCommand,toggled_eq hmute]
    exact bind_pure_unit.symm
  | source value =>
    obtain rfl := Option.some.inj h
    rw [apply_ofMaster]
    exact bind_pure_unit.symm
  | config value =>
    obtain rfl := Option.some.inj h
    rw [apply_ofMaster]
    exact bind_pure_unit.symm
  | dirac value =>
    obtain ⟨dirac,hdirac,rfl⟩ := Option.map_eq_some_iff.mp h
    rw [apply_ofMaster,runCommand,toggled_eq hdirac]
    rfl
  | input i cmd => exact runInput_eq h polls
  | output i cmd =>
    obtain ⟨o,ho,rfl⟩ := Option.map_eq_some_iff.mp h
    exact runOutput_eq ho polls
  | status => cases h

def bareHost : Host :=
  ⟨fun _ => none,fun _ => .ok 0,fun _ _ => .error (.error (.ioError "No such file or directory"))⟩

theorem runCommand_eq_apply_clear :
    runCommand Model.deskDsp Xover.noFloats bareHost 0 (.output 0 (.peq .all .clear)) =
      Model.Config.apply Model.deskDsp Xover.noFloats ⟨none,[],[{ blankOutput 0 with
        peq := [⟨some 0,some .default,none⟩,⟨some 0,none,some false⟩,
          ⟨some 1,some .default,none⟩,⟨some 1,none,some false⟩] }]⟩ 0 :=
  runCommand_eq_apply Model.deskDsp Xover.noFloats bareHost 0 (.output 0 (.peq .all .clear)) _ rfl

end

end Handlers
end Minidsp
