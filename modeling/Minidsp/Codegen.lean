import Mathlib.Data.List.Forall2
import Mathlib.Data.List.Sort
import Minidsp.Device
import Minidsp.LinearUse

/-! The generator of device definitions: it refers to the symbols of a firmware by their names,
and uses each of them up. -/
namespace Minidsp

open Buffer LinearUse

structure Ident where
  string : String
  deriving DecidableEq, Repr

/-- `Ident::new` panics at what is no identifier. -/
def Ident.new (isIdent : String → Bool) (string : String) : Exec Empty Ident :=
  if isIdent string then .ok ⟨string⟩
  else .error (.panic (.explicit s!"{string} is not a valid Ident"))

abbrev SymbolMap := BiMap String ℕ

abbrev Gen := StateT SymbolMap (Exec Empty)

/-! Definitions of devices, of which the addresses are names in the specification and identifiers
in the code. -/

namespace Spec

variable {σ : Type}

structure Gate (σ : Type) where
  enable : σ
  gain : Option σ
  deriving DecidableEq, Repr

structure Compressor (σ : Type) where
  bypass : σ
  threshold : σ
  ratio : σ
  attack : σ
  release : σ
  meter : Option σ
  deriving DecidableEq, Repr

structure Crossover (σ : Type) where
  peqs : List σ
  deriving DecidableEq, Repr

structure Fir (σ : Type) where
  index : UInt8
  numCoefficients : σ
  bypass : σ
  maxCoefficients : UInt16
  deriving DecidableEq, Repr

structure Input (σ : Type) where
  gate : Option (Gate σ)
  meter : Option σ
  peq : List σ
  routing : List (Gate σ)
  deriving DecidableEq, Repr

structure Output (σ : Type) where
  gate : Gate σ
  meter : Option σ
  delayAddr : Option σ
  invertAddr : σ
  peq : List σ
  xover : Option (Crossover σ)
  compressor : Option (Compressor σ)
  fir : Option (Fir σ)
  deriving DecidableEq, Repr

structure Device (σ : Type) where
  productName : String
  sources : List σ
  inputs : List (Input σ)
  outputs : List (Output σ)
  firMaxTaps : UInt16
  internalSamplingRate : UInt32
  dialect : Dialect
  deriving DecidableEq, Repr

/-! The translation, in the order in which the fields are resolved. -/

section
variable (resolve : String → Gen Ident)

def Gate.toSymbolTokens (g : Gate String) : Gen (Gate Ident) := do
  let enable ← resolve g.enable
  let gain ← g.gain.mapM resolve
  return { enable,gain }

def Compressor.toSymbolTokens (c : Compressor String) : Gen (Compressor Ident) := do
  let bypass ← resolve c.bypass
  let threshold ← resolve c.threshold
  let ratio ← resolve c.ratio
  let attack ← resolve c.attack
  let release ← resolve c.release
  let meter ← c.meter.mapM resolve
  return { bypass,threshold,ratio,attack,release,meter }

def Crossover.toSymbolTokens (c : Crossover String) : Gen (Crossover Ident) := do
  let peqs ← c.peqs.mapM resolve
  return { peqs }

def Fir.toSymbolTokens (f : Fir String) : Gen (Fir Ident) := do
  let bypass ← resolve f.bypass
  let numCoefficients ← resolve f.numCoefficients
  return { index := f.index,bypass,numCoefficients,maxCoefficients := f.maxCoefficients }

def Input.toSymbolTokens (i : Input String) : Gen (Input Ident) := do
  let gate ← i.gate.mapM (Gate.toSymbolTokens resolve)
  let meter ← i.meter.mapM resolve
  let routing ← i.routing.mapM (Gate.toSymbolTokens resolve)
  let peq ← i.peq.mapM resolve
  return { gate,meter,routing,peq }

def Output.toSymbolTokens (o : Output String) : Gen (Output Ident) := do
  let gate ← o.gate.toSymbolTokens resolve
  let meter ← o.meter.mapM resolve
  let delayAddr ← o.delayAddr.mapM resolve
  let invertAddr ← resolve o.invertAddr
  let peq ← o.peq.mapM resolve
  let xover ← o.xover.mapM (Crossover.toSymbolTokens resolve)
  let compressor ← o.compressor.mapM (Compressor.toSymbolTokens resolve)
  let fir ← o.fir.mapM (Fir.toSymbolTokens resolve)
  return { gate,meter,delayAddr,invertAddr,peq,xover,compressor,fir }

def Device.toSymbolTokens (isIdent : String → Bool) (d : Device String) : Gen (Device Ident) := do
  let inputs ← d.inputs.mapM (Input.toSymbolTokens resolve)
  let outputs ← d.outputs.mapM (Output.toSymbolTokens resolve)
  -- the names of the sources are looked at last, when the tokens are put together
  let sources ← StateT.lift (d.sources.mapM (Ident.new isIdent))
  return { productName := d.productName,sources,inputs,outputs,firMaxTaps := d.firMaxTaps,
           internalSamplingRate := d.internalSamplingRate,dialect := d.dialect }

end

/-! What a definition refers to. -/

def Gate.refs (g : Gate σ) : List σ := [[g.enable],g.gain.toList].flatten

def Compressor.refs (c : Compressor σ) : List σ :=
  [[c.bypass],[c.threshold],[c.ratio],[c.attack],[c.release],c.meter.toList].flatten

def Crossover.refs (c : Crossover σ) : List σ := [c.peqs].flatten

def Fir.refs (f : Fir σ) : List σ := [[f.bypass],[f.numCoefficients]].flatten

def Input.refs (i : Input σ) : List σ :=
  [i.gate.toList.flatMap Gate.refs,i.meter.toList,i.routing.flatMap Gate.refs,i.peq].flatten

def Output.refs (o : Output σ) : List σ :=
  [o.gate.refs,o.meter.toList,o.delayAddr.toList,[o.invertAddr],o.peq,
    o.xover.toList.flatMap Crossover.refs,o.compressor.toList.flatMap Compressor.refs,
    o.fir.toList.flatMap Fir.refs].flatten

def Device.refs (d : Device σ) : List σ :=
  [d.inputs.flatMap Input.refs,d.outputs.flatMap Output.refs].flatten

section
variable {resolve : String → Gen Ident}

theorem Gate.visits (g : Gate String) :
    Visits resolve [] (g.toSymbolTokens resolve) g.refs Gate.refs :=
  .bind (.one _) fun _ => .bind (.optionOne _) fun _ => .pure (by simp [refs])

theorem Compressor.visits (c : Compressor String) :
    Visits resolve [] (c.toSymbolTokens resolve) c.refs Compressor.refs :=
  .bind (.one _) fun _ => .bind (.one _) fun _ => .bind (.one _) fun _ => .bind (.one _) fun _ =>
    .bind (.one _) fun _ => .bind (.optionOne _) fun _ => .pure (by simp [refs])

theorem Crossover.visits (c : Crossover String) :
    Visits resolve [] (c.toSymbolTokens resolve) c.refs Crossover.refs :=
  .bind (.ones _) fun _ => .pure (by simp [refs])

theorem Fir.visits (f : Fir String) :
    Visits resolve [] (f.toSymbolTokens resolve) f.refs Fir.refs :=
  .bind (.one _) fun _ => .bind (.one _) fun _ => .pure (by simp [refs])

theorem Input.visits (i : Input String) :
    Visits resolve [] (i.toSymbolTokens resolve) i.refs Input.refs :=
  .bind (.option Gate.visits _) fun _ => .bind (.optionOne _) fun _ =>
    .bind (.list Gate.visits _) fun _ => .bind (.ones _) fun _ => .pure (by simp [refs])

theorem Output.visits (o : Output String) :
    Visits resolve [] (o.toSymbolTokens resolve) o.refs Output.refs :=
  .bind o.gate.visits fun _ => .bind (.optionOne _) fun _ => .bind (.optionOne _) fun _ =>
    .bind (.one _) fun _ => .bind (.ones _) fun _ => .bind (.option Crossover.visits _) fun _ =>
      .bind (.option Compressor.visits _) fun _ => .bind (.option Fir.visits _) fun _ =>
        .pure (by simp [refs])

theorem Device.visits (isIdent : String → Bool) (d : Device String) :
    Visits resolve [] (d.toSymbolTokens resolve isIdent) d.refs Device.refs :=
  .bind (.list Input.visits _) fun _ => .bind (.list Output.visits _) fun _ =>
    .lift_bind fun _ => .pure (by simp [refs])

end
end Spec

namespace Codegen

structure SymModule where
  consts : List (Ident × ℕ)
  symbols : List (String × Ident)
  deriving DecidableEq, Repr

structure StaticConfig where
  sym : SymModule
  device : Spec.Device Ident
  deriving DecidableEq, Repr

def SymModule.value? (sym : SymModule) (ident : Ident) : Option ℕ :=
  (sym.consts.find? (·.1 = ident)).map Prod.snd

section
variable (isIdent : String → Bool) (toScreamingSnakeCase : String → String)

def generateSymbols (symbols : SymbolMap) : Exec Empty SymModule := do
  let syms := symbols.entries.mergeSort fun a b => a.2 ≤ b.2
  let vals ← syms.mapM fun s => do
    let k ← Ident.new isIdent (toScreamingSnakeCase s.1)
    return (k,s.2)
  let mapped ← syms.mapM fun s => do
    let name := toScreamingSnakeCase s.1
    let symRef ← Ident.new isIdent name
    return (name,symRef)
  return ⟨vals,mapped⟩

def resolveSymbol (name : String) : Gen Ident := fun symbols =>
  if name.isEmpty then .error (.panic (.explicit "missing item"))
  else
    match symbols.removeByLeft name with
    | none => .error (.panic (.explicit s!"Couldn't find config entry {name}"))
    | some (_,symbols) => do
      let name ← Ident.new isIdent (toScreamingSnakeCase name)
      return (name,symbols)

/-- The code, and the symbols that nothing refers to. -/
def generateStaticConfig (symbolMap : SymbolMap) (spec : Spec.Device String) :
    Exec Empty (StaticConfig × SymbolMap) := do
  let symbols ← generateSymbols isIdent toScreamingSnakeCase symbolMap
  let (device,symbolMap) ←
    (spec.toSymbolTokens (resolveSymbol isIdent toScreamingSnakeCase) isIdent).run symbolMap
  return (⟨symbols,device⟩,symbolMap)

end

section
variable {isIdent : String → Bool} {toScreamingSnakeCase : String → String} {symbols : SymbolMap}

theorem ident_new_ok {string : String} {ident : Ident}
    (h : Ident.new isIdent string = .ok ident) : ident = ⟨string⟩ := by
  unfold Ident.new at h
  split_ifs at h
  exact (Except.ok.inj h).symm

theorem resolveSymbol_takes :
    Takes (resolveSymbol isIdent toScreamingSnakeCase) fun name =>
      ⟨toScreamingSnakeCase name⟩ := by
  intro name symbols ident symbols' h
  change resolveSymbol isIdent toScreamingSnakeCase name symbols = _ at h
  unfold resolveSymbol at h
  split_ifs at h
  cases hremove : symbols.removeByLeft name with
  | none => rw [hremove] at h; cases h
  | some r =>
    obtain ⟨hmem,hrest⟩ := symbols.removeByLeft_some hremove
    rw [hremove] at h
    obtain ⟨ident',hident,hpure⟩ := exec_bind_eq_ok.mp h
    cases hpure
    exact ⟨hmem,hrest,ident_new_ok hident⟩

theorem generateSymbols_ok {sym : SymModule}
    (h : generateSymbols isIdent toScreamingSnakeCase symbols = .ok sym) :
    sym.consts = (symbols.entries.mergeSort fun a b => a.2 ≤ b.2).map
      (fun s => (⟨toScreamingSnakeCase s.1⟩,s.2)) ∧
    sym.symbols = (symbols.entries.mergeSort fun a b => a.2 ≤ b.2).map
      (fun s => (toScreamingSnakeCase s.1,⟨toScreamingSnakeCase s.1⟩)) := by
  obtain ⟨vals,hvals,hrest⟩ := exec_bind_eq_ok.mp h
  obtain ⟨mapped,hmapped,hpure⟩ := exec_bind_eq_ok.mp hrest
  cases hpure
  constructor
  · refine mapM_eq_map (fun s y hy => ?_) hvals
    obtain ⟨ident,hident,hpure⟩ := exec_bind_eq_ok.mp hy
    cases hpure
    rw [ident_new_ok hident]
  · refine mapM_eq_map (fun s y hy => ?_) hmapped
    obtain ⟨ident,hident,hpure⟩ := exec_bind_eq_ok.mp hy
    cases hpure
    rw [ident_new_ok hident]

/-- The generated device refers to symbols of the map only, to none of them twice, and each
constant it refers to is the address of its symbol. -/
structure Linear (toScreamingSnakeCase : String → String) (symbols : SymbolMap)
    (spec : Spec.Device String) (config : StaticConfig) : Prop where
  mem : ∀ name ∈ spec.refs, name ∈ symbols.lefts
  nodup : spec.refs.Nodup
  refs : config.device.refs = spec.refs.map fun name => ⟨toScreamingSnakeCase name⟩
  addresses : ∃ addrs : List ℕ, addrs.Nodup ∧
    List.Forall₂ (fun ident addr => config.sym.value? ident = some addr) config.device.refs addrs
  consts : config.sym.consts.Perm
    (symbols.entries.map fun s => (⟨toScreamingSnakeCase s.1⟩,s.2))
  table : config.sym.symbols.Perm
    (symbols.entries.map fun s => (toScreamingSnakeCase s.1,⟨toScreamingSnakeCase s.1⟩))

theorem value?_eq {sym : SymModule}
    (hinj : ∀ a ∈ symbols.lefts, ∀ b ∈ symbols.lefts,
      toScreamingSnakeCase a = toScreamingSnakeCase b → a = b)
    (hconsts : sym.consts.Perm (symbols.entries.map fun s => (⟨toScreamingSnakeCase s.1⟩,s.2)))
    {name : String} {addr : ℕ} (h : (name,addr) ∈ symbols.entries) :
    sym.value? ⟨toScreamingSnakeCase name⟩ = some addr := by
  have hmem : (⟨toScreamingSnakeCase name⟩,addr) ∈ sym.consts :=
    hconsts.mem_iff.mpr (List.mem_map.mpr ⟨_,h,rfl⟩)
  rw [SymModule.value?]
  cases hfind : sym.consts.find? (·.1 = ⟨toScreamingSnakeCase name⟩) with
  | none => exact absurd hmem (by simpa using List.find?_eq_none.mp hfind _ hmem)
  | some const =>
    have hconst := hconsts.mem_iff.mp (List.mem_of_find?_eq_some hfind)
    obtain ⟨⟨name',addr'⟩,hentry,rfl⟩ := List.mem_map.mp hconst
    have hsnake : toScreamingSnakeCase name' = toScreamingSnakeCase name := by
      simpa using List.find?_some hfind
    have hname : name' = name := hinj _ (symbols.mem_lefts_of_mem hentry) _
      (symbols.mem_lefts_of_mem h) hsnake
    subst hname
    exact congrArg some (congrArg Prod.snd
      (List.inj_on_of_nodup_map symbols.left_nodup hentry h rfl))

theorem generateStaticConfig_linear
    (hinj : ∀ a ∈ symbols.lefts, ∀ b ∈ symbols.lefts,
      toScreamingSnakeCase a = toScreamingSnakeCase b → a = b)
    {spec : Spec.Device String} {config : StaticConfig} {rest : SymbolMap}
    (h : generateStaticConfig isIdent toScreamingSnakeCase symbols spec = .ok (config,rest)) :
    Linear toScreamingSnakeCase symbols spec config := by
  obtain ⟨sym,hsym,hrest⟩ := exec_bind_eq_ok.mp h
  obtain ⟨⟨device,symbols'⟩,hdevice,hpure⟩ := exec_bind_eq_ok.mp hrest
  cases hpure
  obtain ⟨hmem,hnodup,hrefs⟩ := (spec.visits isIdent).takes resolveSymbol_takes hdevice
  obtain ⟨hconsts,htable⟩ := generateSymbols_ok hsym
  have hsorted := List.mergeSort_perm symbols.entries fun a b => a.2 ≤ b.2
  have hperm : sym.consts.Perm
      (symbols.entries.map fun s => (⟨toScreamingSnakeCase s.1⟩,s.2)) :=
    hconsts ▸ hsorted.map _
  refine ⟨hmem,hnodup,hrefs,?_,hperm,htable ▸ hsorted.map _⟩
  choose! addr haddr using fun name hname => symbols.exists_of_mem_lefts (hmem name hname)
  refine ⟨spec.refs.map addr,hnodup.map_on fun a ha b hb hab => ?_,?_⟩
  · exact symbols.left_eq_of_right (haddr a ha) (hab ▸ haddr b hb)
  · change List.Forall₂ _ device.refs _
    rw [hrefs,List.forall₂_map_left_iff,List.forall₂_map_right_iff]
    exact List.forall₂_same.mpr fun name hname => value?_eq hinj hperm (haddr name hname)

theorem generateStaticConfig_gate :
    let symbols : SymbolMap := ⟨[("gain",3),("mute",7),("unused",8)],by decide,by decide⟩
    let upper := fun name => if name = "gain" then "GAIN" else if name = "mute" then "MUTE" else
      "UNUSED"
    let spec : Spec.Device String :=
      ⟨"2x4",["Analog"],[⟨some ⟨"mute",some "gain"⟩,none,[],[]⟩],[],0,48000,.constDefault⟩
    ∃ config rest, generateStaticConfig (fun _ => true) upper symbols spec = .ok (config,rest) ∧
      Linear upper symbols spec config := by
  intro symbols upper spec
  have hsorted : symbols.entries.mergeSort (fun a b => a.2 ≤ b.2) = symbols.entries :=
    List.mergeSort_of_pairwise (by decide)
  have hrun : ∃ r, generateStaticConfig (fun _ => true) upper symbols spec = .ok r := by
    rw [generateStaticConfig,generateSymbols,hsorted]
    exact ⟨_,rfl⟩
  obtain ⟨⟨config,rest⟩,hok⟩ := hrun
  have hinj : ∀ a ∈ symbols.lefts, ∀ b ∈ symbols.lefts, upper a = upper b → a = b := by decide
  exact ⟨config,rest,hok,generateStaticConfig_linear hinj hok⟩

end
end Codegen
end Minidsp
