import Minidsp.Controls

/-! Applying a configuration is performing its items one after the other. -/
namespace Minidsp

open Buffer Dialogue

theorem forM_flatMap {α β : Type} (xs : List α) (g : α → List β) (f : β → Call Unit) :
    forM (xs.flatMap g) f = forM xs fun x => forM (g x) f := by
  induction xs with
  | nil => rfl
  | cons x xs ih => rw [List.flatMap_cons,List.forM_append,List.forM_cons,ih]

namespace Model

variable {dsp : MiniDSP} {floats : Floats}

/-! Lists of items. -/

theorem performAll_cons (item : Item) (items : List Item) :
    performAll dsp (item :: items) = item.perform dsp >>= fun _ => performAll dsp items :=
  List.forM_cons

theorem performAll_append (items items' : List Item) : performAll dsp (items ++ items') =
    performAll dsp items >>= fun _ => performAll dsp items' := List.forM_append

theorem performAll_flatMap {α : Type} (xs : List α) (f : α → List Item) :
    performAll dsp (xs.flatMap f) = forM xs fun x => performAll dsp (f x) :=
  forM_flatMap xs f (Item.perform dsp)

theorem performAll_singleton (item : Item) : performAll dsp [item] = item.perform dsp := by
  rw [performAll_cons]
  exact bind_pure (item.perform dsp)

theorem performAll_toList {α : Type} (x : Option α) (f : α → Item) :
    performAll dsp (x.toList.map f) = forM x fun a => (f a).perform dsp := by
  cases x with
  | none => rfl
  | some a => exact performAll_singleton (f a)

theorem performAll_toList_flatMap {α : Type} (x : Option α) (f : α → List Item) :
    performAll dsp (x.toList.flatMap f) = forM x fun a => performAll dsp (f a) := by
  cases x with
  | none => rfl
  | some a =>
    rw [Option.toList_some,List.flatMap_cons,List.flatMap_nil,List.append_nil]
    rfl

theorem performAll_indexed (index : Option ℕ) (e : MiniDSPError) (items : ℕ → List Item) :
    performAll dsp (indexed index e items) =
      okOr index e >>= fun i => performAll dsp (items i) := by
  cases index with
  | none => exact performAll_singleton _
  | some i => rfl

theorem perform_need {part : Part} (h : part.find dsp = .ok ()) :
    (Item.need part).perform dsp = pure () := by
  rw [Item.perform,h]
  rfl

theorem lookup_ok {α : Type} {x : Option α} {a : α} {e : MiniDSPError} (h : x = some a) :
    Lookup.of x e = .ok a := by rw [h]; rfl

/-! The parts of a configuration. -/

section Channels

variable {p : Port} {channel : MiniDSP.Channel} (hp : p.channel dsp = .ok channel)
include hp

theorem perform_mute (value : Bool) :
    (Item.set (.word (.mute p) (dsp.device.dialect.mute value))).perform dsp =
      dsp.setMute channel value := by
  simp only [Item.perform,Setting.command,WordControl.addr,hp,lift_bind,lift_of,lift_ok,lift_pure,
    pure_bind,bind_assoc]
  rfl

theorem perform_gain (value : Gain) :
    (Item.set (.word (.gain p) (dsp.device.dialect.db floats value.val))).perform dsp =
      dsp.setGain floats channel value := by
  simp only [Item.perform,Setting.command,WordControl.addr,hp,lift_bind,lift_of,lift_ok,lift_pure,
    pure_bind,bind_assoc]
  rfl

theorem perform_gate (config : Gate) :
    performAll dsp (config.items dsp floats p) = config.apply dsp floats channel := by
  simp only [Gate.items,performAll_append,performAll_toList,perform_mute hp,perform_gain hp]
  rfl

theorem perform_peq (config : Peq) : performAll dsp (config.items dsp floats p) =
    okOr config.index missingPeq >>= fun j => dsp.peq channel j >>= config.apply dsp floats := by
  rw [Peq.items,performAll_indexed]
  congr 1
  funext j
  rw [performAll_cons,performAll_append,performAll_toList,performAll_toList]
  simp only [Item.perform,Setting.command,Part.find,FlagControl.addr,FilterControl.addr,peqAddr,hp,
    lift_bind,lift_of,lift_ok,lift_pure,pure_bind,MiniDSP.peq]
  cases channel.peq[j]? <;> rfl

theorem perform_peqs (peqs : List Peq) :
    performAll dsp (peqs.flatMap fun peq => peq.items dsp floats p) =
      applyPeqs dsp floats peqs channel := by
  rw [performAll_flatMap]
  simp only [perform_peq hp]
  rfl

end Channels

theorem perform_routing {i : ℕ} {input : Device.Input} (hi : inputSpec dsp i = .ok input)
    (config : RoutingEntry) : performAll dsp (config.items dsp floats i) =
      config.apply dsp floats input := by
  rw [RoutingEntry.items,performAll_indexed,RoutingEntry.apply]
  congr 1
  funext j
  rw [performAll_append,performAll_toList,performAll_toList]
  simp only [Item.perform,Setting.command,WordControl.addr,hi,lift_bind,lift_of,lift_ok,pure_bind,
    bind_assoc]
  simp only [MiniDSP.setOutputEnable,Bool.not_not]
  rfl

theorem perform_input (config : Input) :
    performAll dsp (config.items dsp floats) = okOr config.index missingInput >>= fun i =>
      openInput dsp i >>= config.apply dsp floats := by
  rw [Input.items,performAll_indexed]
  congr 1
  funext i
  rw [performAll_cons,openInput]
  cases hi : dsp.device.inputs[i]? with
  | none =>
    simp only [Item.perform,Part.find,Port.channel,inputSpec,hi]
    rfl
  | some input =>
    have hinput : inputSpec dsp i = .ok input := by rw [inputSpec,hi]; rfl
    have hp : Port.channel dsp (.input i) = .ok (MiniDSP.ofInput input) := by
      rw [Port.channel,hinput]
      rfl
    have hport : Part.find dsp (.port (.input i)) = .ok () := by rw [Part.find,hp]; rfl
    rw [perform_need hport,pure_bind,performAll_append,performAll_append,perform_gate hp,
      perform_peqs hp,performAll_flatMap]
    simp only [perform_routing hinput]
    rw [bind_assoc]
    rfl

section Outputs

variable {i : ℕ} {output : Device.Output} (ho : outputSpec dsp i = .ok output)
include ho

theorem perform_invert (value : Bool) :
    (Item.set (.word (.invert i) (dsp.device.dialect.invert value))).perform dsp =
      dsp.setInvert output value := by
  simp only [Item.perform,Setting.command,WordControl.addr,ho,lift_bind,lift_ok,lift_pure,pure_bind]
  rfl

theorem perform_delay (micros : ℕ) :
    (delayItem dsp i micros).perform dsp = dsp.setDelay output micros := by
  simp only [delayItem,MiniDSP.setDelay]
  by_cases h : 8000 < dsp.delaySamples micros
  · rw [if_pos h,if_pos h]
    rfl
  · rw [if_neg h,if_neg h]
    simp only [Item.perform,Setting.command,WordControl.addr,ho,lift_bind,lift_of,lift_ok,lift_pure,
      pure_bind,bind_assoc]
    rfl

theorem perform_compressor (config : Compressor) :
    performAll dsp (config.items dsp floats i) =
      okOr output.compressor .noSuchPeripheral >>= config.apply dsp floats := by
  rw [Compressor.items,performAll_cons]
  cases hspec : output.compressor with
  | none =>
    simp only [Item.perform,Part.find,compressorSpec,ho,lift_bind,lift_of,lift_ok,pure_bind,hspec]
    rfl
  | some spec =>
    have hcompressor : compressorSpec dsp i = .ok spec := by
      rw [compressorSpec,ho]
      exact lookup_ok hspec
    have hpart : Part.find dsp (.compressor i) = .ok () := by rw [Part.find,hcompressor]; rfl
    have hword : ∀ w value, (Item.set (.word (.compressor i w) value)).perform dsp =
        Client.writeDsp (dsp.addr (w.addr spec)) value := by
      intro w value
      simp only [Item.perform,Setting.command,WordControl.addr,hcompressor,lift_bind,lift_ok,
        lift_pure,pure_bind]
      rfl
    rw [perform_need hpart]
    simp only [performAll_append,performAll_toList,hword,bind_assoc,pure_bind]
    rfl

theorem perform_fir (config : Fir) : performAll dsp (config.items dsp i) =
    okOr output.fir .noSuchPeripheral >>= config.apply dsp := by
  rw [Fir.items,performAll_cons]
  cases hspec : output.fir with
  | none =>
    simp only [Item.perform,Part.find,firSpec,ho,lift_bind,lift_of,lift_ok,pure_bind,hspec]
    rfl
  | some spec =>
    have hfir : firSpec dsp i = .ok spec := by
      rw [firSpec,ho]
      exact lookup_ok hspec
    have hpart : Part.find dsp (.fir i) = .ok () := by rw [Part.find,hfir]; rfl
    rw [perform_need hpart]
    simp only [performAll_append,performAll_toList,Item.perform,Setting.command,WordControl.addr,
      hfir,lift_bind,lift_ok,lift_pure,pure_bind]
    rw [okOr,pure_bind,Fir.apply]
    congr 1
    funext _
    cases config.coefficients with
    | none => rfl
    | some coefficients =>
      by_cases h : coefficients.isEmpty
      · exact (congrArg (dsp.setCoefficients spec) (if_pos h)).trans (if_pos h).symm
      · exact (congrArg (dsp.setCoefficients spec) (if_neg h)).trans (if_neg h).symm

end Outputs

section Crossovers

variable {i : ℕ} {spec : Device.Crossover} (hspec : xoverSpec dsp i = .ok spec)
include hspec

theorem perform_slot (group slot : ℕ) (c : Biquad) :
    (Item.set (.filter (.xover i group slot) (Xover.words dsp floats c))).perform dsp =
      Minidsp.Crossover.setCoefficients dsp floats spec group slot c.toArray := by
  simp only [Item.perform,Setting.command,FilterControl.addr,hspec,lift_bind,lift_ok,pure_bind,
    slotAddr,Minidsp.Crossover.setCoefficients]
  by_cases h : Minidsp.Crossover.numGroups spec ≤ group ∨ Minidsp.Crossover.numFilterPerGroup ≤ slot
  · rw [if_pos h,if_pos h]
    rfl
  · rw [if_neg h,if_neg h]
    have hstart : Minidsp.Crossover.start spec group = pure (spec.peqs.getD group 0) := by
      have hg : group < spec.peqs.length := not_le.mp (not_or.mp h).1
      rw [Minidsp.Crossover.start,List.getD_eq_getElem?_getD,List.getElem?_eq_getElem hg]
      rfl
    rw [hstart,pure_bind,bind_assoc]
    rfl

theorem perform_groupBypass (group : ℕ) (value : Bool) :
    (Item.set (.flag (.xover i group) value)).perform dsp =
      Minidsp.Crossover.setBypass dsp spec group value := by
  simp only [Item.perform,Setting.command,FlagControl.addr,hspec,lift_bind,lift_ok,pure_bind,
    groupAddr,lift_of,Minidsp.Crossover.setBypass,Minidsp.Crossover.start]
  by_cases h : Minidsp.Crossover.numGroups spec ≤ group
  · rw [if_pos h,List.getElem?_eq_none h]
    rfl
  · rw [if_neg h,List.getElem?_eq_getElem (not_le.mp h)]
    rfl

theorem perform_slots (group : ℕ) {coeff : List Biquad} (h : ∀ c ∈ coeff, c.index ≠ none) :
    performAll dsp (coeff.map fun c => .set (.filter (.xover i group (c.index.getD 0).toNat)
      (Xover.words dsp floats c))) = forM coeff (Crossover.applyBiquad dsp floats spec group) := by
  induction coeff with
  | nil => rfl
  | cons c coeff ih =>
    obtain ⟨j,hj⟩ := Option.ne_none_iff_exists'.mp (h c (by simp))
    rw [List.map_cons,performAll_cons,List.forM_cons,ih fun d hd => h d (by simp [hd]),
      perform_slot hspec,Crossover.applyBiquad,hj]
    rfl

theorem perform_group (config : Crossover) : performAll dsp (config.items dsp floats i) =
    config.apply dsp floats spec := by
  have hpart : Part.find dsp (.xover i) = .ok () := by rw [Part.find,hspec]; rfl
  rw [Crossover.items,performAll_cons,perform_need hpart,pure_bind,performAll_indexed]
  rw [Crossover.apply]
  congr 1
  funext group
  by_cases h : ∃ c ∈ config.coeff, c.index = none
  · rw [if_pos (by simpa using h),Crossover.checkIndex_missing h]
    exact performAll_singleton _
  · have hall : ∀ c ∈ config.coeff, c.index ≠ none := fun c hc hnone => h ⟨c,hc,hnone⟩
    rw [if_neg (by simpa using hall),Crossover.checkIndex_all hall,pure_bind,performAll_append,
      perform_slots hspec group hall,performAll_toList]
    simp only [perform_groupBypass hspec]
    congr 1
    funext _
    rw [Crossover.applyBypass]
    cases config.bypass <;> rfl

end Crossovers

theorem perform_xover {i : ℕ} {output : Device.Output} (ho : outputSpec dsp i = .ok output)
    (config : Crossover) : performAll dsp (config.items dsp floats i) =
      okOr output.xover .noSuchPeripheral >>= config.apply dsp floats := by
  cases hspec : output.xover with
  | none =>
    rw [Crossover.items,performAll_cons]
    simp only [Item.perform,Part.find,xoverSpec,ho,lift_bind,lift_of,lift_ok,pure_bind,hspec]
    rfl
  | some spec =>
    have hxover : xoverSpec dsp i = .ok spec := by
      rw [xoverSpec,ho]
      exact lookup_ok hspec
    rw [perform_group hxover]
    rfl

theorem perform_output (config : Output) :
    performAll dsp (config.items dsp floats) = okOr config.index missingOutput >>= fun i =>
      openOutput dsp i >>= config.apply dsp floats := by
  rw [Output.items,performAll_indexed]
  congr 1
  funext i
  rw [performAll_cons,openOutput]
  cases ho : dsp.device.outputs[i]? with
  | none =>
    simp only [Item.perform,Part.find,Port.channel,outputSpec,ho]
    rfl
  | some output =>
    have houtput : outputSpec dsp i = .ok output := by rw [outputSpec,ho]; rfl
    have hp : Port.channel dsp (.output i) = .ok (MiniDSP.ofOutput output) := by
      rw [Port.channel,houtput]
      rfl
    have hport : Part.find dsp (.port (.output i)) = .ok () := by rw [Part.find,hp]; rfl
    rw [perform_need hport,pure_bind]
    simp only [performAll_append,bind_assoc]
    rw [perform_gate hp,perform_peqs hp,performAll_toList,performAll_toList,performAll_flatMap,
      performAll_toList_flatMap,performAll_toList_flatMap]
    simp only [perform_invert houtput,perform_delay houtput,perform_xover houtput,
      perform_compressor houtput,perform_fir houtput]
    rfl

/-- A configuration sets the master status, and then each control it names. -/
theorem Config.apply_eq (config : Config) (polls : ℕ) : config.apply dsp floats polls =
    forM config.masterStatus (fun status => status.apply polls dsp) >>= fun _ =>
      performAll dsp (config.items dsp floats) := by
  rw [Config.items,performAll_append,performAll_flatMap,performAll_flatMap]
  simp only [perform_input,perform_output]
  rfl

end Model
end Minidsp
