import Minidsp.ConfigApply
import Minidsp.Products
import Minidsp.Regions

/-! Where the controls of a device are in its memory. No two controls of a product share a place,
so that configurations of different controls do not disturb each other. -/
namespace Minidsp

open Buffer Dialogue

def MiniDSP.opened (kind : Option DeviceKind) (info : DeviceInfo) : MiniDSP :=
  ⟨Device.spec kind info,info⟩

namespace Model

def entries {α β : Type} (xs : List α) (f : ℕ → α → List β) : List β := (xs.mapIdx f).flatten

theorem mem_entries {α β : Type} {xs : List α} {f : ℕ → α → List β} {i : ℕ} {x : α} {b : β}
    (hx : xs[i]? = some x) (hb : b ∈ f i x) : b ∈ entries xs f := by
  obtain ⟨hi,rfl⟩ := List.getElem?_eq_some_iff.mp hx
  exact List.mem_flatten.mpr ⟨f i xs[i],List.mem_mapIdx.mpr ⟨i,hi,rfl⟩,hb⟩

section
variable (i : ℕ)

def wordRegion (c : WordControl) (addr : UInt16) : Region Control := ⟨.word c,addr.toNat,1⟩
def filterRegion (c : FilterControl) (start : ℕ) : Region Control := ⟨.filter c,start,5⟩

def gateRegions (enable gain : WordControl) (gate : Device.Gate) : List (Region Control) :=
  wordRegion enable gate.enable :: gate.gain.toList.map (wordRegion gain)

def channelRegions (p : Port) (channel : MiniDSP.Channel) : List (Region Control) :=
  channel.gate.toList.flatMap (gateRegions (.mute p) (.gain p)) ++
    entries channel.peq fun j addr => [filterRegion (.peq p j) addr.toNat]

def inputRegions (input : Device.Input) : List (Region Control) :=
  channelRegions (.input i) (MiniDSP.ofInput input) ++
    entries input.routing fun j => gateRegions (.routing i j) (.routingGain i j)

def xoverRegions (xover : Device.Crossover) : List (Region Control) :=
  entries xover.peqs fun group addr => (List.range Minidsp.Crossover.numFilterPerGroup).map
    fun slot => filterRegion (.xover i group slot) (addr.toNat + 5*slot)

def compressorRegions (compressor : Device.Compressor) : List (Region Control) :=
  [.bypass,.threshold,.ratio,.attack,.release].map fun w : CompressorWord =>
    wordRegion (.compressor i w) (w.addr compressor)

def firRegions (fir : Device.Fir) : List (Region Control) :=
  [wordRegion (.firBypass i) fir.bypass,wordRegion (.firTaps i) fir.numCoefficients]

def outputRegions (output : Device.Output) : List (Region Control) :=
  channelRegions (.output i) (MiniDSP.ofOutput output) ++
    wordRegion (.invert i) output.invertAddr ::
      output.delayAddr.toList.map (wordRegion (.delay i)) ++
    output.xover.toList.flatMap (xoverRegions i) ++
    output.compressor.toList.flatMap (compressorRegions i) ++
    output.fir.toList.flatMap (firRegions i)

end

def regions (device : Device) : List (Region Control) :=
  entries device.inputs inputRegions ++ entries device.outputs outputRegions

/-- Every control has a place of its own in the memory. -/
def LaidOut (device : Device) : Prop :=
  Region.fit 0 (regions device) = true ∧ ∀ r ∈ regions device, r.start + r.length ≤ 65536

instance (device : Device) : Decidable (LaidOut device) := inferInstanceAs (Decidable (_ ∧ _))

theorem spec_laidOut (kind : Option DeviceKind) (info : DeviceInfo) :
    LaidOut (Device.spec kind info) := by
  have hkind : ∀ k, LaidOut (Device.byKind k) := by
    intro k
    cases k <;> decide +kernel
  cases kind <;> exact hkind _

/-! The addresses of the controls are in their regions. -/

section
variable {dsp : MiniDSP} {i : ℕ} {p : Port} {a : UInt16} {r : Region Control}

theorem of_eq_ok {α : Type} {x : Option α} {e : MiniDSPError} {b : α} :
    Lookup.of x e = .ok b ↔ x = some b := by
  cases x with
  | none => exact ⟨nofun,nofun⟩
  | some b' => exact ⟨fun h => congrArg some (Except.ok.inj h),fun h => congrArg Except.ok
      (Option.some.inj h)⟩

theorem inputRegions_subset {input : Device.Input} (h : inputSpec dsp i = .ok input) :
    inputRegions i input ⊆ regions dsp.device :=
  fun _ hr => List.mem_append_left _ (mem_entries (of_eq_ok.mp h) hr)

theorem outputRegions_subset {output : Device.Output} (h : outputSpec dsp i = .ok output) :
    outputRegions i output ⊆ regions dsp.device :=
  fun _ hr => List.mem_append_right _ (mem_entries (of_eq_ok.mp h) hr)

theorem map_eq_ok {α β : Type} {x : Lookup α} {f : α → β} {b : β} (h : x.map f = .ok b) :
    ∃ a, x = .ok a ∧ b = f a := by
  cases x with
  | error e => cases h
  | ok a => exact ⟨a,rfl,(Except.ok.inj h).symm⟩

theorem channelRegions_subset {channel : MiniDSP.Channel} (h : p.channel dsp = .ok channel) :
    channelRegions p channel ⊆ regions dsp.device := by
  cases p with
  | input i =>
    obtain ⟨input,hinput,rfl⟩ := map_eq_ok h
    exact fun r hr => inputRegions_subset hinput (List.mem_append_left _ hr)
  | output i =>
    obtain ⟨output,houtput,rfl⟩ := map_eq_ok h
    refine fun r hr => outputRegions_subset houtput ?_
    simp only [outputRegions,List.mem_append]
    exact .inl (.inl (.inl (.inl hr)))

theorem xoverRegions_subset {xover : Device.Crossover} (h : xoverSpec dsp i = .ok xover) :
    xoverRegions i xover ⊆ regions dsp.device := by
  obtain ⟨output,houtput,h⟩ := exec_bind_eq_ok.mp h
  refine fun r hr => outputRegions_subset houtput ?_
  simp [outputRegions,of_eq_ok.mp h,hr]

theorem compressorRegions_subset {compressor : Device.Compressor}
    (h : compressorSpec dsp i = .ok compressor) :
    compressorRegions i compressor ⊆ regions dsp.device := by
  obtain ⟨output,houtput,h⟩ := exec_bind_eq_ok.mp h
  refine fun r hr => outputRegions_subset houtput ?_
  simp [outputRegions,of_eq_ok.mp h,hr]

theorem firRegions_subset {fir : Device.Fir} (h : firSpec dsp i = .ok fir) :
    firRegions i fir ⊆ regions dsp.device := by
  obtain ⟨output,houtput,h⟩ := exec_bind_eq_ok.mp h
  refine fun r hr => outputRegions_subset houtput ?_
  simp [outputRegions,of_eq_ok.mp h,hr]

theorem gateRegions_enable {enable gain : WordControl} (gate : Device.Gate) :
    wordRegion enable gate.enable ∈ gateRegions enable gain gate := List.mem_cons_self

theorem gateRegions_gain {enable gain : WordControl} {gate : Device.Gate} (h : gate.gain = some a) :
    wordRegion gain a ∈ gateRegions enable gain gate :=
  List.mem_cons_of_mem _ (List.mem_map_of_mem (by simp [h]))

theorem word_mem (c : WordControl) (h : c.addr dsp = .ok a) :
    wordRegion c a ∈ regions dsp.device := by
  cases c with
  | mute p =>
    obtain ⟨channel,hchannel,h⟩ := exec_bind_eq_ok.mp h
    obtain ⟨gate,hgate,h⟩ := exec_bind_eq_ok.mp h
    cases h
    exact channelRegions_subset hchannel (List.mem_append_left _ (List.mem_flatMap.mpr
      ⟨gate,by simp [of_eq_ok.mp hgate],gateRegions_enable gate⟩))
  | gain p =>
    obtain ⟨channel,hchannel,h⟩ := exec_bind_eq_ok.mp h
    obtain ⟨gate,hgate,h⟩ := exec_bind_eq_ok.mp h
    exact channelRegions_subset hchannel (List.mem_append_left _ (List.mem_flatMap.mpr
      ⟨gate,by simp [of_eq_ok.mp hgate],gateRegions_gain (of_eq_ok.mp h)⟩))
  | routing i j =>
    obtain ⟨input,hinput,h⟩ := exec_bind_eq_ok.mp h
    obtain ⟨gate,hgate,h⟩ := exec_bind_eq_ok.mp h
    cases h
    exact inputRegions_subset hinput (List.mem_append_right _ (mem_entries (of_eq_ok.mp hgate)
      (gateRegions_enable gate)))
  | routingGain i j =>
    obtain ⟨input,hinput,h⟩ := exec_bind_eq_ok.mp h
    obtain ⟨gate,hgate,h⟩ := exec_bind_eq_ok.mp h
    exact inputRegions_subset hinput (List.mem_append_right _ (mem_entries (of_eq_ok.mp hgate)
      (gateRegions_gain (of_eq_ok.mp h))))
  | invert i =>
    obtain ⟨output,houtput,h⟩ := exec_bind_eq_ok.mp h
    cases h
    exact outputRegions_subset houtput (by simp [outputRegions])
  | delay i =>
    obtain ⟨output,houtput,h⟩ := exec_bind_eq_ok.mp h
    exact outputRegions_subset houtput (by simp [outputRegions,of_eq_ok.mp h])
  | compressor i w =>
    obtain ⟨compressor,hcompressor,h⟩ := exec_bind_eq_ok.mp h
    cases h
    exact compressorRegions_subset hcompressor (by cases w <;> simp [compressorRegions])
  | firBypass i =>
    obtain ⟨fir,hfir,h⟩ := exec_bind_eq_ok.mp h
    cases h
    exact firRegions_subset hfir List.mem_cons_self
  | firTaps i =>
    obtain ⟨fir,hfir,h⟩ := exec_bind_eq_ok.mp h
    cases h
    exact firRegions_subset hfir (List.mem_cons_of_mem _ List.mem_cons_self)

theorem slotAddr_of_lt {spec : Device.Crossover} {group slot : ℕ} {start : UInt16}
    (hstart : spec.peqs[group]? = some start) (hslot : slot < Minidsp.Crossover.numFilterPerGroup) :
    slotAddr spec group slot = addU16 start (UInt16.ofNat slot * 5) := by
  obtain ⟨hgroup,-⟩ := List.getElem?_eq_some_iff.mp hstart
  have hin : ¬(Minidsp.Crossover.numGroups spec ≤ group ∨
      Minidsp.Crossover.numFilterPerGroup ≤ slot) :=
    not_or.mpr ⟨not_le.mpr hgroup,not_le.mpr hslot⟩
  rw [slotAddr,if_neg hin,List.getD_eq_getElem?_getD,hstart,Option.getD_some]

theorem slotAddr_cases (spec : Device.Crossover) (group slot : ℕ) :
    slotAddr spec group slot = .error (.error .outOfRange) ∨
      ∃ start, spec.peqs[group]? = some start ∧ slot < Minidsp.Crossover.numFilterPerGroup := by
  by_cases hin : Minidsp.Crossover.numGroups spec ≤ group ∨
      Minidsp.Crossover.numFilterPerGroup ≤ slot
  · exact .inl (if_pos hin)
  · obtain ⟨hgroup,hslot⟩ := not_or.mp hin
    rw [not_le] at hgroup hslot
    exact .inr ⟨_,List.getElem?_eq_getElem (l := spec.peqs) hgroup,hslot⟩

theorem slotAddr_eq_ok {spec : Device.Crossover} {group slot : ℕ}
    (h : slotAddr spec group slot = .ok a) : ∃ start, spec.peqs[group]? = some start ∧
      slot < Minidsp.Crossover.numFilterPerGroup ∧ a.toNat = start.toNat + 5*slot := by
  obtain hout | ⟨start,hstart,hslot⟩ := slotAddr_cases spec group slot
  · rw [hout] at h
    cases h
  · refine ⟨start,hstart,hslot,?_⟩
    rw [slotAddr_of_lt hstart hslot,addU16,Xover.offset_toNat hslot] at h
    split at h
    · rename_i hlt
      cases h
      rw [UInt16.toNat_add,Xover.offset_toNat hslot,Nat.mod_eq_of_lt hlt]
    · cases h

theorem filter_mem (c : FilterControl) (h : c.addr dsp = .ok a) :
    filterRegion c a.toNat ∈ regions dsp.device := by
  cases c with
  | peq p j =>
    obtain ⟨channel,hchannel,h⟩ := exec_bind_eq_ok.mp h
    exact channelRegions_subset hchannel (List.mem_append_right _ (mem_entries (of_eq_ok.mp h)
      (List.mem_singleton_self _)))
  | xover i group slot =>
    obtain ⟨xover,hxover,h⟩ := exec_bind_eq_ok.mp h
    obtain ⟨start,hstart,hslot,ha⟩ := slotAddr_eq_ok h
    rw [ha]
    exact xoverRegions_subset hxover (mem_entries hstart
      (List.mem_map.mpr ⟨slot,List.mem_range.mpr hslot,rfl⟩))

def FlagControl.filter : FlagControl → FilterControl
  | .peq p j => .peq p j
  | .xover i group => .xover i group 0

theorem filter_addr (c : FlagControl) (h : c.addr dsp = .ok a) : c.filter.addr dsp = .ok a := by
  cases c with
  | peq p j => exact h
  | xover i group =>
    obtain ⟨xover,hxover,h⟩ := exec_bind_eq_ok.mp h
    refine exec_bind_eq_ok.mpr ⟨xover,hxover,?_⟩
    rw [slotAddr_of_lt (of_eq_ok.mp h) (by decide),addU16,if_pos (by simpa using a.toNat_lt)]
    simp

theorem FlagControl.filter_injective : FlagControl.filter.Injective := by
  rintro (⟨p,j⟩ | ⟨i,group⟩) (⟨p',j'⟩ | ⟨i',group'⟩) h
  · cases h; rfl
  · cases h
  · cases h
  · cases h; rfl

theorem addr_toNat (a : UInt16) : (dsp.addr a).val.toNat = a.toNat := UInt16.toNat_toUInt32 a

def Control.addr (dsp : MiniDSP) : Control → Lookup UInt16
  | .word c => c.addr dsp
  | .filter c => c.addr dsp
  | .flag c => c.addr dsp

def Setting.put (dsp : MiniDSP) (a : UInt16) : Setting → Put
  | .word _ value => .words (dsp.addr a) [value]
  | .filter _ data => .words (dsp.addr a) data.toList
  | .flag _ value => .flag (dsp.addr a) value

theorem put_of_at? {s : Setting} {cell : Cell} (h : s.at? dsp cell ≠ none) :
    ∃ a, s.control.addr dsp = .ok a ∧ (s.put dsp a).at? cell ≠ none := by
  have hput : ∀ {x : Lookup UInt16} {f : UInt16 → Commands} {put : UInt16 → Put},
      s.command dsp = x >>= (fun a => pure (f a)) → (∀ a, (f a).puts = some [put a]) →
        ∃ a, x = .ok a ∧ (put a).at? cell ≠ none := by
    intro x f put hcommand hputs
    rw [Setting.at?,Setting.puts,hcommand] at h
    cases x with
    | error e => exact absurd rfl h
    | ok a =>
      refine ⟨a,rfl,fun hnone => h ?_⟩
      show ((f a).puts.getD []).findSome? _ = none
      rw [hputs a,Option.getD_some,List.findSome?_cons,hnone]
      rfl
  cases s <;> exact hput rfl fun _ => rfl

theorem region_of_at? {s : Setting} {k : ℕ} (h : s.at? dsp (.word k) ≠ none) :
    ∃ r ∈ regions dsp.device, r.owner = s.control ∧ r.Covers k := by
  obtain ⟨a,ha,hat⟩ := put_of_at? h
  cases s with
  | word c value =>
    have hk := cell_of_words hat
    rw [addr_toNat] at hk
    exact ⟨_,word_mem c ha,rfl,hk⟩
  | filter c data =>
    have hk := cell_of_words hat
    rw [addr_toNat,Vector.length_toList] at hk
    exact ⟨_,filter_mem c ha,rfl,hk⟩
  | flag c value => exact absurd rfl hat

theorem filter_of_at? {s : Setting} {k : ℕ} (h : s.at? dsp (.flag k) ≠ none) :
    ∃ c : FlagControl, s.control = .flag c ∧
      ∃ r ∈ regions dsp.device, r.owner = .filter c.filter ∧ r.Covers k := by
  obtain ⟨a,ha,hat⟩ := put_of_at? h
  cases s with
  | word c value => exact absurd rfl hat
  | filter c data => exact absurd rfl hat
  | flag c value =>
    have hk : a.toNat = k := by
      by_contra hne
      rw [Setting.put,Put.at?,addr_toNat,if_neg hne] at hat
      exact hat rfl
    refine ⟨c,rfl,_,filter_mem c.filter (filter_addr c ha),rfl,?_⟩
    show a.toNat ≤ k ∧ k < a.toNat + 5
    omega

/-- Where every control has a place of its own, two settings of a cell are of one control. -/
theorem control_eq (hdevice : LaidOut dsp.device) {s s' : Setting} {cell : Cell}
    (h : s.at? dsp cell ≠ none) (h' : s'.at? dsp cell ≠ none) : s.control = s'.control := by
  cases cell with
  | word k =>
    obtain ⟨r,hr,howner,hcovers⟩ := region_of_at? h
    obtain ⟨r',hr',howner',hcovers'⟩ := region_of_at? h'
    rw [← howner,← howner',Region.eq_of_fit hdevice.1 hr hr' hcovers hcovers']
  | flag k =>
    obtain ⟨c,hc,r,hr,howner,hcovers⟩ := filter_of_at? h
    obtain ⟨c',hc',r',hr',howner',hcovers'⟩ := filter_of_at? h'
    rw [Region.eq_of_fit hdevice.1 hr hr' hcovers hcovers',howner'] at howner
    rw [hc,hc',FlagControl.filter_injective (Control.filter.inj howner)]

end

section
variable {σ : Type} {memory : σ → Peq.Memory} {room : UInt8 → ℕ} {floats : Floats} {polls : ℕ}
variable {ι : Type} [DecidableEq ι] {peer : Service.Peer σ} {configs : ι → Config}

def hd : DeviceInfo := ⟨10,1,13,100,900000⟩

/-- No two settings of a product with different controls reach the same cell. -/
theorem controls_apart (kind : Option DeviceKind) (info : DeviceInfo) {s s' : Setting} {cell : Cell}
    (h : s.at? (.opened kind info) cell ≠ none) (h' : s'.at? (.opened kind info) cell ≠ none) :
    s.control = s'.control := control_eq (spec_laidOut kind info) h h'

theorem controls_apart_mute :
    (Setting.word (.mute (.output 0)) (.int 1)).at? (.opened none hd) (.word 2) =
      some (.inl (.int 1)) ∧
    (Setting.word (.mute (.output 0)) (.int 2)).control =
      (Setting.word (.mute (.output 0)) (.int 1)).control := by
  have hcell : ∀ v, (Setting.word (.mute (.output 0)) v).at? (.opened none hd) (.word 2) ≠
      none := by
    intro v h
    cases h
  exact ⟨rfl,controls_apart none hd (hcell (.int 2)) (hcell (.int 1))⟩

theorem read_log_kept {log : List (ι × Put)} {cell : Cell} {m : Peq.Memory}
    (h : ∀ c, ∀ p ∈ Shared.own c log, p.at? cell = none) :
    ((log.map Prod.snd).foldl Peq.Memory.put m).read cell = m.read cell := by
  refine (read_foldl Peq.Memory.put (fun m => m.read cell) (fun p => p.at? cell)
    (fun m p => Peq.Memory.read_put m p cell) _ _).trans ?_
  have hnone : (log.map Prod.snd).filterMap (fun p => p.at? cell) = [] := by
    refine List.filterMap_eq_nil_iff.mpr fun p hp => ?_
    obtain ⟨⟨c,p⟩,hmem,rfl⟩ := List.mem_map.mp hp
    exact h c p (List.mem_map.mpr ⟨_,List.mem_filter.mpr ⟨hmem,by simp⟩,rfl⟩)
  rw [hnone]
  rfl

def Config.made (kind : Option DeviceKind) (info : DeviceInfo) (room : UInt8 → ℕ) (floats : Floats)
    (config : Config) : List Setting :=
  settings (.opened kind info) room (config.items (.opened kind info) floats)

/-- Configurations of different controls, applied to a product at the same time in any schedule:
once all have succeeded, the last setting of each control is in force, and nothing else has
changed. -/
theorem applied_in_any_schedule (kind : Option DeviceKind) (info : DeviceInfo) (hp : peer.Fitting)
    (hdev : Stores peer.device memory room) (configs : ι → Config)
    (hnone : ∀ c, (configs c).masterStatus = none)
    (hcontrols : ∀ c c', c ≠ c' → ∀ setting ∈ (configs c).made kind info room floats,
      ∀ setting' ∈ (configs c').made kind info room floats, setting.control ≠ setting'.control)
    (d : σ) (as : List (Service.Label ι)) (s : Service.State ι σ Unit)
    (h : Transition.run (Service.step peer)
      (Service.start (fun c => (configs c).apply (.opened kind info) floats polls) d) as = some s)
    (hf : Transition.Along (Service.step peer) Service.Faithful
      (Service.start (fun c => (configs c).apply (.opened kind info) floats polls) d) as)
    (hguard : s.guard = none) (htaken : s.taken = s.mux.sink.length)
    (hdone : ∀ c, s.tasks c = .done (.ok ())) :
    (∀ c before setting after,
      (configs c).made kind info room floats = before ++ setting :: after →
      (∀ s ∈ after, s.control ≠ setting.control) → ∀ cell v,
        setting.at? (.opened kind info) cell = some v → (memory s.device).read cell = v) ∧
    ∀ cell, (∀ c, ∀ setting ∈ (configs c).made kind info room floats,
      setting.at? (.opened kind info) cell = none) →
        (memory s.device).read cell = (memory d).read cell := by
  obtain ⟨log,hmemory,hparts⟩ := parallel_log hp hdev hnone h hf hguard htaken
  have hown : ∀ c, Shared.own c log =
      ((configs c).made kind info room floats).flatMap (Setting.puts (.opened kind info)) := by
    intro c
    obtain ⟨n,hn,hend⟩ := hparts c
    obtain ⟨-,hlen⟩ | ⟨⟨e,he⟩,-⟩ := hend _ (hdone c)
    · rw [hn,List.take_of_length_le hlen]
      rfl
    · cases he
  constructor
  · intro c before setting after hmade hafter cell v hv
    have hsome : setting.at? (.opened kind info) cell ≠ none := by rw [hv]; exact nofun
    have hothers : ∀ c', c' ≠ c → ∀ p ∈ Shared.own c' log, p.at? cell = none := by
      intro c' hc' p hput
      rw [hown c'] at hput
      refine not_put (fun setting' hsetting' => ?_) hput
      by_contra hcell
      exact hcontrols c' c hc' setting' hsetting' setting (by simp [hmade])
        (control_eq (spec_laidOut kind info) hcell hsome)
    rw [hmemory,read_log (hown c) hothers,hmade]
    exact seen_last (fun s _ hcell => control_eq (spec_laidOut kind info) hcell hsome) hafter hv
  · intro cell hcell
    rw [hmemory]
    refine read_log_kept fun c p hput => ?_
    rw [hown c] at hput
    exact not_put (hcell c) hput

theorem applied_in_any_schedule_mutes :
    let as : List (Service.Label Bool) := [.acquire true,.poll .enqueue,.poll .lock,.poll .send,
      .poll .flush,.answer,.receive,.poll .resume,.finish,.acquire false,.poll .enqueue,
      .poll .lock,.poll .send,.poll .flush,.answer,.receive,.poll .resume,.finish]
    ∃ s, Transition.run (Service.step storing)
        (Service.start (fun c => (muteOne c).apply (.opened none hd) Xover.noFloats 0)
          Peq.untouched) as = some s ∧
      s.device.read (.word 2) = .inl (.int 1) ∧ s.device.read (.word 3) = .inl (.int 1) ∧
      ∀ k, k ≠ 2 → k ≠ 3 → s.device.read (.word k) = Peq.untouched.read (.word k) := by
  intro as
  have hrun : (Transition.run (Service.step storing)
      (Service.start (fun c => (muteOne c).apply (.opened none hd) Xover.noFloats 0)
        Peq.untouched) as).map (fun s => ((s.guard,s.taken,s.mux.sink.length),
          s.tasks true,s.tasks false)) = some ((none,2,2),.done (.ok ()),.done (.ok ())) := rfl
  obtain ⟨s,hs,hrest⟩ := Option.map_eq_some_iff.mp hrun
  obtain ⟨hlink,hends⟩ := Prod.mk.inj hrest
  obtain ⟨hguard,hlink⟩ := Prod.mk.inj hlink
  obtain ⟨htaken,hsink⟩ := Prod.mk.inj hlink
  obtain ⟨htrue,hfalse⟩ := Prod.mk.inj hends
  have hmade : ∀ c, (muteOne c).made none hd (fun _ => 0) Xover.noFloats =
      [.word (.mute (.output (if c then 1 else 0))) (.int 1)] := by
    intro c
    cases c <;> rfl
  have hf : Transition.Along (Service.step storing) Service.Faithful
      (Service.start (fun c => (muteOne c).apply (.opened none hd) Xover.noFloats 0)
        Peq.untouched) as := by
    iterate 18 refine (Transition.along_cons_of rfl).mpr ⟨trivial,?_⟩
    trivial
  obtain ⟨hlast,hkept⟩ := applied_in_any_schedule none hd storing_fitting storing_stores muteOne
    (fun _ => rfl) (by
      intro c c' hne setting hs setting' hs'
      rw [hmade,List.mem_singleton] at hs hs'
      subst hs hs'
      cases c <;> cases c' <;> simp [Setting.control] at hne ⊢)
    Peq.untouched as s hs hf hguard (htaken.trans hsink.symm) (by
      intro c
      cases c
      · exact hfalse
      · exact htrue)
  refine ⟨s,hs,?_,?_,fun k h2 h3 => hkept _ fun c setting hsetting => ?_⟩
  · exact hlast false [] _ [] (hmade false) (by simp) (.word 2) _ rfl
  · exact hlast true [] _ [] (hmade true) (by simp) (.word 3) _ rfl
  · rw [hmade,List.mem_singleton] at hsetting
    subst hsetting
    by_contra hcell
    obtain ⟨a,ha,hat⟩ := put_of_at? hcell
    have hk := cell_of_words hat
    rw [addr_toNat,List.length_singleton] at hk
    have haddr : a.toNat = if c then 3 else 2 := by
      cases c <;> exact congrArg UInt16.toNat (Except.ok.inj ha).symm
    split_ifs at haddr <;> omega

end

end Model
end Minidsp
