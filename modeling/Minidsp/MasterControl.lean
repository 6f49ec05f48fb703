import Mathlib.Data.Rat.Floor
import Mathlib.Logic.Function.Basic
import Mathlib.Tactic.Linarith
import Mathlib.Tactic.Ring
import Minidsp.MiniDSP

/-! Setting the master status and reading it back, on a device that stores the byte of every
setting where the status is read from. -/
namespace Minidsp

open Buffer Dialogue

def byteStore : Dialogue.Device (UInt16 → UInt8) Commands Responses MiniDSPError :=
  fun mem q => match q with
    | .readMemory addr size =>
      (.ok (.memoryData ⟨addr,(List.range size.toNat).map fun i => mem (addr + UInt16.ofNat i)⟩),mem)
    | .setConfig config _ => (.ok .configChanged,Function.update mem Eeprom.preset config)
    | .setSource source => (.ok .ack,Function.update mem Eeprom.source source)
    | .setVolume value => (.ok .ack,Function.update mem Eeprom.masterVolume value.toU8)
    | .setMute value => (.ok .ack,Function.update mem Eeprom.mute (Commands.boolByte value))
    | .diracBypass value => (.ok .ack,Function.update mem Eeprom.diracBypass value)
    | _ => (.ok .ack,mem)

/-! Encoded settings decode to themselves. -/

namespace Gain

/-- A multiple of half a decibel between -127 and 0. -/
def OnStep (g : Gain) : Prop := ∃ k : ℕ, k ≤ 254 ∧ g.val = -(k : ℚ)/2

theorem ofU8_toU8 {g : Gain} (h : g.OnStep) : ofU8 g.toU8 = g := by
  obtain ⟨k,hk,hval⟩ := h
  have habs : |g.val| * 2 = (k : ℚ) := by
    have hpos : (0 : ℚ) ≤ k := Nat.cast_nonneg k
    rw [hval,abs_of_nonpos (by linarith)]
    ring
  have hbyte : g.toU8.toNat = k := by
    rw [toU8,habs,Int.floor_natCast,Int.toNat_natCast,UInt8.toNat_ofNat']
    omega
  have hback : -(1/2) * (g.toU8.toNat : ℚ) = g.val := by
    rw [hbyte,hval]
    ring
  simp only [ofU8,hback]

end Gain

namespace Source

def tables : List (List (Source × UInt8)) :=
  [[(toslink,0),(spdif,1)],[(spdif,0),(toslink,1),(aesebu,2)],[(analog,0),(toslink,1),(usb,2)],
    [(i2s,0),(toslink,1),(usb,2)],
    [(toslink,0),(spdif,1),(aesebu,2),(rca,3),(xlr,4),(usb,5),(lan,6)],
    [(toslink,0),(spdif,1),(aesebu,2),(usb,3),(lan,4)],
    [(analog,0),(toslink,1),(spdif,2),(usb,3),(bluetooth,4)],
    [(analog,0),(toslink,1),(spdif,2),(usb,3),(hdmi,4)],[(notInstalled,0)]]

theorem mapping_mem_tables (info : DeviceInfo) : mapping info ∈ tables := by
  unfold mapping
  split_ifs <;> simp [tables]

theorem lookup_lookup : ∀ t ∈ tables, ∀ m ∈ t,
    (t.find? fun x => x.2 == ((t.find? fun y => y.1 == m.1).map Prod.snd).getD 0).map Prod.fst =
      some m.1 := by
  decide

theorem fromId_toId {info : DeviceInfo} {src : Source} (h : src ∈ (mapping info).map Prod.fst) :
    fromId (toId src info) info = src := by
  obtain ⟨m,hm,rfl⟩ := List.mem_map.mp h
  have hback := lookup_lookup _ (mapping_mem_tables info) m hm
  have hid : toId m.1 info =
      (((mapping info).find? fun y => y.1 == m.1).map Prod.snd).getD 0 := by
    unfold toId
    split <;> rename_i hfind <;> simp [hfind]
  obtain ⟨found,hfound,hfst⟩ := Option.map_eq_some_iff.mp hback
  rw [fromId,hid,hfound]
  exact hfst

end Source

/-! Reading. -/

theorem readU8_mem (mem : UInt16 → UInt8) {base a : UInt16} {n : ℕ} (hle : base ≤ a)
    (hn : a.toNat - base.toNat < n) :
    (MemoryView.mk base ((List.range n).map fun i => mem (base + UInt16.ofNat i))).readU8 a =
      some (mem a) := by
  rw [MemoryView.readU8_eq hle,List.getElem?_map,List.getElem?_range hn,Option.map_some,add_ofNat_sub hle]

/-- The status a device with these bytes reports. -/
def MasterStatus.stored (info : DeviceInfo) (mem : UInt16 → UInt8) : MasterStatus where
  preset := some (mem Eeprom.preset)
  source := some (Source.fromId (mem Eeprom.source) info)
  volume := some (Gain.ofU8 (mem Eeprom.masterVolume))
  mute := some (mem Eeprom.mute == 1)
  dirac := if info.supportsDirac then some (mem Eeprom.diracBypass == 0) else none

theorem getMasterStatus_stored {σ : Type}
    {dev : Dialogue.Device σ Commands Responses MiniDSPError} {s : σ} {mem : UInt16 → UInt8}
    (dsp : MiniDSP) (h : dev s (.readMemory Eeprom.preset 9) =
      (.ok (.memoryData ⟨Eeprom.preset,(List.range (9 : UInt8).toNat).map fun i =>
        mem (Eeprom.preset + UInt16.ofNat i)⟩),s)) :
    Gives dev dsp.getMasterStatus s (.stored dsp.deviceInfo mem) s
      [.readMemory Eeprom.preset 9] := by
  have hread : Gives dev (Client.readMemory Eeprom.preset 9) s
      ⟨Eeprom.preset,(List.range (9 : UInt8).toNat).map fun i =>
        mem (Eeprom.preset + UInt16.ofNat i)⟩ s [.readMemory Eeprom.preset 9] :=
    Client.expected h rfl
  have hview : MasterStatus.fromMemory dsp.deviceInfo ⟨Eeprom.preset,(List.range (9 : UInt8).toNat).map
      fun i => mem (Eeprom.preset + UInt16.ofNat i)⟩ = .stored dsp.deviceInfo mem := by
    simp only [MasterStatus.fromMemory,MasterStatus.stored]
    rw [readU8_mem mem (a := Eeprom.preset) (by decide) (by decide),
      readU8_mem mem (a := Eeprom.source) (by decide) (by decide),
      readU8_mem mem (a := Eeprom.masterVolume) (by decide) (by decide),
      readU8_mem mem (a := Eeprom.mute) (by decide) (by decide),
      readU8_mem mem (a := Eeprom.diracBypass) (by decide) (by decide)]
    rfl
  exact hview ▸ hread.bind (Gives.pure _)

theorem getMasterStatus_byteStore (dsp : MiniDSP) (mem : UInt16 → UInt8) :
    Gives byteStore dsp.getMasterStatus mem (.stored dsp.deviceInfo mem) mem
      [.readMemory Eeprom.preset 9] :=
  getMasterStatus_stored dsp rfl

/-! Writing. -/

def put (mem : UInt16 → UInt8) (addr : UInt16) : Option UInt8 → UInt16 → UInt8
  | some b => Function.update mem addr b
  | none => mem

@[simp] theorem put_same (mem : UInt16 → UInt8) (addr : UInt16) (b : Option UInt8) :
    put mem addr b addr = b.getD (mem addr) := by
  cases b <;> simp [put]

theorem put_ne {a addr : UInt16} (h : a ≠ addr) (mem : UInt16 → UInt8) (b : Option UInt8) :
    put mem addr b a = mem a := by
  cases b <;> simp [put,h]

def MasterStatus.written (status : MasterStatus) (info : DeviceInfo) (mem : UInt16 → UInt8) :
    UInt16 → UInt8 :=
  put (put (put (put (put mem Eeprom.preset status.preset)
    Eeprom.source (status.source.map (Source.toId · info)))
    Eeprom.masterVolume (status.volume.map Gain.toU8))
    Eeprom.mute (status.mute.map Commands.boolByte))
    Eeprom.diracBypass (status.dirac.map fun enabled => Commands.boolByte !enabled)

theorem field_gives {α : Type} {set : α → Call Unit} {encode : α → UInt8} {addr : UInt16}
    (h : ∀ a mem, ∃ qs, Gives byteStore (set a) mem () (Function.update mem addr (encode a)) qs)
    (x : Option α) (mem : UInt16 → UInt8) :
    ∃ qs, Gives byteStore (forM x set) mem () (put mem addr (x.map encode)) qs := by
  cases x with
  | none => exact ⟨[],Gives.pure _⟩
  | some a => exact h a mem

/-- The first poll already finds the configuration that was set. -/
theorem setConfig_gives (dsp : MiniDSP) (polls : ℕ) (config : UInt8) (mem : UInt16 → UInt8) :
    ∃ qs, Gives byteStore (dsp.setConfig (polls+1) config) mem ()
      (Function.update mem Eeprom.preset config) qs := by
  generalize hmem : Function.update mem Eeprom.preset config = mem'
  have hset : Gives byteStore (Dialogue.roundtrip (.setConfig config true)) mem .configChanged
      mem' [.setConfig config true] := Gives.roundtrip (by rw [← hmem]; rfl)
  have hstatus := getMasterStatus_byteStore dsp mem'
  have hpreset : Gives byteStore (Client.unwrap (MasterStatus.stored dsp.deviceInfo mem').preset)
      mem' config mem' [] := by
    simp only [MasterStatus.stored,← hmem,Function.update_self]
    exact Gives.pure config
  have hfound : Gives byteStore (if config = config then pure () else dsp.awaitConfig config polls)
      mem' () mem' [] := by
    rw [if_pos rfl]
    exact Gives.pure ()
  exact ⟨_,hset.bind ((Gives.lift rfl).bind (hstatus.bind (hpreset.bind hfound)))⟩

theorem ack_byteStore {q : Commands} {mem mem' : UInt16 → UInt8}
    (h : byteStore mem q = (.ok .ack,mem')) :
    ∃ qs, Gives byteStore (Dialogue.roundtrip q >>= fun r => Client.expect r.intoAck) mem ()
      mem' qs := ⟨_,Client.acked h⟩

theorem setSource_gives (dsp : MiniDSP) (source : Source) (mem : UInt16 → UInt8) :
    ∃ qs, Gives byteStore (dsp.setSource source) mem ()
      (Function.update mem Eeprom.source (source.toId dsp.deviceInfo)) qs :=
  ack_byteStore (q := .setSource (source.toId dsp.deviceInfo)) rfl

theorem setMasterVolume_gives (value : Gain) (mem : UInt16 → UInt8) :
    ∃ qs, Gives byteStore (MiniDSP.setMasterVolume value) mem ()
      (Function.update mem Eeprom.masterVolume value.toU8) qs :=
  ack_byteStore (q := .setVolume value) rfl

theorem setMasterMute_gives (value : Bool) (mem : UInt16 → UInt8) :
    ∃ qs, Gives byteStore (MiniDSP.setMasterMute value) mem ()
      (Function.update mem Eeprom.mute (Commands.boolByte value)) qs :=
  ack_byteStore (q := .setMute value) rfl

theorem setDirac_gives (enabled : Bool) (mem : UInt16 → UInt8) :
    ∃ qs, Gives byteStore (MiniDSP.setDirac enabled) mem ()
      (Function.update mem Eeprom.diracBypass (Commands.boolByte !enabled)) qs :=
  ack_byteStore (q := .diracBypass (Commands.boolByte !enabled)) rfl

theorem apply_gives (status : MasterStatus) (polls : ℕ) (dsp : MiniDSP) (mem : UInt16 → UInt8) :
    ∃ qs, Gives byteStore (status.apply (polls+1) dsp) mem () (status.written dsp.deviceInfo mem)
      qs := by
  have hpreset : ∃ qs, Gives byteStore (forM status.preset (dsp.setConfig (polls+1))) mem ()
      (put mem Eeprom.preset status.preset) qs := by
    simpa using field_gives (setConfig_gives dsp polls) status.preset mem
  obtain ⟨qs1,h1⟩ := hpreset
  obtain ⟨qs2,h2⟩ := field_gives (setSource_gives dsp) status.source _
  obtain ⟨qs3,h3⟩ := field_gives setMasterVolume_gives status.volume _
  obtain ⟨qs4,h4⟩ := field_gives setMasterMute_gives status.mute _
  obtain ⟨qs5,h5⟩ := field_gives setDirac_gives status.dirac _
  exact ⟨_,h1.bind (h2.bind (h3.bind (h4.bind h5)))⟩

/-- Without a preset no poll is made. -/
theorem apply_polls {status : MasterStatus} (h : status.preset = none) (polls polls' : ℕ)
    (dsp : MiniDSP) : status.apply polls dsp = status.apply polls' dsp := by
  simp only [MasterStatus.apply,h]
  rfl

theorem apply_ok {status : MasterStatus} {polls : ℕ} {dsp : MiniDSP} {mem mem' : UInt16 → UInt8}
    (h : run byteStore (status.apply polls dsp) mem = (.ok (),mem')) :
    mem' = status.written dsp.deviceInfo mem := by
  have hpos : ∃ polls', status.apply polls dsp = status.apply (polls'+1) dsp := by
    cases polls with
    | succ polls => exact ⟨polls,rfl⟩
    | zero =>
      cases hp : status.preset with
      | none => exact ⟨0,apply_polls hp _ _ _⟩
      | some config =>
        obtain ⟨_,_,hset,-⟩ := run_bind_eq_ok.mp h
        rw [hp] at hset
        obtain ⟨_,_,-,hexpect⟩ := run_bind_eq_ok.mp hset
        obtain ⟨_,_,-,hawait⟩ := run_bind_eq_ok.mp hexpect
        simp [MiniDSP.awaitConfig,run] at hawait
  obtain ⟨polls',hpolls⟩ := hpos
  obtain ⟨_,hgives⟩ := apply_gives status polls' dsp mem
  rw [hpolls,hgives.run] at h
  exact (Prod.mk.inj h).2.symm

/-! Reading back what was written. -/

theorem some_decode {α : Type} {encode : α → UInt8} (decode : UInt8 → α) {x : Option α}
    (h : ∀ a, x = some a → decode (encode a) = a) (b : UInt8) :
    some (decode ((x.map encode).getD b)) = x.or (some (decode b)) := by
  cases x with
  | none => rfl
  | some a => simp [h a rfl]

namespace MasterStatus

theorem written_fields (status : MasterStatus) (info : DeviceInfo) (mem : UInt16 → UInt8) :
    status.written info mem Eeprom.preset = status.preset.getD (mem Eeprom.preset) ∧
    status.written info mem Eeprom.source =
      (status.source.map (Source.toId · info)).getD (mem Eeprom.source) ∧
    status.written info mem Eeprom.masterVolume =
      (status.volume.map Gain.toU8).getD (mem Eeprom.masterVolume) ∧
    status.written info mem Eeprom.mute =
      (status.mute.map Commands.boolByte).getD (mem Eeprom.mute) ∧
    status.written info mem Eeprom.diracBypass =
      (status.dirac.map fun enabled => Commands.boolByte !enabled).getD
        (mem Eeprom.diracBypass) := by
  simp [written,put_ne,Eeprom.preset,Eeprom.source,Eeprom.masterVolume,Eeprom.mute,
    Eeprom.diracBypass]

theorem stored_written {status : MasterStatus} {info : DeviceInfo} (mem : UInt16 → UInt8)
    (hsource : ∀ src, status.source = some src → src ∈ (Source.mapping info).map Prod.fst)
    (hvolume : ∀ g, status.volume = some g → g.OnStep)
    (hdirac : status.dirac ≠ none → info.supportsDirac) :
    stored info (status.written info mem) = status.onto (stored info mem) := by
  obtain ⟨hpreset,hsrc,hvol,hmute,hbypass⟩ := status.written_fields info mem
  simp only [stored,onto,hpreset,hsrc,hvol,hmute,hbypass,MasterStatus.mk.injEq]
  refine ⟨?_,?_,?_,?_,?_⟩
  · cases status.preset <;> rfl
  · exact some_decode (Source.fromId · info)
      (fun src hs => Source.fromId_toId (hsource src hs)) _
  · exact some_decode _ (fun g hg => Gain.ofU8_toU8 (hvolume g hg)) _
  · exact some_decode (· == 1) (fun value _ => by cases value <;> rfl) _
  · cases hd : status.dirac with
    | none => rfl
    | some enabled =>
      rw [if_pos (hdirac (by simp [hd]))]
      cases enabled <;> rfl

/-- What is set is read back, the rest stays, and a source that the device does not have is an
error. -/
def ReadsBack (status : MasterStatus) (dsp : MiniDSP) (mem : UInt16 → UInt8) : Prop :=
  (∀ polls mem', run byteStore (status.apply polls dsp) mem = (.ok (),mem') →
    ∃ before after, run byteStore dsp.getMasterStatus mem = (.ok before,mem) ∧
      run byteStore dsp.getMasterStatus mem' = (.ok after,mem') ∧ after = status.onto before) ∧
  ∀ src, status.source = some src → src ∉ (Source.mapping dsp.deviceInfo).map Prod.fst →
    ∀ polls, 0 < polls →
      ∃ e mem', run byteStore (status.apply polls dsp) mem = (.error e,mem')

/-- Any source is accepted. -/
theorem not_readsBack {status : MasterStatus} {dsp : MiniDSP} {mem : UInt16 → UInt8}
    {src : Source} (hsrc : status.source = some src)
    (habsent : src ∉ (Source.mapping dsp.deviceInfo).map Prod.fst) :
    ¬status.ReadsBack dsp mem := by
  rintro ⟨-,hrefused⟩
  obtain ⟨e,mem',herr⟩ := hrefused src hsrc habsent 1 one_pos
  obtain ⟨_,hgives⟩ := apply_gives status 0 dsp mem
  rw [hgives.run] at herr
  cases herr

/-- A status is read back exactly when it sets no source, or one in the table of the device. -/
theorem readsBack_iff {status : MasterStatus} {dsp : MiniDSP} (mem : UInt16 → UInt8)
    (hvolume : ∀ g, status.volume = some g → g.OnStep)
    (hdirac : status.dirac ≠ none → dsp.deviceInfo.supportsDirac) :
    status.ReadsBack dsp mem ↔
      ∀ src, status.source = some src → src ∈ (Source.mapping dsp.deviceInfo).map Prod.fst := by
  constructor
  · intro hback src hsrc
    by_contra habsent
    exact not_readsBack hsrc habsent hback
  · intro hsource
    refine ⟨fun polls mem' hrun => ?_,fun src hsrc habsent => absurd (hsource src hsrc) habsent⟩
    have hmem' := apply_ok hrun
    subst hmem'
    exact ⟨_,_,(getMasterStatus_byteStore dsp mem).run,(getMasterStatus_byteStore dsp _).run,
      stored_written mem hsource hvolume hdirac⟩

def shd : MiniDSP := ⟨Device.generic,⟨14,1,0,101,900001⟩⟩

theorem readsBack_shd :
    MasterStatus.ReadsBack ⟨some 2,some .usb,some ⟨-21/2⟩,some true,some false⟩ shd
      fun _ => 0 :=
  (readsBack_iff _
    (by rintro _ ⟨rfl⟩; exact ⟨21,by decide,by norm_num⟩) (by decide)).mpr
    (by rintro _ ⟨rfl⟩; decide)

/-- HDMI is not a source of the device; its first source is selected. -/
theorem hdmi_selects_another :
    ¬MasterStatus.ReadsBack ⟨none,some .hdmi,none,none,none⟩ shd fun _ => 0 :=
  not_readsBack rfl (by decide)

end MasterStatus
end Minidsp
