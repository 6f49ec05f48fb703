import Minidsp.MasterControl

/-! The source select of the home automation integration, down to the device and back: an option
is posted as the name of a source, the daemon sets that, and its status shows an option again. -/
namespace Minidsp

open Buffer Dialogue

namespace Source

/-- The name of the variant, as it is in JSON. -/
def name : Source → String
  | notInstalled => "NotInstalled"
  | analog => "Analog"
  | toslink => "Toslink"
  | spdif => "Spdif"
  | usb => "Usb"
  | aesebu => "Aesebu"
  | rca => "Rca"
  | xlr => "Xlr"
  | lan => "Lan"
  | i2s => "I2S"
  | bluetooth => "Bluetooth"
  | hdmi => "Hdmi"

def variants : List Source :=
  [notInstalled,analog,toslink,spdif,usb,aesebu,rca,xlr,lan,i2s,bluetooth,hdmi]

def ofName (name : String) : Option Source := variants.find? fun src => src.name == name

theorem ofName_name (src : Source) : ofName src.name = some src := by
  cases src <;> decide

theorem mem_variants (src : Source) : src ∈ variants := by
  cases src <;> decide

theorem mapping_eq (info : DeviceInfo) : mapping info = mapping ⟨info.hwId,0,0,
    if info.dspVersion = 100 ∨ info.dspVersion = 101 then 100 else 0,0⟩ := by
  unfold mapping
  by_cases h : info.dspVersion = 100 ∨ info.dspVersion = 101 <;> simp [h]

/-- The first source of every table has the id that any other source is given. -/
theorem fromId_zero (info : DeviceInfo) : fromId 0 info ∈ (mapping info).map Prod.fst := by
  have htables : ∀ t ∈ tables, ∃ m ∈ t, t.find? (fun m => m.2 == 0) = some m := by decide
  obtain ⟨m,hm,hfind⟩ := htables _ (mapping_mem_tables info)
  rw [fromId,hfind]
  exact List.mem_map_of_mem hm

theorem toId_of_not_mem {info : DeviceInfo} {src : Source}
    (h : src ∉ (mapping info).map Prod.fst) : toId src info = 0 := by
  have hnone : (mapping info).find? (fun m => m.1 == src) = none := by
    refine List.find?_eq_none.mpr fun m hm heq => h ?_
    rw [← beq_iff_eq.mp heq]
    exact List.mem_map_of_mem hm
  rw [toId,hnone]

/-- A source is found under its id again just where the device has it. -/
theorem fromId_toId_iff {info : DeviceInfo} {src : Source} :
    fromId (toId src info) info = src ↔ src ∈ (mapping info).map Prod.fst := by
  refine ⟨fun h => ?_,fromId_toId⟩
  by_contra habsent
  rw [toId_of_not_mem habsent] at h
  exact habsent (h ▸ fromId_zero info)

end Source

namespace SourceSelect

/-! `const.py` -/

def sourcesByHwId : List (UInt8 × List String) :=
  [(1,["Spdif","Toslink","Aesebu"]),
    (2,["Toslink","Spdif"]),
    (4,["Spdif","Toslink","Aesebu"]),
    (6,["Analog","Toslink","Usb"]),
    (10,["Analog","Toslink","Usb"]),
    (11,["Analog","Toslink","Spdif"]),
    (14,["Analog","Toslink","Usb"]),
    (17,["Toslink","Spdif","Aesebu","Usb","Lan"]),
    (18,["Toslink","Spdif","Aesebu","Usb","Lan"]),
    (27,["Analog","Toslink","Spdif","Usb","Bluetooth"]),
    (32,["Analog","Toslink","Spdif","Usb","Hdmi"])]

def sourceLabels : List (String × String) :=
  [("Analog","Analog"),
    ("Toslink","Toslink (Optical)"),
    ("Spdif","S/PDIF (Coaxial)"),
    ("Usb","USB"),
    ("Hdmi","HDMI"),
    ("Bluetooth","Bluetooth"),
    ("Aesebu","AES/EBU"),
    ("I2S","I2S"),
    ("Lan","LAN")]

/-! `select.py` -/

/-- `capitalize` and `lower`, of names in ASCII. -/
def capitalize (s : String) : String :=
  match s.toList with
  | [] => ""
  | c :: cs => String.ofList (c.toUpper :: cs.map Char.toLower)

def lower (s : String) : String := String.ofList (s.toList.map Char.toLower)

def sourceToLabel (source : String) : String :=
  match sourceLabels.find? fun entry => entry.1 == source with
  | some entry => entry.2
  | none => capitalize source

/-- In the reversed dictionary the last of equal labels counts. -/
def labelToSource (label : String) : String :=
  match sourceLabels.reverse.find? fun entry => entry.2 == label with
  | some entry => entry.1
  | none => lower label

def options (info : DeviceInfo) : Option (List String) :=
  (sourcesByHwId.find? fun entry => entry.1 == info.hwId).map fun entry =>
    entry.2.map sourceToLabel

def currentOption (source : Option String) : Option String := source.map sourceToLabel

/-- The request that is posted for an option, if the daemon can read it. -/
def selectOption (option : String) : Option MasterStatus :=
  (Source.ofName (labelToSource option)).map fun src =>
    { (default : MasterStatus) with source := some src }

def shown (status : MasterStatus) : Option String := currentOption (status.source.map Source.name)

/-- The options that are none of the device's sources. -/
def Lacks (info : DeviceInfo) (option : String) : Prop :=
  info.hwId = 6 ∨ option = "Analog" ∧ (info.hwId = 11 ∨ info.hwId = 14 ∨
    info.hwId = 10 ∧ info.dspVersion ≠ 100 ∧ info.dspVersion ≠ 101)

instance (info : DeviceInfo) (option : String) : Decidable (Lacks info option) :=
  inferInstanceAs (Decidable (_ ∨ _))

theorem labelToSource_sourceToLabel : ∀ entry ∈ sourcesByHwId, ∀ name ∈ entry.2,
    labelToSource (sourceToLabel name) = name ∧ ∃ src ∈ Source.variants, src.name = name := by
  decide

theorem sourceToLabel_injective : ∀ src ∈ Source.variants, ∀ src' ∈ Source.variants,
    sourceToLabel src.name = sourceToLabel src'.name → src = src' := by
  decide

theorem lacks_iff (info : DeviceInfo) (option : String) : Lacks info option ↔ Lacks ⟨info.hwId,0,0,
    if info.dspVersion = 100 ∨ info.dspVersion = 101 then 100 else 0,0⟩ option := by
  unfold Lacks
  by_cases h100 : info.dspVersion = 100
  · simp [h100]
  · by_cases h101 : info.dspVersion = 101 <;> simp [h100,h101]

theorem mem_mapping_entry : ∀ entry ∈ sourcesByHwId, ∀ dspVersion ∈ [100,0],
    ∀ src ∈ Source.variants, src.name ∈ entry.2 →
      (src ∈ (Source.mapping ⟨entry.1,0,0,dspVersion,0⟩).map Prod.fst ↔
        ¬Lacks ⟨entry.1,0,0,dspVersion,0⟩ (sourceToLabel src.name)) := by
  decide +kernel

/-- A source the tables give to a device is one of its sources, or one of those that it lacks. -/
theorem mem_mapping_iff {info : DeviceInfo} {names : List String} {src : Source}
    (hentry : (info.hwId,names) ∈ sourcesByHwId) (hsrc : src.name ∈ names) :
    src ∈ (Source.mapping info).map Prod.fst ↔ ¬Lacks info (sourceToLabel src.name) := by
  rw [Source.mapping_eq,lacks_iff]
  refine mem_mapping_entry _ hentry _ ?_ src src.mem_variants hsrc
  split_ifs <;> simp

theorem status_of_option {info : DeviceInfo} {names : List String} {option : String}
    (h : options info = some names) (hoption : option ∈ names) :
    ∃ src entry, (info.hwId,entry) ∈ sourcesByHwId ∧ src.name ∈ entry ∧
      option = sourceToLabel src.name ∧ selectOption option =
        some { (default : MasterStatus) with source := some src } := by
  obtain ⟨⟨hw,entry⟩,hfind,rfl⟩ := Option.map_eq_some_iff.mp h
  obtain ⟨name,hname,rfl⟩ := List.mem_map.mp hoption
  obtain rfl : hw = info.hwId := by simpa using List.find?_some hfind
  have hentry := List.mem_of_find?_eq_some hfind
  obtain ⟨hback,src,-,rfl⟩ := labelToSource_sourceToLabel _ hentry name hname
  exact ⟨src,entry,hentry,hname,rfl,by rw [selectOption,hback,Source.ofName_name]; rfl⟩

/-- Every option of the select is posted as a source the daemon knows, on every device; once it is
set, the status shows that option again exactly when the device has the source. -/
theorem selected_shown_iff {dsp : MiniDSP} {names : List String} {option : String}
    (h : options dsp.deviceInfo = some names) (hoption : option ∈ names) :
    ∃ status, selectOption option = some status ∧ ∀ polls mem mem',
      run byteStore (status.apply polls dsp) mem = (.ok (),mem') →
      ∃ after, run byteStore dsp.getMasterStatus mem' = (.ok after,mem') ∧
        (shown after = some option ↔ ¬Lacks dsp.deviceInfo option) := by
  obtain ⟨src,entry,hentry,hname,rfl,hselect⟩ := status_of_option h hoption
  refine ⟨_,hselect,fun polls mem mem' hrun => ?_⟩
  have hmem' := apply_ok hrun
  refine ⟨_,(getMasterStatus_byteStore dsp mem').run,?_⟩
  have hsource : mem' Eeprom.source = src.toId dsp.deviceInfo := by
    rw [hmem',(MasterStatus.written_fields _ _ _).2.1]
    rfl
  have hshown : shown (MasterStatus.stored dsp.deviceInfo mem') =
      some (sourceToLabel (Source.fromId (src.toId dsp.deviceInfo) dsp.deviceInfo).name) := by
    rw [← hsource]
    rfl
  rw [hshown,← mem_mapping_iff hentry hname,← Source.fromId_toId_iff,Option.some_inj]
  exact ⟨sourceToLabel_injective _ (Source.mem_variants _) _ (Source.mem_variants _),
    fun heq => by rw [heq]⟩

/-- The analog input of an SHD is an option, and selects another one. -/
theorem selected_shown_shd :
    ∃ status, selectOption "Analog" = some status ∧ ∀ polls mem mem',
      run byteStore (status.apply polls MasterStatus.shd) mem = (.ok (),mem') →
      ∃ after, run byteStore MasterStatus.shd.getMasterStatus mem' = (.ok after,mem') ∧
        shown after ≠ some "Analog" := by
  obtain ⟨status,hstatus,hall⟩ := @selected_shown_iff MasterStatus.shd
    ["Analog","Toslink (Optical)","USB"] "Analog" (by decide) (by decide)
  refine ⟨status,hstatus,fun polls mem mem' hrun => ?_⟩
  obtain ⟨after,hafter,hiff⟩ := hall polls mem mem' hrun
  exact ⟨after,hafter,fun hshown => hiff.mp hshown (by decide)⟩

end SourceSelect
end Minidsp
