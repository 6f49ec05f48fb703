import Minidsp.Client
import Minidsp.MockDevice
import Minidsp.Overlay

/-! Setting the serial number of a device, and that it is reported from then on. -/
namespace Minidsp

open Buffer Dialogue

namespace Client

def writeMemory (addr : UInt16) (data : Bytes) : Call Unit := do
  expect (← .roundtrip (.writeMemory addr data)).intoAck

def writeU16 (addr : UInt16) (data : UInt16) : Call Unit := writeMemory addr (putU16 data)

end Client

namespace Debug

def serialRange (value : UInt32) : Bool := 900000 ≤ value && value ≤ 965535

def tryIntoU16 (x : UInt32) : Except Unit UInt16 :=
  if x.toNat < 65536 then .ok x.toUInt16 else .error ()

def rangeError : MiniDSPError := .internalError "Serial must be between 900000 and 965535"

/-- The command `SetSerial`. What is looked for in the range is its own first number. -/
def setSerial (value : UInt32) : Call Unit :=
  if !serialRange 900000 then .fail rangeError
  else do
    let value ← .lift (subU32 value 900000)
    let value ← .lift (Exec.unwrap (tryIntoU16 value))
    Client.writeU16 Eeprom.serialShort value

end Debug

/-- A device that keeps what is written to its memory, and stays what it is. -/
structure StoresMemory {σ : Type} (dev : Dialogue.Device σ Commands Responses MiniDSPError)
    (id : σ → HardwareId) (mem : σ → ℕ → UInt8) : Prop where
  readHardwareId : ∀ s, ∃ t, dev s .readHardwareId = (.ok (.hardwareId (id s)),t) ∧
    id t = id s ∧ mem t = mem s
  readMemory : ∀ s addr size, addr.toNat + size.toNat ≤ 65536 →
    ∃ t, dev s (.readMemory addr size) =
      (.ok (.memoryData ⟨addr,(List.range size.toNat).map fun i => mem s (addr.toNat + i)⟩),t) ∧
      id t = id s ∧ mem t = mem s
  writeMemory : ∀ s addr data, addr.toNat + data.length ≤ 65536 →
    ∃ t, dev s (.writeMemory addr data) = (.ok .ack,t) ∧
      id t = id s ∧ mem t = Overlay.store (mem s) ⟨addr.toNat,data⟩

def DeviceInfo.stored (id : HardwareId) (mem : ℕ → UInt8) : DeviceInfo where
  hwId := id.hwId
  fwMajor := id.fwMajor
  fwMinor := id.fwMinor
  dspVersion := mem Eeprom.firmwareVersion.toNat
  serial := 900000 +
    (u16Of (mem Eeprom.serialShort.toNat) (mem (Eeprom.serialShort.toNat + 1))).toUInt32

/-- The serial number is validated, written in one piece, and reported from then on in place of
the old one. -/
structure Debug.SetsSerial (value : UInt32) : Prop where
  refused : serialRange value = false →
    ∀ {σ : Type} (dev : Dialogue.Device σ Commands Responses MiniDSPError) (s : σ),
      run dev (setSerial value) s = (.error rangeError,s) ∧ asked dev (setSerial value) s = []
  written : serialRange value = true → ∃ hi lo : UInt8,
    ∀ {σ : Type} (dev : Dialogue.Device σ Commands Responses MiniDSPError) (s : σ),
      asked dev (setSerial value) s = [.writeMemory Eeprom.serialShort [hi,lo]]
  reported : serialRange value = true →
    ∀ {σ : Type} {dev : Dialogue.Device σ Commands Responses MiniDSPError}
      {id : σ → HardwareId} {mem : σ → ℕ → UInt8}, StoresMemory dev id mem → ∀ s,
      ∃ info t, (run dev Client.getDeviceInfo s).1 = .ok info ∧
        run dev (setSerial value) s = (.ok (),t) ∧
        (run dev Client.getDeviceInfo t).1 = .ok { info with serial := value }

namespace StoresMemory

variable {σ : Type} {dev : Dialogue.Device σ Commands Responses MiniDSPError}
  {id : σ → HardwareId} {mem : σ → ℕ → UInt8}

theorem read (h : StoresMemory dev id mem) (s : σ) (addr : UInt16) (size : UInt8)
    (hsize : addr.toNat + size.toNat ≤ 65536) :
    ∃ t, Gives dev (Client.readMemory addr size) s
      ⟨addr,(List.range size.toNat).map fun i => mem s (addr.toNat + i)⟩ t
      [.readMemory addr size] ∧ mem t = mem s := by
  obtain ⟨t,ht,-,hmem⟩ := h.readMemory s addr size hsize
  exact ⟨t,Client.expected ht rfl,hmem⟩

theorem tryReadU8_at (addr : UInt16) (b : UInt8) :
    ((MemoryView.mk addr [b]).tryReadU8 addr : Exec MiniDSPError _) = .ok (some b) := by
  simp [MemoryView.tryReadU8,MemoryView.tryReadAt,subU16,slice,index,bind,Except.bind,pure,
    Except.pure]

theorem readU16_at (addr : UInt16) (hi lo : UInt8) :
    ((MemoryView.mk addr [hi,lo]).readU16 addr : Exec MiniDSPError _) =
      .ok (some (u16Of hi lo)) := by
  simp [MemoryView.readU16,MemoryView.tryReadAt,subU16,slice,bind,Except.bind,pure,Except.pure]

theorem getDeviceInfo (h : StoresMemory dev id mem) (s : σ) :
    ∃ t qs, Gives dev Client.getDeviceInfo s (.stored (id s) (mem s)) t qs := by
  obtain ⟨t₁,hid,-,hmem₁⟩ := h.readHardwareId s
  obtain ⟨t₂,hversion,hmem₂⟩ := h.read t₁ Eeprom.firmwareVersion 1 (by decide)
  obtain ⟨t₃,hserial,-⟩ := h.read t₂ Eeprom.serialShort 2 (by decide)
  rw [hmem₁] at hversion hmem₂
  rw [hmem₂] at hserial
  change Gives dev _ t₁ (MemoryView.mk Eeprom.firmwareVersion
    [mem s Eeprom.firmwareVersion.toNat]) t₂ _ at hversion
  change Gives dev _ t₂ (MemoryView.mk Eeprom.serialShort [mem s Eeprom.serialShort.toNat,
    mem s (Eeprom.serialShort.toNat + 1)]) t₃ _ at hserial
  refine ⟨t₃,_,(Gives.roundtrip hid).bind ((Gives.lift (a := id s) rfl).bind (hversion.bind
    (hserial.bind ((Gives.lift (tryReadU8_at _ _)).bind ((Gives.pure _).bind
      ((Gives.lift (readU16_at _ _ _)).bind ((Gives.pure _).bind
        ((Gives.lift (Client.addU32_serial _)).bind (Gives.pure _)))))))))⟩

theorem writeU16_serial (h : StoresMemory dev id mem) (s : σ) (x : UInt16) :
    ∃ t, Gives dev (Client.writeU16 Eeprom.serialShort x) s () t
        [.writeMemory Eeprom.serialShort (putU16 x)] ∧
      DeviceInfo.stored (id t) (mem t) =
        { DeviceInfo.stored (id s) (mem s) with serial := 900000 + x.toUInt32 } := by
  obtain ⟨t,hwrite,hid,hmem⟩ := h.writeMemory s Eeprom.serialShort (putU16 x) (by
    rw [putU16_length]
    decide)
  have hversion : mem t Eeprom.firmwareVersion.toNat = mem s Eeprom.firmwareVersion.toNat := by
    have hbelow : ¬Eeprom.serialShort.toNat ≤ Eeprom.firmwareVersion.toNat := by decide
    rw [hmem]
    exact if_neg fun hcovers => hbelow hcovers.1
  have hhi : mem t Eeprom.serialShort.toNat = (x >>> 8).toUInt8 := by
    rw [hmem]
    exact if_pos ⟨Nat.le_refl _,Nat.lt_add_of_pos_right (Nat.zero_lt_two)⟩
  have hlo : mem t (Eeprom.serialShort.toNat + 1) = x.toUInt8 := by
    rw [hmem]
    exact if_pos ⟨Nat.le_succ _,Nat.lt_succ_self _⟩
  refine ⟨t,Client.acked hwrite,?_⟩
  simp only [DeviceInfo.stored,hid,hversion,hhi,hlo,u16Of_put]

end StoresMemory

namespace MockDevice

/-- The mock device at the end of a link that is closed by a panic. -/
def answers : Dialogue.Device MockDevice Commands Responses MiniDSPError := fun dev q =>
  match dev.execute q with
  | .ok (dev,r) => (.ok r,dev)
  | .error (.error e) => (.error e,dev)
  | .error (.panic _) => (.error .transportClosed,dev)

def hardwareId (dev : MockDevice) : HardwareId :=
  ⟨dev.firmwareVersion.1,dev.firmwareVersion.2,dev.hwId⟩

def memory (dev : MockDevice) (i : ℕ) : UInt8 := dev.eeprom.toList.getD i 0

theorem memory_splice (dev : MockDevice) {addr : UInt16} {data : Bytes}
    (h : addr.toNat + data.length ≤ 65536) : ∃ eeprom,
      (splice dev.eeprom addr.toNat data : Exec MiniDSPError _) = .ok eeprom ∧
      memory { dev with eeprom } = Overlay.store dev.memory ⟨addr.toNat,data⟩ := by
  refine ⟨_,if_pos h,funext fun i => ?_⟩
  by_cases hi : i < 65536
  · by_cases hle : addr.toNat ≤ i
    · by_cases hlt : i < addr.toNat + data.length
      · have hin : i - addr.toNat < data.length := by omega
        simp [memory,Overlay.store,Overlay.Write.Covers,Overlay.Write.stop,hi,hle,hlt,hin]
      · have hout : data.length ≤ i - addr.toNat := by omega
        simp [memory,Overlay.store,Overlay.Write.Covers,Overlay.Write.stop,hi,hle,hlt,hout]
    · simp [memory,Overlay.store,Overlay.Write.Covers,hi,hle]
  · have hlt : ¬i < addr.toNat + data.length := by omega
    simp [memory,Overlay.store,Overlay.Write.Covers,Overlay.Write.stop,hi,hlt]

theorem slice_memory (dev : MockDevice) {addr : UInt16} {size : UInt8}
    (h : addr.toNat + size.toNat ≤ 65536) :
    (dev.eeprom.toList.take (addr.toNat + size.toNat)).drop addr.toNat =
      (List.range size.toNat).map fun i => dev.memory (addr.toNat + i) := by
  refine List.ext_getElem ?_ fun i hi hi' => ?_
  · simp
    omega
  · have hin : addr.toNat + i < 65536 := by
      rw [List.length_map,List.length_range] at hi'
      omega
    simp [memory,hin]

theorem storesMemory : StoresMemory answers hardwareId memory where
  readHardwareId dev := ⟨dev,rfl,rfl,rfl⟩
  readMemory dev addr size h := by
    refine ⟨dev,?_,rfl,rfl⟩
    have hdata := dev.slice_memory h
    have hslice : (slice dev.eeprom.toList addr.toNat (addr.toNat + size.toNat) :
        Exec MiniDSPError _) = _ := slice_ok (Nat.le_add_right _ _) (by
      rw [Vector.length_toList]
      exact h)
    simp only [answers,execute,if_neg (Nat.not_lt.mpr h),hslice,hdata]
    simp [bind,Except.bind,pure,Except.pure,resize]
  writeMemory dev addr data h := by
    obtain ⟨eeprom,hsplice,hmem⟩ := dev.memory_splice h
    refine ⟨{ dev with eeprom },?_,rfl,hmem⟩
    simp only [answers,execute,hsplice]
    rfl

end MockDevice

namespace Debug

variable {value : UInt32}

theorem serialRange_iff : serialRange value = true ↔
    900000 ≤ value.toNat ∧ value.toNat ≤ 965535 := by
  simp [serialRange,UInt32.le_iff_toNat_le]

/-- A value in the range is written as its distance from the start of the range. -/
theorem setSerial_inRange (h : serialRange value = true) :
    ∃ x : UInt16, setSerial value = Client.writeU16 Eeprom.serialShort x ∧
      900000 + x.toUInt32 = value := by
  obtain ⟨hlo,hhi⟩ := serialRange_iff.mp h
  have hle : (900000 : UInt32) ≤ value := UInt32.le_iff_toNat_le.mpr hlo
  have hsub : (value - 900000).toNat = value.toNat - 900000 := UInt32.toNat_sub_of_le _ _ hle
  have hinto : tryIntoU16 (value - 900000) = .ok (value - 900000).toUInt16 :=
    if_pos (by rw [hsub]; omega)
  refine ⟨(value - 900000).toUInt16,?_,?_⟩
  · rw [setSerial,if_neg (by decide),subU32,if_pos hle,lift_ok_bind rfl,hinto]
    rfl
  · apply UInt32.toNat_inj.mp
    rw [UInt32.toNat_add,UInt16.toNat_toUInt32,UInt32.toNat_toUInt16,hsub]
    change (900000 + (value.toNat - 900000) % 65536) % 4294967296 = value.toNat
    omega

/-- A value beyond the range is not refused: the subtraction underflows, or the difference has
more than 16 bits. -/
theorem setSerial_panics (h : serialRange value = false) :
    ∃ p, setSerial value = .done (.panic p) := by
  rw [setSerial,if_neg (by decide)]
  by_cases hle : (900000 : UInt32) ≤ value
  · have hsub : (value - 900000).toNat = value.toNat - 900000 := UInt32.toNat_sub_of_le _ _ hle
    have hlo : 900000 ≤ value.toNat := UInt32.le_iff_toNat_le.mp hle
    have hhi : ¬value.toNat ≤ 965535 := fun hhi =>
      absurd (serialRange_iff.mpr ⟨hlo,hhi⟩) (by rw [h]; decide)
    have hinto : tryIntoU16 (value - 900000) = .error () := if_neg (by rw [hsub]; omega)
    rw [subU32,if_pos hle,lift_ok_bind rfl,hinto]
    exact ⟨_,rfl⟩
  · rw [subU32,if_neg hle]
    exact ⟨_,rfl⟩

theorem setsSerial_inRange (h : serialRange value = true) : SetsSerial value := by
  obtain ⟨x,hset,hvalue⟩ := setSerial_inRange h
  refine ⟨fun hout => absurd hout (by rw [h]; decide),fun _ => ?_,fun _ => ?_⟩
  · exact ⟨(x >>> 8).toUInt8,x.toUInt8,fun dev s => by
      rw [hset]
      exact asked_bind_silent (fun r t => asked_lift _ t) s⟩
  · intro σ dev id mem hdev s
    obtain ⟨t,hwrite,hstored⟩ := hdev.writeU16_serial s x
    obtain ⟨_,_,hbefore⟩ := hdev.getDeviceInfo s
    obtain ⟨_,_,hafter⟩ := hdev.getDeviceInfo t
    refine ⟨DeviceInfo.stored (id s) (mem s),t,by rw [hbefore.run],by rw [hset,hwrite.run],?_⟩
    rw [hafter.run,hstored,hvalue]

/-- The command does what it should for the values in the range. -/
theorem setsSerial_iff (value : UInt32) : SetsSerial value ↔ serialRange value = true := by
  refine ⟨fun h => ?_,setsSerial_inRange⟩
  by_contra hrange
  rw [Bool.not_eq_true] at hrange
  obtain ⟨p,hp⟩ := setSerial_panics hrange
  have hrefused := (h.refused hrange (fun s _ => (.error .timeout,s)) ()).1
  rw [hp] at hrefused
  cases hrefused

theorem setSerial_below : ¬∀ value, SetsSerial value := by
  intro h
  have hrefused := ((h 0).refused (by decide) (fun s _ => (.error .timeout,s)) ()).1
  cases hrefused

end Debug

/-- The mock device reports the serial number that it is given. -/
theorem MockDevice.serial_reported (dev : MockDevice) {value : UInt32}
    (h : Debug.serialRange value = true) :
    ∃ info t, (run answers Client.getDeviceInfo dev).1 = .ok info ∧
      run answers (Debug.setSerial value) dev = (.ok (),t) ∧
      (run answers Client.getDeviceInfo t).1 = .ok { info with serial := value } :=
  (Debug.setsSerial_inRange h).reported h storesMemory dev

end Minidsp
