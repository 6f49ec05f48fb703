import Minidsp.FirUpload
import Minidsp.MasterControl

/-! What an upload of FIR coefficients leaves behind on the device, also when the device has no
room for them: the size is only known once the upload has begun. -/
namespace Minidsp

open Buffer Dialogue

structure FirState where
  numCoefficients : UInt16
  /-- The filter that is being loaded. -/
  loading : Option UInt8
  coefficients : List F32Bits
  mute : Bool
  deriving DecidableEq, Repr

/-- The room that the device reports, what it does to the mute while it loads, and the rest of
its memory. -/
structure FirDevice where
  size : UInt16
  whileLoading : Bool → Bool
  memory : UInt16 → UInt8

namespace FirDevice

variable (device : FirDevice)

def byte (s : FirState) (addr : UInt16) : UInt8 :=
  if addr = Eeprom.mute then Commands.boolByte s.mute else device.memory addr

/-- The answers of the device; `numCoefficients` is the address of the word with the number of
active coefficients. -/
def answer (numCoefficients : Addr) : Dialogue.Device FirState Commands Responses MiniDSPError :=
  fun s q => match q with
    | .readMemory addr size => (.ok (.memoryData ⟨addr,(List.range size.toNat).map fun i =>
        device.byte s (addr + UInt16.ofNat i)⟩),s)
    | .write addr (.int value) =>
      (.ok .ack,if addr = numCoefficients then { s with numCoefficients := value } else s)
    | .firLoadStart index => (.ok (.firLoadSize device.size),
        { s with loading := some index, coefficients := [], mute := device.whileLoading s.mute })
    | .firLoadData _ data => (.ok .ack,{ s with coefficients := s.coefficients ++ data })
    | .firLoadEnd => (.ok .ack,{ s with loading := none })
    | .setMute value => (.ok .ack,{ s with mute := value })
    | _ => (.ok .ack,s)

end FirDevice

namespace FirState

def begun (s : FirState) (device : FirDevice) (fir : Device.Fir) (n : ℕ) : FirState where
  numCoefficients := UInt16.ofNat n
  loading := some fir.index
  coefficients := []
  mute := device.whileLoading s.mute

def uploaded (s : FirState) (coefficients : List F32Bits) : FirState where
  numCoefficients := UInt16.ofNat coefficients.length
  loading := none
  coefficients := coefficients
  mute := s.mute

end FirState

section
variable (device : FirDevice) (dsp : MiniDSP) (fir : Device.Fir) (coefficients : List F32Bits)
variable (s : FirState)

def FirDevice.of : Dialogue.Device FirState Commands Responses MiniDSPError :=
  device.answer (dsp.device.dialect.addr fir.numCoefficients)

theorem getMasterStatus_fir : ∃ status qs, Gives (device.of dsp fir) dsp.getMasterStatus s status s
    qs ∧ status.mute = some s.mute := by
  have hget : Gives (device.of dsp fir) dsp.getMasterStatus s
      (.stored dsp.deviceInfo (device.byte s)) s [.readMemory Eeprom.preset 9] :=
    getMasterStatus_stored dsp rfl
  refine ⟨_,_,hget,?_⟩
  cases hmute : s.mute <;> simp [MasterStatus.stored,FirDevice.byte,hmute,Commands.boolByte]

theorem blocks_fir (blocks : List (List F32Bits)) (s : FirState) : ∃ qs,
    Gives (device.of dsp fir) (forM blocks fun block =>
      Dialogue.roundtrip (.firLoadData fir.index block) >>= fun r => Client.expect r.intoAck) s ()
      { s with coefficients := s.coefficients ++ blocks.flatten } qs := by
  induction blocks generalizing s with
  | nil => exact ⟨[],by simpa using Gives.pure ()⟩
  | cons block blocks ih =>
    obtain ⟨qs,hrest⟩ := ih { s with coefficients := s.coefficients ++ block }
    rw [List.forM_cons,List.flatten_cons,← List.append_assoc]
    have hblock : Gives (device.of dsp fir) (Dialogue.roundtrip (.firLoadData fir.index block) >>=
        fun r => Client.expect r.intoAck) s () { s with coefficients := s.coefficients ++ block }
        [.firLoadData fir.index block] := Client.acked rfl
    exact ⟨_,hblock.bind hrest⟩

theorem load_fir {status : MasterStatus} {mute : Bool} (h : status.mute = some mute) :
    ∃ qs, Gives (device.of dsp fir) (MiniDSP.load fir coefficients status)
      (s.begun device fir coefficients.length) ()
      { s.uploaded coefficients with mute } qs := by
  obtain ⟨qs,hblocks⟩ := blocks_fir device dsp fir (chunks 14 coefficients)
    (s.begun device fir coefficients.length)
  rw [chunks_flatten (by omega)] at hblocks
  have hunwrap : Gives (device.of dsp fir) (Client.unwrap status.mute)
      { s.uploaded coefficients with mute := device.whileLoading s.mute } mute
      { s.uploaded coefficients with mute := device.whileLoading s.mute } [] := by
    rw [h]
    exact Gives.pure mute
  have hend : Gives (device.of dsp fir) (Dialogue.roundtrip .firLoadEnd >>=
      fun r => Client.expect r.intoAck)
      { s.begun device fir coefficients.length with coefficients := coefficients } ()
      { s.uploaded coefficients with mute := device.whileLoading s.mute } [.firLoadEnd] :=
    Client.acked rfl
  have hrestore : Gives (device.of dsp fir) (MiniDSP.setMasterMute mute)
      { s.uploaded coefficients with mute := device.whileLoading s.mute } ()
      { s.uploaded coefficients with mute } [.setMute mute] := Client.acked rfl
  exact ⟨_,hblocks.bind (hend.bind (hunwrap.bind hrestore))⟩

/-- Too many coefficients: the upload is given up when it has begun. Otherwise all is done. -/
theorem run_setCoefficients :
    run (device.of dsp fir) (dsp.setCoefficients fir coefficients) s =
      if device.size.toNat < coefficients.length
      then (.error .tooManyCoefficients,s.begun device fir coefficients.length)
      else (.ok (),s.uploaded coefficients) := by
  obtain ⟨status,_,hstatus,hmute⟩ := getMasterStatus_fir device dsp fir s
  have hwrite : Gives (device.of dsp fir)
      (dsp.writeDspInt fir.numCoefficients (UInt16.ofNat coefficients.length)) s ()
      { s with numCoefficients := UInt16.ofNat coefficients.length }
      [.write (dsp.device.dialect.addr fir.numCoefficients) (.int (.ofNat coefficients.length))] :=
    Client.acked (congrArg (Prod.mk _) (if_pos rfl))
  have hstart : Gives (device.of dsp fir) (Dialogue.roundtrip (.firLoadStart fir.index) >>=
      fun r => Client.expect r.intoFirSize)
      { s with numCoefficients := UInt16.ofNat coefficients.length } device.size
      (s.begun device fir coefficients.length) [.firLoadStart fir.index] :=
    Client.expected rfl rfl
  rw [setCoefficients_eq,run_bind_ok hstatus.run,run_bind_ok hwrite.run,run_bind_ok hstart.run]
  split_ifs with hroom
  · rfl
  · obtain ⟨_,hload⟩ := load_fir device dsp fir coefficients s hmute
    exact hload.run

/-- A rejected upload leaves the number of coefficients, the loading and the mute as they were;
after an upload the number of coefficients is that of the loaded ones. -/
def CleanUpload : Prop :=
  (∀ t, run (device.of dsp fir) (dsp.setCoefficients fir coefficients) s =
      (.error .tooManyCoefficients,t) →
    t.numCoefficients = s.numCoefficients ∧ t.loading = s.loading ∧ t.mute = s.mute) ∧
  ∀ t, run (device.of dsp fir) (dsp.setCoefficients fir coefficients) s = (.ok (),t) →
    t.numCoefficients.toNat = coefficients.length ∧ t.coefficients = coefficients

/-- The state is already what an upload of so many coefficients makes of it when it begins. -/
def FirState.AsBegun (n : ℕ) : Prop :=
  s.numCoefficients = UInt16.ofNat n ∧ s.loading = some fir.index ∧
    device.whileLoading s.mute = s.mute

/-- An upload is clean exactly if there is room for it, or there is nothing it changes when it
begins. -/
theorem cleanUpload_iff : CleanUpload device dsp fir coefficients s ↔
    coefficients.length ≤ device.size.toNat ∨ s.AsBegun device fir coefficients.length := by
  rw [CleanUpload,run_setCoefficients]
  split_ifs with hroom
  · have hlen : ¬coefficients.length ≤ device.size.toNat := by omega
    simp only [hlen,false_or]
    constructor
    · rintro ⟨hrejected,-⟩
      obtain ⟨hnum,hloading,hmute⟩ := hrejected _ rfl
      exact ⟨hnum.symm,hloading.symm,hmute⟩
    · rintro ⟨hnum,hloading,hmute⟩
      refine ⟨?_,nofun⟩
      rintro _ ⟨⟩
      exact ⟨hnum.symm,hloading.symm,hmute⟩
  · have hsize := device.size.toNat_lt
    refine iff_of_true ⟨nofun,?_⟩ (Or.inl (by omega))
    rintro _ ⟨⟩
    refine ⟨?_,rfl⟩
    rw [FirState.uploaded,UInt16.toNat_ofNat']
    omega

end

/-- Two coefficients for a device that has room for one: it stays muted, and in the middle of an
upload. -/
theorem rejected_stays_muted :
    ¬CleanUpload ⟨1,fun _ => true,fun _ => 0⟩ ⟨.generic,⟨10,1,13,100,900000⟩⟩ ⟨0,1,2,1⟩ [0,0]
      ⟨0,none,[],false⟩ := by
  rintro ⟨hrejected,-⟩
  have hrun := run_setCoefficients ⟨1,fun _ => true,fun _ => 0⟩ ⟨.generic,⟨10,1,13,100,900000⟩⟩
    ⟨0,1,2,1⟩ [0,0] ⟨0,none,[],false⟩
  rw [if_pos (by decide)] at hrun
  cases (hrejected _ hrun).2.1

end Minidsp
