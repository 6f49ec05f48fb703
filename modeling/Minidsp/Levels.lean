import Minidsp.MiniDSP
import Minidsp.ReadFloats

/-! The levels, made of reading many floats at once: they come back in the order of their
addresses, whatever order they were asked in. -/
namespace Minidsp

open Buffer Dialogue

namespace MiniDSP

/-- Each of the three calls returns the floats at the meters of the channels that have one, in
the order of the channels. -/
def Attributed (dsp : MiniDSP) (mem : UInt16 → F32Bits) : Prop :=
  (run (floatMemory mem) dsp.getInputLevels ()).1 = .ok (dsp.inputMeters.map mem) ∧
  (run (floatMemory mem) dsp.getOutputLevels ()).1 = .ok (dsp.outputMeters.map mem) ∧
  (run (floatMemory mem) dsp.getInputOutputLevels ()).1 =
    .ok (dsp.inputMeters.map mem,dsp.outputMeters.map mem)

/-- The meters ascend, those of the inputs first, and the cut after as many levels as there are
inputs falls between the groups. -/
def MetersAscend (dsp : MiniDSP) : Prop :=
  (dsp.inputMeters ++ dsp.outputMeters).Pairwise (· ≤ ·) ∧
    (dsp.inputMeters.length = dsp.device.inputs.length ∨ dsp.outputMeters = [])

instance (dsp : MiniDSP) : Decidable dsp.MetersAscend := inferInstanceAs (Decidable (_ ∧ _))

theorem getInputOutputLevels_run (dsp : MiniDSP) (mem : UInt16 → F32Bits) :
    (run (floatMemory mem) dsp.getInputOutputLevels ()).1 =
      .ok ((((dsp.inputMeters ++ dsp.outputMeters).mergeSort fun a b => a ≤ b).map mem).take
          dsp.device.inputs.length,
        (((dsp.inputMeters ++ dsp.outputMeters).mergeSort fun a b => a ≤ b).map mem).drop
          dsp.inputMeters.length) := by
  obtain ⟨qs,hlevels⟩ := Client.readFloatsMulti_gives mem (dsp.inputMeters ++ dsp.outputMeters)
  generalize hsort : ((dsp.inputMeters ++ dsp.outputMeters).mergeSort fun a b => a ≤ b).map mem =
    levels at hlevels
  have hlen : dsp.inputMeters.length ≤ levels.length := by
    rw [← hsort,List.length_map,List.length_mergeSort,List.length_append]
    omega
  have hcut : (slice levels dsp.inputMeters.length levels.length : Exec MiniDSPError _) =
      .ok (levels.drop dsp.inputMeters.length) := by
    rw [slice_ok hlen le_rfl,List.take_length]
  have hall : Gives (floatMemory mem) dsp.getInputOutputLevels () (levels.take
      dsp.device.inputs.length,levels.drop dsp.inputMeters.length) () _ :=
    hlevels.bind ((Gives.lift hcut).bind (Gives.pure _))
  exact congrArg Prod.fst hall.run

theorem inputMeters_length (dsp : MiniDSP) :
    dsp.inputMeters.length ≤ dsp.device.inputs.length := List.length_filterMap_le _ _

/-- Cutting after as many levels as there are inputs keeps those of the inputs only if every
input has one, or nothing follows them. -/
theorem take_inputs_iff (dsp : MiniDSP) {levels : List F32Bits}
    (hlen : levels.length = dsp.inputMeters.length + dsp.outputMeters.length) :
    levels.take dsp.device.inputs.length = levels.take dsp.inputMeters.length ↔
      dsp.inputMeters.length = dsp.device.inputs.length ∨ dsp.outputMeters = [] := by
  have hle := dsp.inputMeters_length
  constructor
  · intro h
    have hcount := congrArg List.length h
    simp only [List.length_take] at hcount
    rw [← List.length_eq_zero_iff]
    omega
  · rintro (h | h)
    · rw [h]
    · rw [h,List.length_nil,Nat.add_zero] at hlen
      rw [← hlen,List.take_length,List.take_of_length_le (by omega)]

/-- A memory that tells its addresses apart. -/
def addrMemory (a : UInt16) : F32Bits := a.toUInt32

theorem addrMemory_injective : Function.Injective addrMemory := by
  intro a b h
  have hnat := congrArg UInt32.toNat h
  simp only [addrMemory,UInt16.toNat_toUInt32] at hnat
  exact UInt16.toNat_inj.mp hnat

theorem ascend_of_attributed {dsp : MiniDSP} (h : dsp.Attributed addrMemory) :
    dsp.MetersAscend := by
  obtain ⟨-,-,hboth⟩ := h
  rw [getInputOutputLevels_run] at hboth
  generalize hsort : ((dsp.inputMeters ++ dsp.outputMeters).mergeSort fun a b => a ≤ b).map
    addrMemory = levels at hboth
  obtain ⟨hins,houts⟩ := Prod.mk.inj (Outcome.ok.inj hboth)
  have hlen : levels.length = dsp.inputMeters.length + dsp.outputMeters.length := by
    rw [← hsort,List.length_map,List.length_mergeSort,List.length_append]
  have hle := dsp.inputMeters_length
  have htake : levels.take dsp.inputMeters.length = dsp.inputMeters.map addrMemory := by
    have h := congrArg (List.take dsp.inputMeters.length) hins
    rwa [List.take_take,min_eq_left hle,← List.map_take,List.take_length] at h
  have hcut := (take_inputs_iff dsp hlen).mp (hins.trans htake.symm)
  have hwhole : levels = (dsp.inputMeters ++ dsp.outputMeters).map addrMemory := by
    rw [List.map_append,← htake,← houts,List.take_append_drop]
  have hsorted := List.map_injective_iff.mpr addrMemory_injective (hsort.trans hwhole)
  exact ⟨Client.mergeSort_eq_self_iff.mp hsorted,hcut⟩

theorem attributed_of_ascend {dsp : MiniDSP} (h : dsp.MetersAscend) (mem : UInt16 → F32Bits) :
    dsp.Attributed mem := by
  obtain ⟨hsorted,hcut⟩ := h
  obtain ⟨hins,houts,-⟩ := List.pairwise_append.mp hsorted
  have hone : ∀ addrs : List UInt16, addrs.Pairwise (· ≤ ·) →
      (run (floatMemory mem) (Client.readFloatsMulti addrs) ()).1 = .ok (addrs.map mem) := by
    intro addrs haddrs
    obtain ⟨qs,hlevels⟩ := Client.readFloatsMulti_gives mem addrs
    rw [Client.mergeSort_eq_self_iff.mpr haddrs] at hlevels
    exact congrArg Prod.fst hlevels.run
  refine ⟨hone _ hins,hone _ houts,?_⟩
  rw [getInputOutputLevels_run,Client.mergeSort_eq_self_iff.mpr hsorted,
    (take_inputs_iff dsp (by simp)).mpr hcut,List.map_append,
    List.take_append_of_le_length (by simp),List.take_of_length_le (by simp),
    List.drop_append_of_le_length (by simp)]
  simp

/-- The levels go to the right channels, whatever the device holds, exactly when the meters
ascend. -/
theorem attributed_iff_ascend (dsp : MiniDSP) :
    (∀ mem, dsp.Attributed mem) ↔ dsp.MetersAscend :=
  ⟨fun h => ascend_of_attributed (h addrMemory),attributed_of_ascend⟩

def crossed : MiniDSP where
  device := { Device.generic with
    inputs := [⟨none,some 184,[],[]⟩]
    outputs := [⟨⟨0,none⟩,some 176,none,0,[],none,none,none⟩] }
  deviceInfo := ⟨0,1,0,0,900000⟩

theorem crossed_levels_swapped : ¬∀ mem, crossed.Attributed mem := by
  intro h
  exact absurd (ascend_of_attributed (h addrMemory)) (by decide)

end MiniDSP
end Minidsp
