import Minidsp.MasterControl

/-! Gains on the wire: a gain is sent as the number of half decibels below zero, in a byte. -/
namespace Minidsp

open Buffer Dialogue

namespace Gain

/-! The minimum and maximum allowed values. -/

protected def min : ℚ := -127
protected def max : ℚ := 0

def decoded (g : Gain) : Gain := ofU8 g.toU8

def clamped (g : Gain) : ℚ := max Gain.min (min Gain.max g.val)

def InRange (g : Gain) : Prop := Gain.min ≤ g.val ∧ g.val ≤ Gain.max

/-- What is decoded is in the range, and less than a step from what was asked for. -/
def Faithful (g : Gain) : Prop := g.decoded.InRange ∧ |g.decoded.val - g.clamped| < 1/2

theorem toU8_spec (g : Gain) : ∃ k : ℕ, (k : ℚ) ≤ |g.val| * 2 ∧ |g.val| * 2 < k+1 ∧
    g.toU8.toNat = min 255 k := by
  have hpos : 0 ≤ |g.val| * 2 := by positivity
  refine ⟨⌊|g.val| * 2⌋.toNat,?_,?_,?_⟩
  · exact Nat.floor_le hpos
  · exact Nat.lt_floor_add_one _
  · rw [toU8,UInt8.toNat_ofNat']
    omega

theorem ofU8_val (b : UInt8) : (ofU8 b).val = -(b.toNat : ℚ)/2 := by
  simp only [ofU8]
  ring

theorem decoded_val (g : Gain) : g.decoded.val = -(g.toU8.toNat : ℚ)/2 := ofU8_val _

def InReach (g : Gain) : Prop := -255/2 < g.val ∧ g.val < 1/2

theorem toU8_of_inReach {g : Gain} (h : g.InReach) :
    (g.toU8.toNat : ℚ) ≤ |g.val| * 2 ∧ |g.val| * 2 < g.toU8.toNat + 1 ∧ g.toU8.toNat ≤ 254 := by
  obtain ⟨k,hk,hk1,hbyte⟩ := g.toU8_spec
  have hsmall : |g.val| * 2 < 255 := by
    have habs : |g.val| < 255/2 := abs_lt.mpr ⟨by linarith [h.1],by linarith [h.2]⟩
    linarith
  have hk255 : k < 255 := by exact_mod_cast hk.trans_lt hsmall
  have hk' : g.toU8.toNat = k := by omega
  rw [hk']
  exact ⟨hk,hk1,by omega⟩

theorem decoded_inRange_iff {g : Gain} : g.decoded.InRange ↔ g.toU8.toNat ≤ 254 := by
  have hpos : (0 : ℚ) ≤ g.toU8.toNat := Nat.cast_nonneg _
  have hcast : (g.toU8.toNat : ℚ) ≤ 254 ↔ g.toU8.toNat ≤ 254 := by exact_mod_cast Iff.rfl
  rw [InRange,decoded_val,Gain.min,Gain.max,← hcast]
  exact ⟨fun h => by linarith [h.1],fun h => ⟨by linarith,by linarith⟩⟩

theorem faithful_of_inReach {g : Gain} (h : g.InReach) : g.Faithful := by
  obtain ⟨hlo,hhi,hle⟩ := toU8_of_inReach h
  refine ⟨decoded_inRange_iff.mpr hle,?_⟩
  have hle' : (g.toU8.toNat : ℚ) ≤ 254 := by exact_mod_cast hle
  have hpos : (0 : ℚ) ≤ g.toU8.toNat := Nat.cast_nonneg _
  rw [decoded_val,clamped,Gain.min,Gain.max,abs_lt]
  rcases le_or_gt g.val 0 with hneg | hgt
  · rw [abs_of_nonpos hneg] at hlo hhi
    rw [min_eq_right hneg]
    rcases max_cases (-127) g.val with ⟨hmax,hle⟩ | ⟨hmax,hle⟩ <;> rw [hmax]
    · exact ⟨by linarith,by linarith⟩
    · exact ⟨by linarith,by linarith⟩
  · rw [abs_of_pos hgt] at hlo hhi
    rw [min_eq_left hgt.le,max_eq_right (by norm_num)]
    exact ⟨by linarith [h.2],by linarith⟩

/-- From half a decibel above zero on, the sign that is dropped makes a difference; from half a
decibel below the minimum on, the byte that is sent is below the minimum. -/
theorem inReach_of_faithful {g : Gain} (h : g.Faithful) : g.InReach := by
  obtain ⟨hrange,hclose⟩ := h
  obtain ⟨k,hk,hk1,hbyte⟩ := g.toU8_spec
  have hbyte254 : g.toU8.toNat ≤ 254 := decoded_inRange_iff.mp hrange
  have hk' : g.toU8.toNat = k := by omega
  constructor
  · have hsmall : |g.val| * 2 < 255 := by
      have hle : (k : ℚ) ≤ 254 := by exact_mod_cast hk' ▸ hbyte254
      linarith
    linarith [neg_abs_le g.val]
  · by_contra hge
    rw [not_lt] at hge
    rw [decoded_val,clamped,Gain.min,Gain.max,min_eq_left (by linarith),max_eq_right (by norm_num),
      abs_lt,hk'] at hclose
    rw [abs_of_nonneg (by linarith)] at hk1
    have hk0 : (k : ℚ) < 1 := by linarith [hclose.1]
    have hzero : k = 0 := by
      have : k < 1 := by exact_mod_cast hk0
      omega
    rw [hzero] at hk1
    norm_num at hk1
    linarith

theorem faithful_iff {g : Gain} : g.Faithful ↔ g.InReach :=
  ⟨inReach_of_faithful,faithful_of_inReach⟩

theorem decoded_le_iff {x y : Gain} :
    x.decoded.val ≤ y.decoded.val ↔ y.toU8.toNat ≤ x.toU8.toNat := by
  rw [decoded_val,decoded_val,div_le_div_iff_of_pos_right (by norm_num),neg_le_neg_iff]
  exact Nat.cast_le

theorem decoded_mono {x y : Gain} (hxy : x.val ≤ y.val) (hx : x.InReach) (hy : y.InReach) :
    x.decoded.val ≤ y.decoded.val := by
  obtain ⟨-,hx1,-⟩ := toU8_of_inReach hx
  obtain ⟨hy0,-,-⟩ := toU8_of_inReach hy
  rw [decoded_le_iff]
  suffices h : (y.toU8.toNat : ℚ) < x.toU8.toNat + 1 by
    have h' : y.toU8.toNat < x.toU8.toNat + 1 := by exact_mod_cast h
    omega
  rcases le_or_gt y.val 0 with hneg | hpos
  · rw [abs_of_nonpos hneg] at hy0
    rw [abs_of_nonpos (hxy.trans hneg)] at hx1
    linarith
  · rw [abs_of_pos hpos] at hy0
    have hnonneg : (0 : ℚ) ≤ x.toU8.toNat := Nat.cast_nonneg _
    linarith [hy.2]

end Gain

/-! Commands that move the volume. -/

inductive VolumeDirection
  | up | down | toggleMute
  deriving DecidableEq, Repr

def volumeIncrement : ℚ := 1/2

def updateVolume (dsp : MiniDSP) (direction : VolumeDirection) : Call MasterStatus := do
  let status ← dsp.getMasterStatus
  let currentGain ← Client.unwrap status.volume
  let currentMute ← Client.unwrap status.mute
  match direction with
  | .down => MiniDSP.setMasterVolume ⟨currentGain.val - volumeIncrement⟩
  | .up => MiniDSP.setMasterVolume ⟨currentGain.val + volumeIncrement⟩
  | .toggleMute => MiniDSP.setMasterMute !currentMute
  dsp.getMasterStatus

def runGain (dsp : MiniDSP) (value : Gain) (relative : Bool) : Call Unit := do
  if relative then
    let status ← dsp.getMasterStatus
    let volume ← Client.unwrap status.volume
    MiniDSP.setMasterVolume ⟨value.val + volume.val⟩
  else MiniDSP.setMasterVolume value

/-- A step up or down, or a relative gain with a positive value. -/
inductive Adjustment
  | up
  | down
  | relative (value : ℚ) (pos : 0 < value)

namespace Adjustment

def call (dsp : MiniDSP) : Adjustment → Call Unit
  | up => do let _ ← updateVolume dsp .up
  | down => do let _ ← updateVolume dsp .down
  | relative value _ => runGain dsp ⟨value⟩ true

def request (current : Gain) : Adjustment → Gain
  | up => ⟨current.val + volumeIncrement⟩
  | down => ⟨current.val - volumeIncrement⟩
  | relative value _ => ⟨value + current.val⟩

def Follows (before after : Gain) : Adjustment → Prop
  | down => after.val ≤ before.val
  | up | relative _ _ => before.val ≤ after.val

def volume (mem : UInt16 → UInt8) : Gain := Gain.ofU8 (mem Eeprom.masterVolume)

/-- The command returns, and the volume has moved the right way and is in the range. -/
def Proper (a : Adjustment) (dsp : MiniDSP) (mem : UInt16 → UInt8) : Prop :=
  ∃ mem', run byteStore (a.call dsp) mem = (.ok (),mem') ∧
    a.Follows (volume mem) (volume mem') ∧ (volume mem').InRange

/-- The request is not below what a byte holds; and it is less than a step further above zero
than the current gain is below it. -/
def Within (a : Adjustment) (current : Gain) : Prop :=
  match a with
  | down => -255/2 < (a.request current).val
  | up | relative _ _ => (a.request current).val < 255/2 ∧
      (a.request current).val < 1/2 + |current.val|

theorem call_gives (a : Adjustment) (dsp : MiniDSP) (mem : UInt16 → UInt8) :
    ∃ qs, Gives byteStore (a.call dsp) mem ()
      (Function.update mem Eeprom.masterVolume (a.request (volume mem)).toU8) qs := by
  have hstatus := getMasterStatus_byteStore dsp mem
  have hvolume : Gives byteStore (Client.unwrap (MasterStatus.stored dsp.deviceInfo mem).volume)
      mem (volume mem) mem [] := Gives.pure _
  have hmute : Gives byteStore (Client.unwrap (MasterStatus.stored dsp.deviceInfo mem).mute)
      mem (mem Eeprom.mute == 1) mem [] := Gives.pure _
  obtain ⟨qs,hset⟩ := setMasterVolume_gives (a.request (volume mem)) mem
  have hafter := getMasterStatus_byteStore dsp
    (Function.update mem Eeprom.masterVolume (a.request (volume mem)).toU8)
  cases a with
  | up | down =>
    exact ⟨_,(hstatus.bind (hvolume.bind (hmute.bind (hset.bind hafter)))).bind (Gives.pure _)⟩
  | relative value pos => exact ⟨_,hstatus.bind (hvolume.bind hset)⟩

theorem volume_update (mem : UInt16 → UInt8) (g : Gain) :
    volume (Function.update mem Eeprom.masterVolume g.toU8) = g.decoded := by
  simp [volume,Gain.decoded]

theorem proper_iff_decoded {a : Adjustment} {dsp : MiniDSP} {mem : UInt16 → UInt8} :
    a.Proper dsp mem ↔ a.Follows (volume mem) (a.request (volume mem)).decoded ∧
      (a.request (volume mem)).decoded.InRange := by
  obtain ⟨_,hgives⟩ := a.call_gives dsp mem
  rw [Proper,hgives.run]
  constructor
  · rintro ⟨mem',he,hfollows,hrange⟩
    obtain rfl := (Prod.mk.inj he).2
    rw [volume_update] at hfollows hrange
    exact ⟨hfollows,hrange⟩
  · intro h
    refine ⟨_,rfl,?_⟩
    rwa [volume_update]

theorem raised_iff {g : Gain} {b : ℕ} (hb : b ≤ 255) (hraise : -(b : ℚ)/2 < g.val) :
    (g.toU8.toNat ≤ b ∧ g.toU8.toNat ≤ 254) ↔ g.val < 255/2 ∧ g.val < 1/2 + (b : ℚ)/2 := by
  obtain ⟨k,hk,hk1,hbyte⟩ := g.toU8_spec
  have hb' : (b : ℚ) ≤ 255 := by exact_mod_cast hb
  rcases le_or_gt 0 g.val with hpos | hneg
  · rw [abs_of_nonneg hpos] at hk hk1
    constructor
    · rintro ⟨hle,hle'⟩
      have hkb : (k : ℚ) ≤ b := by exact_mod_cast (by omega : k ≤ b)
      have hk254 : (k : ℚ) ≤ 254 := by exact_mod_cast (by omega : k ≤ 254)
      exact ⟨by linarith,by linarith⟩
    · rintro ⟨hlt,hlt'⟩
      have hk255 : k < 255 := by exact_mod_cast (by linarith : (k : ℚ) < 255)
      have hkb : k < b+1 := by exact_mod_cast (by push_cast; linarith : (k : ℚ) < (b+1 : ℕ))
      omega
  · rw [abs_of_neg hneg] at hk hk1
    have hkb : k < b := by exact_mod_cast (by linarith : (k : ℚ) < b)
    have hnonneg : (0 : ℚ) ≤ b := Nat.cast_nonneg b
    exact iff_of_true (by omega) ⟨by linarith,by linarith⟩

theorem lowered_toU8 {g : Gain} {b : ℕ} (h : g.val = -(b : ℚ)/2 - 1/2) :
    g.toU8.toNat = min 255 (b+1) := by
  obtain ⟨k,hk,hk1,hbyte⟩ := g.toU8_spec
  have hnonneg : (0 : ℚ) ≤ b := Nat.cast_nonneg b
  rw [h,abs_of_neg (by linarith)] at hk hk1
  have hle : k ≤ b+1 := by exact_mod_cast (by push_cast; linarith : (k : ℚ) ≤ (b+1 : ℕ))
  have hge : b+1 < k+1 := by exact_mod_cast (by linarith : (b+1 : ℚ) < k+1)
  omega

/-- Exactly the adjustments whose request is within the byte and the current gain are made as
they should be. -/
theorem proper_iff_within (a : Adjustment) (dsp : MiniDSP) (mem : UInt16 → UInt8) :
    a.Proper dsp mem ↔ a.Within (volume mem) := by
  have hb : (mem Eeprom.masterVolume).toNat ≤ 255 := by
    have hlt := (mem Eeprom.masterVolume).toNat_lt
    omega
  have hcurrent : (volume mem).val = -((mem Eeprom.masterVolume).toNat : ℚ)/2 := Gain.ofU8_val _
  have habs : |(volume mem).val| = ((mem Eeprom.masterVolume).toNat : ℚ)/2 := by
    rw [hcurrent,neg_div,abs_neg,abs_of_nonneg (by positivity)]
  rw [proper_iff_decoded,Gain.decoded_inRange_iff]
  generalize (mem Eeprom.masterVolume).toNat = b at hb hcurrent habs
  have hhigher : ∀ g : Gain, (volume mem).val ≤ g.decoded.val ↔ g.toU8.toNat ≤ b := by
    intro g
    rw [hcurrent,Gain.decoded_val,div_le_div_iff_of_pos_right (by norm_num),neg_le_neg_iff]
    exact Nat.cast_le
  cases a with
  | up =>
    have hraise : -(b : ℚ)/2 < (request (volume mem) .up).val := by
      simp only [request,hcurrent,volumeIncrement]
      linarith
    rw [Follows,hhigher,raised_iff hb hraise,Within,habs]
  | down =>
    have hlower : (request (volume mem) .down).val = -(b : ℚ)/2 - 1/2 := by
      simp only [request,hcurrent,volumeIncrement]
    have hbyte := lowered_toU8 hlower
    have hfollows : (request (volume mem) .down).decoded.val ≤ (volume mem).val := by
      have hle : (b : ℚ) ≤ (min 255 (b+1) : ℕ) := by exact_mod_cast (by omega : b ≤ min 255 (b+1))
      rw [hcurrent,Gain.decoded_val,hbyte]
      linarith
    have hcast : -255/2 < -(b : ℚ)/2 - 1/2 ↔ b < 254 := by
      rw [← Nat.cast_lt (α := ℚ)]
      exact ⟨fun h => by push_cast; linarith,fun h => by push_cast at h; linarith⟩
    rw [Follows,Within,hlower,hcast,hbyte]
    exact ⟨fun h => by omega,fun h => ⟨hfollows,by omega⟩⟩
  | relative value pos =>
    have hraise : -(b : ℚ)/2 < (request (volume mem) (.relative value pos)).val := by
      simp only [request,hcurrent]
      linarith
    rw [Follows,hhigher,raised_iff hb hraise,Within,habs]

end Adjustment

/-- Two gains are encoded in their order, in the range and to the nearest step, exactly if the
lower one is more than -127.5 and the higher one less than 0.5; and an adjustment moves the
volume the right way and within the range exactly if its request is within what the current
gain allows. -/
theorem encoding_iff (x y : Gain) (a : Adjustment) (dsp : MiniDSP) (mem : UInt16 → UInt8) :
    (x.val ≤ y.val → ((x.Faithful ∧ y.Faithful ∧ x.decoded.val ≤ y.decoded.val) ↔
      -255/2 < x.val ∧ y.val < 1/2)) ∧
    (a.Proper dsp mem ↔ a.Within (Adjustment.volume mem)) := by
  refine ⟨fun hxy => ?_,a.proper_iff_within dsp mem⟩
  rw [Gain.faithful_iff,Gain.faithful_iff]
  constructor
  · rintro ⟨hx,hy,-⟩
    exact ⟨hx.1,hy.2⟩
  · rintro ⟨hlo,hhi⟩
    have hx : x.InReach := ⟨hlo,hxy.trans_lt hhi⟩
    have hy : y.InReach := ⟨hlo.trans_le hxy,hhi⟩
    exact ⟨hx,hy,Gain.decoded_mono hxy hx hy⟩

/-- At full volume, a step up is a step down. -/
theorem up_turns_down :
    ¬((∀ x y : Gain, x.val ≤ y.val →
      x.Faithful ∧ y.Faithful ∧ x.decoded.val ≤ y.decoded.val) ∧
    ∀ (a : Adjustment) (dsp : MiniDSP) (mem : UInt16 → UInt8), a.Proper dsp mem) := by
  rintro ⟨-,hproper⟩
  have hwithin := (Adjustment.proper_iff_within .up MasterStatus.shd fun _ => 0).mp (hproper _ _ _)
  have hzero : Adjustment.volume (fun _ => 0) = ⟨0⟩ := by decide +kernel
  rw [hzero] at hwithin
  norm_num [Adjustment.Within,Adjustment.request,volumeIncrement] at hwithin

end Minidsp
