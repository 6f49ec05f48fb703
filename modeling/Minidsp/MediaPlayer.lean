import Mathlib.Algebra.Order.Floor.Ring
import Mathlib.Data.Rat.Floor
import Mathlib.Tactic.FieldSimp
import Mathlib.Tactic.Order
import Mathlib.Tactic.Positivity

/-! The media player of the home automation integration: it shows the volume as a level from zero
to one, and posts a new volume for a press of a button or a drag of the slider. -/

namespace HalfEven

variable {K : Type} [Field K] [LinearOrder K] [FloorRing K]

/-- Rounding to the nearest integer, and to the even one of two. -/
def round (x : K) : ℤ :=
  if Int.fract x < 1/2 then ⌊x⌋
  else if 1/2 < Int.fract x then ⌊x⌋+1
  else if ⌊x⌋ % 2 = 0 then ⌊x⌋
  else ⌊x⌋+1

theorem floor_le_round (x : K) : ⌊x⌋ ≤ round x := by
  unfold round
  split_ifs <;> omega

theorem round_le_floor_add_one (x : K) : round x ≤ ⌊x⌋+1 := by
  unfold round
  split_ifs <;> omega

variable [IsStrictOrderedRing K]

@[simp] theorem round_intCast (n : ℤ) : round (n : K) = n := by
  rw [round,Int.fract_intCast,if_pos (by norm_num),Int.floor_intCast]

theorem round_mono {x y : K} (hxy : x ≤ y) : round x ≤ round y := by
  rcases (Int.floor_le_floor hxy).lt_or_eq with hlt | heq
  · exact (round_le_floor_add_one x).trans ((Int.add_one_le_iff.mpr hlt).trans (floor_le_round y))
  · -- between the same integers the parts behind the point are ordered as the numbers are
    have hfract : Int.fract x ≤ Int.fract y := by
      rw [Int.fract,Int.fract,heq]
      exact sub_le_sub_right hxy _
    unfold round
    rw [heq]
    split_ifs <;> first | omega | order

end HalfEven

namespace Minidsp

structure MiniDSPState where
  volume : Option ℚ
  mute : Option Bool
  deriving DecidableEq, Repr

/-- `round` of Python with a digit behind the point. -/
def roundTenths (x : ℚ) : ℚ := (HalfEven.round (x*10) : ℚ)/10

/-- `or` of Python: zero is false, as a value that is missing is. -/
def orElse (x : Option ℚ) (default : ℚ) : ℚ :=
  match x with
  | none => default
  | some x => if x = 0 then default else x

namespace Coordinator

structure Posted where
  volume : ℚ
  state : Option MiniDSPState
  deriving DecidableEq, Repr

def getState (states : Option MiniDSPState) : MiniDSPState := states.getD ⟨none,none⟩

/-- A device that no state is kept of is not patched. -/
def asyncSetVolume (states : Option MiniDSPState) (volume : ℚ) : Posted :=
  ⟨roundTenths volume,states.map fun state => { state with volume := some (roundTenths volume) }⟩

end Coordinator

namespace MediaPlayer

open Coordinator

def volumeMin : ℚ := -127
def volumeMax : ℚ := 0
def volumeStepDb : ℚ := 1/2

/-- `states` is what the coordinator has of the device. -/
def volumeLevel (states : Option MiniDSPState) : Option ℚ :=
  (getState states).volume.map fun db => (db - volumeMin)/(volumeMax - volumeMin)

/-- Close to the current level the request is taken for a press of a button, elsewhere for a drag
of the slider. -/
def asyncSetVolumeLevel (states : Option MiniDSPState) (volume : ℚ) : Posted :=
  let dragged := roundTenths (volumeMin + volume*(volumeMax - volumeMin))
  let db := match volumeLevel states with
    | none => dragged
    | some currentLevel =>
      if |volume - currentLevel| ≤ 6/100 then
        let step := if currentLevel < volume then volumeStepDb else -volumeStepDb
        max volumeMin (min volumeMax (orElse (getState states).volume volumeMin + step))
      else dragged
  asyncSetVolume states db

def asyncVolumeUp (states : Option MiniDSPState) : Posted :=
  let current := orElse (getState states).volume volumeMin
  asyncSetVolume states (min (current + volumeStepDb) volumeMax)

def asyncVolumeDown (states : Option MiniDSPState) : Posted :=
  let current := orElse (getState states).volume volumeMax
  asyncSetVolume states (max (current - volumeStepDb) volumeMin)

def Tenths (x : ℚ) : Prop := ∃ k : ℤ, x = k/10

/-- The requests move a volume as they should. -/
structure Moves (state : MiniDSPState) (v : ℚ) : Prop where
  up : (asyncVolumeUp (some state)).volume = min (v + 1/2) 0
  down : (asyncVolumeDown (some state)).volume = max (v - 1/2) (-127)
  level_up : ∀ x, |x - (v+127)/127| ≤ 6/100 → (v+127)/127 < x →
    (asyncSetVolumeLevel (some state) x).volume = min (v + 1/2) 0
  level_down : ∀ x, |x - (v+127)/127| ≤ 6/100 → x < (v+127)/127 →
    (asyncSetVolumeLevel (some state) x).volume = max (v - 1/2) (-127)
  range : ∀ x, 0 ≤ x → x ≤ 1 → -127 ≤ (asyncSetVolumeLevel (some state) x).volume ∧
    (asyncSetVolumeLevel (some state) x).volume ≤ 0
  mono : ∀ x y, x ≤ y → 6/100 < |x - (v+127)/127| → 6/100 < |y - (v+127)/127| →
    (asyncSetVolumeLevel (some state) x).volume ≤ (asyncSetVolumeLevel (some state) y).volume

/-! Rounding to tenths. -/

section
variable {x y : ℚ}

theorem Tenths.min (hx : Tenths x) (hy : Tenths y) : Tenths (min x y) := by
  rcases min_choice x y with h | h <;> rw [h] <;> assumption

theorem Tenths.max (hx : Tenths x) (hy : Tenths y) : Tenths (max x y) := by
  rcases max_choice x y with h | h <;> rw [h] <;> assumption

theorem Tenths.add (hx : Tenths x) (hy : Tenths y) : Tenths (x+y) := by
  obtain ⟨k,rfl⟩ := hx
  obtain ⟨l,rfl⟩ := hy
  exact ⟨k+l,by push_cast; ring⟩

theorem tenths_int (n : ℤ) : Tenths n := ⟨10*n,by push_cast; ring⟩

theorem tenths_step : Tenths (1/2) ∧ Tenths (-(1/2)) := ⟨⟨5,by norm_num⟩,⟨-5,by norm_num⟩⟩

theorem tenths_bounds : Tenths 0 ∧ Tenths (-127) := ⟨tenths_int 0,tenths_int (-127)⟩

theorem roundTenths_eq (hx : Tenths x) : roundTenths x = x := by
  obtain ⟨k,rfl⟩ := hx
  rw [roundTenths,div_mul_cancel₀ _ (by norm_num),HalfEven.round_intCast]

theorem roundTenths_mono : Monotone roundTenths := by
  intro x y hxy
  have hround : HalfEven.round (x*10) ≤ HalfEven.round (y*10) :=
    HalfEven.round_mono (by linarith)
  have hcast : (HalfEven.round (x*10) : ℚ) ≤ HalfEven.round (y*10) := by exact_mod_cast hround
  unfold roundTenths
  linarith

theorem roundTenths_idem (x : ℚ) : roundTenths (roundTenths x) = roundTenths x :=
  roundTenths_eq ⟨_,rfl⟩

/-- The bounds of the range are not rounded, so nothing is rounded out of it. -/
theorem roundTenths_mem (hlo : -127 ≤ x) (hhi : x ≤ 0) :
    -127 ≤ roundTenths x ∧ roundTenths x ≤ 0 := by
  have hlo' := roundTenths_mono hlo
  have hhi' := roundTenths_mono hhi
  rw [roundTenths_eq tenths_bounds.2] at hlo'
  rw [roundTenths_eq tenths_bounds.1] at hhi'
  exact ⟨hlo',hhi'⟩

end

section
variable {state : MiniDSPState} {v x : ℚ}

theorem volumeLevel_some (hv : state.volume = some v) :
    volumeLevel (some state) = some ((v+127)/127) := by
  simp only [volumeLevel,getState,Option.getD_some,hv,Option.map_some,volumeMin,volumeMax]
  norm_num

theorem level_near (hv : state.volume = some v) (hx : |x - (v+127)/127| ≤ 6/100) :
    (asyncSetVolumeLevel (some state) x).volume = roundTenths (max (-127) (min 0
      (orElse (some v) (-127) + if (v+127)/127 < x then 1/2 else -(1/2)))) := by
  simp only [asyncSetVolumeLevel,volumeLevel_some hv,if_pos hx,getState,Option.getD_some,hv]
  rfl

theorem level_far (hv : state.volume = some v) (hx : 6/100 < |x - (v+127)/127|) :
    (asyncSetVolumeLevel (some state) x).volume = roundTenths (-127 + x*127) := by
  simp only [asyncSetVolumeLevel,volumeLevel_some hv,if_neg (not_le.mpr hx)]
  have hspan : volumeMin + x*(volumeMax - volumeMin) = -127 + x*127 := by
    norm_num [volumeMin,volumeMax]
  rw [hspan]
  exact roundTenths_idem _

theorem orElse_some (hne : v ≠ 0) (default : ℚ) : orElse (some v) default = v := if_neg hne

theorem level_mem (hv : state.volume = some v) (hx0 : 0 ≤ x) (hx1 : x ≤ 1) :
    -127 ≤ (asyncSetVolumeLevel (some state) x).volume ∧
      (asyncSetVolumeLevel (some state) x).volume ≤ 0 := by
  rcases le_or_gt |x - (v+127)/127| (6/100) with hx | hx
  · rw [level_near hv hx]
    exact roundTenths_mem (le_max_left _ _) (max_le (by norm_num) (min_le_left _ _))
  · rw [level_far hv hx]
    exact roundTenths_mem (by linarith) (by linarith)

theorem level_mono (hv : state.volume = some v) {y : ℚ} (hxy : x ≤ y)
    (hx : 6/100 < |x - (v+127)/127|) (hy : 6/100 < |y - (v+127)/127|) :
    (asyncSetVolumeLevel (some state) x).volume ≤
      (asyncSetVolumeLevel (some state) y).volume := by
  rw [level_far hv hx,level_far hv hy]
  exact roundTenths_mono (by linarith)

/-- At the top of the range a press for more asks for what is half a decibel above the bottom. -/
theorem up_zero (hv : state.volume = some 0) :
    (asyncVolumeUp (some state)).volume = -253/2 := by
  have hposted : (asyncVolumeUp (some state)).volume = roundTenths (-253/2) := by
    simp only [asyncVolumeUp,getState,Option.getD_some,hv,orElse,if_pos,volumeMin,volumeMax,
      volumeStepDb]
    norm_num [asyncSetVolume]
  rw [hposted]
  exact roundTenths_eq ⟨-1265,by norm_num⟩

/-! Steps from a volume that is not taken for a missing one. -/

theorem stepUp_eq (ht : Tenths v) : roundTenths (min (v + 1/2) 0) = min (v + 1/2) 0 :=
  roundTenths_eq ((ht.add tenths_step.1).min tenths_bounds.1)

theorem stepDown_eq (ht : Tenths v) :
    roundTenths (max (v - 1/2) (-127)) = max (v - 1/2) (-127) := by
  rw [sub_eq_add_neg]
  exact roundTenths_eq ((ht.add tenths_step.2).max tenths_bounds.2)

theorem up_of_ne (hv : state.volume = some v) (hne : v ≠ 0) (ht : Tenths v) :
    (asyncVolumeUp (some state)).volume = min (v + 1/2) 0 := by
  simp only [asyncVolumeUp,getState,Option.getD_some,hv,orElse_some hne]
  exact stepUp_eq ht

theorem down_of_ne (hv : state.volume = some v) (hne : v ≠ 0) (ht : Tenths v) :
    (asyncVolumeDown (some state)).volume = max (v - 1/2) (-127) := by
  simp only [asyncVolumeDown,getState,Option.getD_some,hv,orElse_some hne]
  exact stepDown_eq ht

theorem level_up_of_ne (hv : state.volume = some v) (hlo : -127 ≤ v) (hne : v ≠ 0)
    (ht : Tenths v) (hx : |x - (v+127)/127| ≤ 6/100) (hlt : (v+127)/127 < x) :
    (asyncSetVolumeLevel (some state) x).volume = min (v + 1/2) 0 := by
  have hclamp : max (-127) (min 0 (v + 1/2)) = min (v + 1/2) 0 := by
    rw [min_comm]
    exact max_eq_right (le_min (by linarith) (by norm_num))
  rw [level_near hv hx,if_pos hlt,orElse_some hne,hclamp]
  exact stepUp_eq ht

theorem level_down_of_ne (hv : state.volume = some v) (hhi : v ≤ 0) (hne : v ≠ 0)
    (ht : Tenths v) (hx : |x - (v+127)/127| ≤ 6/100) (hlt : x < (v+127)/127) :
    (asyncSetVolumeLevel (some state) x).volume = max (v - 1/2) (-127) := by
  have hclamp : max (-127) (min 0 (v + -(1/2))) = max (v - 1/2) (-127) := by
    rw [min_eq_right (by linarith),max_comm,sub_eq_add_neg]
  rw [level_near hv hx,if_neg hlt.not_gt,orElse_some hne,hclamp]
  exact stepDown_eq ht

/-- Every volume but that at the top of the range is moved as it should. -/
theorem moves_iff (hv : state.volume = some v) (hlo : -127 ≤ v) (hhi : v ≤ 0) (ht : Tenths v) :
    Moves state v ↔ v ≠ 0 := by
  constructor
  · rintro h rfl
    have hup := h.up
    rw [up_zero hv] at hup
    norm_num at hup
  · intro hne
    exact {
      up := up_of_ne hv hne ht
      down := down_of_ne hv hne ht
      level_up := fun x => level_up_of_ne hv hlo hne ht
      level_down := fun x => level_down_of_ne hv hhi hne ht
      range := fun x => level_mem hv
      mono := fun x y => level_mono hv }

theorem moves_ten_below : Moves ⟨some (-10),none⟩ (-10) ↔ (-10 : ℚ) ≠ 0 :=
  moves_iff rfl (by norm_num) (by norm_num) (tenths_int (-10))

/-- At 0 dB more is nearly silence. -/
theorem up_from_the_top :
    ¬∀ (state : MiniDSPState) (v : ℚ), state.volume = some v → -127 ≤ v → v ≤ 0 → Tenths v →
      Moves state v := by
  intro h
  have hup := (h ⟨some 0,none⟩ 0 rfl (by norm_num) le_rfl (tenths_int 0)).up
  rw [up_zero rfl] at hup
  norm_num at hup

end

end MediaPlayer
end Minidsp
