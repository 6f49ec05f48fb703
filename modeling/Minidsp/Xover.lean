import Mathlib.Data.List.Nodup
import Mathlib.Data.List.ProdSigma
import Mathlib.Tactic.IntervalCases
import Minidsp.Channels
import Minidsp.Rew

/-! The crossover commands of the command line: a filter file goes into the selected slots of
the groups, one biquad after the other. -/
namespace Minidsp

open Buffer Dialogue

/-- `all`, or an index. -/
inductive PEQTarget
  | all
  | one (n : ℕ)
  deriving DecidableEq, Repr

namespace PEQTarget

def range (numGroups : ℕ) : PEQTarget → List ℕ
  | all => List.range numGroups
  | one n => [n]

/-- `0..num_groups` or `n..n + 1`. -/
def intoRange (target : PEQTarget) (numGroups : ℕ) : Exec MiniDSPError (List ℕ) :=
  match target with
  | all => .ok (List.range numGroups)
  | one n =>
    if n+1 < 2^64 then .ok [n] else .error (.panic (.explicit "attempt to add with overflow"))

theorem intoRange_eq {target : PEQTarget} {numGroups : ℕ} {l : List ℕ}
    (h : target.intoRange numGroups = .ok l) : l = target.range numGroups := by
  cases target with
  | all => exact (Except.ok.inj h).symm
  | one n =>
    simp only [intoRange] at h
    split_ifs at h
    exact (Except.ok.inj h).symm

/-- The end of the range does not overflow. -/
def Below : PEQTarget → Prop
  | all => True
  | one n => n+1 < 2^64

theorem intoRange_below {target : PEQTarget} (h : target.Below) (numGroups : ℕ) :
    target.intoRange numGroups = .ok (target.range numGroups) := by
  cases target with
  | all => rfl
  | one n => exact if_pos h

theorem intoRange_overflow {target : PEQTarget} (h : ¬target.Below) (numGroups : ℕ) :
    ∃ x, target.intoRange numGroups = .error (.panic x) := by
  cases target with
  | all => exact absurd trivial h
  | one n => exact ⟨_,if_neg h⟩

theorem range_nodup (target : PEQTarget) (numGroups : ℕ) : (target.range numGroups).Nodup := by
  cases target with
  | all => exact List.nodup_range
  | one n => exact List.nodup_singleton n

end PEQTarget

/-- The commands on the filters of a channel; a file is given by what is in it. -/
inductive FilterCommand
  | set (coeff : List F32Bits)
  | bypass (value : Bool)
  | clear
  | importFrom (file : List Char)

namespace Xover

section
variable (dsp : MiniDSP) (floats : Floats) (spec : Device.Crossover)
variable (fromStr : Line → Option F32Bits)

/-- A slot of the import: the next biquad goes there; when there is none, the group is
cleared. -/
def importSlot (group : ℕ) (lines : List Line) (i : ℕ) : Call (List Line) :=
  match (Lines.fromRewLines fromStr).run lines with
  | (some biquad,lines) => do
    Crossover.setCoefficients dsp floats spec group i biquad.toArray
    return lines
  | (none,lines) => do
    Crossover.clear dsp floats spec group
    return lines

def importGroup (index : PEQTarget) (lines : List Line) (group : ℕ) : Call (List Line) := do
  let indices ← .lift (index.intoRange Crossover.numFilterPerGroup)
  let lines ← indices.foldlM (importSlot dsp floats spec fromStr group) lines
  Crossover.setBypass dsp spec group false
  return lines

def runXover (cmd : FilterCommand) (group index : PEQTarget) : Call Unit :=
  match cmd with
  | .set coeff => do
    forM (← .lift (group.intoRange 2)) fun group => do
      forM (← .lift (index.intoRange Crossover.numFilterPerGroup)) fun index =>
        Crossover.setCoefficients dsp floats spec group index coeff
  | .bypass value => do
    forM (← .lift (group.intoRange 2)) fun group => Crossover.setBypass dsp spec group value
  | .clear => do
    forM (← .lift (group.intoRange 2)) fun group => Crossover.clear dsp floats spec group
  | .importFrom file => do
    let groups ← .lift (group.intoRange 2)
    let _ ← groups.foldlM (importGroup dsp floats spec fromStr index) (Line.ofText file)
    return ()

end

/-- The biquads of a device by their address, and which of them are bypassed. -/
structure Store where
  biquads : Addr → Vector Value 5
  bypassed : Addr → Bool

namespace Store

def answer : Dialogue.Device Store Commands Responses MiniDSPError := fun s q =>
  match q with
  | .writeBiquad addr data =>
    (.ok .ack,{ s with biquads := Function.update s.biquads addr data })
  | .writeBiquadBypass addr value =>
    (.ok .ack,{ s with bypassed := Function.update s.bypassed addr value })
  | _ => (.ok .ack,s)

end Store

section
variable (dsp : MiniDSP) (floats : Floats) (spec : Device.Crossover)

/-- The groups lie in the address space, and do not overlap. -/
structure Placed : Prop where
  fits : ∀ start ∈ spec.peqs, start.toNat + 5*4 ≤ 65536
  disjoint : spec.peqs.Pairwise fun a b =>
    a.toNat + 5*4 ≤ b.toNat ∨ b.toNat + 5*4 ≤ a.toNat

def slot (group index : ℕ) : Addr :=
  dsp.addr (UInt16.ofNat ((spec.peqs.getD group 0).toNat + 5*index))

def words (b : Biquad) : Vector Value 5 :=
  #v[dsp.device.dialect.float floats b.b0,dsp.device.dialect.float floats b.b1,
    dsp.device.dialect.float floats b.b2,dsp.device.dialect.float floats b.a1,
    dsp.device.dialect.float floats b.a2]

/-- The selected slots in the order they are visited. -/
def selected (group index : PEQTarget) : List (ℕ × ℕ) :=
  (group.range 2).flatMap fun g => (index.range Crossover.numFilterPerGroup).map fun i => (g,i)

structure Imported (slots : List (ℕ × ℕ)) (biquads : List Biquad) (s t : Store) : Prop where
  filled : ∀ (k g i : ℕ) b, slots[k]? = some (g,i) → biquads[k]? = some b →
    t.biquads (slot dsp spec g i) = words dsp floats b
  cleared : ∀ k g i : ℕ, slots[k]? = some (g,i) → biquads.length ≤ k → i < 4 →
    t.biquads (slot dsp spec g i) = words dsp floats .default
  kept : ∀ g i, g < Crossover.numGroups spec → i < 4 → (g,i) ∉ slots →
    t.biquads (slot dsp spec g i) = s.biquads (slot dsp spec g i)
  enabled : ∀ g i, (g,i) ∈ slots → t.bypassed (slot dsp spec g 0) = false

def RunsOut (slots : List (ℕ × ℕ)) (n g : ℕ) : Prop := ∃ k i : ℕ, slots[k]? = some (g,i) ∧ n ≤ k

/-- A group in which the biquads run out has nothing to lose: those that were imported into it
are the identity, and so is what its other slots have held. -/
def NothingToLose (slots : List (ℕ × ℕ)) (biquads : List Biquad) (s : Store) : Prop :=
  ∀ g, RunsOut slots biquads.length g →
    (∀ (k i : ℕ) b, slots[k]? = some (g,i) → biquads[k]? = some b →
      words dsp floats b = words dsp floats .default) ∧
    ∀ i, i < 4 → (g,i) ∉ slots → s.biquads (slot dsp spec g i) = words dsp floats .default

end

/-! The import on the contents of the groups alone. -/

abbrev Grid (W : Type) := ℕ → ℕ → W

section
variable {W : Type} (identity : W) (encode : Biquad → W)

def put (m : Grid W) (g i : ℕ) (w : W) : Grid W := fun g' i' =>
  if g' = g ∧ i' = i then w else m g' i'

def wipe (m : Grid W) (g : ℕ) : Grid W := fun g' i' => if g' = g then identity else m g' i'

def visits : List (ℕ × ℕ) → List Biquad → Grid W → Grid W
  | [],_,m => m
  | (g,i) :: slots,b :: biquads,m => visits slots biquads (put m g i (encode b))
  | (g,_) :: slots,[],m => visits slots [] (wipe identity m g)

theorem visits_append (slots slots' : List (ℕ × ℕ)) (biquads : List Biquad) (m : Grid W) :
    visits identity encode (slots ++ slots') biquads m =
      visits identity encode slots' (biquads.drop slots.length)
        (visits identity encode slots biquads m) := by
  induction slots generalizing biquads m with
  | nil => rfl
  | cons v slots ih =>
    cases biquads with
    | nil => exact (ih [] _).trans (by rw [List.drop_nil,List.drop_nil]; rfl)
    | cons b biquads => exact ih biquads _

variable {slots : List (ℕ × ℕ)} {biquads : List Biquad} {m : Grid W} {v : ℕ × ℕ} {n g i k : ℕ}
variable {b : Biquad}

theorem runsOut_cons_succ : RunsOut (v :: slots) (n+1) g ↔ RunsOut slots n g := by
  constructor
  · rintro ⟨k,i,hk,hn⟩
    cases k with
    | zero => omega
    | succ k => exact ⟨k,i,hk,by omega⟩
  · rintro ⟨k,i,hk,hn⟩
    exact ⟨k+1,i,hk,by omega⟩

theorem runsOut_zero : RunsOut slots 0 g ↔ g ∈ slots.map Prod.fst := by
  rw [List.mem_map]
  constructor
  · rintro ⟨k,i,hk,-⟩
    exact ⟨(g,i),List.mem_of_getElem? hk,rfl⟩
  · rintro ⟨⟨g,i⟩,hmem,rfl⟩
    obtain ⟨k,hk⟩ := List.mem_iff_getElem?.mp hmem
    exact ⟨k,i,hk,Nat.zero_le k⟩

theorem visits_nil (slots : List (ℕ × ℕ)) (m : Grid W) (g i : ℕ) :
    visits identity encode slots [] m g i = if g ∈ slots.map Prod.fst then identity else m g i := by
  induction slots generalizing m with
  | nil => rfl
  | cons v slots ih =>
    rw [visits,ih,List.map_cons]
    by_cases hg : g ∈ slots.map Prod.fst
    · rw [if_pos hg,if_pos (List.mem_cons_of_mem _ hg)]
    · simp only [List.mem_cons,hg,if_false,or_false,wipe]

/-- A group in which the biquads run out is wiped. -/
theorem visits_runsOut (h : RunsOut slots biquads.length g) :
    visits identity encode slots biquads m g i = identity := by
  induction slots generalizing biquads m with
  | nil =>
    obtain ⟨k,i,hk,-⟩ := h
    cases hk
  | cons v slots ih =>
    cases biquads with
    | nil => rw [visits_nil,if_pos (runsOut_zero.mp h)]
    | cons b biquads => exact ih (runsOut_cons_succ.mp h)

theorem visits_kept (h : ¬RunsOut slots biquads.length g) (hnot : (g,i) ∉ slots) :
    visits identity encode slots biquads m g i = m g i := by
  induction slots generalizing biquads m with
  | nil => rfl
  | cons v slots ih =>
    cases biquads with
    | nil => rw [visits_nil,if_neg (runsOut_zero.not.mp h)]
    | cons b biquads =>
      rw [List.mem_cons,not_or] at hnot
      obtain ⟨hne,hnot⟩ := hnot
      have hother : ¬(g = v.1 ∧ i = v.2) := fun ⟨hg,hi⟩ => hne (Prod.ext hg hi)
      rw [visits,ih (runsOut_cons_succ.not.mp h) hnot,put,if_neg hother]

theorem visits_filled (hnodup : slots.Nodup) (h : ¬RunsOut slots biquads.length g)
    (hslot : slots[k]? = some (g,i)) (hb : biquads[k]? = some b) :
    visits identity encode slots biquads m g i = encode b := by
  induction slots generalizing biquads m k with
  | nil => cases hslot
  | cons v slots ih =>
    obtain ⟨hnot,hnodup⟩ := List.nodup_cons.mp hnodup
    cases biquads with
    | nil => cases hb
    | cons b' biquads =>
      cases k with
      | zero =>
        obtain rfl := Option.some.inj hslot
        obtain rfl := Option.some.inj hb
        rw [visits,visits_kept identity encode (runsOut_cons_succ.not.mp h) hnot,put,
          if_pos ⟨rfl,rfl⟩]
      | succ k => exact ih hnodup (runsOut_cons_succ.not.mp h) hslot hb

end

/-! The calls do that to the device. -/

section
variable {dsp : MiniDSP} {floats : Floats} {spec : Device.Crossover} {s t : Store}
variable {m : Grid (Vector Value 5)} {g g' i i' : ℕ} {b : Biquad} {x : Unit}

theorem addr_injective {x y : UInt16} (h : dsp.addr x = dsp.addr y) : x = y := by
  have hval : x.toUInt32 = y.toUInt32 := congrArg Addr.val h
  exact UInt16.toUInt32_inj.mp hval

theorem peqs_getD (hg : g < Crossover.numGroups spec) : spec.peqs.getD g 0 = spec.peqs[g] :=
  List.getD_eq_getElem _ _ hg

theorem slot_eq {addr : UInt16} (hg : g < Crossover.numGroups spec)
    (h : addr.toNat = spec.peqs[g].toNat + 5*i) : dsp.addr addr = slot dsp spec g i := by
  refine congrArg dsp.addr (UInt16.toNat_inj.mp ?_)
  have hlt := addr.toNat_lt
  rw [peqs_getD hg,UInt16.toNat_ofNat',Nat.mod_eq_of_lt (by omega),h]

/-! What the calls are: a slot that is there is written to. -/

theorem start_eq (hg : g < Crossover.numGroups spec) :
    Crossover.start spec g = pure spec.peqs[g] := by
  rw [Crossover.start,List.getElem?_eq_getElem hg]
  rfl

theorem start_missing (hg : ¬g < Crossover.numGroups spec) :
    Crossover.start spec g = .lift (.error (.panic (.index g spec.peqs.length))) := by
  rw [Crossover.start,List.getElem?_eq_none (Nat.not_lt.mp hg)]

theorem offset_toNat (hi : i < 4) : (UInt16.ofNat i * 5).toNat = 5*i := by
  rw [UInt16.toNat_mul,UInt16.toNat_ofNat']
  change i % 65536 * 5 % 65536 = 5*i
  omega

theorem setCoefficients_eq (hg : g < Crossover.numGroups spec) (hi : i < 4)
    (hfit : spec.peqs[g].toNat + 5*i < 65536) (coefficients : List F32Bits) :
    Crossover.setCoefficients dsp floats spec g i coefficients =
      dsp.setBiquad floats (slot dsp spec g i) coefficients := by
  have hadd : (addU16 spec.peqs[g] (UInt16.ofNat i * 5) : Exec MiniDSPError _) =
      .ok (spec.peqs[g] + UInt16.ofNat i * 5) := if_pos (by rwa [offset_toNat hi])
  have haddr : (spec.peqs[g] + UInt16.ofNat i * 5).toNat = spec.peqs[g].toNat + 5*i := by
    rw [UInt16.toNat_add,offset_toNat hi,Nat.mod_eq_of_lt hfit]
  have hrange : ¬(Crossover.numGroups spec ≤ g ∨ Crossover.numFilterPerGroup ≤ i) :=
    not_or.mpr ⟨Nat.not_le.mpr hg,Nat.not_le.mpr hi⟩
  rw [Crossover.setCoefficients,if_neg hrange,start_eq hg,pure_bind,lift_ok_bind hadd,
    slot_eq hg haddr]

theorem setCoefficients_overflow (hg : g < Crossover.numGroups spec) (hi : i < 4)
    (hover : 65536 ≤ spec.peqs[g].toNat + 5*i) (coefficients : List F32Bits) :
    Crossover.setCoefficients dsp floats spec g i coefficients =
      .lift (.error (.panic (.explicit "attempt to add with overflow"))) := by
  have hadd : (addU16 spec.peqs[g] (UInt16.ofNat i * 5) : Exec MiniDSPError _) =
      .error (.panic (.explicit "attempt to add with overflow")) :=
    if_neg (by rw [offset_toNat hi]; omega)
  have hrange : ¬(Crossover.numGroups spec ≤ g ∨ Crossover.numFilterPerGroup ≤ i) :=
    not_or.mpr ⟨Nat.not_le.mpr hg,Nat.not_le.mpr hi⟩
  rw [Crossover.setCoefficients,if_neg hrange,start_eq hg,pure_bind,hadd]
  rfl

theorem setCoefficients_outOfRange (h : ¬(g < Crossover.numGroups spec ∧ i < 4))
    (coefficients : List F32Bits) :
    Crossover.setCoefficients dsp floats spec g i coefficients = .fail .outOfRange := by
  have hrange : Crossover.numGroups spec ≤ g ∨ Crossover.numFilterPerGroup ≤ i := by
    rwa [not_and_or,Nat.not_lt,Nat.not_lt] at h
  rw [Crossover.setCoefficients,if_pos hrange]

theorem clear_eq (hg : g < Crossover.numGroups spec)
    (hroom : spec.peqs[g].toNat + 5*4 < 65536) : Crossover.clear dsp floats spec g =
      forM (List.range 4) fun i => dsp.clearBiquad floats (slot dsp spec g i) := by
  have hadd : (addU16 spec.peqs[g] (5*4) : Exec MiniDSPError _) = .ok (spec.peqs[g] + 5*4) :=
    if_pos hroom
  have haddr : (Crossover.filters spec.peqs[g]).map dsp.addr =
      (List.range 4).map (slot dsp spec g) := by
    rw [Crossover.filters,List.map_map]
    refine List.map_congr_left fun i hi => slot_eq hg ?_
    have hi' : i < 4 := List.mem_range.mp hi
    rw [UInt16.toNat_add,UInt16.mul_comm,offset_toNat hi',Nat.mod_eq_of_lt (by omega)]
  have hforM := congrArg (fun addrs => addrs.forM (dsp.clearBiquad floats)) haddr
  simp only [List.forM_eq_forM,List.forM_map] at hforM
  rw [Crossover.clear,start_eq hg,pure_bind,lift_ok_bind hadd,hforM]

theorem clear_overflow (hg : g < Crossover.numGroups spec)
    (hover : 65536 ≤ spec.peqs[g].toNat + 5*4) : Crossover.clear dsp floats spec g =
      .lift (.error (.panic (.explicit "attempt to add with overflow"))) := by
  have hadd : (addU16 spec.peqs[g] (5*4) : Exec MiniDSPError _) =
      .error (.panic (.explicit "attempt to add with overflow")) :=
    if_neg (Nat.not_lt.mpr hover)
  rw [Crossover.clear,start_eq hg,pure_bind,hadd]
  rfl

/-- The group is not looked at before its start is read. -/
theorem clear_missing (hg : ¬g < Crossover.numGroups spec) : Crossover.clear dsp floats spec g =
    .lift (.error (.panic (.index g spec.peqs.length))) := by
  rw [Crossover.clear,start_missing hg]
  rfl

theorem setBypass_eq (hg : g < Crossover.numGroups spec) (bypass : Bool) :
    Crossover.setBypass dsp spec g bypass =
      MiniDSP.setBiquadBypass (slot dsp spec g 0) bypass := by
  rw [Crossover.setBypass,if_neg (Nat.not_le.mpr hg),start_eq hg,pure_bind,
    slot_eq (i := 0) hg rfl]

theorem setBypass_outOfRange (hg : ¬g < Crossover.numGroups spec) (bypass : Bool) :
    Crossover.setBypass dsp spec g bypass = .fail .outOfRange := by
  rw [Crossover.setBypass,if_pos (Nat.not_lt.mp hg)]

theorem slot_toNat (hspec : Placed spec) (hg : g < Crossover.numGroups spec) (hi : i < 4) :
    (UInt16.ofNat ((spec.peqs.getD g 0).toNat + 5*i)).toNat = (spec.peqs[g]).toNat + 5*i := by
  have hfits := hspec.fits _ (List.getElem_mem hg)
  rw [peqs_getD hg,UInt16.toNat_ofNat',Nat.mod_eq_of_lt (by omega)]

theorem slot_injective (hspec : Placed spec) (hg : g < Crossover.numGroups spec) (hi : i < 4)
    (hg' : g' < Crossover.numGroups spec) (hi' : i' < 4)
    (h : slot dsp spec g i = slot dsp spec g' i') : g = g' ∧ i = i' := by
  have haddr := congrArg UInt16.toNat (addr_injective h)
  rw [slot_toNat hspec hg hi,slot_toNat hspec hg' hi'] at haddr
  have hdisjoint := List.pairwise_iff_getElem.mp hspec.disjoint
  have hgg : g = g' := by
    rcases Nat.lt_trichotomy g g' with hlt | heq | hlt
    · have := hdisjoint g g' hg hg' hlt
      omega
    · exact heq
    · have := hdisjoint g' g hg' hg hlt
      omega
  subst hgg
  exact ⟨rfl,by omega⟩

def Agree (dsp : MiniDSP) (spec : Device.Crossover) (s : Store) (m : Grid (Vector Value 5)) :
    Prop := ∀ g i, g < Crossover.numGroups spec → i < 4 → s.biquads (slot dsp spec g i) = m g i

def Store.write (s : Store) (addr : Addr) (data : Vector Value 5) : Store :=
  { s with biquads := Function.update s.biquads addr data }

theorem Agree.write (hspec : Placed spec) (h : Agree dsp spec s m)
    (hg : g < Crossover.numGroups spec) (hi : i < 4) (data : Vector Value 5) :
    Agree dsp spec (s.write (slot dsp spec g i) data) (put m g i data) := by
  intro g' i' hg' hi'
  change Function.update s.biquads _ data _ = _
  rw [Function.update_apply,put]
  by_cases hsame : g' = g ∧ i' = i
  · rw [if_pos hsame,hsame.1,hsame.2,if_pos rfl]
  · rw [if_neg hsame,if_neg fun hslot => hsame (slot_injective hspec hg' hi' hg hi hslot)]
    exact h g' i' hg' hi'

theorem Agree.congr {m' : Grid (Vector Value 5)} (h : Agree dsp spec s m)
    (hm : ∀ g i, i < 4 → m g i = m' g i) : Agree dsp spec s m' :=
  fun g i hg hi => (h g i hg hi).trans (hm g i hi)

theorem setCoefficients_run (hspec : Placed spec)
    (h : run Store.answer (Crossover.setCoefficients dsp floats spec g i b.toArray) s = (.ok x,t)) :
    g < Crossover.numGroups spec ∧ i < 4 ∧
      t = s.write (slot dsp spec g i) (words dsp floats b) := by
  by_cases hslot : g < Crossover.numGroups spec ∧ i < 4
  · have hfits := hspec.fits _ (List.getElem_mem hslot.1)
    rw [setCoefficients_eq hslot.1 hslot.2 (by omega)] at h
    exact ⟨hslot.1,hslot.2,(Prod.mk.inj h).2.symm⟩
  · rw [setCoefficients_outOfRange hslot] at h
    cases h

theorem clear_run (hspec : Placed spec)
    (h : run Store.answer (Crossover.clear dsp floats spec g) s = (.ok x,t)) :
    g < Crossover.numGroups spec ∧ t.bypassed = s.bypassed ∧
      ∀ m, Agree dsp spec s m → Agree dsp spec t (wipe (words dsp floats .default) m g) := by
  by_cases hg : g < Crossover.numGroups spec
  · by_cases hroom : spec.peqs[g].toNat + 5*4 < 65536
    · rw [clear_eq hg hroom] at h
      obtain rfl := (Prod.mk.inj h).2
      refine ⟨hg,rfl,fun m hm => ?_⟩
      have hwrites := (((hm.write hspec hg (show 0 < 4 by omega) (words dsp floats .default)).write
        hspec hg (show 1 < 4 by omega) (words dsp floats .default)).write
        hspec hg (show 2 < 4 by omega) (words dsp floats .default)).write
        hspec hg (show 3 < 4 by omega) (words dsp floats .default)
      refine Agree.congr hwrites fun g' i' hi' => ?_
      simp only [put,wipe]
      split_ifs <;> first | rfl | omega
    · rw [clear_overflow hg (Nat.not_lt.mp hroom)] at h
      cases h
  · rw [clear_missing hg] at h
    cases h

theorem setBypass_run {bypass : Bool}
    (h : run Store.answer (Crossover.setBypass dsp spec g bypass) s = (.ok x,t)) :
    g < Crossover.numGroups spec ∧ t.biquads = s.biquads ∧
      t.bypassed = Function.update s.bypassed (slot dsp spec g 0) bypass := by
  by_cases hg : g < Crossover.numGroups spec
  · rw [setBypass_eq hg] at h
    obtain rfl := (Prod.mk.inj h).2
    exact ⟨hg,rfl,rfl⟩
  · rw [setBypass_outOfRange hg] at h
    cases h

end

/-- The slots that are visited are there: those that take a biquad, and otherwise the group. -/
def Within (spec : Device.Crossover) (slots : List (ℕ × ℕ)) (n : ℕ) : Prop :=
  ∀ k g i : ℕ, slots[k]? = some (g,i) → g < Crossover.numGroups spec ∧ (k < n → i < 4)

/-- What a part of the loops has done that visits some slots. -/
structure Visited (dsp : MiniDSP) (floats : Floats) (spec : Device.Crossover)
    (fromStr : Line → Option F32Bits) (slots : List (ℕ × ℕ)) (biquads : List Biquad)
    (lines : List Line) (s t : Store) : Prop where
  agree : ∀ m, Agree dsp spec s m →
    Agree dsp spec t (visits (words dsp floats .default) (words dsp floats) slots biquads m)
  hold : Lines.Hold fromStr lines (biquads.drop slots.length)
  within : Within spec slots biquads.length
  bypassed : ∀ addr, s.bypassed addr = false → t.bypassed addr = false

section
variable {dsp : MiniDSP} {floats : Floats} {spec : Device.Crossover}
variable {fromStr : Line → Option F32Bits} {slots slots' : List (ℕ × ℕ)}
variable {biquads : List Biquad} {lines lines' : List Line} {s t u : Store} {g i : ℕ}

theorem Within.append {n : ℕ} (h : Within spec slots n)
    (h' : Within spec slots' (n - slots.length)) : Within spec (slots ++ slots') n := by
  intro k g i hk
  by_cases hlt : k < slots.length
  · rw [List.getElem?_append_left hlt] at hk
    exact h k g i hk
  · rw [List.getElem?_append_right (Nat.not_lt.mp hlt)] at hk
    obtain ⟨hg,hi⟩ := h' _ g i hk
    exact ⟨hg,fun hn => hi (by omega)⟩

theorem within_singleton {n : ℕ} (hg : g < Crossover.numGroups spec) (hi : 0 < n → i < 4) :
    Within spec [(g,i)] n := by
  intro k g' i' hk
  cases k with
  | zero =>
    obtain ⟨rfl,rfl⟩ := Prod.mk.inj (Option.some.inj hk)
    exact ⟨hg,hi⟩
  | succ k => cases hk

namespace Visited

theorem nil (h : Lines.Hold fromStr lines biquads) :
    Visited dsp floats spec fromStr [] biquads lines s s where
  agree _ hm := hm
  hold := h
  within _ _ _ hk := nomatch hk
  bypassed _ h := h

theorem append (h : Visited dsp floats spec fromStr slots biquads lines s t)
    (h' : Visited dsp floats spec fromStr slots' (biquads.drop slots.length) lines' t u) :
    Visited dsp floats spec fromStr (slots ++ slots') biquads lines' s u where
  agree m hm := by
    rw [visits_append]
    exact h'.agree _ (h.agree m hm)
  hold := by
    rw [List.length_append,← List.drop_drop]
    exact h'.hold
  within := h.within.append (by rw [← List.length_drop]; exact h'.within)
  bypassed addr hs := h'.bypassed addr (h.bypassed addr hs)

end Visited

theorem importSlot_run (hspec : Placed spec) (hlines : Lines.Hold fromStr lines biquads)
    (h : run Store.answer (importSlot dsp floats spec fromStr g lines i) s = (.ok lines',t)) :
    Visited dsp floats spec fromStr [(g,i)] biquads lines' s t := by
  cases biquads with
  | nil =>
    obtain ⟨rest,hread,hrest⟩ := Lines.fromRewLines_nil hlines
    simp only [importSlot,hread] at h
    obtain ⟨_,t',hclear,hret⟩ := run_bind_eq_ok.mp h
    obtain ⟨hok,rfl⟩ := Prod.mk.inj hret
    obtain rfl := Outcome.ok.inj hok
    obtain ⟨hg,hbypassed,hagree⟩ := clear_run hspec hclear
    exact ⟨hagree,hrest,within_singleton hg fun hn => absurd hn (Nat.lt_irrefl 0),
      fun _ hs => by rw [hbypassed,hs]⟩
  | cons b biquads =>
    obtain ⟨rest,hread,hrest⟩ := Lines.fromRewLines_cons hlines
    simp only [importSlot,hread] at h
    obtain ⟨_,t',hset,hret⟩ := run_bind_eq_ok.mp h
    obtain ⟨hok,rfl⟩ := Prod.mk.inj hret
    obtain rfl := Outcome.ok.inj hok
    obtain ⟨hg,hi,rfl⟩ := setCoefficients_run hspec hset
    exact ⟨fun m hm => hm.write hspec hg hi _,hrest,within_singleton hg fun _ => hi,
      fun _ h => h⟩

theorem importSlots_run (hspec : Placed spec) {indices : List ℕ}
    (hlines : Lines.Hold fromStr lines biquads)
    (h : run Store.answer (indices.foldlM (importSlot dsp floats spec fromStr g) lines) s =
      (.ok lines',t)) :
    Visited dsp floats spec fromStr (indices.map fun i => (g,i)) biquads lines' s t := by
  induction indices generalizing biquads lines s with
  | nil =>
    obtain ⟨hok,rfl⟩ := Prod.mk.inj h
    obtain rfl := Outcome.ok.inj hok
    exact .nil hlines
  | cons i indices ih =>
    rw [List.foldlM_cons] at h
    obtain ⟨rest,u,hslot,hrest⟩ := run_bind_eq_ok.mp h
    have hvisited := importSlot_run hspec hlines hslot
    exact hvisited.append (ih hvisited.hold hrest)

theorem importGroup_run (hspec : Placed spec) {index : PEQTarget}
    (hlines : Lines.Hold fromStr lines biquads)
    (h : run Store.answer (importGroup dsp floats spec fromStr index lines g) s = (.ok lines',t)) :
    Visited dsp floats spec fromStr
      ((index.range Crossover.numFilterPerGroup).map fun i => (g,i)) biquads lines' s t ∧
      t.bypassed (slot dsp spec g 0) = false := by
  obtain ⟨indices,u,hindices,h⟩ := run_bind_eq_ok.mp h
  obtain ⟨rest,v,hslots,h⟩ := run_bind_eq_ok.mp h
  obtain ⟨_,w,hbypass,h⟩ := run_bind_eq_ok.mp h
  obtain ⟨hok,rfl⟩ := Prod.mk.inj h
  obtain rfl := Outcome.ok.inj hok
  obtain ⟨-,hbiquads,hbypassed⟩ := setBypass_run hbypass
  obtain ⟨hrange,rfl⟩ := run_lift_eq_ok hindices
  obtain rfl := PEQTarget.intoRange_eq hrange
  have hvisited := importSlots_run hspec hlines hslots
  refine ⟨⟨fun m hm g i hg hi => ?_,hvisited.hold,hvisited.within,fun addr hs => ?_⟩,?_⟩
  · rw [hbiquads]
    exact hvisited.agree m hm g i hg hi
  · rw [hbypassed,Function.update_apply,hvisited.bypassed addr hs,ite_self]
  · rw [hbypassed,Function.update_self]

theorem importGroups_run (hspec : Placed spec) {index : PEQTarget} {groups : List ℕ}
    (hlines : Lines.Hold fromStr lines biquads)
    (h : run Store.answer (groups.foldlM (importGroup dsp floats spec fromStr index) lines) s =
      (.ok lines',t)) :
    Visited dsp floats spec fromStr
      (groups.flatMap fun g => (index.range Crossover.numFilterPerGroup).map fun i => (g,i))
      biquads lines' s t ∧ ∀ g ∈ groups, t.bypassed (slot dsp spec g 0) = false := by
  induction groups generalizing biquads lines s with
  | nil =>
    obtain ⟨hok,rfl⟩ := Prod.mk.inj h
    obtain rfl := Outcome.ok.inj hok
    exact ⟨.nil hlines,nofun⟩
  | cons g groups ih =>
    rw [List.foldlM_cons] at h
    obtain ⟨rest,u,hgroup,hrest⟩ := run_bind_eq_ok.mp h
    obtain ⟨hvisited,hbypassed⟩ := importGroup_run hspec hlines hgroup
    obtain ⟨hvisited',hbypassed'⟩ := ih hvisited.hold hrest
    refine ⟨hvisited.append hvisited',fun g' hg' => ?_⟩
    rcases List.mem_cons.mp hg' with rfl | hg'
    · exact hvisited'.bypassed _ hbypassed
    · exact hbypassed' g' hg'

theorem import_run (hspec : Placed spec) {file : List Char} {group index : PEQTarget} {x : Unit}
    (hfile : Lines.Hold fromStr (Line.ofText file) biquads)
    (h : run Store.answer (runXover dsp floats spec fromStr (.importFrom file) group index) s =
      (.ok x,t)) :
    (∃ lines, Visited dsp floats spec fromStr (selected group index) biquads lines s t) ∧
      ∀ g ∈ group.range 2, t.bypassed (slot dsp spec g 0) = false := by
  obtain ⟨groups,u,hgroups,h⟩ := run_bind_eq_ok.mp h
  obtain ⟨lines,v,hloop,h⟩ := run_bind_eq_ok.mp h
  obtain ⟨-,rfl⟩ := Prod.mk.inj h
  obtain ⟨hrange,rfl⟩ := run_lift_eq_ok hgroups
  obtain rfl := PEQTarget.intoRange_eq hrange
  obtain ⟨hvisited,hbypassed⟩ := importGroups_run hspec hfile hloop
  exact ⟨⟨lines,hvisited⟩,hbypassed⟩

theorem selected_nodup (group index : PEQTarget) : (selected group index).Nodup :=
  (group.range_nodup 2).product (index.range_nodup Crossover.numFilterPerGroup)

theorem selected_group {group index : PEQTarget} (h : (g,i) ∈ selected group index) :
    g ∈ group.range 2 := (List.pair_mem_product.mp h).1

/-- A successful import does what it is to do exactly if no group in which the biquads run out
has anything to lose: clearing a slot clears its whole group. -/
theorem import_iff (hspec : Placed spec) {file : List Char} {group index : PEQTarget}
    (hfile : Lines.Hold fromStr (Line.ofText file) biquads)
    (h : run Store.answer (runXover dsp floats spec fromStr (.importFrom file) group index) s =
      (.ok (),t)) :
    Imported dsp floats spec (selected group index) biquads s t ↔
      NothingToLose dsp floats spec (selected group index) biquads s := by
  obtain ⟨⟨lines,hvisited⟩,hbypassed⟩ := import_run hspec hfile h
  have hagree := hvisited.agree (fun g i => s.biquads (slot dsp spec g i)) fun _ _ _ _ => rfl
  have hwithin := hvisited.within
  have hnodup := selected_nodup group index
  constructor
  · intro himported g hout
    obtain ⟨k₀,i₀,hk₀,-⟩ := id hout
    have hg := (hwithin k₀ g i₀ hk₀).1
    have hwiped : ∀ i, i < 4 → t.biquads (slot dsp spec g i) = words dsp floats .default := by
      intro i hi
      rw [hagree g i hg hi,visits_runsOut _ _ hout]
    constructor
    · intro k i b hk hb
      have hlt : k < biquads.length := (List.getElem?_eq_some_iff.mp hb).1
      rw [← himported.filled k g i b hk hb,hwiped i ((hwithin k g i hk).2 hlt)]
    · intro i hi hnot
      rw [← himported.kept g i hg hi hnot,hwiped i hi]
  · intro hnothing
    refine ⟨?_,?_,?_,fun g i hmem => hbypassed g (selected_group hmem)⟩
    · intro k g i b hk hb
      have hlt : k < biquads.length := (List.getElem?_eq_some_iff.mp hb).1
      rw [hagree g i (hwithin k g i hk).1 ((hwithin k g i hk).2 hlt)]
      by_cases hout : RunsOut (selected group index) biquads.length g
      · rw [visits_runsOut _ _ hout,(hnothing g hout).1 k i b hk hb]
      · exact visits_filled _ _ hnodup hout hk hb
    · intro k g i hk hle hi
      rw [hagree g i (hwithin k g i hk).1 hi,visits_runsOut _ _ ⟨k,i,hk,hle⟩]
    · intro g i hg hi hnot
      rw [hagree g i hg hi]
      by_cases hout : RunsOut (selected group index) biquads.length g
      · rw [visits_runsOut _ _ hout,(hnothing g hout).2 i hi hnot]
      · exact visits_kept _ _ hout hnot

end

/-! A file of one filter, for a crossover of two groups. -/

def oneFilter : List Char := "biquad1,\n\nb0=2,\nb1=0,\nb2=0,\na1=0,\na2=0,\n".toList

def twoOrZero (line : Line) : Option F32Bits :=
  if line = ['2'] then some 0x40000000 else if line = ['0'] then some 0 else none

def filter2 : Biquad := ⟨some 1,0x40000000,0,0,0,0⟩

def plainDsp : MiniDSP := ⟨.generic,⟨10,1,13,100,900000⟩⟩

def noFloats : Floats := ⟨fun _ => 0,fun _ => 0,id⟩

def twoGroups : Device.Crossover := ⟨[0x100,0x120]⟩

def cleared : Store := ⟨fun _ => words plainDsp noFloats .default,fun _ => true⟩

theorem twoGroups_placed : Placed twoGroups := ⟨by simp [twoGroups],by simp [twoGroups]⟩

theorem oneFilter_hold : Lines.Hold twoOrZero (Line.ofText oneFilter) [filter2] :=
  ⟨[_],.cons (.mk rfl rfl rfl rfl rfl rfl) .nil,rfl⟩

def fourFilters : List Char := (List.replicate 4 oneFilter).flatten

theorem fourFilters_hold :
    Lines.Hold twoOrZero (Line.ofText fourFilters) (List.replicate 4 filter2) :=
  ⟨[_,_,_,_],.cons (.mk rfl rfl rfl rfl rfl rfl) (.cons (.mk rfl rfl rfl rfl rfl rfl)
    (.cons (.mk rfl rfl rfl rfl rfl rfl) (.cons (.mk rfl rfl rfl rfl rfl rfl) .nil))),rfl⟩

def silent : Store := ⟨fun _ => words plainDsp noFloats ⟨none,0,0,0,0,0⟩,fun _ => true⟩

theorem selected_all {k g i : ℕ} (h : (selected .all .all)[k]? = some (g,i)) :
    k = 4*g+i ∧ g < 2 ∧ i < 4 := by
  obtain ⟨hk,-⟩ := List.getElem?_eq_some_iff.mp h
  have hk' : k < 8 := hk
  interval_cases k <;> cases h <;> decide

/-- Four filters fill the first group, and run out with the first slot of the second. -/
theorem import_iff_two_groups : ∃ t, Imported plainDsp noFloats twoGroups (selected .all .all)
    (List.replicate 4 filter2) silent t ∧
      (∀ i, i < 4 → t.biquads (slot plainDsp twoGroups 0 i) = words plainDsp noFloats filter2) ∧
      ∀ i, i < 4 → t.biquads (slot plainDsp twoGroups 1 i) = words plainDsp noFloats .default := by
  have hrun : (run Store.answer (runXover plainDsp noFloats twoGroups twoOrZero
      (.importFrom fourFilters) .all .all) silent).1 = .ok () := rfl
  have hnothing : NothingToLose plainDsp noFloats twoGroups (selected .all .all)
      (List.replicate 4 filter2) silent := by
    rintro g ⟨k,i,hk,hle⟩
    obtain ⟨rfl,hg,hi⟩ := selected_all hk
    rw [List.length_replicate] at hle
    obtain rfl : g = 1 := by omega
    refine ⟨fun k j b hk hb => ?_,fun j hj hnot => absurd ?_ hnot⟩
    · obtain ⟨rfl,-,-⟩ := selected_all hk
      obtain ⟨hlt,-⟩ := List.getElem?_eq_some_iff.mp hb
      rw [List.length_replicate] at hlt
      omega
    · interval_cases j <;> decide
  have himported :=
    (import_iff twoGroups_placed fourFilters_hold (Prod.ext hrun rfl)).mpr hnothing
  refine ⟨_,himported,fun i hi => ?_,fun i hi => ?_⟩
  · have hk : (selected .all .all)[i]? = some (0,i) := by interval_cases i <;> rfl
    have hb : (List.replicate 4 filter2)[i]? = some filter2 := by interval_cases i <;> rfl
    exact himported.filled i 0 i filter2 hk hb
  · have hk : (selected .all .all)[4+i]? = some (1,i) := by interval_cases i <;> rfl
    exact himported.cleared (4+i) 1 i hk (Nat.le_add_right 4 i) hi

/-- All slots of a group are selected for it: it is applied to the first of them, and wiped when
the second is cleared. -/
theorem second_slot_wipes_first : ¬∀ (dsp : MiniDSP) (floats : Floats) (spec : Device.Crossover)
    (fromStr : Line → Option F32Bits) (file : List Char) (biquads : List Biquad)
    (group index : PEQTarget) (s t : Store), Placed spec →
    Lines.Hold fromStr (Line.ofText file) biquads →
    run Store.answer (runXover dsp floats spec fromStr (.importFrom file) group index) s =
      (.ok (),t) → Imported dsp floats spec (selected group index) biquads s t := by
  intro h
  have hrun : (run Store.answer (runXover plainDsp noFloats twoGroups twoOrZero
      (.importFrom oneFilter) (.one 0) .all) cleared).1 = .ok () := rfl
  have himported := h plainDsp noFloats twoGroups twoOrZero oneFilter [filter2] (.one 0) .all
    cleared _ twoGroups_placed oneFilter_hold (Prod.ext hrun rfl)
  have hfirst := himported.filled 0 0 0 filter2 rfl rfl
  exact absurd hfirst (by decide)

end Xover
end Minidsp
