import Minidsp.Overlay
import Minidsp.XoverGroups

/-! The crossovers of a configuration: that every biquad has an index is checked before the first
of them is written, and that the index is one of a slot with the write itself. -/
namespace Minidsp

open Buffer Dialogue Xover

namespace Model

structure Crossover where
  index : Option ℕ
  coeff : List Biquad
  bypass : Option Bool
  deriving DecidableEq, Repr

namespace Crossover

section
variable (config : Crossover) (dsp : MiniDSP) (floats : Floats) (spec : Device.Crossover)

def checkIndex (c : Biquad) : Call Unit :=
  if c.index.isNone then .fail (.internalError "biquad index not specified") else pure ()

def applyBiquad (group : ℕ) (c : Biquad) : Call Unit := do
  let index ← Client.unwrap c.index
  Minidsp.Crossover.setCoefficients dsp floats spec group index.toNat c.toArray

def applyBypass (group : ℕ) : Call Unit :=
  match config.bypass with
  | some bypass => Minidsp.Crossover.setBypass dsp spec group bypass
  | none => pure ()

def apply : Call Unit := do
  let group ← okOr config.index (.internalError "Invalid crossover group index")
  forM config.coeff checkIndex
  forM config.coeff (applyBiquad dsp floats spec group)
  config.applyBypass dsp spec group

/-- All indices are there, and are those of a group and of its slots. -/
def Valid : Prop := ∃ group, config.index = some group ∧
  group < Minidsp.Crossover.numGroups spec ∧ ∀ c ∈ config.coeff, ∃ i, c.index = some i ∧ i.toNat < 4

/-- The biquads are in their slots, of several with one index the last, and nothing else has
changed. -/
structure Applied (s t : Store) (group : ℕ) : Prop where
  last : ∀ (i : UInt16) b, (config.coeff.filter fun c => c.index = some i).getLast? = some b →
    t.biquads (slot dsp spec group i.toNat) = words dsp floats b
  kept : ∀ addr, (∀ c ∈ config.coeff, ∀ i, c.index = some i → addr ≠ slot dsp spec group i.toNat) →
    t.biquads addr = s.biquads addr
  bypassed : t.bypassed = config.bypass.elim s.bypassed
    (Function.update s.bypassed (slot dsp spec group 0))

/-- Nothing is written for a configuration that is not valid, and one that is valid is applied. -/
structure ValidatedFirst : Prop where
  refused : ¬config.Valid spec → ∀ s, asked Store.answer (config.apply dsp floats spec) s = []
  applied : config.Valid spec → ∀ group, config.index = some group → ∀ s, ∃ t,
    run Store.answer (config.apply dsp floats spec) s = (.ok (),t) ∧
      config.Applied dsp floats spec s t group

/-- The address of the slot does not wrap. -/
def Fits (group : ℕ) (i : UInt16) : Prop := (spec.peqs.getD group 0).toNat + 5*i.toNat < 65536

instance (group : ℕ) (i : UInt16) : Decidable (Fits spec group i) :=
  inferInstanceAs (Decidable (_ < _))

def Writable (group : ℕ) (c : Biquad) : Prop :=
  ∃ i, c.index = some i ∧ i.toNat < 4 ∧ Fits spec group i

end

section
variable {config : Crossover} {dsp : MiniDSP} {floats : Floats} {spec : Device.Crossover}
variable {group : ℕ} {c : Biquad} {coeff : List Biquad} {s : Store}

/-! The check of the whole list. -/

theorem checkIndex_all (h : ∀ c ∈ coeff, c.index ≠ none) : forM coeff checkIndex = pure () := by
  induction coeff with
  | nil => rfl
  | cons c coeff ih =>
    have hc : ¬c.index.isNone = true := by simpa using h c (by simp)
    rw [List.forM_cons,checkIndex,if_neg hc,pure_bind,ih fun d hd => h d (by simp [hd])]

theorem checkIndex_missing (h : ∃ c ∈ coeff, c.index = none) :
    forM coeff checkIndex = .fail (.internalError "biquad index not specified") := by
  induction coeff with
  | nil => simp at h
  | cons c coeff ih =>
    rw [List.forM_cons,checkIndex]
    by_cases hc : c.index.isNone
    · rw [if_pos hc]
      rfl
    · rw [if_neg hc,pure_bind]
      refine ih ?_
      obtain ⟨d,hd,hnone⟩ := h
      rcases List.mem_cons.mp hd with rfl | hd
      · exact absurd (by simp [hnone]) hc
      · exact ⟨d,hd,hnone⟩

/-! The writes. -/

theorem applyBiquad_eq (hg : group < Minidsp.Crossover.numGroups spec) {i : UInt16}
    (hc : c.index = some i) (hi : i.toNat < 4) (hfit : Fits spec group i) :
    applyBiquad dsp floats spec group c =
      acknowledged (.writeBiquad (slot dsp spec group i.toNat) (words dsp floats c)) := by
  rw [Fits,peqs_getD hg] at hfit
  rw [applyBiquad,hc]
  exact Xover.setCoefficients_eq hg hi hfit c.toArray

/-- A call that sends nothing and does not succeed. -/
def Stuck (p : Call Unit) : Prop := ∃ x, p = .done x ∧ x ≠ .ok ()

theorem stuck_fail (e : MiniDSPError) : Stuck (.fail e) := ⟨_,rfl,nofun⟩

theorem stuck_panic (p : Panic) : Stuck (.lift (.error (.panic p))) := ⟨_,rfl,nofun⟩

theorem Stuck.bind {p : Call Unit} (h : Stuck p) (f : Unit → Call Unit) : Stuck (p >>= f) := by
  obtain ⟨x,rfl,hx⟩ := h
  cases x with
  | ok u => exact absurd rfl hx
  | error e => exact ⟨_,rfl,nofun⟩
  | panic p => exact ⟨_,rfl,nofun⟩
  | unfinished => exact ⟨_,rfl,nofun⟩

theorem Stuck.asked {p : Call Unit} (h : Stuck p) (s : Store) : asked Store.answer p s = [] := by
  obtain ⟨x,rfl,-⟩ := h
  rfl

theorem Stuck.run_ne {p : Call Unit} (h : Stuck p) (s : Store) :
    (run Store.answer p s).1 ≠ .ok () := by
  obtain ⟨x,rfl,hx⟩ := h
  exact hx

theorem applyBiquad_stuck
    (h : ¬(group < Minidsp.Crossover.numGroups spec ∧ Writable spec group c)) :
    Stuck (applyBiquad dsp floats spec group c) := by
  cases hc : c.index with
  | none =>
    rw [applyBiquad,hc]
    exact stuck_panic _
  | some i =>
    have hwrite : applyBiquad dsp floats spec group c =
        Minidsp.Crossover.setCoefficients dsp floats spec group i.toNat c.toArray := by
      rw [applyBiquad,hc]
      rfl
    rw [hwrite]
    by_cases hslot : group < Minidsp.Crossover.numGroups spec ∧ i.toNat < 4
    · obtain ⟨hg,hi⟩ := hslot
      have hfit : ¬Fits spec group i := fun hfit => h ⟨hg,i,hc,hi,hfit⟩
      rw [Fits,peqs_getD hg,Nat.not_lt] at hfit
      rw [setCoefficients_overflow hg hi hfit]
      exact stuck_panic _
    · rw [setCoefficients_outOfRange hslot]
      exact stuck_fail _

def written (dsp : MiniDSP) (floats : Floats) (spec : Device.Crossover) (group : ℕ)
    (coeff : List Biquad) (biquads : Addr → Vector Value 5) : Addr → Vector Value 5 :=
  coeff.foldl (fun m c => Function.update m (slot dsp spec group (c.index.getD 0).toNat)
    (words dsp floats c)) biquads

theorem applyBiquads_run (hg : group < Minidsp.Crossover.numGroups spec)
    (h : ∀ c ∈ coeff, Writable spec group c) (s : Store) :
    run Store.answer (forM coeff (applyBiquad dsp floats spec group)) s =
      (.ok (),{ s with biquads := written dsp floats spec group coeff s.biquads }) := by
  induction coeff generalizing s with
  | nil => rfl
  | cons c coeff ih =>
    obtain ⟨i,hc,hi,hfit⟩ := h c (by simp)
    have hwrite : run Store.answer (applyBiquad dsp floats spec group c) s =
        (.ok (),s.write (slot dsp spec group i.toNat) (words dsp floats c)) := by
      rw [applyBiquad_eq hg hc hi hfit]
      rfl
    rw [List.forM_cons,run_bind_ok hwrite,ih fun d hd => h d (by simp [hd]),written,written,
      List.foldl_cons,hc]
    rfl

theorem writable_of_run {t : Store}
    (h : run Store.answer (forM coeff (applyBiquad dsp floats spec group)) s = (.ok (),t)) :
    ∀ c ∈ coeff, Writable spec group c := by
  induction coeff generalizing s with
  | nil => simp
  | cons c coeff ih =>
    rw [List.forM_cons] at h
    obtain ⟨_,u,hwrite,hrest⟩ := run_bind_eq_ok.mp h
    refine List.forall_mem_cons.mpr ⟨?_,ih hrest⟩
    by_contra hc
    exact (applyBiquad_stuck fun hslot => hc hslot.2).run_ne s (congrArg Prod.fst hwrite)

/-- The loop that writes begins once every index is there. -/
theorem apply_eq (hgroup : config.index = some group) (h : ∀ c ∈ config.coeff, c.index ≠ none) :
    config.apply dsp floats spec =
      forM config.coeff (applyBiquad dsp floats spec group) >>= fun _ =>
        config.applyBypass dsp spec group := by
  have hok : okOr config.index (.internalError "Invalid crossover group index") = pure group := by
    rw [hgroup]
    rfl
  rw [apply,hok,pure_bind,checkIndex_all h,pure_bind]

theorem apply_missing (h : config.index = none ∨ ∃ c ∈ config.coeff, c.index = none) :
    Stuck (config.apply dsp floats spec) := by
  cases hgroup : config.index with
  | none =>
    rw [apply,hgroup]
    exact stuck_fail _
  | some group =>
    obtain hnone | hmissing := h
    · rw [hgroup] at hnone
      cases hnone
    · have hok : okOr config.index (.internalError "Invalid crossover group index") =
          pure group := by
        rw [hgroup]
        rfl
      rw [apply,hok,pure_bind,checkIndex_missing hmissing]
      exact stuck_fail _

theorem applyBypass_outOfRange (hg : ¬group < Minidsp.Crossover.numGroups spec) (s : Store) :
    asked Store.answer (config.applyBypass dsp spec group) s = [] := by
  unfold applyBypass
  cases config.bypass with
  | none => rfl
  | some bypass =>
    simp only [setBypass_outOfRange hg]
    rfl

theorem applyBypass_run (hg : group < Minidsp.Crossover.numGroups spec) (s : Store) :
    run Store.answer (config.applyBypass dsp spec group) s =
      (.ok (),⟨s.biquads,config.bypass.elim s.bypassed
        (Function.update s.bypassed (slot dsp spec group 0))⟩) := by
  unfold applyBypass
  cases config.bypass with
  | none => rfl
  | some bypass =>
    simp only [setBypass_eq hg]
    rfl

theorem index_of_slot {i j : UInt16} (hi : Fits spec group i) (hj : Fits spec group j)
    (h : slot dsp spec group i.toNat = slot dsp spec group j.toNat) : i = j := by
  have haddr := congrArg UInt16.toNat (addr_injective h)
  rw [UInt16.toNat_ofNat',UInt16.toNat_ofNat',Nat.mod_eq_of_lt hi,Nat.mod_eq_of_lt hj] at haddr
  exact UInt16.toNat_inj.mp (by omega)

def RefusedFirst (config : Crossover) (spec : Device.Crossover) : Prop :=
  ∀ group, config.index = some group → (∀ c ∈ config.coeff, c.index ≠ none) →
    ∀ c, config.coeff.head? = some c →
      ¬(group < Minidsp.Crossover.numGroups spec ∧ Writable spec group c)

theorem asked_apply (hinvalid : ¬config.Valid spec) (h : config.RefusedFirst spec) (s : Store) :
    asked Store.answer (config.apply dsp floats spec) s = [] := by
  by_cases hmissing : config.index = none ∨ ∃ c ∈ config.coeff, c.index = none
  · exact (apply_missing hmissing).asked s
  · simp only [not_or,not_exists,not_and] at hmissing
    obtain ⟨hindex,hall⟩ := hmissing
    obtain ⟨group,hgroup⟩ := Option.ne_none_iff_exists'.mp hindex
    rw [apply_eq hgroup hall]
    cases hcoeff : config.coeff with
    | nil =>
      refine applyBypass_outOfRange (fun hg => hinvalid ⟨group,hgroup,hg,?_⟩) s
      rw [hcoeff]
      simp
    | cons c coeff =>
      have hstuck : Stuck (applyBiquad dsp floats spec group c) :=
        applyBiquad_stuck (h group hgroup hall c (by rw [hcoeff]; rfl))
      rw [List.forM_cons]
      exact ((hstuck.bind _).bind _).asked s

theorem refusedFirst_of_asked (h : ∀ s, asked Store.answer (config.apply dsp floats spec) s = []) :
    config.RefusedFirst spec := by
  rintro group hgroup hall c hc ⟨hg,i,hi,hlt,hfit⟩
  obtain ⟨coeff,hcoeff⟩ := List.head?_eq_some_iff.mp hc
  have hasked := h cleared
  rw [apply_eq hgroup hall,hcoeff,List.forM_cons,applyBiquad_eq hg hi hlt hfit] at hasked
  cases hasked

theorem Valid.index_ne_none (h : config.Valid spec) : ∀ c ∈ config.coeff, c.index ≠ none := by
  obtain ⟨group,-,-,hall⟩ := h
  intro c hc hnone
  obtain ⟨i,hi,-⟩ := hall c hc
  rw [hnone] at hi
  cases hi

/-- Of several biquads with one index the last is written. -/
theorem written_last (h : ∀ c ∈ coeff, Writable spec group c) (m : Addr → Vector Value 5)
    {i : UInt16} {b : Biquad}
    (hb : (coeff.filter fun c => c.index = some i).getLast? = some b) :
    written dsp floats spec group coeff m (slot dsp spec group i.toNat) = words dsp floats b := by
  obtain ⟨hbcoeff,hbindex⟩ : b ∈ coeff ∧ b.index = some i := by
    simpa using List.mem_filter.mp (List.mem_of_getLast? hb)
  obtain ⟨i',hi',-,hfit'⟩ := h b hbcoeff
  obtain rfl := Option.some.inj (hbindex.symm.trans hi')
  have hkey : ∀ c ∈ coeff, (slot dsp spec group (c.index.getD 0).toNat =
      slot dsp spec group i.toNat ↔ c.index = some i) := by
    intro c hc
    obtain ⟨j,hj,-,hfit⟩ := h c hc
    rw [hj]
    exact ⟨fun hslot => congrArg some (index_of_slot hfit hfit' hslot),
      fun hindex => by rw [Option.some.inj hindex]; rfl⟩
  refine (Overlay.foldl_update _ _ _ _ _).trans ?_
  rw [List.filter_congr fun c hc => decide_eq_decide.mpr (hkey c hc),hb]
  rfl

theorem written_kept (h : ∀ c ∈ coeff, Writable spec group c) (m : Addr → Vector Value 5)
    {addr : Addr}
    (haddr : ∀ c ∈ coeff, ∀ i, c.index = some i → addr ≠ slot dsp spec group i.toNat) :
    written dsp floats spec group coeff m addr = m addr := by
  refine (Overlay.foldl_update _ _ _ _ _).trans ?_
  rw [List.filter_eq_nil_iff.mpr]
  · rfl
  · intro c hc
    obtain ⟨j,hj,-⟩ := h c hc
    rw [hj]
    simpa using Ne.symm (haddr c hc j hj)

theorem applied_of_writes (h : ∀ c ∈ config.coeff, Writable spec group c) (s : Store) :
    config.Applied dsp floats spec s ⟨written dsp floats spec group config.coeff s.biquads,
      config.bypass.elim s.bypassed (Function.update s.bypassed (slot dsp spec group 0))⟩
      group :=
  ⟨fun _ _ hb => written_last h _ hb,fun _ haddr => written_kept h _ haddr,rfl⟩

/-- A configuration is checked before it is written, and applied if it passes, exactly if its
slots are in the address space or it is refused without a look at a second biquad. -/
theorem validatedFirst_iff (config : Crossover) (dsp : MiniDSP) (floats : Floats)
    (spec : Device.Crossover) : config.ValidatedFirst dsp floats spec ↔
      (config.Valid spec → ∀ group, config.index = some group → ∀ c ∈ config.coeff,
        ∀ i, c.index = some i → Fits spec group i) ∧
      (¬config.Valid spec → config.RefusedFirst spec) := by
  constructor
  · intro h
    refine ⟨fun hvalid group hgroup c hc i hi => ?_,fun hinvalid => ?_⟩
    · obtain ⟨t,hrun,-⟩ := h.applied hvalid group hgroup cleared
      rw [apply_eq hgroup hvalid.index_ne_none] at hrun
      obtain ⟨_,u,hwrites,-⟩ := run_bind_eq_ok.mp hrun
      obtain ⟨j,hj,-,hfit⟩ := writable_of_run hwrites c hc
      rwa [Option.some.inj (hi.symm.trans hj)]
    · exact refusedFirst_of_asked (h.refused hinvalid)
  · rintro ⟨hfits,hrefused⟩
    refine ⟨fun hinvalid => asked_apply hinvalid (hrefused hinvalid),?_⟩
    intro hvalid group hgroup s
    obtain ⟨group',hgroup',hg,hall⟩ := id hvalid
    obtain rfl := Option.some.inj (hgroup.symm.trans hgroup')
    have hwritable : ∀ c ∈ config.coeff, Writable spec group c := by
      intro c hc
      obtain ⟨i,hi,hlt⟩ := hall c hc
      exact ⟨i,hi,hlt,hfits hvalid group hgroup c hc i hi⟩
    refine ⟨_,?_,applied_of_writes hwritable s⟩
    rw [apply_eq hgroup hvalid.index_ne_none,run_bind_ok (applyBiquads_run hg hwritable s),
      applyBypass_run hg]

end

def forSlot (i : UInt16) : Biquad := { Biquad.default with index := some i }

/-- The last of three biquads has an index too large; the first two are written. -/
theorem late_index_half_applied : ¬∀ (config : Crossover) (dsp : MiniDSP) (floats : Floats)
    (spec : Device.Crossover), config.ValidatedFirst dsp floats spec := by
  intro h
  have hlate := h ⟨some 0,[forSlot 0,forSlot 1,forSlot 4],none⟩ plainDsp noFloats twoGroups
  have hasked := hlate.refused (by
    rintro ⟨group,-,-,hall⟩
    obtain ⟨i,hi,hlt⟩ := hall (forSlot 4) (by simp)
    rw [← Option.some.inj hi] at hlt
    exact absurd hlt (by decide)) cleared
  cases hasked

end Crossover
end Model
end Minidsp
