import Mathlib.Data.List.Basic
import Mathlib.Logic.Basic

/-! Finite runs of a labelled transition system whose step is a partial function:
the label carries every choice of the scheduler and of the environment, so a list
of labels determines the run. -/
namespace Transition

variable {σ α : Type*}

/-- Take the labelled steps in order; `none` as soon as one of them is not enabled. -/
def run (step : σ → α → Option σ) : σ → List α → Option σ
  | s, [] => some s
  | s, a :: as => (step s a).bind fun t => run step t as

section Runs

variable {step : σ → α → Option σ}

@[simp] theorem run_nil (s : σ) : run step s [] = some s := rfl

theorem run_cons_iff {s u : σ} {a : α} {as : List α} :
    run step s (a :: as) = some u ↔ ∃ t, step s a = some t ∧ run step t as = some u := by
  simp [run,Option.bind_eq_some_iff]

theorem run_append_iff {s u : σ} {as bs : List α} :
    run step s (as ++ bs) = some u ↔ ∃ t, run step s as = some t ∧ run step t bs = some u := by
  induction as generalizing s with
  | nil => simp
  | cons a as ih =>
    simp only [List.cons_append,run_cons_iff,ih]
    constructor
    · rintro ⟨t,ht,v,hv,hu⟩
      exact ⟨v,⟨t,ht,hv⟩,hu⟩
    · rintro ⟨v,⟨t,ht,hv⟩,hu⟩
      exact ⟨t,ht,v,hv,hu⟩

theorem run_concat_iff {s u : σ} {a : α} {as : List α} :
    run step s (as ++ [a]) = some u ↔ ∃ t, run step s as = some t ∧ step t a = some u := by
  simp [run_append_iff,run_cons_iff]

def Reachable (step : σ → α → Option σ) (init s : σ) : Prop := ∃ as, run step init as = some s

theorem Reachable.tail {init s t : σ} {a : α} (hs : Reachable step init s)
    (h : step s a = some t) : Reachable step init t := by
  obtain ⟨as,has⟩ := hs
  exact ⟨as ++ [a],run_concat_iff.mpr ⟨s,has,h⟩⟩

theorem run_invariant {I : σ → Prop} (hstep : ∀ s a t, I s → step s a = some t → I t)
    {s t : σ} {as : List α} (hs : I s) (h : run step s as = some t) : I t := by
  induction as generalizing s with
  | nil =>
    obtain rfl : s = t := Option.some.inj h
    exact hs
  | cons a as ih =>
    obtain ⟨u,hu,ht⟩ := run_cons_iff.mp h
    exact ih (hstep s a u hs hu) ht

theorem Reachable.invariant {I : σ → Prop} {init s : σ} (hs : Reachable step init s)
    (hinit : I init) (hstep : ∀ s a t, I s → step s a = some t → I t) : I s := by
  obtain ⟨as,has⟩ := hs
  exact run_invariant hstep hinit has

/-- Every step of the run is taken in a state that allows its label. -/
def Along (step : σ → α → Option σ) (G : σ → α → Prop) : σ → List α → Prop
  | _, [] => True
  | s, a :: as => G s a ∧ ∀ t, step s a = some t → Along step G t as

theorem along_cons_of {G : σ → α → Prop} {s t : σ} {a : α} {as : List α} (h : step s a = some t) :
    Along step G s (a :: as) ↔ G s a ∧ Along step G t as := by
  simp [Along,h]

theorem along_append_of {G : σ → α → Prop} {s t : σ} {as bs : List α}
    (h : run step s as = some t) :
    Along step G s (as ++ bs) ↔ Along step G s as ∧ Along step G t bs := by
  induction as generalizing s with
  | nil =>
    obtain rfl : s = t := Option.some.inj h
    simp [Along]
  | cons a as ih =>
    obtain ⟨u,hu,ht⟩ := run_cons_iff.mp h
    rw [List.cons_append,along_cons_of hu,along_cons_of hu,ih ht,and_assoc]

theorem along_and {G H : σ → α → Prop} {s : σ} {as : List α} :
    Along step (fun s a => G s a ∧ H s a) s as ↔ Along step G s as ∧ Along step H s as := by
  induction as generalizing s with
  | nil => simp [Along]
  | cons a as ih =>
    simp only [Along,ih]
    constructor
    · rintro ⟨⟨hG,hH⟩,hrest⟩
      exact ⟨⟨hG,fun t ht => (hrest t ht).1⟩,hH,fun t ht => (hrest t ht).2⟩
    · rintro ⟨⟨hG,hGs⟩,hH,hHs⟩
      exact ⟨⟨hG,hH⟩,fun t ht => ⟨hGs t ht,hHs t ht⟩⟩

/-- `Along` read at each position of the run. -/
theorem along_iff {G : σ → α → Prop} {s : σ} {as : List α} :
    Along step G s as ↔
      ∀ pre a post t, as = pre ++ a :: post → run step s pre = some t → G t a := by
  induction as generalizing s with
  | nil => simp [Along]
  | cons b as ih =>
    simp only [Along,ih]
    constructor
    · rintro ⟨hb,hrest⟩ pre a post t he ht
      cases pre with
      | nil =>
        obtain ⟨rfl,rfl⟩ := List.cons.inj he
        exact Option.some.inj ht ▸ hb
      | cons c pre =>
        obtain ⟨rfl,he'⟩ := List.cons.inj he
        obtain ⟨u,hu,hpre⟩ := run_cons_iff.mp ht
        exact hrest u hu pre a post t he' hpre
    · intro h
      refine ⟨h [] b as s rfl rfl,fun u hu pre a post t he ht => ?_⟩
      exact h (b :: pre) a post t (by rw [he]; rfl) (run_cons_iff.mpr ⟨u,hu,ht⟩)

theorem along_congr {I : σ → Prop} {G H : σ → α → Prop}
    (hstep : ∀ s a t, I s → step s a = some t → I t) (h : ∀ s a, I s → (G s a ↔ H s a))
    {s : σ} {as : List α} (hs : I s) : Along step G s as ↔ Along step H s as := by
  induction as generalizing s with
  | nil => exact Iff.rfl
  | cons a as ih =>
    refine and_congr (h s a hs) (forall_congr' fun t => ?_)
    exact imp_congr_right fun ht => ih (hstep s a t hs ht)

theorem along_congr_of_run {I : σ → Prop} {G H : σ → α → Prop}
    (hstep : ∀ s a t, I s → step s a = some t → I t)
    (h : ∀ s a t, I s → step s a = some t → (G s a ↔ H s a)) {s u : σ} {as : List α} (hs : I s)
    (hrun : run step s as = some u) : Along step G s as ↔ Along step H s as := by
  induction as generalizing s with
  | nil => exact Iff.rfl
  | cons a as ih =>
    obtain ⟨t,ht,hu⟩ := run_cons_iff.mp hrun
    rw [along_cons_of ht,along_cons_of ht,h s a t hs ht,ih (hstep s a t hs ht) hu]

theorem guarded_invariant {I : σ → Prop} {G : σ → α → Prop}
    (hstep : ∀ s a t, I s → G s a → step s a = some t → I t)
    {s t : σ} {as : List α} (hs : I s) (hG : Along step G s as)
    (h : run step s as = some t) : I t := by
  induction as generalizing s with
  | nil =>
    obtain rfl : s = t := Option.some.inj h
    exact hs
  | cons a as ih =>
    obtain ⟨u,hu,ht⟩ := run_cons_iff.mp h
    exact ih (hstep s a u hs hG.1 hu) (hG.2 u hu) ht

/-- A relation to a second system, which takes every step as well, holds as long as all steps
are allowed. -/
theorem guarded_simulation {τ : Type*} {step' : τ → α → τ} {R : σ → τ → Prop}
    {G : σ → α → Prop}
    (hstep : ∀ s s' a t, R s s' → G s a → step s a = some t → R t (step' s' a))
    {s t : σ} {s' : τ} {as : List α} (hs : R s s') (hG : Along step G s as)
    (h : run step s as = some t) : R t (as.foldl step' s') := by
  induction as generalizing s s' with
  | nil =>
    obtain rfl : s = t := Option.some.inj h
    exact hs
  | cons a as ih =>
    obtain ⟨u,hu,ht⟩ := run_cons_iff.mp h
    exact ih (hstep s s' a u hs hG.1 hu) (hG.2 u hu) ht

def Leads (step : σ → α → Option σ) (P : α → Prop) (s t : σ) : Prop :=
  ∃ as, run step s as = some t ∧ ∀ a ∈ as, P a

namespace Leads

variable {P : α → Prop} {s t u : σ}

theorem refl : Leads step P s s := ⟨[],rfl,by simp⟩

theorem single {a : α} (ha : P a) (h : step s a = some t) : Leads step P s t :=
  ⟨[a],run_cons_iff.mpr ⟨t,h,rfl⟩,by simpa using ha⟩

theorem trans (hst : Leads step P s t) (htu : Leads step P t u) : Leads step P s u := by
  obtain ⟨as,has,hP⟩ := hst
  obtain ⟨bs,hbs,hP'⟩ := htu
  refine ⟨as ++ bs,run_append_iff.mpr ⟨t,has,hbs⟩,fun a ha => ?_⟩
  exact (List.mem_append.mp ha).elim (hP a) (hP' a)

theorem invariant {I : σ → Prop} (hstep : ∀ s a t, I s → P a → step s a = some t → I t)
    (hs : I s) (h : Leads step P s t) : I t := by
  obtain ⟨as,has,hP⟩ := h
  induction as generalizing s with
  | nil =>
    obtain rfl : s = t := Option.some.inj has
    exact hs
  | cons a as ih =>
    obtain ⟨u,hu,ht⟩ := run_cons_iff.mp has
    exact ih (hstep s a u hs (hP a (by simp)) hu) ht fun b hb => hP b (by simp [hb])

end Leads

end Runs

end Transition
