import Mathlib.Logic.Function.Iterate
import Mathlib.Order.Monotone.Basic
import Minidsp.Transition

/-! Infinite executions of a transition system in which some steps are owed: a scheduler that
always could take one of them takes one in the end. -/
namespace Transition

variable {σ α : Type*}

/-- A state for every moment; between two moments a step is taken, or nothing happens. -/
structure Execution (step : σ → α → Option σ) where
  state : ℕ → σ
  label : ℕ → Option α
  next : ∀ n, match label n with
    | some a => step (state n) a = some (state (n+1))
    | none => state (n+1) = state n

def Enabled (step : σ → α → Option σ) (owed : α → Prop) (s : σ) : Prop :=
  ∃ a t, owed a ∧ step s a = some t

namespace Execution

variable {step : σ → α → Option σ} {owed : α → Prop}

/-- If from some moment on an owed step is always enabled, one is taken. -/
def Fair (e : Execution step) (owed : α → Prop) : Prop :=
  ∀ n, (∀ m, n ≤ m → Enabled step owed (e.state m)) →
    ∃ m a, n ≤ m ∧ e.label m = some a ∧ owed a

theorem step_of_label (e : Execution step) {n : ℕ} {a : α} (h : e.label n = some a) :
    step (e.state n) a = some (e.state (n+1)) := by
  have := e.next n
  rw [h] at this
  exact this

def drop (e : Execution step) (k : ℕ) : Execution step where
  state n := e.state (k+n)
  label n := e.label (k+n)
  next n := e.next (k+n)

theorem Fair.drop {e : Execution step} (h : e.Fair owed) (k : ℕ) : (e.drop k).Fair owed := by
  intro n hn
  have hlater : ∀ m, k+n ≤ m → Enabled step owed (e.state m) := by
    intro m hm
    obtain ⟨j,rfl⟩ := Nat.exists_eq_add_of_le hm
    rw [Nat.add_assoc]
    exact hn (n+j) (by omega)
  obtain ⟨m,a,hm,hl,ha⟩ := h (k+n) hlater
  obtain ⟨j,rfl⟩ := Nat.exists_eq_add_of_le hm
  rw [Nat.add_assoc] at hl
  exact ⟨n+j,a,by omega,hl,ha⟩

theorem invariant (e : Execution step) {I : σ → Prop} (h0 : I (e.state 0))
    (hstep : ∀ n a, e.label n = some a → I (e.state n) → I (e.state (n+1))) (n : ℕ) :
    I (e.state n) := by
  induction n with
  | zero => exact h0
  | succ n ih =>
    cases hl : e.label n with
    | some a => exact hstep n a hl ih
    | none =>
      have h := e.next n
      rw [hl] at h
      exact h ▸ ih

/-- A measure that no step raises and every owed step lowers: what keeps an owed step enabled
until it holds, holds at some moment of a fair execution. -/
theorem eventually_of_measure (e : Execution step) {I P : σ → Prop} (μ : σ → ℕ)
    (hfair : e.Fair owed) (h0 : I (e.state 0))
    (hI : ∀ n a, e.label n = some a → I (e.state n) → I (e.state (n+1)))
    (henabled : ∀ s, I s → ¬P s → Enabled step owed s)
    (hlowers : ∀ s a t, I s → owed a → step s a = some t → μ t < μ s)
    (hkeeps : ∀ n a, e.label n = some a → I (e.state n) → μ (e.state (n+1)) ≤ μ (e.state n)) :
    ∃ n, P (e.state n) := by
  by_contra hnever
  push Not at hnever
  have hall := e.invariant h0 hI
  have hstay : ∀ n, μ (e.state (n+1)) ≤ μ (e.state n) := by
    intro n
    cases hl : e.label n with
    | some a => exact hkeeps n a hl (hall n)
    | none =>
      have h := e.next n
      rw [hl] at h
      exact (congrArg μ h).le
  have hmono : Antitone fun n => μ (e.state n) := antitone_nat_of_succ_le hstay
  have hfalls : ∀ k n, μ (e.state n) = k → False := by
    intro k
    induction k using Nat.strong_induction_on with
    | _ k ih =>
      intro n hn
      obtain ⟨m,a,hnm,hl,ha⟩ := hfair n fun m _ => henabled _ (hall m) (hnever m)
      have hlt := hlowers _ a _ (hall m) ha (e.step_of_label hl)
      have hle : μ (e.state m) ≤ μ (e.state n) := hmono hnm
      exact ih _ (by omega) (m+1) rfl
  exact hfalls _ 0 rfl

def ofRun (step : σ → α → Option σ) (s : σ) (as : List α) (h : (run step s as).isSome) :
    Execution step where
  state n := (run step s (as.take n)).getD s
  label n := as[n]?
  next n := by
    obtain ⟨u,hu⟩ := Option.isSome_iff_exists.mp h
    cases hn : as[n]? with
    | none =>
      have hle := List.getElem?_eq_none_iff.mp hn
      simp only [List.take_of_length_le hle,List.take_of_length_le (Nat.le_succ_of_le hle)]
    | some a =>
      obtain ⟨hlt,rfl⟩ := List.getElem?_eq_some_iff.mp hn
      rw [← List.take_append_drop (n+1) as] at hu
      obtain ⟨t,ht,-⟩ := run_append_iff.mp hu
      simp only [ht,Option.getD_some]
      rw [List.take_succ_eq_append_getElem hlt] at ht
      obtain ⟨t',ht',hstep⟩ := run_concat_iff.mp ht
      simp only [ht',Option.getD_some]
      exact hstep

theorem ofRun_fair {s t : σ} {as : List α} (h : run step s as = some t)
    (hend : ¬Enabled step owed t) : (ofRun step s as (by rw [h]; rfl)).Fair owed := by
  intro n hn
  refine absurd (hn (n+as.length) (by omega)) ?_
  simp only [ofRun,List.take_of_length_le (Nat.le_add_left _ _),h]
  exact hend

end Execution

section Greedy

variable (step : σ → α → Option σ) (owed : α → Prop)

open Classical in
noncomputable def greedyLabel (s : σ) : Option α :=
  if h : Enabled step owed s then some h.choose else none

open Classical in
noncomputable def greedyNext (s : σ) : σ :=
  if h : Enabled step owed s then h.choose_spec.choose else s

noncomputable def greedy (s : σ) : Execution step where
  state n := (greedyNext step owed)^[n] s
  label n := greedyLabel step owed ((greedyNext step owed)^[n] s)
  next n := by
    rw [Function.iterate_succ_apply']
    generalize (greedyNext step owed)^[n] s = t
    by_cases h : Enabled step owed t
    · simp only [greedyLabel,greedyNext,dif_pos h]
      exact h.choose_spec.choose_spec.2
    · simp only [greedyLabel,greedyNext,dif_neg h]

theorem greedy_fair (s : σ) : (greedy step owed s).Fair owed := by
  intro n hn
  have h := hn n le_rfl
  refine ⟨n,h.choose,le_rfl,?_,h.choose_spec.choose_spec.1⟩
  exact dif_pos h

theorem greedy_owed {s : σ} {n : ℕ} {a : α} (h : (greedy step owed s).label n = some a) :
    owed a := by
  simp only [greedy,greedyLabel] at h
  split_ifs at h with hen
  obtain rfl := Option.some.inj h
  exact hen.choose_spec.choose_spec.1

end Greedy
end Transition
