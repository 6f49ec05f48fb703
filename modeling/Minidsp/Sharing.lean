import Mathlib.Logic.Function.Basic
import Minidsp.Dialogue
import Minidsp.Transition

/-! Clients with a device in common. In the atomic system a client asks, and goes on from the
answer, in one step; a link that fails answers with an error, and the device may have taken the
question all the same. -/
namespace Dialogue

structure Shared (Q R ε α ι σ : Type) where
  device : σ
  clients : ι → Dialogue Q R ε α

/-- What became of a question: answered, taken but not answered, or never seen. -/
inductive Fate (ε : Type)
  | answered
  | lost (e : ε)
  | refused (e : ε)
  deriving DecidableEq

namespace Shared

variable {Q R ε α ι σ : Type} [DecidableEq ι]

def ask (dev : Device σ Q R ε) (s : σ) (q : Q) : Fate ε → Except ε R × σ
  | .answered => dev s q
  | .lost e => (.error e,(dev s q).2)
  | .refused e => (.error e,s)

def step (dev : Device σ Q R ε) (s : Shared Q R ε α ι σ) (a : ι × Fate ε) :
    Option (Shared Q R ε α ι σ) :=
  match s.clients a.1 with
  | .done _ => none
  | .ask q next =>
    let (r,device) := ask dev s.device q a.2
    some ⟨device,Function.update s.clients a.1 (next r)⟩

variable {dev : Device σ Q R ε} {s t : Shared Q R ε α ι σ} {a : ι × Fate ε}

theorem step_iff : step dev s a = some t ↔ ∃ q next, s.clients a.1 = .ask q next ∧
    t = ⟨(ask dev s.device q a.2).2,
      Function.update s.clients a.1 (next (ask dev s.device q a.2).1)⟩ := by
  unfold step
  cases s.clients a.1 <;> simp [eq_comm]

theorem step_other (h : step dev s a = some t) {c : ι} (hc : c ≠ a.1) :
    t.clients c = s.clients c := by
  obtain ⟨q,next,-,rfl⟩ := step_iff.mp h
  exact Function.update_of_ne hc _ _

theorem step_run {c : ι} (h : step dev s (c,.answered) = some t) :
    run dev (t.clients c) t.device = run dev (s.clients c) s.device := by
  obtain ⟨q,next,hc,rfl⟩ := step_iff.mp h
  rw [hc]
  simp [ask,run]

theorem run_only {c : ι} {as : List (ι × Fate ε)} (hs : ∀ c', c' ≠ c → ∃ x, s.clients c' = .done x)
    (h : Transition.run (step dev) s as = some t) :
    (∀ a ∈ as, a.1 = c) ∧ ∀ c', c' ≠ c → ∃ x, t.clients c' = .done x := by
  induction as generalizing s with
  | nil =>
    obtain rfl : s = t := Option.some.inj h
    exact ⟨nofun,hs⟩
  | cons a as ih =>
    obtain ⟨u,hu,ht⟩ := Transition.run_cons_iff.mp h
    have ha : a.1 = c := by
      by_contra hne
      obtain ⟨x,hx⟩ := hs a.1 hne
      obtain ⟨q,next,hask,-⟩ := step_iff.mp hu
      cases hx.symm.trans hask
    have hu' : ∀ c', c' ≠ c → ∃ x, u.clients c' = .done x := by
      intro c' hc'
      rw [step_other hu (ha ▸ hc')]
      exact hs c' hc'
    obtain ⟨hall,hdone⟩ := ih hu' ht
    exact ⟨List.forall_mem_cons.mpr ⟨ha,hall⟩,hdone⟩

/-- One client, and a link without faults: the client returns what it returns alone. -/
theorem run_alone {c : ι} {as : List (ι × Fate ε)} (has : ∀ a ∈ as, a = (c,.answered))
    (h : Transition.run (step dev) s as = some t) :
    run dev (t.clients c) t.device = run dev (s.clients c) s.device := by
  induction as generalizing s with
  | nil =>
    obtain rfl : s = t := Option.some.inj h
    rfl
  | cons a as ih =>
    obtain ⟨u,hu,ht⟩ := Transition.run_cons_iff.mp h
    obtain rfl := has a (by simp)
    rw [ih (fun b hb => has b (by simp [hb])) ht,step_run hu]

theorem run_done {c : ι} {as : List (ι × Fate ε)} (has : ∀ a ∈ as, a = (c,.answered))
    (h : Transition.run (step dev) s as = some t) {x : Outcome ε α} (hx : t.clients c = .done x) :
    run dev (s.clients c) s.device = (x,t.device) := by
  rw [← run_alone has h,hx,run]

end Shared
end Dialogue
