import Mathlib.Logic.Basic

/-! Statements that can leave more than themselves: a loop, a function, or what is left by an
exception. Which construct catches which exit is the whole meaning of each. -/
namespace ControlFlow

inductive Exit (ε : Type*)
  | next
  | brk
  | ret
  | raised (e : ε)
  deriving DecidableEq, Repr

abbrev Stmt (σ ε : Type*) := σ → Exit ε × σ

namespace Stmt

variable {σ ε α : Type*}

def noop : Stmt σ ε := fun s => (.next,s)

def exit (x : Exit ε) : Stmt σ ε := fun s => (x,s)

def seq (b c : Stmt σ ε) : Stmt σ ε := fun s =>
  match b s with
  | (.next,t) => c t
  | r => r

/-- An exception without a handler passes, and so does one that a handler raises. -/
def tryExcept (b : Stmt σ ε) (handler : ε → Option (Stmt σ ε)) : Stmt σ ε := fun s =>
  match b s with
  | (.raised e,t) => (handler e).getD (exit (.raised e)) t
  | r => r

/-- The second statement is run on every exit of the first, and its own exit comes before. A
context manager that lets every exit pass is the same. -/
def withFinally (b c : Stmt σ ε) : Stmt σ ε := fun s =>
  match c (b s).2 with
  | (.next,t) => ((b s).1,t)
  | r => r

/-- A loop over what an iterator yields; `stop` is what the iterator does when it has nothing
more. A `break` in the body leaves this loop and no other. -/
def forEach (body : α → Stmt σ ε) (stop : Stmt σ ε) : List α → Stmt σ ε
  | [] => stop
  | a :: as => fun s =>
    match body a s with
    | (.next,t) => forEach body stop as t
    | (.brk,t) => (.next,t)
    | r => r

section Runs

variable {b c : Stmt σ ε} {handler : ε → Option (Stmt σ ε)} {s t : σ}

theorem seq_of_next (h : b s = (.next,t)) : seq b c s = c t := by
  rw [seq,h]

theorem seq_of_ne_next (h : (b s).1 ≠ .next) : seq b c s = b s := by
  unfold seq
  cases hr : b s with
  | mk x t =>
    rw [hr] at h
    cases x with
    | next => exact absurd rfl h
    | brk | ret | raised e => rfl

theorem tryExcept_of_raised {e : ε} {h : Stmt σ ε} (hb : b s = (.raised e,t))
    (hhandler : handler e = some h) : tryExcept b handler s = h t := by
  rw [tryExcept,hb]
  simp only [hhandler,Option.getD_some]

theorem tryExcept_of_ne_raised (h : ∀ e, (b s).1 ≠ .raised e) : tryExcept b handler s = b s := by
  unfold tryExcept
  cases hr : b s with
  | mk x t =>
    rw [hr] at h
    cases x with
    | next | brk | ret => rfl
    | raised e => exact absurd rfl (h e)

theorem withFinally_of_next (h : c (b s).2 = (.next,t)) : withFinally b c s = ((b s).1,t) := by
  rw [withFinally,h]

end Runs

def Triple (P : σ → Prop) (b : Stmt σ ε) (Q : Exit ε → σ → Prop) : Prop :=
  ∀ s, P s → Q (b s).1 (b s).2

section Rules

variable {P I : σ → Prop} {Q R : Exit ε → σ → Prop} {b c : Stmt σ ε}

theorem Triple.seq (hb : Triple P b R) (hc : Triple (R .next) c Q)
    (hexit : ∀ x s, x ≠ .next → R x s → Q x s) : Triple P (Stmt.seq b c) Q := by
  intro s hs
  have h := hb s hs
  unfold Stmt.seq
  cases hr : b s with
  | mk x t =>
    rw [hr] at h
    cases x with
    | next => exact hc t h
    | brk | ret | raised e => exact hexit _ t nofun h

theorem Triple.andThen (hb : Triple P b Q) (hc : Triple (Q .next) c Q) :
    Triple P (Stmt.seq b c) Q :=
  hb.seq hc fun _ _ _ h => h

theorem Triple.withFinally {S : Exit ε → Exit ε → σ → Prop} (hb : Triple P b R)
    (hc : ∀ x, Triple (R x) c (S x)) (hnext : ∀ x s, S x .next s → Q x s)
    (hexit : ∀ x y s, y ≠ .next → S x y s → Q y s) : Triple P (Stmt.withFinally b c) Q := by
  intro s hs
  have h := hc _ _ (hb s hs)
  unfold Stmt.withFinally
  cases hr : c (b s).2 with
  | mk y t =>
    rw [hr] at h
    cases y with
    | next => exact hnext _ t h
    | brk | ret | raised e => exact hexit _ _ t nofun h

/-- The invariant of a loop; what the body leaves by is what the loop leaves by, but for a
`break`. -/
theorem Triple.forEach {body : α → Stmt σ ε} {stop : Stmt σ ε} {as : List α}
    (hbody : ∀ a ∈ as, Triple I (body a) R) (hnext : ∀ s, R .next s → I s)
    (hbrk : ∀ s, R .brk s → Q .next s) (hexit : ∀ x s, x ≠ .next → x ≠ .brk → R x s → Q x s)
    (hstop : Triple I stop Q) : Triple I (Stmt.forEach body stop as) Q := by
  induction as with
  | nil => exact hstop
  | cons a as ih =>
    intro s hs
    have h := hbody a List.mem_cons_self s hs
    unfold Stmt.forEach
    cases hr : body a s with
    | mk x t =>
      rw [hr] at h
      cases x with
      | next => exact ih (fun a ha => hbody a (List.mem_cons_of_mem _ ha)) t (hnext t h)
      | brk => exact hbrk t h
      | ret | raised e => exact hexit _ t nofun nofun h

theorem forEach_ne_brk {body : α → Stmt σ ε} {stop : Stmt σ ε} (hstop : ∀ s, (stop s).1 ≠ .brk)
    (as : List α) (s : σ) : (forEach body stop as s).1 ≠ .brk := by
  have h : Triple (fun _ => True) (forEach body stop as) fun x _ => x ≠ .brk :=
    Triple.forEach (R := fun _ _ => True) (fun _ _ _ _ => trivial) (fun _ _ => trivial)
      (fun _ _ => nofun) (fun _ _ _ hx _ => hx) fun s _ => hstop s
  exact h s trivial

theorem seq_exit_iff {x : Exit ε} (hx : x ≠ .next) {s : σ} : (seq b c s).1 = x ↔
    (b s).1 = x ∨ (b s).1 = .next ∧ (c (b s).2).1 = x := by
  unfold Stmt.seq
  cases hr : b s with
  | mk y t => cases y <;> simp [Ne.symm hx]

theorem withFinally_exit_iff {x : Exit ε} {s : σ}
    (hc : (c (b s).2).1 ≠ x) :
    (withFinally b c s).1 = x ↔ (b s).1 = x ∧ (c (b s).2).1 = .next := by
  unfold Stmt.withFinally
  cases hr : c (b s).2 with
  | mk y t =>
    rw [hr] at hc
    cases y <;> simp_all

end Rules

end Stmt
end ControlFlow
