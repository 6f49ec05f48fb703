import Mathlib.Data.Set.Finite.Lemmas
import Mathlib.Logic.Function.Basic

/-! Tasks that take exclusive locks. A task is a program of lock, unlock and other
instructions; a lock is free or belongs to one task. If every program takes its locks in
ascending order, then in every state some task that is inside its program can go on. -/
namespace LockOrder

variable {T L α : Type}

inductive Instr (L α : Type)
  | lock (l : L)
  | unlock (l : L)
  | act (a : α)

structure System (T L α : Type) where
  holder : L → Option T
  program : T → List (Instr L α)

variable [DecidableEq L]

/-- A program holds the locks it releases before it takes them again. -/
def holds : List (Instr L α) → L → Bool
  | [], _ => false
  | .lock k :: p, l => if k = l then false else holds p l
  | .unlock k :: p, l => if k = l then true else holds p l
  | .act _ :: p, l => holds p l

/-- Each lock is taken above the locks already held, and is held from then on; it is released
where it is held, and not held from then on. -/
def Ascending (rank : L → ℕ) : List (Instr L α) → Prop
  | [] => True
  | .lock k :: p => (∀ l, holds (.lock k :: p) l = true → rank l < rank k) ∧ holds p k = true ∧
      Ascending rank p
  | .unlock k :: p => holds p k = false ∧ Ascending rank p
  | .act _ :: p => Ascending rank p

def Consistent (s : System T L α) : Prop := ∀ l t, s.holder l = some t ↔ holds (s.program t) l = true

variable [DecidableEq T] {s : System T L α} {t : T} {l : L} {p q : List (Instr L α)}

def System.setProgram (s : System T L α) (t : T) (p : List (Instr L α)) : System T L α :=
  { s with program := Function.update s.program t p }

def System.acquire (s : System T L α) (t : T) (l : L) (p : List (Instr L α)) : System T L α :=
  { holder := Function.update s.holder l (some t), program := Function.update s.program t p }

def System.release (s : System T L α) (t : T) (l : L) (p : List (Instr L α)) : System T L α :=
  { holder := Function.update s.holder l none, program := Function.update s.program t p }

theorem Consistent.update_iff (hs : Consistent s) {k : L}
    (hp : holds p k = holds (s.program t) k) (u : T) :
    s.holder k = some u ↔ holds (Function.update s.program t p u) k = true := by
  by_cases hu : u = t
  · subst hu
    rw [Function.update_self,hp]
    exact hs k u
  · rw [Function.update_of_ne hu]
    exact hs k u

theorem Consistent.setProgram (hs : Consistent s)
    (hp : ∀ l, holds p l = holds (s.program t) l) : Consistent (s.setProgram t p) :=
  fun l u => hs.update_iff (hp l) u

theorem Consistent.setHolder (hs : Consistent s) {o : Option T}
    (hother : ∀ k, k ≠ l → holds p k = holds (s.program t) k)
    (hself : ∀ u, o = some u ↔ holds (Function.update s.program t p u) l = true) :
    Consistent ⟨Function.update s.holder l o,Function.update s.program t p⟩ := by
  intro k u
  by_cases hk : k = l
  · subst hk
    simpa using hself u
  · show Function.update s.holder l o k = some u ↔ _
    rw [Function.update_of_ne hk]
    exact hs.update_iff (hother k hk) u

theorem Consistent.acquire {rank : L → ℕ} (hs : Consistent s) (hprog : s.program t = .lock l :: p)
    (hasc : Ascending rank (.lock l :: p)) (hfree : s.holder l = none) :
    Consistent (s.acquire t l p) := by
  refine hs.setHolder (fun k hk => by rw [hprog,holds,if_neg (Ne.symm hk)]) fun u => ?_
  by_cases hu : u = t
  · subst hu
    simp [hasc.2.1]
  · have hnot : holds (s.program u) l ≠ true := by
      rw [Ne,← hs l u,hfree]
      exact nofun
    simp [hu,Ne.symm hu,hnot]

theorem Consistent.release {rank : L → ℕ} (hs : Consistent s)
    (hprog : s.program t = .unlock l :: p) (hasc : Ascending rank (.unlock l :: p)) :
    Consistent (s.release t l p) := by
  have hheld : s.holder l = some t := (hs l t).mpr (by rw [hprog,holds,if_pos rfl])
  refine hs.setHolder (fun k hk => by rw [hprog,holds,if_neg (Ne.symm hk)]) fun u => ?_
  by_cases hu : u = t
  · subst hu
    simp [hasc.1]
  · have hnot : holds (s.program u) l ≠ true := by
      rw [Ne,← hs l u,hheld]
      exact fun h => hu (Option.some.inj h).symm
    simp [hu,hnot]

omit [DecidableEq T] in
/-- No deadlock: if a task is inside its program, then some such task does not wait for a lock
that is taken. -/
theorem exists_ready [Finite L] {rank : L → ℕ} (hs : Consistent s)
    (hasc : ∀ t, Ascending rank (s.program t)) (hbusy : ∃ t, s.program t ≠ []) :
    ∃ t, s.program t ≠ [] ∧ ∀ l p, s.program t = .lock l :: p → s.holder l = none := by
  by_cases hheld : ∃ l t, s.holder l = some t
  · -- the task that holds the highest lock only waits for higher ones, and these are free
    obtain ⟨l,⟨t,ht⟩,hmax⟩ := Set.exists_max_image {l | ∃ t, s.holder l = some t} rank
      (Set.toFinite _) hheld
    have hl : holds (s.program t) l = true := (hs l t).mp ht
    refine ⟨t,fun hnil => by simp [hnil,holds] at hl,fun k p hprog => ?_⟩
    have hlt : rank l < rank k := by
      have := hasc t
      rw [hprog] at this hl
      exact this.1 l hl
    cases hk : s.holder k with
    | none => rfl
    | some u => exact absurd (hmax k ⟨u,hk⟩) (by omega)
  · obtain ⟨t,ht⟩ := hbusy
    refine ⟨t,ht,fun l p _ => ?_⟩
    cases hl : s.holder l with
    | none => rfl
    | some u => exact absurd ⟨l,u,hl⟩ hheld

end LockOrder
