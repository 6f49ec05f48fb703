import Minidsp.Buffer

/-! Clients of a device: a client asks one question at a time and goes on from the answer,
until it returns, fails or panics. A loop without a bound of its own is given one, and is
unfinished when it is reached. -/

open Buffer

inductive Outcome (ε α : Type)
  | ok (a : α)
  | error (e : ε)
  | panic (p : Panic)
  | unfinished
  deriving DecidableEq, Repr

/-- A client with questions in `Q`, answers in `R` and errors in `ε`, its own and those of the
link to the device. -/
inductive Dialogue (Q R ε α : Type)
  | done (x : Outcome ε α)
  | ask (q : Q) (next : Except ε R → Dialogue Q R ε α)

namespace Dialogue

variable {Q R ε α β σ : Type}

protected def bind : Dialogue Q R ε α → (α → Dialogue Q R ε β) → Dialogue Q R ε β
  | done (.ok a), f => f a
  | done (.error e), _ => done (.error e)
  | done (.panic p), _ => done (.panic p)
  | done .unfinished, _ => done .unfinished
  | ask q next, f => ask q fun r => (next r).bind f

instance : Monad (Dialogue Q R ε) where
  pure a := done (.ok a)
  bind := Dialogue.bind

protected theorem bind_assoc {γ : Type} (p : Dialogue Q R ε α) (f : α → Dialogue Q R ε β)
    (g : β → Dialogue Q R ε γ) : (p.bind f).bind g = p.bind fun a => (f a).bind g := by
  induction p with
  | done x => cases x <;> rfl
  | ask q next ih => exact congrArg (ask q) (funext ih)

protected theorem bind_pure (p : Dialogue Q R ε α) : p.bind (fun a => done (.ok a)) = p := by
  induction p with
  | done x => cases x <;> rfl
  | ask q next ih => exact congrArg (ask q) (funext ih)

instance : LawfulMonad (Dialogue Q R ε) :=
  LawfulMonad.mk' _ Dialogue.bind_pure (fun _ _ => rfl) Dialogue.bind_assoc

def roundtrip (q : Q) : Dialogue Q R ε R :=
  ask q fun r => done (match r with
    | .ok r => .ok r
    | .error e => .error e)

def lift : Exec ε α → Dialogue Q R ε α
  | .ok a => done (.ok a)
  | .error (.error e) => done (.error e)
  | .error (.panic p) => done (.panic p)

def fail (e : ε) : Dialogue Q R ε α := done (.error e)

abbrev Device (σ Q R ε : Type) := σ → Q → Except ε R × σ

def run (dev : Device σ Q R ε) : Dialogue Q R ε α → σ → Outcome ε α × σ
  | done x, s => (x,s)
  | ask q next, s => run dev (next (dev s q).1) (dev s q).2

def asked (dev : Device σ Q R ε) : Dialogue Q R ε α → σ → List Q
  | done _, _ => []
  | ask q next, s => q :: asked dev (next (dev s q).1) (dev s q).2

section Laws

variable {dev : Device σ Q R ε}

theorem run_bind_ok {p : Dialogue Q R ε α} {f : α → Dialogue Q R ε β} {s t : σ} {a : α}
    (h : run dev p s = (.ok a,t)) : run dev (p >>= f) s = run dev (f a) t := by
  induction p generalizing s with
  | done x =>
    obtain ⟨rfl,rfl⟩ := Prod.mk.inj h
    rfl
  | ask q next ih => exact ih _ h

theorem asked_bind_ok {p : Dialogue Q R ε α} {f : α → Dialogue Q R ε β} {s t : σ} {a : α}
    (h : run dev p s = (.ok a,t)) :
    asked dev (p >>= f) s = asked dev p s ++ asked dev (f a) t := by
  induction p generalizing s with
  | done x =>
    obtain ⟨rfl,rfl⟩ := Prod.mk.inj h
    rfl
  | ask q next ih => exact congrArg (q :: ·) (ih _ h)

theorem lift_ok_bind {x : Exec ε α} {a : α} (h : x = .ok a) (f : α → Dialogue Q R ε β) :
    lift x >>= f = f a := by
  subst h
  rfl

@[simp] theorem asked_lift (x : Exec ε α) (s : σ) :
    asked dev (lift x : Dialogue Q R ε α) s = [] := by
  rcases x with (_ | _) | _ <;> rfl

theorem asked_bind_silent {p : Dialogue Q R ε α} {f : α → Dialogue Q R ε β}
    (hf : ∀ a t, asked dev (f a) t = []) (s : σ) : asked dev (p >>= f) s = asked dev p s := by
  induction p generalizing s with
  | done x =>
    cases x with
    | ok a => exact hf a s
    | _ => rfl
  | ask q next ih => exact congrArg (q :: ·) (ih _ _)

/-- However the first part ends, the second asks no more than it would after a value. -/
theorem asked_bind_prefix {p : Dialogue Q R ε α} {f : α → Dialogue Q R ε β} {s : σ}
    {qs : List Q} (hf : ∀ a t, run dev p s = (.ok a,t) → asked dev (f a) t <+: qs) :
    asked dev (p >>= f) s <+: asked dev p s ++ qs := by
  induction p generalizing s with
  | done x =>
    cases x with
    | ok a => exact hf a s rfl
    | _ => exact List.nil_prefix
  | ask q next ih => exact (List.cons_prefix_cons).mpr ⟨rfl,ih _ hf⟩

theorem run_lift_eq_ok {x : Exec ε α} {s t : σ} {a : α} (h : run dev (lift x) s = (.ok a,t)) :
    x = .ok a ∧ t = s := by
  rcases x with (_ | _) | a'
  · cases h
  · cases h
  · obtain ⟨hok,rfl⟩ := Prod.mk.inj h
    obtain rfl := Outcome.ok.inj hok
    exact ⟨rfl,rfl⟩

theorem run_bind_eq_ok {p : Dialogue Q R ε α} {f : α → Dialogue Q R ε β} {s u : σ} {b : β} :
    run dev (p >>= f) s = (.ok b,u) ↔
      ∃ a t, run dev p s = (.ok a,t) ∧ run dev (f a) t = (.ok b,u) := by
  constructor
  · intro h
    induction p generalizing s with
    | done x =>
      cases x with
      | ok a => exact ⟨a,s,rfl,h⟩
      | _ => simp [Bind.bind,Dialogue.bind,run] at h
    | ask q next ih => exact ih _ h
  · rintro ⟨a,t,hp,hf⟩
    rw [run_bind_ok hp,hf]

end Laws

def Asks (P : Q → Prop) : Dialogue Q R ε α → Prop
  | done _ => True
  | ask q next => P q ∧ ∀ r, Asks P (next r)

namespace Asks

variable {P : Q → Prop}

protected theorem pure (a : α) : Asks P (pure a : Dialogue Q R ε α) := trivial

protected theorem fail (e : ε) : Asks P (Dialogue.fail e : Dialogue Q R ε α) := trivial

protected theorem lift (x : Exec ε α) : Asks P (Dialogue.lift x : Dialogue Q R ε α) := by
  rcases x with (_ | _) | _ <;> trivial

protected theorem roundtrip {q : Q} (h : P q) :
    Asks P (Dialogue.roundtrip q : Dialogue Q R ε R) := ⟨h,fun _ => trivial⟩

protected theorem bind {p : Dialogue Q R ε α} {f : α → Dialogue Q R ε β} (hp : Asks P p)
    (hf : ∀ a, Asks P (f a)) : Asks P (p >>= f) := by
  induction p with
  | done x =>
    cases x with
    | ok a => exact hf a
    | _ => trivial
  | ask q next ih => exact ⟨hp.1,fun r => ih r (hp.2 r)⟩

protected theorem ite {c : Prop} [Decidable c] {p q : Dialogue Q R ε α} (hp : Asks P p)
    (hq : Asks P q) : Asks P (if c then p else q) := by
  split_ifs
  · exact hp
  · exact hq

theorem forEach {xs : List β} {f : β → Dialogue Q R ε PUnit} (h : ∀ x ∈ xs, Asks P (f x)) :
    Asks P (forM xs f) := by
  induction xs with
  | nil => trivial
  | cons x xs ih =>
    rw [List.forM_cons]
    exact Asks.bind (h x (by simp)) fun _ => ih fun y hy => h y (by simp [hy])

theorem asked {dev : Device σ Q R ε} {p : Dialogue Q R ε α} (h : Asks P p) (s : σ) :
    ∀ q ∈ asked dev p s, P q := by
  induction p generalizing s with
  | done x => exact fun _ hq => absurd hq List.not_mem_nil
  | ask q next ih =>
    intro q' hq'
    rcases List.mem_cons.mp hq' with rfl | hq'
    · exact h.1
    · exact ih _ (h.2 _) _ _ hq'

end Asks

/-- With answers in `M` there is no panic, and what is returned satisfies `φ`. -/
def Safe (M : Q → R → Prop) (φ : α → Prop) : Dialogue Q R ε α → Prop
  | done (.ok a) => φ a
  | done (.panic _) => False
  | done _ => True
  | ask q next => (∀ e, Safe M φ (next (.error e))) ∧ ∀ r, M q r → Safe M φ (next (.ok r))

namespace Safe

variable {M : Q → R → Prop} {φ : α → Prop} {ψ : β → Prop}

protected theorem pure {a : α} (h : φ a) : Safe M φ (pure a : Dialogue Q R ε α) := h

protected theorem roundtrip (q : Q) :
    Safe M (M q) (Dialogue.roundtrip q : Dialogue Q R ε R) := ⟨fun _ => trivial,fun _ h => h⟩

protected theorem bind {p : Dialogue Q R ε α} {f : α → Dialogue Q R ε β} (hp : Safe M φ p)
    (hf : ∀ a, φ a → Safe M ψ (f a)) : Safe M ψ (p >>= f) := by
  induction p with
  | done x =>
    cases x with
    | ok a => exact hf a hp
    | error e => trivial
    | panic p => exact hp
    | unfinished => trivial
  | ask q next ih => exact ⟨fun e => ih _ (hp.1 e),fun r hr => ih _ (hp.2 r hr)⟩

theorem forEach {xs : List β} {f : β → Dialogue Q R ε PUnit}
    (h : ∀ x ∈ xs, Safe M (fun _ => True) (f x)) : Safe M (fun _ => True) (forM xs f) := by
  induction xs with
  | nil => trivial
  | cons x xs ih =>
    rw [List.forM_cons]
    exact Safe.bind (h x (by simp)) fun _ _ => ih fun y hy => h y (by simp [hy])

theorem of_bind {dev : Device σ Q R ε} {p : Dialogue Q R ε α} {f : α → Dialogue Q R ε β}
    {s t : σ} {a : α} (h : Safe M ψ (p >>= f)) (hrun : Dialogue.run dev p s = (.ok a,t))
    (hdev : ∀ s q r, (dev s q).1 = .ok r → M q r) : Safe M ψ (f a) := by
  induction p generalizing s with
  | done x =>
    obtain ⟨rfl,-⟩ := Prod.mk.inj hrun
    exact h
  | ask q next ih =>
    rw [Dialogue.run] at hrun
    cases hr : (dev s q).1 with
    | ok r =>
      rw [hr] at hrun
      exact ih _ (h.2 r (hdev s q r hr)) hrun
    | error e =>
      rw [hr] at hrun
      exact ih _ (h.1 e) hrun

theorem foldlM {I : α → Prop} {xs : List β} {f : α → β → Dialogue Q R ε α} {a : α} (ha : I a)
    (h : ∀ x ∈ xs, ∀ a, I a → Safe M I (f a x)) : Safe M I (xs.foldlM f a) := by
  induction xs generalizing a with
  | nil => exact ha
  | cons x xs ih =>
    rw [List.foldlM_cons]
    exact Safe.bind (h x (by simp) a ha) fun b hb => ih hb fun y hy => h y (by simp [hy])

theorem run {dev : Device σ Q R ε} (hdev : ∀ s q r, (dev s q).1 = .ok r → M q r)
    {p : Dialogue Q R ε α} (hp : Safe M φ p) (s : σ) (x : Panic) :
    (run dev p s).1 ≠ .panic x := by
  induction p generalizing s with
  | done y =>
    rintro rfl
    exact hp
  | ask q next ih =>
    cases hr : (dev s q).1 with
    | ok r =>
      simp only [Dialogue.run,hr]
      exact ih _ (hp.2 r (hdev s q r hr)) _
    | error e =>
      simp only [Dialogue.run,hr]
      exact ih _ (hp.1 e) _

end Safe

/-- From `s` the client returns `a`, having asked `qs` and left the device in `t`. -/
structure Gives (dev : Device σ Q R ε) (p : Dialogue Q R ε α) (s : σ) (a : α) (t : σ)
    (qs : List Q) : Prop where
  run : run dev p s = (.ok a,t)
  asked : asked dev p s = qs

namespace Gives

variable {dev : Device σ Q R ε} {s t u : σ}

protected theorem pure (a : α) : Gives dev (pure a) s a s [] := ⟨rfl,rfl⟩

protected theorem lift {x : Exec ε α} {a : α} (h : x = .ok a) :
    Gives dev (Dialogue.lift x) s a s [] := by
  subst h
  exact ⟨rfl,rfl⟩

theorem congr {p : Dialogue Q R ε α} {a : α} {qs qs' : List Q} (h : Gives dev p s a t qs)
    (hqs : qs = qs') : Gives dev p s a t qs' := hqs ▸ h

theorem ite_neg {c : Prop} [Decidable c] {p q : Dialogue Q R ε α} {a : α} {qs : List Q}
    (hc : ¬c) (h : Gives dev q s a t qs) : Gives dev (if c then p else q) s a t qs := by
  rwa [if_neg hc]

protected theorem roundtrip {q : Q} {r : R} (h : dev s q = (.ok r,t)) :
    Gives dev (Dialogue.roundtrip q) s r t [q] := by
  constructor
  · simp [Dialogue.roundtrip,Dialogue.run,h]
  · simp [Dialogue.roundtrip,Dialogue.asked]

protected theorem bind {p : Dialogue Q R ε α} {f : α → Dialogue Q R ε β} {a : α} {b : β}
    {qs qs' : List Q} (hp : Gives dev p s a t qs) (hf : Gives dev (f a) t b u qs') :
    Gives dev (p >>= f) s b u (qs ++ qs') := by
  constructor
  · rw [run_bind_ok hp.run,hf.run]
  · rw [asked_bind_ok hp.run,hp.asked,hf.asked]

protected theorem map {p : Dialogue Q R ε α} {a : α} {qs : List Q} (h : Gives dev p s a t qs)
    (g : α → β) : Gives dev (p >>= fun a => Pure.pure (g a)) s (g a) t qs :=
  (h.bind (Gives.pure (g a))).congr (List.append_nil qs)

theorem forEach {I : σ → Prop} {xs : List β} {f : β → Dialogue Q R ε PUnit} {g : β → List Q}
    (hf : ∀ x ∈ xs, ∀ s, I s → ∃ t, I t ∧ Gives dev (f x) s ⟨⟩ t (g x)) (hs : I s) :
    ∃ t, I t ∧ Gives dev (forM xs f) s ⟨⟩ t (xs.flatMap g) := by
  induction xs generalizing s with
  | nil => exact ⟨s,hs,⟨rfl,rfl⟩⟩
  | cons x xs ih =>
    obtain ⟨t,ht,hx⟩ := hf x (by simp) s hs
    obtain ⟨u,hu,hxs⟩ := ih (fun y hy => hf y (by simp [hy])) ht
    rw [List.forM_cons,List.flatMap_cons]
    exact ⟨u,hu,hx.bind hxs⟩

end Gives
end Dialogue
