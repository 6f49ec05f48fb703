import Mathlib.Data.List.Induction
import Minidsp.Sharing

/-! What the questions of a client do to a memory of the device. A client that asks the same
whatever it is answered has the same effects alone and among others, whose effects come in
between; one that gives up when the link fails has had the first of them. -/

open Buffer

def Outcome.of {ε α : Type} : Exec ε α → Outcome ε α
  | .ok a => .ok a
  | .error (.error e) => .error e
  | .error (.panic p) => .panic p

namespace Dialogue

variable {Q R ε α β ι σ M P : Type}

theorem lift_eq (x : Exec ε α) : (lift x : Dialogue Q R ε α) = done (Outcome.of x) := by
  rcases x with (_ | _) | _ <;> rfl

def Quits (p : Dialogue Q R ε α) : Prop := ∃ e, p = done (.error e)

theorem Quits.bind {p : Dialogue Q R ε α} (h : Quits p) (f : α → Dialogue Q R ε β) :
    Quits (p >>= f) := by
  obtain ⟨e,rfl⟩ := h
  exact ⟨e,rfl⟩

section
variable (Answers : Q → R → Prop) (effect : Q → Option (List P))

/-- Whichever of its answers a question gets, the client ends as in `φ`, and what it asks has the
effects `ps`, one after the other. When the link fails it gives up. -/
def Yields : Dialogue Q R ε α → (Outcome ε α → Prop) → List P → Prop
  | done x, φ, ps => φ x ∧ ps = []
  | ask q next, φ, ps => ∃ now later, effect q = some now ∧ ps = now ++ later ∧
      (∀ r, Answers q r → Yields (next (.ok r)) φ later) ∧ ∀ e, Quits (next (.error e))

structure Follows (dev : Device σ Q R ε) (put : M → P → M) (memory : σ → M) : Prop where
  answers : ∀ s q, ∃ r, (dev s q).1 = .ok r ∧ Answers q r
  effects : ∀ s q ps, effect q = some ps → memory (dev s q).2 = ps.foldl put (memory s)

end

namespace Yields

variable {Answers : Q → R → Prop} {effect : Q → Option (List P)}
variable {φ : Outcome ε α → Prop} {ψ : Outcome ε β → Prop} {ps ps' : List P}

protected theorem done {x : Outcome ε α} (h : φ x) : Yields Answers effect (done x) φ [] := ⟨h,rfl⟩

protected theorem lift {x : Exec ε α} (h : φ (Outcome.of x)) :
    Yields Answers effect (lift x) φ [] := by
  rw [lift_eq]
  exact ⟨h,rfl⟩

protected theorem roundtrip {q : Q} (hq : effect q = some ps) :
    Yields Answers effect (roundtrip q : Dialogue Q R ε R) (fun x => ∃ r, x = .ok r ∧ Answers q r)
      ps :=
  ⟨ps,[],hq,(List.append_nil ps).symm,fun r hr => ⟨⟨r,rfl,hr⟩,rfl⟩,fun e => ⟨e,rfl⟩⟩

protected theorem bind {p : Dialogue Q R ε α} {f : α → Dialogue Q R ε β}
    (hp : Yields Answers effect p φ ps)
    (hf : ∀ x, φ x → ∃ a, x = .ok a ∧ Yields Answers effect (f a) ψ ps') :
    Yields Answers effect (p >>= f) ψ (ps ++ ps') := by
  induction p generalizing ps with
  | done x =>
    obtain ⟨hx,rfl⟩ := hp
    obtain ⟨a,rfl,ha⟩ := hf x hx
    exact ha
  | ask q next ih =>
    obtain ⟨now,later,hq,rfl,hnext,hquits⟩ := hp
    exact ⟨now,later ++ ps',hq,List.append_assoc now later ps',
      fun r hr => ih (.ok r) (hnext r hr),fun e => (hquits e).bind f⟩

theorem silent_bind {p : Dialogue Q R ε α} {f : α → Dialogue Q R ε β}
    (hp : Yields Answers effect p φ [])
    (hf : ∀ x, φ x → ∃ a, x = .ok a ∧ Yields Answers effect (f a) ψ ps) :
    Yields Answers effect (p >>= f) ψ ps := hp.bind hf

theorem bind_silent {p : Dialogue Q R ε α} {f : α → Dialogue Q R ε β}
    (hp : Yields Answers effect p φ ps)
    (hf : ∀ x, φ x → ∃ a, x = .ok a ∧ Yields Answers effect (f a) ψ []) :
    Yields Answers effect (p >>= f) ψ ps := by
  rw [← List.append_nil ps]
  exact hp.bind hf

theorem bind_fault {p : Dialogue Q R ε α} {x : Fault ε} (f : α → Dialogue Q R ε β)
    (hp : Yields Answers effect p (· = Outcome.of (.error x)) ps) :
    Yields Answers effect (p >>= f) (· = Outcome.of (.error x)) ps := by
  induction p generalizing ps with
  | done y =>
    obtain ⟨rfl,rfl⟩ := hp
    cases x <;> exact ⟨rfl,rfl⟩
  | ask q next ih =>
    obtain ⟨now,later,hq,hps,hnext,hquits⟩ := hp
    exact ⟨now,later,hq,hps,fun r hr => ih (.ok r) (hnext r hr),fun e => (hquits e).bind f⟩

theorem forEach {xs : List β} {f : β → Dialogue Q R ε PUnit} {g : β → List P}
    (h : ∀ x ∈ xs, Yields Answers effect (f x) (· = .ok ⟨⟩) (g x)) :
    Yields Answers effect (forM xs f) (· = .ok ⟨⟩) (xs.flatMap g) := by
  induction xs with
  | nil => exact ⟨rfl,rfl⟩
  | cons x xs ih =>
    rw [List.forM_cons,List.flatMap_cons]
    refine (h x (by simp)).bind ?_
    rintro _ rfl
    exact ⟨⟨⟩,rfl,ih fun y hy => h y (by simp [hy])⟩

variable {dev : Device σ Q R ε} {put : M → P → M} {memory : σ → M}

theorem run {p : Dialogue Q R ε α} (hdev : Follows Answers effect dev put memory)
    (h : Yields Answers effect p φ ps) (s : σ) : φ (run dev p s).1 ∧
      memory (Dialogue.run dev p s).2 = ps.foldl put (memory s) := by
  induction p generalizing s ps with
  | done x =>
    obtain ⟨hx,rfl⟩ := h
    exact ⟨hx,rfl⟩
  | ask q next ih =>
    obtain ⟨now,later,hq,rfl,hnext,-⟩ := h
    obtain ⟨r,hr,hans⟩ := hdev.answers s q
    have hrest := ih (.ok r) (hnext r hans) (dev s q).2
    rw [hdev.effects s q now hq] at hrest
    rw [Dialogue.run,hr,List.foldl_append]
    exact hrest

end Yields

theorem take_of_prefix {f : β → List P} (hf : ∀ x, (f x).length ≤ 1) {xs : List β} {ps : List P}
    (h : ps <+: xs.flatMap f) : ∃ n, ps = (xs.take n).flatMap f := by
  induction xs generalizing ps with
  | nil => exact ⟨0,List.prefix_nil.mp h⟩
  | cons x xs ih =>
    rw [List.flatMap_cons] at h
    rcases ps with _ | ⟨p,ps⟩
    · exact ⟨0,rfl⟩
    match hx : f x with
    | [] =>
      rw [hx,List.nil_append] at h
      obtain ⟨n,hn⟩ := ih h
      exact ⟨n+1,by rw [List.take_succ_cons,List.flatMap_cons,hx,List.nil_append,hn]⟩
    | [q] =>
      rw [hx,List.singleton_append,List.cons_prefix_cons] at h
      obtain ⟨rfl,hps⟩ := h
      obtain ⟨n,hn⟩ := ih hps
      exact ⟨n+1,by rw [List.take_succ_cons,List.flatMap_cons,hx,List.singleton_append,hn]⟩
    | q :: q' :: qs =>
      have hlen := hf x
      rw [hx] at hlen
      simp at hlen

/-- What is read of a memory is what was put there last, if anything was. -/
theorem read_foldl {V : Type} (put : M → P → M) (read : M → V) (at? : P → Option V)
    (h : ∀ m p, read (put m p) = (at? p).getD (read m)) (ps : List P) (m : M) :
    read (ps.foldl put m) = ((ps.filterMap at?).getLast?).getD (read m) := by
  induction ps using List.reverseRecOn with
  | nil => rfl
  | append_singleton ps p ih =>
    rw [List.foldl_append,List.foldl_cons,List.foldl_nil,h,List.filterMap_append,ih]
    cases hp : at? p with
    | none => rw [List.filterMap_cons_none hp,List.filterMap_nil,List.append_nil]; rfl
    | some v => rw [List.filterMap_cons_some hp,List.filterMap_nil,List.getLast?_concat]; rfl

/-! Among others. -/

namespace Shared

variable [DecidableEq ι]

def own (c : ι) (log : List (ι × P)) : List P := (log.filter fun e => e.1 = c).map Prod.snd

theorem own_append (c : ι) (log log' : List (ι × P)) :
    own c (log ++ log') = own c log ++ own c log' := by
  rw [own,List.filter_append,List.map_append]
  rfl

theorem own_self (c : ι) (ps : List P) : own c (ps.map (Prod.mk c)) = ps := by
  rw [own,List.filter_eq_self.mpr (by simp),List.map_map]
  exact List.map_id ps

theorem own_other {c c' : ι} (h : c' ≠ c) (ps : List P) : own c' (ps.map (Prod.mk c)) = [] := by
  rw [own,List.filter_eq_nil_iff.mpr (by simp [h.symm])]
  rfl

theorem own_filterMap {V : Type} {f : P → Option V} {c : ι} {log : List (ι × P)}
    (h : ∀ c', c' ≠ c → ∀ p ∈ own c' log, f p = none) :
    (log.map Prod.snd).filterMap f = (own c log).filterMap f := by
  induction log with
  | nil => rfl
  | cons e log ih =>
    obtain ⟨c',p⟩ := e
    have hself : own c' ((c',p) :: log) = p :: own c' log := by
      rw [own,List.filter_cons_of_pos (by simp)]
      rfl
    have hlog := ih fun d hd q hq => h d hd q (by
      rw [← List.singleton_append,own_append]
      exact List.mem_append_right _ hq)
    by_cases hc : c' = c
    · subst hc
      rw [hself,List.map_cons,List.filterMap_cons,List.filterMap_cons,hlog]
    · have hother : own c ((c',p) :: log) = own c log := by
        rw [own,List.filter_cons_of_neg (by simpa using hc)]
        rfl
      rw [List.map_cons,List.filterMap_cons_none (h c' hc p (by simp [hself])),hother,hlog]

section
variable (Answers : Q → R → Prop) (effect : Q → Option (List P)) (faulty : Prop)

/-- Where a client is of which `ps` are the effects: on its way, or at an end it has come to
through a link that failed. -/
def Along (p : Dialogue Q R ε α) (φ : Outcome ε α → Prop) (ps had : List P) : Prop :=
  (∃ rest, ps = had ++ rest ∧ Yields Answers effect p φ rest) ∨ (faulty ∧ had <+: ps ∧ Quits p)

end

variable {Answers : Q → R → Prop} {effect : Q → Option (List P)} {faulty : Prop}
variable {φ : Outcome ε α → Prop} {ps had : List P}

theorem Along.isPrefix {p : Dialogue Q R ε α} (h : Along Answers effect faulty p φ ps had) :
    had <+: ps := by
  rcases h with ⟨rest,hps,-⟩ | ⟨-,hle,-⟩
  · exact ⟨rest,hps.symm⟩
  · exact hle

theorem Along.done {x : Outcome ε α} (h : Along Answers effect faulty (done x) φ ps had) :
    φ x ∧ had = ps ∨ faulty ∧ ∃ e, x = .error e := by
  rcases h with ⟨rest,rfl,hx,rfl⟩ | ⟨hfault,-,e,he⟩
  · exact .inl ⟨hx,(List.append_nil had).symm⟩
  · exact .inr ⟨hfault,e,(Dialogue.done.injEq x (.error e)).mp he⟩

variable {dev : Device σ Q R ε} {put : M → P → M} {memory : σ → M}
variable {s t : Shared Q R ε α ι σ} {Φ : ι → Outcome ε α → Prop} {all : ι → List P}

theorem step_along (hdev : Follows Answers effect dev put memory) {a : ι × Fate ε}
    (ha : a.2 ≠ .answered → faulty) {log : List (ι × P)}
    (hs : ∀ c, Along Answers effect faulty (s.clients c) (Φ c) (all c) (own c log))
    (h : step dev s a = some t) : ∃ now : List P,
      memory t.device = now.foldl put (memory s.device) ∧ ∀ c, Along Answers effect faulty
        (t.clients c) (Φ c) (all c) (own c (log ++ now.map (Prod.mk a.1))) := by
  obtain ⟨q,next,hask,rfl⟩ := step_iff.mp h
  have hclient := hs a.1
  rw [hask] at hclient
  obtain ⟨rest,hall,now,later,hq,rfl,hnext,hquits⟩ | ⟨-,-,e,he⟩ := hclient
  swap
  · cases he
  obtain ⟨r,hr,hans⟩ := hdev.answers s.device q
  have hmove : ∀ (ps : List P) (p : Dialogue Q R ε α),
      Along Answers effect faulty p (Φ a.1) (all a.1) (own a.1 log ++ ps) →
        ∀ c, Along Answers effect faulty (Function.update s.clients a.1 p c) (Φ c) (all c)
          (own c (log ++ ps.map (Prod.mk a.1))) := by
    intro ps p hp c
    rw [own_append]
    by_cases hc : c = a.1
    · subst hc
      rwa [Function.update_self,own_self]
    · rw [Function.update_of_ne hc,own_other hc,List.append_nil]
      exact hs c
  rw [← List.append_assoc] at hall
  cases hfate : a.2 with
  | answered =>
    refine ⟨now,hdev.effects _ _ _ hq,hmove now _ (.inl ⟨later,hall,?_⟩)⟩
    rw [ask,hr]
    exact hnext r hans
  | lost e =>
    have hlink : faulty := ha (by simp [hfate])
    exact ⟨now,hdev.effects _ _ _ hq,hmove now _ (.inr ⟨hlink,⟨later,hall.symm⟩,hquits e⟩)⟩
  | refused e =>
    have hlink : faulty := ha (by simp [hfate])
    refine ⟨[],rfl,hmove [] _ (.inr ⟨hlink,⟨now ++ later,?_⟩,hquits e⟩)⟩
    rw [List.append_nil,hall,List.append_assoc]

/-- In every run the effects of the clients come one after the other in one order, in which each
client has the first of its own. -/
theorem run_along (hdev : Follows Answers effect dev put memory) {as : List (ι × Fate ε)}
    (has : ∀ a ∈ as, a.2 ≠ .answered → faulty) {log : List (ι × P)}
    (hs : ∀ c, Along Answers effect faulty (s.clients c) (Φ c) (all c) (own c log))
    (h : Transition.run (step dev) s as = some t) : ∃ new : List (ι × P),
      memory t.device = (new.map Prod.snd).foldl put (memory s.device) ∧
      ∀ c, Along Answers effect faulty (t.clients c) (Φ c) (all c) (own c (log ++ new)) := by
  induction as generalizing s log with
  | nil =>
    obtain rfl : s = t := Option.some.inj h
    exact ⟨[],rfl,fun c => by rw [List.append_nil]; exact hs c⟩
  | cons a as ih =>
    obtain ⟨u,hu,ht⟩ := Transition.run_cons_iff.mp h
    obtain ⟨now,hmemory,halong⟩ := step_along hdev (has a (by simp)) hs hu
    obtain ⟨new,hmemory',halong'⟩ := ih (fun b hb => has b (by simp [hb])) halong ht
    refine ⟨now.map (Prod.mk a.1) ++ new,?_,fun c => ?_⟩
    · rw [hmemory',hmemory,List.map_append,List.foldl_append,List.map_map]
      exact congrArg (fun ps => List.foldl put (List.foldl put (memory s.device) ps) _)
        (List.map_id now).symm
    · rw [← List.append_assoc]
      exact halong' c

end Shared
end Dialogue
