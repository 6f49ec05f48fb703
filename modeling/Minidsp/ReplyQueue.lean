import Mathlib.Data.List.Basic

/-! Matching untagged replies to requests: a queue of waiting requests, of which only the
first one may take an arriving reply. What leaves the queue and where each reply went is kept
as a history. -/
namespace ReplyQueue

variable {ι C R : Type}

structure Queue (ι C R : Type) where
  joined : List (C × ι)
  waiting : List (C × ι)
  gone : List ((C × ι) × Option R)
  offered : List (R × Option ι)

inductive Op (ι C R : Type)
  | join (c : C) (i : ι)
  | offer (r : R)
  | discard

def empty : Queue ι C R := ⟨[],[],[],[]⟩

/-- The first request takes the reply if it accepts it; otherwise nobody does. -/
def offer (accepts : C → R → Bool) (q : Queue ι C R) (r : R) : Queue ι C R :=
  match q.waiting with
  | [] => { q with offered := q.offered ++ [(r,none)] }
  | e :: rest =>
    if accepts e.1 r then
      { q with waiting := rest, gone := q.gone ++ [(e,some r)],
               offered := q.offered ++ [(r,some e.2)] }
    else { q with offered := q.offered ++ [(r,none)] }

def apply (accepts : C → R → Bool) (q : Queue ι C R) : Op ι C R → Queue ι C R
  | .join c i => { q with waiting := q.waiting ++ [(c,i)], joined := q.joined ++ [(c,i)] }
  | .offer r => offer accepts q r
  | .discard =>
    match q.waiting with
    | [] => q
    | e :: rest => { q with waiting := rest, gone := q.gone ++ [(e,none)] }

def claimed (o : R × Option ι) : Option (ι × R) := o.2.map fun i => (i,o.1)

def answered (g : (C × ι) × Option R) : Option (ι × R) := g.2.map fun r => (g.1.2,r)

/-- First in, first out; a request only takes a reply it accepts; and every reply that was
offered is either taken by the one request that left with it, or by none. -/
structure Orderly (accepts : C → R → Bool) (q : Queue ι C R) : Prop where
  fifo : q.joined = q.gone.map Prod.fst ++ q.waiting
  accepted : ∀ e r, (e,some r) ∈ q.gone → accepts e.1 r = true
  matched : q.offered.filterMap claimed = q.gone.filterMap answered

variable {accepts : C → R → Bool}

theorem empty_orderly : Orderly accepts (empty : Queue ι C R) := ⟨rfl,nofun,rfl⟩

theorem offer_of_accepts {q : Queue ι C R} {e : C × ι} {rest : List (C × ι)} {r : R}
    (hq : q.waiting = e :: rest) (h : accepts e.1 r = true) :
    offer accepts q r = { q with waiting := rest, gone := q.gone ++ [(e,some r)],
                                 offered := q.offered ++ [(r,some e.2)] } := by
  simp [offer,hq,h]

theorem offer_of_not_accepts {q : Queue ι C R} {r : R}
    (h : ∀ e, q.waiting.head? = some e → accepts e.1 r = false) :
    offer accepts q r = { q with offered := q.offered ++ [(r,none)] } := by
  unfold offer
  cases hq : q.waiting with
  | nil => rfl
  | cons e rest => simp [h e (by rw [hq]; rfl)]

theorem offer_orderly {q : Queue ι C R} (hq : Orderly accepts q) (r : R) :
    Orderly accepts (offer accepts q r) := by
  by_cases h : ∃ e rest, q.waiting = e :: rest ∧ accepts e.1 r = true
  · obtain ⟨e,rest,hw,hacc⟩ := h
    rw [offer_of_accepts hw hacc]
    refine ⟨?_,?_,?_⟩
    · simp [hq.fifo,hw]
    · intro f s hf
      rcases List.mem_append.mp hf with hf | hf
      · exact hq.accepted f s hf
      · obtain ⟨rfl,hs⟩ := Prod.mk.inj (List.mem_singleton.mp hf)
        exact Option.some.inj hs ▸ hacc
    · simp [hq.matched,claimed,answered]
  · have hnone : ∀ e, q.waiting.head? = some e → accepts e.1 r = false := by
      intro e he
      by_contra hacc
      obtain ⟨rest,hrest⟩ : ∃ rest, q.waiting = e :: rest := by
        cases hw : q.waiting with
        | nil => simp [hw] at he
        | cons f rest =>
          rw [hw] at he
          exact ⟨rest,by rw [Option.some.inj he]⟩
      exact h ⟨e,rest,hrest,by simpa using hacc⟩
    rw [offer_of_not_accepts hnone]
    exact ⟨hq.fifo,hq.accepted,by simp [hq.matched,claimed]⟩

theorem apply_orderly {q : Queue ι C R} (hq : Orderly accepts q) (op : Op ι C R) :
    Orderly accepts (apply accepts q op) := by
  cases op with
  | join c i => exact ⟨by simp [apply,hq.fifo],hq.accepted,hq.matched⟩
  | offer r => exact offer_orderly hq r
  | discard =>
    unfold apply
    cases hw : q.waiting with
    | nil => exact hq
    | cons e rest =>
      refine ⟨by simp [hq.fifo,hw],?_,by simp [hq.matched,answered]⟩
      intro f r hf
      exact hq.accepted f r (by simpa using hf)

theorem run_orderly {q : Queue ι C R} (hq : Orderly accepts q) (ops : List (Op ι C R)) :
    Orderly accepts (ops.foldl (apply accepts) q) := by
  induction ops generalizing q with
  | nil => exact hq
  | cons op ops ih => exact ih (apply_orderly hq op)

theorem find?_key {γ κ : Type} [DecidableEq κ] (key : γ → κ) {l : List γ}
    (hl : (l.map key).Nodup) {x : γ} (hx : x ∈ l) :
    (l.find? fun y => key y == key x) = some x := by
  induction l with
  | nil => cases hx
  | cons y l ih =>
    obtain ⟨hy,hl⟩ := List.nodup_cons.mp hl
    rcases List.mem_cons.mp hx with rfl | hx
    · simp
    · have hne : key y ≠ key x := fun h => hy (h ▸ List.mem_map_of_mem hx)
      simp [hne,ih hl hx]

end ReplyQueue
