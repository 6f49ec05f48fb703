import Mathlib.Control.Monad.Basic
import Mathlib.Data.List.Induction
import Mathlib.Data.List.Nodup

/-! A map that goes both ways, used up by a walk: what the walk comes to is taken out of the map,
so it comes to nothing twice. -/
namespace LinearUse

structure BiMap (κ ν : Type) where
  entries : List (κ × ν)
  left_nodup : (entries.map Prod.fst).Nodup
  right_nodup : (entries.map Prod.snd).Nodup

namespace BiMap

variable {κ ν : Type} (m : BiMap κ ν)

def lefts : List κ := m.entries.map Prod.fst

theorem mem_lefts_of_mem {k : κ} {v : ν} (h : (k,v) ∈ m.entries) : k ∈ m.lefts :=
  List.mem_map_of_mem h

theorem exists_of_mem_lefts {k : κ} (h : k ∈ m.lefts) : ∃ v, (k,v) ∈ m.entries := by
  obtain ⟨⟨_,v⟩,hmem,rfl⟩ := List.mem_map.mp h
  exact ⟨v,hmem⟩

theorem left_eq_of_right {k k' : κ} {v : ν} (h : (k,v) ∈ m.entries) (h' : (k',v) ∈ m.entries) :
    k = k' := congrArg Prod.fst (List.inj_on_of_nodup_map m.right_nodup h h' rfl)

variable [DecidableEq κ]

def erase (k : κ) : BiMap κ ν where
  entries := m.entries.filter (·.1 ≠ k)
  left_nodup := m.left_nodup.sublist (List.filter_sublist.map _)
  right_nodup := m.right_nodup.sublist (List.filter_sublist.map _)

def removeByLeft (k : κ) : Option ((κ × ν) × BiMap κ ν) :=
  (m.entries.find? (·.1 = k)).map fun e => (e,m.erase k)

theorem mem_lefts_erase {k k' : κ} : k' ∈ (m.erase k).lefts ↔ k' ∈ m.lefts ∧ k' ≠ k := by
  simp only [lefts,erase,List.mem_map,List.mem_filter,decide_eq_true_eq]
  constructor
  · rintro ⟨e,⟨hmem,hne⟩,rfl⟩
    exact ⟨⟨e,hmem,rfl⟩,hne⟩
  · rintro ⟨⟨e,hmem,rfl⟩,hne⟩
    exact ⟨e,⟨hmem,hne⟩,rfl⟩

theorem removeByLeft_some {k : κ} {e : κ × ν} {m' : BiMap κ ν}
    (h : m.removeByLeft k = some (e,m')) : k ∈ m.lefts ∧ m' = m.erase k := by
  obtain ⟨e',hfind,heq⟩ := Option.map_eq_some_iff.mp h
  cases heq
  have hkey : e.1 = k := by simpa using List.find?_some hfind
  exact ⟨hkey ▸ List.mem_map_of_mem (List.mem_of_find?_eq_some hfind),rfl⟩

section Insert

variable [DecidableEq ν]

def empty : BiMap κ ν := ⟨[],List.nodup_nil,List.nodup_nil⟩

/-- Both sides of the pair are taken away from what had them. -/
def insert (k : κ) (v : ν) : BiMap κ ν where
  entries := m.entries.filter (fun e => e.1 ≠ k ∧ e.2 ≠ v) ++ [(k,v)]
  left_nodup := by
    rw [List.map_append,List.map_singleton]
    refine (m.left_nodup.sublist (List.filter_sublist.map _)).append (List.nodup_singleton k) ?_
    simp
  right_nodup := by
    rw [List.map_append,List.map_singleton]
    refine (m.right_nodup.sublist (List.filter_sublist.map _)).append (List.nodup_singleton v) ?_
    simp

theorem mem_insert {k : κ} {v : ν} {e : κ × ν} :
    e ∈ (m.insert k v).entries ↔ (e ∈ m.entries ∧ e.1 ≠ k ∧ e.2 ≠ v) ∨ e = (k,v) := by
  simp [insert]

def ofList (xs : List (κ × ν)) : BiMap κ ν := xs.foldl (fun m e => m.insert e.1 e.2) empty

theorem mem_ofList {xs : List (κ × ν)} {e : κ × ν} : e ∈ (ofList xs).entries ↔
    ∃ before after, xs = before ++ e :: after ∧ ∀ e' ∈ after, e.1 ≠ e'.1 ∧ e.2 ≠ e'.2 := by
  induction xs using List.reverseRecOn with
  | nil => simp [ofList,empty]
  | append_singleton xs x ih =>
    rw [ofList,List.foldl_append,← ofList,List.foldl_cons,List.foldl_nil,mem_insert,ih]
    constructor
    · rintro (⟨⟨before,after,rfl,hafter⟩,hne⟩ | rfl)
      · refine ⟨before,after ++ [x],by simp,fun e' he' => ?_⟩
        rcases List.mem_append.mp he' with he' | he'
        · exact hafter e' he'
        · exact List.mem_singleton.mp he' ▸ hne
      · exact ⟨xs,[],rfl,by simp⟩
    · rintro ⟨before,after,hxs,hafter⟩
      rcases List.eq_nil_or_concat after with rfl | ⟨after,y,rfl⟩
      · exact Or.inr (List.singleton_inj.mp (List.append_inj_right' hxs rfl)).symm
      · rw [List.concat_eq_append,← List.cons_append,← List.append_assoc] at hxs
        obtain ⟨rfl,hx⟩ := List.append_inj' hxs rfl
        obtain rfl := List.singleton_inj.mp hx
        exact Or.inl ⟨⟨before,after,rfl,fun e' he' => hafter e' (by simp [he'])⟩,
          hafter x (by simp)⟩

theorem mem_ofList_of_nodup {xs : List (κ × ν)} {e : κ × ν} (hleft : (xs.map Prod.fst).Nodup)
    (hright : (xs.map Prod.snd).Nodup) : e ∈ (ofList xs).entries ↔ e ∈ xs := by
  rw [mem_ofList]
  constructor
  · rintro ⟨before,after,rfl,-⟩
    simp
  · intro he
    obtain ⟨before,after,rfl⟩ := List.append_of_mem he
    refine ⟨before,after,rfl,fun e' he' => ?_⟩
    rw [List.map_append,List.map_cons] at hleft hright
    have hl := (List.nodup_cons.mp hleft.of_append_right).1
    have hr := (List.nodup_cons.mp hright.of_append_right).1
    exact ⟨fun h => hl (h ▸ List.mem_map_of_mem he'),fun h => hr (h ▸ List.mem_map_of_mem he')⟩

def getByRight (v : ν) : Option κ := (m.entries.find? (·.2 == v)).map Prod.fst

omit [DecidableEq κ] in
theorem getByRight_eq_some {k : κ} {v : ν} : m.getByRight v = some k ↔ (k,v) ∈ m.entries := by
  constructor
  · intro h
    obtain ⟨⟨k',v'⟩,hfind,rfl⟩ := Option.map_eq_some_iff.mp h
    obtain rfl : v' = v := by simpa using List.find?_some hfind
    exact List.mem_of_find?_eq_some hfind
  · intro he
    cases hfind : m.entries.find? (·.2 == v) with
    | none => exact absurd (beq_self_eq_true v) (List.find?_eq_none.mp hfind (k,v) he)
    | some e =>
      have heq : e.2 = v := by simpa using List.find?_some hfind
      have hsame := List.inj_on_of_nodup_map m.right_nodup (List.mem_of_find?_eq_some hfind) he heq
      rw [getByRight,hfind,hsame]
      rfl

end Insert

end BiMap

section Walk

variable {σ ε κ τ α β : Type} {resolve : κ → StateT σ (Except ε) τ} {before : List τ}

theorem exists_of_run_bind {x : StateT σ (Except ε) α} {f : α → StateT σ (Except ε) β}
    {s s' : σ} {b : β} (h : (x >>= f).run s = .ok (b,s')) :
    ∃ a s₁, x.run s = .ok (a,s₁) ∧ (f a).run s₁ = .ok (b,s') := by
  rw [StateT.run_bind] at h
  cases hx : x.run s with
  | error e => rw [hx] at h; cases h
  | ok r => exact ⟨r.1,r.2,rfl,by rw [hx] at h; exact h⟩

theorem run_bind_of_ok {x : StateT σ (Except ε) α} {f : α → StateT σ (Except ε) β}
    {s s' : σ} {a : α} (h : x.run s = .ok (a,s')) : (x >>= f).run s = (f a).run s' := by
  rw [StateT.run_bind,h]
  rfl

/-- A part of the walk resolves the names in their order, and the references of what it returns
are what was resolved `before` and what they are resolved to. -/
def Visits (resolve : κ → StateT σ (Except ε) τ) (before : List τ) (x : StateT σ (Except ε) α)
    (names : List κ) (refs : α → List τ) : Prop :=
  ∀ s a s', x.run s = .ok (a,s') →
    ∃ resolved, (names.mapM resolve).run s = .ok (resolved,s') ∧ refs a = before ++ resolved

namespace Visits

theorem one (k : κ) : Visits resolve [] (resolve k) [k] fun t => [t] := by
  intro s t s' h
  refine ⟨[t],?_,rfl⟩
  rw [List.mapM_cons,run_bind_of_ok h]
  rfl

theorem pure {refs : α → List τ} {a : α} (h : refs a = before) :
    Visits resolve before (Pure.pure a) [] refs := by
  intro s _ s' hrun
  cases hrun
  exact ⟨[],rfl,by rw [h,List.append_nil]⟩

theorem bind {x : StateT σ (Except ε) α} {f : α → StateT σ (Except ε) β} {names names' : List κ}
    {refs : α → List τ} {refs' : β → List τ} (hx : Visits resolve [] x names refs)
    (hf : ∀ a, Visits resolve (before ++ refs a) (f a) names' refs') :
    Visits resolve before (x >>= f) (names ++ names') refs' := by
  intro s b s' h
  obtain ⟨a,s₁,hxrun,hfrun⟩ := exists_of_run_bind h
  obtain ⟨resolved,hnames,hrefs⟩ := hx s a s₁ hxrun
  obtain ⟨resolved',hnames',hrefs'⟩ := hf a s₁ b s' hfrun
  refine ⟨resolved ++ resolved',?_,by rw [hrefs',hrefs,List.nil_append,List.append_assoc]⟩
  rw [List.mapM_append,run_bind_of_ok hnames,run_bind_of_ok hnames']
  rfl

theorem lift_bind {y : Except ε α} {f : α → StateT σ (Except ε) β} {names : List κ}
    {refs : β → List τ} (hf : ∀ a, Visits resolve before (f a) names refs) :
    Visits resolve before (StateT.lift y >>= f) names refs := by
  intro s b s' h
  obtain ⟨a,s₁,hy,hfrun⟩ := exists_of_run_bind h
  cases y with
  | error e => cases hy
  | ok a' =>
    cases hy
    exact hf a s b s' hfrun

theorem ones (ks : List κ) : Visits resolve [] (ks.mapM resolve) ks id :=
  fun _ resolved _ h => ⟨resolved,h,rfl⟩

theorem optionOne (o : Option κ) : Visits resolve [] (o.mapM resolve) o.toList Option.toList := by
  cases o with
  | none => exact pure rfl
  | some k =>
    have hsome : ∀ t : τ, Visits resolve ([] ++ [t]) (Pure.pure (some t)) [] Option.toList :=
      fun _ => pure rfl
    exact bind (one k) hsome

theorem option {γ : Type} {f : γ → StateT σ (Except ε) α} {names : γ → List κ}
    {refs : α → List τ} (hf : ∀ c, Visits resolve [] (f c) (names c) refs) (o : Option γ) :
    Visits resolve [] (o.mapM f) (o.toList.flatMap names) fun o' => o'.toList.flatMap refs := by
  cases o with
  | none => exact pure rfl
  | some c =>
    have hsome : ∀ a, Visits resolve ([] ++ refs a) (Pure.pure (some a)) []
        fun o' => o'.toList.flatMap refs := fun a => pure (by simp)
    simpa using bind (hf c) hsome

theorem list {γ : Type} {f : γ → StateT σ (Except ε) α} {names : γ → List κ}
    {refs : α → List τ} (hf : ∀ c, Visits resolve [] (f c) (names c) refs) (cs : List γ) :
    Visits resolve [] (cs.mapM f) (cs.flatMap names) fun as => as.flatMap refs := by
  induction cs with
  | nil => exact pure rfl
  | cons c cs ih =>
    rw [List.mapM_cons,List.flatMap_cons]
    refine bind (hf c) fun a => ?_
    have hcons : ∀ as, Visits resolve ([] ++ refs a ++ as.flatMap refs)
        (Pure.pure (a :: as)) [] fun as => as.flatMap refs := fun as => pure (by simp)
    simpa using bind ih hcons

end Visits

end Walk

/-! A walk that takes out of the map what it resolves. -/

section Takes

variable {ε κ ν τ : Type} [DecidableEq κ] {resolve : κ → StateT (BiMap κ ν) (Except ε) τ}
  {f : κ → τ}

def Takes (resolve : κ → StateT (BiMap κ ν) (Except ε) τ) (f : κ → τ) : Prop :=
  ∀ k m t m', (resolve k).run m = .ok (t,m') → k ∈ m.lefts ∧ m' = m.erase k ∧ t = f k

theorem Takes.mapM (h : Takes resolve f) {names : List κ} {m m' : BiMap κ ν} {resolved : List τ}
    (hrun : (names.mapM resolve).run m = .ok (resolved,m')) :
    (∀ k ∈ names, k ∈ m.lefts) ∧ names.Nodup ∧ resolved = names.map f := by
  induction names generalizing m resolved with
  | nil =>
    cases hrun
    exact ⟨by simp,List.nodup_nil,rfl⟩
  | cons k names ih =>
    rw [List.mapM_cons] at hrun
    obtain ⟨t,m₁,hk,hrest⟩ := exists_of_run_bind hrun
    obtain ⟨resolved',m₂,hnames,hpure⟩ := exists_of_run_bind hrest
    cases hpure
    obtain ⟨hmem,rfl,rfl⟩ := h k m t m₁ hk
    obtain ⟨hin,hnodup,rfl⟩ := ih hnames
    have hne : ∀ k' ∈ names, k' ∈ m.lefts ∧ k' ≠ k :=
      fun k' hk' => m.mem_lefts_erase.mp (hin k' hk')
    refine ⟨?_,List.nodup_cons.mpr ⟨fun hself => (hne k hself).2 rfl,hnodup⟩,rfl⟩
    exact List.forall_mem_cons.mpr ⟨hmem,fun k' hk' => (hne k' hk').1⟩

/-- A walk refers to what its names are resolved to, and to no name twice. -/
theorem Visits.takes {α : Type} {x : StateT (BiMap κ ν) (Except ε) α} {names : List κ}
    {refs : α → List τ} (hx : Visits resolve [] x names refs) (h : Takes resolve f)
    {m m' : BiMap κ ν} {a : α} (hrun : x.run m = .ok (a,m')) :
    (∀ k ∈ names, k ∈ m.lefts) ∧ names.Nodup ∧ refs a = names.map f := by
  obtain ⟨resolved,hnames,hrefs⟩ := hx m a m' hrun
  obtain ⟨hin,hnodup,rfl⟩ := h.mapM hnames
  exact ⟨hin,hnodup,hrefs⟩

end Takes
end LinearUse
