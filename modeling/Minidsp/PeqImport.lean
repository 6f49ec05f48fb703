import Minidsp.Overlay
import Minidsp.XoverGroups

/-! The equalizer commands of the command line: a filter file goes into the equalizers of a
channel, one biquad after the other, and the equalizers it has none for are cleared. -/
namespace Minidsp

open Buffer Dialogue

inductive Printed
  | out (line : String)
  | err (line : String)
  deriving DecidableEq, Repr

namespace Peq

def sameCoefficients : Printed := .err
  "Warning: Setting the same coefficients on all PEQs, did you mean `peq [n] set` instead?"

def notImported : Printed := .err
  "Warning: Some filters were not imported because they didn't fit (try using `all`)"

def applied (i : ℕ) (biquad : Biquad) : Printed :=
  .out s!"PEQ {i}: Applied imported filter: biquad{biquad.index.getD 0}"

def cleared (i : ℕ) : Printed := .out s!"PEQ {i}: Cleared filter"

section
variable (dsp : MiniDSP) (floats : Floats) (fromStr : Line → Option F32Bits)

/-- An equalizer of the import, and its number; the lines that are left and what has been
printed are carried along. -/
def importPeq (state : List Line × List Printed) (peq : Addr × ℕ) :
    Call (List Line × List Printed) :=
  match (Lines.fromRewLines fromStr).run state.1 with
  | (some biquad,lines) => do
    dsp.setBiquad floats peq.1 biquad.toArray
    MiniDSP.setBiquadBypass peq.1 false
    return (lines,state.2 ++ [applied peq.2 biquad])
  | (none,lines) => do
    dsp.clearBiquad floats peq.1
    MiniDSP.setBiquadBypass peq.1 false
    return (lines,state.2 ++ [cleared peq.2])

/-- The commands on some equalizers return what they have printed. -/
def runPeq (peqs : List Addr) (cmd : FilterCommand) : Call (List Printed) :=
  match cmd with
  | .set coeff => do
    forM peqs fun peq => dsp.setBiquad floats peq coeff
    return if 1 < peqs.length then [sameCoefficients] else []
  | .bypass value => do
    forM peqs fun peq => MiniDSP.setBiquadBypass peq value
    return []
  | .clear => do
    forM peqs fun peq => do
      dsp.clearBiquad floats peq
      MiniDSP.setBiquadBypass peq false
    return []
  | .importFrom file => do
    let state ← peqs.zipIdx.foldlM (importPeq dsp floats fromStr) (Line.ofText file,[])
    return if ((Lines.fromRewLines fromStr).run state.1).1.isSome then state.2 ++ [notImported]
      else state.2

end

structure Memory where
  words : ℕ → Value
  bypassed : ℕ → Bool

namespace Memory

def load (m : Memory) (addr : Addr) (data : Vector Value 5) : Memory :=
  { m with words := Overlay.store m.words ⟨addr.val.toNat,data.toList⟩ }

def setBypass (m : Memory) (addr : Addr) (value : Bool) : Memory :=
  { m with bypassed := Function.update m.bypassed addr.val.toNat value }

def Holds (m : Memory) (addr : Addr) (data : Vector Value 5) : Prop :=
  ∀ j, (hj : j < 5) → m.words (addr.val.toNat + j) = data[j]

end Memory

structure Obeys {σ : Type} (dev : Dialogue.Device σ Commands Responses MiniDSPError)
    (memory : σ → Memory) : Prop where
  biquad : ∀ s addr data, (dev s (.writeBiquad addr data)).1 = .ok .ack →
    memory (dev s (.writeBiquad addr data)).2 = (memory s).load addr data
  bypass : ∀ s addr value, (dev s (.writeBiquadBypass addr value)).1 = .ok .ack →
    memory (dev s (.writeBiquadBypass addr value)).2 = (memory s).setBypass addr value

def Apart (a b : Addr) : Prop :=
  a.val.toNat + 5 ≤ b.val.toNat ∨ b.val.toNat + 5 ≤ a.val.toNat

/-- What the import of some biquads is to do, and to print. -/
structure Imported (dsp : MiniDSP) (floats : Floats) (peqs : List Addr) (biquads : List Biquad)
    (m m' : Memory) (printed : List Printed) : Prop where
  filled : ∀ (k : ℕ) peq b, peqs[k]? = some peq → biquads[k]? = some b →
    m'.Holds peq (Xover.words dsp floats b)
  cleared : ∀ (k : ℕ) peq, peqs[k]? = some peq → biquads.length ≤ k →
    m'.Holds peq (Xover.words dsp floats .default)
  enabled : ∀ peq ∈ peqs, m'.bypassed peq.val.toNat = false
  words_kept : ∀ i, (∀ peq ∈ peqs, ¬(peq.val.toNat ≤ i ∧ i < peq.val.toNat + 5)) →
    m'.words i = m.words i
  bypassed_kept : ∀ i, (∀ peq ∈ peqs, peq.val.toNat ≠ i) → m'.bypassed i = m.bypassed i
  warned_iff : notImported ∈ printed ↔ peqs.length < biquads.length

/-- The biquad of each equalizer: the next one of the file, or that which changes nothing. -/
def assigned : List Addr → List Biquad → List (Addr × Biquad)
  | [],_ => []
  | peq :: peqs,biquads => (peq,biquads.head?.getD .default) :: assigned peqs biquads.tail

section
variable {dsp : MiniDSP} {floats : Floats} {peqs : List Addr} {biquads : List Biquad}
variable {m : Memory} {k : ℕ} {peq : Addr}

theorem assigned_getElem? (h : peqs[k]? = some peq) :
    (assigned peqs biquads)[k]? = some (peq,biquads.getD k .default) := by
  induction peqs generalizing biquads k with
  | nil => cases h
  | cons p peqs ih =>
    cases k with
    | zero =>
      obtain rfl := Option.some.inj h
      cases biquads <;> rfl
    | succ k =>
      rw [List.getElem?_cons_succ] at h
      rw [assigned,List.getElem?_cons_succ,ih h]
      cases biquads <;> rfl

theorem map_fst_assigned (peqs : List Addr) (biquads : List Biquad) :
    (assigned peqs biquads).map Prod.fst = peqs := by
  induction peqs generalizing biquads with
  | nil => rfl
  | cons p peqs ih => exact congrArg (p :: ·) (ih _)

/-! What the biquads do to the memory. -/

def place (dsp : MiniDSP) (floats : Floats) (m : Memory) (x : Addr × Biquad) : Memory :=
  (m.load x.1 (Xover.words dsp floats x.2)).setBypass x.1 false

def write (dsp : MiniDSP) (floats : Floats) (x : Addr × Biquad) : Overlay.Write Value :=
  ⟨x.1.val.toNat,(Xover.words dsp floats x.2).toList⟩

theorem write_covers {x : Addr × Biquad} {i : ℕ} :
    (write dsp floats x).Covers i ↔ x.1.val.toNat ≤ i ∧ i < x.1.val.toNat + 5 := by
  rw [Overlay.Write.Covers,Overlay.Write.stop,write,Vector.length_toList]

theorem foldl_place_words (xs : List (Addr × Biquad)) (m : Memory) :
    (xs.foldl (place dsp floats) m).words =
      (xs.map (write dsp floats)).foldl Overlay.store m.words := by
  induction xs generalizing m with
  | nil => rfl
  | cons x xs ih => exact ih _

theorem foldl_place_bypassed (xs : List (Addr × Biquad)) (m : Memory) :
    (xs.foldl (place dsp floats) m).bypassed =
      xs.foldl (fun f x => Function.update f x.1.val.toNat false) m.bypassed := by
  induction xs generalizing m with
  | nil => rfl
  | cons x xs ih => exact ih _

theorem pairwise_disjoint {xs : List (Addr × Biquad)} (h : (xs.map Prod.fst).Pairwise Apart) :
    (xs.map (write dsp floats)).Pairwise Overlay.Write.Disjoint := by
  rw [List.pairwise_map] at h ⊢
  refine h.imp ?_
  intro x y hxy i hx hy
  rw [write_covers] at hx hy
  rcases hxy with hxy | hxy <;> omega

theorem foldl_place_holds {xs : List (Addr × Biquad)} (h : (xs.map Prod.fst).Pairwise Apart)
    {x : Addr × Biquad} (hx : x ∈ xs) :
    (xs.foldl (place dsp floats) m).Holds x.1 (Xover.words dsp floats x.2) := by
  intro j hj
  have hcovers : (write dsp floats x).Covers (x.1.val.toNat + j) := write_covers.mpr (by omega)
  have htop := Overlay.top?_of_disjoint (pairwise_disjoint h) (List.mem_map_of_mem hx) hcovers
  have hword := Overlay.foldl_store_of_top? (m := m.words) htop
  rw [foldl_place_words]
  refine Option.some.inj (hword.trans ?_)
  simp [write,hj]

theorem assigned_holds (hpeqs : peqs.Pairwise Apart) (hk : peqs[k]? = some peq) :
    ((assigned peqs biquads).foldl (place dsp floats) m).Holds peq
      (Xover.words dsp floats (biquads.getD k .default)) := by
  have hpairwise : ((assigned peqs biquads).map Prod.fst).Pairwise Apart := by
    rwa [map_fst_assigned]
  exact foldl_place_holds hpairwise (List.mem_of_getElem? (assigned_getElem? hk))

theorem foldl_place_enabled (xs : List (Addr × Biquad)) {addr : ℕ}
    (h : ∃ peq ∈ xs.map Prod.fst, peq.val.toNat = addr) :
    (xs.foldl (place dsp floats) m).bypassed addr = false := by
  obtain ⟨peq,hpeq,haddr⟩ := h
  obtain ⟨x,hx,rfl⟩ := List.mem_map.mp hpeq
  rw [foldl_place_bypassed,Overlay.foldl_update]
  have hmem : x ∈ xs.filter fun x => x.1.val.toNat = addr :=
    List.mem_filter.mpr ⟨hx,by simpa using haddr⟩
  obtain ⟨y,hy⟩ := Option.ne_none_iff_exists'.mp
    (List.getLast?_eq_none_iff.not.mpr (List.ne_nil_of_mem hmem))
  rw [hy]
  rfl

theorem foldl_place_bypassed_kept {xs : List (Addr × Biquad)} {addr : ℕ}
    (h : ∀ peq ∈ xs.map Prod.fst, peq.val.toNat ≠ addr) :
    (xs.foldl (place dsp floats) m).bypassed addr = m.bypassed addr := by
  rw [foldl_place_bypassed,Overlay.foldl_update,List.filter_eq_nil_iff.mpr]
  · rfl
  · intro x hx
    simpa using h x.1 (List.mem_map_of_mem hx)

theorem foldl_place_words_kept {xs : List (Addr × Biquad)} {i : ℕ}
    (h : ∀ peq ∈ xs.map Prod.fst, ¬(peq.val.toNat ≤ i ∧ i < peq.val.toNat + 5)) :
    (xs.foldl (place dsp floats) m).words i = m.words i := by
  rw [foldl_place_words]
  refine Overlay.foldl_store_of_gap fun w hw hcovers => ?_
  obtain ⟨x,hx,rfl⟩ := List.mem_map.mp hw
  exact h x.1 (List.mem_map_of_mem hx) (write_covers.mp hcovers)

end

/-! The calls do that to a device. -/

section
variable {σ : Type} {dev : Dialogue.Device σ Commands Responses MiniDSPError}
variable {memory : σ → Memory} {dsp : MiniDSP} {floats : Floats}
variable {fromStr : Line → Option F32Bits} {s t : σ} {peqs : List Addr} {biquads : List Biquad}
variable {lines rest : List Line} {printed printed' : List Printed}

theorem importPeq_eq (state : List Line × List Printed) (peq : Addr × ℕ) {read : Option Biquad}
    (hread : (Lines.fromRewLines fromStr).run state.1 = (read,rest)) :
    importPeq dsp floats fromStr state peq = (do
      acknowledged (.writeBiquad peq.1 (Xover.words dsp floats (read.getD .default)))
      acknowledged (.writeBiquadBypass peq.1 false)
      return (rest,state.2 ++ [read.elim (cleared peq.2) (applied peq.2)])) := by
  rw [importPeq,hread]
  cases read <;> rfl

theorem importPeq_run (hdev : Obeys dev memory) (hlines : Lines.Hold fromStr lines biquads)
    {peq : Addr × ℕ} (h : run dev (importPeq dsp floats fromStr (lines,printed) peq) s =
      (.ok (rest,printed'),t)) :
    Lines.Hold fromStr rest biquads.tail ∧
      memory t = place dsp floats (memory s) (peq.1,biquads.head?.getD .default) ∧
      (notImported ∈ printed' → notImported ∈ printed) := by
  obtain ⟨rest',hread,hrest⟩ := Lines.fromRewLines_run hlines
  rw [importPeq_eq _ _ hread] at h
  obtain ⟨_,u,hwrite,h⟩ := run_bind_eq_ok.mp h
  obtain ⟨_,v,hbypass,h⟩ := run_bind_eq_ok.mp h
  obtain ⟨hstate,rfl⟩ := Prod.mk.inj h
  obtain ⟨rfl,rfl⟩ := Prod.mk.inj (Outcome.ok.inj hstate)
  obtain ⟨hack,rfl⟩ := acknowledged_run hwrite
  obtain ⟨hack',rfl⟩ := acknowledged_run hbypass
  refine ⟨hrest,?_,fun hmem => ?_⟩
  · rw [hdev.bypass _ _ _ hack',hdev.biquad _ _ _ hack]
    rfl
  · rcases List.mem_append.mp hmem with hmem | hmem
    · exact hmem
    · cases biquads <;> cases List.mem_singleton.mp hmem

/-- The equalizers are visited one after the other, and each takes its biquad. -/
theorem importPeqs_run (hdev : Obeys dev memory) (hlines : Lines.Hold fromStr lines biquads)
    {i : ℕ} (h : run dev ((peqs.zipIdx i).foldlM (importPeq dsp floats fromStr) (lines,printed)) s =
      (.ok (rest,printed'),t)) :
    Lines.Hold fromStr rest (biquads.drop peqs.length) ∧
      memory t = (assigned peqs biquads).foldl (place dsp floats) (memory s) ∧
      (notImported ∈ printed' → notImported ∈ printed) := by
  induction peqs generalizing lines biquads printed i s with
  | nil =>
    obtain ⟨hstate,rfl⟩ := Prod.mk.inj h
    obtain ⟨rfl,rfl⟩ := Prod.mk.inj (Outcome.ok.inj hstate)
    exact ⟨hlines,rfl,id⟩
  | cons peq peqs ih =>
    rw [List.zipIdx_cons,List.foldlM_cons] at h
    obtain ⟨⟨rest',_⟩,u,hpeq,h⟩ := run_bind_eq_ok.mp h
    obtain ⟨hrest,hmemory,hprinted⟩ := importPeq_run hdev hlines hpeq
    obtain ⟨hrest,hmemory',hprinted'⟩ := ih hrest h
    refine ⟨?_,?_,hprinted ∘ hprinted'⟩
    · rwa [List.drop_tail] at hrest
    · rw [hmemory',hmemory]
      rfl

/-- The last look at the file finds a biquad exactly if some are left. -/
theorem notImported_mem_iff (hlines : Lines.Hold fromStr lines biquads)
    (hprinted : notImported ∉ printed) :
    (notImported ∈ if ((Lines.fromRewLines fromStr).run lines).1.isSome then
        printed ++ [notImported] else printed) ↔ biquads ≠ [] := by
  obtain ⟨rest,hread,-⟩ := Lines.fromRewLines_run hlines
  rw [hread]
  cases biquads with
  | nil => simpa using hprinted
  | cons b biquads => simp

/-- A device that acknowledges everything lets every import succeed. -/
theorem import_succeeds (hdev : ∀ s q, (dev s q).1 = .ok .ack) (peqs : List Addr)
    (file : List Char) (s : σ) : ∃ printed t,
      run dev (runPeq dsp floats fromStr peqs (.importFrom file)) s = (.ok printed,t) := by
  have hloop : ∀ (xs : List (Addr × ℕ)) state s, ∃ state' t,
      run dev (xs.foldlM (importPeq dsp floats fromStr) state) s = (.ok state',t) := by
    intro xs
    induction xs with
    | nil => exact fun state s => ⟨state,s,rfl⟩
    | cons peq xs ih =>
      intro state s
      rw [List.foldlM_cons,importPeq_eq state peq rfl,bind_assoc,
        run_bind_ok (acknowledged_ok (hdev _ _)),bind_assoc,
        run_bind_ok (acknowledged_ok (hdev _ _)),pure_bind]
      exact ih _ _
  obtain ⟨state,t,hrun⟩ := hloop peqs.zipIdx (Line.ofText file,[]) s
  exact ⟨_,t,run_bind_ok hrun⟩

/-- A successful import fills the equalizers in the order of the file, clears those that are
left, and warns of the biquads that are. -/
theorem import_correct (hdev : Obeys dev memory) {file : List Char}
    (hfile : Lines.Hold fromStr (Line.ofText file) biquads) (hpeqs : peqs.Pairwise Apart)
    (h : run dev (runPeq dsp floats fromStr peqs (.importFrom file)) s = (.ok printed,t)) :
    Imported dsp floats peqs biquads (memory s) (memory t) printed := by
  obtain ⟨⟨lines,before⟩,u,hloop,h⟩ := run_bind_eq_ok.mp h
  obtain ⟨hlines,hmemory,hbefore⟩ := importPeqs_run hdev hfile hloop
  obtain ⟨hprinted,rfl⟩ := Prod.mk.inj h
  have hfst := map_fst_assigned peqs biquads
  rw [hmemory]
  refine ⟨fun k peq b hk hb => ?_,fun k peq hk hle => ?_,fun peq hpeq => ?_,fun i hi => ?_,
    fun i hi => ?_,?_⟩
  · have hget : biquads.getD k .default = b := by
      rw [List.getD_eq_getElem?_getD,hb]
      rfl
    rw [← hget]
    exact assigned_holds hpeqs hk
  · have hget : biquads.getD k .default = .default := List.getD_eq_default _ _ hle
    rw [← hget]
    exact assigned_holds hpeqs hk
  · exact foldl_place_enabled _ ⟨peq,by rwa [hfst],rfl⟩
  · exact foldl_place_words_kept (by rwa [hfst])
  · exact foldl_place_bypassed_kept (by rwa [hfst])
  · have hnone : notImported ∉ before := fun hmem => List.not_mem_nil (hbefore hmem)
    obtain rfl := Outcome.ok.inj hprinted
    refine (notImported_mem_iff hlines hnone).trans ?_
    rw [Ne,List.drop_eq_nil_iff,Nat.not_le]

end

/-! A file of one filter, for two equalizers. -/

def Memory.answer : Dialogue.Device Memory Commands Responses MiniDSPError := fun m q =>
  match q with
  | .writeBiquad addr data => (.ok .ack,m.load addr data)
  | .writeBiquadBypass addr value => (.ok .ack,m.setBypass addr value)
  | _ => (.ok .ack,m)

theorem Memory.answer_ack (m : Memory) (q : Commands) : (m.answer q).1 = .ok .ack := by
  cases q <;> rfl

theorem Memory.answer_obeys : Obeys Memory.answer id := ⟨fun _ _ _ _ => rfl,fun _ _ _ _ => rfl⟩

def twoPeqs : List Addr := [Xover.plainDsp.addr 0x100,Xover.plainDsp.addr 0x105]

theorem twoPeqs_apart : twoPeqs.Pairwise Apart := by
  rw [twoPeqs,List.pairwise_pair]
  exact .inl (by decide)

def untouched : Memory := ⟨fun _ => .int 7,fun _ => true⟩

theorem import_correct_one_of_two : ∃ printed m',
    run Memory.answer (runPeq Xover.plainDsp Xover.noFloats Xover.twoOrZero twoPeqs
      (.importFrom Xover.oneFilter)) untouched = (.ok printed,m') ∧
    Imported Xover.plainDsp Xover.noFloats twoPeqs [Xover.filter2] untouched m' printed := by
  obtain ⟨printed,m',hrun⟩ := import_succeeds Memory.answer_ack twoPeqs Xover.oneFilter untouched
  exact ⟨printed,m',hrun,
    import_correct Memory.answer_obeys Xover.oneFilter_hold twoPeqs_apart hrun⟩

end Peq
end Minidsp
