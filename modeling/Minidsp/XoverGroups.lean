import Minidsp.Xover

/-! What the calls on a crossover are allowed to reach: a group is four biquads, and its calls
are to stay in it. Two of the three look at the number of the group before they use it. -/
namespace Minidsp

open Buffer Dialogue

def acknowledged (q : Commands) : Call Unit := do
  Client.expect (← .roundtrip q).intoAck

abbrev NoPanic {α : Type} (p : Call α) : Prop := Safe (fun _ _ => True) (fun _ => True) p

section
variable {α β : Type}

theorem acknowledged_noPanic (q : Commands) : NoPanic (acknowledged q) := by
  refine (Safe.roundtrip q).bind fun r _ => ?_
  cases r <;> trivial

theorem acknowledged_asks {P : Commands → Prop} {q : Commands} (h : P q) :
    Asks P (acknowledged q) := (Asks.roundtrip h).bind fun _ => Asks.lift _

theorem acknowledged_ne_fail (q : Commands) (e : MiniDSPError) : acknowledged q ≠ .fail e := nofun

variable {σ : Type} {dev : Dialogue.Device σ Commands Responses MiniDSPError} {s t : σ}
variable {q : Commands}

theorem acknowledged_ok (h : (dev s q).1 = .ok .ack) :
    run dev (acknowledged q) s = (.ok (),(dev s q).2) :=
  run_bind_ok ((Gives.roundtrip (Prod.ext h rfl)).run)

theorem acknowledged_run {x : Unit} (h : run dev (acknowledged q) s = (.ok x,t)) :
    (dev s q).1 = .ok .ack ∧ t = (dev s q).2 := by
  obtain ⟨r,u,hask,hack⟩ := run_bind_eq_ok.mp h
  cases hr : (dev s q).1 with
  | error e =>
    rw [roundtrip,run,hr] at hask
    cases hask
  | ok r' =>
    rw [roundtrip,run,hr] at hask
    obtain ⟨hr',rfl⟩ := Prod.mk.inj hask
    obtain rfl := Outcome.ok.inj hr'
    obtain ⟨hok,rfl⟩ := run_lift_eq_ok hack
    cases r' with
    | ack => exact ⟨rfl,rfl⟩
    | _ => cases hok

end

namespace Xover

def InGroup (dsp : MiniDSP) (start : UInt16) (q : Commands) : Prop :=
  ∃ addr : UInt16, start.toNat ≤ addr.toNat ∧ addr.toNat < start.toNat + 20 ∧
    ((∃ data, q = .writeBiquad (dsp.addr addr) data) ∨
      ∃ value, q = .writeBiquadBypass (dsp.addr addr) value)

/-- A call on a group: it is refused with `OutOfRange`, and nothing is sent, exactly when there
is not what it is on; it sends nothing to other addresses, and never panics. -/
structure StaysIn (dsp : MiniDSP) (start : UInt16) (there : Prop) (p : Call Unit) : Prop where
  refused_iff : p = .fail .outOfRange ↔ ¬there
  inGroup : Asks (InGroup dsp start) p
  noPanic : NoPanic p

section
variable {dsp : MiniDSP} {floats : Floats} {spec : Device.Crossover} {g i : ℕ}
variable {start : UInt16} {there : Prop}

theorem StaysIn.refused (h : ¬there) : StaysIn dsp start there (.fail .outOfRange) :=
  ⟨iff_of_true rfl h,trivial,trivial⟩

theorem StaysIn.command {q : Commands} (h : there) (hq : InGroup dsp start q) :
    StaysIn dsp start there (acknowledged q) :=
  ⟨iff_of_false (acknowledged_ne_fail q _) (not_not_intro h),acknowledged_asks hq,
    acknowledged_noPanic q⟩

theorem setBiquad_eq (dsp : MiniDSP) (floats : Floats) {coefficients : List F32Bits}
    (h : coefficients.length = 5) (filter : Addr) :
    ∃ data, dsp.setBiquad floats filter coefficients =
      acknowledged (.writeBiquad filter data) := by
  match coefficients, h with
  | [b0,b1,b2,a1,a2],_ => exact ⟨_,rfl⟩

theorem slot_inGroup (dsp : MiniDSP) (hg : g < Crossover.numGroups spec) (hi : i < 4)
    (hfit : spec.peqs[g].toNat + 5*i < 65536) : ∃ addr : UInt16,
      slot dsp spec g i = dsp.addr addr ∧ (spec.peqs.getD g 0).toNat ≤ addr.toNat ∧
      addr.toNat < (spec.peqs.getD g 0).toNat + 20 := by
  refine ⟨_,rfl,?_⟩
  rw [peqs_getD hg,UInt16.toNat_ofNat',Nat.mod_eq_of_lt hfit]
  omega

theorem setCoefficients_staysIn (hspec : ∀ start ∈ spec.peqs, start.toNat ≤ 65515)
    {coefficients : List F32Bits} (h : coefficients.length = 5) (g i : ℕ) :
    StaysIn dsp (spec.peqs.getD g 0) (g < Crossover.numGroups spec ∧ i < 4)
      (Crossover.setCoefficients dsp floats spec g i coefficients) := by
  by_cases hslot : g < Crossover.numGroups spec ∧ i < 4
  · obtain ⟨hg,hi⟩ := hslot
    have hstart := hspec _ (List.getElem_mem hg)
    have hfit : spec.peqs[g].toNat + 5*i < 65536 := by omega
    obtain ⟨addr,haddr,hlo,hhi⟩ := slot_inGroup dsp hg hi hfit
    obtain ⟨data,hdata⟩ := setBiquad_eq dsp floats h (slot dsp spec g i)
    rw [setCoefficients_eq hg hi hfit,hdata]
    have hslot := And.intro hg hi
    exact .command hslot ⟨addr,hlo,hhi,.inl ⟨data,by rw [haddr]⟩⟩
  · rw [setCoefficients_outOfRange hslot]
    exact .refused hslot

theorem setBypass_staysIn (g : ℕ) (bypass : Bool) :
    StaysIn dsp (spec.peqs.getD g 0) (g < Crossover.numGroups spec)
      (Crossover.setBypass dsp spec g bypass) := by
  by_cases hg : g < Crossover.numGroups spec
  · have hfit : spec.peqs[g].toNat + 5*0 < 65536 := spec.peqs[g].toNat_lt
    obtain ⟨addr,haddr,hlo,hhi⟩ := slot_inGroup dsp hg (by decide) hfit
    rw [setBypass_eq hg,haddr]
    exact .command hg ⟨addr,hlo,hhi,.inr ⟨bypass,rfl⟩⟩
  · rw [setBypass_outOfRange hg]
    exact .refused hg

/-- The one call that does not look at the number of the group. -/
theorem clear_staysIn_iff (hspec : ∀ start ∈ spec.peqs, start.toNat ≤ 65515) (g : ℕ) :
    StaysIn dsp (spec.peqs.getD g 0) (g < Crossover.numGroups spec)
      (Crossover.clear dsp floats spec g) ↔ g < Crossover.numGroups spec := by
  constructor
  · intro h
    by_contra hg
    have hpanic := h.noPanic
    rw [clear_missing hg] at hpanic
    exact hpanic
  · intro hg
    have hstart := hspec _ (List.getElem_mem hg)
    have hcommand : ∀ i ∈ List.range 4, ∃ q, InGroup dsp (spec.peqs.getD g 0) q ∧
        dsp.clearBiquad floats (slot dsp spec g i) = acknowledged q := by
      intro i hi
      have hi' : i < 4 := List.mem_range.mp hi
      obtain ⟨addr,haddr,hlo,hhi⟩ := slot_inGroup dsp hg hi' (by omega)
      obtain ⟨data,hdata⟩ := setBiquad_eq dsp floats
        (show MiniDSP.identityBiquad.length = 5 from rfl) (slot dsp spec g i)
      exact ⟨_,⟨addr,hlo,hhi,.inl ⟨data,by rw [haddr]⟩⟩,hdata⟩
    rw [clear_eq hg (by omega)]
    refine ⟨iff_of_false nofun (not_not_intro hg),Asks.forEach fun i hi => ?_,
      Safe.forEach fun i hi => ?_⟩
    · obtain ⟨q,hq,heq⟩ := hcommand i hi
      rw [heq]
      exact acknowledged_asks hq
    · obtain ⟨q,-,heq⟩ := hcommand i hi
      rw [heq]
      exact acknowledged_noPanic q

theorem clear_noPanic (hspec : ∀ start ∈ spec.peqs, start.toNat ≤ 65515)
    (hg : g < Crossover.numGroups spec) : NoPanic (Crossover.clear dsp floats spec g) :=
  ((clear_staysIn_iff hspec g).mpr hg).noPanic

end

/-! The command line asks for two groups, whatever the device has. -/

section
variable {dsp : MiniDSP} {floats : Floats} {spec : Device.Crossover} {g i : ℕ}
variable {fromStr : Line → Option F32Bits} {lines : List Line} {biquads : List Biquad}
variable {index : PEQTarget} {indices : List ℕ}

theorem importGroup_eq (hindex : index.intoRange Crossover.numFilterPerGroup = .ok indices)
    (lines : List Line) (g : ℕ) : importGroup dsp floats spec fromStr index lines g =
      indices.foldlM (importSlot dsp floats spec fromStr g) lines >>= fun lines =>
        Crossover.setBypass dsp spec g false >>= fun _ => pure lines :=
  lift_ok_bind hindex _

/-- A first slot that is not there is the last one, if there is a biquad for it. -/
theorem importGroup_missing
    (hindex : index.intoRange Crossover.numFilterPerGroup = .ok (i :: indices))
    (hslot : ¬(g < Crossover.numGroups spec ∧ i < 4)) {b : Biquad}
    (h : Lines.Hold fromStr lines (b :: biquads)) :
    Safe (fun _ _ => True) (fun _ => False)
      (importGroup dsp floats spec fromStr index lines g) := by
  obtain ⟨rest,hread,-⟩ := Lines.fromRewLines_cons h
  have hfail : importSlot dsp floats spec fromStr g lines i = .fail .outOfRange := by
    simp only [importSlot,hread,setCoefficients_outOfRange hslot]
    rfl
  rw [importGroup_eq hindex,List.foldlM_cons,hfail]
  trivial

theorem importGroup_panics
    (hindex : index.intoRange Crossover.numFilterPerGroup = .ok (i :: indices))
    (hg : ¬g < Crossover.numGroups spec) (h : Lines.Hold fromStr lines []) {α : Type}
    (f : List Line → Call α) :
    ¬NoPanic (importGroup dsp floats spec fromStr index lines g >>= f) := by
  obtain ⟨rest,hread,-⟩ := Lines.fromRewLines_nil h
  have hslot : importSlot dsp floats spec fromStr g lines i =
      .lift (.error (.panic (.index g spec.peqs.length))) := by
    simp only [importSlot,hread,clear_missing hg]
    rfl
  rw [importGroup_eq hindex,List.foldlM_cons,hslot]
  exact id

variable (hspec : ∀ start ∈ spec.peqs, start.toNat ≤ 65515)
include hspec

theorem runXover_clear_noPanic_iff (index : PEQTarget) :
    NoPanic (runXover dsp floats spec fromStr .clear .all index) ↔
      2 ≤ Crossover.numGroups spec := by
  constructor
  · intro h
    by_contra hfew
    change NoPanic (Crossover.clear dsp floats spec 0 >>= fun _ =>
      Crossover.clear dsp floats spec 1 >>= fun _ => (pure () : Call Unit)) at h
    by_cases hone : 0 < Crossover.numGroups spec
    · have hstart := hspec _ (List.getElem_mem hone)
      have hclear : Crossover.clear dsp floats spec 0 = _ := clear_eq hone (by omega)
      have hnext := Safe.of_bind h (congrArg (run Store.answer · cleared) hclear)
        fun _ _ _ _ => trivial
      rw [clear_missing (by omega)] at hnext
      exact hnext
    · rw [clear_missing hone] at h
      exact h
  · intro htwo
    refine Safe.forEach fun g hg => clear_noPanic hspec ?_
    exact (List.mem_range.mp hg).trans_le htwo

theorem importSlot_hold {b : Biquad} (h : Lines.Hold fromStr lines (b :: biquads)) (g i : ℕ) :
    Safe (fun _ _ => True) (fun lines => Lines.Hold fromStr lines biquads)
      (importSlot dsp floats spec fromStr g lines i) := by
  obtain ⟨rest,hread,hrest⟩ := Lines.fromRewLines_cons h
  simp only [importSlot,hread]
  exact (setCoefficients_staysIn hspec rfl g i).noPanic.bind fun _ _ => hrest

theorem importSlots_hold (indices : List ℕ) (hlen : indices.length ≤ biquads.length)
    (h : Lines.Hold fromStr lines biquads) (g : ℕ) :
    Safe (fun _ _ => True) (fun lines => Lines.Hold fromStr lines (biquads.drop indices.length))
      (indices.foldlM (importSlot dsp floats spec fromStr g) lines) := by
  induction indices generalizing lines biquads with
  | nil => exact h
  | cons i indices ih =>
    cases biquads with
    | nil => simp at hlen
    | cons b biquads =>
      rw [List.foldlM_cons]
      exact (importSlot_hold hspec h g i).bind fun _ hrest =>
        ih (Nat.le_of_succ_le_succ hlen) hrest

theorem importGroup_hold (hindex : index.intoRange Crossover.numFilterPerGroup = .ok indices)
    (hlen : indices.length ≤ biquads.length) (h : Lines.Hold fromStr lines biquads) (g : ℕ) :
    Safe (fun _ _ => True) (fun lines => Lines.Hold fromStr lines (biquads.drop indices.length))
      (importGroup dsp floats spec fromStr index lines g) := by
  rw [importGroup_eq hindex]
  exact (importSlots_hold hspec indices hlen h g).bind fun _ hrest =>
    (setBypass_staysIn g false).noPanic.bind fun _ _ => hrest

theorem importGroup_noPanic (hindex : index.intoRange Crossover.numFilterPerGroup = .ok indices)
    (hg : g < Crossover.numGroups spec) (lines : List Line) :
    NoPanic (importGroup dsp floats spec fromStr index lines g) := by
  have hslots : NoPanic (indices.foldlM (importSlot dsp floats spec fromStr g) lines) := by
    refine Safe.foldlM trivial fun i _ lines _ => ?_
    unfold importSlot
    split
    · exact (setCoefficients_staysIn hspec rfl g i).noPanic.bind fun _ _ => trivial
    · exact (clear_noPanic hspec hg).bind fun _ _ => trivial
  rw [importGroup_eq hindex]
  exact hslots.bind fun _ _ => (setBypass_staysIn g false).noPanic.bind fun _ _ => trivial

theorem importSlot_ok (dsp : MiniDSP) (floats : Floats) (hg : g < Crossover.numGroups spec)
    (hi : biquads ≠ [] → i < 4) (h : Lines.Hold fromStr lines biquads) (s : Store) :
    ∃ rest t, run Store.answer (importSlot dsp floats spec fromStr g lines i) s = (.ok rest,t) ∧
      Lines.Hold fromStr rest (biquads.drop 1) := by
  have hstart := hspec _ (List.getElem_mem hg)
  cases biquads with
  | nil =>
    obtain ⟨rest,hread,hrest⟩ := Lines.fromRewLines_nil h
    simp only [importSlot,hread,clear_eq hg (show spec.peqs[g].toNat + 5*4 < 65536 by omega)]
    exact ⟨rest,_,rfl,hrest⟩
  | cons b biquads =>
    have hi' : i < 4 := hi (List.cons_ne_nil b biquads)
    obtain ⟨rest,hread,hrest⟩ := Lines.fromRewLines_cons h
    simp only [importSlot,hread,
      setCoefficients_eq hg hi' (show spec.peqs[g].toNat + 5*i < 65536 by omega)]
    exact ⟨rest,_,rfl,hrest⟩

theorem importSlots_ok (dsp : MiniDSP) (floats : Floats) (hg : g < Crossover.numGroups spec)
    (hi : ∀ i ∈ indices, biquads ≠ [] → i < 4) (h : Lines.Hold fromStr lines biquads)
    (s : Store) : ∃ rest t,
      run Store.answer (indices.foldlM (importSlot dsp floats spec fromStr g) lines) s =
        (.ok rest,t) ∧ Lines.Hold fromStr rest (biquads.drop indices.length) := by
  induction indices generalizing lines biquads s with
  | nil => exact ⟨lines,s,rfl,h⟩
  | cons i indices ih =>
    obtain ⟨rest,t,hslot,hrest⟩ := importSlot_ok hspec dsp floats hg (hi i (by simp)) h s
    have hi' : ∀ j ∈ indices, biquads.drop 1 ≠ [] → j < 4 := by
      intro j hj hne
      refine hi j (by simp [hj]) ?_
      rintro rfl
      exact hne rfl
    obtain ⟨left,u,hslots,hleft⟩ := ih hi' hrest t
    rw [List.drop_drop,Nat.add_comm] at hleft
    rw [List.foldlM_cons]
    exact ⟨left,u,(run_bind_ok hslot).trans hslots,hleft⟩

theorem importGroup_ok (dsp : MiniDSP) (floats : Floats)
    (hindex : index.intoRange Crossover.numFilterPerGroup = .ok indices)
    (hg : g < Crossover.numGroups spec) (hi : ∀ i ∈ indices, biquads ≠ [] → i < 4)
    (h : Lines.Hold fromStr lines biquads) (s : Store) :
    ∃ rest t, run Store.answer (importGroup dsp floats spec fromStr index lines g) s =
      (.ok rest,t) ∧ Lines.Hold fromStr rest (biquads.drop indices.length) := by
  obtain ⟨rest,t,hslots,hrest⟩ := importSlots_ok hspec dsp floats hg hi h s
  refine ⟨rest,{ t with bypassed := Function.update t.bypassed (slot dsp spec g 0) false },?_,hrest⟩
  rw [importGroup_eq hindex,run_bind_ok hslots,setBypass_eq hg]
  rfl

def slotsThere (indices : List ℕ) : ℕ := indices.countP (· < 4)

omit hspec in
theorem slotsThere_cases (hindex : index.intoRange Crossover.numFilterPerGroup = .ok indices) :
    ∃ i rest, indices = i :: rest ∧
      ((∀ j ∈ indices, j < 4) ∧ slotsThere indices = indices.length ∨
        ¬i < 4 ∧ slotsThere indices = 0) := by
  cases index with
  | all =>
    obtain rfl := Except.ok.inj hindex
    exact ⟨0,[1,2,3],rfl,.inl ⟨fun j hj => List.mem_range.mp hj,rfl⟩⟩
  | one n =>
    obtain rfl := PEQTarget.intoRange_eq hindex
    refine ⟨n,[],rfl,?_⟩
    by_cases hn : n < 4
    · exact .inl ⟨by simpa [PEQTarget.range] using hn,by simp [slotsThere,PEQTarget.range,hn]⟩
    · exact .inr ⟨hn,by simp [slotsThere,PEQTarget.range,hn]⟩

/-- The import of a file for both groups ends in a panic unless there are both, or the biquads
run out only behind those that are there. -/
theorem runXover_import_noPanic_iff {file : List Char}
    (hindex : index.intoRange Crossover.numFilterPerGroup = .ok indices)
    (h : Lines.Hold fromStr (Line.ofText file) biquads) :
    NoPanic (runXover dsp floats spec fromStr (.importFrom file) .all index) ↔
      2 ≤ Crossover.numGroups spec ∨
        slotsThere indices * Crossover.numGroups spec < biquads.length := by
  obtain ⟨i,tail,rfl,hslots⟩ := slotsThere_cases hindex
  change NoPanic (List.foldlM (importGroup dsp floats spec fromStr index) (Line.ofText file) [0,1]
    >>= fun _ => pure ()) ↔ _
  simp only [List.foldlM_cons,List.foldlM_nil,bind_assoc]
  by_cases hone : 0 < Crossover.numGroups spec
  · by_cases htwo : 1 < Crossover.numGroups spec
    · refine iff_of_true ?_ (.inl htwo)
      refine (importGroup_noPanic hspec hindex hone _).bind fun _ _ => ?_
      exact (importGroup_noPanic hspec hindex htwo _).bind fun _ _ => trivial
    · have hgroups : Crossover.numGroups spec = 1 := by omega
      rw [hgroups,Nat.mul_one]
      constructor
      · intro hsafe
        by_contra hfew
        have hfew' : biquads.length ≤ slotsThere (i :: tail) := by omega
        have hi : ∀ j ∈ i :: tail, biquads ≠ [] → j < 4 := by
          intro j hj hne
          rcases hslots with ⟨hall,-⟩ | ⟨-,hnone⟩
          · exact hall j hj
          · exact absurd (List.eq_nil_of_length_eq_zero (by omega)) hne
        have hlen : slotsThere (i :: tail) ≤ (i :: tail).length := List.countP_le_length
        obtain ⟨rest,t,hrun,hrest⟩ := importGroup_ok hspec dsp floats hindex hone hi h cleared
        rw [List.drop_eq_nil_of_le (by omega)] at hrest
        have hnext := Safe.of_bind hsafe hrun fun _ _ _ _ => trivial
        exact importGroup_panics hindex htwo hrest _ hnext
      · intro hmany
        have hmany' : slotsThere (i :: tail) < biquads.length := by omega
        rcases hslots with ⟨-,hall⟩ | ⟨hi,hnone⟩
        · rw [hall] at hmany'
          refine (importGroup_hold hspec hindex hmany'.le h 0).bind fun lines hlines => ?_
          rw [List.drop_eq_getElem_cons hmany'] at hlines
          exact (importGroup_missing hindex (fun hslot => htwo hslot.1) hlines).bind
            fun _ hfalse => hfalse.elim
        · -- the first biquad is refused
          obtain ⟨b,rest,rfl⟩ := List.exists_cons_of_length_pos (Nat.zero_lt_of_lt hmany')
          exact (importGroup_missing hindex (fun hslot => hi hslot.2) h).bind
            fun _ hfalse => hfalse.elim
  · have hgroups : Crossover.numGroups spec = 0 := by omega
    rw [hgroups,Nat.mul_zero]
    cases biquads with
    | nil =>
      refine iff_of_false (importGroup_panics hindex hone h _) ?_
      simp
    | cons b biquads =>
      refine iff_of_true ?_ (.inr (Nat.succ_pos _))
      exact (importGroup_missing hindex (fun hslot => hone hslot.1) h).bind
        fun _ hfalse => hfalse.elim

omit hspec in
theorem runXover_import_overflow (hindex : ¬index.Below) (file : List Char) :
    ¬NoPanic (runXover dsp floats spec fromStr (.importFrom file) .all index) := by
  obtain ⟨x,hx⟩ := PEQTarget.intoRange_overflow hindex Crossover.numFilterPerGroup
  change ¬NoPanic (List.foldlM (importGroup dsp floats spec fromStr index) (Line.ofText file) [0,1]
    >>= fun _ => pure ())
  have hgroup : importGroup dsp floats spec fromStr index (Line.ofText file) 0 =
      .lift (.error (.panic x)) := by
    rw [importGroup,hx]
    rfl
  rw [List.foldlM_cons,hgroup]
  exact id

theorem runXover_set_noPanic_iff {coefficients : List F32Bits} (h : coefficients.length = 5)
    (index : PEQTarget) :
    NoPanic (runXover dsp floats spec fromStr (.set coefficients) .all index) ↔ index.Below := by
  by_cases hindex : index.Below
  · refine iff_of_true (Safe.forEach fun g _ => ?_) hindex
    rw [PEQTarget.intoRange_below hindex]
    exact Safe.forEach fun i _ => (setCoefficients_staysIn hspec h g i).noPanic
  · refine iff_of_false ?_ hindex
    obtain ⟨x,hx⟩ := PEQTarget.intoRange_overflow hindex Crossover.numFilterPerGroup
    change ¬NoPanic (forM (List.range 2) fun g =>
      Dialogue.lift (index.intoRange Crossover.numFilterPerGroup) >>= fun l =>
        forM l fun i => Crossover.setCoefficients dsp floats spec g i coefficients)
    rw [hx]
    exact id

omit hspec in
theorem runXover_bypass_noPanic (value : Bool) (index : PEQTarget) :
    NoPanic (runXover dsp floats spec fromStr (.bypass value) .all index) :=
  Safe.forEach fun g _ => (setBypass_staysIn g value).noPanic

end

/-- Coefficients and bypass are only set in a group that is there, and clearing is safe for these
groups alone; so the command line may clear both groups of a device that has them, and import
into them, or as long as the biquads do not run out. -/
theorem staysIn_iff (dsp : MiniDSP) (floats : Floats) (fromStr : Line → Option F32Bits)
    (spec : Device.Crossover) (hspec : ∀ start ∈ spec.peqs, start.toNat ≤ 65515) (g i : ℕ)
    (coefficients : List F32Bits) (h : coefficients.length = 5) (bypass : Bool) :
    ((StaysIn dsp (spec.peqs.getD g 0) (g < Crossover.numGroups spec)
        (Crossover.clear dsp floats spec g) ↔ g < Crossover.numGroups spec) ∧
      StaysIn dsp (spec.peqs.getD g 0)
        (g < Crossover.numGroups spec ∧ i < Crossover.numFilterPerGroup)
        (Crossover.setCoefficients dsp floats spec g i coefficients) ∧
      StaysIn dsp (spec.peqs.getD g 0) (g < Crossover.numGroups spec)
        (Crossover.setBypass dsp spec g bypass)) ∧
    ∀ index : PEQTarget,
      (NoPanic (runXover dsp floats spec fromStr .clear .all index) ↔
        2 ≤ Crossover.numGroups spec) ∧
      (NoPanic (runXover dsp floats spec fromStr (.set coefficients) .all index) ↔ index.Below) ∧
      NoPanic (runXover dsp floats spec fromStr (.bypass bypass) .all index) ∧
      ∀ file biquads, Lines.Hold fromStr (Line.ofText file) biquads →
        (NoPanic (runXover dsp floats spec fromStr (.importFrom file) .all index) ↔
          index.Below ∧ (2 ≤ Crossover.numGroups spec ∨
            slotsThere (index.range Crossover.numFilterPerGroup) * Crossover.numGroups spec <
              biquads.length)) := by
  refine ⟨⟨clear_staysIn_iff hspec g,setCoefficients_staysIn hspec h g i,
    setBypass_staysIn g bypass⟩,fun index => ⟨runXover_clear_noPanic_iff hspec index,
    runXover_set_noPanic_iff hspec h index,runXover_bypass_noPanic bypass index,
    fun file biquads hfile => ?_⟩⟩
  by_cases hindex : index.Below
  · rw [runXover_import_noPanic_iff hspec (PEQTarget.intoRange_below hindex _) hfile]
    exact (and_iff_right hindex).symm
  · exact iff_of_false (runXover_import_overflow hindex file) fun hand => hindex hand.1

theorem staysIn_second_group : StaysIn plainDsp 0x120 (1 < Crossover.numGroups twoGroups)
    (Crossover.clear plainDsp noFloats twoGroups 1) :=
  (staysIn_iff plainDsp noFloats twoOrZero twoGroups (by simp [twoGroups]) 1 0 [0,0,0,0,0] rfl
    false).1.1.mpr (by decide)

/-- To clear the second of one group is a panic. -/
theorem missing_group_panics : ¬∀ (dsp : MiniDSP) (floats : Floats) (spec : Device.Crossover),
    (∀ start ∈ spec.peqs, start.toNat ≤ 65515) → ∀ g, StaysIn dsp (spec.peqs.getD g 0)
      (g < Crossover.numGroups spec) (Crossover.clear dsp floats spec g) := by
  intro h
  have hbases : ∀ start ∈ [(0x100 : UInt16)], start.toNat ≤ 65515 := by simp
  have hclear := h plainDsp noFloats ⟨[0x100]⟩ hbases 1
  exact absurd ((clear_staysIn_iff hbases 1).mp hclear) (by decide)

end Xover
end Minidsp
