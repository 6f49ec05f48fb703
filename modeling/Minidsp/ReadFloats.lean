import Minidsp.Client
import Minidsp.GreedyCover

/-! Reading many floats at once: the addresses are sorted and cut into groups, and one command
reads each group. -/
namespace Minidsp

open Buffer Dialogue GreedyCover

/-- A device that answers each read inside of the address space with the floats at its
addresses, whatever else it does. -/
def AnswersReads {σ : Type} (dev : Dialogue.Device σ Commands Responses MiniDSPError)
    (mem : UInt16 → F32Bits) : Prop :=
  ∀ s addr len, addr.toNat + len.toNat ≤ 65536 → ∃ t, dev s (.readFloats addr len) =
    (.ok (.floatData ⟨addr,(List.range len.toNat).map fun i => mem (addr + UInt16.ofNat i)⟩),t)

def floatMemory (mem : UInt16 → F32Bits) : Dialogue.Device Unit Commands Responses MiniDSPError :=
  fun s q => (.ok (match q with
    | .readFloats addr len =>
      .floatData ⟨addr,(List.range len.toNat).map fun i => mem (addr + UInt16.ofNat i)⟩
    | _ => .ack),s)

theorem floatMemory_answers (mem : UInt16 → F32Bits) : AnswersReads (floatMemory mem) mem :=
  fun s _ _ _ => ⟨s,rfl⟩

namespace Client

def Within (first i : UInt16) : Prop := i.toNat < first.toNat + 14

instance (first i : UInt16) : Decidable (Within first i) := inferInstanceAs (Decidable (_ < _))

section
variable {ε : Type}

theorem subU16_lt {first i : UInt16} (h : first ≤ i) :
    ∃ d, (subU16 i first : Exec ε _) = .ok d ∧
      decide (d < readFloatsMax) = decide (Within first i) := by
  obtain ⟨d,hd,hval⟩ := subU16_ok (ε := ε) h
  have hle : first.toNat ≤ i.toNat := h
  refine ⟨d,hd,decide_eq_decide.mpr ?_⟩
  rw [UInt16.lt_iff_toNat_lt,hval,Within]
  have h14 : readFloatsMax.toNat = 14 := rfl
  omega

theorem chunkOpen_within {first : UInt16} {chunk : List UInt16} (hle : ∀ a ∈ chunk, first ≤ a)
    (hin : ∀ a ∈ first :: chunk, Within first a) :
    (chunkOpen (first :: chunk) : Exec ε _) = .ok true := by
  have hlast := List.getLast_mem (show first :: chunk ≠ [] by simp)
  have hge : ∀ a ∈ first :: chunk, first ≤ a := by
    simp only [List.forall_mem_cons]
    exact ⟨UInt16.le_refl first,hle⟩
  obtain ⟨d,hd,hlt⟩ := subU16_lt (ε := ε) (hge _ hlast)
  simp only [chunkOpen,hd,bind,Except.bind,hlt,hin _ hlast,decide_true]
  rfl

/-- On sorted addresses the inner loop takes those in reach of the first. -/
theorem fillChunk_sorted {first : UInt16} (chunk : List UInt16) {addrs : List UInt16}
    (hle : ∀ a ∈ chunk ++ addrs, first ≤ a) (hin : ∀ a ∈ first :: chunk, Within first a) :
    (fillChunk (some first) (first :: chunk) addrs : Exec ε _) =
      .ok (first :: chunk ++ addrs.takeWhile (fun a => Within first a),
        addrs.dropWhile (fun a => Within first a)) := by
  induction addrs generalizing chunk with
  | nil =>
    have hopen := chunkOpen_within (ε := ε) (fun a ha => hle a (by simp [ha])) hin
    simp only [fillChunk,hopen]
    simp [bind,Except.bind,pure,Except.pure]
  | cons i addrs ih =>
    have hopen := chunkOpen_within (ε := ε) (fun a ha => hle a (by simp [ha])) hin
    obtain ⟨d,hd,hlt⟩ := subU16_lt (ε := ε) (hle i (by simp))
    by_cases hi : Within first i
    · have hnext := ih (chunk ++ [i]) (fun a ha => hle a (by simpa using ha))
        (by
          intro a ha
          rw [← List.cons_append,List.mem_append,List.mem_singleton] at ha
          rcases ha with ha | rfl
          · exact hin a ha
          · exact hi)
      simp only [fillChunk,hopen,inReach,hd,bind,Except.bind,hlt,hi]
      simp only [pure,Except.pure,decide_true,Bool.not_true,Bool.false_eq_true,if_false,
        Option.getD_some]
      rw [List.cons_append,hnext]
      simp [hi]
    · simp only [fillChunk,hopen,inReach,hd,bind,Except.bind,hlt,hi]
      simp [pure,Except.pure,hi]

end

theorem get_mem {ε : Type} (mem : UInt16 → F32Bits) {base a : UInt16} {n : ℕ} (hle : base ≤ a)
    (hn : a.toNat - base.toNat < n) :
    (FloatView.get ⟨base,(List.range n).map fun i => mem (base + UInt16.ofNat i)⟩ a :
      Exec ε _) = .ok (mem a) := by
  obtain ⟨d,hd,hval⟩ := subU16_ok (ε := ε) hle
  simp only [FloatView.get,hd,bind,Except.bind,hval]
  rw [List.getElem?_map,List.getElem?_range hn,Option.map_some,add_ofNat_sub hle]
  rfl

theorem getAll_mem (mem : UInt16 → F32Bits) (base : UInt16) {n : ℕ} (group : List UInt16)
    (h : ∀ a ∈ group, base ≤ a ∧ a.toNat - base.toNat < n) :
    (group.mapM (FloatView.get ⟨base,(List.range n).map fun i => mem (base + UInt16.ofNat i)⟩) :
      Exec MiniDSPError _) = .ok (group.map mem) :=
  mapM_ok fun a ha => get_mem mem (h a ha).1 (h a ha).2

def readGroups (addrs : List UInt16) : List (UInt16 × List UInt16) :=
  groups (fun first i => decide (Within first i)) addrs

structure Coverable (group : UInt16 × List UInt16) : Prop where
  sorted : (group.1 :: group.2).Pairwise (· ≤ ·)
  within : ∀ a ∈ group.1 :: group.2, Within group.1 a

theorem coverable_takeWhile {first : UInt16} {addrs : List UInt16}
    (hsorted : (first :: addrs).Pairwise (· ≤ ·)) :
    Coverable (first,addrs.takeWhile fun a => Within first a) := by
  refine ⟨hsorted.sublist ((List.takeWhile_sublist _).cons_cons first),?_⟩
  simp only [List.forall_mem_cons]
  refine ⟨?_,fun a ha => by simpa using List.mem_takeWhile_imp ha⟩
  unfold Within
  omega

theorem coverable_of_mem {addrs : List UInt16} (hsorted : addrs.Pairwise (· ≤ ·)) :
    ∀ group ∈ readGroups addrs, Coverable group := by
  unfold readGroups
  induction addrs using groups.induct fun first i => decide (Within first i) with
  | case1 => simp
  | case2 first addrs ih =>
    rw [groups_cons,List.forall_mem_cons]
    exact ⟨coverable_takeWhile hsorted,ih (hsorted.tail.sublist (List.dropWhile_sublist _))⟩

def lastAddr (group : UInt16 × List UInt16) : UInt16 := (group.1 :: group.2).getLast (by simp)

def range (group : UInt16 × List UInt16) : UInt8 := (lastAddr group - group.1 + 1).toUInt8

def covering (group : UInt16 × List UInt16) : Commands := .readFloats group.1 (range group)

namespace Coverable

variable {group : UInt16 × List UInt16}

theorem le_lastAddr (h : Coverable group) : ∀ a ∈ group.1 :: group.2, a ≤ lastAddr group :=
  fun _ ha => h.sorted.rel_getLast_of_rel_getLast_getLast ha (UInt16.le_refl _)

theorem bounds (h : Coverable group) : group.1.toNat ≤ (lastAddr group).toNat ∧
    (lastAddr group).toNat < group.1.toNat + 14 :=
  ⟨h.le_lastAddr _ List.mem_cons_self,h.within _ (List.getLast_mem _)⟩

theorem range_toNat (h : Coverable group) :
    (range group).toNat = (lastAddr group).toNat - group.1.toNat + 1 := by
  obtain ⟨hle,hlt⟩ := h.bounds
  have hone : (1 : UInt16).toNat = 1 := rfl
  rw [range,UInt16.toNat_toUInt8,UInt16.toNat_add,UInt16.toNat_sub_of_le _ _ hle,hone]
  omega

theorem span_ok {ε : Type} (h : Coverable group) :
    (subU16 (lastAddr group) group.1 : Exec ε _) = .ok (lastAddr group - group.1) ∧
    (addU16 (lastAddr group - group.1) 1 : Exec ε _) = .ok (lastAddr group - group.1 + 1) := by
  obtain ⟨hle,hlt⟩ := h.bounds
  have hone : (1 : UInt16).toNat = 1 := rfl
  refine ⟨if_pos hle,if_pos ?_⟩
  rw [UInt16.toNat_sub_of_le _ _ hle,hone]
  omega

theorem covered (h : Coverable group) : ∀ a ∈ group.1 :: group.2,
    group.1 ≤ a ∧ a.toNat - group.1.toNat < (range group).toNat := by
  intro a ha
  have hle : group.1 ≤ a := by
    rcases List.mem_cons.mp ha with heq | ha
    · exact heq ▸ UInt16.le_refl _
    · exact (List.pairwise_cons.mp h.sorted).1 a ha
  have hlast : a.toNat ≤ (lastAddr group).toNat := h.le_lastAddr a ha
  rw [h.range_toNat]
  exact ⟨hle,by omega⟩

theorem command_bounds (h : Coverable group) : 1 ≤ (range group).toNat ∧
    (range group).toNat ≤ readFloatsMax.toNat ∧
    group.1.toNat + (range group).toNat ≤ 65536 := by
  obtain ⟨hle,hlt⟩ := h.bounds
  have hlast := (lastAddr group).toNat_lt
  have hmax : readFloatsMax.toNat = 14 := rfl
  rw [h.range_toNat]
  omega

end Coverable

def readGroup (group : UInt16 × List UInt16) : Call (List F32Bits) := do
  let data ← readFloats group.1 (range group)
  .lift ((group.1 :: group.2).mapM data.get)

/-- One round of the outer loop on sorted addresses: the first group is read. -/
theorem readChunks_cons {fuel : ℕ} {first : UInt16} {addrs : List UInt16}
    (hsorted : (first :: addrs).Pairwise (· ≤ ·)) :
    readChunks (fuel+1) (first :: addrs) =
      readGroup (first,addrs.takeWhile fun a => Within first a) >>= fun values =>
        readChunks fuel (addrs.dropWhile fun a => Within first a) >>= fun left =>
          pure (values ++ left) := by
  have hchunk : (fillChunk none [] (first :: addrs) : Exec MiniDSPError _) =
      .ok (first :: addrs.takeWhile (fun a => Within first a),
        addrs.dropWhile (fun a => Within first a)) := by
    refine fillChunk_sorted [] (by simpa using (List.pairwise_cons.mp hsorted).1) ?_
    simp [Within]
  obtain ⟨hsub,hadd⟩ := (coverable_takeWhile hsorted).span_ok (ε := MiniDSPError)
  rw [readChunks,lift_ok_bind hchunk,readGroup,bind_assoc]
  exact (lift_ok_bind hsub _).trans (lift_ok_bind hadd _)

theorem readGroups_cons (first : UInt16) (addrs : List UInt16) : readGroups (first :: addrs) =
    (first,addrs.takeWhile fun a => Within first a) ::
      readGroups (addrs.dropWhile fun a => Within first a) := groups_cons _ _ _

section
variable {σ : Type} {dev : Dialogue.Device σ Commands Responses MiniDSPError}

theorem readGroup_gives {mem : UInt16 → F32Bits} (hdev : AnswersReads dev mem)
    {group : UInt16 × List UInt16} (hgroup : Coverable group) (s : σ) :
    ∃ t, Gives dev (readGroup group) s ((group.1 :: group.2).map mem) t [covering group] := by
  obtain ⟨t,ht⟩ := hdev s _ _ hgroup.command_bounds.2.2
  have hread : Gives dev (readFloats group.1 (range group)) s _ t [covering group] :=
    expected ht rfl
  exact ⟨t,hread.bind (Gives.lift (getAll_mem mem group.1 _ hgroup.covered))⟩

theorem asked_readGroup (group : UInt16 × List UInt16) (s : σ) :
    asked dev (readGroup group) s = [covering group] := by
  rw [readGroup,asked_bind_silent fun _ _ => asked_lift _ _]
  exact asked_bind_silent (fun _ _ => asked_lift _ _) s

theorem readChunks_gives {mem : UInt16 → F32Bits} (hdev : AnswersReads dev mem) {fuel : ℕ}
    {addrs : List UInt16} (hsorted : addrs.Pairwise (· ≤ ·)) (hfuel : addrs.length < fuel)
    (s : σ) : ∃ t, Gives dev (readChunks fuel addrs) s (addrs.map mem) t
      ((readGroups addrs).map covering) := by
  induction fuel generalizing addrs s with
  | zero => omega
  | succ fuel ih =>
    cases addrs with
    | nil =>
      refine ⟨s,((Gives.lift rfl).bind (Gives.pure _)).congr ?_⟩
      rw [readGroups,groups_nil]
      rfl
    | cons first addrs =>
      have hdrop := List.dropWhile_sublist (l := addrs) fun a => decide (Within first a)
      have hlen := hdrop.length_le
      rw [List.length_cons] at hfuel
      obtain ⟨t,hgroup⟩ := readGroup_gives hdev (coverable_takeWhile hsorted) s
      obtain ⟨u,hnext⟩ := ih (hsorted.tail.sublist hdrop) (by omega) t
      have hwhole : (first :: addrs).map mem =
          (first :: addrs.takeWhile fun a => Within first a).map mem ++
            (addrs.dropWhile fun a => Within first a).map mem := by
        rw [← List.map_append,List.cons_append,List.takeWhile_append_dropWhile]
      rw [readChunks_cons hsorted,hwhole,readGroups_cons]
      exact ⟨u,(hgroup.bind (hnext.map _)).congr rfl⟩

theorem asked_readChunks (fuel : ℕ) {addrs : List UInt16} (hsorted : addrs.Pairwise (· ≤ ·))
    (s : σ) : asked dev (readChunks fuel addrs) s <+: (readGroups addrs).map covering := by
  induction fuel generalizing addrs s with
  | zero => exact List.nil_prefix
  | succ fuel ih =>
    cases addrs with
    | nil => exact List.nil_prefix
    | cons first addrs =>
      have hdrop := List.dropWhile_sublist (l := addrs) fun a => decide (Within first a)
      have hleft : ∀ values t, asked dev (readChunks fuel (addrs.dropWhile fun a =>
          Within first a) >>= fun left => pure (values ++ left)) t <+:
          (readGroups (addrs.dropWhile fun a => Within first a)).map covering := by
        intro values t
        rw [asked_bind_silent fun _ _ => rfl]
        exact ih (hsorted.tail.sublist hdrop) t
      have h := asked_bind_prefix (s := s)
        (p := readGroup (first,addrs.takeWhile fun a => Within first a))
        fun values t _ => hleft values t
      rw [asked_readGroup] at h
      rwa [readChunks_cons hsorted,readGroups_cons,List.map_cons]

end

theorem le_total_u16 (a b : UInt16) : (decide (a ≤ b) || decide (b ≤ a)) = true := by
  simpa using UInt16.le_total a b

theorem sorted_mergeSort (addrs : List UInt16) :
    (addrs.mergeSort fun a b => a ≤ b).Pairwise (· ≤ ·) := by
  have h := List.pairwise_mergeSort (α := UInt16)
    (fun a b c hab hbc => by simpa using UInt16.le_trans (by simpa using hab) (by simpa using hbc))
    le_total_u16 addrs
  simpa using h

/-- Whatever order they are asked in, the floats come back by ascending address. -/
theorem readFloatsMulti_gives (mem : UInt16 → F32Bits) (addrs : List UInt16) :
    ∃ qs, Gives (floatMemory mem) (readFloatsMulti addrs) ()
      ((addrs.mergeSort fun a b => a ≤ b).map mem) () qs := by
  obtain ⟨s,h⟩ := readChunks_gives (floatMemory_answers mem) (sorted_mergeSort addrs)
    (Nat.lt_succ_self _) ()
  exact ⟨_,h⟩

theorem mergeSort_eq_self_iff {addrs : List UInt16} :
    (addrs.mergeSort fun a b => a ≤ b) = addrs ↔ addrs.Pairwise (· ≤ ·) := by
  constructor
  · intro h
    exact h ▸ sorted_mergeSort addrs
  · intro h
    exact List.mergeSort_of_pairwise (by simpa using h)

/-- A read of at least one float and of no more than `readFloatsMax`, all of them inside of the
address space. -/
def InRange (q : Commands) : Prop := ∃ addr len, q = .readFloats addr len ∧
  1 ≤ len.toNat ∧ len.toNat ≤ readFloatsMax.toNat ∧ addr.toNat + len.toNat ≤ 65536

/-- For any addresses, the floats come back in the order of the sorted addresses, one for each,
and every command is in range. -/
theorem readFloatsMulti_correct {σ : Type}
    {dev : Dialogue.Device σ Commands Responses MiniDSPError} {mem : UInt16 → F32Bits}
    (hdev : AnswersReads dev mem) (addrs : List UInt16) (s : σ) :
    ∃ (sorted : List UInt16) (t : σ) (qs : List Commands),
      sorted.Perm addrs ∧ sorted.Pairwise (· ≤ ·) ∧
      Gives dev (readFloatsMulti addrs) s (sorted.map mem) t qs ∧ ∀ q ∈ qs, InRange q := by
  have hsorted := sorted_mergeSort addrs
  obtain ⟨t,h⟩ := readChunks_gives hdev hsorted (Nat.lt_succ_self _) s
  refine ⟨_,t,_,List.mergeSort_perm addrs _,hsorted,h,fun q hq => ?_⟩
  obtain ⟨group,hgroup,rfl⟩ := List.mem_map.mp hq
  exact ⟨_,_,rfl,(coverable_of_mem hsorted group hgroup).command_bounds⟩

/-- Two groups, of which the second holds the last address of all, twice. -/
theorem readFloatsMulti_correct_top : ∃ (sorted : List UInt16) (t : Unit) (qs : List Commands),
    sorted.Perm [65535,0,65535] ∧ sorted.Pairwise (· ≤ ·) ∧
      Gives (floatMemory UInt16.toUInt32) (readFloatsMulti [65535,0,65535]) ()
        (sorted.map UInt16.toUInt32) t qs ∧ ∀ q ∈ qs, InRange q :=
  readFloatsMulti_correct (floatMemory_answers _) _ ()

/-- What two intervals of `readFloatsMax` addresses have in common is in reach. -/
theorem within_of_interval {start : ℤ} {a b : UInt16} (ha : start ≤ a.toNat)
    (hb : b.toNat < start + readFloatsMax.toNat) : Within a b := by
  have hmax : readFloatsMax.toNat = 14 := rfl
  unfold Within
  omega

/-- The number of commands is the least possible: no set of intervals of `readFloatsMax`
addresses, given by where they start, covers the addresses with fewer. -/
theorem readFloatsMulti_fewest {σ : Type}
    (dev : Dialogue.Device σ Commands Responses MiniDSPError) (addrs : List UInt16) (s : σ)
    {starts : Finset ℤ} (hcover : ∀ a ∈ addrs, ∃ start ∈ starts,
      start ≤ a.toNat ∧ a.toNat < start + readFloatsMax.toNat) :
    (asked dev (readFloatsMulti addrs) s).length ≤ starts.card := by
  have hsorted := sorted_mergeSort addrs
  have hasked : asked dev (readFloatsMulti addrs) s <+: _ := asked_readChunks _ hsorted s
  have hcount := hasked.length_le
  rw [List.length_map] at hcount
  refine hcount.trans (length_groups_le ?_ hsorted
    (fun a ha => hcover a (List.mem_mergeSort.mp ha)) fun start a b ha hb _ => ?_)
  · intro a b c hle hreach
    have hle' : b.toNat ≤ c.toNat := hle
    have hc : Within a c := of_decide_eq_true hreach
    exact decide_eq_true (lt_of_le_of_lt hle' hc)
  · exact decide_eq_true (within_of_interval ha.1 hb.2)

/-- Addresses 13 apart need one command, addresses 14 apart two. -/
theorem readFloatsMulti_fewest_two :
    (asked (floatMemory UInt16.toUInt32) (readFloatsMulti [14,0,13]) ()).length ≤
      ({0,14} : Finset ℤ).card := by
  refine readFloatsMulti_fewest _ _ () ?_
  simp only [List.forall_mem_cons]
  exact ⟨⟨14,by decide⟩,⟨0,by decide⟩,⟨0,by decide⟩,by simp⟩

end Client
end Minidsp
