import Minidsp.Responses

/-! Views of the device's memory that are extended with the view that follows. The end of a view
is computed in 16 bits, and so is what is cut off beyond the last address. -/
namespace Minidsp

open Buffer

inductive ExtendError
  | mismatchingBases
  deriving DecidableEq, Repr

/-- The check of both kinds of views: the other one starts where this one ends. -/
def extendFrom {ε V : Type} (base : UInt16) (len : ℕ) (other : UInt16) (self joined : V) :
    Exec ε (Except ExtendError Unit × V) := do
  let expectedStart ← addU16 base (UInt16.ofNat len)
  if other ≠ expectedStart then return (.error .mismatchingBases,self)
  return (.ok (),joined)

/-- What extending is for: the view that follows is joined, any other is refused. -/
structure Concatenates {ε V : Type} (base : UInt16) (len : ℕ) (other : UInt16) (view : V)
    (Joined : V → Prop) (result : Exec ε (Except ExtendError Unit × V)) : Prop where
  joins : other.toNat = base.toNat + len → ∃ joined, result = .ok (.ok (),joined) ∧ Joined joined
  refuses : other.toNat ≠ base.toNat + len → result = .ok (.error .mismatchingBases,view)

section
variable {ε V : Type} {base other : UInt16} {len : ℕ} {self joined : V}

theorem extendFrom_spec (h : base.toNat + len % 65536 < 65536) :
    (extendFrom base len other self joined : Exec ε _) =
      if other.toNat = base.toNat + len % 65536 then .ok (.ok (),joined)
      else .ok (.error .mismatchingBases,self) := by
  obtain ⟨start,hstart,hval⟩ := addU16_ok (ε := ε) (a := base) (b := UInt16.ofNat len)
    (by rwa [UInt16.toNat_ofNat'])
  rw [UInt16.toNat_ofNat'] at hval
  have heq : other = start ↔ other.toNat = base.toNat + len % 65536 := by
    rw [← UInt16.toNat_inj,hval]
  simp only [extendFrom,hstart,bind,Except.bind,ne_eq,heq]
  split_ifs <;> rfl

theorem extendFrom_panics (h : 65536 ≤ base.toNat + len % 65536) :
    (extendFrom base len other self joined : Exec ε _) =
      .error (.panic (.explicit "attempt to add with overflow")) := by
  have hover : ¬base.toNat + (UInt16.ofNat len).toNat < 65536 := by
    rw [UInt16.toNat_ofNat']
    omega
  simp only [extendFrom,addU16,if_neg hover]
  rfl

/-- Joining is right for the view that follows, whose base says that the end was not cut. -/
theorem concatenates_joined_iff {Joined : V → Prop}
    (hstart : other.toNat = base.toNat + len % 65536) :
    Concatenates base len other self Joined (.ok (.ok (),joined) : Exec ε _) ↔
      len < 65536 ∧ Joined joined := by
  have hother := other.toNat_lt
  constructor
  · intro h
    have hlen : other.toNat = base.toNat + len := by
      by_contra hne
      exact nomatch h.refuses hne
    obtain ⟨joined',heq,hjoined⟩ := h.joins hlen
    obtain ⟨-,rfl⟩ := Prod.mk.inj (Except.ok.inj heq)
    exact ⟨by omega,hjoined⟩
  · rintro ⟨hlt,hjoined⟩
    rw [Nat.mod_eq_of_lt hlt] at hstart
    exact ⟨fun _ => ⟨joined,rfl,hjoined⟩,fun hne => absurd hstart hne⟩

theorem concatenates_refused {Joined : V → Prop} (hstart : other.toNat ≠ base.toNat + len % 65536) :
    Concatenates base len other self Joined (.ok (.error .mismatchingBases,self) : Exec ε _) := by
  have hother := other.toNat_lt
  exact ⟨fun hlen => absurd hlen (by omega),fun _ => rfl⟩

theorem not_concatenates_panic {Joined : V → Prop} (p : Panic) :
    ¬Concatenates base len other self Joined (.error (.panic p) : Exec ε _) := by
  intro h
  by_cases hlen : other.toNat = base.toNat + len
  · obtain ⟨joined,heq,-⟩ := h.joins hlen
    exact nomatch heq
  · exact nomatch h.refuses hlen

theorem concatenates_iff {Joined : V → Prop} :
    Concatenates base len other self Joined (extendFrom base len other self joined : Exec ε _) ↔
      base.toNat + len % 65536 < 65536 ∧
      (other.toNat = base.toNat + len % 65536 → len < 65536 ∧ Joined joined) := by
  by_cases hover : base.toNat + len % 65536 < 65536
  · rw [extendFrom_spec hover]
    split_ifs with hstart
    · simp [concatenates_joined_iff hstart,hover,hstart]
    · simp [concatenates_refused hstart,hover,hstart]
  · rw [extendFrom_panics (not_lt.mp hover)]
    simp [not_concatenates_panic,hover]

end

namespace FloatView

def extendWith {ε : Type} (self other : FloatView) : Exec ε (Except ExtendError Unit × FloatView) :=
  extendFrom self.base self.data.length other.base self
    { self with data := self.data ++ other.data }

theorem get_eq_ok {ε : Type} {view : FloatView} {addr : UInt16} {x : F32Bits} :
    (view.get addr : Exec ε _) = .ok x ↔
      view.base ≤ addr ∧ view.data[addr.toNat-view.base.toNat]? = some x := by
  by_cases hle : view.base ≤ addr
  · obtain ⟨d,hd,hval⟩ := subU16_ok (ε := ε) hle
    simp only [get,hd,bind,Except.bind,hval,hle,true_and]
    cases view.data[addr.toNat-view.base.toNat]? <;> simp [pure,Except.pure]
  · simp [get,subU16,hle,bind,Except.bind]

/-- Both views are read from the joined one, and nothing beyond the last address is in it. -/
structure Joins (view other joined : FloatView) : Prop where
  reads : ∀ v ∈ [view,other], ∀ addr x, v.get addr = (.ok x : Exec Empty _) →
    joined.get addr = (.ok x : Exec Empty _)
  bounded : joined.base.toNat + joined.data.length ≤ 65536

theorem joins_iff {view other : FloatView}
    (h : other.base.toNat = view.base.toNat + view.data.length) :
    Joins view other { view with data := view.data ++ other.data } ↔
      view.base.toNat + view.data.length + other.data.length ≤ 65536 := by
  have hbound : view.base.toNat + (view.data ++ other.data).length =
      view.base.toNat + view.data.length + other.data.length := by
    rw [List.length_append]
    omega
  refine ⟨fun hjoins => hbound ▸ hjoins.bounded,fun hle => ⟨?_,hbound ▸ hle⟩⟩
  simp only [List.forall_mem_cons,get_eq_ok]
  refine ⟨fun addr x hx => ⟨hx.1,?_⟩,fun addr x hx => ?_,by simp⟩
  · exact (List.getElem?_append_left (List.getElem?_eq_some_iff.mp hx.2).1).trans hx.2
  · have hother : other.base.toNat ≤ addr.toNat := hx.1
    refine ⟨show view.base.toNat ≤ addr.toNat by omega,?_⟩
    rw [List.getElem?_append_right (by omega)]
    rw [← hx.2]
    congr 1
    omega

def Extends (view other : FloatView) : Prop :=
  Concatenates view.base view.data.length other.base view (Joins view other)
    (view.extendWith other : Exec Empty _)

end FloatView

namespace MemoryView

def extendWith {ε : Type} (self other : MemoryView) :
    Exec ε (Except ExtendError Unit × MemoryView) :=
  -- `u16::MAX as usize` is the last address, not the number of addresses
  extendFrom self.base self.data.length other.base self
    { self with data := (self.data ++ other.data).take (0xFFFF - self.base.toNat) }

theorem readAt_eq_some {view : MemoryView} {addr : UInt16} {len : UInt8} {bytes : Bytes} :
    view.readAt addr len = some bytes ↔ view.base ≤ addr ∧
      addr.toNat - view.base.toNat + len.toNat ≤ view.data.length ∧
      (view.data.drop (addr.toNat - view.base.toNat)).take len.toNat = bytes := by
  by_cases hle : view.base ≤ addr
  · have hle' : view.base.toNat ≤ addr.toNat := hle
    have hnot : ¬addr < view.base := by simpa using hle
    simp only [readAt,hnot,false_or,hle,true_and]
    split_ifs with hbeyond hend
    · simp only [false_iff,not_and]
      omega
    · simp only [false_iff,not_and]
      omega
    · rw [Option.some_inj,List.drop_take,Nat.add_sub_cancel_left,and_iff_right (by omega)]
  · have hlt : addr < view.base := by simpa using hle
    simp [readAt,hlt,hle]

structure Joins (view other joined : MemoryView) : Prop where
  reads : ∀ v ∈ [view,other], ∀ addr len bytes, v.readAt addr len = some bytes →
    joined.readAt addr len = some bytes
  bounded : joined.base.toNat + joined.data.length ≤ 65536

/-- Without the cut, every read of the two views is one of the joined view. -/
theorem readAt_append {view other : MemoryView}
    (h : other.base.toNat = view.base.toNat + view.data.length) :
    ∀ v ∈ [view,other], ∀ addr len bytes, v.readAt addr len = some bytes →
      readAt { view with data := view.data ++ other.data } addr len = some bytes := by
  simp only [List.forall_mem_cons,readAt_eq_some,List.length_append]
  refine ⟨?_,?_,by simp⟩
  · rintro addr len bytes ⟨hbase,hend,rfl⟩
    refine ⟨hbase,by omega,?_⟩
    rw [List.drop_append_of_le_length (by omega),List.take_append_of_le_length]
    rw [List.length_drop]
    omega
  · rintro addr len bytes ⟨hbase,hend,rfl⟩
    have hother : other.base.toNat ≤ addr.toNat := hbase
    have hskip : addr.toNat - view.base.toNat =
        view.data.length + (addr.toNat - other.base.toNat) := by omega
    refine ⟨show view.base.toNat ≤ addr.toNat by omega,by omega,?_⟩
    rw [hskip,List.drop_length_add_append]

/-- The cut takes the last address off, too. -/
theorem joins_iff {view other : MemoryView}
    (h : other.base.toNat = view.base.toNat + view.data.length) :
    Joins view other { view with
      data := (view.data ++ other.data).take (0xFFFF - view.base.toNat) } ↔
        view.base.toNat + view.data.length + other.data.length < 65536 := by
  have hbase := view.base.toNat_lt
  have hother := other.base.toNat_lt
  constructor
  · intro hjoins
    by_contra hover
    have hread : other.readAt 0xFFFF 1 = some
        ((other.data.drop (65535 - other.base.toNat)).take 1) := by
      refine readAt_eq_some.mpr ⟨show other.base.toNat ≤ 65535 by omega,?_,rfl⟩
      change 65535 - other.base.toNat + 1 ≤ other.data.length
      omega
    obtain ⟨-,hend,-⟩ := readAt_eq_some.mp (hjoins.reads other (by simp) _ _ _ hread)
    change 65535 - view.base.toNat + 1 ≤ _ at hend
    rw [List.length_take] at hend
    omega
  · intro hlt
    rw [List.take_of_length_le (by rw [List.length_append]; omega)]
    refine ⟨readAt_append h,?_⟩
    change view.base.toNat + (view.data ++ other.data).length ≤ 65536
    rw [List.length_append]
    omega

def Extends (view other : MemoryView) : Prop :=
  Concatenates view.base view.data.length other.base view (Joins view other)
    (view.extendWith other : Exec Empty _)

end MemoryView

/-- The end that is computed must not overflow, and what is found to start there must leave out
the last address in a view of bytes, and must not go beyond it in a view of floats. -/
theorem extends_iff (mem mem' : MemoryView) (floats floats' : FloatView) :
    (mem.Extends mem' ↔ mem.base.toNat + mem.data.length % 65536 < 65536 ∧
      (mem'.base.toNat = mem.base.toNat + mem.data.length % 65536 →
        mem.base.toNat + mem.data.length + mem'.data.length < 65536)) ∧
    (floats.Extends floats' ↔ floats.base.toNat + floats.data.length % 65536 < 65536 ∧
      (floats'.base.toNat = floats.base.toNat + floats.data.length % 65536 →
        floats.data.length < 65536 ∧
        floats.base.toNat + floats.data.length + floats'.data.length ≤ 65536)) := by
  constructor
  · rw [MemoryView.Extends,MemoryView.extendWith,concatenates_iff]
    refine and_congr_right fun _ => forall_congr' fun hstart => ?_
    constructor
    · rintro ⟨hlt,hjoins⟩
      rw [Nat.mod_eq_of_lt hlt] at hstart
      exact (MemoryView.joins_iff hstart).mp hjoins
    · intro hlt
      rw [Nat.mod_eq_of_lt (by omega)] at hstart
      exact ⟨by omega,(MemoryView.joins_iff hstart).mpr hlt⟩
  · rw [FloatView.Extends,FloatView.extendWith,concatenates_iff]
    refine and_congr_right fun _ => forall_congr' fun hstart => and_congr_right fun hlt => ?_
    rw [Nat.mod_eq_of_lt hlt] at hstart
    exact FloatView.joins_iff hstart

/-- A dump of two reads that go past the end loses its last byte. -/
theorem dump_loses_last_byte : ¬∀ mem mem' : MemoryView, mem.Extends mem' := by
  intro h
  have hdump := h ⟨0xFFA0,List.replicate 59 0⟩ ⟨0xFFDB,List.replicate 59 0⟩
  rw [MemoryView.Extends,MemoryView.extendWith,concatenates_iff] at hdump
  obtain ⟨-,hjoins⟩ := hdump.2 rfl
  exact absurd ((MemoryView.joins_iff rfl).mp hjoins) (by decide)

end Minidsp
