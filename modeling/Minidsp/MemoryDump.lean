import Minidsp.Client
import Minidsp.Views

/-! Dumping the memory of a device in pieces. -/
namespace Minidsp
namespace Debug

open Buffer Dialogue

/-- `(addr..end).step_by(step)` -/
def stepBy (step : ℕ) (addr stop : UInt16) : List UInt16 :=
  (List.range' addr.toNat ((stop.toNat - addr.toNat + (step-1))/step) step).map UInt16.ofNat

def extendError : ExtendError → MiniDSPError
  | .mismatchingBases => .internalError "the corresponding bases do not align"

def dumpNext (view : MemoryView) (i : UInt16) : Call MemoryView := do
  let (result,view) ← .lift (view.extendWith (← Client.readMemory i 59))
  match result with
  | .ok () => return view
  | .error e => .fail (extendError e)

/-- The command `Dump`, up to what is printed. -/
def dump (addr : UInt16) (endAddr : Option UInt16) : Call MemoryView :=
  (stepBy 59 addr (endAddr.getD 59)).foldlM dumpNext ⟨addr,[]⟩

section
variable {σ : Type} {dev : Dialogue.Device σ Commands Responses MiniDSPError} {mem : ℕ → UInt8}

/-- A device that answers every read from this memory, also where one goes past the end of it. -/
def Readable (dev : Dialogue.Device σ Commands Responses MiniDSPError) (mem : ℕ → UInt8) : Prop :=
  ∀ s addr size, ∃ t, dev s (.readMemory addr size) =
    (.ok (.memoryData ⟨addr,(List.range size.toNat).map fun i => mem (addr.toNat + i)⟩),t)

def shown (mem : ℕ → UInt8) (addr : UInt16) (len : ℕ) : MemoryView :=
  ⟨addr,(List.range (min len (65535 - addr.toNat))).map fun i => mem (addr.toNat + i)⟩

theorem shown_append {addr : UInt16} {len : ℕ} (h : addr.toNat + len < 65535) (n : ℕ) :
    ((shown mem addr len).data ++ (List.range n).map fun i => mem (addr.toNat + len + i)).take
      (65535 - addr.toNat) = (shown mem addr (len+n)).data := by
  have hlen : min len (65535 - addr.toNat) = len := by omega
  have hmap : ((List.range n).map fun i => mem (addr.toNat + len + i)) =
      ((List.range n).map (len + ·)).map fun i => mem (addr.toNat + i) := by
    rw [List.map_map]
    exact List.map_congr_left fun i _ => congrArg mem (Nat.add_assoc ..)
  simp only [shown]
  rw [hlen,hmap,← List.map_append,← List.range_add,← List.map_take,List.take_range,Nat.min_comm]

theorem dumpNext_gives (hdev : Readable dev mem) {addr : UInt16} {len : ℕ}
    (h : addr.toNat + len < 65535) (s : σ) :
    ∃ t, Gives dev (dumpNext (shown mem addr len) (UInt16.ofNat (addr.toNat + len))) s
      (shown mem addr (len+59)) t [.readMemory (UInt16.ofNat (addr.toNat + len)) 59] := by
  have haddr : (UInt16.ofNat (addr.toNat + len)).toNat = addr.toNat + len :=
    UInt16.toNat_ofNat_of_lt' (show _ < 65536 by omega)
  obtain ⟨t,ht⟩ := hdev s (UInt16.ofNat (addr.toNat + len)) 59
  have hread : Gives dev (Client.readMemory (UInt16.ofNat (addr.toNat + len)) 59) s
      ⟨UInt16.ofNat (addr.toNat + len),_⟩ t [.readMemory (UInt16.ofNat (addr.toNat + len)) 59] :=
    Client.expected ht rfl
  have hlen : (shown mem addr len).data.length = len := by
    rw [shown,List.length_map,List.length_range]
    omega
  have hextend : ((shown mem addr len).extendWith ⟨UInt16.ofNat (addr.toNat + len),
      (List.range 59).map fun i => mem ((UInt16.ofNat (addr.toNat + len)).toNat + i)⟩ :
        Exec MiniDSPError _) = .ok (.ok (),shown mem addr (len+59)) := by
    have hmod : len % 65536 = len := Nat.mod_eq_of_lt (by omega)
    have hsmall : addr.toNat + len % 65536 < 65536 := by omega
    rw [MemoryView.extendWith,hlen]
    refine (extendFrom_spec hsmall).trans ?_
    rw [if_pos (by rw [haddr,hmod]),haddr]
    exact congrArg (fun data => Except.ok (Except.ok (),(⟨addr,data⟩ : MemoryView)))
      (shown_append h 59)
  exact ⟨t,hread.bind ((Gives.lift hextend).bind (Gives.pure _))⟩

theorem foldlM_gives (hdev : Readable dev mem) (addr : UInt16) (len n : ℕ)
    (h : n = 0 ∨ addr.toNat + len + 59*(n-1) < 65535) (s : σ) :
    ∃ t, Gives dev (((List.range' (addr.toNat + len) n 59).map UInt16.ofNat).foldlM dumpNext
      (shown mem addr len)) s (shown mem addr (len + 59*n)) t
      (((List.range' (addr.toNat + len) n 59).map UInt16.ofNat).map fun i => .readMemory i 59) := by
  induction n generalizing len s with
  | zero => exact ⟨s,Gives.pure _⟩
  | succ n ih =>
    have hfirst : addr.toNat + len < 65535 := by omega
    obtain ⟨t,ht⟩ := dumpNext_gives hdev hfirst s
    obtain ⟨u,hu⟩ := ih (len+59) (by omega) t
    rw [List.range'_succ,List.map_cons,List.foldlM_cons]
    refine ⟨u,?_⟩
    have hlen : len + 59*(n+1) = len+59 + 59*n := by omega
    rw [hlen]
    exact ht.bind hu

/-- A dump shows what the memory holds at each address from the first one on to before the end,
and reads each byte once; without an end address that is the end of the first piece, so that
nothing is shown from any later address. -/
theorem dump_shows (hdev : Readable dev mem) (addr : UInt16) (endAddr : Option UInt16) (s : σ) :
    ∃ view t, Gives dev (dump addr endAddr) s view t
        ((stepBy 59 addr (endAddr.getD 59)).map fun i => .readMemory i 59) ∧
      view.base = addr ∧
      (∀ a : UInt16, addr ≤ a → a < endAddr.getD 59 → view.readU8 a = some (mem a.toNat)) ∧
      (endAddr = none → 59 ≤ addr → view.data = []) := by
  generalize hstop : endAddr.getD 59 = stop
  have hlt := stop.toNat_lt
  obtain ⟨t,ht⟩ := foldlM_gives hdev addr 0 ((stop.toNat - addr.toNat + 58)/59) (by omega) s
  rw [Nat.add_zero,Nat.zero_add] at ht
  have hempty : shown mem addr 0 = ⟨addr,[]⟩ := by
    rw [shown,Nat.zero_min]
    rfl
  refine ⟨shown mem addr (59*((stop.toNat - addr.toNat + 58)/59)),t,?_,rfl,?_,?_⟩
  · rw [dump,hstop,← hempty]
    exact ht
  · intro a haddr ha
    have hle : addr.toNat ≤ a.toNat := haddr
    have hbefore : a.toNat < stop.toNat := ha
    have hindex : a.toNat - addr.toNat <
        min (59*((stop.toNat - addr.toNat + 58)/59)) (65535 - addr.toNat) := by omega
    rw [MemoryView.readU8_eq haddr]
    show ((List.range _).map _)[a.toNat - addr.toNat]? = _
    rw [List.getElem?_map,List.getElem?_range hindex,Option.map_some,Nat.add_sub_cancel' hle]
  · rintro rfl h59
    have hle : 59 ≤ addr.toNat := h59
    have hstop59 : stop.toNat = 59 := congrArg UInt16.toNat hstop.symm
    have hnone : (stop.toNat - addr.toNat + 58)/59 = 0 := by omega
    rw [hnone,Nat.mul_zero,hempty]

def readOnly (mem : ℕ → UInt8) : Dialogue.Device Unit Commands Responses MiniDSPError :=
  fun s q => match q with
    | .readMemory addr size =>
      (.ok (.memoryData ⟨addr,(List.range size.toNat).map fun i => mem (addr.toNat + i)⟩),s)
    | _ => (.ok .ack,s)

theorem dump_shows_last : (∃ view t,
    Gives (readOnly UInt8.ofNat) (dump 0xff80 (some 0xffff)) () view t
      [.readMemory 0xff80 59,.readMemory 0xffbb 59,.readMemory 0xfff6 59] ∧
    view.readU8 0xfffe = some 0xfe) ∧
    ∃ view t, Gives (readOnly UInt8.ofNat) (dump 0xff80 none) () view t [] ∧ view.data = [] := by
  have hdev : Readable (readOnly UInt8.ofNat) UInt8.ofNat := fun s addr size => ⟨s,rfl⟩
  obtain ⟨view,t,hgives,-,hshown,-⟩ := dump_shows hdev 0xff80 (some 0xffff) ()
  obtain ⟨view',t',hgives',-,-,hnone⟩ := dump_shows hdev 0xff80 none ()
  exact ⟨⟨view,t,hgives,hshown 0xfffe (by decide) (by decide)⟩,view',t',hgives',
    hnone rfl (by decide)⟩

end
end Debug
end Minidsp
