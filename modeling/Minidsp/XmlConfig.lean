import Mathlib.Data.List.Forall2
import Mathlib.Data.List.Nodup
import Mathlib.Data.List.Sort
import Minidsp.Buffer
import Minidsp.Overlay

/-! XML configuration files, and the blob that restores the settings of a preset: a word at
each address, in the order of the document. -/
namespace Minidsp

open Buffer

structure Subpara where
  row : UInt8
  data : List Bytes
  deriving DecidableEq, Repr

structure Para where
  subpara : List Subpara
  deriving DecidableEq, Repr

inductive AddressableElement
  | item (addr : UInt64) (hex : Bytes)
  | fir (addr : UInt64) (para : List Para)
  | filter (addr : Option UInt64) (hex : Option (List Bytes))
  deriving DecidableEq, Repr

structure Setting where
  items : List AddressableElement
  deriving DecidableEq, Repr

/-- The result of an operation on `usize`, of a build that checks for overflow. -/
def usize (op : String) (n : ℕ) : Exec Empty ℕ :=
  if n < 2^64 then .ok n else .error (.panic (.explicit s!"attempt to {op} with overflow"))

/-- The most bytes a `Vec` can hold. -/
def isizeMax : ℕ := 2^63-1

namespace RestoreBlob

def ensureSize (blob : Bytes) (size : ℕ) : Exec Empty Bytes :=
  if blob.length < size then
    if isizeMax < size then .error (.panic (.explicit "capacity overflow"))
    else .ok (Overlay.grow 0 blob size)
  else .ok blob

/-- `Vec::splice`: what is taken out, and the vector with the replacement in its place. -/
def splice (blob : Bytes) (start stop : ℕ) (x : Bytes) : Exec Empty (Bytes × Bytes) := do
  let removed ← slice blob start stop
  return (removed,Overlay.splice blob start stop x)

def putSliceAt (blob : Bytes) (addr : ℕ) (x : Bytes) : Exec Empty Bytes := do
  let start ← usize "multiply" (addr*4)
  let stop ← usize "add" (start + x.length)
  let blob ← ensureSize blob stop
  -- the configuration has the opposite endianness
  let (removed,blob) ← splice blob start stop x.reverse
  if removed.length = x.length then return blob
  else .error (.panic (.explicit "assertion failed: splice.count() == x.len()"))

/-- A round of the loop over the values of a FIR: the address runs along. -/
def putNext : Bytes × ℕ → Bytes → Exec Empty (Bytes × ℕ)
  | (blob,addr),value => do
    let blob ← putSliceAt blob addr value
    let addr ← usize "add" (addr+1)
    return (blob,addr)

/-- `(addr..).zip(values)`: the range steps before the values turn out to have ended. -/
def putZip (blob : Bytes) (addr : ℕ) : List Bytes → Exec Empty Bytes
  | [] => do
    let _ ← usize "add" (addr+1)
    return blob
  | value :: values => do
    let next ← usize "add" (addr+1)
    let blob ← putSliceAt blob addr value
    putZip blob next values

def putElement (blob : Bytes) : AddressableElement → Exec Empty Bytes
  | .item addr hex => putSliceAt blob addr.toNat hex
  | .fir _ [] => return blob
  | .fir addr (para :: _) => do
    let (blob,_) ← para.subpara.foldlM (fun s sp => sp.data.foldlM putNext s) (blob,addr.toNat)
    return blob
  | .filter (some addr) (some hex) => putZip blob addr.toNat hex
  | .filter _ _ => return blob

end RestoreBlob

namespace Setting

def toRestoreBlob (s : Setting) : Exec Empty Bytes := s.items.foldlM RestoreBlob.putElement []

end Setting

namespace AddressableElement

/-- What the elements are sorted by; those without an address go to the end. -/
def key : AddressableElement → UInt64
  | .item addr _ => addr
  | .fir addr _ => addr
  | .filter (some addr) _ => addr
  | .filter none _ => 0xFFFFFFFFFFFFFFFF

def sortRows : AddressableElement → AddressableElement
  | .fir addr (para :: rest) =>
    .fir addr (⟨para.subpara.mergeSort fun a b => a.row ≤ b.row⟩ :: rest)
  | e => e

/-- The rows of a FIR sorted, in any way: equal ones may be swapped. -/
inductive SortsRows : AddressableElement → AddressableElement → Prop
  | fir (addr para rest) {rows : List Subpara} (perm : rows.Perm para.subpara)
      (sorted : rows.Pairwise fun a b => a.row ≤ b.row) :
      SortsRows (.fir addr (para :: rest)) (.fir addr (⟨rows⟩ :: rest))
  | same (e) (h : ∀ addr para rest, e ≠ .fir addr (para :: rest)) : SortsRows e e

def Ascending : AddressableElement → Prop
  | .fir _ (para :: _) => para.subpara.Pairwise fun a b => a.row < b.row
  | _ => True

end AddressableElement

namespace Setting

def sort (s : Setting) : Setting :=
  ⟨(s.items.mergeSort fun a b => a.key ≤ b.key).map AddressableElement.sortRows⟩

/-- What an unstable sort may make of a setting. -/
def SortsTo (s t : Setting) : Prop :=
  ∃ items : List AddressableElement, items.Perm s.items ∧
    items.Pairwise (fun a b => a.key ≤ b.key) ∧
    List.Forall₂ AddressableElement.SortsRows items t.items

end Setting

/-! What is written. -/

structure Word where
  addr : ℕ
  data : Bytes

namespace Word

def stop (w : Word) : ℕ := 4*w.addr + w.data.length

def Covers (w : Word) (i : ℕ) : Prop := 4*w.addr ≤ i ∧ i < w.stop

instance (w : Word) (i : ℕ) : Decidable (w.Covers i) := inferInstanceAs (Decidable (_ ∧ _))

def Disjoint (v w : Word) : Prop := ∀ i, v.Covers i → ¬w.Covers i

def Fits (w : Word) : Prop := w.stop ≤ isizeMax

end Word

def wordsFrom (addr : ℕ) (values : List Bytes) : List Word :=
  (values.zipIdx addr).map fun v => ⟨v.2,v.1⟩

namespace AddressableElement

def words : AddressableElement → List Word
  | .item addr hex => [⟨addr.toNat,hex⟩]
  | .fir _ [] => []
  | .fir addr (para :: _) => wordsFrom addr.toNat (para.subpara.flatMap Subpara.data)
  | .filter (some addr) (some hex) => wordsFrom addr.toNat hex
  | .filter _ _ => []

/-- All words of the element fit; a filter without any is not at the last address, where the
range could not step. -/
def Fits (e : AddressableElement) : Prop :=
  (∀ w ∈ e.words, w.Fits) ∧ e ≠ .filter (some 0xFFFFFFFFFFFFFFFF) (some [])

end AddressableElement

namespace Setting

variable (s : Setting)

def words : List Word := s.items.flatMap AddressableElement.words

def Fits : Prop := ∀ e ∈ s.items, e.Fits

def lastOver (i : ℕ) : Option Word := (s.words.filter fun w => w.Covers i).getLast?

structure Restored (blob : Bytes) : Prop where
  length : blob.length = (s.words.map Word.stop).foldr max 0
  word : ∀ w j, j < w.data.length → s.lastOver (4*w.addr + j) = some w →
    blob[4*w.addr + j]? = w.data[w.data.length - 1 - j]?
  gap : ∀ i, i < blob.length → s.lastOver i = none → blob[i]? = some 0

end Setting

/-! The words are what is written. -/

def Word.write (w : Word) : Overlay.Write UInt8 := ⟨4*w.addr,w.data.reverse⟩

theorem Word.write_stop (w : Word) : w.write.stop = w.stop := by
  rw [Overlay.Write.stop,Word.write,List.length_reverse]
  rfl

theorem Word.write_covers (w : Word) (i : ℕ) : w.write.Covers i ↔ w.Covers i := by
  rw [Overlay.Write.Covers,w.write_stop]
  rfl

namespace RestoreBlob

variable {β γ : Type} {c c' : Prop} {blob : Bytes} {ws ws' : List Word}

def overlaid (blob : Bytes) (ws : List Word) : Bytes :=
  (ws.map Word.write).foldl (Overlay.put 0) blob

theorem overlaid_append : overlaid blob (ws ++ ws') = overlaid (overlaid blob ws) ws' := by
  rw [overlaid,List.map_append,List.foldl_append]
  rfl

/-- Under the condition the words are written, and the blob is one that a `Vec` can hold;
otherwise there is a panic. -/
structure Writes (c : Prop) (blob : Bytes) (ws : List Word) (ret : Bytes → β)
    (x : Exec Empty β) : Prop where
  ok : c → x = .ok (ret (overlaid blob ws)) ∧ (overlaid blob ws).length ≤ isizeMax
  panics : ¬c → ∃ p, x = .error (.panic p)

namespace Writes

theorem congr {ret : Bytes → β} {x : Exec Empty β} (h : Writes c blob ws ret x) (hc : c' ↔ c) :
    Writes c' blob ws ret x := ⟨fun h' => h.ok (hc.mp h'),fun h' => h.panics (hc.not.mp h')⟩

protected theorem pure (ret : Bytes → β) (hlen : blob.length ≤ isizeMax) :
    Writes True blob [] ret (.ok (ret blob)) := ⟨fun _ => ⟨rfl,hlen⟩,fun h => absurd trivial h⟩

protected theorem bind {ret : Bytes → β} {ret' : Bytes → γ} {x : Exec Empty β}
    {f : β → Exec Empty γ} (hx : Writes c blob ws ret x)
    (hf : (overlaid blob ws).length ≤ isizeMax →
      Writes c' (overlaid blob ws) ws' ret' (f (ret (overlaid blob ws)))) :
    Writes (c ∧ c') blob (ws ++ ws') ret' (x >>= f) := by
  by_cases hc : c
  · obtain ⟨hok,hlen⟩ := hx.ok hc
    have hnext := hf hlen
    rw [hok]
    refine ⟨fun h => ?_,fun h => hnext.panics fun h' => h ⟨hc,h'⟩⟩
    rw [overlaid_append]
    exact hnext.ok h.2
  · obtain ⟨p,hp⟩ := hx.panics hc
    rw [hp]
    exact ⟨fun h => absurd h.1 hc,fun _ => ⟨p,rfl⟩⟩

theorem map {ret : Bytes → β} {ret' : Bytes → γ} {x : Exec Empty β} {f : β → Exec Empty γ}
    (hx : Writes c blob ws ret x) (hf : ∀ b, c → f (ret b) = .ok (ret' b)) :
    Writes c blob ws ret' (x >>= f) := by
  constructor
  · intro hc
    obtain ⟨hok,hlen⟩ := hx.ok hc
    rw [hok]
    exact ⟨hf _ hc,hlen⟩
  · intro hc
    obtain ⟨p,hp⟩ := hx.panics hc
    rw [hp]
    exact ⟨p,rfl⟩

end Writes

theorem usize_ok {op : String} {n : ℕ} (h : n < 2^64) : usize op n = .ok n := if_pos h

theorem usize_panics (op : String) {n : ℕ} (h : ¬n < 2^64) :
    ∃ p, usize op n = .error (.panic p) := ⟨_,if_neg h⟩

theorem ensureSize_ok {size : ℕ} (h : size ≤ isizeMax) :
    ensureSize blob size = .ok (Overlay.grow 0 blob size) := by
  by_cases hlt : blob.length < size
  · rw [ensureSize,if_pos hlt,if_neg (Nat.not_lt.mpr h)]
  · rw [ensureSize,if_neg hlt,Overlay.grow,Nat.sub_eq_zero_of_le (Nat.not_lt.mp hlt)]
    simp

theorem splice_ok {start stop : ℕ} {x : Bytes} (hstart : start ≤ stop)
    (hstop : stop ≤ blob.length) : ∃ removed, removed.length = stop - start ∧
      splice blob start stop x = .ok (removed,Overlay.splice blob start stop x) := by
  refine ⟨(blob.take stop).drop start,?_,?_⟩
  · rw [List.length_drop,List.length_take]
    omega
  · simp only [splice,slice,if_pos (And.intro hstart hstop)]
    rfl

theorem putSliceAt_ok {addr : ℕ} {x : Bytes} (h : (Word.mk addr x).Fits) :
    putSliceAt blob addr x = .ok (Overlay.put 0 blob (Word.mk addr x).write) := by
  have hfits : 4*addr + x.length ≤ 2^63-1 := h
  have hgrown : 4*addr + x.length ≤ (Overlay.grow 0 blob (4*addr + x.length)).length := by
    rw [Overlay.length_grow]
    exact le_max_right _ _
  obtain ⟨removed,hlen,hsplice⟩ :=
    splice_ok (x := x.reverse) (Nat.le_add_right (4*addr) x.length) hgrown
  have hremoved : removed.length = x.length := by omega
  have hensure : ensureSize blob (4*addr + x.length) = _ := ensureSize_ok h
  rw [putSliceAt,Nat.mul_comm addr,usize_ok (by omega)]
  simp only [bind,Except.bind]
  rw [usize_ok (by omega)]
  simp only [hensure,hsplice,if_pos hremoved]
  rw [Overlay.put,Word.write_stop]
  rfl

/-- A word that does not fit is not written: its place is beyond `usize`, or beyond what the
blob can be made to hold. -/
theorem putSliceAt_panics {addr : ℕ} {x : Bytes} (h : ¬(Word.mk addr x).Fits)
    (hlen : blob.length ≤ isizeMax) : ∃ p, putSliceAt blob addr x = .error (.panic p) := by
  have hbeyond : isizeMax < 4*addr + x.length := Nat.not_le.mp h
  rw [putSliceAt,Nat.mul_comm addr]
  by_cases hstart : 4*addr < 2^64
  · rw [usize_ok hstart]
    simp only [bind,Except.bind]
    by_cases hstop : 4*addr + x.length < 2^64
    · rw [usize_ok hstop]
      simp only [ensureSize,if_pos (hlen.trans_lt hbeyond),if_pos hbeyond]
      exact ⟨_,rfl⟩
    · obtain ⟨p,hp⟩ := usize_panics "add" hstop
      exact ⟨p,by rw [hp]⟩
  · obtain ⟨p,hp⟩ := usize_panics "multiply" hstart
    exact ⟨p,by rw [hp]; rfl⟩

theorem putSliceAt_writes (hlen : blob.length ≤ isizeMax) (addr : ℕ) (x : Bytes) :
    Writes (Word.mk addr x).Fits blob [⟨addr,x⟩] id (putSliceAt blob addr x) := by
  refine ⟨fun h => ⟨putSliceAt_ok h,?_⟩,fun h => putSliceAt_panics h hlen⟩
  change (Overlay.put 0 blob (Word.mk addr x).write).length ≤ isizeMax
  rw [Overlay.length_put,Word.write_stop]
  exact max_le hlen h

/-! Words at consecutive addresses. -/

theorem wordsFrom_cons (addr : ℕ) (value : Bytes) (values : List Bytes) :
    wordsFrom addr (value :: values) = ⟨addr,value⟩ :: wordsFrom (addr+1) values := rfl

theorem wordsFrom_append (addr : ℕ) (values values' : List Bytes) :
    wordsFrom addr (values ++ values') =
      wordsFrom addr values ++ wordsFrom (addr + values.length) values' := by
  rw [wordsFrom,List.zipIdx_append,List.map_append]
  rfl

theorem putNext_writes (hlen : blob.length ≤ isizeMax) (addr : ℕ) (value : Bytes) :
    Writes (Word.mk addr value).Fits blob [⟨addr,value⟩] (fun b => (b,addr+1))
      (putNext (blob,addr) value) := by
  refine (putSliceAt_writes hlen addr value).map fun b h => ?_
  have hfits : 4*addr + value.length ≤ 2^63-1 := h
  rw [usize_ok (by omega)]
  rfl

theorem putRow_writes (hlen : blob.length ≤ isizeMax) (addr : ℕ) (values : List Bytes) :
    Writes (∀ w ∈ wordsFrom addr values, w.Fits) blob (wordsFrom addr values)
      (fun b => (b,addr + values.length)) (values.foldlM putNext (blob,addr)) := by
  induction values generalizing blob addr with
  | nil => exact (Writes.pure (fun b => (b,addr)) hlen).congr (by simp [wordsFrom])
  | cons value values ih =>
    rw [List.foldlM_cons,wordsFrom_cons,List.length_cons]
    have hrest := Writes.bind (f := fun s => values.foldlM putNext s)
      (putNext_writes hlen addr value) fun hlen' => ih hlen' (addr+1)
    rw [Nat.add_right_comm addr 1] at hrest
    exact hrest.congr List.forall_mem_cons

theorem putRows_writes (hlen : blob.length ≤ isizeMax) (addr : ℕ) (rows : List Subpara) :
    Writes (∀ w ∈ wordsFrom addr (rows.flatMap Subpara.data), w.Fits) blob
      (wordsFrom addr (rows.flatMap Subpara.data))
      (fun b => (b,addr + (rows.flatMap Subpara.data).length))
      (rows.foldlM (fun s sp => sp.data.foldlM putNext s) (blob,addr)) := by
  induction rows generalizing blob addr with
  | nil => exact (Writes.pure (fun b => (b,addr)) hlen).congr (by simp [wordsFrom])
  | cons sp rows ih =>
    have hrest := Writes.bind
      (f := fun s => rows.foldlM (fun s sp => sp.data.foldlM putNext s) s)
      (putRow_writes hlen addr sp.data) fun hlen' => ih hlen' (addr + sp.data.length)
    rw [List.foldlM_cons,List.flatMap_cons,wordsFrom_append,List.length_append,← Nat.add_assoc]
    exact hrest.congr List.forall_mem_append

theorem putZip_writes (hlen : blob.length ≤ isizeMax) (addr : ℕ) (values : List Bytes)
    (hroom : values = [] → addr+1 < 2^64) :
    Writes (∀ w ∈ wordsFrom addr values, w.Fits) blob (wordsFrom addr values) id
      (putZip blob addr values) := by
  induction values generalizing blob addr with
  | nil =>
    rw [putZip,usize_ok (hroom rfl)]
    exact (Writes.pure id hlen).congr (by simp [wordsFrom])
  | cons value values ih =>
    rw [putZip,wordsFrom_cons]
    by_cases hnext : addr+1 < 2^64
    · rw [usize_ok hnext]
      by_cases hfits : (Word.mk addr value).Fits
      · have hfits' : 4*addr + value.length ≤ 2^63-1 := hfits
        have hrest := Writes.bind (f := fun b => putZip b (addr+1) values)
          (putSliceAt_writes hlen addr value)
          fun hlen' => ih hlen' (addr+1) (by omega)
        exact hrest.congr List.forall_mem_cons
      · obtain ⟨p,hp⟩ := putSliceAt_panics hfits hlen
        simp only [bind,Except.bind,hp]
        exact ⟨fun h => absurd (h _ List.mem_cons_self) hfits,fun _ => ⟨p,rfl⟩⟩
    · obtain ⟨p,hp⟩ := usize_panics "add" hnext
      rw [hp]
      refine ⟨fun h => ?_,fun _ => ⟨p,rfl⟩⟩
      have hfits : 4*addr + value.length ≤ 2^63-1 := h _ List.mem_cons_self
      omega

theorem putElement_writes (hlen : blob.length ≤ isizeMax) (e : AddressableElement) :
    Writes e.Fits blob e.words id (putElement blob e) := by
  cases e with
  | item addr hex =>
    exact (putSliceAt_writes hlen addr.toNat hex).congr
      (by simp [AddressableElement.Fits,AddressableElement.words])
  | fir addr para =>
    cases para with
    | nil =>
      exact (Writes.pure id hlen).congr
        (by simp [AddressableElement.Fits,AddressableElement.words])
    | cons para rest =>
      have hrows := Writes.map (f := fun s => (pure s.1 : Exec Empty Bytes))
        (putRows_writes hlen addr.toNat para.subpara) fun b _ => rfl
      exact hrows.congr (by simp [AddressableElement.Fits,AddressableElement.words])
  | filter addr hex =>
    cases addr with
    | none =>
      exact (Writes.pure id hlen).congr
        (by simp [AddressableElement.Fits,AddressableElement.words])
    | some addr =>
      cases hex with
      | none =>
        exact (Writes.pure id hlen).congr
          (by simp [AddressableElement.Fits,AddressableElement.words])
      | some hex =>
        by_cases hroom : hex = [] → addr.toNat+1 < 2^64
        · refine (putZip_writes hlen addr.toNat hex hroom).congr (and_iff_left ?_)
          intro he
          simp only [AddressableElement.filter.injEq,Option.some.injEq] at he
          obtain ⟨rfl,rfl⟩ := he
          exact absurd (hroom rfl) (by decide)
        · push Not at hroom
          obtain ⟨rfl,hlast⟩ := hroom
          obtain ⟨p,hp⟩ := usize_panics "add" (Nat.not_lt.mpr hlast)
          obtain rfl : addr = 0xFFFFFFFFFFFFFFFF := by
            rw [← UInt64.toNat_inj]
            have hlt := addr.toNat_lt
            change _ = 18446744073709551615
            omega
          refine ⟨fun h => absurd rfl h.2,fun _ => ⟨p,?_⟩⟩
          rw [putElement,putZip,hp]
          rfl

end RestoreBlob

namespace Setting

variable {s t : Setting}

open RestoreBlob

/-- The blob of a setting. -/
theorem toRestoreBlob_writes (s : Setting) :
    Writes s.Fits [] s.words id s.toRestoreBlob := by
  have hfold : ∀ (items : List AddressableElement) (blob : Bytes), blob.length ≤ isizeMax →
      Writes (∀ e ∈ items, e.Fits) blob (items.flatMap AddressableElement.words) id
        (items.foldlM putElement blob) := by
    intro items
    induction items with
    | nil => exact fun blob hlen => (Writes.pure id hlen).congr (by simp)
    | cons e items ih =>
      intro blob hlen
      have hrest := Writes.bind (f := fun b => items.foldlM putElement b)
        (putElement_writes hlen e) fun hlen' => ih _ hlen'
      rw [List.foldlM_cons,List.flatMap_cons]
      exact hrest.congr List.forall_mem_cons
  exact hfold s.items [] (Nat.zero_le _)

theorem toRestoreBlob_ok (h : s.Fits) :
    s.toRestoreBlob = .ok (Overlay.writeAll 0 (s.words.map Word.write)) :=
  (s.toRestoreBlob_writes.ok h).1

theorem top?_eq (s : Setting) (i : ℕ) :
    Overlay.top? (s.words.map Word.write) i = (s.lastOver i).map Word.write := by
  have hcovers : ((fun w : Overlay.Write UInt8 => decide (w.Covers i)) ∘ Word.write) =
      fun w => decide (w.Covers i) :=
    funext fun w => decide_eq_decide.mpr (w.write_covers i)
  rw [Overlay.top?,List.filter_map,hcovers,List.getLast?_map,lastOver]

theorem restored_writeAll (s : Setting) :
    s.Restored (Overlay.writeAll 0 (s.words.map Word.write)) where
  length := by
    rw [Overlay.length_writeAll,Overlay.extent,List.map_map]
    simp only [Function.comp_def,Word.write_stop]
  word w j hj hlast := by
    have htop : Overlay.top? (s.words.map Word.write) (4*w.addr + j) = some w.write := by
      rw [top?_eq,hlast]
      rfl
    rw [Overlay.getElem?_of_top? 0 htop]
    change w.data.reverse[4*w.addr + j - 4*w.addr]? = _
    rw [Nat.add_sub_cancel_left,List.getElem?_reverse hj]
  gap i hi hlast := Overlay.getElem?_of_gap hi (by rw [top?_eq,hlast]; rfl)

/-! The order of the items. -/

theorem words_perm (h : s.items.Perm t.items) : s.words.Perm t.words :=
  h.flatMap_right _

/-- Words of which no two share a byte are the same blob in any order of the items. -/
theorem toRestoreBlob_perm (hs : s.Fits) (hd : s.words.Pairwise Word.Disjoint)
    (h : t.items.Perm s.items) : t.toRestoreBlob = s.toRestoreBlob := by
  have ht : t.Fits := fun e he => hs e (h.mem_iff.mp he)
  have hwrites : (s.words.map Word.write).Pairwise Overlay.Write.Disjoint := by
    refine hd.map _ fun v w hvw i hv hw => ?_
    exact hvw i ((v.write_covers i).mp hv) ((w.write_covers i).mp hw)
  rw [toRestoreBlob_ok hs,toRestoreBlob_ok ht]
  exact congrArg _ (Overlay.writeAll_perm 0 hwrites ((words_perm h).symm.map _)).symm

theorem sortsRows_eq {e e' : AddressableElement} (he : e.Ascending) (h : e.SortsRows e') :
    e = e' := by
  cases h with
  | same => rfl
  | @fir addr para rest rows perm sorted =>
    have hasc : para.subpara.Pairwise fun a b => a.row < b.row := he
    have hnodup : (para.subpara.map Subpara.row).Nodup :=
      List.pairwise_map.mpr (hasc.imp fun hlt => UInt8.ne_of_lt hlt)
    have hrows : rows = para.subpara := by
      refine List.Perm.eq_of_pairwise ?_ sorted (hasc.imp fun hlt => UInt8.le_of_lt hlt) perm
      intro a b ha hb hab hba
      exact List.inj_on_of_nodup_map hnodup (perm.mem_iff.mp ha) hb (UInt8.le_antisymm hab hba)
    rw [hrows]

theorem sortsTo_perm (hasc : ∀ e ∈ s.items, e.Ascending) (h : s.SortsTo t) :
    t.items.Perm s.items := by
  obtain ⟨items,hperm,-,hrows⟩ := h
  have hsame : ∀ {es es' : List AddressableElement}, (∀ e ∈ es, e.Ascending) →
      List.Forall₂ AddressableElement.SortsRows es es' → es = es' := by
    intro es es' hes hes'
    induction hes' with
    | nil => rfl
    | cons hrow hrest ih =>
      rw [sortsRows_eq (hes _ List.mem_cons_self) hrow,
        ih fun e he => hes e (List.mem_cons_of_mem _ he)]
  rw [← hsame (fun e he => hasc e (hperm.mem_iff.mp he)) hrows]
  exact hperm

theorem pairwise_mergeSort_key {α κ : Type} [LE κ] [DecidableLE κ] [Std.IsLinearOrder κ]
    (key : α → κ) (l : List α) :
    (l.mergeSort fun a b => key a ≤ key b).Pairwise fun a b => key a ≤ key b := by
  have htotal : Std.Total fun a b : α => key a ≤ key b := ⟨fun _ _ => Std.le_total⟩
  have htrans : IsTrans α fun a b => key a ≤ key b := ⟨fun _ _ _ => Std.le_trans⟩
  exact List.pairwise_mergeSort' (fun a b => key a ≤ key b) l

theorem sortRows_sortsRows (e : AddressableElement) : e.SortsRows e.sortRows := by
  cases e with
  | fir addr para =>
    cases para with
    | nil => exact .same _ nofun
    | cons para rest =>
      exact .fir addr para rest (List.mergeSort_perm _ _) (pairwise_mergeSort_key _ _)
  | _ => exact .same _ nofun

/-- The stable sort is one of the ways to sort. -/
theorem sort_sortsTo (s : Setting) : s.SortsTo s.sort := by
  refine ⟨_,List.mergeSort_perm s.items _,pairwise_mergeSort_key _ _,?_⟩
  rw [sort,List.forall₂_map_right_iff]
  exact List.forall₂_same.mpr fun e _ => sortRows_sortsRows e

structure Restores (s : Setting) (blob : Bytes) : Prop where
  ok : s.toRestoreBlob = .ok blob
  restored : s.Restored blob
  perm : s.words.Pairwise Word.Disjoint → ∀ t : Setting, t.items.Perm s.items →
    t.toRestoreBlob = .ok blob
  sort : s.words.Pairwise Word.Disjoint → (∀ e ∈ s.items, e.Ascending) →
    ∀ t : Setting, s.SortsTo t → t.toRestoreBlob = .ok blob

/-- A setting of which every word fits has its blob, and one with a word that does not has
none. -/
theorem toRestoreBlob_spec (s : Setting) : (s.Fits → ∃ blob, s.Restores blob) ∧
    (¬s.Fits → ∃ p, s.toRestoreBlob = .error (.panic p)) := by
  refine ⟨fun hs => ?_,s.toRestoreBlob_writes.panics⟩
  refine ⟨_,toRestoreBlob_ok hs,s.restored_writeAll,fun hd t ht => ?_,fun hd hasc t ht => ?_⟩
  · rw [toRestoreBlob_perm hs hd ht,toRestoreBlob_ok hs]
  · rw [toRestoreBlob_perm hs hd (sortsTo_perm hasc ht),toRestoreBlob_ok hs]

/-- A gap, and a shorter word over a longer one. -/
example : toRestoreBlob ⟨[.item 1 [1,2,3,4],.item 3 [5],.item 1 [9]]⟩ =
    .ok [0,0,0,0,9,3,2,1,0,0,0,0,5] := by decide

/-- An empty word from 2^62 on is out of reach, and equal rows may be swapped: the words of a
FIR then come in another order. -/
theorem far_word_and_equal_rows :
    (¬∀ s : Setting, ∃ blob, s.toRestoreBlob = .ok blob ∧ s.Restored blob) ∧
    ¬∀ s t : Setting, s.words.Pairwise Word.Disjoint →
      (∀ addr para rest, .fir addr (para :: rest) ∈ s.items →
        para.subpara.Pairwise fun a b => a.row ≤ b.row) →
      s.SortsTo t → t.toRestoreBlob = s.toRestoreBlob := by
  constructor
  · intro h
    obtain ⟨blob,hblob,-⟩ := h ⟨[.item 0x4000000000000000 []]⟩
    cases hblob
  · intro h
    let rows : List Subpara := [⟨0,[[1]]⟩,⟨0,[[2]]⟩]
    have hdisjoint : [Word.mk 0 [1],Word.mk 1 [2]].Pairwise Word.Disjoint := by
      rw [List.pairwise_pair]
      rintro i ⟨-,hi⟩ ⟨hi',-⟩
      simp only [Word.stop,List.length_singleton] at hi hi'
      omega
    have hsorts : (Setting.mk [.fir 0 [⟨rows⟩]]).SortsTo ⟨[.fir 0 [⟨rows.reverse⟩]]⟩ := by
      refine ⟨_,List.Perm.refl _,List.pairwise_singleton _ _,?_⟩
      exact .cons (.fir 0 ⟨rows⟩ [] (List.reverse_perm rows) (by decide)) .nil
    have hrows : ∀ addr para rest,
        AddressableElement.fir addr (para :: rest) ∈ [.fir 0 [⟨rows⟩]] →
        para.subpara.Pairwise fun a b => a.row ≤ b.row := by
      intro addr para rest hmem
      cases List.mem_singleton.mp hmem
      decide
    cases h ⟨[.fir 0 [⟨rows⟩]]⟩ ⟨[.fir 0 [⟨rows.reverse⟩]]⟩ hdisjoint hrows hsorts

end Setting
end Minidsp
