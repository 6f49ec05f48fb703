import Mathlib.Data.List.GetD
import Mathlib.Data.List.Induction
import Mathlib.Data.List.Perm.Basic
import Mathlib.Order.Lattice

/-! Lists written over each other into a buffer that grows, or into a memory: how long the
buffer gets, which write is seen at each place, and when the order of the writes does not
matter. -/
namespace Overlay

variable {α : Type}

def grow (fill : α) (buf : List α) (size : ℕ) : List α :=
  buf ++ List.replicate (size - buf.length) fill

def splice (buf : List α) (start stop : ℕ) (xs : List α) : List α :=
  buf.take start ++ xs ++ buf.drop stop

structure Write (α : Type) where
  offset : ℕ
  data : List α

namespace Write

def stop (w : Write α) : ℕ := w.offset + w.data.length

theorem offset_add (w : Write α) : w.offset + w.data.length = w.stop := rfl

def Covers (w : Write α) (i : ℕ) : Prop := w.offset ≤ i ∧ i < w.stop

instance (w : Write α) (i : ℕ) : Decidable (w.Covers i) := inferInstanceAs (Decidable (_ ∧ _))

def Disjoint (v w : Write α) : Prop := ∀ i, v.Covers i → ¬w.Covers i

end Write

def put (fill : α) (buf : List α) (w : Write α) : List α :=
  splice (grow fill buf w.stop) w.offset w.stop w.data

def extent (ws : List (Write α)) : ℕ := (ws.map Write.stop).foldr max 0

def top? (ws : List (Write α)) (i : ℕ) : Option (Write α) :=
  (ws.filter fun w => w.Covers i).getLast?

def seen (fill : α) (ws : List (Write α)) (i : ℕ) : α :=
  match top? ws i with
  | some w => w.data.getD (i - w.offset) fill
  | none => fill

def writeAll (fill : α) (ws : List (Write α)) : List α := ws.foldl (put fill) []

/-- The write on a memory, where every place has a value before. -/
def store (m : ℕ → α) (w : Write α) (i : ℕ) : α :=
  if w.Covers i then w.data.getD (i - w.offset) (m i) else m i

section
variable {fill : α} {buf : List α} {w : Write α} {ws ws' : List (Write α)} {i : ℕ}

theorem length_grow (size : ℕ) : (grow fill buf size).length = max buf.length size := by
  rw [grow,List.length_append,List.length_replicate]
  omega

theorem getD_grow (size : ℕ) : (grow fill buf size).getD i fill = buf.getD i fill := by
  rw [grow]
  by_cases hi : i < buf.length
  · rw [List.getD_append _ _ _ _ hi]
  · rw [List.getD_append_right _ _ _ _ (by omega),List.getD_eq_getElem?_getD,
      List.getElem?_getD_replicate_default_eq,List.getD_eq_default _ _ (by omega)]

theorem length_splice {start stop : ℕ} {xs : List α} (hstop : stop ≤ buf.length)
    (hlen : start + xs.length = stop) : (splice buf start stop xs).length = buf.length := by
  simp only [splice,List.length_append,List.length_take,List.length_drop]
  omega

theorem getD_splice {start stop : ℕ} {xs : List α} (hstop : stop ≤ buf.length)
    (hlen : start + xs.length = stop) : (splice buf start stop xs).getD i fill =
      if start ≤ i ∧ i < stop then xs.getD (i - start) fill else buf.getD i fill := by
  have htake : (buf.take start).length = start := by
    rw [List.length_take]
    omega
  rw [splice,List.append_assoc]
  by_cases hbefore : i < start
  · rw [List.getD_append _ _ _ _ (by omega),if_neg (by omega),List.getD_eq_getElem?_getD,
      List.getElem?_take_of_lt hbefore,← List.getD_eq_getElem?_getD]
  · rw [List.getD_append_right _ _ _ _ (by omega),htake]
    by_cases hin : i < stop
    · rw [List.getD_append _ _ _ _ (by omega),if_pos (by omega)]
    · rw [List.getD_append_right _ _ _ _ (by omega),if_neg (by omega),
        List.getD_eq_getElem?_getD,List.getElem?_drop,← List.getD_eq_getElem?_getD]
      congr 1
      omega

theorem stop_le_grow : w.stop ≤ (grow fill buf w.stop).length := by
  rw [length_grow]
  exact le_max_right _ _

theorem length_put : (put fill buf w).length = max buf.length w.stop := by
  rw [put,length_splice stop_le_grow w.offset_add,length_grow]

theorem getD_put : (put fill buf w).getD i fill =
    if w.Covers i then w.data.getD (i - w.offset) fill else buf.getD i fill := by
  rw [put,getD_splice stop_le_grow w.offset_add,getD_grow]
  rfl

theorem extent_concat : extent (ws ++ [w]) = max (extent ws) w.stop := by
  induction ws with
  | nil => exact max_comm _ _
  | cons v ws ih =>
    change max v.stop (extent (ws ++ [w])) = max (max v.stop (extent ws)) w.stop
    rw [ih,max_assoc]

theorem top?_concat : top? (ws ++ [w]) i = if w.Covers i then some w else top? ws i := by
  rw [top?,List.filter_append]
  by_cases hw : w.Covers i
  · simp [hw]
  · simp [hw,top?]

theorem seen_concat : seen fill (ws ++ [w]) i =
    if w.Covers i then w.data.getD (i - w.offset) fill else seen fill ws i := by
  rw [seen,top?_concat]
  by_cases hw : w.Covers i
  · rw [if_pos hw,if_pos hw]
  · rw [if_neg hw,if_neg hw,seen]

theorem length_writeAll (fill : α) (ws : List (Write α)) :
    (writeAll fill ws).length = extent ws := by
  induction ws using List.reverseRecOn with
  | nil => rfl
  | append_singleton ws w ih =>
    rw [writeAll,List.foldl_append,extent_concat,← ih]
    exact length_put

/-- At each place the last write over it is seen, and the filling where there is none. -/
theorem getD_writeAll (fill : α) (ws : List (Write α)) (i : ℕ) :
    (writeAll fill ws).getD i fill = seen fill ws i := by
  induction ws using List.reverseRecOn with
  | nil => rfl
  | append_singleton ws w ih =>
    rw [writeAll,List.foldl_append,seen_concat,← ih]
    exact getD_put

theorem stop_le_extent (h : w ∈ ws) : w.stop ≤ extent ws := by
  induction ws with
  | nil => cases h
  | cons v ws ih =>
    change _ ≤ max v.stop (extent ws)
    rcases List.mem_cons.mp h with rfl | h
    · exact le_max_left _ _
    · exact (ih h).trans (le_max_right _ _)

theorem covers_of_top? (h : top? ws i = some w) : w ∈ ws ∧ w.Covers i := by
  have hmem := List.mem_filter.mp (List.mem_of_getLast? h)
  exact ⟨hmem.1,by simpa using hmem.2⟩

theorem getElem?_of_lt (fill : α) (hi : i < buf.length) : buf[i]? = some (buf.getD i fill) := by
  rw [List.getD_eq_getElem _ _ hi,List.getElem?_eq_getElem hi]

theorem getElem?_of_top? (fill : α) (h : top? ws i = some w) :
    (writeAll fill ws)[i]? = w.data[i - w.offset]? := by
  obtain ⟨hmem,hcovers⟩ := covers_of_top? h
  have hstop := stop_le_extent hmem
  have hlt : i < w.offset + w.data.length := hcovers.2
  have hle : w.offset ≤ i := hcovers.1
  have hi : i < (writeAll fill ws).length := by
    rw [length_writeAll]
    exact hlt.trans_le hstop
  have hin : i - w.offset < w.data.length := by omega
  rw [getElem?_of_lt fill hi,getD_writeAll,seen,h,← getElem?_of_lt fill hin]

theorem getElem?_of_gap (hi : i < (writeAll fill ws).length) (h : top? ws i = none) :
    (writeAll fill ws)[i]? = some fill := by
  rw [getElem?_of_lt fill hi,getD_writeAll,seen,h]

/-- Of disjoint writes at most one covers a place. -/
theorem filter_covers_le (hd : ws.Pairwise Write.Disjoint) (i : ℕ) :
    (ws.filter fun w => w.Covers i).length ≤ 1 := by
  have hfilter := hd.filter fun w => decide (w.Covers i)
  cases h : ws.filter fun w => w.Covers i with
  | nil => simp
  | cons v rest =>
    cases rest with
    | nil => simp
    | cons w rest =>
      have hcovers : ∀ u ∈ v :: w :: rest, u.Covers i := by
        intro u hu
        rw [← h] at hu
        simpa using (List.mem_filter.mp hu).2
      rw [h] at hfilter
      have hvw : v.Disjoint w := (List.pairwise_cons.mp hfilter).1 w (by simp)
      exact absurd (hcovers w (by simp)) (hvw i (hcovers v (by simp)))

theorem top?_perm (hd : ws.Pairwise Write.Disjoint) (h : ws.Perm ws') (i : ℕ) :
    top? ws i = top? ws' i := by
  have hperm := h.filter fun w => decide (w.Covers i)
  have hle := filter_covers_le hd i
  rw [top?,top?]
  cases hws : ws.filter fun w => w.Covers i with
  | nil =>
    rw [hws] at hperm
    rw [hperm.nil_eq]
  | cons v rest =>
    rw [hws,List.length_cons] at hle
    obtain rfl : rest = [] := List.length_eq_zero_iff.mp (by omega)
    rw [hws] at hperm
    rw [List.perm_singleton.mp hperm.symm]

theorem top?_of_disjoint (hd : ws.Pairwise Write.Disjoint) (hw : w ∈ ws) (hi : w.Covers i) :
    top? ws i = some w := by
  have hle := filter_covers_le hd i
  have hmem : w ∈ ws.filter fun w => w.Covers i := List.mem_filter.mpr ⟨hw,by simpa using hi⟩
  rw [top?]
  cases hws : ws.filter fun w => w.Covers i with
  | nil =>
    rw [hws] at hmem
    cases hmem
  | cons v rest =>
    rw [hws,List.length_cons] at hle
    obtain rfl : rest = [] := List.length_eq_zero_iff.mp (by omega)
    rw [hws,List.mem_singleton] at hmem
    rw [hmem]
    rfl

theorem foldl_store_of_top? {m : ℕ → α} (h : top? ws i = some w) :
    some (ws.foldl store m i) = w.data[i - w.offset]? := by
  induction ws using List.reverseRecOn with
  | nil => cases h
  | append_singleton ws v ih =>
    rw [top?_concat] at h
    rw [List.foldl_append,List.foldl_cons,List.foldl_nil,store]
    by_cases hv : v.Covers i
    · rw [if_pos hv] at h
      obtain rfl := Option.some.inj h
      have hin : i - v.offset < v.data.length := by
        have hstop : i < v.offset + v.data.length := hv.2
        have hle : v.offset ≤ i := hv.1
        omega
      rw [if_pos hv,getElem?_of_lt _ hin]
    · rw [if_neg hv] at h
      rw [if_neg hv,ih h]

theorem foldl_store_of_gap {m : ℕ → α} (h : ∀ w ∈ ws, ¬w.Covers i) :
    ws.foldl store m i = m i := by
  induction ws using List.reverseRecOn with
  | nil => rfl
  | append_singleton ws v ih =>
    rw [List.foldl_append,List.foldl_cons,List.foldl_nil,store,if_neg (h v (by simp)),
      ih fun w hw => h w (by simp [hw])]

theorem extent_perm (h : ws.Perm ws') : extent ws = extent ws' :=
  (h.map Write.stop).foldr_eq 0

theorem writeAll_perm (fill : α) (hd : ws.Pairwise Write.Disjoint) (h : ws.Perm ws') :
    writeAll fill ws = writeAll fill ws' := by
  have hlen : (writeAll fill ws).length = (writeAll fill ws').length := by
    rw [length_writeAll,length_writeAll,extent_perm h]
  refine List.ext_getElem hlen fun i hi hi' => ?_
  rw [← List.getD_eq_getElem _ fill hi,← List.getD_eq_getElem _ fill hi',getD_writeAll,
    getD_writeAll,seen,seen,top?_perm hd h]

end

section
variable {κ V X : Type*} [DecidableEq κ]

theorem foldl_update (key : X → κ) (val : X → V) (xs : List X) (m : κ → V) (k : κ) :
    xs.foldl (fun m x => Function.update m (key x) (val x)) m k =
      ((xs.filter fun x => key x = k).getLast?).elim (m k) val := by
  induction xs using List.reverseRecOn with
  | nil => rfl
  | append_singleton xs x ih =>
    rw [List.foldl_append,List.foldl_cons,List.foldl_nil,List.filter_append]
    by_cases hx : key x = k
    · rw [← hx,Function.update_self]
      simp
    · rw [Function.update_of_ne (Ne.symm hx),ih,List.filter_cons_of_neg (by simpa using hx),
        List.filter_nil,List.append_nil]

end
end Overlay
