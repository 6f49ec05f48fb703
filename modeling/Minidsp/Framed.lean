import Mathlib.Data.List.Basic

/-! Incremental decoding, the way a framed stream drives its decoder: every read is appended
to the buffer, then the decoder is called until it asks for more. The main result is that a
decoder whose answers are stable under appending sees only the concatenation of the reads. -/
namespace Framed

variable {ε σ α β : Type}

/-- One call returns the new state, what is left of the buffer, and an item if there is one. -/
abbrev Decoder (ε σ α β : Type) := σ → List α → Except ε (σ × List α × Option β)

/-- The decoder where it asks for more, with the items it gave since the last read. -/
structure Stop (σ α β : Type) where
  state : σ
  buffer : List α
  items : List β
  deriving DecidableEq

def Stop.cons (x : β) (s : Stop σ α β) : Stop σ α β := { s with items := x :: s.items }

/-- Call until the decoder asks for more; `none` when a call fails or the fuel is too small. -/
def drain (dec : Decoder ε σ α β) : ℕ → σ → List α → Option (Stop σ α β)
  | 0, _, _ => none
  | n+1, c, buf =>
    match dec c buf with
    | .error _ => none
    | .ok (c',buf',none) => some ⟨c',buf',[]⟩
    | .ok (c',buf',some x) => (drain dec n c' buf').map (Stop.cons x)

/-- One read after the other, each with a call of fuel for every element in the buffer. -/
def drive (dec : Decoder ε σ α β) :
    σ → List α → List (List α) → Option (σ × List α × List (Stop σ α β))
  | c, buf, [] => some (c,buf,[])
  | c, buf, read :: reads =>
    (drain dec ((buf ++ read).length+1) c (buf ++ read)).bind fun stop =>
      (drive dec stop.state stop.buffer reads).map fun r => (r.1,r.2.1,stop :: r.2.2)

variable {dec : Decoder ε σ α β}

theorem drain_of_none {c c' : σ} {buf buf' : List α} (n : ℕ)
    (h : dec c buf = .ok (c',buf',none)) : drain dec (n+1) c buf = some ⟨c',buf',[]⟩ := by
  simp [drain,h]

theorem drain_of_some {c c' : σ} {buf buf' : List α} {x : β} (n : ℕ)
    (h : dec c buf = .ok (c',buf',some x)) :
    drain dec (n+1) c buf = (drain dec n c' buf').map (Stop.cons x) := by
  simp [drain,h]

theorem drain_congr {c d : σ} {buf buf' : List α} (n : ℕ) (h : dec c buf = dec d buf') :
    drain dec n c buf = drain dec n d buf' := by
  cases n with
  | zero => rfl
  | succ n => simp only [drain,h]

theorem drain_keeps {I : σ → Prop} {n : ℕ} {c : σ} {buf : List α} {stop : Stop σ α β}
    (hI : ∀ c buf c' buf' x, I c → dec c buf = .ok (c',buf',x) → I c') (hc : I c)
    (h : drain dec n c buf = some stop) : I stop.state := by
  induction n generalizing c buf stop with
  | zero => cases h
  | succ n ih =>
    cases hcall : dec c buf with
    | error e => simp [drain,hcall] at h
    | ok r =>
      obtain ⟨c',buf',x⟩ := r
      have hc' := hI c buf c' buf' x hc hcall
      cases x with
      | none =>
        rw [drain_of_none n hcall] at h
        obtain rfl := Option.some.inj h
        exact hc'
      | some x =>
        rw [drain_of_some n hcall] at h
        obtain ⟨rest,hrest,rfl⟩ := Option.map_eq_some_iff.mp h
        change I rest.state
        exact ih hc' hrest

theorem drive_cons {c : σ} {buf read : List α} {reads : List (List α)} {stop : Stop σ α β}
    (h : drain dec ((buf ++ read).length+1) c (buf ++ read) = some stop) :
    drive dec c buf (read :: reads) =
      (drive dec stop.state stop.buffer reads).map fun r => (r.1,r.2.1,stop :: r.2.2) := by
  simp only [drive,h,Option.bind_some]

/-- In the states of `I` the decoder never fails, an item takes at least one element off the
buffer, and its answer does not depend on what comes after the buffer. -/
structure Chunked (dec : Decoder ε σ α β) (I : σ → Prop) : Prop where
  total : ∀ c buf, I c → ∃ c' buf' x, dec c buf = .ok (c',buf',x) ∧ I c'
  shrinks : ∀ c buf c' buf' x, I c → dec c buf = .ok (c',buf',some x) → buf'.length < buf.length
  item : ∀ c buf c' buf' x, I c → dec c buf = .ok (c',buf',some x) →
    ∀ e, dec c (buf ++ e) = .ok (c',buf' ++ e,some x)
  more : ∀ c buf c' buf', I c → dec c buf = .ok (c',buf',none) →
    ∀ e, dec c (buf ++ e) = dec c' (buf' ++ e)

namespace Chunked

variable {I : σ → Prop} (hch : Chunked dec I)
include hch

/-- One unit of fuel for each element and one for the last call are enough. -/
theorem drain_total (n : ℕ) {c : σ} {buf : List α} (hc : I c) (hn : buf.length < n) :
    ∃ stop, drain dec n c buf = some stop := by
  induction n generalizing c buf with
  | zero => omega
  | succ n ih =>
    obtain ⟨c',buf',x,hd,hI⟩ := hch.total c buf hc
    cases x with
    | none => exact ⟨_,drain_of_none n hd⟩
    | some x =>
      have hlt := hch.shrinks c buf c' buf' x hc hd
      obtain ⟨stop,hstop⟩ := ih hI (show buf'.length < n by omega)
      exact ⟨stop.cons x,by rw [drain_of_some n hd,hstop]; rfl⟩

theorem drain_settled {n : ℕ} {c : σ} {buf : List α} {stop : Stop σ α β} (hc : I c)
    (h : drain dec n c buf = some stop) :
    I stop.state ∧ dec stop.state stop.buffer = .ok (stop.state,stop.buffer,none) := by
  induction n generalizing c buf stop with
  | zero => cases h
  | succ n ih =>
    obtain ⟨c',buf',x,hd,hI⟩ := hch.total c buf hc
    cases x with
    | none =>
      rw [drain_of_none n hd] at h
      obtain rfl := Option.some.inj h
      have hmore := hch.more c buf c' buf' hc hd []
      simp only [List.append_nil] at hmore
      exact ⟨hI,hmore ▸ hd⟩
    | some x =>
      rw [drain_of_some n hd] at h
      obtain ⟨rest,hrest,rfl⟩ := Option.map_eq_some_iff.mp h
      have hset := ih hI hrest
      exact hset

/-- Draining a longer buffer is draining its front, then the rest from where that stopped. -/
theorem drain_append {n m : ℕ} {c : σ} {buf e : List α} {stop whole : Stop σ α β} (hc : I c)
    (h : drain dec n c buf = some stop) (hw : drain dec m c (buf ++ e) = some whole) :
    ∃ k rest, drain dec k stop.state (stop.buffer ++ e) = some rest ∧
      whole = ⟨rest.state,rest.buffer,stop.items ++ rest.items⟩ := by
  induction n generalizing c buf m stop whole with
  | zero => cases h
  | succ n ih =>
    obtain ⟨c',buf',x,hd,hI⟩ := hch.total c buf hc
    cases x with
    | none =>
      rw [drain_of_none n hd] at h
      obtain rfl := Option.some.inj h
      rw [drain_congr m (hch.more c buf c' buf' hc hd e)] at hw
      exact ⟨m,whole,hw,rfl⟩
    | some x =>
      rw [drain_of_some n hd] at h
      obtain ⟨stop',hstop',rfl⟩ := Option.map_eq_some_iff.mp h
      cases m with
      | zero => cases hw
      | succ m =>
        rw [drain_of_some m (hch.item c buf c' buf' x hc hd e)] at hw
        obtain ⟨whole',hwhole',rfl⟩ := Option.map_eq_some_iff.mp hw
        obtain ⟨k,rest,hrest,rfl⟩ := ih hI hstop' hwhole'
        exact ⟨k,rest,hrest,rfl⟩

/-- However the stream is cut into reads, the items are those of the whole stream. -/
theorem drive_of_drain {n : ℕ} {c : σ} {buf : List α} (reads : List (List α)) (hc : I c)
    (hset : dec c buf = .ok (c,buf,none)) {whole : Stop σ α β}
    (hw : drain dec n c (buf ++ reads.flatten) = some whole) :
    ∃ stops, drive dec c buf reads = some (whole.state,whole.buffer,stops) ∧
      stops.flatMap Stop.items = whole.items ∧ ∀ s ∈ stops, I s.state := by
  induction reads generalizing n c buf whole with
  | nil =>
    cases n with
    | zero => cases hw
    | succ n =>
      rw [List.flatten_nil,List.append_nil,drain_of_none n hset] at hw
      obtain rfl := Option.some.inj hw
      exact ⟨[],rfl,rfl,by simp⟩
  | cons read reads ih =>
    obtain ⟨stop,hstop⟩ := hch.drain_total _ hc (Nat.lt_succ_self (buf ++ read).length)
    rw [List.flatten_cons,← List.append_assoc] at hw
    obtain ⟨k,rest,hrest,rfl⟩ := hch.drain_append hc hstop hw
    obtain ⟨hI,hset'⟩ := hch.drain_settled hc hstop
    obtain ⟨stops,hdrive,hitems,hall⟩ := ih hI hset' hrest
    refine ⟨stop :: stops,?_,?_,?_⟩
    · rw [drive_cons hstop,hdrive]
      rfl
    · rw [List.flatMap_cons,hitems]
    · intro s hs
      rcases List.mem_cons.mp hs with rfl | hs
      · exact hI
      · exact hall s hs

end Chunked

/-! A decoder that is called now and then, and fed in between. -/

theorem drain_unique {n m : ℕ} {c : σ} {buf : List α} {stop stop' : Stop σ α β}
    (h : drain dec n c buf = some stop) (h' : drain dec m c buf = some stop') : stop = stop' := by
  induction n generalizing c buf m stop stop' with
  | zero => cases h
  | succ n ih =>
    cases m with
    | zero => cases h'
    | succ m =>
      cases hcall : dec c buf with
      | error e => simp [drain,hcall] at h
      | ok r =>
        obtain ⟨c',buf',x⟩ := r
        cases x with
        | none =>
          rw [drain_of_none _ hcall] at h h'
          exact Option.some.inj (h.symm.trans h')
        | some x =>
          rw [drain_of_some _ hcall] at h h'
          obtain ⟨rest,hrest,rfl⟩ := Option.map_eq_some_iff.mp h
          obtain ⟨rest',hrest',rfl⟩ := Option.map_eq_some_iff.mp h'
          rw [ih hrest hrest']

def items (dec : Decoder ε σ α β) (c : σ) (buf : List α) : List β :=
  ((drain dec (buf.length+1) c buf).map Stop.items).getD []

theorem Chunked.items_of_drain {I : σ → Prop} (hch : Chunked dec I) {n : ℕ} {c : σ}
    {buf : List α} {stop : Stop σ α β} (hc : I c) (h : drain dec n c buf = some stop) :
    items dec c buf = stop.items := by
  obtain ⟨whole,hwhole⟩ := hch.drain_total _ hc (Nat.lt_succ_self buf.length)
  rw [items,hwhole,drain_unique h hwhole]
  rfl

theorem Chunked.items_prefix {I : σ → Prop} (hch : Chunked dec I) {c : σ} (hc : I c)
    (buf e : List α) : items dec c buf <+: items dec c (buf ++ e) := by
  obtain ⟨stop,hstop⟩ := hch.drain_total _ hc (Nat.lt_succ_self buf.length)
  obtain ⟨whole,hwhole⟩ := hch.drain_total _ hc (Nat.lt_succ_self (buf ++ e).length)
  obtain ⟨_,rest,-,rfl⟩ := hch.drain_append hc hstop hwhole
  rw [hch.items_of_drain hc hstop,hch.items_of_drain hc hwhole]
  exact List.prefix_append _ _

structure Fed (σ α β : Type) where
  state : σ
  buffer : List α
  fed : List α
  given : List β

namespace Fed

def new (c : σ) : Fed σ α β := ⟨c,[],[],[]⟩

def feed (e : List α) (s : Fed σ α β) : Fed σ α β :=
  { s with buffer := s.buffer ++ e, fed := s.fed ++ e }

/-- Whatever is still in the buffer, draining all that was fed at once gives the same. -/
def Consistent (dec : Decoder ε σ α β) (c : σ) (s : Fed σ α β) : Prop :=
  ∃ n m stop, drain dec n s.state s.buffer = some stop ∧
    drain dec m c s.fed = some ⟨stop.state,stop.buffer,s.given ++ stop.items⟩

variable {I : σ → Prop} {c : σ} {s : Fed σ α β}

theorem new_consistent (hch : Chunked dec I) (hc : I c) : (new c).Consistent dec c := by
  obtain ⟨stop,hstop⟩ := hch.drain_total 1 hc (Nat.lt_succ_self ([] : List α).length)
  exact ⟨1,1,stop,hstop,hstop⟩

theorem Consistent.feed (hch : Chunked dec I) (hc : I c) (hs : I s.state)
    (h : s.Consistent dec c) (e : List α) : (s.feed e).Consistent dec c := by
  obtain ⟨n,m,stop,hstop,hwhole⟩ := h
  obtain ⟨stop',hstop'⟩ := hch.drain_total _ hs (Nat.lt_succ_self (s.buffer ++ e).length)
  obtain ⟨whole',hwhole'⟩ := hch.drain_total _ hc (Nat.lt_succ_self (s.fed ++ e).length)
  obtain ⟨k,rest,hrest,rfl⟩ := hch.drain_append hs hstop hstop'
  obtain ⟨k',rest',hrest',rfl⟩ := hch.drain_append hc hwhole hwhole'
  obtain rfl := drain_unique hrest hrest'
  exact ⟨_,_,_,hstop',by rw [← List.append_assoc]; exact hwhole'⟩

theorem Consistent.call {c' : σ} {buf' : List α} {x : Option β} (hch : Chunked dec I)
    (hs : I s.state) (hcall : dec s.state s.buffer = .ok (c',buf',x)) (h : s.Consistent dec c) :
    (⟨c',buf',s.fed,s.given ++ x.toList⟩ : Fed σ α β).Consistent dec c := by
  obtain ⟨n,m,stop,hstop,hwhole⟩ := h
  cases n with
  | zero => cases hstop
  | succ n =>
    cases x with
    | none =>
      rw [drain_of_none n hcall] at hstop
      obtain rfl := Option.some.inj hstop
      have hmore := hch.more _ _ c' buf' hs hcall []
      rw [List.append_nil,List.append_nil,hcall] at hmore
      exact ⟨1,m,_,drain_of_none 0 hmore.symm,by simpa using hwhole⟩
    | some x =>
      rw [drain_of_some n hcall] at hstop
      obtain ⟨rest,hrest,rfl⟩ := Option.map_eq_some_iff.mp hstop
      exact ⟨n,m,rest,hrest,by rw [List.append_assoc]; exact hwhole⟩

theorem Consistent.given_prefix (hch : Chunked dec I) (hc : I c) (h : s.Consistent dec c) :
    s.given <+: items dec c s.fed := by
  obtain ⟨_,_,stop,-,hwhole⟩ := h
  rw [hch.items_of_drain hc hwhole]
  exact List.prefix_append _ _

theorem Consistent.given_of_none (hch : Chunked dec I) (hc : I c) {c' : σ} {buf' : List α}
    (hcall : dec s.state s.buffer = .ok (c',buf',none)) (h : s.Consistent dec c) :
    s.given = items dec c s.fed := by
  obtain ⟨n,m,stop,hstop,hwhole⟩ := h
  cases n with
  | zero => cases hstop
  | succ n =>
    rw [drain_of_none n hcall] at hstop
    obtain rfl := Option.some.inj hstop
    rw [hch.items_of_drain hc hwhole,List.append_nil]

end Fed
end Framed
