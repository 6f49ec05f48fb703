import Mathlib.Data.Nat.Bitwise
import Mathlib.Data.List.Basic

/-! Byte buffers with checked and unchecked reads. A computation either returns a
value, returns an error, or panics; the three outcomes are kept apart, so that the
absence of panics can be stated. Integers are put and read byte by byte. -/
namespace Buffer

abbrev Bytes := List UInt8

/-- The sites at which an unchecked operation can panic. -/
inductive Panic
  | slice (stop len : ℕ)
  | index (i len : ℕ)
  | explicit (message : String)
  deriving DecidableEq, Repr

inductive Fault (ε : Type)
  | error (e : ε)
  | panic (p : Panic)
  deriving DecidableEq, Repr

abbrev Exec (ε α : Type) := Except (Fault ε) α

structure TryGetError where
  requested : ℕ
  available : ℕ
  deriving DecidableEq, Repr

def Exec.ofExcept {ε α : Type} : Except ε α → Exec ε α
  | .ok a => .ok a
  | .error e => .error (.error e)

def Exec.ofPanic {ε α : Type} : Except Panic α → Exec ε α
  | .ok a => .ok a
  | .error p => .error (.panic p)

def Exec.unwrap {ε ε' α : Type} : Except ε' α → Exec ε α
  | .ok a => .ok a
  | .error _ => .error (.panic (.explicit "called unwrap on an Err value"))

/-- Conversion of an error at a question mark. -/
class From (ε ε' : Type) where
  into : ε → ε'

instance From.same (ε : Type) : From ε ε := ⟨id⟩

/-- The question mark: an error is converted, a panic goes through. -/
def Exec.errInto {ε ε' α : Type} [From ε ε'] : Exec ε α → Exec ε' α
  | .ok a => .ok a
  | .error (.error e) => .error (.error (From.into e))
  | .error (.panic p) => .error (.panic p)

@[simp] theorem Exec.errInto_ok {ε ε' α : Type} [From ε ε'] (a : α) :
    (Exec.errInto (.ok a : Exec ε α) : Exec ε' α) = .ok a := rfl
@[simp] theorem Exec.errInto_error {ε ε' α : Type} [From ε ε'] (e : ε) :
    (Exec.errInto (.error (.error e) : Exec ε α) : Exec ε' α) =
      .error (.error (From.into e)) := rfl

/-- No panic was hit: a value or an error came back. -/
def Exec.Returns {ε α : Type} (x : Exec ε α) : Prop := ∀ p, x ≠ .error (.panic p)

section Reads

variable {ε : Type} [From TryGetError ε]

def tryGetU8 : Bytes → Exec ε (UInt8 × Bytes)
  | b :: rest => .ok (b,rest)
  | [] => .error (.error (From.into (TryGetError.mk 1 0)))

def u16Of (hi lo : UInt8) : UInt16 := UInt16.ofNat (hi.toNat*256 + lo.toNat)

def tryGetU16 : Bytes → Exec ε (UInt16 × Bytes)
  | hi :: lo :: rest => .ok (u16Of hi lo,rest)
  | short => .error (.error (From.into (TryGetError.mk 2 short.length)))

def tryGetU16Le : Bytes → Exec ε (UInt16 × Bytes)
  | lo :: hi :: rest => .ok (u16Of hi lo,rest)
  | short => .error (.error (From.into (TryGetError.mk 2 short.length)))

/-- The little-endian 32-bit number of four bytes. -/
def u32OfLe (a b c d : UInt8) : UInt32 :=
  UInt32.ofNat (a.toNat + b.toNat*256 + c.toNat*65536 + d.toNat*16777216)

/-- Unchecked: the first `n` bytes and what is left after them. -/
def splitTo (n : ℕ) (src : Bytes) : Exec ε (Bytes × Bytes) :=
  if n ≤ src.length then .ok (src.take n,src.drop n) else .error (.panic (.slice n src.length))

/-- Unchecked indexing. -/
def index (src : Bytes) (i : ℕ) : Exec ε UInt8 :=
  match src[i]? with
  | some b => .ok b
  | none => .error (.panic (.index i src.length))

/-! Unchecked reads. -/

def getU8 : Bytes → Exec ε (UInt8 × Bytes)
  | b :: rest => .ok (b,rest)
  | [] => .error (.panic (.index 0 0))

def getU32 : Bytes → Exec ε (UInt32 × Bytes)
  | a :: b :: c :: d :: rest => .ok (u32OfLe d c b a,rest)
  | short => .error (.panic (.slice 4 short.length))

def getU32Le : Bytes → Exec ε (UInt32 × Bytes)
  | a :: b :: c :: d :: rest => .ok (u32OfLe a b c d,rest)
  | short => .error (.panic (.slice 4 short.length))

/-- Unchecked: the items from `start` up to `stop`. -/
def slice {α : Type} (src : List α) (start stop : ℕ) : Exec ε (List α) :=
  if start ≤ stop ∧ stop ≤ src.length then .ok ((src.take stop).drop start)
  else .error (.panic (.slice stop src.length))

/-- Subtraction of a build that checks for overflow. -/
def subU16 (a b : UInt16) : Exec ε UInt16 :=
  if b ≤ a then .ok (a-b) else .error (.panic (.explicit "attempt to subtract with overflow"))

def addU16 (a b : UInt16) : Exec ε UInt16 :=
  if a.toNat + b.toNat < 65536 then .ok (a+b)
  else .error (.panic (.explicit "attempt to add with overflow"))

def subU32 (a b : UInt32) : Exec ε UInt32 :=
  if b ≤ a then .ok (a-b) else .error (.panic (.explicit "attempt to subtract with overflow"))

def addU32 (a b : UInt32) : Exec ε UInt32 :=
  if a.toNat + b.toNat < 2^32 then .ok (a+b)
  else .error (.panic (.explicit "attempt to add with overflow"))

@[simp] theorem tryGetU8_cons (b : UInt8) (rest : Bytes) :
    (tryGetU8 (b :: rest) : Exec ε _) = .ok (b,rest) := rfl
@[simp] theorem tryGetU16_cons (a b : UInt8) (rest : Bytes) :
    (tryGetU16 (a :: b :: rest) : Exec ε _) = .ok (u16Of a b,rest) := rfl
omit [From TryGetError ε] in
theorem splitTo_ok {n : ℕ} {src : Bytes} (h : n ≤ src.length) :
    (splitTo n src : Exec ε _) = .ok (src.take n,src.drop n) := by simp [splitTo,h]

omit [From TryGetError ε] in
theorem splitTo_panics {n : ℕ} {src : Bytes} (h : src.length < n) :
    (splitTo n src : Exec ε _) = .error (.panic (.slice n src.length)) := by
  simp [splitTo,h]

omit [From TryGetError ε] in
theorem splitTo_append (a b : Bytes) :
    (splitTo a.length (a ++ b) : Exec ε _) = .ok (a,b) := by simp [splitTo]

omit [From TryGetError ε] in
theorem index_zero_take {n : ℕ} (hn : 0 < n) (b : UInt8) (rest : Bytes) :
    (index ((b :: rest).take n) 0 : Exec ε _) = .ok b := by
  cases n with
  | zero => omega
  | succ n => rfl

theorem tryGetU8_returns (src : Bytes) : (tryGetU8 src : Exec ε _).Returns := by
  cases src <;> simp [tryGetU8,Exec.Returns]

theorem tryGetU16_returns (src : Bytes) : (tryGetU16 src : Exec ε _).Returns := by
  unfold tryGetU16 Exec.Returns
  split <;> simp

end Reads

theorem slice_ok {ε α : Type} {src : List α} {start stop : ℕ} (h : start ≤ stop)
    (hs : stop ≤ src.length) :
    (slice src start stop : Exec ε _) = .ok ((src.take stop).drop start) := by simp [slice,h,hs]

theorem slice_panics {ε α : Type} {src : List α} {start stop : ℕ} (h : src.length < stop) :
    (slice src start stop : Exec ε _) = .error (.panic (.slice stop src.length)) := by
  simp [slice,h]

theorem subU16_ok {ε : Type} {a b : UInt16} (h : b ≤ a) :
    ∃ d, (subU16 a b : Exec ε _) = .ok d ∧ d.toNat = a.toNat - b.toNat :=
  ⟨a-b,if_pos h,UInt16.toNat_sub_of_le a b h⟩

theorem addU16_ok {ε : Type} {a b : UInt16} (h : a.toNat + b.toNat < 65536) :
    ∃ c, (addU16 a b : Exec ε _) = .ok c ∧ c.toNat = a.toNat + b.toNat := by
  refine ⟨a+b,if_pos h,?_⟩
  rw [UInt16.toNat_add]
  omega

theorem add_ofNat_sub {base a : UInt16} (h : base ≤ a) :
    base + UInt16.ofNat (a.toNat - base.toNat) = a := by
  have hle : base.toNat ≤ a.toNat := h
  have ha := a.toNat_lt
  apply UInt16.toNat_inj.mp
  rw [UInt16.toNat_add,UInt16.toNat_ofNat']
  omega

theorem mapM_ok {ε α β : Type} {f : α → Exec ε β} {g : α → β} {xs : List α}
    (h : ∀ x ∈ xs, f x = .ok (g x)) : xs.mapM f = .ok (xs.map g) := by
  induction xs with
  | nil => rfl
  | cons x xs ih =>
    rw [List.mapM_cons,h x (by simp),ih fun y hy => h y (by simp [hy])]
    rfl

theorem exec_bind_eq_ok {ε α β : Type} {x : Exec ε α} {f : α → Exec ε β} {b : β} :
    x >>= f = .ok b ↔ ∃ a, x = .ok a ∧ f a = .ok b := by
  cases x with
  | error e =>
    constructor
    · intro h
      cases h
    · rintro ⟨_,h,_⟩
      cases h
  | ok a => exact ⟨fun h => ⟨a,rfl,h⟩,fun ⟨_,ha,h⟩ => Except.ok.inj ha ▸ h⟩

theorem mapM_eq_map {ε α β : Type} {f : α → Exec ε β} {g : α → β} {xs : List α} {ys : List β}
    (hf : ∀ x y, f x = .ok y → y = g x) (h : xs.mapM f = .ok ys) : ys = xs.map g := by
  induction xs generalizing ys with
  | nil =>
    cases h
    rfl
  | cons x xs ih =>
    rw [List.mapM_cons] at h
    obtain ⟨y,hy,hrest⟩ := exec_bind_eq_ok.mp h
    obtain ⟨ys',hys,hpure⟩ := exec_bind_eq_ok.mp hrest
    cases hpure
    rw [hf x y hy,ih hys,List.map_cons]

def chunks {α : Type} (n : ℕ) (xs : List α) : List (List α) :=
  if h : n = 0 ∨ xs = [] then [] else xs.take n :: chunks n (xs.drop n)
termination_by xs.length
decreasing_by
  simp only [not_or] at h
  have := List.length_pos_iff.mpr h.2
  rw [List.length_drop]
  omega

section Chunks
variable {α : Type} {n : ℕ}

@[simp] theorem chunks_nil : chunks n ([] : List α) = [] := by
  unfold chunks
  simp

theorem chunks_flatten (hn : 0 < n) (xs : List α) : (chunks n xs).flatten = xs := by
  fun_induction chunks n xs with
  | case1 xs h =>
    obtain rfl := h.resolve_left hn.ne'
    rfl
  | case2 xs h ih => rw [List.flatten_cons,ih,List.take_append_drop]

theorem mem_chunks (hn : 0 < n) {xs c : List α} (hc : c ∈ chunks n xs) :
    c ≠ [] ∧ c.length ≤ n := by
  fun_induction chunks n xs with
  | case1 xs h => exact absurd hc List.not_mem_nil
  | case2 xs h ih =>
    have hpos := List.length_pos_iff.mpr (not_or.mp h).2
    rcases List.mem_cons.mp hc with rfl | hc
    · refine ⟨?_,List.length_take_le n xs⟩
      rw [← List.length_pos_iff,List.length_take]
      omega
    · exact ih hc

end Chunks

/-! Writers, most significant byte first unless the name says otherwise. -/

def putU16 (x : UInt16) : Bytes := [(x >>> 8).toUInt8,x.toUInt8]
def putU16Le (x : UInt16) : Bytes := [x.toUInt8,(x >>> 8).toUInt8]

def putU32 (x : UInt32) : Bytes :=
  [(x >>> 24).toUInt8,(x >>> 16).toUInt8,(x >>> 8).toUInt8,x.toUInt8]
def putU32Le (x : UInt32) : Bytes := (putU32 x).reverse

@[simp] theorem putU32Le_length (x : UInt32) : (putU32Le x).length = 4 := rfl

theorem putU32Le_eq (x : UInt32) :
    putU32Le x = [x.toUInt8,(x >>> 8).toUInt8,(x >>> 16).toUInt8,(x >>> 24).toUInt8] := rfl

@[simp] theorem u32OfLe_put (x : UInt32) :
    u32OfLe x.toUInt8 (x >>> 8).toUInt8 (x >>> 16).toUInt8 (x >>> 24).toUInt8 = x := by
  have hx := x.toNat_lt
  apply UInt32.toNat_inj.mp
  simp only [u32OfLe,UInt32.toNat_ofNat',UInt32.toNat_toUInt8,UInt32.toNat_shiftRight,
    UInt32.toNat_ofNat,Nat.shiftRight_eq_div_pow,Nat.reducePow,Nat.reduceMod]
  omega

@[simp] theorem putU16_length (x : UInt16) : (putU16 x).length = 2 := rfl

@[simp] theorem u16Of_toNat (hi lo : UInt8) : (u16Of hi lo).toNat = hi.toNat*256 + lo.toNat := by
  have hh := hi.toNat_lt
  have hl := lo.toNat_lt
  simp only [u16Of,UInt16.toNat_ofNat']
  omega

@[simp] theorem highByte_toNat (x : UInt16) : (x >>> 8).toUInt8.toNat = x.toNat/256 := by
  have hx := x.toNat_lt
  simp only [UInt16.toNat_toUInt8,UInt16.toNat_shiftRight,UInt16.toNat_ofNat,
    Nat.shiftRight_eq_div_pow,Nat.reducePow,Nat.reduceMod]
  omega

@[simp] theorem u16Of_put (x : UInt16) : u16Of (x >>> 8).toUInt8 x.toUInt8 = x := by
  apply UInt16.toNat_inj.mp
  rw [u16Of_toNat,highByte_toNat,UInt16.toNat_toUInt8]
  omega

@[simp] theorem highByte_u16Of (hi lo : UInt8) : (u16Of hi lo >>> 8).toUInt8 = hi := by
  have hl := lo.toNat_lt
  apply UInt8.toNat_inj.mp
  rw [highByte_toNat,u16Of_toNat]
  omega

@[simp] theorem lowByte_u16Of (hi lo : UInt8) : (u16Of hi lo).toUInt8 = lo := by
  have hl := lo.toNat_lt
  apply UInt8.toNat_inj.mp
  rw [UInt16.toNat_toUInt8,u16Of_toNat]
  omega

@[simp] theorem tryGetU16_put {ε : Type} [From TryGetError ε] (x : UInt16) (rest : Bytes) :
    (tryGetU16 (putU16 x ++ rest) : Exec ε _) = .ok (x,rest) := by
  simp [putU16]

/-! Masks of 32-bit words as remainders and sums. -/

theorem and_mask_toNat (x : UInt32) (n : ℕ) (hn : n ≤ 32) :
    (x &&& UInt32.ofNat (2^n-1)).toNat = x.toNat % 2^n := by
  have hlt : 2^n-1 < 2^32 := by
    have := Nat.pow_le_pow_right (show 0 < 2 by omega) hn
    have := Nat.one_le_two_pow (n := n)
    omega
  rw [UInt32.toNat_and,UInt32.toNat_ofNat',Nat.mod_eq_of_lt hlt,Nat.and_two_pow_sub_one_eq_mod]

theorem or_two_pow {n y : ℕ} (h : y < 2^n) : 2^n ||| y = 2^n + y := by
  simpa using (Nat.two_pow_add_eq_or_of_lt h 1).symm

theorem or_xor_two_pow {n y : ℕ} (h : y < 2^n) : (2^n ||| y) ^^^ 2^n = y := by
  apply Nat.eq_of_testBit_eq
  intro i
  have hy : n = i → y.testBit i = false := by
    rintro rfl
    exact Nat.testBit_lt_two_pow h
  simp only [Nat.testBit_xor,Nat.testBit_or,Nat.testBit_two_pow]
  by_cases hi : n = i <;> simp [hi,hy]

/-- A word under a flag bit: set, and cleared again by the exclusive or. -/
theorem flagged_toNat {n : ℕ} (hn : n < 32) (v : UInt32) (h : v.toNat < 2^n) (flag : Bool) :
    (if flag then UInt32.ofNat (2^n) ||| (v &&& UInt32.ofNat (2^n-1))
      else (UInt32.ofNat (2^n) ||| (v &&& UInt32.ofNat (2^n-1))) ^^^ UInt32.ofNat (2^n)).toNat =
      (if flag then 2^n else 0) + v.toNat := by
  have hpow : 2^n < 2^32 := Nat.pow_lt_pow_right (by omega) hn
  have hmask : (v &&& UInt32.ofNat (2^n-1)).toNat = v.toNat := by
    rw [and_mask_toNat v n (by omega),Nat.mod_eq_of_lt h]
  have hflag : (UInt32.ofNat (2^n)).toNat = 2^n := by
    rw [UInt32.toNat_ofNat',Nat.mod_eq_of_lt hpow]
  cases flag
  · simp only [Bool.false_eq_true,if_false,UInt32.toNat_xor,UInt32.toNat_or,hmask,hflag,
      or_xor_two_pow h,Nat.zero_add]
  · simp only [if_true,UInt32.toNat_or,hmask,hflag,or_two_pow h]

theorem flag_and {n y : ℕ} (h : y < 2^n) (flag : Bool) :
    (((if flag then 2^n else 0) + y) &&& 2^n) = if flag then 2^n else 0 := by
  rw [Nat.and_two_pow]
  cases flag
  · simp [Nat.testBit_lt_two_pow h]
  · simp [Nat.testBit_two_pow_add_eq,Nat.testBit_lt_two_pow h]

theorem bne_zero_u8 {x : UInt8} {n : ℕ} {flag : Bool} (h : x.toNat = if flag then 2^n else 0) :
    (x != 0) = flag := by
  have hn := Nat.two_pow_pos n
  cases flag
  · have hx : x = 0 := UInt8.toNat_inj.mp h
    simp [hx]
  · have hx : x ≠ 0 := by
      rintro rfl
      simp at h
      omega
    simp [hx]

theorem bne_zero_u16 {x : UInt16} {n : ℕ} {flag : Bool} (h : x.toNat = if flag then 2^n else 0) :
    (x != 0) = flag := by
  have hn := Nat.two_pow_pos n
  cases flag
  · have hx : x = 0 := UInt16.toNat_inj.mp h
    simp [hx]
  · have hx : x ≠ 0 := by
      rintro rfl
      simp at h
      omega
    simp [hx]

end Buffer
