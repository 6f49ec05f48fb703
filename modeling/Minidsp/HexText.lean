import Mathlib.Algebra.Group.Nat.Even
import Minidsp.Buffer

/-! Numerals in base sixteen, and bytes written with two digits each. -/
namespace Minidsp
namespace Hex

open Buffer

def isDigit (c : Char) : Bool :=
  let n := c.toNat
  (0x30 ≤ n && n ≤ 0x39) || (0x41 ≤ n && n ≤ 0x46) || (0x61 ≤ n && n ≤ 0x66)

def digit (c : Char) : ℕ :=
  let n := c.toNat
  if n ≤ 0x39 then n - 0x30 else if n ≤ 0x46 then n - 0x41 + 10 else n - 0x61 + 10

def value (text : List Char) : ℕ := text.foldl (fun n c => 16*n + digit c) 0

def pairs : List Char → Bytes
  | a :: b :: text => UInt8.ofNat (16*digit a + digit b) :: pairs text
  | _ => []

def bigEndian (bytes : Bytes) : ℕ := bytes.foldl (fun n b => 256*n + b.toNat) 0

def encode (bytes : Bytes) : List Char :=
  bytes.flatMap fun b => [Nat.digitChar (b.toNat / 16),Nat.digitChar (b.toNat % 16)]

inductive DecodeError
  | oddLength
  | invalidCharacter
  deriving DecidableEq, Repr

def decode (text : List Char) : Except DecodeError Bytes :=
  if text.length % 2 = 1 then .error .oddLength
  else if text.all isDigit then .ok (pairs text)
  else .error .invalidCharacter

section
variable {c : Char} {text : List Char} {bytes : Bytes}

theorem digit_lt (h : isDigit c) : digit c < 16 := by
  simp only [isDigit,Bool.or_eq_true,Bool.and_eq_true,decide_eq_true_eq] at h
  unfold digit
  grind

theorem digit_eq_zero (h : isDigit c) : digit c = 0 ↔ c = '0' := by
  rw [← Char.toNat_inj]
  simp only [isDigit,Bool.or_eq_true,Bool.and_eq_true,decide_eq_true_eq] at h
  change digit c = 0 ↔ c.toNat = 0x30
  unfold digit
  grind

theorem utf8Size_of_isDigit (h : isDigit c) : c.utf8Size = 1 := by
  simp only [isDigit,Bool.or_eq_true,Bool.and_eq_true,decide_eq_true_eq] at h
  have hle : c.val ≤ 0x7f := by
    rw [UInt32.le_iff_toNat_le]
    change c.toNat ≤ 127
    omega
  exact if_pos hle

theorem digit_digitChar {n : ℕ} (h : n < 16) :
    isDigit (Nat.digitChar n) ∧ digit (Nat.digitChar n) = n := by
  have hall : ∀ n < 16, isDigit (Nat.digitChar n) ∧ digit (Nat.digitChar n) = n := by decide
  exact hall n h

theorem foldl_pairs (h : ∀ c ∈ text, isDigit c) (heven : Even text.length) (n : ℕ) :
    text.foldl (fun n c => 16*n + digit c) n =
      (pairs text).foldl (fun n b => 256*n + b.toNat) n := by
  fun_induction pairs text generalizing n with
  | case1 a b text ih =>
    simp only [List.forall_mem_cons] at h
    obtain ⟨ha,hb,htext⟩ := h
    have hbyte : (UInt8.ofNat (16*digit a + digit b)).toNat = 16*digit a + digit b := by
      have := digit_lt ha
      have := digit_lt hb
      rw [UInt8.toNat_ofNat']
      omega
    have hrest : Even text.length := by
      rw [List.length_cons,List.length_cons] at heven
      grind
    rw [List.foldl_cons,List.foldl_cons,List.foldl_cons,ih htext hrest,hbyte]
    congr 1
    omega
  | case2 text htext =>
    cases text with
    | nil => rfl
    | cons a text =>
      cases text with
      | nil => exact absurd heven (by simp)
      | cons b text => exact absurd rfl (htext a b text)

theorem value_pairs (h : ∀ c ∈ text, isDigit c) (heven : Even text.length) :
    value text = bigEndian (pairs text) := foldl_pairs h heven 0

theorem length_pairs (text : List Char) : (pairs text).length = text.length/2 := by
  fun_induction pairs text with
  | case1 a b text ih =>
    rw [List.length_cons,ih,List.length_cons,List.length_cons]
    omega
  | case2 text htext =>
    match text with
    | [] => rfl
    | [_] => simp
    | a :: b :: text => exact absurd rfl (htext a b text)

theorem u32OfLe_reverse (h : bytes.length ≤ 4) :
    (u32OfLe (bytes.reverse.getD 0 0) (bytes.reverse.getD 1 0) (bytes.reverse.getD 2 0)
      (bytes.reverse.getD 3 0)).toNat = bigEndian bytes := by
  have hword : ∀ a b c d : UInt8, (u32OfLe a b c d).toNat =
      a.toNat + b.toNat*256 + c.toNat*65536 + d.toNat*16777216 := by
    intro a b c d
    have := a.toNat_lt
    have := b.toNat_lt
    have := c.toNat_lt
    have := d.toNat_lt
    rw [u32OfLe,UInt32.toNat_ofNat']
    omega
  rw [hword]
  rcases bytes with _ | ⟨a,_ | ⟨b,_ | ⟨c,_ | ⟨d,_ | ⟨e,bytes⟩⟩⟩⟩⟩
  · rfl
  · simp [bigEndian]
  on_goal 4 => exact absurd h (by simp)
  all_goals
    simp [bigEndian]
    omega

theorem value_zero_cons (text : List Char) : value ('0' :: text) = value text := rfl

theorem length_encode (bytes : Bytes) : (encode bytes).length = 2*bytes.length := by
  induction bytes with
  | nil => rfl
  | cons b bytes ih =>
    rw [encode,List.flatMap_cons,List.length_append,← encode,ih,List.length_cons]
    simp only [List.length_cons,List.length_nil]
    omega

theorem isDigit_of_mem_encode (h : c ∈ encode bytes) : isDigit c := by
  obtain ⟨b,-,hb⟩ := List.mem_flatMap.mp h
  have hlt := b.toNat_lt
  rcases List.mem_pair.mp hb with rfl | rfl
  · exact (digit_digitChar (by omega)).1
  · exact (digit_digitChar (by omega)).1

theorem pairs_encode (bytes : Bytes) : pairs (encode bytes) = bytes := by
  induction bytes with
  | nil => rfl
  | cons b bytes ih =>
    have hlt := b.toNat_lt
    have hhi : digit (Nat.digitChar (b.toNat / 16)) = b.toNat/16 :=
      (digit_digitChar (by omega)).2
    have hlo : digit (Nat.digitChar (b.toNat % 16)) = b.toNat % 16 :=
      (digit_digitChar (by omega)).2
    have hbyte : UInt8.ofNat (16*(b.toNat/16) + b.toNat % 16) = b := by
      rw [Nat.div_add_mod,UInt8.ofNat_toNat]
    rw [encode,List.flatMap_cons,← encode]
    simp only [List.cons_append,List.nil_append,pairs,hhi,hlo,hbyte,ih]

theorem decode_ok (h : ∀ c ∈ text, isDigit c) (heven : Even text.length) :
    decode text = .ok (pairs text) := by
  have hmod : ¬text.length % 2 = 1 := by rw [Nat.even_iff.mp heven]; omega
  rw [decode,if_neg hmod,if_pos (List.all_eq_true.mpr h)]

theorem decode_encode (bytes : Bytes) : decode (encode bytes) = .ok bytes := by
  have heven : Even (encode bytes).length := by
    rw [length_encode]
    exact even_two_mul _
  rw [decode_ok (fun c hc => isDigit_of_mem_encode hc) heven,pairs_encode]

theorem take_encode (n : ℕ) (bytes : Bytes) :
    (encode bytes).take (2*n) = encode (bytes.take n) := by
  induction bytes generalizing n with
  | nil =>
    rw [List.take_nil]
    exact List.take_nil
  | cons b bytes ih =>
    cases n with
    | zero => rfl
    | succ n => exact congrArg (_ :: _ :: ·) (ih n)

/-- Only an even number of digits is decoded. -/
theorem of_decode_ok (h : decode text = .ok bytes) :
    (∀ c ∈ text, isDigit c) ∧ text.length = 2*bytes.length := by
  unfold decode at h
  split_ifs at h with hodd hall
  cases h
  refine ⟨List.all_eq_true.mp hall,?_⟩
  rw [length_pairs]
  omega

theorem prefix_of_decode {b : Bytes} (hdecode : decode text = .ok b)
    (hpre : text <+: encode bytes) : b <+: bytes := by
  obtain ⟨-,hlen⟩ := of_decode_ok hdecode
  have htext : text = encode (bytes.take b.length) := by
    rw [← take_encode,← hlen]
    exact List.prefix_iff_eq_take.mp hpre
  rw [htext,decode_encode] at hdecode
  exact Except.ok.inj hdecode ▸ List.take_prefix _ _

end
end Hex
end Minidsp
