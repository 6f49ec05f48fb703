import Mathlib.Data.Nat.Bitwise

/-! Regions of an address space, each with an owner, and a check that no two of them overlap: the
places that are taken are the bits of a number. -/

structure Region (κ : Type) where
  owner : κ
  start : ℕ
  length : ℕ
  deriving DecidableEq, Repr

namespace Region

variable {κ : Type} {r r' : Region κ} {rs : List (Region κ)} {taken i : ℕ}

def Covers (r : Region κ) (i : ℕ) : Prop := r.start ≤ i ∧ i < r.start + r.length

def mask (r : Region κ) : ℕ := (2^r.length - 1) <<< r.start

/-- The regions take their places one after the other, where none is taken yet. -/
def fit (taken : ℕ) : List (Region κ) → Bool
  | [] => true
  | r :: rs => taken &&& r.mask == 0 && fit (taken ||| r.mask) rs

theorem testBit_mask : r.mask.testBit i = true ↔ r.Covers i := by
  rw [mask,Nat.testBit_shiftLeft,Nat.testBit_two_pow_sub_one,Bool.and_eq_true,decide_eq_true_iff,
    decide_eq_true_iff,Covers]
  omega

theorem free_of_fit (h : fit taken rs = true) (hr : r ∈ rs) (hi : r.Covers i) :
    taken.testBit i = false := by
  induction rs generalizing taken with
  | nil => cases hr
  | cons r' rs ih =>
    obtain ⟨hfree,hrest⟩ := Bool.and_eq_true_iff.mp h
    rcases List.mem_cons.mp hr with rfl | hr
    · have hbit := congrArg (fun n => n.testBit i) (eq_of_beq hfree)
      rw [Nat.testBit_and,testBit_mask.mpr hi,Bool.and_true,Nat.zero_testBit] at hbit
      exact hbit
    · have hbit := ih hrest hr
      rw [Nat.testBit_or,Bool.or_eq_false_iff] at hbit
      exact hbit.1

theorem eq_of_fit (h : fit taken rs = true) (hr : r ∈ rs) (hr' : r' ∈ rs) (hi : r.Covers i)
    (hi' : r'.Covers i) : r = r' := by
  induction rs generalizing taken with
  | nil => cases hr
  | cons s rs ih =>
    have hrest := (Bool.and_eq_true_iff.mp h).2
    have hother : ∀ {t : Region κ}, t ∈ rs → t.Covers i → ¬s.Covers i := by
      intro t ht hti hsi
      have hfree := free_of_fit hrest ht hti
      rw [Nat.testBit_or,testBit_mask.mpr hsi,Bool.or_true] at hfree
      cases hfree
    rcases List.mem_cons.mp hr with rfl | hmem
    · rcases List.mem_cons.mp hr' with rfl | hmem'
      · rfl
      · exact absurd hi (hother hmem' hi')
    · rcases List.mem_cons.mp hr' with rfl | hmem'
      · exact absurd hi' (hother hmem hi)
      · exact ih hrest hmem hmem'

end Region
