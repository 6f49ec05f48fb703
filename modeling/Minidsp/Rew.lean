import Mathlib.Data.List.DropRight
import Mathlib.Data.List.Forall2
import Minidsp.Wire

/-! Filter files of Room Eq Wizard: text of six lines for each biquad, with blank lines
between them. -/
namespace Minidsp

structure Biquad where
  index : Option UInt16
  b0 : F32Bits
  b1 : F32Bits
  b2 : F32Bits
  a1 : F32Bits
  a2 : F32Bits
  deriving DecidableEq, Repr

namespace Biquad

protected def default : Biquad := ⟨none,0x3f800000,0,0,0,0⟩

def toArray (b : Biquad) : List F32Bits := [b.b0,b.b1,b.b2,b.a1,b.a2]

end Biquad

abbrev Line := List Char

namespace Line

/-- `char::is_whitespace`: the characters with the property White_Space. -/
def isWhitespace (c : Char) : Bool :=
  let n := c.toNat
  (0x9 ≤ n && n ≤ 0xd) || n == 0x20 || n == 0x85 || n == 0xa0 || n == 0x1680 ||
    (0x2000 ≤ n && n ≤ 0x200a) || n == 0x2028 || n == 0x2029 || n == 0x202f || n == 0x205f ||
    n == 0x3000

/-- `line.trim().is_empty()` -/
def blank (line : Line) : Bool := line.all isWhitespace

/-- `str::lines`: a carriage return before the end of a line belongs to it. -/
def ofText : List Char → List Line
  | [] => []
  | '\r' :: '\n' :: text => [] :: ofText text
  | '\n' :: text => [] :: ofText text
  | c :: text =>
    match ofText text with
    | [] => [[c]]
    | line :: lines => (c :: line) :: lines

def stripPrefix (pre line : Line) : Option Line :=
  if pre.isPrefixOf line then some (line.drop pre.length) else none

def trimEndMatches (c : Char) (line : Line) : Line := line.rdropWhile (· == c)

/-- `u16::from_str`: decimal digits, which may have a plus sign in front. -/
def u16FromStr (line : Line) : Option UInt16 :=
  let digits := match line with
    | '+' :: digits => digits
    | digits => digits
  if digits.isEmpty || !digits.all Char.isDigit then none
  else
    let n := digits.foldl (fun n c => 10*n + (c.toNat - '0'.toNat)) 0
    if n < 65536 then some (UInt16.ofNat n) else none

end Line

/-- Readers of lines, which take those they have read also when they fail. -/
abbrev Lines := OptionT (StateM (List Line))

namespace Lines

def next : Lines Line := OptionT.mk fun lines =>
  match lines.dropWhile Line.blank with
  | [] => (none,[])
  | line :: lines => (some line,lines)

def ofOption {α : Type} (x : Option α) : Lines α := OptionT.mk fun lines => (x,lines)

/-- A value behind a label, and commas behind the value. -/
def parseComponent {α : Type} (fromStr : Line → Option α) (label line : Line) : Option α := do
  let line ← Line.stripPrefix label line
  fromStr (Line.trimEndMatches ',' line)

/-- `Biquad::from_rew_lines`; `fromStr` parses a float. -/
def fromRewLines (fromStr : Line → Option F32Bits) : Lines Biquad := do
  let index ← ofOption (parseComponent Line.u16FromStr "biquad".toList (← next))
  let b0 ← ofOption (parseComponent fromStr "b0=".toList (← next))
  let b1 ← ofOption (parseComponent fromStr "b1=".toList (← next))
  let b2 ← ofOption (parseComponent fromStr "b2=".toList (← next))
  let a1 ← ofOption (parseComponent fromStr "a1=".toList (← next))
  let a2 ← ofOption (parseComponent fromStr "a2=".toList (← next))
  return ⟨some index,b0,b1,b2,a1,a2⟩

section
variable {α β : Type} {x : Lines α} {f : α → Lines β} {lines rest : List Line}

theorem run_bind (x : Lines α) (f : α → Lines β) (lines : List Line) :
    (x >>= f).run lines =
      ((x.run lines).1.elim (pure none) fun a => (f a).run) (x.run lines).2 := by
  rw [OptionT.run_bind]
  rfl

theorem run_bind_some {a : α} (h : x.run lines = (some a,rest)) :
    (x >>= f).run lines = (f a).run rest := by
  rw [run_bind,h]
  rfl

theorem run_bind_none (h : x.run lines = (none,rest)) : (x >>= f).run lines = (none,rest) := by
  rw [run_bind,h]
  rfl

/-- Blank lines in front are passed over. -/
theorem next_run {line : Line} {block : List Line}
    (h : lines.filter (fun l => !l.blank) = line :: block) :
    ∃ rest, next.run lines = (some line,rest) ∧ rest.filter (fun l => !l.blank) = block := by
  obtain ⟨before,rest,rfl,hblank,hline,hrest⟩ := List.filter_eq_cons_iff.mp h
  refine ⟨rest,?_,hrest⟩
  have hdrop : (before ++ line :: rest).dropWhile Line.blank = line :: rest := by
    rw [List.dropWhile_append_of_pos (by simpa using hblank)]
    exact List.dropWhile_cons_of_neg (by simpa using hline)
  simp only [next,OptionT.run_mk,hdrop]

theorem next_run_blank (h : lines.filter (fun l => !l.blank) = []) :
    next.run lines = (none,[]) := by
  have hdrop : lines.dropWhile Line.blank = [] := by
    rw [List.dropWhile_eq_nil_iff]
    simpa using h
  simp only [next,OptionT.run_mk,hdrop]

end

inductive Block (fromStr : Line → Option F32Bits) : Biquad → List Line → Prop
  | mk {index b0 b1 b2 a1 a2 l l0 l1 l2 l3 l4}
      (index_ok : parseComponent Line.u16FromStr "biquad".toList l = some index)
      (b0_ok : parseComponent fromStr "b0=".toList l0 = some b0)
      (b1_ok : parseComponent fromStr "b1=".toList l1 = some b1)
      (b2_ok : parseComponent fromStr "b2=".toList l2 = some b2)
      (a1_ok : parseComponent fromStr "a1=".toList l3 = some a1)
      (a2_ok : parseComponent fromStr "a2=".toList l4 = some a2) :
      Block fromStr ⟨some index,b0,b1,b2,a1,a2⟩ [l,l0,l1,l2,l3,l4]

/-- The lines of some biquads, with any blank lines among them. -/
def Hold (fromStr : Line → Option F32Bits) (lines : List Line) (biquads : List Biquad) : Prop :=
  ∃ blocks, List.Forall₂ (Block fromStr) biquads blocks ∧
    lines.filter (fun l => !l.blank) = blocks.flatten

section
variable {fromStr : Line → Option F32Bits} {lines : List Line} {biquads : List Biquad}

theorem component_run {α β : Type} {parse : Line → Option α} {a : α} {line : Line}
    {block : List Line} {f : α → Lines β} {label : Line}
    (hparse : parseComponent parse label line = some a)
    (h : lines.filter (fun l => !l.blank) = line :: block) :
    ∃ rest, rest.filter (fun l => !l.blank) = block ∧
      (next >>= fun l => ofOption (parseComponent parse label l) >>= f).run lines =
        (f a).run rest := by
  obtain ⟨rest,hnext,hrest⟩ := next_run h
  refine ⟨rest,hrest,?_⟩
  rw [run_bind_some hnext,hparse]
  exact run_bind_some rfl

theorem fromRewLines_cons {b : Biquad} (h : Hold fromStr lines (b :: biquads)) :
    ∃ rest, (fromRewLines fromStr).run lines = (some b,rest) ∧ Hold fromStr rest biquads := by
  obtain ⟨_,hall,hlines⟩ := h
  obtain ⟨block,blocks,hblock,hblocks,rfl⟩ := List.forall₂_cons_left_iff.mp hall
  cases hblock with
  | mk hindex hb0 hb1 hb2 ha1 ha2 =>
    obtain ⟨rest,hrest,h0⟩ := component_run hindex hlines
    obtain ⟨rest,hrest,h1⟩ := component_run hb0 hrest
    obtain ⟨rest,hrest,h2⟩ := component_run hb1 hrest
    obtain ⟨rest,hrest,h3⟩ := component_run hb2 hrest
    obtain ⟨rest,hrest,h4⟩ := component_run ha1 hrest
    obtain ⟨rest,hrest,h5⟩ := component_run ha2 hrest
    refine ⟨rest,?_,blocks,hblocks,hrest⟩
    exact h0.trans (h1.trans (h2.trans (h3.trans (h4.trans h5))))

theorem fromRewLines_nil (h : Hold fromStr lines []) :
    ∃ rest, (fromRewLines fromStr).run lines = (none,rest) ∧ Hold fromStr rest [] := by
  obtain ⟨_,hblocks,hlines⟩ := h
  obtain rfl := List.forall₂_nil_left_iff.mp hblocks
  exact ⟨[],run_bind_none (next_run_blank hlines),[],.nil,rfl⟩

theorem fromRewLines_run (h : Hold fromStr lines biquads) :
    ∃ rest, (fromRewLines fromStr).run lines = (biquads.head?,rest) ∧
      Hold fromStr rest biquads.tail := by
  cases biquads with
  | nil => exact fromRewLines_nil h
  | cons b biquads => exact fromRewLines_cons h

end
end Lines
end Minidsp
