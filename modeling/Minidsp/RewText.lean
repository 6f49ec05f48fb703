import Minidsp.Rew

/-! The text of biquads in the format of Room Eq Wizard, and that it is read back, also with
blank lines put into it. -/
namespace Minidsp

/-- `f32::is_nan` -/
def isNan (x : F32Bits) : Bool := 0x7f800000 < (x &&& 0x7fffffff)

/-- `Display` and `FromStr` of `f32`: numbers are written with digits, a point and a minus sign,
or as an infinity, and are read back. -/
structure Displays (display : F32Bits → List Char) (fromStr : Line → Option F32Bits) : Prop where
  inverse : ∀ x, isNan x = false → fromStr (display x) = some x
  plain : ∀ x, isNan x = false → ∀ c ∈ display x, c ∈ "-.0123456789inf".toList

theorem Displays.not_mem {display : F32Bits → List Char} {fromStr : Line → Option F32Bits}
    (h : Displays display fromStr) {x : F32Bits} (hx : isNan x = false) {c : Char}
    (hc : c ∉ "-.0123456789inf".toList) : c ∉ display x := fun hmem => hc (h.plain x hx c hmem)

namespace Line

abbrev Unbroken (line : Line) : Prop := '\n' ∉ line ∧ '\r' ∉ line

def u16Display (n : UInt16) : List Char := Nat.toDigits 10 n.toNat

section
variable {line text : List Char} {c : Char} {n : UInt16}

theorem ofText_line (h : Unbroken line) (text : List Char) :
    ofText (line ++ '\n' :: text) = line :: ofText text := by
  induction line with
  | nil => rfl
  | cons c line ih =>
    simp only [Unbroken,List.mem_cons,not_or] at h
    obtain ⟨⟨hn,hline⟩,hr,hline'⟩ := h
    rw [List.cons_append,ofText,ih ⟨hline,hline'⟩]
    · rintro _ rfl
      exact absurd rfl hr
    · exact Ne.symm hn

theorem ofText_lines {lines : List Line} (h : ∀ line ∈ lines, Unbroken line) :
    ofText (lines.flatMap fun line => line ++ ['\n']) = lines := by
  induction lines with
  | nil => rfl
  | cons line lines ih =>
    obtain ⟨hline,hlines⟩ := List.forall_mem_cons.mp h
    rw [List.flatMap_cons,List.append_assoc]
    exact (ofText_line hline _).trans (congrArg (line :: ·) (ih hlines))

theorem isDigit_of_mem_u16Display (h : c ∈ u16Display n) : c.isDigit :=
  Nat.isDigit_of_mem_toDigits (by decide) (by decide) h

theorem u16FromStr_display (n : UInt16) : u16FromStr (u16Display n) = some n := by
  have hdigits : (u16Display n).all Char.isDigit :=
    List.all_eq_true.mpr fun c hc => isDigit_of_mem_u16Display hc
  have hnil : u16Display n ≠ [] := Nat.toDigits_ne_nil
  have hvalue : (u16Display n).foldl (fun n c => 10*n + (c.toNat - '0'.toNat)) 0 = n.toNat :=
    Nat.ofDigitChars_eq_foldl.symm.trans Nat.ofDigitChars_ten_toDigits
  unfold u16FromStr
  split
  · rename_i digits hplus
    rw [hplus] at hdigits
    exact absurd hdigits (by simp)
  · rw [if_neg (by simp [hdigits,hnil]),hvalue,if_pos n.toNat_lt,UInt16.ofNat_toNat]

theorem stripPrefix_append (label line : Line) : stripPrefix label (label ++ line) = some line := by
  rw [stripPrefix,if_pos (by simp),List.drop_left]

theorem trimEndMatches_concat (h : c ∉ line) : trimEndMatches c (line ++ [c]) = line := by
  rw [trimEndMatches,List.rdropWhile_concat_pos _ _ _ (by simp),List.rdropWhile_eq_self_iff]
  intro hne hlast
  exact h (beq_iff_eq.mp hlast ▸ List.getLast_mem hne)

end
end Line

namespace Biquad

/-- A line `label{},` -/
def rewLine (label : Line) (text : List Char) : Line := label ++ text ++ [',']

section
variable (display : F32Bits → List Char)

def rewLines (b : Biquad) : List Line :=
  [rewLine "biquad".toList (Line.u16Display (b.index.getD 0)),
    rewLine "b0=".toList (display b.b0),rewLine "b1=".toList (display b.b1),
    rewLine "b2=".toList (display b.b2),rewLine "a1=".toList (display b.a1),
    rewLine "a2=".toList (display b.a2)]

/-- `biquad{},\nb0={},\nb1={},\nb2={},\na1={},\na2={},\n` -/
def toRew (b : Biquad) : List Char := (b.rewLines display).flatMap fun line => line ++ ['\n']

end

structure Printable (b : Biquad) : Prop where
  index : b.index.isSome
  number : ∀ x ∈ b.toArray, isNan x = false

end Biquad

namespace Lines

inductive Spaced : List Line → List Line → Prop
  | nil : Spaced [] []
  | blank {line lines lines'} (h : line.blank) (rest : Spaced lines lines') :
      Spaced lines (line :: lines')
  | line {line lines lines'} (rest : Spaced lines lines') : Spaced (line :: lines) (line :: lines')

/-- What a call returns after some calls before it, all with one iterator. -/
def nth (fromStr : Line → Option F32Bits) : ℕ → List Line → Option Biquad
  | 0,lines => ((fromRewLines fromStr).run lines).1
  | k+1,lines => nth fromStr k ((fromRewLines fromStr).run lines).2

section
variable {fromStr : Line → Option F32Bits} {display : F32Bits → List Char}
variable {lines lines' : List Line} {biquads : List Biquad} {b : Biquad}

theorem nth_of_hold (h : Hold fromStr lines biquads) (k : ℕ) :
    nth fromStr k lines = biquads[k]? := by
  induction k generalizing lines biquads with
  | zero =>
    obtain ⟨rest,hread,-⟩ := fromRewLines_run h
    rw [nth,hread,List.head?_eq_getElem?]
  | succ k ih =>
    obtain ⟨rest,hread,hrest⟩ := fromRewLines_run h
    rw [nth,hread,ih hrest,List.getElem?_tail]

theorem Spaced.refl (lines : List Line) : Spaced lines lines := by
  induction lines with
  | nil => exact .nil
  | cons line lines ih => exact .line ih

theorem Spaced.filter (h : Spaced lines lines') :
    lines'.filter (fun l => !l.blank) = lines.filter (fun l => !l.blank) := by
  induction h with
  | nil => rfl
  | blank hblank _ ih => rw [List.filter_cons_of_neg (by simpa using hblank),ih]
  | line _ ih => rw [List.filter_cons,List.filter_cons,ih]

theorem Spaced.hold (h : Spaced lines lines') (hlines : Hold fromStr lines biquads) :
    Hold fromStr lines' biquads := by
  obtain ⟨blocks,hblocks,hfilter⟩ := hlines
  exact ⟨blocks,hblocks,h.filter.trans hfilter⟩

/-! A biquad in its lines. -/

theorem parseComponent_rewLine {α : Type} {parse : Line → Option α} {text : List Char} {a : α}
    (h : parse text = some a) (hcomma : ',' ∉ text) (label : Line) :
    parseComponent parse label (Biquad.rewLine label text) = some a := by
  rw [parseComponent,Biquad.rewLine,List.append_assoc,Line.stripPrefix_append]
  exact (congrArg parse (Line.trimEndMatches_concat hcomma)).trans h

theorem rewLines_block (h : Displays display fromStr) (hb : b.Printable) :
    Block fromStr b (b.rewLines display) := by
  obtain ⟨index,b0,b1,b2,a1,a2⟩ := b
  obtain ⟨index,rfl⟩ := Option.isSome_iff_exists.mp hb.index
  have hindex : ',' ∉ Line.u16Display index := fun hmem =>
    absurd (Line.isDigit_of_mem_u16Display hmem) (by decide)
  have hfloat : ∀ x ∈ (⟨some index,b0,b1,b2,a1,a2⟩ : Biquad).toArray, ∀ label,
      parseComponent fromStr label (Biquad.rewLine label (display x)) = some x :=
    fun x hx => parseComponent_rewLine (h.inverse x (hb.number x hx))
      (h.not_mem (hb.number x hx) (by decide))
  refine .mk (parseComponent_rewLine (Line.u16FromStr_display index) hindex _)
    (hfloat b0 ?_ _) (hfloat b1 ?_ _) (hfloat b2 ?_ _) (hfloat a1 ?_ _) (hfloat a2 ?_ _) <;>
    simp [Biquad.toArray]

theorem blank_rewLine (label : Line) (text : List Char) :
    (Biquad.rewLine label text).blank = false := by
  rw [Line.blank,List.all_eq_false]
  exact ⟨',',by simp [Biquad.rewLine],by decide⟩

theorem rewLines_notBlank : ∀ line ∈ b.rewLines display, line.blank = false := by
  simp [Biquad.rewLines,blank_rewLine]

theorem unbroken_rewLine {label : Line} {text : List Char} (hlabel : label.Unbroken)
    (htext : Line.Unbroken text) : (Biquad.rewLine label text).Unbroken := by
  simpa [Biquad.rewLine,Line.Unbroken,not_or] using ⟨⟨hlabel.1,htext.1⟩,hlabel.2,htext.2⟩

theorem rewLines_unbroken (h : Displays display fromStr) (hb : b.Printable) :
    ∀ line ∈ b.rewLines display, line.Unbroken := by
  have hindex : Line.Unbroken (Line.u16Display (b.index.getD 0)) :=
    ⟨fun hmem => absurd (Line.isDigit_of_mem_u16Display hmem) (by decide),
      fun hmem => absurd (Line.isDigit_of_mem_u16Display hmem) (by decide)⟩
  have hfloat : ∀ x ∈ b.toArray, Line.Unbroken (display x) := fun x hx =>
    ⟨h.not_mem (hb.number x hx) (by decide),h.not_mem (hb.number x hx) (by decide)⟩
  simp only [Biquad.toArray,List.forall_mem_cons] at hfloat
  obtain ⟨hb0,hb1,hb2,ha1,ha2,-⟩ := hfloat
  simp only [Biquad.rewLines,List.forall_mem_cons]
  exact ⟨unbroken_rewLine (by decide) hindex,unbroken_rewLine (by decide) hb0,
    unbroken_rewLine (by decide) hb1,unbroken_rewLine (by decide) hb2,
    unbroken_rewLine (by decide) ha1,unbroken_rewLine (by decide) ha2,by simp⟩

theorem hold_toRew (h : Displays display fromStr) (hbiquads : ∀ b ∈ biquads, b.Printable) :
    Hold fromStr (Line.ofText (biquads.flatMap (Biquad.toRew display))) biquads := by
  have hlines : Line.ofText (biquads.flatMap (Biquad.toRew display)) =
      biquads.flatMap (Biquad.rewLines display) := by
    have htext : biquads.flatMap (Biquad.toRew display) =
        (biquads.flatMap (Biquad.rewLines display)).flatMap fun line => line ++ ['\n'] :=
      List.flatMap_assoc.symm
    rw [htext]
    refine Line.ofText_lines fun line hline => ?_
    obtain ⟨b,hb,hline⟩ := List.mem_flatMap.mp hline
    exact rewLines_unbroken h (hbiquads b hb) line hline
  refine ⟨biquads.map (Biquad.rewLines display),?_,?_⟩
  · rw [List.forall₂_map_right_iff,List.forall₂_same]
    exact fun b hb => rewLines_block h (hbiquads b hb)
  · rw [hlines,List.filter_eq_self.mpr]
    · rfl
    · intro line hline
      obtain ⟨b,hb,hline⟩ := List.mem_flatMap.mp hline
      simp [rewLines_notBlank line hline]

/-- Calls with one iterator over the texts of some biquads return these, one after the other,
and then nothing any more; and so do they when there are blank lines among those of the texts. -/
theorem toRew_roundtrip (h : Displays display fromStr) (hbiquads : ∀ b ∈ biquads, b.Printable) :
    (∀ k, nth fromStr k (Line.ofText (biquads.flatMap (Biquad.toRew display))) = biquads[k]?) ∧
      ∀ lines, Spaced (Line.ofText (biquads.flatMap (Biquad.toRew display))) lines →
        ∀ k, nth fromStr k lines = biquads[k]? := by
  have hspaced : ∀ lines, Spaced (Line.ofText (biquads.flatMap (Biquad.toRew display))) lines →
      ∀ k, nth fromStr k lines = biquads[k]? :=
    fun lines hlines => nth_of_hold (hlines.hold (hold_toRew h hbiquads))
  exact ⟨hspaced _ (.refl _),hspaced⟩

end

/-! Two biquads with the coefficients zero and one. -/

/-- Zero and one as they are written; the other numbers by a count. -/
def zeroOrOne (x : F32Bits) : List Char :=
  if x = 0 then ['0'] else if x = 0x3f800000 then ['1'] else '.' :: List.replicate x.toNat 'n'

def zeroOrOneFromStr : Line → Option F32Bits
  | ['0'] => some 0
  | ['1'] => some 0x3f800000
  | '.' :: line => some (UInt32.ofNat line.length)
  | _ => none

theorem zeroOrOne_displays : Displays zeroOrOne zeroOrOneFromStr := by
  refine ⟨fun x _ => ?_,fun x _ c hc => ?_⟩
  · unfold zeroOrOne
    split_ifs with h0 h1
    · rw [h0]
      rfl
    · rw [h1]
      rfl
    · simp [zeroOrOneFromStr]
  · unfold zeroOrOne at hc
    split_ifs at hc
    · rw [List.mem_singleton.mp hc]
      decide
    · rw [List.mem_singleton.mp hc]
      decide
    · rcases List.mem_cons.mp hc with rfl | hc
      · decide
      · rw [List.eq_of_mem_replicate hc]
        decide

def identities : List Biquad := [⟨some 1,0x3f800000,0,0,0,0⟩,⟨some 2,0x3f800000,0,0,0,0⟩]

theorem identities_printable : ∀ b ∈ identities, b.Printable := by
  have hnumber : ∀ x ∈ [(0x3f800000 : F32Bits),0,0,0,0], isNan x = false := by
    simp only [List.forall_mem_cons]
    exact ⟨rfl,rfl,rfl,rfl,rfl,by simp⟩
  simp only [identities,List.forall_mem_cons]
  exact ⟨⟨rfl,hnumber⟩,⟨rfl,hnumber⟩,by simp⟩

theorem toRew_roundtrip_identities :
    Line.ofText (identities.flatMap (Biquad.toRew zeroOrOne)) =
      ["biquad1,".toList,"b0=1,".toList,"b1=0,".toList,"b2=0,".toList,"a1=0,".toList,
        "a2=0,".toList,"biquad2,".toList,"b0=1,".toList,"b1=0,".toList,"b2=0,".toList,
        "a1=0,".toList,"a2=0,".toList] ∧
    ∀ k, nth zeroOrOneFromStr k (Line.ofText (identities.flatMap (Biquad.toRew zeroOrOne))) =
      identities[k]? :=
  ⟨by decide,(toRew_roundtrip zeroOrOne_displays identities_printable).1⟩

end Lines
end Minidsp
