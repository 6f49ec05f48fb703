import Minidsp.HexText
import Minidsp.Rew
import Minidsp.Utf8
import Minidsp.XmlConfig

/-! Hex values in the text of an XML configuration file, and lists of them between commas. -/
namespace Minidsp

open Buffer

namespace Line

/-- `str::trim` -/
def trim (line : Line) : Line := (line.dropWhile isWhitespace).rdropWhile isWhitespace

/-- `str::len` counts bytes. -/
def len (line : Line) : ℕ := (Utf8.encode line).length

section
variable {line : Line}

theorem len_cons (c : Char) (line : Line) : len (c :: line) = c.utf8Size + line.len := by
  rw [len,Utf8.encode_cons,List.length_append,String.length_utf8EncodeChar]
  rfl

theorem len_of_digits (h : ∀ c ∈ line, Hex.isDigit c) : line.len = line.length := by
  induction line with
  | nil => rfl
  | cons c line ih =>
    obtain ⟨hc,hline⟩ := List.forall_mem_cons.mp h
    rw [len_cons,ih hline,Hex.utf8Size_of_isDigit hc,List.length_cons,Nat.add_comm]

theorem trim_eq (h : ∀ c ∈ line, isWhitespace c = false) : line.trim = line := by
  have hdrop : line.dropWhile isWhitespace = line := by
    rw [List.dropWhile_eq_self_iff]
    exact fun hpos => by simp [h _ (List.getElem_mem hpos)]
  rw [trim,hdrop,List.rdropWhile_eq_self_iff]
  exact fun hne => by simp [h _ (List.getLast_mem hne)]

end
end Line

namespace CommaSeparatedList

variable {ε α : Type}

/-- A part of the text; an empty one is skipped. -/
def push (fromStr : Line → Except ε α) (vec : List α) (part : Line) : Except ε (List α) :=
  if part.isEmpty then return vec
  else do
    let x ← fromStr part.trim
    return vec ++ [x]

def fromStr (itemFromStr : Line → Except ε α) (s : Line) : Except ε (List α) :=
  (s.splitOn ',').foldlM (push itemFromStr) []

def display (itemDisplay : α → Line) (list : List α) : Line :=
  [','].intercalate (list.map itemDisplay)

/-- An item comes back from between commas. -/
structure Reads (itemFromStr : Line → Except ε α) (itemDisplay : α → Line) (x : α) : Prop where
  ne_nil : itemDisplay x ≠ []
  comma : ',' ∉ itemDisplay x
  trim : (itemDisplay x).trim = itemDisplay x
  inverse : itemFromStr (itemDisplay x) = .ok x

section
variable {itemFromStr : Line → Except ε α} {itemDisplay : α → Line} {list : List α}

theorem push_display {x : α} (h : Reads itemFromStr itemDisplay x) (vec : List α) :
    push itemFromStr vec (itemDisplay x) = .ok (vec ++ [x]) := by
  rw [push,if_neg (by simpa using h.ne_nil),h.trim,h.inverse]
  rfl

theorem foldlM_push_display (h : ∀ x ∈ list, Reads itemFromStr itemDisplay x) (vec : List α) :
    (list.map itemDisplay).foldlM (push itemFromStr) vec = .ok (vec ++ list) := by
  induction list generalizing vec with
  | nil => simp [pure,Except.pure]
  | cons x list ih =>
    obtain ⟨hx,hlist⟩ := List.forall_mem_cons.mp h
    rw [List.map_cons,List.foldlM_cons,push_display hx]
    exact (ih hlist (vec ++ [x])).trans (by simp)

theorem fromStr_display (h : ∀ x ∈ list, Reads itemFromStr itemDisplay x) :
    fromStr itemFromStr (display itemDisplay list) = .ok list := by
  cases list with
  | nil => rfl
  | cons x list =>
    have hcomma : ∀ part ∈ (x :: list).map itemDisplay, ',' ∉ part := by
      intro part hpart
      obtain ⟨y,hy,rfl⟩ := List.mem_map.mp hpart
      exact (h y hy).comma
    rw [fromStr,display,List.splitOn_intercalate ',' hcomma (by simp)]
    exact foldlM_push_display h []

/-- What holds of all that is parsed of a part holds of what a list is parsed to. -/
theorem forall_mem_of_fromStr {P : α → Prop} (hitem : ∀ part x, itemFromStr part = .ok x → P x)
    {s : Line} (h : fromStr itemFromStr s = .ok list) : ∀ x ∈ list, P x := by
  have hfold : ∀ (parts : List Line) (vec : List α), (∀ x ∈ vec, P x) →
      parts.foldlM (push itemFromStr) vec = .ok list → ∀ x ∈ list, P x := by
    intro parts
    induction parts with
    | nil =>
      intro vec hvec hok
      cases hok
      exact hvec
    | cons part parts ih =>
      intro vec hvec hok
      rw [List.foldlM_cons,push] at hok
      split_ifs at hok
      · exact ih vec hvec hok
      · cases hx : itemFromStr part.trim with
        | error e => rw [hx] at hok; cases hok
        | ok x =>
          rw [hx] at hok
          refine ih (vec ++ [x]) ?_ hok
          rw [List.forall_mem_append,List.forall_mem_singleton]
          exact ⟨hvec,hitem _ _ hx⟩
  exact hfold _ [] (by simp) h

end
end CommaSeparatedList

namespace HexString

variable {ε : Type} {encode : Bytes → Line} {decode : Line → Except ε Bytes}

/-- `decode` is that of the crate `hex`. -/
def fromStr (decode : Line → Except ε Bytes) (s : Line) : Except ε Bytes :=
  if s.len < 2 then .ok [0,0,0,0]
  else if ¬s.len % 2 = 0 then decode ('0' :: s)
  else decode s

/-- Pairs of digits are decoded, the first digit the higher one. -/
def DecodesPairs (decode : Line → Except ε Bytes) : Prop :=
  ∀ s, (∀ c ∈ s, Hex.isDigit c) → Even s.length → decode s = .ok (Hex.pairs s)

/-- Bytes are written with two digits each, and read back; no text but one of two characters a
byte is read. -/
structure Codec (encode : Bytes → Line) (decode : Line → Except ε Bytes) : Prop where
  inverse : ∀ bytes, decode (encode bytes) = .ok bytes
  length : ∀ bytes, (encode bytes).length = 2*bytes.length
  digits : ∀ bytes, ∀ c ∈ encode bytes, Hex.isDigit c
  decoded : ∀ s bytes, decode s = .ok bytes → s.len = 2*bytes.length

/-! Lists of hex values. -/

theorem not_whitespace_of_isDigit {c : Char} (h : Hex.isDigit c) :
    Line.isWhitespace c = false := by
  simp only [Hex.isDigit,Bool.or_eq_true,Bool.and_eq_true,decide_eq_true_eq] at h
  simp only [Line.isWhitespace,Bool.or_eq_false_iff,Bool.and_eq_false_iff,decide_eq_false_iff_not,
    beq_eq_false_iff_ne]
  omega

/-- Never parsed to nothing: where there are no two characters, four bytes are made up. -/
theorem fromStr_ne_nil (hc : Codec encode decode) {s : Line} {bytes : Bytes}
    (h : fromStr decode s = .ok bytes) : bytes ≠ [] := by
  rintro rfl
  unfold fromStr at h
  split_ifs at h with hshort heven
  · cases h
  · have hlen := hc.decoded _ _ h
    rw [List.length_nil] at hlen
    omega
  · have hlen := hc.decoded _ _ h
    rw [Line.len_cons,List.length_nil] at hlen
    omega

theorem reads (hc : Codec encode decode) {bytes : Bytes} (hne : bytes ≠ []) :
    CommaSeparatedList.Reads (fromStr decode) encode bytes := by
  have hpos := List.length_pos_of_ne_nil hne
  have hdigits := hc.digits bytes
  have hlength := hc.length bytes
  have hlen := Line.len_of_digits hdigits
  refine ⟨?_,fun h => ?_,?_,?_⟩
  · rw [← List.length_pos_iff]
    omega
  · exact absurd (hdigits _ h) (by decide)
  · exact Line.trim_eq fun c h => not_whitespace_of_isDigit (hdigits c h)
  · rw [fromStr,if_neg (by omega),if_neg (by omega),hc.inverse]

/-- A list that was parsed is parsed again from what it is printed as, and so is every list
of values that are not empty. -/
theorem list_fromStr_display (hc : Codec encode decode) :
    (∀ s list, CommaSeparatedList.fromStr (fromStr decode) s = .ok list →
      CommaSeparatedList.fromStr (fromStr decode) (CommaSeparatedList.display encode list) =
        .ok list) ∧
    ∀ list : List Bytes, (∀ bytes ∈ list, bytes ≠ []) →
      CommaSeparatedList.fromStr (fromStr decode) (CommaSeparatedList.display encode list) =
        .ok list := by
  have hlist : ∀ list : List Bytes, (∀ bytes ∈ list, bytes ≠ []) →
      CommaSeparatedList.fromStr (fromStr decode) (CommaSeparatedList.display encode list) =
        .ok list :=
    fun list hne => CommaSeparatedList.fromStr_display fun bytes hmem => reads hc (hne bytes hmem)
  refine ⟨fun s list h => hlist list ?_,hlist⟩
  exact CommaSeparatedList.forall_mem_of_fromStr (fun _ _ => fromStr_ne_nil hc) h

theorem codec : Codec Hex.encode Hex.decode where
  inverse := Hex.decode_encode
  length := Hex.length_encode
  digits _ _ := Hex.isDigit_of_mem_encode
  decoded s bytes h := by
    obtain ⟨hdigits,hlength⟩ := Hex.of_decode_ok h
    rw [Line.len_of_digits hdigits,hlength]

theorem list_of_parts :
    CommaSeparatedList.fromStr (fromStr Hex.decode) " 1,A2,,b3c ".toList =
      .ok [[0,0,0,0],[0xa2],[0x0b,0x3c]] ∧
    CommaSeparatedList.fromStr (fromStr Hex.decode)
      (CommaSeparatedList.display Hex.encode [[0,0,0,0],[0xa2],[0x0b,0x3c]]) =
      .ok [[0,0,0,0],[0xa2],[0x0b,0x3c]] := by
  have hparsed : CommaSeparatedList.fromStr (fromStr Hex.decode) " 1,A2,,b3c ".toList =
      .ok [[0,0,0,0],[0xa2],[0x0b,0x3c]] := by rfl
  exact ⟨hparsed,(list_fromStr_display codec).1 _ _ hparsed⟩

/-! The value of an item in the blob. -/

theorem decodesPairs : DecodesPairs Hex.decode := fun _ => Hex.decode_ok

/-- How many bytes digits are parsed to. -/
def size (s : Line) : ℕ := if s.length < 2 then 4 else (s.length+1)/2

theorem fromStr_digits (hd : DecodesPairs decode) {s : Line} (hs : ∀ c ∈ s, Hex.isDigit c) :
    ∃ bytes, fromStr decode s = .ok bytes ∧ bytes.length = size s ∧
      Hex.bigEndian bytes = if s.length < 2 then 0 else Hex.value s := by
  unfold fromStr size
  rw [Line.len_of_digits hs]
  split_ifs with hshort heven
  · exact ⟨[0,0,0,0],rfl,rfl,rfl⟩
  · have heven' : Even s.length := Nat.even_iff.mpr heven
    refine ⟨_,hd s hs heven',?_,(Hex.value_pairs hs heven').symm⟩
    rw [Hex.length_pairs]
    omega
  · have hs' : ∀ c ∈ '0' :: s, Hex.isDigit c := List.forall_mem_cons.mpr ⟨by decide,hs⟩
    have heven' : Even ('0' :: s).length := by
      rw [List.length_cons,Nat.even_iff]
      omega
    refine ⟨_,hd _ hs' heven',by rw [Hex.length_pairs,List.length_cons],?_⟩
    rw [← Hex.value_pairs hs' heven',Hex.value_zero_cons]

theorem fromStr_value_iff (hd : DecodesPairs decode) {s : Line} (hs : ∀ c ∈ s, Hex.isDigit c)
    (hpos : 1 ≤ s.length) : ∃ bytes, fromStr decode s = .ok bytes ∧ bytes.length = size s ∧
      (Hex.bigEndian bytes = Hex.value s ↔ 2 ≤ s.length ∨ s = ['0']) := by
  obtain ⟨bytes,hbytes,hsize,hvalue⟩ := fromStr_digits hd hs
  refine ⟨bytes,hbytes,hsize,?_⟩
  rw [hvalue]
  by_cases hshort : s.length < 2
  · obtain ⟨c,rfl⟩ := List.length_eq_one_iff.mp (show s.length = 1 by omega)
    have hc := Hex.digit_eq_zero (hs c (List.mem_singleton_self c))
    rw [if_pos hshort]
    simp [Hex.value,← hc,eq_comm]
  · rw [if_neg hshort]
    simp only [true_iff]
    exact .inl (Nat.not_lt.mp hshort)

end HexString

namespace Setting

/-- The word of a blob at an address, where bytes beyond the end count as zero. -/
def wordAt (blob : Bytes) (addr : ℕ) : UInt32 :=
  u32OfLe (blob.getD (4*addr) 0) (blob.getD (4*addr + 1) 0) (blob.getD (4*addr + 2) 0)
    (blob.getD (4*addr + 3) 0)

/-- No word of the elements overlaps the four bytes at an address. -/
def Free (items : List AddressableElement) (addr : ℕ) : Prop :=
  ∀ w ∈ items.flatMap AddressableElement.words, ∀ i < 4, ¬w.Covers (4*addr + i)

variable {before after : List AddressableElement} {addr : UInt64} {hex blob : Bytes}

theorem words_item : (Setting.mk (before ++ .item addr hex :: after)).words =
    before.flatMap AddressableElement.words ++
      ⟨addr.toNat,hex⟩ :: after.flatMap AddressableElement.words := by
  rw [words,List.flatMap_append,List.flatMap_cons]
  rfl

theorem lastOver_item (hex : Bytes) (hfree : Free (before ++ after) addr.toNat) {i : ℕ}
    (hi : i < 4) :
    (Setting.mk (before ++ .item addr hex :: after)).lastOver (4*addr.toNat + i) =
      if i < hex.length then some ⟨addr.toNat,hex⟩ else none := by
  rw [Free,List.flatMap_append,List.forall_mem_append] at hfree
  have hbefore : (before.flatMap AddressableElement.words).filter
      (fun w => w.Covers (4*addr.toNat + i)) = [] :=
    List.filter_eq_nil_iff.mpr fun w hw => by simpa using hfree.1 w hw i hi
  have hafter : (after.flatMap AddressableElement.words).filter
      (fun w => w.Covers (4*addr.toNat + i)) = [] :=
    List.filter_eq_nil_iff.mpr fun w hw => by simpa using hfree.2 w hw i hi
  have hitem : (Word.mk addr.toNat hex).Covers (4*addr.toNat + i) ↔ i < hex.length := by
    simp only [Word.Covers,Word.stop]
    omega
  rw [lastOver,words_item,List.filter_append,List.filter_cons,hbefore,hafter]
  split_ifs with hcovers hlt hlt
  · rfl
  · exact absurd (hitem.mp (by simpa using hcovers)) hlt
  · exact absurd (hitem.mpr hlt) (by simpa using hcovers)
  · rfl

theorem getD_item (hfree : Free (before ++ after) addr.toNat)
    (hblob : (Setting.mk (before ++ .item addr hex :: after)).Restored blob) {i : ℕ}
    (hi : i < 4) : blob.getD (4*addr.toNat + i) 0 = hex.reverse.getD i 0 := by
  have hlast := lastOver_item hex hfree hi
  rw [List.getD_eq_getElem?_getD,List.getD_eq_getElem?_getD]
  by_cases hlt : i < hex.length
  · rw [if_pos hlt] at hlast
    have hword := hblob.word ⟨addr.toNat,hex⟩ i hlt hlast
    rw [hword,List.getElem?_reverse hlt]
  · rw [if_neg hlt] at hlast
    rw [List.getElem?_eq_none (l := hex.reverse) (by rw [List.length_reverse]; omega)]
    by_cases hin : 4*addr.toNat + i < blob.length
    · rw [hblob.gap _ hin hlast]
      rfl
    · rw [List.getElem?_eq_none (Nat.not_lt.mp hin)]

theorem fits_item : (Setting.mk (before ++ .item addr hex :: after)).Fits ↔
    (∀ e ∈ before ++ after, e.Fits) ∧ 4*addr.toNat + hex.length ≤ isizeMax := by
  have hitem : (AddressableElement.item addr hex).Fits ↔
      4*addr.toNat + hex.length ≤ isizeMax := by
    simp [AddressableElement.Fits,AddressableElement.words,Word.Fits,Word.stop]
  simp only [Fits,List.forall_mem_append,List.forall_mem_cons,hitem]
  tauto

theorem wordAt_item (hfree : Free (before ++ after) addr.toNat) (hlen : hex.length ≤ 4)
    (hblob : (Setting.mk (before ++ .item addr hex :: after)).Restored blob) :
    (wordAt blob addr.toNat).toNat = Hex.bigEndian hex := by
  rw [← Hex.u32OfLe_reverse hlen,wordAt]
  have hfirst : blob.getD (4*addr.toNat) 0 = hex.reverse.getD 0 0 :=
    getD_item (i := 0) hfree hblob (by decide)
  rw [hfirst,getD_item hfree hblob (by decide),getD_item hfree hblob (by decide),
    getD_item hfree hblob (by decide)]

/-- There is a blob where the words fit, and it has the value of the bytes. -/
theorem exists_wordAt_iff (hfree : Free (before ++ after) addr.toNat) (hlen : hex.length ≤ 4)
    (n : ℕ) :
    (∃ blob, (Setting.mk (before ++ .item addr hex :: after)).toRestoreBlob = .ok blob ∧
        (wordAt blob addr.toNat).toNat = n) ↔
      (Setting.mk (before ++ .item addr hex :: after)).Fits ∧ Hex.bigEndian hex = n := by
  constructor
  · rintro ⟨blob,hok,hword⟩
    have hfits : (Setting.mk (before ++ .item addr hex :: after)).Fits := by
      by_contra hfits
      obtain ⟨p,hp⟩ := (toRestoreBlob_writes _).panics hfits
      rw [hok] at hp
      cases hp
    obtain rfl := Except.ok.inj (hok.symm.trans (toRestoreBlob_ok hfits))
    exact ⟨hfits,(wordAt_item hfree hlen (restored_writeAll _)).symm.trans hword⟩
  · rintro ⟨hfits,heq⟩
    exact ⟨_,toRestoreBlob_ok hfits,(wordAt_item hfree hlen (restored_writeAll _)).trans heq⟩

/-- Where the words fit, the blob has the value of the digits at the address of the item, unless
there is only one digit: that is taken for zero. -/
theorem toRestoreBlob_value {ε : Type} {decode : Line → Except ε Bytes}
    (hd : HexString.DecodesPairs decode) {text : Line} (hdigits : ∀ c ∈ text, Hex.isDigit c)
    (hpos : 1 ≤ text.length) (hlen : text.length ≤ 8)
    (hfree : Free (before ++ after) addr.toNat) :
    ∃ hex, HexString.fromStr decode text = .ok hex ∧
      ((∃ blob, (Setting.mk (before ++ .item addr hex :: after)).toRestoreBlob = .ok blob ∧
          (wordAt blob addr.toNat).toNat = Hex.value text) ↔
        (∀ e ∈ before ++ after, e.Fits) ∧
          4*addr.toNat + HexString.size text ≤ isizeMax ∧
          (2 ≤ text.length ∨ text = ['0'])) := by
  obtain ⟨hex,hhex,hsize,hvalue⟩ := HexString.fromStr_value_iff hd hdigits hpos
  have hbytes : hex.length ≤ 4 := by
    rw [hsize,HexString.size]
    split <;> omega
  refine ⟨hex,hhex,?_⟩
  rw [exists_wordAt_iff hfree hbytes,fits_item,hvalue,hsize,and_assoc]

theorem toRestoreBlob_three_digits :
    ∃ hex, HexString.fromStr Hex.decode "1aB".toList = .ok hex ∧
      ((∃ blob, (Setting.mk [.item 1 [5],.item 2 hex]).toRestoreBlob = .ok blob ∧
          (wordAt blob 2).toNat = Hex.value "1aB".toList) ↔
        (∀ e ∈ [AddressableElement.item 1 [5]], e.Fits) ∧
          4*2 + HexString.size "1aB".toList ≤ isizeMax ∧
          (2 ≤ "1aB".toList.length ∨ "1aB".toList = ['0'])) := by
  have hfree : Free ([.item 1 [5]] ++ []) (2 : UInt64).toNat := by
    intro w hw i hi
    obtain rfl : w = ⟨1,[5]⟩ := by simpa [AddressableElement.words] using hw
    rintro ⟨-,hstop⟩
    simp only [Word.stop,List.length_singleton] at hstop
    have hstart : 4*2 + i < 4*1 + 1 := hstop
    omega
  have hvalue := @toRestoreBlob_value [.item 1 [5]] [] 2 _ _ HexString.decodesPairs "1aB".toList
  exact hvalue (List.all_eq_true.mp (by decide)) (by decide) (by decide) hfree

/-- One digit is restored as zero. -/
theorem toRestoreBlob_one_digit :
    ¬∀ (text : Line) (before after : List AddressableElement) (addr : UInt64),
      (∀ c ∈ text, Hex.isDigit c) → 1 ≤ text.length → text.length ≤ 8 →
      Free (before ++ after) addr.toNat →
      ∀ hex blob, HexString.fromStr Hex.decode text = .ok hex →
        (Setting.mk (before ++ .item addr hex :: after)).toRestoreBlob = .ok blob →
        (wordAt blob addr.toNat).toNat = Hex.value text := by
  intro h
  have hvalue := h ['1'] [] [] 0 (List.all_eq_true.mp (by decide)) (by decide) (by decide)
    (fun w hw => absurd hw (by simp)) [0,0,0,0] [0,0,0,0] rfl (by decide)
  exact absurd hvalue (by decide)

end Setting

end Minidsp
