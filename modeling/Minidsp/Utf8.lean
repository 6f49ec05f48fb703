import Minidsp.Buffer

/-! Text as bytes, and bytes of any kind read as text: what is not text is replaced. -/
namespace Minidsp
namespace Utf8

open Buffer

def encode (text : List Char) : Bytes := text.flatMap String.utf8EncodeChar

def decodeChar? (bytes : Bytes) : Option Char := bytes.toByteArray.utf8DecodeChar? 0

def isContinuation (b : UInt8) : Bool := 0x80 ≤ b && b ≤ 0xBF

def beginsThree (a b : UInt8) : Bool :=
  (a == 0xE0 && 0xA0 ≤ b && b ≤ 0xBF) || (0xE1 ≤ a && a ≤ 0xEC && isContinuation b) ||
    (a == 0xED && 0x80 ≤ b && b ≤ 0x9F) || (0xEE ≤ a && a ≤ 0xEF && isContinuation b)

def beginsFour (a b : UInt8) : Bool :=
  (a == 0xF0 && 0x90 ≤ b && b ≤ 0xBF) || (0xF1 ≤ a && a ≤ 0xF3 && isContinuation b) ||
    (a == 0xF4 && 0x80 ≤ b && b ≤ 0x8F)

/-- How many bytes behind the first are the rest of the beginning of a character, when there is
no character in front. -/
def broken (a : UInt8) : Bytes → ℕ
  | [] => 0
  | [b] => if beginsThree a b || beginsFour a b then 1 else 0
  | b :: c :: _ =>
    if beginsThree a b then 1
    else if beginsFour a b then if isContinuation c then 2 else 1
    else 0

/-- Every longest beginning of a character, and every other byte that is not of one, is
replaced. -/
def fromLossy : Bytes → List Char
  | [] => []
  | a :: bytes =>
    match decodeChar? (a :: bytes) with
    | some c => c :: fromLossy (bytes.drop (c.utf8Size - 1))
    | none => Char.ofNat 0xFFFD :: fromLossy (bytes.drop (broken a bytes))
  termination_by bytes => bytes.length
  decreasing_by
    · rw [List.length_drop,List.length_cons]
      omega
    · rw [List.length_drop,List.length_cons]
      omega

theorem encode_cons (c : Char) (text : List Char) :
    encode (c :: text) = String.utf8EncodeChar c ++ encode text := rfl

theorem decodeChar?_encode (c : Char) (bytes : Bytes) :
    decodeChar? (String.utf8EncodeChar c ++ bytes) = some c := by
  rw [decodeChar?,List.toByteArray_append]
  exact ByteArray.utf8DecodeChar?_utf8EncodeChar_append

theorem fromLossy_append (c : Char) (bytes : Bytes) :
    fromLossy (String.utf8EncodeChar c ++ bytes) = c :: fromLossy bytes := by
  have hdecode := decodeChar?_encode c bytes
  have hlen := String.length_utf8EncodeChar c
  have hpos := c.utf8Size_pos
  cases h : String.utf8EncodeChar c with
  | nil =>
    rw [h,List.length_nil] at hlen
    omega
  | cons a rest =>
    rw [h,List.length_cons] at hlen
    rw [h,List.cons_append] at hdecode
    rw [List.cons_append,fromLossy,hdecode]
    have hdrop : (rest ++ bytes).drop (c.utf8Size - 1) = bytes := by
      rw [show c.utf8Size - 1 = rest.length by omega,List.drop_left]
    exact congrArg (fun rest => c :: fromLossy rest) hdrop

theorem fromLossy_encode (text : List Char) : fromLossy (encode text) = text := by
  induction text with
  | nil => rw [encode,List.flatMap_nil,fromLossy]
  | cons c text ih => rw [encode_cons,fromLossy_append,ih]

end Utf8
end Minidsp
