import Minidsp.Decoder
import Minidsp.HexText
import Minidsp.Logger
import Minidsp.RewText

/-! Recordings of the frames of a transport: their text, and what is read of one that may be cut
anywhere. -/
namespace Minidsp
namespace Recorder

open Buffer
open Line (Unbroken)

abbrev Message := Logger.Message Bytes Bytes

/-- `splitn(2, ": ")` -/
def splitn : List Char → List Char × Option (List Char)
  | [] => ([],none)
  | [c] => ([c],none)
  | c :: c' :: rest =>
    if c = ':' ∧ c' = ' ' then ([],some rest)
    else
      let (head,tail) := splitn (c' :: rest)
      (c :: head,tail)

namespace Message

def parseHex (s : List Char) : Option Bytes := (Hex.decode s).toOption

def fromString (s : List Char) : Option Message :=
  match splitn s with
  | (head,tail) =>
    if head = "Sent".toList then (tail.bind parseHex).map .sent
    else if head = "Recv".toList then (tail.bind parseHex).map .received
    else none

def display : Message → List Char
  | .sent data => "Sent: ".toList ++ Hex.encode data
  | .received data => "Recv: ".toList ++ Hex.encode data

/-- What can come of the line of a message when its end is missing. -/
def CutOf : Message → Message → Prop
  | .sent e, .sent data | .received e, .received data => e <+: data
  | _, _ => False

end Message

/-- `LinesCodec`: what it writes for a line, and what it reads of a text up to its end. -/
structure LinesCodec (ε : Type) where
  encode : Line → List Char
  decode : List Char → List (Except ε Line)

/-- A line ends with a line break, and the last one that is read may be without. -/
structure LinesCodec.Documented {ε : Type} (codec : LinesCodec ε) : Prop where
  encode_eq : ∀ line, codec.encode line = line ++ ['\n']
  decode_eq : ∀ (lines : List Line) rest, (∀ line ∈ lines, Unbroken line) → Unbroken rest →
    codec.decode (lines.flatMap codec.encode ++ rest) =
      lines.map .ok ++ if rest = [] then [] else [.ok rest]

section
variable {ε : Type} (codec : LinesCodec ε)

def fromReader (text : List Char) : List Message :=
  (codec.decode text).filterMap fun x => x.toOption.bind Message.fromString

end

/-- `None` for what cannot be parsed. -/
def decodeSentCommands : Message → Exec Empty (Option Commands)
  | .sent data =>
    match Packet.unframe data with
    | .error _ => .ok none
    | .ok data =>
      match Commands.fromBytes data with
      | .ok cmd => .ok (some cmd)
      | .error (.error _) => .ok none
      | .error (.panic p) => .error (.panic p)
  | .received _ => .ok none

def sentCommands (messages : List Message) : Exec Empty (List Commands) := do
  return (← messages.mapM decodeSentCommands).filterMap id

def bulkLoad : Commands → Option Bytes
  | .bulkLoad payload => some payload
  | _ => none

def dump (skip : Option ℕ) (messages : List Message) : Exec Empty Bytes := do
  return ((← sentCommands messages).filterMap bulkLoad).flatten.drop (skip.getD 0)

/-! One line. -/

section
variable {m m' : Message} {line text : List Char}

theorem unbroken_of_isDigit (h : ∀ c ∈ line, Hex.isDigit c) : Unbroken line :=
  ⟨fun hc => absurd (h _ hc) (by decide),fun hc => absurd (h _ hc) (by decide)⟩

theorem unbroken_append (hline : Unbroken line) (htext : Unbroken text) :
    Unbroken (line ++ text) :=
  ⟨fun hc => (List.mem_append.mp hc).elim hline.1 htext.1,
    fun hc => (List.mem_append.mp hc).elim hline.2 htext.2⟩

theorem unbroken_of_subset (htext : Unbroken text) (h : line ⊆ text) : Unbroken line :=
  ⟨fun hc => htext.1 (h hc),fun hc => htext.2 (h hc)⟩

theorem unbroken_display (m : Message) : Unbroken m.display := by
  have hdigits : ∀ data : Bytes, Unbroken (Hex.encode data) :=
    fun data => unbroken_of_isDigit fun c hc => Hex.isDigit_of_mem_encode hc
  cases m with
  | sent data => exact unbroken_append ⟨by decide,by decide⟩ (hdigits data)
  | received data => exact unbroken_append ⟨by decide,by decide⟩ (hdigits data)

theorem fromString_sent (s : List Char) :
    Message.fromString ("Sent: ".toList ++ s) = (Message.parseHex s).map .sent := rfl

theorem fromString_received (s : List Char) :
    Message.fromString ("Recv: ".toList ++ s) = (Message.parseHex s).map .received := rfl

theorem parseHex_encode (data : Bytes) : Message.parseHex (Hex.encode data) = some data := by
  rw [Message.parseHex,Hex.decode_encode]
  rfl

theorem fromString_display (m : Message) : Message.fromString m.display = some m := by
  cases m with
  | sent data =>
    refine (fromString_sent _).trans ?_
    rw [parseHex_encode,Option.map_some]
  | received data =>
    refine (fromString_received _).trans ?_
    rw [parseHex_encode,Option.map_some]

theorem prefix_append_cases {α : Type} {xs as bs : List α} (h : xs <+: as ++ bs) :
    xs <+: as ∧ xs ≠ as ∨ ∃ ys, xs = as ++ ys ∧ ys <+: bs := by
  rcases List.prefix_or_prefix_of_prefix (List.prefix_append as bs) h with ⟨ys,rfl⟩ | hpre
  · exact Or.inr ⟨ys,rfl,(List.prefix_append_right_inj as).mp h⟩
  · by_cases heq : xs = as
    · exact Or.inr ⟨[],by rw [heq,List.append_nil],List.nil_prefix⟩
    · exact Or.inl ⟨hpre,heq⟩

theorem fromString_tag : ∀ tag ∈ ["Sent: ".toList,"Recv: ".toList],
    ∀ s ∈ tag.inits, s ≠ tag → Message.fromString s = none := by
  decide

theorem fromString_of_tag {tag s : List Char} (htag : tag ∈ ["Sent: ".toList,"Recv: ".toList])
    (h : s <+: tag) (hne : s ≠ tag) : Message.fromString s = none :=
  fromString_tag tag htag s ((List.mem_inits s tag).mpr h) hne

theorem decode_of_parseHex {s : List Char} {b : Bytes} (h : Message.parseHex s = some b) :
    Hex.decode s = .ok b := by
  rw [Message.parseHex] at h
  cases hs : Hex.decode s with
  | error e =>
    rw [hs] at h
    cases h
  | ok b' =>
    rw [hs] at h
    rw [Option.some.inj h]

theorem fromString_cut (hpre : line <+: m.display) (h : Message.fromString line = some m') :
    m'.CutOf m := by
  cases m with
  | sent data =>
    rcases prefix_append_cases hpre with ⟨htag,hne⟩ | ⟨e,rfl,he⟩
    · rw [fromString_of_tag (by simp) htag hne] at h
      cases h
    · rw [fromString_sent] at h
      obtain ⟨b,hb,rfl⟩ := Option.map_eq_some_iff.mp h
      exact Hex.prefix_of_decode (decode_of_parseHex hb) he
  | received data =>
    rcases prefix_append_cases hpre with ⟨htag,hne⟩ | ⟨e,rfl,he⟩
    · rw [fromString_of_tag (by simp) htag hne] at h
      cases h
    · rw [fromString_received] at h
      obtain ⟨b,hb,rfl⟩ := Option.map_eq_some_iff.mp h
      exact Hex.prefix_of_decode (decode_of_parseHex hb) he

end

/-! A file. -/

section
variable {ε : Type} {codec : LinesCodec ε} {messages done : List Message} {file : List Char}

def text (codec : LinesCodec ε) (messages : List Message) : List Char :=
  messages.flatMap fun m => codec.encode m.display

theorem prefix_flatMap {α β : Type} {f : α → List β} {xs : List α} {ys : List β}
    (h : ys <+: xs.flatMap f) : ∃ done cut, ys = done.flatMap f ++ cut ∧ done <+: xs ∧
      (cut = [] ∨ ∃ x, done ++ [x] <+: xs ∧ cut <+: f x ∧ cut ≠ f x) := by
  induction xs generalizing ys with
  | nil => exact ⟨[],[],List.prefix_nil.mp h,List.nil_prefix,Or.inl rfl⟩
  | cons x xs ih =>
    rw [List.flatMap_cons] at h
    rcases prefix_append_cases h with ⟨hpre,hne⟩ | ⟨zs,rfl,hzs⟩
    · exact ⟨[],ys,rfl,List.nil_prefix,Or.inr ⟨x,List.prefix_append [x] xs,hpre,hne⟩⟩
    · obtain ⟨done,cut,rfl,hdone,hcut⟩ := ih hzs
      refine ⟨x :: done,cut,?_,List.cons_prefix_cons.mpr ⟨rfl,hdone⟩,?_⟩
      · rw [List.flatMap_cons,List.append_assoc]
      · rcases hcut with hnil | ⟨y,hy,hcut⟩
        · exact Or.inl hnil
        · exact Or.inr ⟨y,List.cons_prefix_cons.mpr ⟨rfl,hy⟩,hcut⟩

theorem fromReader_text (hcodec : codec.Documented) (done : List Message) {cut : List Char}
    (hcut : Unbroken cut) :
    fromReader codec (text codec done ++ cut) = done ++ (Message.fromString cut).toList := by
  have htext : text codec done = (done.map Message.display).flatMap codec.encode :=
    (List.flatMap_map ..).symm
  have hlines : ∀ line ∈ done.map Message.display, Unbroken line := by
    intro line hline
    obtain ⟨m,-,rfl⟩ := List.mem_map.mp hline
    exact unbroken_display m
  have hdone : ((done.map Message.display).map (Except.ok (ε := ε))).filterMap
      (fun x => x.toOption.bind Message.fromString) = done := by
    rw [List.map_map,List.filterMap_map]
    exact (List.filterMap_congr fun m _ => fromString_display m).trans List.filterMap_some
  rw [fromReader,htext,hcodec.decode_eq _ cut hlines hcut,List.filterMap_append,hdone]
  congr 1
  split_ifs with hnil
  · rw [hnil]
    rfl
  · cases hm : Message.fromString cut with
    | none => simp [Except.toOption,hm]
    | some m => simp [Except.toOption,hm]

/-- What is read of a part of a recording: the messages in front, and perhaps one that is cut. -/
theorem read_cut (hcodec : codec.Documented) (h : file <+: text codec messages) :
    ∃ (done : List Message) (last : Option Message),
      fromReader codec file = done ++ last.toList ∧ done <+: messages ∧
      ∀ m ∈ last, ∃ next, done ++ [next] <+: messages ∧ m.CutOf next := by
  obtain ⟨done,cut,rfl,hdone,hcut⟩ := prefix_flatMap h
  rcases hcut with rfl | ⟨next,hnext,hpre,hne⟩
  · exact ⟨done,none,fromReader_text hcodec done ⟨by simp,by simp⟩,hdone,nofun⟩
  · rw [hcodec.encode_eq] at hpre hne
    have hline : cut <+: next.display := (List.prefix_concat_iff.mp hpre).resolve_left hne
    have hcut : Unbroken cut := unbroken_of_subset (unbroken_display next) hline.subset
    exact ⟨done,_,fromReader_text hcodec done hcut,hdone,
      fun m hm => ⟨next,hnext,fromString_cut hline hm⟩⟩

theorem read_whole (hcodec : codec.Documented) (messages : List Message) :
    fromReader codec (text codec messages) = messages := by
  have hread := fromReader_text hcodec messages
    (show Unbroken [] from ⟨by simp,by simp⟩)
  rwa [List.append_nil,show Message.fromString [] = none from rfl,Option.toList_none,
    List.append_nil] at hread

end

/-! What was sent. -/

/-- A frame that is cut holds the same packet, or none. -/
theorem unframe_cut {e data p : Bytes} (hpre : e <+: data) (h : Packet.unframe e = .ok p) :
    Packet.unframe data = .ok p := by
  obtain ⟨more,rfl⟩ := hpre
  obtain ⟨b,rest,rfl,hb,hlen,rfl⟩ := Packet.unframe_ok_iff.mp h
  refine Packet.unframe_ok_iff.mpr ⟨b,rest ++ more,rfl,hb,?_,?_⟩
  · rw [List.length_append]
    omega
  · rw [List.take_append_of_le_length (by omega)]

theorem decode_cut {m next : Message} (h : m.CutOf next) :
    decodeSentCommands m = .ok none ∨ decodeSentCommands m = decodeSentCommands next := by
  cases m with
  | received e => exact Or.inl rfl
  | sent e =>
    cases next with
    | received data => exact h.elim
    | sent data =>
      cases hp : Packet.unframe e with
      | error err => exact Or.inl (by rw [decodeSentCommands,hp])
      | ok p => exact Or.inr (by rw [decodeSentCommands,hp,decodeSentCommands,unframe_cut h hp])

theorem sentCommands_append (xs ys : List Message) : sentCommands (xs ++ ys) = do
    return (← sentCommands xs) ++ (← sentCommands ys) := by
  simp only [sentCommands,List.mapM_append,bind_assoc,pure_bind,List.filterMap_append]

theorem sentCommands_one (m : Message) :
    sentCommands [m] = (decodeSentCommands m).map Option.toList := by
  rw [sentCommands,List.mapM_cons,List.mapM_nil]
  cases decodeSentCommands m with
  | error e => rfl
  | ok x => cases x <;> rfl

theorem sentCommands_prefix {xs ys : List Message} {cmds : List Commands} (hpre : xs <+: ys)
    (h : sentCommands ys = .ok cmds) :
    ∃ front, sentCommands xs = .ok front ∧ front <+: cmds := by
  obtain ⟨more,rfl⟩ := hpre
  rw [sentCommands_append] at h
  obtain ⟨front,hfront,h⟩ := exec_bind_eq_ok.mp h
  obtain ⟨back,-,h⟩ := exec_bind_eq_ok.mp h
  exact ⟨front,hfront,back,Except.ok.inj h⟩

theorem sentCommands_cut {done messages : List Message} {last : Option Message}
    {cmds : List Commands} (hdone : done <+: messages)
    (hlast : ∀ m ∈ last, ∃ next, done ++ [next] <+: messages ∧ m.CutOf next)
    (h : sentCommands messages = .ok cmds) :
    ∃ front, sentCommands (done ++ last.toList) = .ok front ∧ front <+: cmds := by
  cases last with
  | none =>
    rw [Option.toList_none,List.append_nil]
    exact sentCommands_prefix hdone h
  | some m =>
    obtain ⟨next,hnext,hcut⟩ := hlast m rfl
    rcases decode_cut hcut with hnone | hsame
    · obtain ⟨front,hfront,hpre⟩ := sentCommands_prefix hdone h
      refine ⟨front,?_,hpre⟩
      rw [Option.toList_some,sentCommands_append,hfront,sentCommands_one,hnone]
      exact congrArg Except.ok (List.append_nil front)
    · have hboth : sentCommands (done ++ [m]) = sentCommands (done ++ [next]) := by
        rw [sentCommands_append,sentCommands_one,hsame,← sentCommands_one,← sentCommands_append]
      rw [Option.toList_some,hboth]
      exact sentCommands_prefix hnext h

theorem dump_mono {xs : List Message} {front cmds : List Commands} (skip : Option ℕ)
    (hpre : front <+: cmds) (h : sentCommands xs = .ok front) : ∃ bytes, dump skip xs = .ok bytes ∧
      bytes <+: ((cmds.filterMap bulkLoad).flatten.drop (skip.getD 0)) := by
  refine ⟨_,by rw [dump,h]; rfl,?_⟩
  exact ((hpre.filterMap bulkLoad).flatten).drop _

end Recorder
end Minidsp
