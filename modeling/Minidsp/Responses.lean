import Minidsp.Wire

/-! Responses of a device and their parser. -/
namespace Minidsp

open Buffer

structure FloatView where
  base : UInt16
  data : List F32Bits
  deriving DecidableEq, Repr

structure MemoryView where
  base : UInt16
  data : Bytes
  deriving DecidableEq, Repr

def FloatView.get {ε : Type} (view : FloatView) (addr : UInt16) : Exec ε F32Bits := do
  let i ← subU16 addr view.base
  match view.data[i.toNat]? with
  | some x => return x
  | none => .error (.panic (.index i.toNat view.data.length))

def MemoryView.readAt (view : MemoryView) (addr : UInt16) (len : UInt8) : Option Bytes :=
  if addr < view.base ∨ view.base.toNat + view.data.length < addr.toNat then none
  else
    let start := addr.toNat - view.base.toNat
    let stop := start + len.toNat
    if view.data.length < stop then none
    else some ((view.data.take stop).drop start)

def MemoryView.readU8 (view : MemoryView) (addr : UInt16) : Option UInt8 :=
  (view.readAt addr 1).bind List.head?

theorem MemoryView.readU8_eq {view : MemoryView} {addr : UInt16} (h : view.base ≤ addr) :
    view.readU8 addr = view.data[addr.toNat-view.base.toNat]? := by
  have hle : view.base.toNat ≤ addr.toNat := h
  have hlt : ¬addr < view.base := by simpa using h
  have hone : (1 : UInt8).toNat = 1 := rfl
  simp only [readU8,readAt,hlt,false_or,hone]
  split_ifs with hbeyond hend
  · symm
    simp only [Option.bind_none,List.getElem?_eq_none_iff]
    omega
  · symm
    simp only [Option.bind_none,List.getElem?_eq_none_iff]
    omega
  · rw [Option.bind_some,List.head?_drop,List.getElem?_take_of_lt (by omega)]

/-! The reads of a view with the operations that could panic. -/
namespace MemoryView

section
variable {ε : Type} (view : MemoryView)

def tryReadAt (addr : UInt16) (len : UInt8) : Exec ε (Option Bytes) :=
  if addr < view.base ∨ view.base.toNat + view.data.length < addr.toNat then return none
  else do
    let start ← subU16 addr view.base
    let stop := start.toNat + len.toNat
    if view.data.length < stop then return none
    else return some (← slice view.data start.toNat stop)

def tryReadU8 (addr : UInt16) : Exec ε (Option UInt8) := do
  match ← view.tryReadAt addr 1 with
  | none => return none
  | some b => return some (← index b 0)

/-- `u16::from_be_bytes(self.read_at(addr, 2)?.try_into().unwrap())` -/
def readU16 (addr : UInt16) : Exec ε (Option UInt16) := do
  match ← view.tryReadAt addr 2 with
  | none => return none
  | some [hi,lo] => return some (u16Of hi lo)
  | some _ => .error (.panic (.explicit "called unwrap on an Err value"))

end
end MemoryView

structure HardwareId where
  fwMajor : UInt8
  fwMinor : UInt8
  hwId : UInt8
  deriving DecidableEq, Repr

inductive Responses
  | ack
  | read (addr : Addr) (data : List Value)
  | memoryData (data : MemoryView)
  | floatData (data : FloatView)
  | hardwareId (id : HardwareId)
  | firLoadSize (size : UInt16)
  | configChanged
  | unk02
  | unknown (cmdId : UInt8) (payload : Bytes)
  deriving DecidableEq, Repr

/-- `chunks(4)`: the last chunk may be shorter. -/
def chunks4 : Bytes → List Bytes
  | a :: b :: c :: d :: rest => [a,b,c,d] :: chunks4 rest
  | [] => []
  | short => [short]

/-- `chunks_exact(4)` read as little-endian floats: a shorter last chunk is dropped. -/
def floatsLe : Bytes → List F32Bits
  | a :: b :: c :: d :: rest => u32OfLe a b c d :: floatsLe rest
  | _ => []

def FloatView.fromPacket (packet : Bytes) : Exec ProtocolError FloatView := do
  let (_,packet) ← tryGetU8 packet
  let (base,packet) ← tryGetU16 packet
  return { base, data := floatsLe packet }

def MemoryView.fromPacket (packet : Bytes) : Exec ProtocolError MemoryView := do
  let (_,packet) ← tryGetU8 packet
  let (base,packet) ← tryGetU16 packet
  return { base, data := packet }

namespace Responses

/-- The values of a read response; a chunk that does not parse is left out. -/
def readValues (frame : Bytes) : List Value :=
  (chunks4 frame).filterMap fun x =>
    match (Value.fromBytes x : Exec TryGetError Value) with
    | .ok v => some v
    | .error _ => none

def fromBytes (frame : Bytes) : Exec ProtocolError Responses :=
  match frame with
  | [] => return .ack
  | id :: _ =>
    if id = 0x02 then do
      let (_,frame) ← tryGetU8 frame
      let (addr,frame) ← Addr.read frame 2
      return .read addr (readValues frame)
    else if id = 0x05 then do
      return .memoryData (← MemoryView.fromPacket frame)
    else if id = 0x14 then do
      return .floatData (← FloatView.fromPacket frame)
    else if id = 0x31 then do
      let (_,frame) ← tryGetU8 frame
      let (fwMajor,frame) ← tryGetU8 frame
      let (fwMinor,frame) ← tryGetU8 frame
      let (hwId,_) ← tryGetU8 frame
      return .hardwareId { fwMajor, fwMinor, hwId }
    else if id = 0x39 then do
      let (_,frame) ← tryGetU8 frame
      let (size,_) ← tryGetU16 frame
      return .firLoadSize size
    else if id = 0xab then return .configChanged
    else return .unknown id frame

def toBytes : Responses → Except Panic Bytes
  | .ack => .ok []
  | .memoryData data => .ok (0x05 :: (putU16 data.base ++ data.data))
  | .floatData data => .ok (0x14 :: (putU16 data.base ++ data.data.flatMap putU32Le))
  | .unknown cmdId payload => .ok (cmdId :: payload)
  | .hardwareId id => .ok [0x31,id.fwMajor,id.fwMinor,id.hwId]
  | .firLoadSize size => .ok (0x39 :: putU16 size)
  | .configChanged => .ok [0xab]
  | .read addr data => do return 0x02 :: ((← addr.write) ++ data.flatMap Value.intoBytes)
  | .unk02 => .ok [0x02]

/-! The payload of the one response a caller waits for. -/

def intoMemoryView : Responses → Except ProtocolError MemoryView
  | .memoryData m => .ok m
  | _ => .error .unexpectedResponseType

def intoFloatView : Responses → Except ProtocolError FloatView
  | .floatData m => .ok m
  | _ => .error .unexpectedResponseType

def intoAck : Responses → Except ProtocolError Unit
  | .ack => .ok ()
  | _ => .error .unexpectedResponseType

def intoConfigChanged : Responses → Except ProtocolError Unit
  | .configChanged => .ok ()
  | _ => .error .unexpectedResponseType

def intoHardwareId : Responses → Except ProtocolError HardwareId
  | .hardwareId id => .ok id
  | _ => .error .unexpectedResponseType

def intoFirSize : Responses → Except ProtocolError UInt16
  | .firLoadSize size => .ok size
  | _ => .error .unexpectedResponseType

def Addressed (id : UInt8) : Prop := id = 0x02 ∨ id = 0x05 ∨ id = 0x14 ∨ id = 0x39

instance (id : UInt8) : Decidable (Addressed id) := inferInstanceAs (Decidable (_ ∨ _))

def minLength (id : UInt8) : ℕ :=
  if Addressed id then 3
  else if id = 0x31 then 4
  else 1

/-- A packet cut short of the fields its id announces. -/
def Truncated : Bytes → Prop
  | [] => False
  | id :: rest => rest.length+1 < minLength id

instance : DecidablePred Truncated
  | [] => inferInstanceAs (Decidable False)
  | _ :: _ => inferInstanceAs (Decidable (_ < _))

theorem fromBytes_addressed_short {id : UInt8} {rest : Bytes} (hid : Addressed id)
    (h : rest.length < 2) : ∃ e, fromBytes (id :: rest) = .error (.error (.decodeError e)) := by
  rcases rest with _ | ⟨a,_ | ⟨b,rest⟩⟩
  · rcases hid with rfl | rfl | rfl | rfl <;> exact ⟨_,rfl⟩
  · rcases hid with rfl | rfl | rfl | rfl <;> exact ⟨_,rfl⟩
  · simp only [List.length_cons] at h
    omega

theorem fromBytes_addressed {id : UInt8} {rest : Bytes} (hid : Addressed id)
    (h : 2 ≤ rest.length) : ∃ r, fromBytes (id :: rest) = .ok r := by
  rcases rest with _ | ⟨a,_ | ⟨b,rest⟩⟩
  · simp at h
  · simp at h
  · rcases hid with rfl | rfl | rfl | rfl <;> exact ⟨_,rfl⟩

theorem fromBytes_hardwareId_short {rest : Bytes} (h : rest.length < 3) :
    ∃ e, fromBytes (0x31 :: rest) = .error (.error (.decodeError e)) := by
  rcases rest with _ | ⟨a,_ | ⟨b,_ | ⟨c,rest⟩⟩⟩
  · exact ⟨_,rfl⟩
  · exact ⟨_,rfl⟩
  · exact ⟨_,rfl⟩
  · simp only [List.length_cons] at h
    omega

theorem fromBytes_hardwareId {rest : Bytes} (h : 3 ≤ rest.length) :
    ∃ r, fromBytes (0x31 :: rest) = .ok r := by
  rcases rest with _ | ⟨a,_ | ⟨b,_ | ⟨c,rest⟩⟩⟩
  · simp at h
  · simp at h
  · simp at h
  · exact ⟨_,rfl⟩

theorem fromBytes_other {id : UInt8} {rest : Bytes} (hid : ¬Addressed id) (h31 : id ≠ 0x31) :
    ∃ r, fromBytes (id :: rest) = .ok r := by
  simp only [Addressed,not_or] at hid
  by_cases hab : id = 0xab
  · subst hab
    exact ⟨_,rfl⟩
  · refine ⟨.unknown id (id :: rest),?_⟩
    simp only [fromBytes,hid,h31,hab,if_false]
    rfl

/-- The parser fails on the truncated packets, with a decode error. -/
theorem fromBytes_truncated {packet : Bytes} (h : Truncated packet) :
    ∃ e, fromBytes packet = .error (.error (.decodeError e)) := by
  cases packet with
  | nil => exact absurd h id
  | cons id rest =>
    by_cases hid : Addressed id
    · have hlen : rest.length+1 < 3 := by simpa [Truncated,minLength,hid] using h
      exact fromBytes_addressed_short hid (by omega)
    by_cases h31 : id = 0x31
    · subst h31
      have hlen : rest.length+1 < 4 := h
      exact fromBytes_hardwareId_short (by omega)
    · simp [Truncated,minLength,hid,h31] at h

theorem fromBytes_whole {packet : Bytes} (h : ¬Truncated packet) :
    ∃ r, fromBytes packet = .ok r := by
  cases packet with
  | nil => exact ⟨.ack,rfl⟩
  | cons id rest =>
    by_cases hid : Addressed id
    · have hlen : ¬rest.length+1 < 3 := by simpa [Truncated,minLength,hid] using h
      exact fromBytes_addressed hid (by omega)
    by_cases h31 : id = 0x31
    · subst h31
      have hlen : ¬rest.length+1 < 4 := h
      exact fromBytes_hardwareId (by omega)
    · exact fromBytes_other hid h31

end Responses
end Minidsp
