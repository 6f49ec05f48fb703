import Minidsp.Commands
import Minidsp.DeviceInfo
import Minidsp.Dialogue
import Minidsp.Transport

/-! The client over the transport: one command, its response, and the reads and writes made
of them. -/
namespace Minidsp

open Buffer

abbrev Call := Dialogue Commands Responses MiniDSPError

/-- The maximum number of floats that can be read in a single command. -/
def readFloatsMax : UInt16 := 14

namespace Client

def expect {α : Type} (x : Except ProtocolError α) : Call α :=
  .lift (Exec.errInto (Exec.ofExcept x))

def unwrap {α : Type} : Option α → Call α
  | some a => pure a
  | none => .lift (.error (.panic (.explicit "called unwrap on a None value")))

def readMemory (addr : UInt16) (size : UInt8) : Call MemoryView := do
  expect (← .roundtrip (.readMemory addr size)).intoMemoryView

def getDeviceInfo : Call DeviceInfo := do
  let hwId ← expect (← .roundtrip .readHardwareId).intoHardwareId
  let dspVersionView ← readMemory Eeprom.firmwareVersion 1
  let serialView ← readMemory Eeprom.serialShort 2
  let dspVersion ← unwrap (← .lift (dspVersionView.tryReadU8 Eeprom.firmwareVersion))
  let serialShort ← unwrap (← .lift (serialView.readU16 Eeprom.serialShort))
  let serial ← .lift (addU32 900000 serialShort.toUInt32)
  return ⟨hwId.hwId,hwId.fwMajor,hwId.fwMinor,dspVersion,serial⟩

/-- The serial number of 16 bits does not reach the end of the 32 bits it is added up in. -/
theorem addU32_serial {ε : Type} (x : UInt16) :
    (addU32 900000 x.toUInt32 : Exec ε _) = .ok (900000 + x.toUInt32) := by
  have hx := x.toNat_lt
  have h : (900000 : UInt32).toNat + x.toUInt32.toNat < 2^32 := by
    rw [UInt16.toNat_toUInt32]
    change 900000 + _ < _
    omega
  rw [addU32,if_pos h]

def readFloats (addr : UInt16) (len : UInt8) : Call FloatView := do
  expect (← .roundtrip (.readFloats addr len)).intoFloatView

def writeDsp (addr : Addr) (value : Value) : Call Unit := do
  expect (← .roundtrip (.write addr value)).intoAck

section
variable {σ α : Type} {dev : Dialogue.Device σ Commands Responses MiniDSPError} {q : Commands}
variable {s t : σ}

theorem expected {f : Responses → Except ProtocolError α} {r : Responses} {a : α}
    (h : dev s q = (.ok r,t)) (hf : f r = .ok a) : Dialogue.Gives dev
      (Dialogue.roundtrip q >>= fun r => expect (f r)) s a t [q] :=
  (Dialogue.Gives.roundtrip h).bind (Dialogue.Gives.lift (by rw [hf]; rfl))

theorem acked (h : dev s q = (.ok .ack,t)) : Dialogue.Gives dev
    (Dialogue.roundtrip q >>= fun r => expect r.intoAck) s () t [q] := expected h rfl

end

section
variable {ε : Type}

/-- The condition of the inner loop: the chunk is empty, or spans less than a read. -/
def chunkOpen : List UInt16 → Exec ε Bool
  | [] => .ok true
  | first :: rest => do return (← subU16 ((first :: rest).getLast (by simp)) first) < readFloatsMax

/-- The address is the first of the chunk, or can be read together with it. -/
def inReach (start : Option UInt16) (i : UInt16) : Exec ε Bool :=
  match start with
  | none => .ok true
  | some val => do return (← subU16 i val) < readFloatsMax

/-- The inner loop: take addresses off the front while they fit into the chunk. -/
def fillChunk (start : Option UInt16) (chunk : List UInt16) :
    List UInt16 → Exec ε (List UInt16 × List UInt16)
  | [] => do
    let _ ← chunkOpen chunk
    return (chunk,[])
  | i :: addrs => do
    if !(← chunkOpen chunk) then return (chunk,i :: addrs)
    if !(← inReach start i) then return (chunk,i :: addrs)
    fillChunk (some (start.getD i)) (chunk ++ [i]) addrs

end

/-- The outer loop: one read for each chunk. A chunk takes an address at least, so that as
many rounds are enough as there are addresses, and one to find that none is left. -/
def readChunks : ℕ → List UInt16 → Call (List F32Bits)
  | 0, _ => .done .unfinished
  | fuel+1, addrs => do
    let (chunk,addrs) ← .lift (fillChunk none [] addrs)
    match chunk with
    | [] => return []
    | minAddr :: rest => do
      let maxAddr := (minAddr :: rest).getLast (by simp)
      let span ← .lift (subU16 maxAddr minAddr)
      let range ← .lift (addU16 span 1)
      let data ← readFloats minAddr range.toUInt8
      let values ← .lift ((minAddr :: rest).mapM data.get)
      return values ++ (← readChunks fuel addrs)

def readFloatsMulti (addrs : List UInt16) : Call (List F32Bits) :=
  let addrs := addrs.mergeSort (fun a b => a ≤ b)
  readChunks (addrs.length+1) addrs

end Client
end Minidsp
