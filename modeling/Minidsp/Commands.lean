import Mathlib.Data.Rat.Floor
import Minidsp.Responses

/-! Commands to a device, their wire form and the responses each of them accepts. -/
namespace Minidsp

open Buffer

/-- A gain in dB; the `f32` is taken as an exact rational. -/
structure Gain where
  val : ℚ
  deriving DecidableEq, Repr

namespace Gain

/-- `(val.abs() * 2.) as u8`: the cast truncates and saturates. -/
def toU8 (g : Gain) : UInt8 := UInt8.ofNat (min 255 (⌊|g.val| * 2⌋.toNat))

def ofU8 (val : UInt8) : Gain := ⟨-(1/2) * (val.toNat : ℚ)⟩

end Gain

inductive Commands
  | readHardwareId
  | readFloats (addr : UInt16) (len : UInt8)
  | writeMemory (addr : UInt16) (data : Bytes)
  | readMemory (addr : UInt16) (size : UInt8)
  | setConfig (config : UInt8) (reset : Bool)
  | setSource (source : UInt8)
  | setMute (value : Bool)
  | setVolume (value : Gain)
  | writeBiquad (addr : Addr) (data : Vector Value 5)
  | writeBiquadBypass (addr : Addr) (value : Bool)
  | read (addr : Addr) (len : UInt8)
  | write (addr : Addr) (value : Value)
  | firLoadStart (index : UInt8)
  | firLoadData (index : UInt8) (data : List F32Bits)
  | firLoadEnd
  | diracBypass (value : UInt8)
  | bulkLoad (payload : Bytes)
  | bulkLoadFilterData (payload : Bytes)
  | unk07 (payload : UInt8)
  | switchMux (addr : Addr) (max : UInt8) (arg : Bool) (slot : UInt8)
  | unknown (cmdId : UInt8) (payload : Bytes)
  deriving DecidableEq, Repr

namespace Commands

/-- The loop over the coefficients of a biquad: each one copies `frame[0..4]` unchecked. -/
def readCoeffs : (n : ℕ) → Bytes → Exec ProtocolError (Vector Value n × Bytes)
  | 0, frame => .ok (#v[],frame)
  | n+1, frame => do
    let (data,frame) ← readCoeffs n frame
    let (coeff,frame) ← splitTo 4 frame
    return (data.push (.unknown coeff),frame)

/-- `while frame.len() > 4`: a float is read only while a fifth byte follows it. -/
def readFir : Bytes → List F32Bits
  | a :: b :: c :: d :: (rest@(_ :: _)) => u32OfLe a b c d :: readFir rest
  | _ => []

def boolByte (b : Bool) : UInt8 := if b then 1 else 0

def fromBytes (frame : Bytes) : Exec ProtocolError Commands := do
  let (id,frame) ← tryGetU8 frame
  match id with
  | 0x02 => do
    -- the width of the address is not on the wire: it is guessed from what is left
    let len := if 3 ≤ frame.length then 3 else 2
    let (addr,frame) ← Addr.read frame len
    let (len,_) ← tryGetU8 frame
    return .read addr len
  | 0x04 => do
    let (addr,frame) ← tryGetU16 frame
    return .writeMemory addr frame
  | 0x05 => do
    let (addr,frame) ← tryGetU16 frame
    let (size,_) ← tryGetU8 frame
    return .readMemory addr size
  | 0x06 => return .bulkLoadFilterData frame
  | 0x07 => do
    let (payload,_) ← tryGetU8 frame
    return .unk07 payload
  | 0x12 => return .bulkLoad frame
  | 0x13 => do
    let len := if 7 ≤ frame.length then 3 else 2
    let (addr,frame) ← Addr.read frame len
    let value ← Value.fromBytes frame
    return .write addr value
  | 0x14 => do
    let (addr,frame) ← tryGetU16 frame
    let (len,_) ← tryGetU8 frame
    return .readFloats addr len
  | 0x17 => do
    let (value,_) ← tryGetU8 frame
    return .setMute (value != 0)
  | 0x19 => do
    let len := if 2 < frame.length then 3 else 2
    let (addr,_) ← Addr.read frame len
    return .writeBiquadBypass addr addr.extraBit
  | 0x25 => do
    let (config,frame) ← tryGetU8 frame
    let (reset,_) ← tryGetU8 frame
    return .setConfig config (reset != 0)
  | 0x31 => return .readHardwareId
  | 0x29 => do
    let (addr,frame) ← Addr.read frame 2
    let (max,frame) ← tryGetU8 frame
    let arg := (max &&& 0x80) != 0
    let max := if arg then max ^^^ 0x80 else max
    let (slot,_) ← tryGetU8 frame
    return .switchMux addr max arg slot
  | 0x30 => do
    let len := if 24 < frame.length then 3 else 2
    let (addr,frame) ← Addr.read frame len
    let (_,frame) ← tryGetU16 frame
    let (data,_) ← readCoeffs 5 frame
    return .writeBiquad addr data
  | 0x34 => do
    let (source,_) ← tryGetU8 frame
    return .setSource source
  | 0x39 => do
    let (index,_) ← tryGetU8 frame
    return .firLoadStart index
  | 0x3a => do
    let (index,frame) ← tryGetU8 frame
    return .firLoadData index (readFir frame)
  | 0x3b => return .firLoadEnd
  | 0x42 => do
    let (value,_) ← tryGetU8 frame
    return .setVolume (Gain.ofU8 value)
  | cmdId => return .unknown cmdId frame

/-- The payload of a command; writing an address of another width than two or three panics. -/
def toBytes : Commands → Except Panic Bytes
  | .readHardwareId => .ok [0x31]
  | .readFloats addr len => .ok (0x14 :: (putU16 addr ++ [len]))
  | .readMemory addr size => .ok (0x05 :: (putU16 addr ++ [size]))
  | .writeMemory addr data => .ok (0x04 :: (putU16 addr ++ data))
  | .setConfig config reset => .ok [0x25,config,boolByte reset]
  | .setSource source => .ok [0x34,source]
  | .setMute value => .ok [0x17,boolByte value]
  | .setVolume value => .ok [0x42,value.toU8]
  | .writeBiquad addr data => do
    return 0x30 :: ((← addr.write) ++ (putU16 0x0000 ++ data.toList.flatMap Value.intoBytes))
  | .writeBiquadBypass addr value => do
    return 0x19 :: (← { addr with extraBit := value }.write)
  | .read addr len => do return 0x02 :: ((← addr.write) ++ [len])
  | .write addr value => do return 0x13 :: ((← addr.write) ++ value.intoBytes)
  | .firLoadStart index => .ok [0x39,index]
  | .firLoadData index data => .ok (0x3a :: index :: data.flatMap putU32Le)
  | .firLoadEnd => .ok [0x3b]
  | .bulkLoad payload => .ok (0x12 :: payload)
  | .bulkLoadFilterData payload => .ok (0x06 :: payload)
  | .diracBypass value => .ok [0x3f,value]
  | .switchMux addr max arg slot => do
    let max := if arg then max ||| 0x80 else max
    return 0x29 :: ((← addr.write) ++ [max,slot])
  | .unk07 payload => .ok [0x07,payload]
  | .unknown cmdId payload => .ok (cmdId :: payload)

def matchesResponse : Commands → Responses → Bool
  | .readMemory addr size, .memoryData data => data.base == addr && data.data.length == size.toNat
  | .readMemory .., _ => false
  | .readFloats addr len, .floatData data => data.base == addr && data.data.length == len.toNat
  | .readFloats .., _ => false
  | .readHardwareId, .hardwareId _ => true
  | .readHardwareId, _ => false
  | .setConfig .., .configChanged => true
  | .setConfig .., _ => false
  | .firLoadStart _, .firLoadSize _ => true
  | .firLoadStart _, _ => false
  | .unk07 _, .unk02 => true
  | .unk07 _, _ => false
  | .read .., .read .. => true
  | .read .., _ => false
  | .writeMemory .., r | .setSource _, r | .setMute _, r | .setVolume _, r | .writeBiquad .., r
  | .writeBiquadBypass .., r | .write .., r | .firLoadData .., r | .firLoadEnd, r | .bulkLoad _, r
  | .bulkLoadFilterData _, r | .diracBypass _, r | .switchMux .., r => r == .ack
  | .unknown .., _ => true

end Commands
end Minidsp
