import Minidsp.Responses

/-! What a device says about itself, its input sources, and where its settings lie in the
EEPROM. -/
namespace Minidsp

open Buffer

structure DeviceInfo where
  hwId : UInt8
  fwMajor : UInt8
  fwMinor : UInt8
  dspVersion : UInt8
  serial : UInt32
  deriving DecidableEq, Repr

def DeviceInfo.supportsDirac (info : DeviceInfo) : Bool :=
  info.dspVersion ∈ [61,94,95,101,105]

inductive Source
  | notInstalled | analog | toslink | spdif | usb | aesebu | rca | xlr | lan | i2s | bluetooth
  | hdmi
  deriving DecidableEq, Repr

namespace Source

def mapping (info : DeviceInfo) : List (Source × UInt8) :=
  if info.hwId = 2 ∨ info.hwId = 11 then [(toslink,0),(spdif,1)]
  else if info.hwId = 1 ∨ info.hwId = 4 ∨ info.hwId = 5 then [(spdif,0),(toslink,1),(aesebu,2)]
  else if info.hwId = 10 ∧ (info.dspVersion = 100 ∨ info.dspVersion = 101) then
    [(analog,0),(toslink,1),(usb,2)]
  else if info.hwId = 10 then [(i2s,0),(toslink,1),(usb,2)]
  else if info.hwId = 14 then
    [(toslink,0),(spdif,1),(aesebu,2),(rca,3),(xlr,4),(usb,5),(lan,6)]
  else if info.hwId = 17 ∨ info.hwId = 18 then
    [(toslink,0),(spdif,1),(aesebu,2),(usb,3),(lan,4)]
  else if info.hwId = 27 then [(analog,0),(toslink,1),(spdif,2),(usb,3),(bluetooth,4)]
  else if info.hwId = 32 then [(analog,0),(toslink,1),(spdif,2),(usb,3),(hdmi,4)]
  else [(notInstalled,0)]

def fromId (id : UInt8) (info : DeviceInfo) : Source :=
  match (mapping info).find? fun m => m.2 == id with
  | some m => m.1
  | none => notInstalled

def toId (src : Source) (info : DeviceInfo) : UInt8 :=
  match (mapping info).find? fun m => m.1 == src with
  | some m => m.2
  | none => 0

end Source

/-! EEPROM addresses. -/
namespace Eeprom

def firmwareVersion : UInt16 := 0xFFA1
def preset : UInt16 := 0xFFD8
def source : UInt16 := 0xFFD9
/-- Only in unsolicited updates. -/
def sourceAsync : UInt16 := 0xFFA9
def masterVolume : UInt16 := 0xFFDA
def mute : UInt16 := 0xFFDB
def diracBypass : UInt16 := 0xFFE0
/-- Serial (+900000) -/
def serialShort : UInt16 := 0xFFFE

end Eeprom
end Minidsp
