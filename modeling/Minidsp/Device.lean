import Minidsp.DeviceInfo

/-! Static definitions of the devices: the dialect they speak and the addresses of their
channels. -/
namespace Minidsp

open Buffer

inductive AddrEncoding
  | addrLen2 | addrLen3
  deriving DecidableEq, Repr

def AddrEncoding.toU8 : AddrEncoding → UInt8
  | .addrLen2 => 2
  | .addrLen3 => 3

inductive FloatEncoding
  | float32LE | fixedPoint
  deriving DecidableEq, Repr

structure Dialect where
  addrEncoding : AddrEncoding
  floatEncoding : FloatEncoding
  deriving DecidableEq, Repr

def Addr.new (val : UInt16) (len : UInt8) : Addr := ⟨val.toUInt32,len,true⟩

namespace Dialect

def constDefault : Dialect := ⟨.addrLen3,.float32LE⟩

def addr (d : Dialect) (value : UInt16) : Addr := .new value d.addrEncoding.toU8

def int (_ : Dialect) (value : UInt16) : Value := .int value

end Dialect

namespace Device

structure Gate where
  enable : UInt16
  gain : Option UInt16
  deriving DecidableEq, Repr

structure Compressor where
  bypass : UInt16
  threshold : UInt16
  ratio : UInt16
  attack : UInt16
  release : UInt16
  meter : Option UInt16
  deriving DecidableEq, Repr

structure Crossover where
  peqs : List UInt16
  deriving DecidableEq, Repr

structure Fir where
  index : UInt8
  numCoefficients : UInt16
  bypass : UInt16
  maxCoefficients : UInt16
  deriving DecidableEq, Repr

structure Input where
  gate : Option Gate
  meter : Option UInt16
  peq : List UInt16
  routing : List Gate
  deriving DecidableEq, Repr

structure Output where
  gate : Gate
  meter : Option UInt16
  delayAddr : Option UInt16
  invertAddr : UInt16
  peq : List UInt16
  xover : Option Crossover
  compressor : Option Compressor
  fir : Option Fir
  deriving DecidableEq, Repr

end Device

structure Device where
  productName : String
  sources : List Source
  inputs : List Device.Input
  outputs : List Device.Output
  firMaxTaps : UInt16
  internalSamplingRate : UInt32
  dialect : Dialect
  deriving DecidableEq, Repr

/-- The definition of a device nothing else matches. -/
def Device.generic : Device := ⟨"Generic",[],[],[],0,0,.constDefault⟩

end Minidsp
