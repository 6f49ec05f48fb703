import Minidsp.Device

/-! The products and the addresses of their channels, and which of them a device is. -/
namespace Minidsp

namespace Device

def each {α : Type} (n : ℕ) (f : UInt16 → α) : List α := (List.range n).map fun i => f (.ofNat i)

/-- So many biquads, each five words below the one before. -/
def biquads (first : UInt16) (n : ℕ) : List UInt16 := each n fun j => first - 5*j

def switches (addrs : List UInt16) : List Gate := addrs.map fun addr => ⟨addr,none⟩

/-! The 2x4HD; the Flex has its channels. -/

def m2x4hdInput (i : UInt16) : Input where
  gate := some ⟨i,some (26+i)⟩
  meter := some (68+i)
  peq := biquads (8325+50*i) 10
  routing := each 4 fun j => ⟨6+4*i+j,some (32+4*i+j)⟩

def m2x4hdOutput (i : UInt16) : Output where
  gate := ⟨2+i,some (28+i)⟩
  meter := some (74+i)
  delayAddr := some (64+i)
  invertAddr := 80+i
  peq := biquads (8425+50*i) 10
  xover := some ⟨[8580+40*i,8600+40*i]⟩
  compressor := some ⟨22+i,40+6*i,42+6*i,44+6*i,45+6*i,some (70+i)⟩
  fir := some ⟨i.toUInt8,84+2049*i,14+i,4096⟩

def m2x4hd : Device where
  productName := "2x4HD"
  sources := [.analog,.toslink,.usb]
  inputs := each 2 m2x4hdInput
  outputs := each 4 m2x4hdOutput
  firMaxTaps := 4096
  internalSamplingRate := 96000
  dialect := ⟨.addrLen3,.float32LE⟩

def flex : Device where
  productName := "Flex"
  sources := [.analog,.toslink,.spdif,.usb,.bluetooth]
  inputs := each 2 m2x4hdInput
  outputs := each 4 m2x4hdOutput
  firMaxTaps := 4096
  internalSamplingRate := 96000
  dialect := ⟨.addrLen3,.float32LE⟩

def msharc4x8 : Device where
  productName := "MiniSHARC 4x8"
  sources := []
  inputs := each 4 fun i => {
    gate := some ⟨i,some (68+i)⟩
    meter := some (184+i)
    peq := biquads (16637+50*i) 10
    routing := each 4 fun j => ⟨12+8*i+j,some (80+8*i+j)⟩ }
  outputs := each 8 fun i => {
    gate := ⟨4+i,some (72+i)⟩
    meter := some (176+i)
    delayAddr := some (160+i)
    invertAddr := 192+i
    peq := biquads (16837+50*i) 10
    xover := some ⟨[17192+40*i,17212+40*i]⟩
    compressor := some ⟨60+i,112+6*i,114+6*i,116+6*i,117+6*i,some (168+i)⟩
    fir := some ⟨i.toUInt8,200+2049*i,44+i,2048⟩ }
  firMaxTaps := 9600
  internalSamplingRate := 96000
  dialect := ⟨.addrLen3,.float32LE⟩

/-! The products of which an output is a block of the memory. -/

/-- The output with the block from an address on, and the meters of its level and its
compressor. -/
def blockOutput (block meter compMeter : UInt16) : Output where
  gate := ⟨block,some (block+2)⟩
  meter := some meter
  delayAddr := some (block+9)
  invertAddr := block+13
  peq := biquads (block+59) 10
  xover := some ⟨[block+64,block+84]⟩
  compressor := some ⟨block+1,block+3,block+5,block+7,block+8,some compMeter⟩
  fir := none

def ddrcInput (i : UInt16) : Input where
  gate := none
  meter := some (16+i)
  peq := []
  routing := each 4 fun j => ⟨4*i+j,some (8+4*i+j)⟩

def shd : Device where
  productName := "MiniDSP SHD"
  sources := [.analog,.toslink,.usb]
  inputs := each 2 ddrcInput
  outputs := each 4 fun i => blockOutput (32+104*i) (28+i) (24+i)
  firMaxTaps := 0
  internalSamplingRate := 96000
  dialect := ⟨.addrLen3,.float32LE⟩

def ddrc24 : Device where
  productName := "DDRC-24"
  sources := [.analog,.toslink,.usb]
  inputs := each 2 ddrcInput
  outputs := each 4 fun i => blockOutput (32+104*i) (28+i) (24+i)
  firMaxTaps := 0
  internalSamplingRate := 96000
  dialect := ⟨.addrLen3,.float32LE⟩

def ddrc88bm : Device where
  productName := "DDRC-88BM"
  sources := [.analog,.toslink,.usb]
  inputs := each 8 fun i => {
    gate := none
    meter := some (448+i)
    peq := []
    routing := each 8 fun j => ⟨16+8*i+j,some (88+8*i+j)⟩ }
  outputs := each 8 fun i => blockOutput (472+104*i) (464+i) (456+i)
  firMaxTaps := 0
  internalSamplingRate := 48000
  dialect := ⟨.addrLen3,.float32LE⟩

/-- Two of the groups of a crossover are in the block, the others are not. -/
def flexhtx : Device where
  productName := "FlexHtx"
  sources := [.analog,.toslink,.spdif,.usb,.hdmi]
  inputs := each 8 fun i => {
    gate := some ⟨40+i,some (48+i)⟩
    meter := some (784+i)
    peq := biquads (1701+50*i) 10
    routing := each 8 fun j => ⟨56+8*i+j,some (128+8*i+j)⟩ }
  outputs := each 8 fun i => { blockOutput (824+104*i) (816+i) (808+i) with
    peq := []
    xover := some ⟨[888+104*i,908+104*i,272+40*i,292+40*i]⟩ }
  firMaxTaps := 0
  internalSamplingRate := 48000
  dialect := ⟨.addrLen3,.float32LE⟩

/-- A block is shorter by one word before the inversion. -/
def c8x12v2 : Device where
  productName := "MiniDSP C-DSP 8x12 v2"
  sources := [.analog,.toslink,.spdif]
  inputs := each 8 fun i => {
    gate := some ⟨320+54*i,some (321+54*i)⟩
    meter := some (288+i)
    peq := biquads (369+54*i) 10
    routing := each 8 fun j => ⟨12*i+j,some (96+12*i+j)⟩ }
  outputs := each 12 fun i => { blockOutput (752+103*i) (308+i) (296+i) with
    invertAddr := 764+103*i
    peq := biquads (810+103*i) 10
    xover := some ⟨[815+103*i,835+103*i]⟩ }
  firMaxTaps := 0
  internalSamplingRate := 0
  dialect := ⟨.addrLen3,.float32LE⟩

/-! The products with addresses of two bytes. -/

def plainInput (enable gain peq : UInt16) (filters : ℕ) (routing : List UInt16) : Input where
  gate := some ⟨enable,some gain⟩
  meter := none
  peq := biquads peq filters
  routing := switches routing

def plainOutput (enable gain : UInt16) (delay : Option UInt16) (invert peq xover : UInt16) :
    Output where
  gate := ⟨enable,some gain⟩
  meter := none
  delayAddr := delay
  invertAddr := invert
  peq := biquads peq 5
  xover := some ⟨[xover,xover+20]⟩
  compressor := none
  fir := none

/-- The outputs of the NanoDigi 2x8 are also the first ones of the 4x10HD. -/
def nanodigi2x8Outputs : List Output :=
  [plainOutput 879 896 (some 859) 869 829 569,plainOutput 880 895 (some 866) 877 629 529,
   plainOutput 881 894 (some 860) 878 654 209,plainOutput 888 889 (some 861) 876 854 489,
   plainOutput 882 890 (some 862) 875 679 249,plainOutput 883 891 (some 863) 874 704 289,
   plainOutput 884 892 (some 864) 873 729 329,plainOutput 885 893 (some 865) 872 754 369]

def nanodigi2x8 : Device where
  productName := "NanoDigi 2x8"
  sources := [.toslink,.spdif]
  inputs := [plainInput 53 46 154 5 (each 8 fun j => 159+4*j),
             plainInput 54 47 129 5 (each 8 fun j => 160+4*j)]
  outputs := nanodigi2x8Outputs
  firMaxTaps := 0
  internalSamplingRate := 96000
  dialect := ⟨.addrLen2,.fixedPoint⟩

def m4x10hd : Device where
  productName := "MiniDSP 4x10HD"
  sources := [.spdif,.toslink,.aesebu]
  inputs := [plainInput 53 11 154 5 (each 10 fun j => 159+4*j),
             plainInput 54 12 129 5 (each 10 fun j => 160+4*j),
             plainInput 55 13 79 5 (each 10 fun j => 161+4*j),
             plainInput 56 14 104 5 (each 10 fun j => 162+4*j)]
  outputs := nanodigi2x8Outputs ++
    [plainOutput 870 886 none 867 779 409,plainOutput 871 887 none 868 804 449]
  firMaxTaps := 0
  internalSamplingRate := 96000
  dialect := ⟨.addrLen2,.fixedPoint⟩

def m10x10hd : Device where
  productName := "MiniDSP 10x10HD"
  sources := [.toslink,.spdif]
  inputs :=
    [plainInput 59 11 106 6 [465,412,467,477,429,448,482,470,406,438],
     plainInput 60 12 136 6 [399,419,394,391,455,401,459,454,417,464],
     plainInput 61 13 166 6 [422,426,436,483,395,432,416,414,446,449],
     plainInput 62 14 196 6 [439,392,456,468,474,423,408,452,461,453],
     plainInput 63 15 226 6 [444,404,440,424,437,415,413,403,460,480],
     plainInput 64 16 256 6 [434,471,393,445,397,400,462,472,458,466],
     plainInput 65 17 286 6 [433,388,390,402,430,431,442,475,441,476],
     plainInput 66 18 316 6 [421,420,435,411,389,384,457,386,418,447],
     plainInput 67 54 346 6 [387,443,405,407,428,427,473,398,409,478],
     plainInput 68 55 376 6 [410,451,450,425,469,396,463,481,385,479]]
  outputs :=
    [plainOutput 1214 1224 (some 1194) 1204 1154 494,plainOutput 1215 1225 (some 1203) 1212 914 534,
     plainOutput 1216 1233 (some 1195) 1213 944 574,plainOutput 1223 1226 (some 1196) 1211 1184 614,
     plainOutput 1217 1227 (some 1197) 1210 974 654,plainOutput 1218 1228 (some 1198) 1209 1004 694,
     plainOutput 1219 1229 (some 1199) 1208 1034 734,
     plainOutput 1220 1230 (some 1200) 1207 1064 774,
     plainOutput 1221 1231 (some 1201) 1206 1094 814,
     plainOutput 1222 1232 (some 1202) 1205 1124 854]
  firMaxTaps := 0
  internalSamplingRate := 96000
  dialect := ⟨.addrLen2,.fixedPoint⟩

/-- Only the source can be set. -/
def m2x4 : Device where
  productName := "MiniDSP 2x4"
  sources := [.toslink,.spdif]
  inputs := []
  outputs := []
  firMaxTaps := 0
  internalSamplingRate := 48000
  dialect := ⟨.addrLen2,.fixedPoint⟩

end Device

inductive DeviceKind
  | generic | m4x10Hd | m10x10Hd | mSharc4x8 | m2x4Hd | shd | ddrc24 | ddrc88bm | nanodigi2x8
  | c8x12v2 | m2x4 | flex | flexHtx
  deriving DecidableEq, Repr

namespace Device

def probeKind (info : DeviceInfo) : DeviceKind :=
  match info.hwId,info.dspVersion with
  | 1,51 => .m10x10Hd
  | 1,_ => .m4x10Hd
  | 4,_ => .mSharc4x8
  | 10,100 => .m2x4Hd
  | 10,101 => .ddrc24
  | 6,95 => .ddrc88bm
  | 14,_ => .shd
  | 2,54 => .nanodigi2x8
  | 11,97 => .c8x12v2
  | 2,22 => .m2x4
  | 27,100 => .flex
  | 32,115 => .flexHtx
  | _,_ => .generic

def byKind : DeviceKind → Device
  | .generic => generic
  | .m4x10Hd => m4x10hd
  | .mSharc4x8 => msharc4x8
  | .m2x4Hd => m2x4hd
  | .ddrc24 => ddrc24
  | .ddrc88bm => ddrc88bm
  | .shd => shd
  | .nanodigi2x8 => nanodigi2x8
  | .c8x12v2 => c8x12v2
  | .m2x4 => m2x4
  | .m10x10Hd => m10x10hd
  | .flex => flex
  | .flexHtx => flexhtx

def probe (info : DeviceInfo) : Device := byKind (probeKind info)

/-- The definition a device is opened with: that of a kind that is asked for, or else the one it
is probed to have. -/
def spec (kind : Option DeviceKind) (info : DeviceInfo) : Device :=
  match kind with
  | none => probe info
  | some k => byKind k

end Device
end Minidsp
