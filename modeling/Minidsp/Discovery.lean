import Mathlib.Data.List.GetD
import Minidsp.Overlay
import Minidsp.Utf8

/-! The packets in which devices advertise themselves: fields at fixed places, and a name behind
its length. -/
namespace Minidsp

open Buffer

structure DiscoveryPacket where
  macAddress : Vector UInt8 6
  ipAddress : Vector UInt8 4
  hwid : UInt8
  dspId : UInt8
  sn : UInt16
  fwMajor : UInt8
  fwMinor : UInt8
  hostname : List Char
  deriving DecidableEq, Repr

namespace DiscoveryPacket

def tryInto {ε : Type} (n : ℕ) (bytes : Bytes) : Exec ε (Vector UInt8 n) :=
  if h : bytes.length = n then .ok ⟨bytes.toArray,h⟩
  else .error (.panic (.explicit "called unwrap on an Err value"))

def parse (packet : Bytes) : Exec String DiscoveryPacket :=
  if packet.length < 36 then .error (.error "packet too short")
  else do
    let hostnameLen ← index packet 35
    if packet.length < 36 + hostnameLen.toNat then
      .error (.error "name doesn't fit inside packet")
    else
      let ipArray ← tryInto 4 (← slice packet 14 18)
      let hwid ← index packet 18
      let dspId ← index packet 21
      let sn := ((← index packet 22).toUInt16 <<< 8) ||| (← index packet 23).toUInt16
      let fwMajor ← index packet 19
      let fwMinor ← index packet 20
      let macAddress ← tryInto 6 (← slice packet 6 12)
      let hostname ← slice packet 36 (36 + (← index packet 35).toNat)
      return { hwid,dspId,sn,fwMajor,fwMinor,ipAddress := ipArray,macAddress,
               hostname := Utf8.fromLossy hostname }

/-- The place that is copied to is as long as what is copied, or shorter. -/
def copyToSlice (src p : Bytes) (start stop : ℕ) : Exec Empty Bytes := do
  let dst ← slice p start stop
  if dst.length ≤ src.length then return Overlay.splice p start stop (src.take dst.length)
  else .error (.panic (.slice dst.length src.length))

def setIndex (p : Bytes) (i : ℕ) (x : UInt8) : Exec Empty Bytes :=
  if i < p.length then .ok (p.set i x) else .error (.panic (.index i p.length))

def toBytes (d : DiscoveryPacket) : Exec Empty Bytes := do
  let p := Overlay.grow 0 [0x80,0x0,0x05,0xA0] 35
  let p ← copyToSlice d.macAddress.toList p 6 12
  let p ← copyToSlice d.ipAddress.toList p 14 18
  let p ← setIndex p 18 d.hwid
  let p ← setIndex p 19 d.fwMajor
  let p ← setIndex p 20 d.fwMinor
  let p ← setIndex p 21 d.dspId
  let p ← setIndex p 22 (d.sn >>> 8).toUInt8
  let p ← setIndex p 23 (d.sn &&& 0xFF).toUInt8
  let hostname := Utf8.encode d.hostname
  if 255 < hostname.length then .error (.panic (.explicit "hostname was above max length"))
  else return p ++ [UInt8.ofNat hostname.length] ++ hostname

variable {ε : Type} {packet : Bytes} {d : DiscoveryPacket}

/-! A packet that is long enough is what stands at the places. -/

def arrayAt (packet : Bytes) (start n : ℕ) : Vector UInt8 n :=
  Vector.ofFn fun i => packet.getD (start + i) 0

def read (packet : Bytes) : DiscoveryPacket where
  macAddress := arrayAt packet 6 6
  ipAddress := arrayAt packet 14 4
  hwid := packet.getD 18 0
  dspId := packet.getD 21 0
  sn := ((packet.getD 22 0).toUInt16 <<< 8) ||| (packet.getD 23 0).toUInt16
  fwMajor := packet.getD 19 0
  fwMinor := packet.getD 20 0
  hostname := Utf8.fromLossy ((packet.take (36 + (packet.getD 35 0).toNat)).drop 36)

theorem index_getD {i : ℕ} (h : i < packet.length) :
    (index packet i : Exec ε UInt8) = .ok (packet.getD i 0) := by
  simp [index,h]

theorem tryInto_slice {start stop n : ℕ} (hn : start + n = stop) (h : stop ≤ packet.length) :
    (tryInto n ((packet.take stop).drop start) : Exec ε _) = .ok (arrayAt packet start n) := by
  have hlen : ((packet.take stop).drop start).length = n := by
    rw [List.length_drop,List.length_take]
    omega
  rw [tryInto,dif_pos hlen]
  congr 1
  ext i hi
  have hin : start + i < packet.length := by omega
  simp [arrayAt,hin]

/-- The length behind the fields bounds what is read of the name. -/
theorem parse_eq (packet : Bytes) : parse packet =
    if packet.length < 36 then .error (.error "packet too short")
    else if packet.length < 36 + (packet.getD 35 0).toNat then
      .error (.error "name doesn't fit inside packet")
    else .ok (read packet) := by
  unfold parse
  split_ifs with hshort hname
  · rfl
  · rw [index_getD (by omega)]
    exact if_pos hname
  · have hindex : ∀ i < packet.length, (index packet i : Exec String _) = .ok (packet.getD i 0) :=
      fun _ => index_getD
    have hslice : ∀ start stop, start ≤ stop → stop ≤ packet.length →
        (slice packet start stop : Exec String _) = .ok ((packet.take stop).drop start) :=
      fun _ _ => slice_ok
    have hip : (tryInto 4 ((packet.take 18).drop 14) : Exec String _) =
        .ok (arrayAt packet 14 4) := tryInto_slice rfl (by omega)
    have hmac : (tryInto 6 ((packet.take 12).drop 6) : Exec String _) =
        .ok (arrayAt packet 6 6) := tryInto_slice rfl (by omega)
    simp (disch := omega) only [bind,Except.bind,pure,Except.pure,hindex,if_neg hname,hslice,hip,
      hmac]
    rfl

/-! The writer puts every field where the reader looks for it. -/

section
variable {src pre dst post rest : Bytes}

theorem copyToSlice_append {start stop : ℕ} (hstart : pre.length = start)
    (hstop : start + dst.length = stop) (hsrc : src.length = dst.length) :
    copyToSlice src (pre ++ (dst ++ post)) start stop = .ok (pre ++ (src ++ post)) := by
  subst hstart hstop
  have hslice : (slice (pre ++ (dst ++ post)) pre.length (pre.length + dst.length) :
      Exec Empty _) = .ok dst := by
    rw [slice_ok (Nat.le_add_right _ _) (by simp)]
    simp [List.take_append]
  simp only [copyToSlice,hslice,bind,Except.bind,if_pos hsrc.ge]
  rw [← hsrc,List.take_length]
  simp [Overlay.splice,hsrc,pure,Except.pure]

theorem setIndex_append {i k : ℕ} (hi : pre.length + k = i) (hk : k < rest.length) (x : UInt8) :
    setIndex (pre ++ rest) i x = .ok (pre ++ rest.set k x) := by
  subst hi
  rw [setIndex,if_pos (by rw [List.length_append]; omega)]
  simp

end

/-- The fields in front of the single bytes. -/
def addresses (d : DiscoveryPacket) : Bytes :=
  [[0x80,0x0,0x05,0xA0,0,0],d.macAddress.toList,[0,0],d.ipAddress.toList].flatten

/-- The single bytes, and what is left open behind them. -/
def numbers (d : DiscoveryPacket) : Bytes :=
  d.hwid :: d.fwMajor :: d.fwMinor :: d.dspId :: (d.sn >>> 8).toUInt8 ::
    (d.sn &&& 0xFF).toUInt8 :: List.replicate 11 0

theorem length_addresses (d : DiscoveryPacket) : d.addresses.length = 18 := by
  simp [addresses]

/-- A packet: the fields, and a name behind its length. -/
def layout (d : DiscoveryPacket) (name : Bytes) : Bytes :=
  d.addresses ++ d.numbers ++ UInt8.ofNat name.length :: name

theorem toBytes_eq (d : DiscoveryPacket) : d.toBytes =
    if 255 < (Utf8.encode d.hostname).length then
      .error (.panic (.explicit "hostname was above max length"))
    else .ok (d.layout (Utf8.encode d.hostname)) := by
  have hgrow : Overlay.grow 0 [0x80,0x0,0x05,0xA0] 35 = ([0x80,0x0,0x05,0xA0,0,0] : Bytes) ++
      (List.replicate 6 0 ++ ([0,0] ++ (List.replicate 4 0 ++ List.replicate 17 0))) := rfl
  have hmac : copyToSlice d.macAddress.toList (([0x80,0x0,0x05,0xA0,0,0] : Bytes) ++
      (List.replicate 6 0 ++ ([0,0] ++ (List.replicate 4 0 ++ List.replicate 17 0)))) 6 12 = _ :=
    copyToSlice_append rfl rfl (by simp)
  have hip : copyToSlice d.ipAddress.toList (([0x80,0x0,0x05,0xA0,0,0] : Bytes) ++
      (d.macAddress.toList ++ ([0,0] ++ (List.replicate 4 0 ++ List.replicate 17 0)))) 14 18 =
        .ok (d.addresses ++ List.replicate 17 0) := by
    have h : copyToSlice d.ipAddress.toList
        (([0x80,0x0,0x05,0xA0,0,0] : Bytes) ++ d.macAddress.toList ++ [0,0] ++
          (List.replicate 4 0 ++ List.replicate 17 0)) 14 18 = _ :=
      copyToSlice_append (by simp) rfl (by simp)
    simpa [addresses] using h
  have hset : ∀ i k, 18 + k = i → ∀ rest : Bytes, k < rest.length → ∀ x,
      setIndex (d.addresses ++ rest) i x = .ok (d.addresses ++ rest.set k x) :=
    fun i k hi rest hk x => setIndex_append (d.length_addresses ▸ hi) hk x
  rw [toBytes,hgrow]
  simp only [bind,Except.bind,hmac,hip]
  simp (disch := simp) only [hset 18 0 rfl,hset 19 1 rfl,hset 20 2 rfl,hset 21 3 rfl,
    hset 22 4 rfl,hset 23 5 rfl]
  have hnumbers : ((((((List.replicate 17 0).set 0 d.hwid).set 1 d.fwMajor).set 2 d.fwMinor).set 3
      d.dspId).set 4 (d.sn >>> 8).toUInt8).set 5 (d.sn &&& 0xFF).toUInt8 = d.numbers := rfl
  rw [hnumbers,← List.append_cons]
  rfl

theorem shiftLeft_or_and (x : UInt16) :
    ((x >>> 8).toUInt8.toUInt16 <<< 8) ||| (x &&& 0xFF).toUInt8.toUInt16 = x := by
  have hx := x.toNat_lt
  have hor : (x.toNat/256) <<< 8 ||| x.toNat % 256 = x.toNat := by
    rw [← Nat.shiftLeft_add_eq_or_of_lt (Nat.mod_lt _ (by decide)),Nat.shiftLeft_eq]
    omega
  have hhi : (x.toNat >>> 8 % 256) <<< 8 % 65536 = (x.toNat/256) <<< 8 := by
    rw [Nat.shiftRight_eq_div_pow,Nat.shiftLeft_eq,Nat.shiftLeft_eq]
    omega
  have hlo : x.toNat % 256 &&& 255 = x.toNat % 256 := by
    rw [Nat.and_two_pow_sub_one_eq_mod _ 8,Nat.mod_mod]
  apply UInt16.toNat_inj.mp
  simpa [hhi,hlo] using hor

theorem arrayAt_append {n start : ℕ} {pre post : Bytes} (hpre : pre.length = start)
    (v : Vector UInt8 n) : arrayAt (pre ++ (v.toList ++ post)) start n = v := by
  subst hpre
  refine Vector.ext fun i hi => ?_
  have hleft : i < v.toList.length := by rw [v.length_toList]; exact hi
  rw [arrayAt,Vector.getElem_ofFn,List.getD_append_right _ _ _ _ (Nat.le_add_right _ _),
    Nat.add_sub_cancel_left,List.getD_append _ _ _ _ hleft,List.getD_eq_getElem _ _ hleft,
    Vector.getElem_toList]

section
variable (d) (name t : Bytes)

theorem length_fields : (d.addresses ++ d.numbers).length = 35 := by
  rw [List.length_append,d.length_addresses]
  rfl

theorem length_layout : (d.layout name).length = 36 + name.length := by
  rw [layout,List.length_append,d.length_fields,List.length_cons]
  omega

theorem getD_layout {i k : ℕ} (hi : 18 + k = i) (hk : k < 17) :
    (d.layout name ++ t).getD i 0 = d.numbers.getD k 0 := by
  subst hi
  rw [layout,List.append_assoc,List.append_assoc,
    List.getD_append_right _ _ _ _ (d.length_addresses ▸ Nat.le_add_right _ _),
    d.length_addresses,Nat.add_sub_cancel_left,List.getD_append _ _ _ _ hk]

theorem getD_layout_length : (d.layout name ++ t).getD 35 0 = UInt8.ofNat name.length := by
  rw [layout,List.append_assoc,List.getD_append_right _ _ _ _ d.length_fields.le,d.length_fields]
  rfl

theorem macAddress_layout : arrayAt (d.layout name ++ t) 6 6 = d.macAddress := by
  have hsplit : d.layout name ++ t = [0x80,0x0,0x05,0xA0,0,0] ++ (d.macAddress.toList ++
      ([0,0] ++ d.ipAddress.toList ++ d.numbers ++ UInt8.ofNat name.length :: name ++ t)) := by
    simp [layout,addresses]
  exact hsplit ▸ arrayAt_append rfl _

theorem ipAddress_layout : arrayAt (d.layout name ++ t) 14 4 = d.ipAddress := by
  have hsplit : d.layout name ++ t =
      ([0x80,0x0,0x05,0xA0,0,0] ++ d.macAddress.toList ++ [0,0]) ++
        (d.ipAddress.toList ++ (d.numbers ++ UInt8.ofNat name.length :: name ++ t)) := by
    simp [layout,addresses]
  exact hsplit ▸ arrayAt_append (by simp) _

theorem name_layout : ((d.layout name ++ t).take (36 + name.length)).drop 36 = name := by
  have hfront : (d.addresses ++ d.numbers ++ [UInt8.ofNat name.length]).length = 36 := by
    rw [List.length_append,d.length_fields]
    rfl
  rw [List.take_left' (d.length_layout name),layout,List.append_cons]
  exact List.drop_left' hfront

end

theorem read_layout {name : Bytes} (hname : name.length ≤ 255)
    (htext : Utf8.fromLossy name = d.hostname) (t : Bytes) : read (d.layout name ++ t) = d := by
  have hnumber : ∀ i k, 18 + k = i → k < 17 →
      (d.layout name ++ t).getD i 0 = d.numbers.getD k 0 := fun _ _ => d.getD_layout name t
  have hlen := UInt8.toNat_ofNat_of_lt' (Nat.lt_succ_of_le hname)
  rw [read,d.macAddress_layout,d.ipAddress_layout,hnumber 18 0 rfl (by decide),
    hnumber 19 1 rfl (by decide),hnumber 20 2 rfl (by decide),hnumber 21 3 rfl (by decide),
    hnumber 22 4 rfl (by decide),hnumber 23 5 rfl (by decide),d.getD_layout_length,hlen,
    d.name_layout,htext]
  have hsn := shiftLeft_or_and d.sn
  simp only [numbers,List.getD_cons_zero,List.getD_cons_succ,hsn]

theorem parse_toBytes (h : (Utf8.encode d.hostname).length ≤ 255) (t : Bytes) :
    ∃ bytes, d.toBytes = .ok bytes ∧ parse (bytes ++ t) = .ok d := by
  refine ⟨_,d.toBytes_eq.trans (if_neg (Nat.not_lt.mpr h)),?_⟩
  have hlength := d.length_layout (Utf8.encode d.hostname)
  rw [parse_eq,read_layout h (Utf8.fromLossy_encode d.hostname),getD_layout_length,
    UInt8.toNat_ofNat_of_lt' (Nat.lt_succ_of_le h),List.length_append,if_neg (by omega),
    if_neg (by omega)]

theorem parse_returns (packet : Bytes) : (parse packet).Returns := by
  rw [parse_eq]
  split_ifs <;> simp [Exec.Returns]

end DiscoveryPacket

namespace DiscoveryPacketCodec

def decode (src : Bytes) : Exec String (Option DiscoveryPacket × Bytes) :=
  match DiscoveryPacket.parse src with
  | .ok p => .ok (some p,[])
  | .error (.error _) => .ok (none,[])
  | .error (.panic p) => .error (.panic p)

def encode (item : DiscoveryPacket) (dst : Bytes) : Exec Empty Bytes := do
  let bytes ← item.toBytes
  return dst ++ bytes

/-- The buffer is emptied, and nothing is decoded only of what is refused. -/
theorem decode_spec (src : Bytes) : ∃ ret, decode src = .ok (ret,[]) ∧
    (ret = none ↔ ∃ e, DiscoveryPacket.parse src = .error (.error e)) := by
  have hreturns := DiscoveryPacket.parse_returns src
  unfold decode
  cases h : DiscoveryPacket.parse src with
  | ok p => exact ⟨some p,rfl,by simp⟩
  | error fault =>
    cases fault with
    | error e => exact ⟨none,rfl,by simp⟩
    | panic p => exact absurd h (hreturns p)

theorem decode_encode {d : DiscoveryPacket} (h : (Utf8.encode d.hostname).length ≤ 255) :
    ∃ bytes, encode d [] = .ok bytes ∧ decode bytes = .ok (some d,[]) := by
  obtain ⟨bytes,hbytes,hparse⟩ := DiscoveryPacket.parse_toBytes h []
  rw [List.append_nil] at hparse
  exact ⟨bytes,by rw [encode,hbytes]; rfl,by rw [decode,hparse]⟩

/-- Packets are read as they were written, and no bytes make the reader panic or stay in the
buffer. -/
theorem packets_round_trip :
    (∀ (d : DiscoveryPacket) (t : Bytes), (Utf8.encode d.hostname).length ≤ 255 →
      ∃ bytes, d.toBytes = .ok bytes ∧ DiscoveryPacket.parse (bytes ++ t) = .ok d) ∧
    (∀ packet, (DiscoveryPacket.parse packet).Returns) ∧
    ∀ src, ∃ ret, decode src = .ok (ret,[]) ∧
      (ret = none ↔ ∃ e, DiscoveryPacket.parse src = .error (.error e)) :=
  ⟨fun _ t h => DiscoveryPacket.parse_toBytes h t,DiscoveryPacket.parse_returns,decode_spec⟩

theorem living_room_round_trip :
    let d : DiscoveryPacket := ⟨#v[10,20,30,40,50,60],#v[192,168,1,100],222,51,1234,1,2,
      "Living room TV".toList⟩
    ∃ bytes, d.toBytes = .ok bytes ∧ DiscoveryPacket.parse (bytes ++ [0xFF]) = .ok d :=
  packets_round_trip.1 _ _ (by decide)

end DiscoveryPacketCodec
end Minidsp
