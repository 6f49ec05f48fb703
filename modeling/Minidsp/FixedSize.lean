import Minidsp.Codec

/-! Fixed-size mode of the network codec: when a call panics, and which segmentations of a
stream of packets it recovers. -/
namespace Minidsp

open Buffer

namespace Codec

theorem halve_pos {fuel len : ℕ} (h : 0 < len) : 0 < halve fuel len := by
  induction fuel generalizing len with
  | zero => exact h
  | succ fuel ih =>
    simp only [halve]
    split_ifs with hc
    · exact ih (by omega)
    · exact h

/-- The fuel is enough: the loop ends because its condition fails. -/
theorem inferSize_spec (len : ℕ) : inferSize len ≤ 100 ∨ inferSize len % 2 = 1 := by
  suffices h : ∀ fuel len, len ≤ fuel → halve fuel len ≤ 100 ∨ halve fuel len % 2 = 1 from
    h len len le_rfl
  intro fuel
  induction fuel with
  | zero =>
    intro len hlen
    simp only [halve]
    omega
  | succ fuel ih =>
    intro len hlen
    simp only [halve]
    split_ifs with hc
    · exact ih (len/2) (by omega)
    · omega

theorem inferSize_of_le {len : ℕ} (h : len ≤ 100) : inferSize len = len := by
  cases len with
  | zero => rfl
  | succ len =>
    simp only [inferSize,halve]
    rw [if_neg (by omega)]

def InFixedMode (c : Codec) : Prop := c.server = false ∧ c.receivedSmallPacket = false

def sizeAt (c : Codec) (src : Bytes) : ℕ := c.fixedPacketSize.getD (inferSize src.length)

theorem decode_fixedMode {c : Codec} (hc : c.InFixedMode) {src : Bytes} (h64 : 64 ≤ src.length) :
    decode c src = do
      let (buf,rest) ← splitTo (c.sizeAt src) src
      let first ← index buf 0
      if first = 0 then return ({ c with fixedPacketSize := some (c.sizeAt src) },rest,none)
      let (item,_) ← splitTo first.toNat buf
      return ({ c with fixedPacketSize := some (c.sizeAt src) },rest,some item) := by
  have hne : src ≠ [] := by
    rintro rfl
    simp at h64
  rw [decode,if_pos ⟨hc.1,hc.2,hne⟩,if_pos h64]
  rfl

theorem decode_fits {c : Codec} (hc : c.InFixedMode) {src : Bytes} (h64 : 64 ≤ src.length)
    (hpos : 0 < c.sizeAt src) (hle : c.sizeAt src ≤ src.length)
    (hfirst : (src.headD 0).toNat ≤ c.sizeAt src) :
    decode c src = .ok ({ c with fixedPacketSize := some (c.sizeAt src) },src.drop (c.sizeAt src),
      if src.headD 0 = 0 then none else some (src.take (src.headD 0).toNat)) := by
  rw [decode_fixedMode hc h64,splitTo_ok hle]
  cases src with
  | nil => simp at h64
  | cons b rest =>
    generalize c.sizeAt (b :: rest) = size at *
    simp only [bind,Except.bind,index_zero_take hpos,List.headD_cons] at hfirst ⊢
    by_cases hb : b = 0
    · simp [hb,pure,Except.pure]
    · have hlen : ((b :: rest).take size).length = size := List.length_take_of_le hle
      simp only [hb,if_false]
      rw [splitTo_ok (by rw [hlen]; exact hfirst),List.take_take,Nat.min_eq_left hfirst]
      rfl

/-- A buffer shorter than the packet size, or a first byte above it, hits a split. -/
theorem decode_panics {c : Codec} (hc : c.InFixedMode) {src : Bytes} (h64 : 64 ≤ src.length)
    (hpos : 0 < c.sizeAt src)
    (h : ¬(c.sizeAt src ≤ src.length ∧ (src.headD 0).toNat ≤ c.sizeAt src)) :
    ∃ p, decode c src = .error (.panic p) := by
  rw [decode_fixedMode hc h64]
  by_cases hle : c.sizeAt src ≤ src.length
  · rw [splitTo_ok hle]
    cases src with
    | nil => simp at h64
    | cons b rest =>
      generalize c.sizeAt (b :: rest) = size at *
      have hlt : size < b.toNat := by
        by_contra hge
        exact h ⟨hle,by simpa using hge⟩
      have hb : b ≠ 0 := by
        rintro rfl
        simp at hlt
      have hlen : ((b :: rest).take size).length = size := List.length_take_of_le hle
      refine ⟨.slice b.toNat size,?_⟩
      simp only [bind,Except.bind,index_zero_take hpos,if_neg hb]
      rw [splitTo_panics (by rw [hlen]; exact hlt),hlen]
  · rw [splitTo_panics (by omega)]
    exact ⟨_,rfl⟩

def SizePos (c : Codec) : Prop := ∀ n, c.fixedPacketSize = some n → 0 < n

theorem sizeAt_pos {c : Codec} (hc : c.SizePos) {src : Bytes} (h : 0 < src.length) :
    0 < c.sizeAt src := by
  cases hs : c.fixedPacketSize with
  | none =>
    simp only [sizeAt,hs,Option.getD_none]
    exact halve_pos h
  | some n =>
    simp only [sizeAt,hs,Option.getD_some]
    exact hc n hs

/-- In fixed-size mode a buffer of 64 bytes or more holds a whole packet, and the packet
holds as many bytes as its first byte announces. -/
def Fits (c : Codec) (src : Bytes) : Prop :=
  c.InFixedMode → 64 ≤ src.length →
    c.sizeAt src ≤ src.length ∧ (src.headD 0).toNat ≤ c.sizeAt src

instance (c : Codec) : Decidable c.InFixedMode := inferInstanceAs (Decidable (_ ∧ _))
instance (c : Codec) (src : Bytes) : Decidable (c.Fits src) :=
  inferInstanceAs (Decidable (_ → _ → _))

theorem decodeLengthPrefixed_ok (c : Codec) (src : Bytes) :
    ∃ src' item, decodeLengthPrefixed c src = .ok (c,src',item) := by
  obtain ⟨src',item,hlp,-⟩ := lengthPrefixed_cases c.additionalLength src
  exact ⟨src',item,by simp [decodeLengthPrefixed,hlp,bind,Except.bind,pure,Except.pure]⟩

theorem decode_short {c : Codec} {src : Bytes} (h : c.InFixedMode → src.length < 64) :
    ∃ d, decode c src = decodeLengthPrefixed d src ∧ d.fixedPacketSize = c.fixedPacketSize ∧
      (c.InFixedMode → src ≠ [] → d.InLengthMode) := by
  by_cases hc : c.InFixedMode ∧ src ≠ []
  · obtain ⟨⟨hs,hr⟩,hne⟩ := hc
    have h64 : ¬64 ≤ src.length := by
      have := h ⟨hs,hr⟩
      omega
    refine ⟨{ c with receivedSmallPacket := true },?_,rfl,fun _ _ => Or.inr rfl⟩
    rw [decode,if_pos ⟨hs,hr,hne⟩,if_neg h64]
  · refine ⟨c,?_,rfl,fun h1 h2 => absurd ⟨h1,h2⟩ hc⟩
    rw [decode,if_neg]
    rintro ⟨hs,hr,hne⟩
    exact hc ⟨⟨hs,hr⟩,hne⟩

theorem decode_returns_iff {c : Codec} (hc : c.SizePos) (src : Bytes) :
    (decode c src).Returns ↔ c.Fits src := by
  by_cases hfix : c.InFixedMode ∧ 64 ≤ src.length
  · obtain ⟨hmode,h64⟩ := hfix
    have hpos : 0 < c.sizeAt src := sizeAt_pos hc (by omega)
    constructor
    · intro hret _ _
      by_contra hn
      obtain ⟨p,hp⟩ := decode_panics hmode h64 hpos hn
      exact hret p hp
    · intro hfits p
      obtain ⟨hle,hfirst⟩ := hfits hmode h64
      rw [decode_fits hmode h64 hpos hle hfirst]
      exact nofun
  · have hshort : c.InFixedMode → src.length < 64 := fun hm => by
      by_contra hge
      exact hfix ⟨hm,by omega⟩
    obtain ⟨d,hd,-⟩ := decode_short hshort
    obtain ⟨src',item,hok⟩ := decodeLengthPrefixed_ok d src
    refine ⟨fun _ hm h64 => absurd ⟨hm,h64⟩ hfix,fun _ p => ?_⟩
    rw [hd,hok]
    exact nofun

theorem call_sizePos {c d : Codec} {src : Bytes} (hc : c.SizePos) (h : call c src = some d) :
    d.SizePos := by
  by_cases hfits : c.InFixedMode ∧ 64 ≤ src.length
  · obtain ⟨hmode,h64⟩ := hfits
    have hpos : 0 < c.sizeAt src := sizeAt_pos hc (by omega)
    by_cases hok : c.sizeAt src ≤ src.length ∧ (src.headD 0).toNat ≤ c.sizeAt src
    · rw [call,decode_fits hmode h64 hpos hok.1 hok.2] at h
      obtain rfl := Option.some.inj h
      rintro n ⟨rfl⟩
      exact hpos
    · obtain ⟨p,hp⟩ := decode_panics hmode h64 hpos hok
      simp [call,hp] at h
  · have hshort : c.InFixedMode → src.length < 64 := fun hm => by
      by_contra hge
      exact hfits ⟨hm,by omega⟩
    obtain ⟨e,he,hsize,-⟩ := decode_short hshort
    obtain ⟨src',item,hok⟩ := decodeLengthPrefixed_ok e src
    rw [call,he,hok] at h
    obtain rfl := Option.some.inj h
    intro n hn
    exact hc n (hsize ▸ hn)

/-- From either start, the calls of a run return exactly as long as every buffer fits. -/
theorem calls_return_iff_fit (bufs : List Bytes) :
    (Transition.Along call (fun c src => (decode c src).Returns) newServer bufs ↔
      Transition.Along call Fits newServer bufs) ∧
    (Transition.Along call (fun c src => (decode c src).Returns) newClient bufs ↔
      Transition.Along call Fits newClient bufs) := by
  have hiff : ∀ start : Codec, start.SizePos →
      (Transition.Along call (fun c src => (decode c src).Returns) start bufs ↔
        Transition.Along call Fits start bufs) := by
    intro start hstart
    exact Transition.along_congr (I := SizePos) (fun _ _ _ hc h => call_sizePos hc h)
      (fun _ src hc => decode_returns_iff hc src) hstart
  exact ⟨hiff newServer nofun,hiff newClient nofun⟩

/-- The first 64 bytes of a peer announce a packet of 255 bytes. -/
theorem call_panics_on_long_announcement :
    ¬∀ c, Transition.Reachable call newClient c → ∀ src, (decode c src).Returns := by
  intro h
  exact h newClient ⟨[],rfl⟩ (0xff :: List.replicate 63 0) (.slice 255 64) (by decide)

/-! Packets of one size. -/

def IsPacket (size : ℕ) (p : Bytes) : Prop := p.length = size ∧ (p.headD 0).toNat ≤ size

def isNull (p : Bytes) : Bool := p.headD 0 = 0

def payload (p : Bytes) : Bytes := p.take (p.headD 0).toNat

def payloads (packets : List Bytes) : List Bytes :=
  (packets.filter fun p => !isNull p).map payload

def fixedClient (size : ℕ) : Codec := { newClient with fixedPacketSize := some size }

theorem decode_packet {size : ℕ} (h64 : 64 ≤ size) {p : Bytes} (hp : IsPacket size p)
    (rest : Bytes) :
    decode (fixedClient size) (p ++ rest) =
      .ok (fixedClient size,rest,if isNull p then none else some (payload p)) := by
  obtain ⟨hlen,hfirst⟩ := hp
  have hhead : (p ++ rest).headD 0 = p.headD 0 := by
    cases p with
    | nil => simp at hlen; omega
    | cons b p => rfl
  have h64' : 64 ≤ (p ++ rest).length := by simp only [List.length_append]; omega
  have hle : (fixedClient size).sizeAt (p ++ rest) ≤ (p ++ rest).length := by
    show size ≤ _
    simp only [List.length_append]
    omega
  have hmode : (fixedClient size).InFixedMode := ⟨rfl,rfl⟩
  have hdec := decode_fits hmode h64' (show 0 < size by omega) hle (by rwa [hhead])
  rw [hdec,hhead]
  have hsize : (fixedClient size).sizeAt (p ++ rest) = p.length := hlen.symm
  rw [hsize,List.drop_left,List.take_append_of_le_length (by omega)]
  simp only [isNull,decide_eq_true_eq,payload,fixedClient,hlen]

/-- The first packet fixes the size, and is then taken off like any other. -/
theorem decode_first {size : ℕ} (h64 : 64 ≤ size) (h100 : size ≤ 100) {p : Bytes}
    (hp : p.length = size) : decode newClient p = decode (fixedClient size) p := by
  have hne : p ≠ [] := by
    rintro rfl
    simp at hp
    omega
  subst hp
  simp [decode,newClient,fixedClient,hne,h64,inferSize_of_le h100]

theorem drain_packets {size : ℕ} (h64 : 64 ≤ size) {packets : List Bytes} {n : ℕ}
    (hp : ∀ p ∈ packets, IsPacket size p) (hnull : ∀ p ∈ packets.dropLast, isNull p = false)
    (hn : packets.length < n) :
    Framed.drain decode n (fixedClient size) packets.flatten =
      some ⟨fixedClient size,[],payloads packets⟩ := by
  induction packets generalizing n with
  | nil =>
    cases n with
    | zero => omega
    | succ n => rfl
  | cons p packets ih =>
    cases n with
    | zero => omega
    | succ n =>
      have hdec := decode_packet h64 (hp p (by simp)) packets.flatten
      cases hp0 : isNull p with
      | true =>
        have hlast : packets = [] := by
          by_contra hne
          rw [List.dropLast_cons_of_ne_nil hne] at hnull
          simp [hnull p (by simp)] at hp0
        subst hlast
        rw [hp0] at hdec
        rw [List.flatten_cons,Framed.drain_of_none n hdec]
        simp [payloads,hp0]
      | false =>
        have hn' : packets.length < n := by
          simp only [List.length_cons] at hn
          omega
        have hnull' : ∀ q ∈ packets.dropLast, isNull q = false := by
          intro q hq
          refine hnull q ?_
          cases packets with
          | nil => simp at hq
          | cons r packets => simp [hq]
        rw [hp0] at hdec
        rw [List.flatten_cons,Framed.drain_of_some n hdec,
          ih (fun q hq => hp q (by simp [hq])) hnull' hn']
        simp [payloads,hp0,Framed.Stop.cons]

theorem length_le_flatten {size : ℕ} (hsize : 0 < size) {packets : List Bytes}
    (hp : ∀ p ∈ packets, IsPacket size p) : packets.length ≤ packets.flatten.length := by
  induction packets with
  | nil => simp
  | cons p packets ih =>
    have hlen := (hp p (by simp)).1
    have hrest := ih fun q hq => hp q (by simp [hq])
    simp only [List.flatten_cons,List.length_append,List.length_cons]
    omega

theorem drive_packets {size : ℕ} (h64 : 64 ≤ size) (reads : List (List Bytes))
    (hp : ∀ packets ∈ reads, ∀ p ∈ packets, IsPacket size p)
    (hnull : ∀ packets ∈ reads, ∀ p ∈ packets.dropLast, isNull p = false) :
    ∃ stops, Framed.drive decode (fixedClient size) [] (reads.map List.flatten) =
        some (fixedClient size,[],stops) ∧
      stops.flatMap Framed.Stop.items = payloads reads.flatten ∧ ∀ s ∈ stops, s.buffer = [] := by
  induction reads with
  | nil => exact ⟨[],rfl,rfl,by simp⟩
  | cons packets reads ih =>
    obtain ⟨stops,hdrive,hitems,hall⟩ := ih (fun q hq => hp q (by simp [hq]))
      (fun q hq => hnull q (by simp [hq]))
    have hlen := length_le_flatten (show 0 < size by omega) (hp packets (by simp))
    have hdrain := drain_packets h64 (n := ([] ++ packets.flatten).length+1) (hp packets (by simp))
      (hnull packets (by simp)) (by simp only [List.nil_append]; omega)
    refine ⟨⟨fixedClient size,[],payloads packets⟩ :: stops,?_,?_,?_⟩
    · rw [List.map_cons,Framed.drive_cons (by exact hdrain),hdrive]
      rfl
    · simp [hitems,payloads]
    · intro s hs
      rcases List.mem_cons.mp hs with rfl | hs
      · rfl
      · exact hall s hs

/-- The first packet and then the reads come out as their payloads, and no complete packet is
left where the codec asks for more. -/
def Recovers (size : ℕ) (first : Bytes) (packets reads : List Bytes) : Prop :=
  ∃ c buf stops, Framed.drive decode newClient [] (first :: reads) = some (c,buf,stops) ∧
    stops.flatMap Framed.Stop.items = payloads (first :: packets) ∧
    ∀ s ∈ stops, s.buffer.length < size

/-- After ten bytes of the second packet the buffer is taken for a small packet, and every
later byte for a length. -/
theorem fixedMode_misses_cut_packet :
    ¬∀ (size : ℕ) (first : Bytes) (packets reads : List Bytes), 64 ≤ size → size ≤ 100 →
      IsPacket size first → (∀ p ∈ packets, IsPacket size p) →
      reads.flatten = packets.flatten → Recovers size first packets reads := by
  intro h
  obtain ⟨c,buf,stops,hdrive,hitems,-⟩ := h 64 (1 :: List.replicate 63 0)
    [2 :: 7 :: List.replicate 62 1] [2 :: 7 :: List.replicate 8 1,List.replicate 54 1]
    le_rfl (by decide) ⟨rfl,by decide⟩
    (by intro p hp; rw [List.mem_singleton.mp hp]; exact ⟨rfl,by decide⟩) rfl
  have hnot : ((Framed.drive decode newClient [] [1 :: List.replicate 63 0,
      2 :: 7 :: List.replicate 8 1,List.replicate 54 1]).map
        fun r => r.2.2.flatMap Framed.Stop.items) ≠
      some (payloads [1 :: List.replicate 63 0,2 :: 7 :: List.replicate 62 1]) := by
    decide +kernel
  rw [hdrive,Option.map_some,hitems] at hnot
  exact hnot rfl

/-- Reads that end with a packet, and with every null packet, are recovered whole; a shorter
buffer ends fixed-size mode for good. -/
theorem fixedMode_recovers_whole_packets :
    (∀ (size : ℕ) (first : Bytes) (reads : List (List Bytes)), 64 ≤ size → size ≤ 100 →
      IsPacket size first → (∀ packets ∈ reads, ∀ p ∈ packets, IsPacket size p) →
      (∀ packets ∈ reads, ∀ p ∈ packets.dropLast, isNull p = false) →
      Recovers size first reads.flatten (reads.map List.flatten)) ∧
    (∀ (c : Codec) (src : Bytes), c.InFixedMode → src ≠ [] → src.length < 64 →
      ∃ d, call c src = some d ∧ d.InLengthMode ∧
        ∀ bufs, Transition.run call d bufs = some d) := by
  constructor
  · intro size first reads h64 h100 hfirst hp hnull
    obtain ⟨stops,hdrive,hitems,hall⟩ := drive_packets h64 ([first] :: reads)
      (by simpa [hfirst] using hp) (by simpa using hnull)
    refine ⟨fixedClient size,[],stops,?_,?_,?_⟩
    · rw [← hdrive,List.map_cons,List.flatten_singleton,Framed.drive,Framed.drive,List.nil_append,
        Framed.drain_congr (first.length+1) (decode_first h64 h100 hfirst.1)]
    · simpa using hitems
    · intro s hs
      rw [hall s hs]
      show 0 < size
      omega
  · intro c src hc hne hlt
    have hshort : c.InFixedMode → src.length < 64 := fun _ => hlt
    obtain ⟨d,hd,-,hmode⟩ := decode_short hshort
    obtain ⟨src',item,hok⟩ := decodeLengthPrefixed_ok d src
    exact ⟨d,by simp [call,hd,hok],hmode hc hne,run_lengthMode (hmode hc hne)⟩

/-- Two packets coalesced in one read, the second one null. -/
theorem fixedMode_recovers_null_last :
    Recovers 64 (1 :: List.replicate 63 9)
      [2 :: 7 :: List.replicate 62 1,0 :: List.replicate 63 5]
      [(2 :: 7 :: List.replicate 62 1) ++ (0 :: List.replicate 63 5)] :=
  fixedMode_recovers_whole_packets.1 64 (1 :: List.replicate 63 9)
    [[2 :: 7 :: List.replicate 62 1,0 :: List.replicate 63 5]] le_rfl (by decide)
    ⟨rfl,by decide⟩ (by simp [IsPacket]) (by simp [isNull])

end Codec
end Minidsp
