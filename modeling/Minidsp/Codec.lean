import Minidsp.Buffer
import Minidsp.Framed
import Minidsp.Packet
import Minidsp.Transition

/-! The length-delimited codec of the network transport. A client starts in fixed-size mode,
where the size of a packet is inferred from the first read; a buffer shorter than 64 bytes
moves it to length-prefixed mode, in which a server always is. -/
namespace Minidsp

open Buffer

structure Codec where
  server : Bool
  receivedSmallPacket : Bool
  fixedPacketSize : Option ℕ
  deriving DecidableEq, Repr

/-- An I/O error; the codec itself never makes one. -/
structure IoError where
  message : String
  deriving DecidableEq, Repr

namespace Codec

def newServer : Codec := ⟨true,false,none⟩
def newClient : Codec := ⟨false,false,none⟩

/-- `while len > 100 && len.is_multiple_of(2)`: halve. The length is enough fuel. -/
def halve : ℕ → ℕ → ℕ
  | 0, len => len
  | fuel+1, len => if 100 < len ∧ len % 2 = 0 then halve fuel (len/2) else len

def inferSize (len : ℕ) : ℕ := halve len len

/-- The loop of the length-prefixed mode; zero padding is skipped one byte at a time. -/
def lengthPrefixed (additionalLength : ℕ) : Bytes → Exec IoError (Bytes × Option Bytes)
  | [] => .ok ([],none)
  | b :: rest =>
    if b ≠ 0 then
      let n := b.toNat + additionalLength
      if n ≤ (b :: rest).length then do
        let (item,src) ← splitTo n (b :: rest)
        return (src,some item)
      else .ok (b :: rest,none)
    else lengthPrefixed additionalLength rest

/-- `usize::from(self.server)`: on the server side the prefix does not count itself. -/
def additionalLength (c : Codec) : ℕ := if c.server then 1 else 0

def decodeLengthPrefixed (c : Codec) (src : Bytes) :
    Exec IoError (Codec × Bytes × Option Bytes) := do
  let (src,item) ← lengthPrefixed c.additionalLength src
  return (c,src,item)

def decode (c : Codec) (src : Bytes) : Exec IoError (Codec × Bytes × Option Bytes) :=
  if c.server = false ∧ c.receivedSmallPacket = false ∧ src ≠ [] then
    if 64 ≤ src.length then do
      let size := c.fixedPacketSize.getD (inferSize src.length)
      let c := { c with fixedPacketSize := some size }
      let (buf,src) ← splitTo size src
      let first ← index buf 0
      -- a null packet asks for more although the buffer may hold further packets
      if first = 0 then return (c,src,none)
      let (item,_) ← splitTo first.toNat buf
      return (c,src,some item)
    else decodeLengthPrefixed { c with receivedSmallPacket := true } src
  else decodeLengthPrefixed c src

/-! Length-prefixed mode. -/

/-- The codec no longer infers packet sizes. -/
def InLengthMode (c : Codec) : Prop := c.server = true ∨ c.receivedSmallPacket = true

theorem decode_lengthMode {c : Codec} (hc : c.InLengthMode) (src : Bytes) :
    decode c src = decodeLengthPrefixed c src := by
  rcases hc with hc | hc <;> simp [decode,hc]

theorem decode_lengthMode_iff {c c' : Codec} {src src' : Bytes} {item : Option Bytes}
    (hc : c.InLengthMode) :
    decode c src = .ok (c',src',item) ↔
      c' = c ∧ lengthPrefixed c.additionalLength src = .ok (src',item) := by
  rw [decode_lengthMode hc,decodeLengthPrefixed]
  cases lengthPrefixed c.additionalLength src with
  | error e => simp [bind,Except.bind]
  | ok r => simp [bind,Except.bind,pure,Except.pure,Prod.ext_iff,eq_comm]

theorem lengthPrefixed_zeros (k z : ℕ) (src : Bytes) :
    lengthPrefixed k (List.replicate z 0 ++ src) = lengthPrefixed k src := by
  induction z with
  | zero => rfl
  | succ z ih => simpa [List.replicate_succ,lengthPrefixed] using ih

/-- What the loop answers: it has skipped zeros, and either a frame is complete or nothing
that is left is a complete frame. -/
theorem lengthPrefixed_cases (k : ℕ) (src : Bytes) :
    ∃ src' item, lengthPrefixed k src = .ok (src',item) ∧
      (∀ x, item = some x → src'.length < src.length ∧
        ∀ e, lengthPrefixed k (src ++ e) = .ok (src' ++ e,some x)) ∧
      (item = none → ∀ e, lengthPrefixed k (src ++ e) = lengthPrefixed k (src' ++ e)) := by
  induction src with
  | nil => exact ⟨[],none,rfl,by simp,by simp⟩
  | cons b rest ih =>
    by_cases hb : b = 0
    · subst hb
      obtain ⟨src',item,hlp,hsome,hnone⟩ := ih
      have hskip : ∀ src, lengthPrefixed k (0 :: src) = lengthPrefixed k src := fun src => rfl
      refine ⟨src',item,(hskip rest).trans hlp,?_,?_⟩
      · intro x hx
        obtain ⟨hlt,happ⟩ := hsome x hx
        refine ⟨?_,fun e => (hskip (rest ++ e)).trans (happ e)⟩
        simp only [List.length_cons]
        omega
      · intro hx e
        exact (hskip (rest ++ e)).trans (hnone hx e)
    · have hpos : 0 < b.toNat + k := by
        have : b.toNat ≠ 0 := fun h => hb (UInt8.toNat_inj.mp h)
        omega
      by_cases hn : b.toNat + k ≤ rest.length+1
      · refine ⟨(b :: rest).drop (b.toNat+k),some ((b :: rest).take (b.toNat+k)),?_,?_,by simp⟩
        · simp only [lengthPrefixed,ne_eq,hb,not_false_eq_true,if_true,List.length_cons,hn]
          rw [splitTo_ok (by simpa using hn)]
          rfl
        · intro x hx
          obtain rfl := Option.some.inj hx
          refine ⟨by simp only [List.length_drop,List.length_cons]; omega,fun e => ?_⟩
          have hn' : b.toNat + k ≤ (rest ++ e).length+1 := by
            rw [List.length_append]
            omega
          simp only [lengthPrefixed,ne_eq,hb,not_false_eq_true,if_true,List.length_cons,hn',
            List.cons_append]
          rw [splitTo_ok (by simpa using hn'),← List.cons_append,
            List.take_append_of_le_length (by simpa using hn),
            List.drop_append_of_le_length (by simpa using hn)]
          rfl
      · refine ⟨b :: rest,none,?_,by simp,fun _ _ => rfl⟩
        simp [lengthPrefixed,hb,hn]

theorem decode_lengthMode_cases {c c' : Codec} {src src' : Bytes} {item : Option Bytes}
    (hc : c.InLengthMode) (h : decode c src = .ok (c',src',item)) : c' = c ∧
      (∀ x, item = some x → src'.length < src.length ∧
        ∀ e, decode c (src ++ e) = .ok (c,src' ++ e,some x)) ∧
      (item = none → ∀ e, decode c (src ++ e) = decode c (src' ++ e)) := by
  obtain ⟨src₁,item₁,hlp,hsome,hnone⟩ := lengthPrefixed_cases c.additionalLength src
  obtain ⟨rfl,heq⟩ := (decode_lengthMode_iff hc).mp h
  obtain ⟨rfl,rfl⟩ := Prod.mk.inj (Except.ok.inj (hlp.symm.trans heq))
  refine ⟨rfl,fun x hx => ⟨(hsome x hx).1,fun e => ?_⟩,fun hx e => ?_⟩
  · exact (decode_lengthMode_iff hc).mpr ⟨rfl,(hsome x hx).2 e⟩
  · rw [decode_lengthMode hc,decode_lengthMode hc,decodeLengthPrefixed,decodeLengthPrefixed,
      hnone hx e]

/-- In length-prefixed mode the codec never fails or panics, never changes, and its answer
does not depend on what arrives later. -/
theorem decode_chunked {c : Codec} (hc : c.InLengthMode) : Framed.Chunked decode (· = c) where
  total d buf hd := by
    subst hd
    obtain ⟨src',item,hlp,-,-⟩ := lengthPrefixed_cases d.additionalLength buf
    exact ⟨d,src',item,(decode_lengthMode_iff hc).mpr ⟨rfl,hlp⟩,rfl⟩
  shrinks d buf c' buf' x hd h := by
    subst hd
    exact ((decode_lengthMode_cases hc h).2.1 x rfl).1
  item d buf c' buf' x hd h e := by
    subst hd
    obtain ⟨rfl,hsome,-⟩ := decode_lengthMode_cases hc h
    exact (hsome x rfl).2 e
  more d buf c' buf' hd h e := by
    subst hd
    obtain ⟨rfl,-,hnone⟩ := decode_lengthMode_cases hc h
    exact hnone rfl e

/-- A length byte and as many bytes as it announces, itself counted on the client side. -/
def WellFormed (c : Codec) (frame : Bytes) : Prop :=
  ∃ n body, frame = n :: body ∧ n ≠ 0 ∧ body.length+1 = n.toNat + c.additionalLength

/-- Frames with zero padding after each of them. -/
def stream (frames : List (Bytes × ℕ)) : Bytes :=
  frames.flatMap fun f => f.1 ++ List.replicate f.2 0

theorem lengthPrefixed_frame {c : Codec} {frame : Bytes} (hf : c.WellFormed frame) (rest : Bytes) :
    lengthPrefixed c.additionalLength (frame ++ rest) = .ok (rest,some frame) := by
  obtain ⟨n,body,rfl,hn,hlen⟩ := hf
  have hle : n.toNat + c.additionalLength ≤ (n :: (body ++ rest)).length := by
    simp only [List.length_cons,List.length_append]
    omega
  have hsplit := splitTo_append (ε := IoError) (n :: body) rest
  rw [List.length_cons,hlen] at hsplit
  simp only [List.cons_append,lengthPrefixed,ne_eq,hn,not_false_eq_true,if_true,hle] at hsplit ⊢
  rw [hsplit]
  rfl

theorem drain_stream {c : Codec} (hc : c.InLengthMode) (frames : List (Bytes × ℕ)) (z : ℕ)
    (hf : ∀ f ∈ frames, c.WellFormed f.1) :
    Framed.drain decode (frames.length+1) c (List.replicate z 0 ++ stream frames) =
      some ⟨c,[],frames.map Prod.fst⟩ := by
  induction frames generalizing z with
  | nil =>
    refine Framed.drain_of_none 0 ((decode_lengthMode_iff hc).mpr ⟨rfl,?_⟩)
    rw [lengthPrefixed_zeros]
    rfl
  | cons f frames ih =>
    have hcall : decode c (List.replicate z 0 ++ stream (f :: frames)) =
        .ok (c,List.replicate f.2 0 ++ stream frames,some f.1) := by
      refine (decode_lengthMode_iff hc).mpr ⟨rfl,?_⟩
      rw [lengthPrefixed_zeros,stream,List.flatMap_cons,List.append_assoc]
      exact lengthPrefixed_frame (hf f (by simp)) _
    rw [List.length_cons,Framed.drain_of_some _ hcall,ih f.2 (fun g hg => hf g (by simp [hg]))]
    rfl

theorem drive_stream {c : Codec} (hc : c.InLengthMode) (frames : List (Bytes × ℕ))
    (hf : ∀ f ∈ frames, c.WellFormed f.1) (reads : List Bytes)
    (hr : reads.flatten = stream frames) :
    ∃ stops, Framed.drive decode c [] reads = some (c,[],stops) ∧
      stops.flatMap Framed.Stop.items = frames.map Prod.fst ∧
      ∀ s ∈ stops, s.state = c := by
  have hset : decode c [] = .ok (c,[],none) := (decode_lengthMode_iff hc).mpr ⟨rfl,rfl⟩
  have hwhole := drain_stream hc frames 0 hf
  rw [List.replicate_zero,List.nil_append,← hr] at hwhole
  exact (decode_chunked hc).drive_of_drain reads rfl hset hwhole

theorem frame_wellFormed (p : Bytes) (hp : p.length ≤ 254) :
    newServer.WellFormed (Packet.frame p) := by
  refine ⟨UInt8.ofNat (p.length+1),p ++ [Packet.checksum (UInt8.ofNat (p.length+1) :: p)],rfl,
    Packet.lengthByte_ne_zero hp,?_⟩
  rw [Packet.lengthByte_toNat hp]
  simp [additionalLength,newServer]

def newSmallClient : Codec := { newClient with receivedSmallPacket := true }

theorem decode_small {src : Bytes} (hne : src ≠ []) (hlt : src.length < 64) :
    decode newClient src = decode newSmallClient src := by
  have h64 : ¬64 ≤ src.length := by omega
  have hsmall : newSmallClient.InLengthMode := Or.inr rfl
  rw [decode_lengthMode hsmall]
  simp [decode,newClient,newSmallClient,hne,h64]

theorem stream_eq_nil {c : Codec} {frames : List (Bytes × ℕ)} (hf : ∀ f ∈ frames, c.WellFormed f.1)
    (h : stream frames = []) : frames = [] := by
  cases frames with
  | nil => rfl
  | cons f frames =>
    obtain ⟨n,body,hfr,-⟩ := hf f (by simp)
    simp [stream,hfr] at h

/-- Until the first byte arrives a client stays as it was made; then it is in
length-prefixed mode. -/
theorem drive_client_stream (frames : List (Bytes × ℕ))
    (hf : ∀ f ∈ frames, newClient.WellFormed f.1) (reads : List Bytes)
    (hr : reads.flatten = stream frames)
    (hfirst : ∀ r, reads.find? (fun r => decide (r ≠ [])) = some r → r.length < 64) :
    ∃ c stops, Framed.drive decode newClient [] reads = some (c,[],stops) ∧
      stops.flatMap Framed.Stop.items = frames.map Prod.fst ∧
      ∀ s ∈ stops, s.state = newSmallClient ∨ s = ⟨newClient,[],[]⟩ := by
  induction reads with
  | nil =>
    obtain rfl := stream_eq_nil hf hr.symm
    exact ⟨newClient,[],rfl,rfl,by simp⟩
  | cons r reads ih =>
    by_cases hne : r = []
    · subst hne
      obtain ⟨c,stops,hdrive,hitems,hall⟩ := ih (by simpa using hr) (by simpa using hfirst)
      have hcall : decode newClient [] = .ok (newClient,[],none) := rfl
      refine ⟨c,⟨newClient,[],[]⟩ :: stops,?_,hitems,?_⟩
      · rw [Framed.drive_cons (Framed.drain_of_none 0 hcall),hdrive]
        rfl
      · intro s hs
        rcases List.mem_cons.mp hs with rfl | hs
        · exact Or.inr rfl
        · exact hall s hs
    · have hlt : r.length < 64 := hfirst r (by simp [hne])
      obtain ⟨stops,hdrive,hitems,hall⟩ := drive_stream (c := newSmallClient) (Or.inr rfl) frames hf
        (r :: reads) hr
      refine ⟨newSmallClient,stops,?_,hitems,fun s hs => Or.inl (hall s hs)⟩
      rw [← hdrive,Framed.drive,Framed.drive,List.nil_append]
      rw [Framed.drain_congr (r.length+1) (decode_small hne hlt)]

/-- One call as a step of a run over buffers; a call that panics ends the run. -/
def call (c : Codec) (src : Bytes) : Option Codec :=
  match decode c src with
  | .ok (c',_,_) => some c'
  | .error _ => none

theorem run_lengthMode {c : Codec} (hc : c.InLengthMode) (bufs : List Bytes) :
    Transition.run call c bufs = some c := by
  induction bufs with
  | nil => rfl
  | cons src bufs ih =>
    obtain ⟨src',item,hlp,-⟩ := lengthPrefixed_cases c.additionalLength src
    have hcall := (decode_lengthMode_iff hc).mpr ⟨rfl,hlp⟩
    exact Transition.run_cons_iff.mpr ⟨c,by simp [call,hcall],ih⟩

/-- Length-prefixed mode does not depend on how the stream is cut into reads, on the server
side and for a client that starts with a short buffer; it is never left. -/
theorem lengthMode_recovers_frames :
    (∀ (frames : List (Bytes × ℕ)) (reads : List Bytes),
      (∀ f ∈ frames, newServer.WellFormed f.1) → reads.flatten = stream frames →
      ∃ stops, Framed.drive decode newServer [] reads = some (newServer,[],stops) ∧
        stops.flatMap Framed.Stop.items = frames.map Prod.fst) ∧
    (∀ p : Bytes, p.length ≤ 254 → newServer.WellFormed (Packet.frame p)) ∧
    (∀ (frames : List (Bytes × ℕ)) (reads : List Bytes),
      (∀ f ∈ frames, newClient.WellFormed f.1) → reads.flatten = stream frames →
      (∀ r, reads.find? (fun r => decide (r ≠ [])) = some r → r.length < 64) →
      ∃ c stops, Framed.drive decode newClient [] reads = some (c,[],stops) ∧
        stops.flatMap Framed.Stop.items = frames.map Prod.fst ∧
        ∀ s ∈ stops, s.state = newSmallClient ∨ s = ⟨newClient,[],[]⟩) ∧
    (∀ bufs : List Bytes, Transition.run call newSmallClient bufs = some newSmallClient) := by
  refine ⟨?_,frame_wellFormed,?_,run_lengthMode (Or.inr rfl)⟩
  · intro frames reads hf hr
    obtain ⟨stops,hdrive,hitems,-⟩ := drive_stream (c := newServer) (Or.inl rfl) frames hf reads hr
    exact ⟨stops,hdrive,hitems⟩
  · intro frames reads hf hr hfirst
    exact drive_client_stream frames hf reads hr hfirst

/-- Two frames with padding for each side, cut inside a frame, before padding and inside it. -/
theorem lengthMode_recovers_padded :
    (∃ stops, Framed.drive decode newServer [] [[2],[0x17,0x19,0],[0,3,0x31,0],[0x34,0]] =
        some (newServer,[],stops) ∧
      stops.flatMap Framed.Stop.items = [[2,0x17,0x19],[3,0x31,0,0x34]]) ∧
    ∃ c stops, Framed.drive decode newClient [] [[],[3,5],[0xff,0],[1,0,0,2,5]] =
        some (c,[],stops) ∧
      stops.flatMap Framed.Stop.items = [[3,5,0xff],[1],[2,5]] ∧
      ∀ s ∈ stops, s.state = newSmallClient ∨ s = ⟨newClient,[],[]⟩ := by
  obtain ⟨hserver,-,hclient,-⟩ := lengthMode_recovers_frames
  constructor
  · refine hserver [([2,0x17,0x19],2),([3,0x31,0,0x34],1)] _ (fun f hf => ?_) rfl
    simp only [List.mem_cons,List.not_mem_nil,or_false] at hf
    rcases hf with rfl | rfl
    · exact ⟨2,[0x17,0x19],rfl,by decide,rfl⟩
    · exact ⟨3,[0x31,0,0x34],rfl,by decide,rfl⟩
  · refine hclient [([3,5,0xff],1),([1],2),([2,5],0)] _ (fun f hf => ?_) rfl ?_
    · simp only [List.mem_cons,List.not_mem_nil,or_false] at hf
      rcases hf with rfl | rfl | rfl
      · exact ⟨3,[5,0xff],rfl,by decide,rfl⟩
      · exact ⟨1,[],rfl,by decide,rfl⟩
      · exact ⟨2,[5],rfl,by decide,rfl⟩
    · rintro r ⟨rfl⟩
      decide

end Codec
end Minidsp
