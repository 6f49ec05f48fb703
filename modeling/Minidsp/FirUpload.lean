import Minidsp.MiniDSP

/-! Loading a FIR filter: what is sent to a device that answers every command, and what the
other end makes of it. The decoder of a block leaves out its last float. -/
namespace Minidsp

open Buffer Dialogue

def Answered {σ : Type} (dev : Dialogue.Device σ Commands Responses MiniDSPError) : Prop :=
  ∀ s q, ∃ r, (dev s q).1 = .ok r ∧ q.matchesResponse r = true

section
variable {σ : Type} {dev : Dialogue.Device σ Commands Responses MiniDSPError}

theorem ack_gives (hdev : Answered dev) {q : Commands}
    (hq : ∀ r, q.matchesResponse r = true → r = .ack) (s : σ) :
    ∃ t, Gives dev (Dialogue.roundtrip q >>= fun r => Client.expect r.intoAck) s () t [q] := by
  obtain ⟨r,hr,hmatch⟩ := hdev s q
  obtain rfl := hq r hmatch
  exact ⟨_,Client.acked (Prod.ext hr rfl)⟩

theorem eq_ack_of_beq {r : Responses} (h : (r == .ack) = true) : r = .ack := by simpa using h

end

namespace Commands

theorem readFir_flatMap (data : List F32Bits) :
    readFir (data.flatMap putU32Le) = data.dropLast := by
  induction data with
  | nil => simp [readFir]
  | cons x data ih =>
    cases data with
    | nil => simp [readFir,putU32Le_eq]
    | cons y data =>
      rw [List.dropLast_cons_cons,← ih,List.flatMap_cons,putU32Le_eq x,List.flatMap_cons,
        putU32Le_eq y]
      simp only [List.cons_append,List.nil_append,readFir,u32OfLe_put]

theorem firLoadData_decoded (index : UInt8) (data : List F32Bits) :
    ∃ b, (firLoadData index data).toBytes = .ok b ∧ b.length = 2 + 4*data.length ∧
      fromBytes b = .ok (firLoadData index data.dropLast) := by
  refine ⟨_,rfl,?_,?_⟩
  · have hlen : (data.flatMap putU32Le).length = 4*data.length := by
      rw [List.length_flatMap,List.map_congr_left fun x _ => putU32Le_length x]
      simp [Nat.mul_comm]
    simp only [List.length_cons,hlen]
    omega
  · rw [← readFir_flatMap]
    rfl

end Commands

section
variable {σ : Type} (dev : Dialogue.Device σ Commands Responses MiniDSPError)
variable (dsp : MiniDSP) (fir : Device.Fir) (coefficients : List F32Bits) (s : σ)

/-- The upload returns, having sent the number of coefficients, the blocks between start and
end, and the mute it found; each block fits a packet. -/
def Brackets (blocks : List (List F32Bits)) : Prop :=
  ∃ t n mute, Gives dev (dsp.setCoefficients fir coefficients) s () t
      ([.readMemory Eeprom.preset 9,.write (dsp.device.dialect.addr fir.numCoefficients) (.int n),
        .firLoadStart fir.index] ++ blocks.map (.firLoadData fir.index) ++
        [.firLoadEnd,.setMute mute]) ∧
    n.toNat = coefficients.length ∧
    ∀ data ∈ blocks, data.length ≤ 14 ∧
      ∃ b, (Commands.firLoadData fir.index data).toBytes = .ok b ∧ (Packet.frame b).length ≤ 64

def Received (block data : List F32Bits) : Prop :=
  ∃ b, (Commands.firLoadData fir.index block).toBytes = .ok b ∧
    Commands.fromBytes b = .ok (.firLoadData fir.index data)

/-- The blocks carry the coefficients to the other end, all of them and in order. -/
def Uploads : Prop :=
  ∃ blocks datas, Brackets dev dsp fir coefficients s blocks ∧
    List.Forall₂ (Received fir) blocks datas ∧ datas.flatten = coefficients

end

def MiniDSP.load (fir : Device.Fir) (coefficients : List F32Bits) (status : MasterStatus) :
    Call Unit :=
  forM (chunks 14 coefficients) (fun block =>
    Dialogue.roundtrip (.firLoadData fir.index block) >>= fun r => Client.expect r.intoAck) >>=
    fun _ => (Dialogue.roundtrip .firLoadEnd >>= fun r => Client.expect r.intoAck) >>=
      fun _ => Client.unwrap status.mute >>= MiniDSP.setMasterMute

section
variable {σ : Type} {dev : Dialogue.Device σ Commands Responses MiniDSPError}
variable {dsp : MiniDSP} {fir : Device.Fir} {coefficients : List F32Bits} {s : σ}

theorem getMasterStatus_gives (dsp : MiniDSP) (hdev : Answered dev) (s : σ) :
    ∃ status mute t, Gives dev dsp.getMasterStatus s status t [.readMemory Eeprom.preset 9] ∧
      status.mute = some mute := by
  obtain ⟨r,hr,hmatch⟩ := hdev s (.readMemory Eeprom.preset 9)
  cases r with
  | memoryData view =>
    simp only [Commands.matchesResponse,Bool.and_eq_true,beq_iff_eq] at hmatch
    obtain ⟨hbase,hlen⟩ := hmatch
    have hbyte : ∃ x, view.readU8 Eeprom.mute = some x := by
      have hnine : view.data.length = 9 := hlen
      rw [MemoryView.readU8_eq (by rw [hbase]; decide),hbase]
      have h3 : Eeprom.mute.toNat - Eeprom.preset.toNat < view.data.length := by
        rw [hnine]
        decide
      exact ⟨_,List.getElem?_eq_getElem h3⟩
    obtain ⟨x,hx⟩ := hbyte
    refine ⟨.fromMemory dsp.deviceInfo view,x == 1,(dev s (.readMemory Eeprom.preset 9)).2,?_,?_⟩
    · have hmemory : Gives dev (Client.readMemory Eeprom.preset 9) s view
          (dev s (.readMemory Eeprom.preset 9)).2 [.readMemory Eeprom.preset 9] :=
        Client.expected (Prod.ext hr rfl) rfl
      exact hmemory.bind (Gives.pure _)
    · simp [MasterStatus.fromMemory,hx]
  | _ => simp [Commands.matchesResponse] at hmatch

theorem firLoadStart_gives (hdev : Answered dev)
    (hsize : ∀ s size, (dev s (.firLoadStart fir.index)).1 = .ok (.firLoadSize size) →
      coefficients.length ≤ size.toNat) (s : σ) :
    ∃ size t, Gives dev (Dialogue.roundtrip (.firLoadStart fir.index) >>= fun r =>
        Client.expect r.intoFirSize) s size t [.firLoadStart fir.index] ∧
      coefficients.length ≤ size.toNat := by
  obtain ⟨r,hr,hmatch⟩ := hdev s (.firLoadStart fir.index)
  cases r with
  | firLoadSize size =>
    exact ⟨size,_,Client.expected (Prod.ext hr rfl) rfl,hsize s size hr⟩
  | _ => simp [Commands.matchesResponse] at hmatch

theorem setCoefficients_eq : dsp.setCoefficients fir coefficients =
    dsp.getMasterStatus >>= fun status =>
      dsp.writeDspInt fir.numCoefficients (UInt16.ofNat coefficients.length) >>= fun _ =>
        (Dialogue.roundtrip (.firLoadStart fir.index) >>= fun r => Client.expect r.intoFirSize) >>=
          fun size => if size.toNat < coefficients.length then .fail .tooManyCoefficients
            else MiniDSP.load fir coefficients status := by
  simp only [MiniDSP.setCoefficients,MiniDSP.load,bind_assoc]

/-- The whole conversation with a device that answers and has room. -/
theorem setCoefficients_gives (dsp : MiniDSP) (hdev : Answered dev)
    (hsize : ∀ s size, (dev s (.firLoadStart fir.index)).1 = .ok (.firLoadSize size) →
      coefficients.length ≤ size.toNat) :
    ∃ t mute, Gives dev (dsp.setCoefficients fir coefficients) s () t
      ([.readMemory Eeprom.preset 9,.write (dsp.device.dialect.addr fir.numCoefficients)
          (.int (UInt16.ofNat coefficients.length)),.firLoadStart fir.index] ++
        (chunks 14 coefficients).map (.firLoadData fir.index) ++ [.firLoadEnd,.setMute mute]) := by
  obtain ⟨status,mute,t1,hstatus,hmute⟩ := getMasterStatus_gives dsp hdev s
  obtain ⟨t2,hwrite⟩ := ack_gives hdev (q := .write (dsp.device.dialect.addr fir.numCoefficients)
    (.int (UInt16.ofNat coefficients.length))) (fun _ => eq_ack_of_beq) t1
  obtain ⟨size,t3,hstart,hle⟩ := firLoadStart_gives hdev hsize t2
  have hround : ∀ block ∈ chunks 14 coefficients, ∀ s, True → ∃ t, True ∧ Gives dev
      (Dialogue.roundtrip (.firLoadData fir.index block) >>= fun r => Client.expect r.intoAck)
      s () t [.firLoadData fir.index block] := by
    intro block _ s _
    obtain ⟨t,ht⟩ := ack_gives hdev (q := .firLoadData fir.index block) (fun _ => eq_ack_of_beq) s
    exact ⟨t,trivial,ht⟩
  obtain ⟨t4,-,hblocks⟩ := Gives.forEach (s := t3) hround trivial
  obtain ⟨t5,hend⟩ := ack_gives hdev (q := .firLoadEnd) (fun _ => eq_ack_of_beq) t4
  obtain ⟨t6,hrestore⟩ := ack_gives hdev (q := .setMute mute) (fun _ => eq_ack_of_beq) t5
  have hroom : ¬size.toNat < coefficients.length := by omega
  refine ⟨t6,mute,?_⟩
  have hunwrap : Gives dev (Client.unwrap status.mute) t5 mute t5 [] := by
    rw [hmute]
    exact Gives.pure mute
  have hload : Gives dev (MiniDSP.load fir coefficients status) t3 () t6 _ :=
    hblocks.bind (hend.bind (hunwrap.bind hrestore))
  rw [setCoefficients_eq]
  exact (hstatus.bind (hwrite.bind (hstart.bind (hload.ite_neg hroom)))).congr
    (by simp [List.map_eq_flatMap])

theorem brackets_chunks (dsp : MiniDSP) (hdev : Answered dev) (hn : coefficients.length ≤ 65535)
    (hsize : ∀ s size, (dev s (.firLoadStart fir.index)).1 = .ok (.firLoadSize size) →
      coefficients.length ≤ size.toNat) :
    Brackets dev dsp fir coefficients s (chunks 14 coefficients) := by
  obtain ⟨t,mute,hgives⟩ := setCoefficients_gives dsp (s := s) hdev hsize
  refine ⟨t,_,mute,hgives,?_,fun data hdata => ?_⟩
  · rw [UInt16.toNat_ofNat']
    omega
  · obtain ⟨-,hle⟩ := mem_chunks (by omega) hdata
    obtain ⟨b,hb,hlen,-⟩ := Commands.firLoadData_decoded fir.index data
    refine ⟨hle,b,hb,?_⟩
    rw [Packet.frame_length,hlen]
    omega

/-- There is only one way to cut the conversation into blocks. -/
theorem brackets_unique {blocks blocks' : List (List F32Bits)}
    (h : Brackets dev dsp fir coefficients s blocks)
    (h' : Brackets dev dsp fir coefficients s blocks') : blocks = blocks' := by
  obtain ⟨t,n,mute,hg,-⟩ := h
  obtain ⟨t',n',mute',hg',-⟩ := h'
  have hasked := hg.asked.symm.trans hg'.asked
  simp only [List.cons_append,List.nil_append,List.cons.injEq,true_and] at hasked
  obtain ⟨-,htail⟩ := hasked
  obtain ⟨hmap,-⟩ := List.append_inj' htail rfl
  exact List.map_injective_iff.mpr (fun a b hab => (Commands.firLoadData.inj hab).2) hmap

theorem received_iff {block data : List F32Bits} : Received fir block data ↔ data = block.dropLast := by
  obtain ⟨b,hb,-,hdecode⟩ := Commands.firLoadData_decoded fir.index block
  constructor
  · rintro ⟨b',hb',hdecode'⟩
    obtain rfl := Except.ok.inj (hb.symm.trans hb')
    exact (Commands.firLoadData.inj (Except.ok.inj (hdecode'.symm.trans hdecode))).2
  · rintro rfl
    exact ⟨b,hb,hdecode⟩

/-- Of the coefficients one is missing for every block. -/
theorem received_length {blocks datas : List (List F32Bits)} (hne : ∀ b ∈ blocks, b ≠ [])
    (h : List.Forall₂ (Received fir) blocks datas) :
    datas.flatten.length + blocks.length = blocks.flatten.length := by
  induction h with
  | nil => rfl
  | @cons block data blocks datas hb _ ih =>
    obtain rfl := received_iff.mp hb
    have hpos := List.length_pos_iff.mpr (hne block (by simp))
    have hrest := ih fun b hb => hne b (by simp [hb])
    simp only [List.flatten_cons,List.length_append,List.length_cons,List.length_dropLast]
    omega

theorem eq_nil_of_uploads (hchunks : Brackets dev dsp fir coefficients s (chunks 14 coefficients))
    (h : Uploads dev dsp fir coefficients s) : coefficients = [] := by
  obtain ⟨blocks,datas,hblocks,hreceived,hflatten⟩ := h
  obtain rfl := brackets_unique hblocks hchunks
  have hlen := received_length (fun b hb => (mem_chunks (by omega) hb).1) hreceived
  rw [chunks_flatten (by omega),hflatten] at hlen
  have hnone : chunks 14 coefficients = [] := List.eq_nil_of_length_eq_zero (by omega)
  have hwhole := chunks_flatten (n := 14) (by omega) coefficients
  rw [hnone] at hwhole
  exact hwhole.symm

/-- The conversation is as it should be for every list, and the other end has all of it only
when there is nothing to send. -/
theorem uploads_iff_empty (hdev : Answered dev) (hn : coefficients.length ≤ 65535)
    (hsize : ∀ s size, (dev s (.firLoadStart fir.index)).1 = .ok (.firLoadSize size) →
      coefficients.length ≤ size.toNat) :
    (∃ blocks, Brackets dev dsp fir coefficients s blocks) ∧
      (Uploads dev dsp fir coefficients s ↔ coefficients = []) := by
  have hchunks := brackets_chunks dsp (s := s) hdev hn hsize
  refine ⟨⟨_,hchunks⟩,eq_nil_of_uploads hchunks,?_⟩
  rintro rfl
  exact ⟨_,[],hchunks,by simp,rfl⟩

def obliging (size : UInt16) : Dialogue.Device Unit Commands Responses MiniDSPError :=
  fun s q => (.ok (match q with
    | .readMemory addr size => .memoryData ⟨addr,List.replicate size.toNat 0⟩
    | .readFloats addr len => .floatData ⟨addr,List.replicate len.toNat 0⟩
    | .readHardwareId => .hardwareId ⟨1,13,10⟩
    | .setConfig .. => .configChanged
    | .firLoadStart _ => .firLoadSize size
    | .unk07 _ => .unk02
    | .read addr _ => .read addr []
    | _ => .ack),s)

theorem obliging_answered (size : UInt16) : Answered (obliging size) := by
  intro s q
  refine ⟨_,rfl,?_⟩
  cases q <;> simp [Commands.matchesResponse]

theorem obliging_size {size size' : UInt16} {index : UInt8}
    (h : (obliging size () (.firLoadStart index)).1 = .ok (.firLoadSize size')) : size' = size :=
  (Responses.firLoadSize.inj (Except.ok.inj h)).symm

/-- Fifteen coefficients, in a block of fourteen and one of one. -/
theorem uploads_two_blocks :
    (∃ blocks, Brackets (obliging 4096) ⟨.generic,⟨10,1,13,100,900000⟩⟩ ⟨0,1,2,4096⟩
      (List.replicate 15 0x3f800000) () blocks) ∧
      (Uploads (obliging 4096) ⟨.generic,⟨10,1,13,100,900000⟩⟩ ⟨0,1,2,4096⟩
        (List.replicate 15 0x3f800000) () ↔ List.replicate 15 0x3f800000 = ([] : List F32Bits)) :=
  uploads_iff_empty (obliging_answered 4096) (by decide)
    (fun _ _ h => obliging_size h ▸ by decide)

theorem single_coefficient_lost :
    ¬Uploads (obliging 4096) ⟨.generic,⟨10,1,13,100,900000⟩⟩ ⟨0,1,2,4096⟩ [0x3f800000] () := by
  have hchunks : Brackets (obliging 4096) ⟨.generic,⟨10,1,13,100,900000⟩⟩ ⟨0,1,2,4096⟩
      [0x3f800000] () (chunks 14 [0x3f800000]) :=
    brackets_chunks _ (obliging_answered 4096) (by decide)
      (fun _ _ h => obliging_size h ▸ by decide)
  intro h
  simpa using eq_nil_of_uploads hchunks h

end
end Minidsp
