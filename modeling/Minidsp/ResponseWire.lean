import Minidsp.Responses

/-! Responses from the encoder back through the decoder. Two of them do not come back: one
shares its id with another, and one carries its id in its payload already. -/
namespace Minidsp
namespace Responses

open Buffer

/-- The responses the protocol carries: a read with an address that fits and four-byte
values, and of the unknown ones only what the parser itself makes. -/
def Carried : Responses → Prop
  | .read addr data => addr.len = 2 ∧ addr.val < 0x1000 ∧ ∀ v ∈ data, v.intoBytes.length = 4
  | .unknown cmdId payload => ∃ b, fromBytes b = .ok (.unknown cmdId payload)
  | _ => True

/-- The same constructor with the same fields. The kind of a value is not on the wire, so
that values are compared by their bytes. -/
def SameContents : Responses → Responses → Prop
  | .read addr data, .read addr' data' =>
    addr' = addr ∧ data'.map Value.intoBytes = data.map Value.intoBytes
  | .read .., _ => False
  | r, r' => r' = r

/-- Decoding the encoded response gives the same contents, and the same bytes again. -/
def Survives (r : Responses) : Prop :=
  ∃ b r', r.toBytes = .ok b ∧ fromBytes b = .ok r' ∧ SameContents r r' ∧ r'.toBytes = .ok b

/-- The id on the wire says which response it is, and is written once. -/
def Identified : Responses → Prop
  | .unk02 => False
  | .unknown .. => False
  | _ => True

instance : DecidablePred Identified
  | .unk02 | .unknown .. => inferInstanceAs (Decidable False)
  | .ack | .read .. | .memoryData _ | .floatData _ | .hardwareId _ | .firLoadSize _
  | .configChanged => inferInstanceAs (Decidable True)

theorem floatsLe_flatMap (data : List F32Bits) : floatsLe (data.flatMap putU32Le) = data := by
  induction data with
  | nil => rfl
  | cons x data ih =>
    rw [List.flatMap_cons,putU32Le_eq]
    simp only [List.cons_append,List.nil_append,floatsLe,u32OfLe_put,ih]

theorem chunks4_flatMap {α : Type} (f : α → Bytes) (data : List α)
    (h4 : ∀ v ∈ data, (f v).length = 4) : chunks4 (data.flatMap f) = data.map f := by
  induction data with
  | nil => rfl
  | cons v data ih =>
    obtain ⟨a,b,c,d,hv⟩ : ∃ a b c d, f v = [a,b,c,d] := by
      have hlen := h4 v (by simp)
      match f v, hlen with
      | [a,b,c,d], _ => exact ⟨a,b,c,d,rfl⟩
    rw [List.flatMap_cons,List.map_cons,hv,← ih fun w hw => h4 w (by simp [hw])]
    rfl

theorem readValues_flatMap (data : List Value) (h4 : ∀ v ∈ data, v.intoBytes.length = 4) :
    (readValues (data.flatMap Value.intoBytes)).map Value.intoBytes =
      data.map Value.intoBytes := by
  rw [readValues,chunks4_flatMap Value.intoBytes data h4]
  induction data with
  | nil => rfl
  | cons v data ih =>
    obtain ⟨v',hv',hbytes⟩ := Value.fromBytes_ok (ε := TryGetError) v.intoBytes
    rw [List.map_cons,List.filterMap_cons,hv',List.map_cons,hbytes,
      ih fun w hw => h4 w (by simp [hw])]

theorem flatMap_of_map_eq {data data' : List Value}
    (h : data'.map Value.intoBytes = data.map Value.intoBytes) :
    data'.flatMap Value.intoBytes = data.flatMap Value.intoBytes := by
  rw [List.flatMap_def,List.flatMap_def,h]

theorem read_survives {addr : Addr} {data : List Value} (hl : addr.len = 2)
    (hv : addr.val < 0x1000) (h4 : ∀ v ∈ data, v.intoBytes.length = 4) :
    Survives (.read addr data) := by
  obtain ⟨b,hb,-,hread⟩ := Addr.exists_write (Or.inl ⟨hl,hv⟩) ProtocolError
  rw [hl] at hread
  have hvalues := readValues_flatMap data h4
  refine ⟨0x02 :: (b ++ data.flatMap Value.intoBytes),
    .read addr (readValues (data.flatMap Value.intoBytes)),?_,?_,⟨rfl,hvalues⟩,?_⟩
  · simp only [toBytes,hb]
    rfl
  · simp only [fromBytes,if_true,tryGetU8_cons,bind,Except.bind,hread]
    rfl
  · simp only [toBytes,hb,flatMap_of_map_eq hvalues]
    rfl

theorem memoryData_survives (data : MemoryView) : Survives (.memoryData data) := by
  refine ⟨_,.memoryData data,rfl,?_,rfl,rfl⟩
  simp only [fromBytes,MemoryView.fromPacket,tryGetU8_cons,bind,Except.bind,tryGetU16_put]
  rfl

theorem floatData_survives (data : FloatView) : Survives (.floatData data) := by
  refine ⟨_,.floatData data,rfl,?_,rfl,rfl⟩
  simp only [fromBytes,FloatView.fromPacket,tryGetU8_cons,bind,Except.bind,tryGetU16_put,
    floatsLe_flatMap]
  rfl

theorem firLoadSize_survives (size : UInt16) : Survives (.firLoadSize size) := by
  refine ⟨_,.firLoadSize size,rfl,?_,rfl,rfl⟩
  have hput := tryGetU16_put (ε := ProtocolError) size []
  rw [List.append_nil] at hput
  simp only [fromBytes,tryGetU8_cons,bind,Except.bind,hput]
  rfl

/-- The id alone is taken for a read response without its address. -/
theorem not_unk02_survives : ¬Survives .unk02 := by
  rintro ⟨b,r',hb,hr',-⟩
  obtain rfl : [0x02] = b := Except.ok.inj hb
  have hfail : fromBytes [0x02] = .error (.error (.decodeError ⟨2,0⟩)) := rfl
  rw [hfail] at hr'
  cases hr'

theorem unknown_of_fromBytes {b payload : Bytes} {cmdId : UInt8}
    (h : fromBytes b = .ok (.unknown cmdId payload)) :
    payload = b ∧ ∃ rest, b = cmdId :: rest ∧ ¬Addressed cmdId ∧ cmdId ≠ 0x31 ∧ cmdId ≠ 0xab := by
  cases b with
  | nil => cases h
  | cons id rest =>
    by_cases hid : Addressed id
    · rcases rest with _ | ⟨x,_ | ⟨y,rest⟩⟩ <;> rcases hid with rfl | rfl | rfl | rfl <;> cases h
    by_cases h31 : id = 0x31
    · subst h31
      rcases rest with _ | ⟨x,_ | ⟨y,_ | ⟨z,rest⟩⟩⟩ <;> cases h
    by_cases hab : id = 0xab
    · subst hab
      cases h
    have hne := hid
    simp only [Addressed,not_or] at hne
    simp only [fromBytes,hne,h31,hab,if_false,pure,Except.pure,Except.ok.injEq,
      unknown.injEq] at h
    obtain ⟨rfl,rfl⟩ := h
    exact ⟨rfl,rest,rfl,hid,h31,hab⟩

/-- The id is written in front of a payload that starts with it. -/
theorem not_unknown_survives {cmdId : UInt8} {payload : Bytes}
    (h : Carried (.unknown cmdId payload)) : ¬Survives (.unknown cmdId payload) := by
  obtain ⟨b,hb⟩ := h
  obtain ⟨rfl,rest,rfl,hid,h31,hab⟩ := unknown_of_fromBytes hb
  rintro ⟨wire,r',hwire,hr',hsame,-⟩
  obtain rfl : cmdId :: cmdId :: rest = wire := Except.ok.inj hwire
  obtain rfl : r' = .unknown cmdId (cmdId :: rest) := hsame
  obtain ⟨hlen,-⟩ := unknown_of_fromBytes hr'
  simpa using congrArg List.length hlen

/-- Exactly the responses whose id identifies them survive the wire. -/
theorem survives_iff_identified (r : Responses) (hr : Carried r) :
    Survives r ↔ Identified r := by
  cases r with
  | ack => exact iff_of_true ⟨[],.ack,rfl,rfl,rfl,rfl⟩ trivial
  | read addr data => exact iff_of_true (read_survives hr.1 hr.2.1 hr.2.2) trivial
  | memoryData data => exact iff_of_true (memoryData_survives data) trivial
  | floatData data => exact iff_of_true (floatData_survives data) trivial
  | hardwareId id => exact iff_of_true ⟨_,.hardwareId id,rfl,rfl,rfl,rfl⟩ trivial
  | firLoadSize size => exact iff_of_true (firLoadSize_survives size) trivial
  | configChanged => exact iff_of_true ⟨_,.configChanged,rfl,rfl,rfl,rfl⟩ trivial
  | unk02 => exact iff_of_false not_unk02_survives id
  | unknown cmdId payload => exact iff_of_false (not_unknown_survives hr) id

theorem read_response_survives :
    Survives (.read ⟨0x10,2,true⟩ [.float 0x3f800000,.int 2]) ↔
      Identified (.read ⟨0x10,2,true⟩ [.float 0x3f800000,.int 2]) :=
  survives_iff_identified _ ⟨rfl,by decide,by decide⟩

/-- The response to a restore command, and one with an id nothing knows. -/
theorem unidentified_lost :
    (Carried .unk02 ∧ ¬Survives .unk02) ∧
      (Carried (.unknown 0xa5 [0xa5,0x01]) ∧ ¬Survives (.unknown 0xa5 [0xa5,0x01])) :=
  ⟨⟨trivial,not_unk02_survives⟩,⟨[0xa5,0x01],rfl⟩,not_unknown_survives ⟨[0xa5,0x01],rfl⟩⟩

end Responses
end Minidsp
