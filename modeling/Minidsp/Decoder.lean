import Minidsp.Parsing

/-! The protocol decoder: it parses the frames of a third-party app and prints them. What it
writes is kept as data; the terminal takes every write. -/
namespace Minidsp

open Buffer

/-- What a value is printed as: its bytes, and the numbers they may stand for. -/
inductive Value.Text
  | unknown (bytes : Bytes) (i : UInt8) (i32 : UInt32) (f32 : F32Bits) (fp : FixedPoint)
  | float (bytes : Bytes) (val : F32Bits)
  | fixedPoint (bytes : Bytes) (val : FixedPoint)
  | int (bytes : Bytes) (val : UInt16)
  | int32 (bytes : Bytes) (val : UInt32)
  deriving DecidableEq, Repr

section
variable {ε : Type}

/-- The 32-bit readings are guarded by the length; the first byte is not. -/
def Value.debug (v : Value) : Exec ε Value.Text :=
  let b := v.intoBytes
  match v with
  | .unknown _ => do
    let float ← if 4 ≤ b.length then Prod.fst <$> getU32Le b else pure 0
    let u ← if 4 ≤ b.length then Prod.fst <$> getU32 b else pure 0
    let fixed ← if 4 ≤ b.length then (FixedPoint.mk ·.1) <$> getU32 b else pure ⟨0⟩
    let i ← index b 0
    return .unknown b i u float fixed
  | .float val => return .float b val
  | .fixedPoint val => return .fixedPoint b val
  | .int val => return .int b val
  | .int32 val => return .int32 b val

end

def Commands.values : Commands → List Value
  | .writeBiquad _ data => data.toList
  | .write _ value => [value]
  | _ => []

def Responses.values : Responses → List Value
  | .read _ data => data
  | _ => []

structure Decoder where
  quiet : Bool
  nameMap : Option (List (String × ℕ))
  deriving DecidableEq, Repr

namespace Decoder

inductive Shown
  | frame (sent : Bool) (frame : Bytes)
  | command (cmd : Commands) (values : List Value.Text) (name : Option (UInt16 × String))
  | response (resp : Responses) (values : List Value.Text)
  | error (e : ProtocolError)
  deriving DecidableEq, Repr

def resolveAddr (d : Decoder) (addr : UInt16) : Option String := do
  let map ← d.nameMap
  let entry ← map.find? fun e => e.2 == addr.toNat
  return entry.1

/-- The address of a command and its name; a DSP address is cut to 16 bits. -/
def maybePrintAddr (d : Decoder) (cmd : Commands) : Option (UInt16 × String) := do
  let addr ← match cmd with
    | .readFloats addr _ => some addr
    | .write addr _ | .writeBiquad addr _ | .writeBiquadBypass addr _ | .read addr _
    | .switchMux addr .. => some addr.val.toUInt16
    | _ => none
  return (addr,(d.resolveAddr addr).getD "<unknown>")

def printCommand (d : Decoder) (cmd : Commands) : Exec Empty Shown := do
  let text ← cmd.values.mapM Value.debug
  return .command cmd text (d.maybePrintAddr cmd)

def printResponse (resp : Responses) : Exec Empty Shown := do
  let text ← resp.values.mapM Value.debug
  return .response resp text

/-- The traffic of the level meters, left out when quiet. -/
def polledCommand : Commands → Bool
  | .readFloats .. | .read .. => true
  | _ => false

def polledResponse : Responses → Bool
  | .floatData _ | .read .. => true
  | _ => false

def feedSent (d : Decoder) (frame : Bytes) : Exec Empty (List Shown) :=
  match Packet.unframe frame with
  | .error _ => .ok []
  | .ok frame =>
    match Commands.fromBytes frame with
    | .ok cmd =>
      if polledCommand cmd ∧ d.quiet then .ok []
      else do return [.frame true frame,← d.printCommand cmd]
    | .error (.error e) => .ok [.frame true frame,.error e]
    | .error (.panic p) => .error (.panic p)

def feedRecv (d : Decoder) (frame : Bytes) : Exec Empty (List Shown) :=
  match Packet.unframe frame with
  | .error _ => .ok []
  | .ok frame =>
    match Responses.fromBytes frame with
    | .ok resp =>
      if polledResponse resp ∧ d.quiet then .ok []
      else do return [.frame false frame,← printResponse resp]
    | .error (.error e) => .ok [.frame false frame,.error e]
    | .error (.panic p) => .error (.panic p)

end Decoder

/-! Printing a value. -/

section
variable {ε : Type}

theorem getU32_returns {b : Bytes} (h : 4 ≤ b.length) : ∃ r, (getU32 b : Exec ε _) = .ok r := by
  match b, h with
  | _ :: _ :: _ :: _ :: _, _ => exact ⟨_,rfl⟩

theorem getU32Le_returns {b : Bytes} (h : 4 ≤ b.length) :
    ∃ r, (getU32Le b : Exec ε _) = .ok r := by
  match b, h with
  | _ :: _ :: _ :: _ :: _, _ => exact ⟨_,rfl⟩

theorem Value.debug_returns {v : Value} (h : v.intoBytes ≠ []) : (v.debug : Exec ε _).Returns := by
  cases v with
  | unknown b =>
    obtain ⟨x,rest,rfl⟩ := List.exists_cons_of_ne_nil h
    by_cases h4 : 4 ≤ (x :: rest).length
    · obtain ⟨r,hr⟩ := getU32_returns (ε := ε) h4
      obtain ⟨r',hr'⟩ := getU32Le_returns (ε := ε) h4
      simp only [debug,intoBytes,h4,if_true,hr,hr',index]
      exact .ok _
    · simp only [debug,intoBytes,h4,if_false,index]
      exact .ok _
  | _ => exact .ok _

/-- Only a value without bytes is not printed. -/
theorem Value.debug_returns_iff (v : Value) : (v.debug : Exec ε _).Returns ↔ v.intoBytes ≠ [] := by
  refine ⟨fun h hnil => ?_,debug_returns⟩
  cases v with
  | unknown b =>
    obtain rfl : b = [] := hnil
    exact Exec.not_returns_panic _ h
  | _ => cases hnil

theorem mapM_debug_returns {vs : List Value} (h : ∀ v ∈ vs, v.intoBytes ≠ []) :
    (vs.mapM Value.debug : Exec ε _).Returns := by
  induction vs with
  | nil => exact .ok []
  | cons v vs ih =>
    rw [List.mapM_cons]
    refine (Value.debug_returns (h v (by simp))).bind fun _ _ => ?_
    exact (ih fun w hw => h w (by simp [hw])).bind fun _ _ => .ok _

end

/-! The values the parsers make. -/

namespace Commands

def EmptyWrite (b : Bytes) : Prop := ∃ x y, b = [0x13,x,y]

theorem readCoeffs_values {n : ℕ} {frame : Bytes} :
    (readCoeffs n frame).Yields fun r => ∀ v ∈ r.1.toList, v.intoBytes.length = 4 := by
  induction n with
  | zero => exact .ok (by simp)
  | succ n ih =>
    refine .bind fun r hr => .bind fun r' hr' => .ok fun v hv => ?_
    have hlen : r'.1.length = 4 := by
      unfold splitTo at hr'
      split_ifs at hr' with h4
      obtain rfl := Except.ok.inj hr'
      exact List.length_take_of_le h4
    simp only [Vector.toList_push,List.mem_append,List.mem_singleton] at hv
    rcases hv with hv | rfl
    · exact ih r hr v hv
    · exact hlen

theorem fromBytes_write (rest : Bytes) :
    (fromBytes (0x13 :: rest)).Yields fun c => ∃ addr value, c = .write addr value ∧
      (Addr.read rest (if 7 ≤ rest.length then 3 else 2) : Exec ProtocolError _) =
        .ok (addr,value.intoBytes) := by
  have heq : fromBytes (0x13 :: rest) = do
      let r ← Addr.read rest (if 7 ≤ rest.length then 3 else 2)
      let value ← Value.fromBytes r.2
      return .write r.1 value := rfl
  rw [heq]
  refine .bind fun r hr => .bind fun value hvalue => .ok ⟨r.1,value,rfl,?_⟩
  obtain ⟨value',hvalue',hbytes⟩ := Value.fromBytes_ok (ε := ProtocolError) r.2
  obtain rfl := Except.ok.inj (hvalue.symm.trans hvalue')
  rw [hbytes]
  exact hr

theorem fromBytes_wideWrite {x y z : UInt8} {value : Bytes} (hv : value.length = 4) :
    ∃ addr v, fromBytes (0x13 :: x :: y :: z :: value) = .ok (.write addr v) ∧
      v.intoBytes = value ∧ addr.val.toNat = (x &&& 0x0F).toNat*65536 + (u16Of y z).toNat := by
  obtain ⟨v,hfrom,hbytes⟩ := Value.fromBytes_ok (ε := ProtocolError) value
  have h7 : 7 ≤ (x :: y :: z :: value).length := by simp [hv]
  have h3 : ¬(3 : UInt8) = 2 := by decide
  refine ⟨⟨(x &&& 0x0F).toUInt32 <<< 16 ||| (u16Of y z).toUInt32,3,(x &&& 0x80) != 0⟩,v,?_,
    hbytes,Addr.val24_toNat _ _⟩
  simp only [fromBytes,tryGetU8_cons,bind,Except.bind,h7,if_true,Addr.read,h3,if_false,Addr.readU24,
    tryGetU16_cons,pure,Except.pure,hfrom]

theorem fromBytes_biquad (rest : Bytes) :
    (fromBytes (0x30 :: rest)).Yields fun c => ∀ v ∈ c.values, v.intoBytes.length = 4 := by
  have heq : fromBytes (0x30 :: rest) = do
      let r ← Addr.read rest (if 24 < rest.length then 3 else 2)
      let s ← tryGetU16 r.2
      let t ← readCoeffs 5 s.2
      return .writeBiquad r.1 t.1 := rfl
  rw [heq]
  exact .bind fun _ _ => .bind fun _ _ => .bind fun t ht => .ok (readCoeffs_values t ht)

theorem fromBytes_values {b : Bytes} (h : ¬EmptyWrite b) :
    (fromBytes b).Yields fun c => ∀ v ∈ c.values, v.intoBytes ≠ [] := by
  intro c hc v hv
  cases b with
  | nil => cases hc
  | cons id rest =>
    have hid := fromBytes_cmdId id rest c hc
    cases c with
    | writeBiquad addr data =>
      obtain rfl : 0x30 = id := hid
      have h4 := fromBytes_biquad rest _ hc v hv
      rintro hnil
      simp [hnil] at h4
    | write addr value =>
      obtain rfl : 0x13 = id := hid
      obtain ⟨a,w,hcw,hread⟩ := fromBytes_write rest _ hc
      obtain ⟨rfl,rfl⟩ := write.inj hcw
      obtain rfl := List.mem_singleton.mp hv
      intro hnil
      obtain ⟨-,hlen⟩ := Addr.read_ok hread
      rw [hnil,List.length_nil] at hlen
      split_ifs at hlen with h7
      · have : (3 : UInt8).toNat = 3 := rfl
        omega
      · obtain ⟨x,y,rfl⟩ := List.length_eq_two.mp hlen
        exact h ⟨x,y,rfl⟩
    | _ => simp [values] at hv

end Commands

theorem Responses.chunks4_ne_nil {frame x : Bytes} (h : x ∈ chunks4 frame) : x ≠ [] := by
  induction frame using chunks4.induct with
  | case1 a b c d rest ih =>
    rcases List.mem_cons.mp h with rfl | h
    · simp
    · exact ih h
  | case2 => simp [chunks4] at h
  | case3 short hshort hne =>
    rw [chunks4] at h
    · rwa [List.mem_singleton.mp h]
    · exact hshort
    · exact hne

theorem Responses.readValues_nonempty {frame : Bytes} {v : Value} (h : v ∈ readValues frame) :
    v.intoBytes ≠ [] := by
  obtain ⟨x,hx,hv⟩ := List.mem_filterMap.mp h
  obtain ⟨w,hw,hbytes⟩ := Value.fromBytes_ok (ε := TryGetError) x
  rw [hw] at hv
  obtain rfl := Option.some.inj hv
  exact hbytes ▸ chunks4_ne_nil hx

theorem Responses.fromBytes_values (b : Bytes) :
    (Responses.fromBytes b).Yields fun r => ∀ v ∈ r.values, v.intoBytes ≠ [] := by
  have hnone : ∀ {r : Responses}, r.values = [] → ∀ v ∈ r.values, v.intoBytes ≠ [] := by
    intro r hr v hv
    simp [hr] at hv
  cases b with
  | nil => exact .ok (hnone rfl)
  | cons id rest =>
    unfold fromBytes
    simp only
    split_ifs
    · exact .bind fun _ _ => .bind fun _ _ => .ok fun v hv => readValues_nonempty hv
    · exact .bind fun _ _ => .ok (hnone rfl)
    · exact .bind fun _ _ => .ok (hnone rfl)
    · exact .bind fun _ _ => .bind fun _ _ => .bind fun _ _ => .bind fun _ _ => .ok (hnone rfl)
    · exact .bind fun _ _ => .bind fun _ _ => .ok (hnone rfl)
    · exact .ok (hnone rfl)
    · exact .ok (hnone rfl)

namespace Decoder

theorem printCommand_returns (d : Decoder) {cmd : Commands}
    (h : ∀ v ∈ cmd.values, v.intoBytes ≠ []) : (d.printCommand cmd).Returns :=
  (mapM_debug_returns h).bind fun _ _ => .ok _

theorem printResponse_returns {resp : Responses} (h : ∀ v ∈ resp.values, v.intoBytes ≠ []) :
    (printResponse resp).Returns := (mapM_debug_returns h).bind fun _ _ => .ok _

/-- What is parsed from the bytes, as a command, a response or a value, is printed. -/
structure Prints (d : Decoder) (b : Bytes) : Prop where
  command : ∀ cmd, Commands.fromBytes b = .ok cmd → (d.printCommand cmd).Returns
  response : ∀ resp, Responses.fromBytes b = .ok resp → (printResponse resp).Returns
  value : ∀ v, (Value.fromBytes b : Exec TryGetError Value) = .ok v →
    (v.debug : Exec Empty Value.Text).Returns

theorem printCommand_emptyWrite (d : Decoder) {b : Bytes} (h : Commands.EmptyWrite b) :
    ∃ cmd, Commands.fromBytes b = .ok cmd ∧ ¬(d.printCommand cmd).Returns := by
  obtain ⟨x,y,rfl⟩ := h
  exact ⟨_,rfl,Exec.not_returns_panic (.index 0 0)⟩

/-- Everything that is parsed is printed, exactly but for a value of no bytes and a write of
it. -/
theorem prints_iff (d : Decoder) (b : Bytes) :
    d.Prints b ↔ b ≠ [] ∧ ¬Commands.EmptyWrite b := by
  obtain ⟨v,hv,hbytes⟩ := Value.fromBytes_ok (ε := TryGetError) b
  constructor
  · intro h
    refine ⟨?_,fun hempty => ?_⟩
    · rw [← hbytes]
      exact (Value.debug_returns_iff v).mp (h.value v hv)
    · obtain ⟨cmd,hcmd,hpanic⟩ := d.printCommand_emptyWrite hempty
      exact hpanic (h.command cmd hcmd)
  · rintro ⟨hne,hempty⟩
    refine ⟨fun cmd hcmd => ?_,fun resp hresp => ?_,fun w hw => ?_⟩
    · exact d.printCommand_returns (Commands.fromBytes_values hempty cmd hcmd)
    · exact printResponse_returns (Responses.fromBytes_values b resp hresp)
    · obtain rfl := Except.ok.inj (hv.symm.trans hw)
      exact Value.debug_returns (hbytes ▸ hne)

/-- A write to an address of two bytes, and nothing after it. -/
theorem empty_write_not_printed : ¬∀ (d : Decoder) (b : Bytes), d.Prints b := by
  intro h
  obtain ⟨cmd,hcmd,hpanic⟩ := printCommand_emptyWrite ⟨false,none⟩ ⟨0,0,rfl⟩
  exact hpanic ((h ⟨false,none⟩ [0x13,0,0]).command cmd hcmd)

theorem feedRecv_returns (d : Decoder) (frame : Bytes) : (d.feedRecv frame).Returns := by
  unfold feedRecv
  cases Packet.unframe frame with
  | error e => exact .ok []
  | ok b =>
    have hparse := Responses.fromBytes_returns b
    have hvalues := Responses.fromBytes_values b
    cases hb : Responses.fromBytes b with
    | error e =>
      cases e with
      | error e =>
        simp only [hb]
        exact .ok _
      | panic p => exact absurd hb (hparse p)
    | ok resp =>
      simp only [hb]
      split_ifs
      · exact .ok []
      · exact (printResponse_returns (hvalues resp hb)).bind fun _ _ => .ok _

theorem feedSent_returns {d : Decoder} {frame b : Bytes} (hb : Packet.unframe frame = .ok b)
    (hcut : ¬Commands.CutBiquad b) (hempty : ¬Commands.EmptyWrite b) :
    (d.feedSent frame).Returns := by
  have hparse := Commands.fromBytes_returns hcut
  have hvalues := Commands.fromBytes_values hempty
  cases hc : Commands.fromBytes b with
  | error e =>
    cases e with
    | error e =>
      simp only [feedSent,hb,hc]
      exact .ok _
    | panic p => exact absurd hc (hparse p)
  | ok cmd =>
    simp only [feedSent,hb,hc]
    split_ifs
    · exact .ok []
    · exact (d.printCommand_returns (hvalues cmd hc)).bind fun _ _ => .ok _

/-- Being quiet does not help: writes are printed. -/
theorem feedSent_panics {d : Decoder} {frame b : Bytes} (hb : Packet.unframe frame = .ok b)
    (h : Commands.CutBiquad b ∨ Commands.EmptyWrite b) : ¬(d.feedSent frame).Returns := by
  rcases h with hcut | ⟨x,y,rfl⟩
  · obtain ⟨p,hp⟩ := Commands.fromBytes_cutBiquad hcut
    simp only [feedSent,hb,hp]
    exact Exec.not_returns_panic p
  · simp only [feedSent,hb]
    exact Exec.not_returns_panic (.index 0 0)

/-- The frames the decoder gets through, whichever way they went. -/
theorem feed_returns_iff (d : Decoder) {frame b : Bytes} (hb : Packet.unframe frame = .ok b) :
    ((d.feedSent frame).Returns ∧ (d.feedRecv frame).Returns) ↔
      ¬Commands.CutBiquad b ∧ ¬Commands.EmptyWrite b := by
  constructor
  · rintro ⟨hsent,-⟩
    constructor
    · exact fun hcut => feedSent_panics hb (Or.inl hcut) hsent
    · exact fun hempty => feedSent_panics hb (Or.inr hempty) hsent
  · rintro ⟨hcut,hempty⟩
    exact ⟨feedSent_returns hb hcut hempty,feedRecv_returns d frame⟩

end Decoder
end Minidsp
