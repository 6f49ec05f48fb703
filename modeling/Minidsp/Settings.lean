import Minidsp.ConfigItems
import Minidsp.Effects
import Minidsp.FirUpload

/-! What the items of a configuration leave in a device that stores what it is sent: each the
setting of its control, up to the first that cannot be performed. -/
namespace Minidsp

open Buffer Dialogue

/-- A place in the memory of a device: a word, or the bypass of a filter. -/
inductive Cell
  | word (i : ℕ)
  | flag (i : ℕ)
  deriving DecidableEq, Repr

inductive Put
  | words (addr : Addr) (data : List Value)
  | flag (addr : Addr) (value : Bool)
  deriving DecidableEq, Repr

def Put.at? : Put → Cell → Option (Value ⊕ Bool)
  | .words addr data, .word i =>
    if addr.val.toNat ≤ i then data[i - addr.val.toNat]?.map .inl else none
  | .flag addr value, .flag i => if addr.val.toNat = i then some (.inr value) else none
  | .words .., .flag _ | .flag .., .word _ => none

namespace Peq.Memory

def put (m : Memory) : Put → Memory
  | .words addr data => { m with words := Overlay.store m.words ⟨addr.val.toNat,data⟩ }
  | .flag addr value => m.setBypass addr value

def read (m : Memory) : Cell → Value ⊕ Bool
  | .word i => .inl (m.words i)
  | .flag i => .inr (m.bypassed i)

theorem store_of_le {m : ℕ → Value} {start i : ℕ} {data : List Value} (h : start ≤ i) :
    Overlay.store m ⟨start,data⟩ i = data[i - start]?.getD (m i) := by
  rw [Overlay.store]
  by_cases hcovers : (Overlay.Write.mk start data).Covers i
  · rw [if_pos hcovers,List.getD_eq_getElem?_getD]
  · have hlen : data.length ≤ i - start := by
      have hstop : ¬i < start + data.length := fun hlt => hcovers ⟨h,hlt⟩
      omega
    rw [if_neg hcovers,List.getElem?_eq_none hlen]
    rfl

theorem read_put (m : Memory) (p : Put) (cell : Cell) :
    (m.put p).read cell = (p.at? cell).getD (m.read cell) := by
  cases p with
  | words addr data =>
    cases cell with
    | flag i => rfl
    | word i =>
      rw [Put.at?]
      by_cases hle : addr.val.toNat ≤ i
      · rw [if_pos hle]
        refine (congrArg Sum.inl (store_of_le hle)).trans ?_
        rw [read]
        cases data[i - addr.val.toNat]? <;> rfl
      · rw [if_neg hle]
        exact congrArg Sum.inl (if_neg fun hcovers => hle hcovers.1)
  | flag addr value =>
    cases cell with
    | word i => rfl
    | flag i =>
      rw [Put.at?]
      by_cases h : addr.val.toNat = i
      · rw [if_pos h]
        exact congrArg Sum.inr (by rw [← h]; exact Function.update_self _ _ _)
      · rw [if_neg h]
        exact congrArg Sum.inr (Function.update_of_ne (Ne.symm h) _ _)

end Peq.Memory

namespace Commands

/-- What a command leaves in the memory; those that are not sent for a configuration may do
anything. -/
def puts : Commands → Option (List Put)
  | .write addr value => some [.words addr [value]]
  | .writeBiquad addr data => some [.words addr data.toList]
  | .writeBiquadBypass addr value => some [.flag addr value]
  | .readMemory .. | .firLoadStart _ | .firLoadData .. | .firLoadEnd | .setMute _ => some []
  | _ => none

/-- The responses that match, from a device with room for so many coefficients of a filter. -/
def Answers (room : UInt8 → ℕ) (q : Commands) (r : Responses) : Prop :=
  q.matchesResponse r = true ∧
    ∀ index size, q = .firLoadStart index → r = .firLoadSize size → size.toNat = room index

end Commands

/-! The calls of a configuration, whatever they are answered. -/

section
variable {room : UInt8 → ℕ}

theorem acknowledged_yields {q : Commands} {ps : List Put} (hq : q.puts = some ps)
    (hack : ∀ r, q.matchesResponse r = true → r = .ack) :
    Yields (Commands.Answers room) Commands.puts (acknowledged q) (· = .ok ()) ps := by
  refine (Yields.roundtrip hq).bind_silent ?_
  rintro _ ⟨r,rfl,hr,-⟩
  obtain rfl := hack r hr
  exact ⟨.ack,rfl,rfl,rfl⟩

theorem mute_reported (info : DeviceInfo) {view : MemoryView} (hbase : view.base = Eeprom.preset)
    (hlen : view.data.length = 9) :
    ∃ mute, (MasterStatus.fromMemory info view).mute = some mute := by
  have hbyte : view.readU8 Eeprom.mute =
      view.data[Eeprom.mute.toNat - Eeprom.preset.toNat]? := by
    rw [MemoryView.readU8_eq (by rw [hbase]; decide),hbase]
  have hin : Eeprom.mute.toNat - Eeprom.preset.toNat < view.data.length := by
    rw [hlen]
    decide
  rw [List.getElem?_eq_getElem hin] at hbyte
  exact ⟨_,by rw [MasterStatus.fromMemory,hbyte]; rfl⟩

theorem getMasterStatus_yields (dsp : MiniDSP) :
    Yields (Commands.Answers room) Commands.puts dsp.getMasterStatus
      (fun x => ∃ status mute, x = .ok status ∧ status.mute = some mute) [] := by
  have hmemory : Yields (Commands.Answers room) Commands.puts (Client.readMemory Eeprom.preset 9)
      (fun x => ∃ view : MemoryView, x = .ok view ∧ view.base = Eeprom.preset ∧
        view.data.length = 9) [] := by
    rw [Client.readMemory]
    refine Yields.silent_bind (Yields.roundtrip rfl) ?_
    rintro _ ⟨r,rfl,hr,-⟩
    cases r with
    | memoryData view =>
      simp only [Commands.matchesResponse,Bool.and_eq_true,beq_iff_eq] at hr
      exact ⟨_,rfl,⟨view,rfl,hr⟩,rfl⟩
    | _ => simp [Commands.matchesResponse] at hr
  refine hmemory.silent_bind ?_
  rintro _ ⟨view,rfl,hbase,hlen⟩
  obtain ⟨mute,hmute⟩ := mute_reported dsp.deviceInfo hbase hlen
  exact ⟨view,rfl,⟨_,mute,rfl,hmute⟩,rfl⟩

theorem firLoadStart_yields (fir : Device.Fir) :
    Yields (Commands.Answers room) Commands.puts
      (Dialogue.roundtrip (.firLoadStart fir.index) >>= fun r => Client.expect r.intoFirSize)
      (fun x => ∃ size : UInt16, x = .ok size ∧ size.toNat = room fir.index) [] := by
  refine Yields.silent_bind (Yields.roundtrip rfl) ?_
  rintro _ ⟨r,rfl,hr,hroom⟩
  cases r with
  | firLoadSize size => exact ⟨_,rfl,⟨size,rfl,hroom _ _ rfl rfl⟩,rfl⟩
  | _ => simp [Commands.matchesResponse] at hr

theorem load_yields (fir : Device.Fir) (coefficients : List F32Bits) {status : MasterStatus}
    {mute : Bool} (hmute : status.mute = some mute) :
    Yields (Commands.Answers room) Commands.puts (MiniDSP.load fir coefficients status)
      (· = .ok ()) [] := by
  have hquiet : ∀ {q : Commands}, q.puts = some [] → (∀ r, q.matchesResponse r = true → r = .ack) →
      Yields (Commands.Answers room) Commands.puts
        (Dialogue.roundtrip q >>= fun r => Client.expect r.intoAck) (· = .ok ()) [] :=
    fun hq hack => acknowledged_yields hq hack
  have hblocks : Yields (Commands.Answers room) Commands.puts
      (forM (chunks 14 coefficients) fun block =>
        Dialogue.roundtrip (.firLoadData fir.index block) >>= fun r => Client.expect r.intoAck)
      (· = .ok ()) [] := by
    have hnone : (chunks 14 coefficients).flatMap (fun _ => ([] : List Put)) = [] :=
      List.flatMap_eq_nil_iff.mpr fun _ _ => rfl
    rw [← hnone]
    exact Yields.forEach fun block _ =>
      hquiet (q := .firLoadData fir.index block) rfl fun _ => eq_ack_of_beq
  refine hblocks.silent_bind ?_
  rintro _ rfl
  refine ⟨(),rfl,(hquiet rfl fun _ => eq_ack_of_beq).silent_bind ?_⟩
  rintro _ rfl
  refine ⟨(),rfl,?_⟩
  rw [hmute]
  exact acknowledged_yields rfl fun _ => eq_ack_of_beq

/-- What the load of a filter comes to: the number of its taps is set first, and then it is asked
whether there is room for them. -/
theorem setCoefficients_yields (dsp : MiniDSP) (fir : Device.Fir) (coefficients : List F32Bits) :
    Yields (Commands.Answers room) Commands.puts (dsp.setCoefficients fir coefficients)
      (· = Outcome.of (if room fir.index < coefficients.length then
        .error (.error .tooManyCoefficients) else .ok ()))
      [.words (dsp.addr fir.numCoefficients) [.int (UInt16.ofNat coefficients.length)]] := by
  rw [setCoefficients_eq]
  refine (getMasterStatus_yields dsp).silent_bind ?_
  rintro _ ⟨status,mute,rfl,hmute⟩
  refine ⟨status,rfl,?_⟩
  have htaps : Yields (Commands.Answers room) Commands.puts
      (dsp.writeDspInt fir.numCoefficients (UInt16.ofNat coefficients.length)) (· = .ok ())
      [.words (dsp.addr fir.numCoefficients) [.int (UInt16.ofNat coefficients.length)]] :=
    acknowledged_yields rfl fun _ => eq_ack_of_beq
  refine htaps.bind_silent ?_
  rintro _ rfl
  refine ⟨(),rfl,(firLoadStart_yields fir).silent_bind ?_⟩
  rintro _ ⟨size,rfl,hsize⟩
  refine ⟨size,rfl,?_⟩
  rw [hsize]
  by_cases hroom : room fir.index < coefficients.length
  · rw [if_pos hroom,if_pos hroom]
    exact Yields.done rfl
  · rw [if_neg hroom,if_neg hroom]
    exact load_yields fir coefficients hmute

end

namespace Model

/-- Loading a filter sets the number of its taps. -/
def Item.setting : Item → Option Setting
  | .reject _ | .need _ => none
  | .set setting => some setting
  | .load i coefficients => some (.word (.firTaps i) (.int (UInt16.ofNat coefficients.length)))

section
variable (dsp : MiniDSP) (room : UInt8 → ℕ)

def Setting.puts (setting : Setting) : List Put :=
  match setting.command dsp with
  | .ok q => q.puts.getD []
  | .error _ => []

def Item.puts (item : Item) : List Put := item.setting.toList.flatMap (Setting.puts dsp)

def Item.outcome : Item → Lookup Unit
  | .reject e => .error (.error e)
  | .need part => part.find dsp
  | .set setting => do let _ ← setting.command dsp; return ()
  | .load i coefficients => do
    let fir ← firSpec dsp i
    if room fir.index < coefficients.length then .error (.error .tooManyCoefficients) else .ok ()

def performed : List Item → List Item
  | [] => []
  | item :: items => item :: match item.outcome dsp room with
    | .ok () => performed items
    | .error _ => []

def outcome (items : List Item) : Lookup Unit := forM items (Item.outcome dsp room)

end

section
variable {dsp : MiniDSP} {room : UInt8 → ℕ}

theorem command_puts {setting : Setting} {q : Commands} (h : setting.command dsp = .ok q) :
    (∃ p, q.puts = some [p]) ∧ ∀ r, q.matchesResponse r = true → r = .ack := by
  have hbind : ∀ {x : Lookup UInt16} {f : UInt16 → Commands},
      (do let a ← x; return f a) = Except.ok q → ∃ a, q = f a := by
    intro x f hx
    cases x with
    | error e => cases hx
    | ok a => exact ⟨a,(Except.ok.inj hx).symm⟩
  cases setting with
  | word c value =>
    obtain ⟨a,rfl⟩ := hbind h
    exact ⟨⟨_,rfl⟩,fun _ => eq_ack_of_beq⟩
  | filter c data =>
    obtain ⟨a,rfl⟩ := hbind h
    exact ⟨⟨_,rfl⟩,fun _ => eq_ack_of_beq⟩
  | flag c value =>
    obtain ⟨a,rfl⟩ := hbind h
    exact ⟨⟨_,rfl⟩,fun _ => eq_ack_of_beq⟩

theorem set_yields (setting : Setting) :
    Yields (Commands.Answers room) Commands.puts ((Item.set setting).perform dsp)
      (· = Outcome.of ((Item.set setting).outcome dsp room)) (setting.puts dsp) := by
  rw [Item.perform,Item.outcome,Setting.puts]
  cases hcommand : setting.command dsp with
  | error x => cases x <;> exact ⟨rfl,rfl⟩
  | ok q =>
    obtain ⟨⟨p,hp⟩,hack⟩ := command_puts hcommand
    have hputs : q.puts.getD [] = [p] := by rw [hp]; rfl
    have hq : Yields (Commands.Answers room) Commands.puts (acknowledged q) (· = .ok ()) [p] :=
      acknowledged_yields hp hack
    rwa [← hputs] at hq

theorem load_item_yields (i : ℕ) (coefficients : List F32Bits) :
    Yields (Commands.Answers room) Commands.puts ((Item.load i coefficients).perform dsp)
      (· = Outcome.of ((Item.load i coefficients).outcome dsp room))
      ((Item.load i coefficients).puts dsp) := by
  have hputs : (Item.load i coefficients).puts dsp =
      Setting.puts dsp (.word (.firTaps i) (.int (UInt16.ofNat coefficients.length))) := by
    simp [Item.puts,Item.setting]
  rw [Item.perform,Item.outcome,hputs,Setting.puts,Setting.command,WordControl.addr]
  cases firSpec dsp i with
  | error x => cases x <;> exact ⟨rfl,rfl⟩
  | ok fir => exact setCoefficients_yields dsp fir coefficients

theorem perform_yields (item : Item) :
    Yields (Commands.Answers room) Commands.puts (item.perform dsp)
      (· = Outcome.of (item.outcome dsp room)) (item.puts dsp) := by
  cases item with
  | reject e => exact ⟨rfl,rfl⟩
  | need part => exact Yields.lift rfl
  | set setting =>
    rw [Item.puts,Item.setting,Option.toList_some,List.flatMap_singleton]
    exact set_yields setting
  | load i coefficients => exact load_item_yields i coefficients

theorem performAll_yields (items : List Item) :
    Yields (Commands.Answers room) Commands.puts (performAll dsp items)
      (· = Outcome.of (outcome dsp room items))
      ((performed dsp room items).flatMap (Item.puts dsp)) := by
  induction items with
  | nil => exact Yields.done rfl
  | cons item items ih =>
    have hitem : Yields (Commands.Answers room) Commands.puts (item.perform dsp)
        (· = Outcome.of (item.outcome dsp room)) (item.puts dsp) := perform_yields item
    rw [performAll_cons,outcome,List.forM_cons,performed,List.flatMap_cons]
    cases hout : item.outcome dsp room with
    | error x =>
      rw [hout] at hitem
      rw [List.flatMap_nil,List.append_nil]
      exact hitem.bind_fault _
    | ok u =>
      rw [hout] at hitem
      refine hitem.bind ?_
      rintro _ rfl
      exact ⟨(),rfl,ih⟩

end
end Model
end Minidsp
