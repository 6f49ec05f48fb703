import Minidsp.Channels
import Minidsp.FirUpload
import Minidsp.FrameTurn
import Minidsp.Levels

/-! The readers of the high-level interface, for a device that sends any frames: what reaches
them has passed `matchesResponse`, and holds every address they read. -/
namespace Minidsp

open Buffer Dialogue

/-! The guards of the reads of a view keep them from a panic. -/
namespace MemoryView

section
variable {ε : Type} (view : MemoryView)

theorem tryReadAt_eq (addr : UInt16) (len : UInt8) :
    (view.tryReadAt addr len : Exec ε _) = .ok (view.readAt addr len) := by
  unfold tryReadAt readAt
  by_cases hout : addr < view.base ∨ view.base.toNat + view.data.length < addr.toNat
  · rw [if_pos hout,if_pos hout]
    rfl
  · rw [if_neg hout,if_neg hout]
    have hle : view.base ≤ addr := UInt16.not_lt.mp fun h => hout (Or.inl h)
    obtain ⟨start,hstart,hval⟩ := subU16_ok (ε := ε) hle
    simp only [hstart,bind,Except.bind,← hval]
    split_ifs with hstop
    · rfl
    · rw [slice_ok (by omega) (by omega)]
      rfl

theorem readAt_length {addr : UInt16} {len : UInt8} {b : Bytes}
    (h : view.readAt addr len = some b) : b.length = len.toNat := by
  simp only [readAt] at h
  split_ifs at h with hout hstop
  obtain rfl := Option.some.inj h
  rw [List.length_drop,List.length_take]
  omega

theorem tryReadU8_eq (addr : UInt16) :
    (view.tryReadU8 addr : Exec ε _) = .ok (view.readU8 addr) := by
  rw [tryReadU8,tryReadAt_eq,readU8]
  cases h : view.readAt addr 1 with
  | none => rfl
  | some b =>
    have hlen : b.length = 1 := view.readAt_length h
    obtain ⟨x,rfl⟩ := List.length_eq_one_iff.mp hlen
    rfl

theorem readAt_isSome {addr : UInt16} {len : UInt8} (hle : view.base ≤ addr)
    (hlen : addr.toNat - view.base.toNat + len.toNat ≤ view.data.length) :
    (view.readAt addr len).isSome := by
  have hle' : view.base.toNat ≤ addr.toNat := hle
  have hnlt : ¬addr < view.base := UInt16.not_lt.mpr hle
  have hout : ¬(addr < view.base ∨ view.base.toNat + view.data.length < addr.toNat) := by
    rintro (h | h)
    · exact hnlt h
    · omega
  simp only [readAt,if_neg hout,if_neg (Nat.not_lt.mpr hlen),Option.isSome_some]

theorem readU8_isSome {addr : UInt16} (hle : view.base ≤ addr)
    (hlen : addr.toNat - view.base.toNat < view.data.length) : (view.readU8 addr).isSome := by
  rw [readU8_eq hle,List.getElem?_eq_getElem hlen]
  rfl

/-- The array of the bytes is never of another length. -/
theorem readU16_of_some {addr : UInt16} {b : Bytes} (h : view.readAt addr 2 = some b) :
    ∃ x, (view.readU16 addr : Exec ε _) = .ok (some x) := by
  have htwo : b.length = 2 := view.readAt_length h
  obtain ⟨hi,lo,rfl⟩ := List.length_eq_two.mp htwo
  exact ⟨u16Of hi lo,by rw [readU16,tryReadAt_eq,h]; rfl⟩

theorem readU16_returns (addr : UInt16) : ∃ x, (view.readU16 addr : Exec ε _) = .ok x := by
  cases h : view.readAt addr 2 with
  | none => exact ⟨none,by rw [readU16,tryReadAt_eq,h]; rfl⟩
  | some b =>
    obtain ⟨x,hx⟩ := view.readU16_of_some h
    exact ⟨some x,hx⟩

theorem readU16_isSome {addr : UInt16} (hle : view.base ≤ addr)
    (hlen : addr.toNat - view.base.toNat + 2 ≤ view.data.length) :
    ∃ x, (view.readU16 addr : Exec ε _) = .ok (some x) := by
  have hsome : (view.readAt addr 2).isSome := view.readAt_isSome hle hlen
  obtain ⟨b,hb⟩ := Option.isSome_iff_exists.mp hsome
  exact view.readU16_of_some hb

end
end MemoryView

/-! What holds of every answer that matches. -/

abbrev SafeCall {α : Type} (φ : α → Prop) (p : Call α) : Prop :=
  Safe (fun q r => q.matchesResponse r = true) φ p

namespace Client

theorem expect_safe {α : Type} {φ : α → Prop} {x : Except ProtocolError α}
    (h : ∀ a, x = .ok a → φ a) : SafeCall φ (expect x) := by
  cases x with
  | ok a => exact h a rfl
  | error e => trivial

theorem lift_safe {α : Type} {φ : α → Prop} {x : Exec MiniDSPError α} {a : α} (hx : x = .ok a)
    (h : φ a) : SafeCall φ (.lift x) := by
  subst hx
  exact h

theorem unwrap_safe {α : Type} {φ : α → Prop} {x : Option α} {a : α} (hx : x = some a)
    (h : φ a) : SafeCall φ (unwrap x) := by
  subst hx
  exact h

/-- A view of memory that was asked for starts and ends where it was asked to. -/
theorem readMemory_safe (addr : UInt16) (size : UInt8) :
    SafeCall (fun view => view.base = addr ∧ view.data.length = size.toNat)
      (readMemory addr size) := by
  refine (Safe.roundtrip _).bind fun r hr => expect_safe fun view hview => ?_
  cases r with
  | memoryData data =>
    obtain rfl := Except.ok.inj hview
    simpa [Commands.matchesResponse] using hr
  | _ => cases hview

theorem readFloats_safe (addr : UInt16) (len : UInt8) :
    SafeCall (fun view => view.base = addr ∧ view.data.length = len.toNat)
      (readFloats addr len) := by
  refine (Safe.roundtrip _).bind fun r hr => expect_safe fun view hview => ?_
  cases r with
  | floatData data =>
    obtain rfl := Except.ok.inj hview
    simpa [Commands.matchesResponse] using hr
  | _ => cases hview

theorem get_ok {view : FloatView} {a : UInt16} (hle : view.base ≤ a)
    (hlen : a.toNat - view.base.toNat < view.data.length) :
    ∃ x, (view.get a : Exec MiniDSPError _) = .ok x := by
  obtain ⟨d,hd,hval⟩ := subU16_ok (ε := MiniDSPError) hle
  refine ⟨view.data[a.toNat - view.base.toNat],?_⟩
  simp only [FloatView.get,hd,bind,Except.bind,hval,List.getElem?_eq_getElem hlen]
  rfl

theorem getAll_ok {view : FloatView} {chunk : List UInt16}
    (h : ∀ a ∈ chunk, view.base ≤ a ∧ a.toNat - view.base.toNat < view.data.length) :
    ∃ values, (chunk.mapM view.get : Exec MiniDSPError _) = .ok values := by
  induction chunk with
  | nil => exact ⟨[],rfl⟩
  | cons a chunk ih =>
    obtain ⟨hle,hlen⟩ := h a (by simp)
    obtain ⟨x,hx⟩ := get_ok hle hlen
    obtain ⟨xs,hxs⟩ := ih fun b hb => h b (by simp [hb])
    exact ⟨x :: xs,by rw [List.mapM_cons,hx,hxs]; rfl⟩

theorem readGroup_safe {group : UInt16 × List UInt16} (hgroup : Coverable group) :
    SafeCall (fun _ => True) (readGroup group) := by
  refine (readFloats_safe _ _).bind fun view hview => ?_
  have hinside : ∀ a ∈ group.1 :: group.2,
      view.base ≤ a ∧ a.toNat - view.base.toNat < view.data.length := by
    rw [hview.1,hview.2]
    exact hgroup.covered
  obtain ⟨values,hvalues⟩ := getAll_ok hinside
  exact lift_safe hvalues trivial

theorem readChunks_safe {fuel : ℕ} {addrs : List UInt16} (hsorted : addrs.Pairwise (· ≤ ·)) :
    SafeCall (fun _ => True) (readChunks fuel addrs) := by
  induction fuel generalizing addrs with
  | zero => trivial
  | succ fuel ih =>
    cases addrs with
    | nil =>
      refine (lift_safe (φ := fun x => x = ([],[])) rfl rfl).bind fun x hx => ?_
      subst hx
      trivial
    | cons first addrs =>
      have hgroup := coverable_takeWhile hsorted
      have hdrop := List.dropWhile_sublist (l := addrs) fun a => decide (Within first a)
      rw [readChunks_cons hsorted]
      exact (readGroup_safe hgroup).bind fun _ _ =>
        (ih (hsorted.tail.sublist hdrop)).bind fun _ _ => trivial

theorem readFloatsMulti_safe (addrs : List UInt16) :
    SafeCall (fun _ => True) (readFloatsMulti addrs) := readChunks_safe (sorted_mergeSort addrs)

theorem getDeviceInfo_safe : SafeCall (fun _ => True) getDeviceInfo := by
  refine (Safe.roundtrip _).bind fun r _ =>
    (expect_safe (φ := fun _ => True) fun _ _ => trivial).bind fun hwId _ => ?_
  refine (readMemory_safe _ _).bind fun dspVersionView hversion => ?_
  refine (readMemory_safe _ _).bind fun serialView hserial => ?_
  have hisSome : (dspVersionView.readU8 Eeprom.firmwareVersion).isSome :=
    dspVersionView.readU8_isSome (by rw [hversion.1]; exact UInt16.le_refl _)
      (by rw [hversion.1,hversion.2]; decide)
  obtain ⟨version,hversion⟩ := Option.isSome_iff_exists.mp hisSome
  refine (lift_safe (φ := fun x => x = some version)
    (dspVersionView.tryReadU8_eq _) hversion).bind fun x hx => ?_
  refine (unwrap_safe (φ := fun _ => True) hx trivial).bind fun _ _ => ?_
  obtain ⟨short,hshort⟩ : ∃ x, serialView.readU16 Eeprom.serialShort = .ok (some x) :=
    serialView.readU16_isSome (ε := MiniDSPError) (by rw [hserial.1]; exact UInt16.le_refl _)
      (by rw [hserial.1,hserial.2]; decide)
  refine (lift_safe (φ := fun x => x = some short) hshort rfl).bind fun x hx => ?_
  refine (unwrap_safe (φ := fun _ => True) hx trivial).bind fun x _ => ?_
  exact (lift_safe (φ := fun _ => True) (addU32_serial x) trivial).bind fun _ _ => trivial

end Client

namespace MiniDSP

theorem getMasterStatus_safe (dsp : MiniDSP) : SafeCall
    (fun status => status.preset.isSome ∧ status.mute.isSome) dsp.getMasterStatus := by
  refine (Client.readMemory_safe _ _).bind fun view hview => Safe.pure ?_
  have hinside : ∀ addr, Eeprom.preset ≤ addr → addr.toNat - Eeprom.preset.toNat < 9 →
      (view.readU8 addr).isSome := by
    intro addr hle hlt
    exact view.readU8_isSome (by rw [hview.1]; exact hle) (by rw [hview.1,hview.2]; exact hlt)
  refine ⟨hinside _ (UInt16.le_refl _) (by decide),?_⟩
  rw [MasterStatus.fromMemory,Option.isSome_map]
  exact hinside _ (by decide) (by decide)

theorem awaitConfig_safe (dsp : MiniDSP) (config : UInt8) (polls : ℕ) :
    SafeCall (fun _ => True) (dsp.awaitConfig config polls) := by
  induction polls with
  | zero => trivial
  | succ polls ih =>
    refine dsp.getMasterStatus_safe.bind fun status hstatus => ?_
    obtain ⟨preset,hpreset⟩ := Option.isSome_iff_exists.mp hstatus.1
    refine (Client.unwrap_safe (φ := fun _ => True) hpreset trivial).bind fun x _ => ?_
    split_ifs
    · trivial
    · exact ih

theorem setConfig_safe (dsp : MiniDSP) (polls : ℕ) (config : UInt8) :
    SafeCall (fun _ => True) (dsp.setConfig polls config) :=
  (Safe.roundtrip _).bind fun _ _ =>
    (Client.expect_safe (φ := fun _ => True) fun _ _ => trivial).bind fun _ _ =>
      dsp.awaitConfig_safe config polls

theorem expected_safe {α : Type} (cmd : Commands) (f : Responses → Except ProtocolError α) :
    SafeCall (fun _ => True) (Dialogue.roundtrip cmd >>= fun r => Client.expect (f r)) :=
  (Safe.roundtrip _).bind fun _ _ => Client.expect_safe fun _ _ => trivial

theorem setCoefficients_safe (dsp : MiniDSP) (fir : Device.Fir) (coefficients : List F32Bits) :
    SafeCall (fun _ => True) (dsp.setCoefficients fir coefficients) := by
  rw [setCoefficients_eq]
  refine dsp.getMasterStatus_safe.bind fun status hstatus => ?_
  obtain ⟨mute,hmute⟩ := Option.isSome_iff_exists.mp hstatus.2
  refine (expected_safe _ _).bind fun _ _ => (expected_safe _ _).bind fun size _ => ?_
  split_ifs
  · trivial
  · refine (Safe.forEach fun _ _ => expected_safe _ _).bind fun _ _ => ?_
    refine (expected_safe _ _).bind fun _ _ => ?_
    exact (Client.unwrap_safe (φ := fun _ => True) hmute trivial).bind fun _ _ =>
      expected_safe _ _

end MiniDSP

theorem Compressor.getLevel_safe (spec : Device.Compressor) :
    SafeCall (fun _ => True) (Compressor.getLevel spec) := by
  unfold Compressor.getLevel okOr
  cases spec.meter with
  | none => trivial
  | some meter =>
    refine (Safe.pure (φ := fun a => a = meter) rfl).bind fun a ha => ?_
    subst ha
    rw [← bind_assoc]
    refine (Client.readFloats_safe a 1).bind fun view hview => ?_
    obtain ⟨x,hx⟩ : ∃ x, view.get a = .ok x :=
      Client.get_ok (by rw [hview.1]; exact UInt16.le_refl _) (by rw [hview.1,hview.2]; simp)
    exact Client.lift_safe hx trivial

/-! Devices behind the multiplexer. -/

namespace Multiplexer

/-- Some run of the multiplexer gave the response to a call with the command. -/
def Gave (cmd : Commands) (r : Responses) : Prop :=
  ∃ s, Transition.Reachable step init s ∧ ∃ i, ((cmd,i),.ok r) ∈ s.oneshots

theorem Gave.matches {cmd : Commands} {r : Responses} (h : Gave cmd r) :
    cmd.matchesResponse r = true := by
  obtain ⟨s,hs,i,hmem⟩ := h
  exact (reachable_valid hs).accepted hmem

def receive (s : State) (frames : List Bytes) : State :=
  frames.foldl (fun s f => (frameTurn s f).getD s) s

theorem frameTurn_enqueued {s t : State} {f : Bytes} (h : frameTurn s f = some t) :
    t.enqueued = s.enqueued := by
  obtain ⟨item,hitem⟩ := frameTurn_step h
  cases item with
  | ok data =>
    obtain ⟨-,rfl⟩ := recv_ok_iff.mp hitem
    exact dispatch_enqueued s data
  | error e =>
    obtain ⟨-,rfl | rfl⟩ := recv_error hitem <;> rfl

theorem receive_reachable {s : State} (hs : Transition.Reachable step init s)
    (frames : List Bytes) : Transition.Reachable step init (receive s frames) ∧
      (receive s frames).enqueued = s.enqueued := by
  induction frames generalizing s with
  | nil => exact ⟨hs,rfl⟩
  | cons f frames ih =>
    cases h : frameTurn s f with
    | none =>
      simp only [receive,List.foldl_cons,h,Option.getD_none]
      exact ih hs
    | some t =>
      obtain ⟨item,hitem⟩ := frameTurn_step h
      simp only [receive,List.foldl_cons,h,Option.getD_some]
      exact ⟨(ih (hs.tail hitem)).1,(ih (hs.tail hitem)).2.trans (frameTurn_enqueued h)⟩

def roundtrip (frames : List Bytes) (cmd : Commands) : Except MiniDSPError Responses :=
  ((receive (push init 0 cmd) frames).reply 0).getD (.error .transportClosed)

theorem roundtrip_gave {frames : List Bytes} {cmd : Commands} {r : Responses}
    (h : roundtrip frames cmd = .ok r) : Gave cmd r := by
  have hpush : Transition.Reachable step init (push init 0 cmd) := ⟨[.enqueue 0 cmd],rfl⟩
  obtain ⟨hs,henqueued⟩ := receive_reachable hpush frames
  cases hr : (receive (push init 0 cmd) frames).reply 0 with
  | none => simp [roundtrip,hr] at h
  | some x =>
    obtain rfl : x = .ok r := by simpa [roundtrip,hr] using h
    obtain ⟨cmd',hmem⟩ := mem_of_reply hr
    have hin : (cmd',0) ∈ (push init 0 cmd).enqueued := by
      rw [← henqueued,(reachable_valid hs).fifo]
      exact List.mem_append_left _ (List.mem_map_of_mem hmem)
    obtain ⟨rfl,-⟩ := Prod.mk.inj (List.mem_singleton.mp hin)
    exact ⟨_,hs,0,hmem⟩

end Multiplexer

/-- A device whose answers come out of the multiplexer, whatever frames it sent and whoever
else asked. -/
structure Served (σ : Type) where
  answer : Dialogue.Device σ Commands Responses MiniDSPError
  gave : ∀ s cmd r, (answer s cmd).1 = .ok r → Multiplexer.Gave cmd r

/-- A device that sends the frames of a script, the next of them after each command. -/
def Served.ofFrames : Served (List (List Bytes)) where
  answer script cmd := (Multiplexer.roundtrip (script.headD []) cmd,script.tail)
  gave _ _ _ h := Multiplexer.roundtrip_gave h

inductive Reader
  | getDeviceInfo
  | readFloatsMulti (addrs : List UInt16)
  | getMasterStatus
  | setConfig (polls : ℕ) (config : UInt8)
  | getLevel (spec : Device.Compressor)
  | setCoefficients (spec : Device.Fir) (coefficients : List F32Bits)

namespace Reader

def call (dsp : MiniDSP) : Reader → Call Unit
  | getDeviceInfo => Client.getDeviceInfo *> pure ()
  | readFloatsMulti addrs => Client.readFloatsMulti addrs *> pure ()
  | getMasterStatus => dsp.getMasterStatus *> pure ()
  | setConfig polls config => dsp.setConfig polls config
  | getLevel spec => Compressor.getLevel spec *> pure ()
  | setCoefficients spec coefficients => dsp.setCoefficients spec coefficients

theorem call_safe (dsp : MiniDSP) (r : Reader) : SafeCall (fun _ => True) (r.call dsp) := by
  have hvoid : ∀ {α : Type} {φ : α → Prop} {p : Call α}, SafeCall φ p →
      SafeCall (fun _ => True) (p *> pure ()) := by
    intro α φ p hp
    rw [seqRight_eq_bind]
    exact hp.bind fun _ _ => trivial
  cases r with
  | getDeviceInfo => exact hvoid Client.getDeviceInfo_safe
  | readFloatsMulti addrs => exact hvoid (Client.readFloatsMulti_safe addrs)
  | getMasterStatus => exact hvoid dsp.getMasterStatus_safe
  | setConfig polls config => exact dsp.setConfig_safe polls config
  | getLevel spec => exact hvoid (Compressor.getLevel_safe spec)
  | setCoefficients spec coefficients => exact dsp.setCoefficients_safe spec coefficients

end Reader

/-- No read of a view of memory panics, a view that the device gave holds every address that
was asked for, and no reader panics. -/
theorem readers_never_panic {σ : Type} (device : Served σ) (dsp : MiniDSP) :
    (∀ (view : MemoryView) addr,
      (∀ len, (view.tryReadAt addr len : Exec MiniDSPError _) = .ok (view.readAt addr len)) ∧
      (view.tryReadU8 addr : Exec MiniDSPError _) = .ok (view.readU8 addr) ∧
      ∃ x, (view.readU16 addr : Exec MiniDSPError _) = .ok x) ∧
    (∀ s base size r, (device.answer s (.readMemory base size)).1 = .ok r →
      ∃ view, r = .memoryData view ∧ ∀ addr, base ≤ addr →
        addr.toNat < base.toNat + size.toNat → (view.readU8 addr).isSome) ∧
    (∀ s base len r, (device.answer s (.readFloats base len)).1 = .ok r →
      ∃ view, r = .floatData view ∧ ∀ addr, base ≤ addr →
        addr.toNat < base.toNat + len.toNat →
        ∃ x, (view.get addr : Exec MiniDSPError _) = .ok x) ∧
    ∀ (r : Reader) s p, (run device.answer (r.call dsp) s).1 ≠ .panic p := by
  refine ⟨fun view addr => ⟨view.tryReadAt_eq addr,view.tryReadU8_eq addr,
    view.readU16_returns addr⟩,?_,?_,?_⟩
  · intro s base size r hr
    obtain ⟨data,rfl,hlen⟩ := Multiplexer.matches_readMemory (device.gave s _ r hr).matches
    refine ⟨_,rfl,fun addr hle hlt => MemoryView.readU8_isSome _ hle ?_⟩
    have hle' := UInt16.le_iff_toNat_le.mp hle
    simp only [hlen]
    omega
  · intro s base len r hr
    obtain ⟨data,rfl,hlen⟩ := Multiplexer.matches_readFloats (device.gave s _ r hr).matches
    refine ⟨_,rfl,fun addr hle hlt => Client.get_ok hle ?_⟩
    have hle' := UInt16.le_iff_toNat_le.mp hle
    simp only [hlen]
    omega
  · intro r s p
    exact (r.call_safe dsp).run (fun s cmd r h => (device.gave s cmd r h).matches) s p

/-- A level of 1, in the second frame; the first is a view of another address. -/
example : (run Served.ofFrames.answer (Client.readFloats 0x44 1)
    [[[8,0x14,0,0x45,0,0,0x80,0x3f],[8,0x14,0,0x44,0,0,0x80,0x3f]]]).1 =
      .ok ⟨0x44,[0x3f800000]⟩ := by rfl

end Minidsp
