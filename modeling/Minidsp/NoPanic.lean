import Minidsp.Layout
import Minidsp.Readers

/-! No task is brought to a panic by what it is answered through the service, whatever the device
sends and however its calls end. -/
namespace Minidsp

open Buffer Dialogue

namespace Multiplexer

theorem step_enqueued {s t : State} {a : Label} (h : step s a = some t) {p : PendingCommandTuple}
    (hp : p ∈ t.enqueued) : p ∈ s.enqueued ∨ a = .enqueue p.2 p.1 := by
  have hsink : a.atSink = true → p ∈ s.enqueued := fun ha => by
    obtain ⟨-,-,-,-,-,he,-⟩ := atSink_frame ha h
    rwa [he] at hp
  cases a with
  | enqueue i cmd =>
    obtain ⟨-,rfl⟩ := enqueue_iff.mp h
    cases htx : s.eventTx with
    | false =>
      rw [htx] at hp
      exact .inl hp
    | true =>
      rw [htx] at hp
      rcases List.mem_append.mp hp with hp | hp
      · exact .inl hp
      · exact .inr (by rw [List.mem_singleton.mp hp])
  | recv item =>
    cases item with
    | ok data =>
      obtain ⟨-,rfl⟩ := recv_ok_iff.mp h
      rw [dispatch_enqueued] at hp
      exact .inl hp
    | error e =>
      obtain ⟨-,rfl | rfl⟩ := recv_error h <;> exact .inl hp
  | streamEnd =>
    obtain ⟨-,rfl⟩ := streamEnd_iff.mp h
    exact .inl hp
  | takeTx =>
    obtain ⟨-,rfl⟩ := takeTx_iff.mp h
    exact .inl hp
  | drain =>
    obtain ⟨-,⟨-,rfl⟩ | ⟨_,_,-,rfl⟩⟩ := drain_iff.mp h <;> exact .inl hp
  | _ => exact .inl (hsink rfl)

end Multiplexer

namespace Service

variable {ι σ α : Type} {peer : Peer σ} {s t : State ι σ α} {φ : α → Prop}

/-- The calls are numbered, and the entry of the one under way is what its task asks. -/
structure Matched (s : State ι σ α) : Prop where
  valid : Multiplexer.Valid s.mux
  numbered : ∀ p ∈ s.mux.enqueued, p.2 < s.calls
  number : ∀ c k, s.guard = some (c,k) → k < s.calls
  entry : ∀ c k, s.guard = some (c,k) → ∀ cmd, (cmd,k) ∈ s.mux.enqueued →
    ∃ next, s.tasks c = .ask cmd next

theorem start_matched (tasks : ι → Call α) (d : σ) : Matched (start tasks d) where
  valid := Multiplexer.init_valid
  numbered _ hp := absurd hp List.not_mem_nil
  number _ _ hg := by cases hg
  entry _ _ hg := by cases hg

theorem Matched.move (hs : Matched s) {a : Multiplexer.Label}
    (h : Multiplexer.step s.mux a = some t.mux) (hguard : t.guard = s.guard)
    (htasks : t.tasks = s.tasks) (hcalls : t.calls = s.calls)
    (hown : ∀ cmd k, a = .enqueue k cmd → ∃ c next, s.guard = some (c,k) ∧
      s.tasks c = .ask cmd next) : Matched t where
  valid := Multiplexer.step_valid hs.valid h
  numbered p hp := by
    rw [hcalls]
    rcases Multiplexer.step_enqueued h hp with hp | ha
    · exact hs.numbered p hp
    · obtain ⟨c,next,hg,-⟩ := hown _ _ ha
      exact hs.number c p.2 hg
  number c k hg := by
    rw [hcalls]
    exact hs.number c k (hguard ▸ hg)
  entry c k hg cmd hmem := by
    rw [htasks]
    rw [hguard] at hg
    rcases Multiplexer.step_enqueued h hmem with hmem | ha
    · exact hs.entry c k hg cmd hmem
    · obtain ⟨c',next,hg',hc⟩ := hown _ _ ha
      obtain ⟨rfl,-⟩ := Prod.mk.inj (Option.some.inj (hg.symm.trans hg'))
      exact ⟨next,hc⟩

/-- The response a call returns with is one its command can be answered with. -/
theorem Matched.returned (hs : Matched s) {c : ι} {k : ℕ} {q : Commands} {r : Responses}
    {next : Except MiniDSPError Responses → Call α} (hg : s.guard = some (c,k))
    (hc : s.tasks c = .ask q next) (hk : s.mux.calls k = .returned (.ok r)) :
    q.matchesResponse r = true := by
  obtain ⟨cmd,hmem⟩ := hs.valid.entered.returned k r hk
  have henq : (cmd,k) ∈ s.mux.enqueued := by
    rw [hs.valid.fifo]
    exact List.mem_append_left _ (List.mem_map_of_mem hmem)
  obtain ⟨next',hc'⟩ := hs.entry c k hg cmd henq
  obtain ⟨rfl,-⟩ := Dialogue.ask.inj (hc.symm.trans hc')
  exact hs.valid.accepted hmem

variable [DecidableEq ι]

theorem Matched.release (hs : Matched s) (c : ι) (p : Call α) : Matched (s.release c p) :=
  ⟨hs.valid,hs.numbered,by simp [State.release],by simp [State.release]⟩

theorem release_safe (hsafe : ∀ c, SafeCall φ (s.tasks c)) {c : ι} {p : Call α}
    (hp : SafeCall φ p) (c' : ι) : SafeCall φ ((s.release c p).tasks c') := by
  show SafeCall φ (Function.update s.tasks c p c')
  rw [Function.update_apply]
  split_ifs
  · exact hp
  · exact hsafe c'

theorem step_safe {a : Label ι} (hs : Matched s) (hsafe : ∀ c, SafeCall φ (s.tasks c))
    (h : step peer s a = some t) : Matched t ∧ ∀ c, SafeCall φ (t.tasks c) := by
  cases a with
  | acquire c =>
    obtain ⟨hg,-,rfl⟩ := acquire_iff.mp h
    refine ⟨⟨hs.valid,fun p hp => Nat.lt_succ_of_lt (hs.numbered p hp),?_,?_⟩,hsafe⟩
    · rintro c' k ⟨rfl,rfl⟩
      exact Nat.lt_succ_self _
    · rintro c' k ⟨rfl,rfl⟩ cmd hmem
      exact absurd (hs.numbered _ hmem) (lt_irrefl _)
  | poll p =>
    obtain ⟨c,k,q,next,mux,hg,hc,hmux,rfl⟩ := poll_iff.mp h
    refine ⟨hs.move hmux rfl rfl rfl fun cmd j ha => ?_,hsafe⟩
    cases p with
    | enqueue =>
      obtain ⟨rfl,rfl⟩ := Multiplexer.Label.enqueue.inj ha
      exact ⟨c,next,hg,hc⟩
    | _ => cases ha
  | finish =>
    obtain ⟨c,k,q,next,x,hg,hc,hk,rfl⟩ := finish_iff.mp h
    have hask := hsafe c
    rw [hc] at hask
    refine ⟨hs.release c _,release_safe hsafe ?_⟩
    cases x with
    | error e => exact hask.1 e
    | ok r => exact hask.2 r (hs.returned hg hc hk)
  | timeout =>
    obtain ⟨c,k,q,next,mux,hg,hc,hdrop,rfl⟩ := timeout_iff.mp h
    have hask := hsafe c
    rw [hc] at hask
    have hmoved : Matched { s with mux } :=
      hs.move (a := .drop k) hdrop rfl rfl rfl fun _ _ ha => by cases ha
    exact ⟨hmoved.release c _,release_safe (s := { s with mux }) hsafe (hask.1 _)⟩
  | answer =>
    obtain ⟨p,-,rfl⟩ := answer_iff.mp h
    exact ⟨⟨hs.valid,hs.numbered,hs.number,hs.entry⟩,hsafe⟩
  | receive =>
    obtain ⟨r,inbound,-,hl,rfl⟩ := receive_iff.mp h
    have hrecv : Multiplexer.recv s.mux (.ok r) = some (Multiplexer.dispatch s.mux r) :=
      Multiplexer.recv_ok_iff.mpr ⟨hl,rfl⟩
    refine ⟨hs.move (a := .recv (.ok r)) hrecv rfl rfl rfl fun _ _ ha => ?_,hsafe⟩
    cases ha
  | stray item =>
    obtain ⟨mux,hrecv,rfl⟩ := stray_iff.mp h
    refine ⟨hs.move (a := .recv item) hrecv rfl rfl rfl fun _ _ ha => ?_,hsafe⟩
    cases ha
  | ending a =>
    obtain ⟨mux,hmux,rfl⟩ := ending_iff.mp h
    refine ⟨hs.move hmux rfl rfl rfl fun _ _ ha => ?_,hsafe⟩
    cases a <;> cases ha

theorem run_safe {as : List (Label ι)} (hs : Matched s) (hsafe : ∀ c, SafeCall φ (s.tasks c))
    (h : Transition.run (step peer) s as = some t) : ∀ c, SafeCall φ (t.tasks c) := by
  induction as generalizing s with
  | nil =>
    obtain rfl : s = t := Option.some.inj h
    exact hsafe
  | cons a as ih =>
    obtain ⟨u,hu,ht⟩ := Transition.run_cons_iff.mp h
    obtain ⟨hmatched,hsafe⟩ := step_safe hs hsafe hu
    exact ih hmatched hsafe ht

end Service

namespace Model

def Steady {α : Type} (x : Lookup α) : Prop := ∀ p, x ≠ .error (.panic p)

namespace Steady

variable {α β : Type} {x : Lookup α}

protected theorem pure (a : α) : Steady (pure a) := fun _ h => by cases h

protected theorem of (x : Option α) (e : MiniDSPError) : Steady (Lookup.of x e) := by
  intro p h
  cases x <;> cases h

protected theorem bind {f : α → Lookup β} (hx : Steady x) (hf : ∀ a, x = .ok a → Steady (f a)) :
    Steady (x >>= f) := by
  cases x with
  | ok a => exact hf a rfl
  | error e => exact fun p h => hx p (congrArg Except.error (Except.error.inj h))

theorem lift (hx : Steady x) : SafeCall (fun _ => True) (Dialogue.lift x) := by
  rcases x with (e | p) | a
  · trivial
  · exact hx p rfl
  · trivial

end Steady

section
variable {dsp : MiniDSP} {floats : Floats} {polls : ℕ}

theorem channel_steady (p : Port) : Steady (p.channel dsp) := by
  have hmap : ∀ {α β : Type} {x : Option α} {e : MiniDSPError} (f : α → β),
      Steady ((Lookup.of x e).map f) := by
    intro α β x e f p h
    cases x <;> cases h
  cases p <;> exact hmap _

theorem peqAddr_steady (p : Port) (j : ℕ) : Steady (peqAddr dsp p j) :=
  (channel_steady p).bind fun _ _ => .of _ _

theorem xoverSpec_steady (i : ℕ) : Steady (xoverSpec dsp i) :=
  .bind (.of _ _) fun _ _ => .of _ _

theorem compressorSpec_steady (i : ℕ) : Steady (compressorSpec dsp i) :=
  .bind (.of _ _) fun _ _ => .of _ _

theorem firSpec_steady (i : ℕ) : Steady (firSpec dsp i) :=
  .bind (.of _ _) fun _ _ => .of _ _

theorem find_steady (part : Part) : Steady (part.find dsp) := by
  cases part with
  | port p => exact (channel_steady p).bind fun _ _ => .pure ()
  | peq p j => exact (peqAddr_steady p j).bind fun _ _ => .pure ()
  | xover i => exact (xoverSpec_steady i).bind fun _ _ => .pure ()
  | compressor i => exact (compressorSpec_steady i).bind fun _ _ => .pure ()
  | fir i => exact (firSpec_steady i).bind fun _ _ => .pure ()

theorem word_steady (c : WordControl) : Steady (c.addr dsp) := by
  cases c with
  | mute p => exact (channel_steady p).bind fun _ _ => .bind (.of _ _) fun _ _ => .pure _
  | gain p => exact (channel_steady p).bind fun _ _ => .bind (.of _ _) fun _ _ => .of _ _
  | routing i j => exact .bind (.of _ _) fun _ _ => .bind (.of _ _) fun _ _ => .pure _
  | routingGain i j => exact .bind (.of _ _) fun _ _ => .bind (.of _ _) fun _ _ => .of _ _
  | invert i => exact .bind (.of _ _) fun _ _ => .pure _
  | delay i => exact .bind (.of _ _) fun _ _ => .of _ _
  | compressor i w => exact (compressorSpec_steady i).bind fun _ _ => .pure _
  | firBypass i => exact (firSpec_steady i).bind fun _ _ => .pure _
  | firTaps i => exact (firSpec_steady i).bind fun _ _ => .pure _

/-- The address of a slot of a crossover does not overflow. -/
theorem filter_steady (hdevice : LaidOut dsp.device) (c : FilterControl) :
    Steady (c.addr dsp) := by
  cases c with
  | peq p j => exact peqAddr_steady p j
  | xover i group slot =>
    refine (xoverSpec_steady i).bind fun xover hxover p => ?_
    show slotAddr xover group slot ≠ _
    obtain hout | ⟨start,hstart,hslot⟩ := slotAddr_cases xover group slot
    · rw [hout]
      exact fun h => by cases h
    · have hmem := xoverRegions_subset hxover (mem_entries hstart
        (List.mem_map.mpr ⟨slot,List.mem_range.mpr hslot,rfl⟩))
      have hbound : start.toNat + 5*slot + 5 ≤ 65536 := hdevice.2 _ hmem
      rw [slotAddr_of_lt hstart hslot,addU16,if_pos (by rw [Xover.offset_toNat hslot]; omega)]
      exact fun h => by cases h

theorem flag_steady (c : FlagControl) : Steady (c.addr dsp) := by
  cases c with
  | peq p j => exact peqAddr_steady p j
  | xover i group => exact (xoverSpec_steady i).bind fun _ _ => .of _ _

theorem command_steady (hdevice : LaidOut dsp.device) (setting : Setting) :
    Steady (setting.command dsp) := by
  cases setting with
  | word c value => exact (word_steady c).bind fun _ _ => .pure _
  | filter c data => exact (filter_steady hdevice c).bind fun _ _ => .pure _
  | flag c value => exact (flag_steady c).bind fun _ _ => .pure _

theorem perform_safe (hdevice : LaidOut dsp.device) (item : Item) :
    SafeCall (fun _ => True) (item.perform dsp) := by
  cases item with
  | reject e => trivial
  | need part => exact (find_steady part).lift
  | set setting =>
    exact (command_steady hdevice setting).lift.bind fun q _ => MiniDSP.expected_safe q _
  | load i coefficients =>
    exact (firSpec_steady i).lift.bind fun fir _ => dsp.setCoefficients_safe fir coefficients

theorem status_safe (dsp : MiniDSP) (polls : ℕ) (status : MasterStatus) :
    SafeCall (fun _ => True) (status.apply polls dsp) := by
  have hopt : ∀ {β : Type} (x : Option β) (f : β → Call PUnit),
      (∀ b, SafeCall (fun _ => True) (f b)) → SafeCall (fun _ => True) (forM x f) := by
    intro β x f hf
    cases x with
    | none => trivial
    | some b => exact hf b
  exact (hopt _ _ fun config => dsp.setConfig_safe polls config).bind fun _ _ =>
    (hopt _ _ fun _ => MiniDSP.expected_safe _ _).bind fun _ _ =>
    (hopt _ _ fun _ => MiniDSP.expected_safe _ _).bind fun _ _ =>
    (hopt _ _ fun _ => MiniDSP.expected_safe _ _).bind fun _ _ =>
      hopt _ _ fun _ => MiniDSP.expected_safe _ _

theorem apply_safe (dsp : MiniDSP) (hdevice : LaidOut dsp.device) (floats : Floats) (polls : ℕ)
    (config : Config) : SafeCall (fun _ => True) (config.apply dsp floats polls) := by
  rw [Config.apply_eq]
  refine Safe.bind (φ := fun _ => True) ?_ fun _ _ => Safe.forEach fun item _ =>
    perform_safe hdevice item
  cases config.masterStatus with
  | none => trivial
  | some status => exact status_safe dsp polls status

end

/-- Tasks that apply configurations to a product never panic, whatever it answers or sends unasked
and however their calls end. -/
theorem apply_never_panics {ι σ : Type} [DecidableEq ι] (kind : Option DeviceKind)
    (info : DeviceInfo) (peer : Service.Peer σ) (floats : Floats) (polls : ℕ)
    (configs : ι → Config) (d : σ) (as : List (Service.Label ι)) (s : Service.State ι σ Unit)
    (h : Transition.run (Service.step peer)
      (Service.start (fun c => (configs c).apply (.opened kind info) floats polls) d) as = some s)
    (c : ι) (p : Panic) : s.tasks c ≠ .done (.panic p) := by
  intro hdone
  have hsafe := Service.run_safe (Service.start_matched _ _)
    (fun c => apply_safe (.opened kind info) (spec_laidOut kind info) floats polls (configs c)) h c
  rw [hdone] at hsafe
  exact hsafe

/-- A device that answers with what nothing waits for, until the calls have timed out. -/
theorem apply_never_panics_timeout :
    let peer : Service.Peer Unit := fun _ _ => (.configChanged,())
    let as : List (Service.Label Bool) := [.acquire true,.poll .enqueue,.poll .lock,.poll .send,
      .poll .flush,.answer,.receive,.timeout,.acquire false,.poll .enqueue,.poll .lock,
      .stray (.ok .ack),.timeout]
    ∃ s, Transition.run (Service.step peer) (Service.start
        (fun c => (muteOne c).apply (.opened none hd) Xover.noFloats 0) ()) as = some s ∧
      (∀ c p, s.tasks c ≠ .done (.panic p)) ∧ s.tasks true = .done (.error .timeout) := by
  intro peer as
  have hrun : (Transition.run (Service.step peer) (Service.start
      (fun c => (muteOne c).apply (.opened none hd) Xover.noFloats 0) ()) as).map
        (fun s => s.tasks true) = some (.done (.error .timeout)) := rfl
  obtain ⟨s,hs,htrue⟩ := Option.map_eq_some_iff.mp hrun
  exact ⟨s,hs,apply_never_panics none hd peer Xover.noFloats 0 muteOne () as s hs,htrue⟩

end Model
end Minidsp
