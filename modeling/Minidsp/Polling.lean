import Minidsp.Websocket

/-! What a polling client knows: a poll is not sent when it finds what the last one found, and
the announcements sent in between are not taken into account. -/
namespace Minidsp

open Transition

namespace MasterStatus

/-- Every field that `status` reports, the client has with the same value. -/
structure Agrees (status client : MasterStatus) : Prop where
  preset : ∀ v, status.preset = some v → client.preset = some v
  source : ∀ v, status.source = some v → client.source = some v
  volume : ∀ v, status.volume = some v → client.volume = some v
  mute : ∀ v, status.mute = some v → client.mute = some v
  dirac : ∀ v, status.dirac = some v → client.dirac = some v

theorem or_eq_iff {α : Type} {x y : Option α} : x.or y = y ↔ ∀ a, x = some a → y = some a := by
  cases x with
  | none => simp
  | some a => simp [eq_comm]

theorem agrees_iff {status client : MasterStatus} :
    status.Agrees client ↔ status.onto client = client := by
  obtain ⟨p,s,v,m,d⟩ := client
  simp only [onto,MasterStatus.mk.injEq,or_eq_iff]
  constructor
  · intro h
    exact ⟨h.preset,h.source,h.volume,h.mute,h.dirac⟩
  · rintro ⟨hp,hs,hv,hm,hd⟩
    exact ⟨hp,hs,hv,hm,hd⟩

theorem or_eq_some_iff {α : Type} {x y b : Option α} (h : ∀ v, x = some v → b = some v) (v : α) :
    (x = some v → y.or b = some v) ↔ (x = some v → y.or x = some v) :=
  imp_congr_right fun hx => by rw [h v hx,hx]

/-- What an update changes for a client that agrees, it changes in the status itself. -/
theorem agrees_onto_iff {status client : MasterStatus} (update : MasterStatus)
    (h : status.Agrees client) :
    status.Agrees (update.onto client) ↔ status.Agrees (update.onto status) := by
  constructor
  · intro hc
    exact ⟨fun v => (or_eq_some_iff h.preset v).mp (hc.preset v),
      fun v => (or_eq_some_iff h.source v).mp (hc.source v),
      fun v => (or_eq_some_iff h.volume v).mp (hc.volume v),
      fun v => (or_eq_some_iff h.mute v).mp (hc.mute v),
      fun v => (or_eq_some_iff h.dirac v).mp (hc.dirac v)⟩
  · intro hs
    exact ⟨fun v => (or_eq_some_iff h.preset v).mpr (hs.preset v),
      fun v => (or_eq_some_iff h.source v).mpr (hs.source v),
      fun v => (or_eq_some_iff h.volume v).mpr (hs.volume v),
      fun v => (or_eq_some_iff h.mute v).mpr (hs.mute v),
      fun v => (or_eq_some_iff h.dirac v).mpr (hs.dirac v)⟩

end MasterStatus

namespace Websocket

/-- What was announced since the last status that was fetched or polled. -/
def pushedSince (sent : List Message) : MasterStatus :=
  sent.foldl (fun acc m => match m with
    | .initial _ | .polled _ => default
    | .pushed master => master.onto acc
    | .levels _ _ => acc) default

@[simp] theorem pushedSince_pushed (sent : List Message) (master : MasterStatus) :
    pushedSince (sent ++ [.pushed master]) = master.onto (pushedSince sent) := by
  simp [pushedSince]

@[simp] theorem pushedSince_levels (sent : List Message) (i o : List F32Bits) :
    pushedSince (sent ++ [.levels i o]) = pushedSince sent := by
  simp [pushedSince]

@[simp] theorem pushedSince_polled (sent : List Message) (summary : StatusSummary) :
    pushedSince (sent ++ [.polled summary]) = default := by
  simp [pushedSince]

/-- What the handler remembers and what the client knows: the client knows the last status, but
for what was announced since. -/
def Remembered (s : Session) : Prop :=
  match s.phase with
  | .fetching | .metering _ | .fetched _ | .upgraded _ => s.sent = []
  | .greeted status => s.sent = [.initial status]
  | .streaming _ last => last.inputLevels = [] ∧ last.outputLevels = [] ∧
    ∃ client, last.master.Agrees client ∧
      (received s.sent).master = (pushedSince s.sent).onto client
  | .closed => True

theorem remembered_step {dsp : MiniDSP} {s t : Session} {a : Step} (hs : Remembered s)
    (h : step dsp s a = some t) : Remembered t := by
  cases moves_of_step h with
  | event item => exact hs
  | close a hfail => trivial
  | master m hp | meters i o m hp | upgrade status hp =>
    rw [Remembered,hp] at hs
    exact hs
  | greet status hp =>
    rw [Remembered,hp] at hs
    simp [Remembered,hs]
  | subscribe status hp =>
    rw [Remembered,hp] at hs
    refine ⟨rfl,rfl,status.master,MasterStatus.agrees_iff.mpr (MasterStatus.onto_self _),?_⟩
    rw [hs]
    exact MasterStatus.onto_default _
  | push stream last item stream' m hp hrecv hm =>
    rw [Remembered,hp] at hs
    obtain ⟨hi,ho,client,hagrees,hclient⟩ := hs
    refine ⟨hi,ho,client,hagrees,?_⟩
    rw [received_concat,pushedSince_pushed,MasterStatus.onto_assoc,← hclient]
    rfl
  | skip ok stream last item stream' hp hrecv hm =>
    rw [Remembered,hp] at hs
    exact hs
  | levels i o stream last hp =>
    rw [Remembered,hp] at hs
    obtain ⟨hi,ho,client,hagrees,hclient⟩ := hs
    refine ⟨hi,ho,client,hagrees,?_⟩
    rw [received_concat,pushedSince_levels,← hclient]
    rfl
  | polled m stream last hp hpoll =>
    refine ⟨rfl,rfl,m.onto (received s.sent).master,MasterStatus.agrees_iff.mpr ?_,?_⟩
    · rw [← MasterStatus.onto_assoc,MasterStatus.onto_self]
    · rw [received_concat,pushedSince_polled]
      rfl
  | idle a stream last hp => exact hs

/-- After a poll that succeeds, with its message if there is one, the client agrees with it. -/
def Converges (dsp : MiniDSP) (s : Session) : Step → Prop
  | .pollTick (.ok polled) ok => ∀ t, step dsp s (.pollTick (.ok polled) ok) = some t →
    t.phase ≠ .closed → polled.Agrees (received t.sent).master
  | _ => True

/-- A poll finds another status than the last one, or one that the announcements since then
leave as it is. -/
def PolledAnew (s : Session) : Step → Prop
  | .pollTick (.ok polled) _ => ∀ stream last, s.phase = .streaming stream last →
    last.master ≠ polled ∨ polled.Agrees ((pushedSince s.sent).onto polled)
  | _ => True

theorem step_pollTick_same {dsp : MiniDSP} {s t : Session} {polled : MasterStatus} {ok : Bool}
    {stream : Broadcast.Receiver} (hp : s.phase = .streaming stream ⟨polled,[],[]⟩)
    (h : step dsp s (.pollTick (.ok polled) ok) = some t) : t = s := by
  simp only [step,hp] at h
  split_ifs at h
  exact (Option.some.inj h).symm.trans (if_pos rfl)

theorem step_pollTick_anew {dsp : MiniDSP} {s t : Session} {polled : MasterStatus} {ok : Bool}
    {stream : Broadcast.Receiver} {last : StatusSummary} (hp : s.phase = .streaming stream last)
    (hne : last.master ≠ polled) (h : step dsp s (.pollTick (.ok polled) ok) = some t) :
    t = s.send ok (.polled ⟨polled,[],[]⟩) (.streaming stream ⟨polled,[],[]⟩) := by
  have hlast : last ≠ ⟨polled,[],[]⟩ := fun he => hne (congrArg StatusSummary.master he)
  simp only [step,hp] at h
  split_ifs at h
  exact (Option.some.inj h).symm.trans (if_neg hlast)

theorem streaming_of_pollTick {dsp : MiniDSP} {s t : Session}
    {x : Except MiniDSPError MasterStatus} {ok : Bool} (h : step dsp s (.pollTick x ok) = some t) :
    ∃ stream last, s.phase = .streaming stream last := by
  cases hp : s.phase with
  | streaming stream last => exact ⟨stream,last,rfl⟩
  | _ => simp [step,hp] at h

theorem converges_iff_polledAnew {dsp : MiniDSP} {s t : Session} {a : Step} (hs : Remembered s)
    (h : step dsp s a = some t) : Converges dsp s a ↔ PolledAnew s a := by
  match a with
  | .pollTick (.ok polled) ok =>
    obtain ⟨stream,last,hp⟩ := streaming_of_pollTick h
    rw [Remembered,hp] at hs
    obtain ⟨hi,ho,client,hagrees,hclient⟩ := hs
    have hconverges : Converges dsp s (.pollTick (.ok polled) ok) ↔
        (t.phase ≠ .closed → polled.Agrees (received t.sent).master) :=
      ⟨fun hc => hc t h,fun hc t' ht' => Option.some.inj (h.symm.trans ht') ▸ hc⟩
    have hanew : PolledAnew s (.pollTick (.ok polled) ok) ↔
        last.master ≠ polled ∨ polled.Agrees ((pushedSince s.sent).onto polled) := by
      simp [PolledAnew,hp]
    rw [hconverges,hanew]
    by_cases hne : last.master = polled
    · obtain rfl : last = ⟨polled,[],[]⟩ := by
        cases last
        simp_all
      obtain rfl := step_pollTick_same hp h
      rw [hclient,MasterStatus.agrees_onto_iff _ hagrees]
      simp [hp]
    · refine iff_of_true (fun hopen => ?_) (.inl hne)
      obtain rfl := step_pollTick_anew hp hne h
      cases ok with
      | true =>
        have hsent : received (s.sent ++ [.polled ⟨polled,[],[]⟩]) =
          applyUpdate (received s.sent) ⟨polled,[],[]⟩ := received_concat ..
        refine MasterStatus.agrees_iff.mpr ?_
        simp only [Session.send,if_true,hsent,applyUpdate]
        rw [← MasterStatus.onto_assoc,MasterStatus.onto_self]
      | false => exact absurd rfl hopen
  | .pollTick (.error _) _ | .event _ | .master _ | .meters _ | .upgrade _ | .greet _
  | .subscribe _ | .push _ | .levelTick _ _ | .client _ => exact Iff.rfl

/-- In a run the client agrees with every poll exactly when every poll is anew. -/
theorem polling_converges_iff {dsp : MiniDSP} {levels poll : Bool} {as : List Step} {s : Session}
    (h : run (step dsp) (start levels poll) as = some s) :
    Along (step dsp) (Converges dsp) (start levels poll) as ↔
      Along (step dsp) PolledAnew (start levels poll) as :=
  along_congr_of_run (I := Remembered) (fun _ _ _ => remembered_step)
    (fun _ _ _ => converges_iff_polledAnew) rfl h

def mutedSession : Session :=
  ⟨false,true,⟨[muted]⟩,.streaming ⟨1⟩ ⟨playing,[],[]⟩,
    [.initial ⟨playing,[],[]⟩,.pushed ⟨none,none,none,some true,none⟩]⟩

def untilMuted : List Step :=
  [.master (.ok playing),.meters (.ok ([],[])),.upgrade true,.greet true,.subscribe true,
    .event muted,.push true]

theorem run_untilMuted : run (step mock) (start false true) untilMuted = some mutedSession := by
  rfl

theorem polling_muted : Along (step mock) (Converges mock) (start false true)
    (untilMuted ++ [.pollTick (.ok { playing with mute := some true }) true]) := by
  have hrun : run (step mock) (start false true)
      (untilMuted ++ [.pollTick (.ok { playing with mute := some true }) true]) = some _ :=
    run_append_iff.mpr ⟨_,run_untilMuted,rfl⟩
  refine (polling_converges_iff hrun).mpr ((along_append_of run_untilMuted).mpr ⟨?_,?_,?_⟩)
  · simp [untilMuted,Along,PolledAnew]
  · rintro stream last ⟨⟩
    exact .inl (by decide)
  · exact fun _ _ => trivial

/-- The device is unmuted again without an announcement: the poll finds what it last found, and
the client still takes the device for muted. -/
theorem unmuted_is_not_polled : ¬Along (step mock) (Converges mock) (start false true)
    (untilMuted ++ [.pollTick (.ok playing) true]) := by
  intro hall
  have hpoll := ((along_append_of run_untilMuted).mp hall).2.1
  have hmute := (hpoll mutedSession rfl (by decide)).mute false rfl
  exact absurd hmute (by decide)

end Websocket
end Minidsp
