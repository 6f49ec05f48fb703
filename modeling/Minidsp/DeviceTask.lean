import Minidsp.Fairness
import Minidsp.FrameTurn
import Minidsp.Hub

/-! The device task: a hub, a multiplexer on a clone of it, and the select over the two signals
that are to tell that the command path is broken. -/
namespace Minidsp
namespace DeviceTask

open Buffer Multiplexer

/-- The clone whose stream `task_inner` watches, and the clone behind the multiplexer. -/
def transportlocal : ℕ := 0
def mplexClone : ℕ := 1

structure State where
  hub : Hub.State
  mplex : Multiplexer.State
  /-- The task has subscribed to the events and is in its select. -/
  watching : Bool
  /-- History: a `writer.send` has failed. -/
  sendFailed : Bool

def init : State where
  hub :=
    { inner := .shared
      readTask := .reading
      sendTask := .sending
      deviceTx := []
      deviceRx := fun i => if i = transportlocal ∨ i = mplexClone then some [] else none }
  mplex := Multiplexer.init
  watching := false
  sendFailed := false

/-- `writer.send(cmd)` on the clone: its channel to the send task takes the frame or is closed. -/
def send (cap : Hub.Capacity) (s : State) (i : ℕ) : Option State :=
  match s.mplex.calls i with
  | .locking cmd =>
    if s.mplex.write then
      if s.hub.txClosed then
        (Multiplexer.sendError s.mplex i .transportClosed).map fun m =>
          { s with mplex := m, sendFailed := true }
      else
        match cmd.toBytes with
        | .ok packet =>
          (Multiplexer.send s.mplex i).bind fun m =>
            (Hub.step cap s.hub (.startSend (Packet.frame packet))).map fun h =>
              { s with mplex := m, hub := h }
        | .error _ => none
    else (Multiplexer.send s.mplex i).map fun m => { s with mplex := m }
  | _ => none

inductive Label
  /-- A step of the hub, of the device, or of another clone. -/
  | hub (a : Hub.Label)
  /-- The receive loop takes a frame off the stream of its clone, or finds its end. -/
  | turn
  | eof
  | takeTx
  | drain
  /-- A step of a call that does not touch the hub. -/
  | call (a : Multiplexer.Label)
  | send (i : ℕ)
  /-- The task comes to its select. -/
  | select
  /-- `transportlocal.next()` yields a frame. -/
  | next

/-- The clones of the task and of the multiplexer are polled by their owners. -/
def ownPoll : Hub.Label → Bool
  | .poll i => i = transportlocal ∨ i = mplexClone
  | _ => false

def isSend : Multiplexer.Label → Bool
  | .send _ | .sendError .. => true
  | _ => false

def step (cap : Hub.Capacity) (s : State) : Label → Option State
  | .hub a =>
    if ownPoll a then none else (Hub.step cap s.hub a).map fun h => { s with hub := h }
  | .turn =>
    match s.hub.deviceRx mplexClone with
    | some (f :: _) =>
      (frameTurn s.mplex f).bind fun m =>
        (Hub.step cap s.hub (.poll mplexClone)).map fun h => { s with mplex := m, hub := h }
    | _ => none
  | .eof =>
    if s.hub.ended mplexClone then
      (streamEnd s.mplex).map fun m => { s with mplex := m }
    else none
  | .takeTx => (takeTx s.mplex).map fun m => { s with mplex := m }
  | .drain => (drain s.mplex).map fun m => { s with mplex := m }
  | .call a =>
    if a.byCaller = true ∧ isSend a = false then
      (Multiplexer.step s.mplex a).map fun m => { s with mplex := m }
    else none
  | .send i => send cap s i
  | .select => if s.watching then none else some { s with watching := true }
  | .next =>
    if s.watching then
      (Hub.step cap s.hub (.poll transportlocal)).map fun h => { s with hub := h }
    else none

/-- No command can ever be sent again. -/
def Broken (s : State) : Prop := s.hub.sendTask = .failed ∨ s.sendFailed = true

/-- One of the two signals has fired: all senders of the events are dropped, or the stream of
frames has ended. -/
def Fired (s : State) : Prop :=
  s.mplex.recvTask = .closed ∨ s.mplex.recvTask = .drained ∨ s.hub.ended transportlocal

/-- What the tasks do of themselves, without the device or a caller. -/
def Owed : Label → Prop
  | .hub b => b.toEnd = true
  | .turn | .eof | .takeTx | .select | .next => True
  | _ => False

/-- Whatever the callers do, a signal fires without any further frame of the device. -/
def Noticed (cap : Hub.Capacity) (s : State) : Prop :=
  ∀ e : Transition.Execution (step cap), e.state 0 = s → e.Fair Owed →
    (∀ n f, e.label n ≠ some (.hub (.frame f))) → ∃ n, Fired (e.state n)

/-- The read task of the hub or the receive loop of the multiplexer has left its loop. -/
def Down (s : State) : Prop := s.hub.readTask ≠ .reading ∨ s.mplex.recvTask ≠ .looping

/-- A frame that ends the receive loop waits in its buffer. -/
def Doomed (s : State) : Prop :=
  s.mplex.recvTask = .looping ∧ ∃ f ∈ s.hub.unread mplexClone, Unreadable f

variable {cap : Hub.Capacity} {s t : State} {a : Label}

theorem hub_iff {b : Hub.Label} : step cap s (.hub b) = some t ↔ ownPoll b = false ∧
    ∃ hub, Hub.step cap s.hub b = some hub ∧ t = { s with hub := hub } := by
  simp only [step]
  split_ifs with hown
  · simp [hown]
  · simp [hown,eq_comm]

theorem turn_iff : step cap s .turn = some t ↔ ∃ f rest m,
    s.hub.deviceRx mplexClone = some (f :: rest) ∧ frameTurn s.mplex f = some m ∧
      t = { s with
        mplex := m
        hub := { s.hub with
          deviceRx := Function.update s.hub.deviceRx mplexClone (some rest) } } := by
  simp only [step]
  split
  · rename_i f rest hrx
    constructor
    · intro h
      obtain ⟨m,hm,h⟩ := Option.bind_eq_some_iff.mp h
      obtain ⟨hub,hb,rfl⟩ := Option.map_eq_some_iff.mp h
      obtain ⟨f',rest',hrx',rfl⟩ := Hub.poll_iff.mp hb
      obtain ⟨rfl,rfl⟩ := List.cons.inj (Option.some.inj (hrx.symm.trans hrx'))
      exact ⟨f,rest,m,hrx,hm,rfl⟩
    · rintro ⟨f',rest',m,hrx',hm,rfl⟩
      obtain ⟨rfl,rfl⟩ := List.cons.inj (Option.some.inj (hrx.symm.trans hrx'))
      have hb : Hub.step cap s.hub (.poll mplexClone) = some _ :=
        Hub.poll_iff.mpr ⟨f,rest,hrx,rfl⟩
      rw [hm,Option.bind_some,hb]
      rfl
  · rename_i hno
    refine ⟨nofun,?_⟩
    rintro ⟨f,rest,m,hrx,-⟩
    exact absurd hrx (hno f rest)

theorem next_iff : step cap s .next = some t ↔ s.watching = true ∧ ∃ f rest,
    s.hub.deviceRx transportlocal = some (f :: rest) ∧
      t = { s with
        hub := { s.hub with
          deviceRx := Function.update s.hub.deviceRx transportlocal (some rest) } } := by
  simp only [step]
  split_ifs with hw
  · rw [Option.map_eq_some_iff]
    constructor
    · rintro ⟨hub,hb,rfl⟩
      obtain ⟨f,rest,hrx,rfl⟩ := Hub.poll_iff.mp hb
      exact ⟨hw,f,rest,hrx,rfl⟩
    · rintro ⟨-,f,rest,hrx,rfl⟩
      exact ⟨_,Hub.poll_iff.mpr ⟨f,rest,hrx,rfl⟩,rfl⟩
  · simp [hw]

inductive Moves (cap : Hub.Capacity) (s t : State) : Label → Prop
  | hub (b : Hub.Label) : ownPoll b = false → Hub.step cap s.hub b = some t.hub →
      t.mplex = s.mplex → t.sendFailed = s.sendFailed → t.watching = s.watching →
      Moves cap s t (.hub b)
  | turn (f : Bytes) (rest : List Bytes) : s.hub.deviceRx mplexClone = some (f :: rest) →
      frameTurn s.mplex f = some t.mplex → Hub.step cap s.hub (.poll mplexClone) = some t.hub →
      t.sendFailed = s.sendFailed → t.watching = s.watching → Moves cap s t .turn
  | mplex (a : Label) (b : Multiplexer.Label) : Multiplexer.step s.mplex b = some t.mplex →
      t.hub = s.hub → t.sendFailed = s.sendFailed → t.watching = s.watching → Moves cap s t a
  | sendFailed (i : ℕ) :
      Multiplexer.step s.mplex (.sendError i .transportClosed) = some t.mplex → s.hub.txClosed →
      t.hub = s.hub → t.watching = s.watching → Moves cap s t (.send i)
  | sent (i : ℕ) (f : Bytes) : Multiplexer.step s.mplex (.send i) = some t.mplex →
      Hub.step cap s.hub (.startSend f) = some t.hub → t.sendFailed = s.sendFailed →
      t.watching = s.watching → Moves cap s t (.send i)
  | select : t.hub = s.hub → t.mplex = s.mplex → t.sendFailed = s.sendFailed →
      t.watching = true → Moves cap s t .select
  | next : Hub.step cap s.hub (.poll transportlocal) = some t.hub → t.mplex = s.mplex →
      t.sendFailed = s.sendFailed → t.watching = s.watching → Moves cap s t .next

theorem send_moves {i : ℕ} (h : send cap s i = some t) : Moves cap s t (.send i) := by
  unfold send at h
  split at h
  · split_ifs at h with hw hc
    · obtain ⟨m,hm,rfl⟩ := Option.map_eq_some_iff.mp h
      exact .sendFailed i hm hc rfl rfl
    · split at h
      · obtain ⟨m,hm,h⟩ := Option.bind_eq_some_iff.mp h
        obtain ⟨hub,hb,rfl⟩ := Option.map_eq_some_iff.mp h
        exact .sent i _ hm hb rfl rfl
      · cases h
    · obtain ⟨m,hm,rfl⟩ := Option.map_eq_some_iff.mp h
      exact .mplex _ (.send i) hm rfl rfl rfl
  · cases h

theorem step_moves (h : step cap s a = some t) : Moves cap s t a := by
  cases a with
  | hub b =>
    obtain ⟨hown,hub,hb,rfl⟩ := hub_iff.mp h
    exact .hub b hown hb rfl rfl rfl
  | turn =>
    simp only [step] at h
    split at h
    · rename_i f rest hrx
      obtain ⟨m,hm,h⟩ := Option.bind_eq_some_iff.mp h
      obtain ⟨hub,hb,rfl⟩ := Option.map_eq_some_iff.mp h
      exact .turn f rest hrx hm hb rfl rfl
    · cases h
  | eof =>
    simp only [step] at h
    split_ifs at h
    obtain ⟨m,hm,rfl⟩ := Option.map_eq_some_iff.mp h
    exact .mplex _ .streamEnd hm rfl rfl rfl
  | takeTx =>
    obtain ⟨m,hm,rfl⟩ := Option.map_eq_some_iff.mp h
    exact .mplex _ .takeTx hm rfl rfl rfl
  | drain =>
    obtain ⟨m,hm,rfl⟩ := Option.map_eq_some_iff.mp h
    exact .mplex _ .drain hm rfl rfl rfl
  | call b =>
    simp only [step] at h
    split_ifs at h
    obtain ⟨m,hm,rfl⟩ := Option.map_eq_some_iff.mp h
    exact .mplex _ b hm rfl rfl rfl
  | send i => exact send_moves h
  | select =>
    simp only [step] at h
    split_ifs at h
    obtain rfl := Option.some.inj h
    exact .select rfl rfl rfl rfl
  | next =>
    simp only [step] at h
    split_ifs at h
    obtain ⟨hub,hb,rfl⟩ := Option.map_eq_some_iff.mp h
    exact .next hb rfl rfl rfl

inductive Within : Label → Hub.Label → Prop
  | hub (b : Hub.Label) : ownPoll b = false → Within (.hub b) b
  | turn : Within .turn (.poll mplexClone)
  | next : Within .next (.poll transportlocal)
  | send (i : ℕ) (f : Bytes) : Within (.send i) (.startSend f)

theorem step_hub (h : step cap s a = some t) : t.hub = s.hub ∨
    ∃ b, Hub.step cap s.hub b = some t.hub ∧ Within a b := by
  cases step_moves h with
  | hub b hown hb => exact Or.inr ⟨b,hb,.hub b hown⟩
  | turn f rest _ _ hb => exact Or.inr ⟨_,hb,.turn⟩
  | mplex _ _ _ hh => exact Or.inl hh
  | sendFailed i _ _ hh => exact Or.inl hh
  | sent i f _ hb => exact Or.inr ⟨_,hb,.send i f⟩
  | select hh => exact Or.inl hh
  | next hb => exact Or.inr ⟨_,hb,.next⟩

theorem Within.noFrame {b : Hub.Label} (h : Within a b) (ha : ∀ f, a ≠ .hub (.frame f)) :
    ∀ f, b ≠ .frame f := by
  cases h with
  | hub b => exact fun f hf => ha f (by rw [hf])
  | turn => exact nofun
  | next => exact nofun
  | send i f => exact nofun

theorem step_mplex (h : step cap s a = some t) :
    t.mplex = s.mplex ∨ ∃ b, Multiplexer.step s.mplex b = some t.mplex := by
  cases step_moves h with
  | hub _ _ _ hm => exact Or.inl hm
  | turn f rest _ hm =>
    obtain ⟨item,hitem⟩ := frameTurn_step hm
    exact Or.inr ⟨_,hitem⟩
  | mplex _ b hm => exact Or.inr ⟨b,hm⟩
  | sendFailed i hm => exact Or.inr ⟨_,hm⟩
  | sent i f hm => exact Or.inr ⟨_,hm⟩
  | select _ hm => exact Or.inl hm
  | next _ hm => exact Or.inl hm

structure Valid (s : State) : Prop where
  hub : s.hub.Valid
  sent : s.sendFailed = true → s.hub.txClosed
  localRx : (s.hub.deviceRx transportlocal).isSome
  mplexRx : (s.hub.deviceRx mplexClone).isSome

theorem init_valid : Valid init where
  hub := ⟨nofun,nofun,nofun,by simp [init]⟩
  sent := nofun
  localRx := rfl
  mplexRx := rfl

theorem step_valid (hs : Valid s) (h : step cap s a = some t) : Valid t := by
  have hsent : t.sendFailed = true → t.hub.txClosed := by
    intro hf
    cases step_moves h with
    | hub b _ hb _ hsame => exact Hub.txClosed_of_step hb (hs.sent (hsame ▸ hf))
    | turn f rest _ _ hb hsame => exact Hub.txClosed_of_step hb (hs.sent (hsame ▸ hf))
    | mplex _ _ _ hh hsame => exact hh ▸ hs.sent (hsame ▸ hf)
    | sendFailed i _ hc hh => exact hh ▸ hc
    | sent i f _ hb hsame => exact Hub.txClosed_of_step hb (hs.sent (hsame ▸ hf))
    | select hh _ hsame => exact hh ▸ hs.sent (hsame ▸ hf)
    | next hb _ hsame => exact Hub.txClosed_of_step hb (hs.sent (hsame ▸ hf))
  rcases step_hub h with hh | ⟨b,hb,-⟩
  · exact ⟨hh ▸ hs.hub,hsent,hh ▸ hs.localRx,hh ▸ hs.mplexRx⟩
  · exact ⟨Hub.step_valid hs.hub hb,hsent,Hub.isSome_of_step hb hs.localRx,
      Hub.isSome_of_step hb hs.mplexRx⟩

theorem step_watching (h : step cap s a = some t) (hs : s.watching = true) : t.watching = true := by
  cases step_moves h with
  | hub _ _ _ _ _ hw => exact hw.trans hs
  | turn _ _ _ _ _ _ hw => exact hw.trans hs
  | mplex _ _ _ _ _ hw => exact hw.trans hs
  | sendFailed _ _ _ _ hw => exact hw.trans hs
  | sent _ _ _ _ _ hw => exact hw.trans hs
  | select _ _ _ hw => exact hw
  | next _ _ _ hw => exact hw.trans hs

/-! Once the read task or the receive loop is out of its loop, a signal is on its way. -/

/-- What the receive task still has to do before it gives up the events. -/
def recvWeight : RecvTask → ℕ
  | .looping => 2
  | .left => 1
  | .closed => 0
  | .drained => 0

/-- What is left to do before a signal fires. -/
def distance (s : State) : ℕ :=
  s.hub.weight + recvWeight s.mplex.recvTask +
    (s.hub.unread transportlocal).length + (s.hub.unread mplexClone).length + (!s.watching).toNat

theorem recvWeight_next {r r' : RecvTask} (h : RecvTask.Next r r') : recvWeight r' ≤ recvWeight r := by
  cases h <;> simp [recvWeight]

theorem recvWeight_le (h : step cap s a = some t) :
    recvWeight t.mplex.recvTask ≤ recvWeight s.mplex.recvTask := by
  rcases step_mplex h with he | ⟨b,hb⟩
  · rw [he]
  · rcases step_recvTask hb with he | hnext
    · rw [he]
    · exact recvWeight_next hnext

theorem notLooping_of_step (h : step cap s a = some t) (hs : s.mplex.recvTask ≠ .looping) :
    t.mplex.recvTask ≠ .looping := by
  rcases step_mplex h with he | ⟨b,hb⟩
  · rwa [he]
  · rcases step_recvTask hb with he | hnext
    · rwa [he]
    · exact hnext.ne_looping

theorem weight_le (h : step cap s a = some t) : t.hub.weight ≤ s.hub.weight := by
  rcases step_hub h with he | ⟨b,hb,-⟩
  · rw [he]
  · exact Hub.weight_le hb

theorem unread_of_step (h : step cap s a = some t) (ha : ∀ f, a ≠ .hub (.frame f)) (i : ℕ) :
    t.hub.unread i = s.hub.unread i ∨ ∃ f, s.hub.unread i = f :: t.hub.unread i := by
  rcases step_hub h with he | ⟨b,hb,hab⟩
  · exact Or.inl (by rw [he])
  · rcases Hub.unread_of_step hb (hab.noFrame ha) i with he | ⟨-,hf⟩
    · exact Or.inl he
    · exact Or.inr hf

theorem unread_length_le (h : step cap s a = some t) (ha : ∀ f, a ≠ .hub (.frame f)) (i : ℕ) :
    (t.hub.unread i).length ≤ (s.hub.unread i).length := by
  rcases unread_of_step h ha i with he | ⟨f,he⟩
  · rw [he]
  · rw [he,List.length_cons]
    omega

theorem watching_le (h : step cap s a = some t) : (!t.watching).toNat ≤ (!s.watching).toNat := by
  cases hw : s.watching with
  | true => simp [step_watching h hw]
  | false => exact Bool.toNat_le _

theorem distance_le (h : step cap s a = some t) (ha : ∀ f, a ≠ .hub (.frame f)) :
    distance t ≤ distance s := by
  have h1 := weight_le h
  have h2 := recvWeight_le h
  have h3 := unread_length_le h ha transportlocal
  have h4 := unread_length_le h ha mplexClone
  have h5 := watching_le h
  unfold distance
  omega

theorem owed_noFrame (ha : Owed a) : ∀ f, a ≠ .hub (.frame f) := by
  rintro f rfl
  cases ha

/-- Each owed step brings the signal closer. -/
theorem distance_lt (ha : Owed a) (h : step cap s a = some t) : distance t < distance s := by
  have h1 := weight_le h
  have h2 := recvWeight_le h
  have h3 := unread_length_le h (owed_noFrame ha) transportlocal
  have h4 := unread_length_le h (owed_noFrame ha) mplexClone
  have h5 := watching_le h
  suffices hlt : t.hub.weight < s.hub.weight ∨
      recvWeight t.mplex.recvTask < recvWeight s.mplex.recvTask ∨
      (t.hub.unread transportlocal).length < (s.hub.unread transportlocal).length ∨
      (t.hub.unread mplexClone).length < (s.hub.unread mplexClone).length ∨
      (!t.watching).toNat < (!s.watching).toNat by
    unfold distance
    omega
  cases a with
  | hub b =>
    obtain ⟨-,hub,hb,rfl⟩ := hub_iff.mp h
    exact Or.inl (Hub.weight_lt ha hb)
  | turn =>
    obtain ⟨f,rest,m,hrx,-,rfl⟩ := turn_iff.mp h
    exact Or.inr (Or.inr (Or.inr (Or.inl (by simp [Hub.State.unread,hrx]))))
  | eof =>
    simp only [step] at h
    split_ifs at h
    obtain ⟨m,hm,rfl⟩ := Option.map_eq_some_iff.mp h
    obtain ⟨hl,rfl⟩ := streamEnd_iff.mp hm
    exact Or.inr (Or.inl (by simp [hl,recvWeight]))
  | takeTx =>
    obtain ⟨m,hm,rfl⟩ := Option.map_eq_some_iff.mp h
    obtain ⟨hl,rfl⟩ := takeTx_iff.mp hm
    exact Or.inr (Or.inl (by simp [hl,recvWeight]))
  | select =>
    simp only [step] at h
    split_ifs at h with hw
    obtain rfl := Option.some.inj h
    exact Or.inr (Or.inr (Or.inr (Or.inr (by simp [hw]))))
  | next =>
    obtain ⟨-,f,rest,hrx,rfl⟩ := next_iff.mp h
    exact Or.inr (Or.inr (Or.inl (by simp [Hub.State.unread,hrx])))
  | _ => exact ha.elim

theorem down_of_step (hs : Down s) (h : step cap s a = some t) : Down t := by
  rcases hs with hr | hl
  · refine Or.inl ?_
    rcases step_hub h with he | ⟨b,hb,-⟩
    · rwa [he]
    · exact Hub.step_notReading hb hr
  · exact Or.inr (notLooping_of_step h hl)

theorem mplex_unread_of_step (h : step cap s a = some t) (ha : ∀ f, a ≠ .hub (.frame f))
    (hturn : a ≠ .turn) : t.hub.unread mplexClone = s.hub.unread mplexClone := by
  rcases step_hub h with he | ⟨b,hb,hab⟩
  · rw [he]
  · rcases Hub.unread_of_step hb (hab.noFrame ha) mplexClone with he | ⟨rfl,-⟩
    · exact he
    · cases hab with
      | hub _ hown => simp [ownPoll] at hown
      | turn => exact absurd rfl hturn

/-- The frame that ends the loop stays in the buffer until the loop takes it. -/
theorem doomed_of_step (hs : Doomed s) (h : step cap s a = some t)
    (ha : ∀ f, a ≠ .hub (.frame f)) : Down t ∨ Doomed t := by
  obtain ⟨hl,g,hg,hcut⟩ := hs
  by_cases hloop : t.mplex.recvTask = .looping
  · refine Or.inr ⟨hloop,g,?_,hcut⟩
    by_cases hturn : a = .turn
    · subst hturn
      obtain ⟨f,rest,m,hrx,hm,rfl⟩ := turn_iff.mp h
      have hne : g ≠ f := by
        rintro rfl
        rw [frameTurn_unreadable hl hcut] at hm
        obtain rfl := Option.some.inj hm
        cases hloop
      simpa [Hub.State.unread,hrx,hne] using hg
    · rwa [mplex_unread_of_step h ha hturn]
  · exact Or.inl (Or.inr hloop)

theorem doomed_or_down_of_step (hs : Down s ∨ Doomed s) (h : step cap s a = some t)
    (ha : ∀ f, a ≠ .hub (.frame f)) : Down t ∨ Doomed t := by
  rcases hs with hd | hd
  · exact Or.inl (down_of_step hd h)
  · exact doomed_of_step hd h ha

theorem ownPoll_of_toEnd {b : Hub.Label} (hb : b.toEnd = true) : ownPoll b = false := by
  cases b with
  | poll i => cases hb
  | _ => rfl

theorem exists_turn (cap : Hub.Capacity) (hl : s.mplex.recvTask = .looping) {f : Bytes}
    {rest : List Bytes} (hrx : s.hub.deviceRx mplexClone = some (f :: rest)) :
    ∃ t, step cap s .turn = some t := by
  by_cases hf : Unreadable f
  · exact ⟨_,turn_iff.mpr ⟨f,rest,_,hrx,frameTurn_unreadable hl hf,rfl⟩⟩
  · obtain ⟨m,hm,-⟩ := frameTurn_readable hl hf
    exact ⟨_,turn_iff.mpr ⟨f,rest,m,hrx,hm,rfl⟩⟩

theorem exists_next (cap : Hub.Capacity) (hv : Valid s) (hgone : ¬s.hub.senderAlive)
    (hended : ¬s.hub.ended transportlocal) : Transition.Enabled (step cap) Owed s := by
  by_cases hw : s.watching = true
  · obtain ⟨unread,hrx⟩ := Option.isSome_iff_exists.mp hv.localRx
    cases unread with
    | nil => exact absurd ⟨hrx,hgone⟩ hended
    | cons f rest => exact ⟨.next,_,trivial,next_iff.mpr ⟨hw,f,rest,hrx,rfl⟩⟩
  · exact ⟨.select,_,trivial,if_neg hw⟩

/-- Until a signal fires some task has a step to take. -/
theorem exists_owed (cap : Hub.Capacity) (hv : Valid s) (hs : Down s ∨ Doomed s)
    (hfired : ¬Fired s) : Transition.Enabled (step cap) Owed s := by
  unfold Fired at hfired
  push Not at hfired
  obtain ⟨hclosed,hdrained,hended⟩ := hfired
  cases hloop : s.mplex.recvTask with
  | closed => exact absurd hloop hclosed
  | drained => exact absurd hloop hdrained
  | left => exact ⟨.takeTx,_,trivial,Option.map_eq_some_iff.mpr ⟨_,takeTx_iff.mpr ⟨hloop,rfl⟩,rfl⟩⟩
  | looping =>
    rcases hs with (hr | hl) | ⟨-,g,hg,-⟩
    · by_cases halive : s.hub.senderAlive
      · obtain ⟨b,hub,hend,hb⟩ := Hub.exists_toEnd cap hv.hub hr halive
        exact ⟨.hub b,_,hend,hub_iff.mpr ⟨ownPoll_of_toEnd hend,hub,hb,rfl⟩⟩
      · exact exists_next cap hv halive hended
    · exact absurd hloop hl
    · obtain ⟨unread,hrx⟩ := Option.isSome_iff_exists.mp hv.mplexRx
      cases unread with
      | nil => simp [Hub.State.unread,hrx] at hg
      | cons f rest =>
        obtain ⟨t,ht⟩ := exists_turn cap hloop hrx
        exact ⟨.turn,t,trivial,ht⟩

def Ending (s : State) : Prop := Valid s ∧ (Down s ∨ Doomed s)

theorem noticed_of_down_or_doomed (hv : Valid s) (hs : Down s ∨ Doomed s) : Noticed cap s := by
  intro e he hfair hframe
  have h0 : Ending (e.state 0) := he ▸ ⟨hv,hs⟩
  have hstep : ∀ n a, e.label n = some a → Ending (e.state n) → Ending (e.state (n+1)) := by
    rintro n a hl ⟨hv,hs⟩
    have h := e.step_of_label hl
    have ha : ∀ f, a ≠ .hub (.frame f) := fun f hf => hframe n f (hf ▸ hl)
    exact ⟨step_valid hv h,doomed_or_down_of_step hs h ha⟩
  refine e.eventually_of_measure distance hfair h0 hstep ?_ ?_ ?_
  · rintro s ⟨hv,hs⟩ hf
    exact exists_owed cap hv hs hf
  · intro s a t _ ha h
    exact distance_lt ha h
  · intro n a hl _
    exact distance_le (e.step_of_label hl) fun f hf => hframe n f (hf ▸ hl)

/-! Otherwise the tasks may wait for the device for ever. -/

structure Waiting (s : State) : Prop where
  reading : s.hub.readTask = .reading
  looping : s.mplex.recvTask = .looping
  readable : ∀ f ∈ s.hub.unread mplexClone, ¬Unreadable f

theorem waiting_of_not (hs : ¬(Down s ∨ Doomed s)) : Waiting s := by
  rw [not_or] at hs
  obtain ⟨hdown,hdoomed⟩ := hs
  unfold Down at hdown
  push Not at hdown
  exact ⟨hdown.1,hdown.2,fun f hf hcut => hdoomed ⟨hdown.2,f,hf,hcut⟩⟩

theorem not_fired_of_waiting (hs : Waiting s) : ¬Fired s := by
  rintro (hr | hr | hended)
  · simp [hs.looping] at hr
  · simp [hs.looping] at hr
  · exact hended.2 (Or.inr (Or.inl hs.reading))

theorem waiting_of_step (hs : Waiting s) (ha : Owed a) (h : step cap s a = some t) :
    Waiting t := by
  obtain ⟨hr,hl,hread⟩ := hs
  cases a with
  | hub b =>
    have hsame := mplex_unread_of_step h (owed_noFrame ha) (by simp)
    obtain ⟨-,hub,hb,rfl⟩ := hub_iff.mp h
    exact ⟨Hub.reading_of_toEnd ha hb hr,hl,fun f hf => hread f (hsame ▸ hf)⟩
  | turn =>
    obtain ⟨f,rest,m,hrx,hm,rfl⟩ := turn_iff.mp h
    have hall : ∀ g ∈ f :: rest, ¬Unreadable g := by simpa [Hub.State.unread,hrx] using hread
    obtain ⟨m',hm',hloop,-⟩ := frameTurn_readable hl (hall f (by simp))
    obtain rfl := Option.some.inj (hm.symm.trans hm')
    refine ⟨hr,hloop,fun g hg => hall g ?_⟩
    exact List.mem_cons_of_mem _ (by simpa [Hub.State.unread] using hg)
  | eof =>
    simp only [step] at h
    split_ifs at h with hended
    exact absurd (Or.inr (Or.inl hr)) hended.2
  | takeTx =>
    obtain ⟨m,hm,-⟩ := Option.map_eq_some_iff.mp h
    have hleft := (takeTx_iff.mp hm).1
    simp [hl] at hleft
  | select =>
    simp only [step] at h
    split_ifs at h
    obtain rfl := Option.some.inj h
    exact ⟨hr,hl,hread⟩
  | next =>
    have hsame := mplex_unread_of_step h (owed_noFrame ha) (by simp)
    obtain ⟨-,f,rest,hrx,rfl⟩ := next_iff.mp h
    exact ⟨hr,hl,fun g hg => hread g (hsame ▸ hg)⟩
  | _ => exact ha.elim

/-- The scheduler that only runs the tasks never sees a signal. -/
theorem not_noticed_of_waiting (hs : Waiting s) : ¬Noticed cap s := by
  intro hn
  have hall : ∀ n, Waiting ((Transition.greedy (step cap) Owed s).state n) := by
    refine Transition.Execution.invariant _ hs fun n a hl hw => ?_
    exact waiting_of_step hw (Transition.greedy_owed _ _ hl)
      (Transition.Execution.step_of_label _ hl)
  obtain ⟨n,hf⟩ := hn (Transition.greedy (step cap) Owed s) rfl (Transition.greedy_fair _ _ s)
    fun n f hl => owed_noFrame (Transition.greedy_owed _ _ hl) f rfl
  exact not_fired_of_waiting (hall n) hf

theorem noticed_iff (hv : Valid s) : Noticed cap s ↔ Down s ∨ Doomed s := by
  refine ⟨fun hn => ?_,noticed_of_down_or_doomed hv⟩
  by_contra hs
  exact not_noticed_of_waiting (waiting_of_not hs) hn

/-! The path breaks at a write error, or when the hub is shut down. -/

/-- A write error comes only after one of the two tasks that are watched has left its loop. -/
def WriteErrorSeen (s : State) : Label → Prop
  | .hub .writeError => Down s
  | _ => True

def Seen (s : State) : Prop := Valid s ∧ (s.hub.sendTask = .failed → Down s)

theorem failed_of_step (h : step cap s a = some t) (ht : t.hub.sendTask = .failed) :
    s.hub.sendTask = .failed ∨ a = .hub .writeError := by
  rcases step_hub h with he | ⟨b,hb,hab⟩
  · exact Or.inl (he ▸ ht)
  · rcases Hub.failed_of_step hb ht with hs | rfl
    · exact Or.inl hs
    · cases hab
      exact Or.inr rfl

theorem seen_of_step (hs : Seen s) (ha : WriteErrorSeen s a) (h : step cap s a = some t) :
    Seen t := by
  refine ⟨step_valid hs.1 h,fun ht => ?_⟩
  rcases failed_of_step h ht with hf | rfl
  · exact down_of_step (hs.2 hf) h
  · exact down_of_step ha h

/-- A send only fails when the send task is gone: after a write error, or with the read task. -/
theorem down_of_broken (hs : Seen s) (hb : Broken s) : Down s := by
  rcases hb with hf | hf
  · exact hs.2 hf
  · rcases hs.1.sent hf with hfailed | hended
    · exact hs.2 hfailed
    · exact Or.inl (hs.1.hub.stopped (Or.inr hended))

/-- In a run whose write errors all come after the read task or the receive loop has left its
loop, a broken command path is noticed. In any state a signal is to come exactly if one of the
two has left its loop, or the frame that ends the receive loop waits in its buffer. -/
theorem broken_path_noticed (cap : Hub.Capacity) (as : List Label) (s : State)
    (h : Transition.run (step cap) init as = some s) :
    (Transition.Along (step cap) WriteErrorSeen init as → Broken s → Noticed cap s) ∧
      (Noticed cap s ↔ Down s ∨ Doomed s) := by
  have hv : Valid s :=
    Transition.run_invariant (fun _ _ _ hs h => step_valid hs h) init_valid h
  refine ⟨fun hseen hb => ?_,noticed_iff hv⟩
  have hs : Seen s := Transition.guarded_invariant (fun _ _ _ hs ha h => seen_of_step hs ha h)
    ⟨init_valid,nofun⟩ hseen h
  exact noticed_of_down_or_doomed hv (Or.inl (down_of_broken hs hb))

/-- The transport ends, then a command goes out and its write fails. -/
theorem broken_path_noticed_after_end : ∃ s,
    Transition.run (step ⟨128,103⟩) init
      [.hub .readEnd,.call (.enqueue 0 (.setMute true)),.call (.lock 0),.send 0,
        .hub .writeError] = some s ∧ Broken s ∧ Noticed ⟨128,103⟩ s := by
  have hrun : (Transition.run (step ⟨128,103⟩) init
      [.hub .readEnd,.call (.enqueue 0 (.setMute true)),.call (.lock 0),.send 0,
        .hub .writeError]).map (fun s => s.hub.sendTask) = some .failed := rfl
  obtain ⟨s,hs,hfailed⟩ := Option.map_eq_some_iff.mp hrun
  refine ⟨s,hs,Or.inl hfailed,(broken_path_noticed _ _ s hs).1 ?_ (Or.inl hfailed)⟩
  refine (Transition.along_cons_of rfl).mpr ⟨trivial,?_⟩
  refine (Transition.along_cons_of rfl).mpr ⟨trivial,?_⟩
  refine (Transition.along_cons_of rfl).mpr ⟨trivial,?_⟩
  refine (Transition.along_cons_of rfl).mpr ⟨trivial,?_⟩
  exact (Transition.along_cons_of rfl).mpr ⟨Or.inl nofun,trivial⟩

/-- The write of a command fails while the device is silent: both loops wait on. -/
theorem write_error_unnoticed : ¬∀ (cap : Hub.Capacity) (as : List Label) (s : State),
    Transition.run (step cap) init as = some s → Broken s → Noticed cap s := by
  intro h
  have hrun : (Transition.run (step ⟨128,103⟩) init
      [.select,.call (.enqueue 0 (.setMute true)),.call (.lock 0),.send 0,.hub .writeError]).map
        (fun s => (s.hub.sendTask,s.hub.readTask,s.mplex.recvTask,s.hub.unread mplexClone)) =
      some (.failed,.reading,.looping,[]) := rfl
  obtain ⟨s,hs,hstate⟩ := Option.map_eq_some_iff.mp hrun
  simp only [Prod.mk.injEq] at hstate
  obtain ⟨hfailed,hread,hloop,hunread⟩ := hstate
  exact not_noticed_of_waiting ⟨hread,hloop,by simp [hunread]⟩ (h _ _ s hs (Or.inl hfailed))

end DeviceTask
end Minidsp
