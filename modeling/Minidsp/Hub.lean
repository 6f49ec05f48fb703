import Mathlib.Logic.Function.Basic
import Minidsp.Buffer

/-! The hub that shares a transport: a read task that broadcasts the frames of the device to
all clones, and a send task that writes the frames of all clones to the device. -/
namespace Minidsp
namespace Hub

open Buffer

/-- The read task: in its loop, past it, with its half of the sender dropped, gone; or aborted
and not dropped yet. -/
inductive ReadTask
  | reading
  | leaving
  | dropped
  | done
  | cancelled
  deriving DecidableEq

/-- The send task: in its loop, past it after a write error; or aborted, and then dropped. -/
inductive SendTask
  | sending
  | failed
  | cancelled
  | ended
  deriving DecidableEq

/-- `Inner`, which shares the sender with the read task: in the slot of all clones, taken out of
it by `shutdown` and not dropped yet, or dropped. -/
inductive Slot
  | shared
  | taken
  | dropped
  deriving DecidableEq

/-- `take()` by the read task, which drops what it took. -/
def Slot.clear : Slot → Slot
  | .shared => .dropped
  | slot => slot

/-- `take()` by `shutdown`, which keeps it. -/
def Slot.take : Slot → Slot
  | .shared => .taken
  | slot => slot

theorem Slot.clear_ne_shared (slot : Slot) : slot.clear ≠ .shared := by cases slot <;> exact nofun
theorem Slot.clear_eq_taken {slot : Slot} : slot.clear = .taken ↔ slot = .taken := by
  cases slot <;> simp [Slot.clear]
theorem Slot.take_ne_shared (slot : Slot) : slot.take ≠ .shared := by cases slot <;> exact nofun

structure State where
  inner : Slot
  readTask : ReadTask
  sendTask : SendTask
  /-- The frames on their way to the send task. -/
  deviceTx : List Bytes
  /-- What each clone has not read yet. -/
  deviceRx : ℕ → Option (List Bytes)

/-- How far a receiver of the broadcast may lag, and how many frames wait for the send task. -/
structure Capacity where
  broadcast : ℕ
  mpsc : ℕ

/-- A receiver that lags too far loses its oldest frames. -/
def push (retain : ℕ) (f : Bytes) (unread : List Bytes) : List Bytes :=
  (unread ++ [f]).drop (unread.length+1-retain)

def State.senderAlive (s : State) : Prop :=
  s.inner ≠ .dropped ∨ s.readTask = .reading ∨ s.readTask = .leaving ∨ s.readTask = .cancelled

instance (s : State) : Decidable s.senderAlive := inferInstanceAs (Decidable (_ ∨ _))

def State.ended (s : State) (i : ℕ) : Prop := s.deviceRx i = some [] ∧ ¬s.senderAlive

/-- The receiver of the frames to the device is dropped with the send task. -/
def State.txClosed (s : State) : Prop := s.sendTask = .failed ∨ s.sendTask = .ended

instance (s : State) (i : ℕ) : Decidable (s.ended i) := inferInstanceAs (Decidable (_ ∧ _))
instance (s : State) : Decidable s.txClosed := inferInstanceAs (Decidable (_ ∨ _))

inductive Label
  | frame (f : Bytes)
  /-- `device_rx` ends or fails, or the broadcast has no receiver. -/
  | readEnd
  | dropTx
  | takeInner
  | dropCancelled
  | transmit
  | writeError
  | dropSend
  | tryClone (i : ℕ)
  | poll (i : ℕ)
  | startSend (f : Bytes)
  | shutdown
  /-- `shutdown` has the lock of the sink, and drops `Inner`. -/
  | dropInner
  /-- The future of `shutdown` is dropped while it waits for that lock. -/
  | dropShutdown

def step (cap : Capacity) (s : State) : Label → Option State
  | .frame f =>
    if s.readTask = .reading then
      some { s with deviceRx := fun i => (s.deviceRx i).map (push cap.broadcast f) }
    else none
  | .readEnd => if s.readTask = .reading then some { s with readTask := .leaving } else none
  | .dropTx => if s.readTask = .leaving then some { s with readTask := .dropped } else none
  | .takeInner =>
    if s.readTask = .dropped then some { s with readTask := .done, inner := s.inner.clear }
    else none
  | .dropCancelled => if s.readTask = .cancelled then some { s with readTask := .done } else none
  | .transmit =>
    match s.sendTask,s.deviceTx with
    | .sending,_ :: rest => some { s with deviceTx := rest }
    | _,_ => none
  | .writeError =>
    match s.sendTask,s.deviceTx with
    | .sending,_ :: _ => some { s with sendTask := .failed, deviceTx := [] }
    | _,_ => none
  | .dropSend =>
    if s.sendTask = .cancelled then some { s with sendTask := .ended, deviceTx := [] } else none
  | .tryClone i =>
    if s.inner = .shared ∧ s.deviceRx i = none then
      some { s with deviceRx := Function.update s.deviceRx i (some []) }
    else none
  | .poll i =>
    match s.deviceRx i with
    | some (_ :: rest) => some { s with deviceRx := Function.update s.deviceRx i (some rest) }
    | _ => none
  | .startSend f =>
    if ¬s.txClosed ∧ s.deviceTx.length < cap.mpsc then
      some { s with deviceTx := s.deviceTx ++ [f] }
    else none
  | .shutdown => some { s with
      inner := s.inner.take
      -- the tasks are aborted; a task past its loop has no await point left
      readTask := if s.readTask = .reading then .cancelled else s.readTask
      sendTask := if s.sendTask = .sending then .cancelled else s.sendTask }
  | .dropInner =>
    -- the send task holds the lock of the sink until it ends
    if s.inner = .taken ∧ s.txClosed then some { s with inner := .dropped } else none
  | .dropShutdown => if s.inner = .taken then some { s with inner := .dropped } else none

structure State.Valid (s : State) : Prop where
  done : s.readTask = .done → s.inner ≠ .shared
  cancelled : s.readTask = .cancelled → s.inner ≠ .shared
  taken : s.inner = .taken → s.sendTask ≠ .sending
  stopped : s.sendTask = .cancelled ∨ s.sendTask = .ended → s.readTask ≠ .reading

variable {cap : Capacity} {s t : State} {a : Label}

theorem poll_iff {i : ℕ} : step cap s (.poll i) = some t ↔ ∃ f rest,
    s.deviceRx i = some (f :: rest) ∧
      t = { s with deviceRx := Function.update s.deviceRx i (some rest) } := by
  simp only [step]
  split
  · rename_i f rest hi
    simp [hi,eq_comm]
  · rename_i hno
    refine ⟨nofun,?_⟩
    rintro ⟨f,rest,hi,-⟩
    exact absurd hi (hno f rest)

/-- Everything a step can do. -/
theorem step_spec (h : step cap s a = some t) : match a with
    | .frame f => s.readTask = .reading ∧
      t = { s with deviceRx := fun i => (s.deviceRx i).map (push cap.broadcast f) }
    | .readEnd => s.readTask = .reading ∧ t = { s with readTask := .leaving }
    | .dropTx => s.readTask = .leaving ∧ t = { s with readTask := .dropped }
    | .takeInner => s.readTask = .dropped ∧
      t = { s with readTask := .done, inner := s.inner.clear }
    | .dropCancelled => s.readTask = .cancelled ∧ t = { s with readTask := .done }
    | .transmit => ∃ f rest, (s.sendTask = .sending ∧ s.deviceTx = f :: rest) ∧
      t = { s with deviceTx := rest }
    | .writeError => ∃ f rest, (s.sendTask = .sending ∧ s.deviceTx = f :: rest) ∧
      t = { s with sendTask := .failed, deviceTx := [] }
    | .dropSend => s.sendTask = .cancelled ∧ t = { s with sendTask := .ended, deviceTx := [] }
    | .tryClone i => (s.inner = .shared ∧ s.deviceRx i = none) ∧
      t = { s with deviceRx := Function.update s.deviceRx i (some []) }
    | .poll i => ∃ f rest, s.deviceRx i = some (f :: rest) ∧
      t = { s with deviceRx := Function.update s.deviceRx i (some rest) }
    | .startSend f => (¬s.txClosed ∧ s.deviceTx.length < cap.mpsc) ∧
      t = { s with deviceTx := s.deviceTx ++ [f] }
    | .shutdown => t = { s with
        inner := s.inner.take
        readTask := if s.readTask = .reading then .cancelled else s.readTask
        sendTask := if s.sendTask = .sending then .cancelled else s.sendTask }
    | .dropInner => (s.inner = .taken ∧ s.txClosed) ∧ t = { s with inner := .dropped }
    | .dropShutdown => s.inner = .taken ∧ t = { s with inner := .dropped } := by
  cases a with
  | poll i => exact poll_iff.mp h
  | shutdown => exact (Option.some.inj h).symm
  | transmit | writeError =>
    simp only [step] at h
    split at h
    · rename_i hsend htx
      exact ⟨_,_,⟨hsend,htx⟩,(Option.some.inj h).symm⟩
    · cases h
  | _ =>
    obtain ⟨hguard,ht⟩ := Option.ite_none_right_eq_some.mp h
    exact ⟨hguard,(Option.some.inj ht).symm⟩

inductive Moves (s t : State) : Label → Prop
  | keep (a : Label) : t.inner = s.inner → t.readTask = s.readTask → t.sendTask = s.sendTask →
      Moves s t a
  | readEnd : s.readTask = .reading → t.readTask = .leaving → t.inner = s.inner →
      t.sendTask = s.sendTask → Moves s t .readEnd
  | dropTx : s.readTask = .leaving → t.readTask = .dropped → t.inner = s.inner →
      t.sendTask = s.sendTask → Moves s t .dropTx
  | takeInner : s.readTask = .dropped → t.readTask = .done → t.inner = s.inner.clear →
      t.sendTask = s.sendTask → Moves s t .takeInner
  | dropCancelled : s.readTask = .cancelled → t.readTask = .done → t.inner = s.inner →
      t.sendTask = s.sendTask → Moves s t .dropCancelled
  | writeError : s.sendTask = .sending → t.sendTask = .failed → t.inner = s.inner →
      t.readTask = s.readTask → Moves s t .writeError
  | dropSend : s.sendTask = .cancelled → t.sendTask = .ended → t.inner = s.inner →
      t.readTask = s.readTask → Moves s t .dropSend
  | shutdown : t.inner = s.inner.take →
      t.readTask = (if s.readTask = .reading then .cancelled else s.readTask) →
      t.sendTask = (if s.sendTask = .sending then .cancelled else s.sendTask) →
      Moves s t .shutdown
  | dropInner (a : Label) : s.inner = .taken → t.inner = .dropped → t.readTask = s.readTask →
      t.sendTask = s.sendTask → Moves s t a

theorem step_moves (h : step cap s a = some t) : Moves s t a := by
  cases a with
  | frame _ | tryClone _ | startSend _ =>
    obtain ⟨-,rfl⟩ := step_spec h
    exact .keep _ rfl rfl rfl
  | transmit =>
    obtain ⟨f,rest,-,rfl⟩ := step_spec h
    exact .keep _ rfl rfl rfl
  | poll i =>
    obtain ⟨f,rest,-,rfl⟩ := step_spec h
    exact .keep _ rfl rfl rfl
  | readEnd =>
    obtain ⟨hr,rfl⟩ := step_spec h
    exact .readEnd hr rfl rfl rfl
  | dropTx =>
    obtain ⟨hr,rfl⟩ := step_spec h
    exact .dropTx hr rfl rfl rfl
  | takeInner =>
    obtain ⟨hr,rfl⟩ := step_spec h
    exact .takeInner hr rfl rfl rfl
  | dropCancelled =>
    obtain ⟨hr,rfl⟩ := step_spec h
    exact .dropCancelled hr rfl rfl rfl
  | writeError =>
    obtain ⟨f,rest,⟨hsend,-⟩,rfl⟩ := step_spec h
    exact .writeError hsend rfl rfl rfl
  | dropSend =>
    obtain ⟨hsend,rfl⟩ := step_spec h
    exact .dropSend hsend rfl rfl rfl
  | shutdown =>
    obtain rfl : t = _ := step_spec h
    exact .shutdown rfl rfl rfl
  | dropInner =>
    obtain ⟨⟨hinner,-⟩,rfl⟩ := step_spec h
    exact .dropInner _ hinner rfl rfl rfl
  | dropShutdown =>
    obtain ⟨hinner,rfl⟩ := step_spec h
    exact .dropInner _ hinner rfl rfl rfl

theorem step_valid (hs : s.Valid) (h : step cap s a = some t) : t.Valid := by
  obtain ⟨hdone,hcancelled,htaken,hstopped⟩ := hs
  cases step_moves h with
  | keep a hi hr hst => exact ⟨by rwa [hi,hr],by rwa [hi,hr],by rwa [hi,hst],by rwa [hr,hst]⟩
  | readEnd _ hr hi hst => exact ⟨by simp [hr],by simp [hr],by rwa [hi,hst],by simp [hr]⟩
  | dropTx _ hr hi hst => exact ⟨by simp [hr],by simp [hr],by rwa [hi,hst],by simp [hr]⟩
  | takeInner _ hr hi hst =>
    have hgone : t.inner ≠ .shared := hi ▸ s.inner.clear_ne_shared
    refine ⟨fun _ => hgone,fun _ => hgone,?_,by simp [hr]⟩
    rw [hi,hst]
    exact fun h => htaken (Slot.clear_eq_taken.mp h)
  | dropCancelled hc hr hi hst =>
    have hgone : t.inner ≠ .shared := hi ▸ hcancelled hc
    exact ⟨fun _ => hgone,fun _ => hgone,by rwa [hi,hst],by simp [hr]⟩
  | writeError _ hst hi hr =>
    exact ⟨by rwa [hi,hr],by rwa [hi,hr],by simp [hst],by simp [hst]⟩
  | dropSend hc hst hi hr =>
    refine ⟨by rwa [hi,hr],by rwa [hi,hr],by simp [hst],fun _ => ?_⟩
    rw [hr]
    exact hstopped (Or.inl hc)
  | shutdown hi hr hst =>
    have hgone : t.inner ≠ .shared := hi ▸ s.inner.take_ne_shared
    refine ⟨fun _ => hgone,fun _ => hgone,fun _ => ?_,fun _ => ?_⟩
    · rw [hst]
      split_ifs with hsend
      · exact nofun
      · exact hsend
    · rw [hr]
      split_ifs with hread
      · exact nofun
      · exact hread
  | dropInner _ _ hi hr hst =>
    exact ⟨by simp [hi],by simp [hi],by simp [hi],by rwa [hr,hst]⟩

theorem step_notReading (h : step cap s a = some t) (hs : s.readTask ≠ .reading) :
    t.readTask ≠ .reading := by
  cases step_moves h with
  | keep _ _ hr _ => rwa [hr]
  | writeError _ _ _ hr => rwa [hr]
  | dropSend _ _ _ hr => rwa [hr]
  | shutdown _ hr _ => rwa [hr,if_neg hs]
  | dropInner _ _ _ hr _ => rwa [hr]
  | readEnd _ hr => simp [hr]
  | dropTx _ hr => simp [hr]
  | takeInner _ hr => simp [hr]
  | dropCancelled _ hr => simp [hr]

/-- Only a write error ends the send task of itself. -/
theorem failed_of_step (h : step cap s a = some t) (ht : t.sendTask = .failed) :
    s.sendTask = .failed ∨ a = .writeError := by
  cases step_moves h with
  | keep _ _ _ hst => exact Or.inl (hst ▸ ht)
  | readEnd _ _ _ hst => exact Or.inl (hst ▸ ht)
  | dropTx _ _ _ hst => exact Or.inl (hst ▸ ht)
  | takeInner _ _ _ hst => exact Or.inl (hst ▸ ht)
  | dropCancelled _ _ _ hst => exact Or.inl (hst ▸ ht)
  | dropInner _ _ _ _ hst => exact Or.inl (hst ▸ ht)
  | writeError => exact Or.inr rfl
  | dropSend _ hst => simp [hst] at ht
  | shutdown _ _ hst =>
    rw [hst] at ht
    split_ifs at ht
    exact Or.inl ht

/-! What is still to be done before the sender is gone. -/

def readWeight : ReadTask → ℕ
  | .reading => 3
  | .leaving => 2
  | .dropped => 1
  | .cancelled => 1
  | .done => 0

def innerWeight : Slot → ℕ
  | .shared => 2
  | .taken => 1
  | .dropped => 0

def sendWeight : SendTask → ℕ
  | .sending => 2
  | .cancelled => 1
  | .failed => 0
  | .ended => 0

def State.weight (s : State) : ℕ :=
  readWeight s.readTask + innerWeight s.inner + sendWeight s.sendTask

theorem readWeight_le (h : step cap s a = some t) :
    readWeight t.readTask ≤ readWeight s.readTask := by
  cases step_moves h with
  | keep _ _ hr _ => rw [hr]
  | writeError _ _ _ hr => rw [hr]
  | dropSend _ _ _ hr => rw [hr]
  | dropInner _ _ _ hr _ => rw [hr]
  | shutdown _ hr _ =>
    rw [hr]
    split_ifs with hread <;> simp [hread,readWeight]
  | readEnd hs hr => simp [hs,hr,readWeight]
  | dropTx hs hr => simp [hs,hr,readWeight]
  | takeInner hs hr => simp [hs,hr,readWeight]
  | dropCancelled hs hr => simp [hs,hr,readWeight]

theorem innerWeight_le (h : step cap s a = some t) :
    innerWeight t.inner ≤ innerWeight s.inner := by
  cases step_moves h with
  | keep _ hi _ _ => rw [hi]
  | readEnd _ _ hi => rw [hi]
  | dropTx _ _ hi => rw [hi]
  | dropCancelled _ _ hi => rw [hi]
  | writeError _ _ hi => rw [hi]
  | dropSend _ _ hi => rw [hi]
  | takeInner _ _ hi =>
    rw [hi]
    cases s.inner <;> simp [Slot.clear,innerWeight]
  | shutdown hi =>
    rw [hi]
    cases s.inner <;> simp [Slot.take,innerWeight]
  | dropInner _ hs hi => simp [hs,hi,innerWeight]

theorem sendWeight_le (h : step cap s a = some t) :
    sendWeight t.sendTask ≤ sendWeight s.sendTask := by
  cases step_moves h with
  | keep _ _ _ hst => rw [hst]
  | readEnd _ _ _ hst => rw [hst]
  | dropTx _ _ _ hst => rw [hst]
  | takeInner _ _ _ hst => rw [hst]
  | dropCancelled _ _ _ hst => rw [hst]
  | dropInner _ _ _ _ hst => rw [hst]
  | writeError hs hst => simp [hs,hst,sendWeight]
  | dropSend hs hst => simp [hs,hst,sendWeight]
  | shutdown _ _ hst =>
    rw [hst]
    split_ifs with hsend <;> simp [hsend,sendWeight]

theorem weight_le (h : step cap s a = some t) : t.weight ≤ s.weight := by
  have h1 := readWeight_le h
  have h2 := innerWeight_le h
  have h3 := sendWeight_le h
  unfold State.weight
  omega

/-- What the tasks and a waiting `shutdown` do of themselves to get rid of the sender. -/
def Label.toEnd : Label → Bool
  | .dropTx | .takeInner | .dropCancelled | .dropSend | .dropInner => true
  | _ => false

theorem weight_lt (ha : a.toEnd = true) (h : step cap s a = some t) : t.weight < s.weight := by
  have h1 := readWeight_le h
  have h2 := innerWeight_le h
  have h3 := sendWeight_le h
  suffices hlt : readWeight t.readTask < readWeight s.readTask ∨
      innerWeight t.inner < innerWeight s.inner ∨
      sendWeight t.sendTask < sendWeight s.sendTask by
    unfold State.weight
    omega
  cases a with
  | dropTx | takeInner | dropCancelled =>
    obtain ⟨hr,rfl⟩ := step_spec h
    exact Or.inl (by simp [hr,readWeight])
  | dropInner =>
    obtain ⟨⟨hi,-⟩,rfl⟩ := step_spec h
    exact Or.inr (Or.inl (by simp [hi,innerWeight]))
  | dropSend =>
    obtain ⟨hst,rfl⟩ := step_spec h
    exact Or.inr (Or.inr (by simp [hst,sendWeight]))
  | _ => cases ha

/-- Past the loop of the read task one of these steps is enabled until the sender is gone. -/
theorem exists_toEnd (cap : Capacity) (hs : s.Valid) (hr : s.readTask ≠ .reading)
    (halive : s.senderAlive) : ∃ a t, a.toEnd = true ∧ step cap s a = some t := by
  cases hread : s.readTask with
  | reading => exact absurd hread hr
  | leaving => exact ⟨.dropTx,_,rfl,if_pos hread⟩
  | dropped => exact ⟨.takeInner,_,rfl,if_pos hread⟩
  | cancelled => exact ⟨.dropCancelled,_,rfl,if_pos hread⟩
  | done =>
    have htaken : s.inner = .taken := by
      cases hi : s.inner with
      | shared => exact absurd hi (hs.done hread)
      | taken => rfl
      | dropped => simp [State.senderAlive,hi,hread] at halive
    cases hst : s.sendTask with
    | sending => exact absurd hst (hs.taken htaken)
    | cancelled => exact ⟨.dropSend,_,rfl,if_pos hst⟩
    | failed => exact ⟨.dropInner,_,rfl,if_pos ⟨htaken,Or.inl hst⟩⟩
    | ended => exact ⟨.dropInner,_,rfl,if_pos ⟨htaken,Or.inr hst⟩⟩

theorem reading_of_toEnd (ha : a.toEnd = true) (h : step cap s a = some t)
    (hs : s.readTask = .reading) : t.readTask = .reading := by
  cases step_moves h with
  | keep _ _ hr _ => exact hr.trans hs
  | dropSend _ _ _ hr => exact hr.trans hs
  | dropInner _ _ _ hr _ => exact hr.trans hs
  | dropTx hl => simp [hs] at hl
  | takeInner hl => simp [hs] at hl
  | dropCancelled hl => simp [hs] at hl
  | readEnd | writeError | shutdown => cases ha

def State.unread (s : State) (i : ℕ) : List Bytes := (s.deviceRx i).getD []

inductive Buffers (cap : Capacity) (s t : State) : Label → Prop
  | same (a : Label) : t.deviceRx = s.deviceRx → Buffers cap s t a
  | frame (f : Bytes) : t.deviceRx = (fun i => (s.deviceRx i).map (push cap.broadcast f)) →
      Buffers cap s t (.frame f)
  | tryClone (i : ℕ) : s.deviceRx i = none →
      t.deviceRx = Function.update s.deviceRx i (some []) → Buffers cap s t (.tryClone i)
  | poll (i : ℕ) (f : Bytes) (rest : List Bytes) : s.deviceRx i = some (f :: rest) →
      t.deviceRx = Function.update s.deviceRx i (some rest) → Buffers cap s t (.poll i)

theorem step_buffers (h : step cap s a = some t) : Buffers cap s t a := by
  cases a with
  | frame f =>
    obtain ⟨-,rfl⟩ := step_spec h
    exact .frame f rfl
  | tryClone i =>
    obtain ⟨⟨-,hi⟩,rfl⟩ := step_spec h
    exact .tryClone i hi rfl
  | poll i =>
    obtain ⟨f,rest,hi,rfl⟩ := step_spec h
    exact .poll i f rest hi rfl
  | transmit | writeError =>
    obtain ⟨f,rest,-,rfl⟩ := step_spec h
    exact .same _ rfl
  | shutdown =>
    obtain rfl : t = _ := step_spec h
    exact .same _ rfl
  | readEnd | dropTx | takeInner | dropCancelled | dropSend | startSend _ | dropInner
  | dropShutdown =>
    obtain ⟨-,rfl⟩ := step_spec h
    exact .same _ rfl

theorem unread_of_step (h : step cap s a = some t) (ha : ∀ f, a ≠ .frame f) (i : ℕ) :
    t.unread i = s.unread i ∨ (a = .poll i ∧ ∃ f, s.unread i = f :: t.unread i) := by
  cases step_buffers h with
  | same _ hrx => exact Or.inl (by rw [State.unread,hrx,State.unread])
  | frame f => exact absurd rfl (ha f)
  | tryClone j hnone hrx =>
    by_cases hij : i = j
    · subst hij
      exact Or.inl (by simp [State.unread,hrx,hnone])
    · exact Or.inl (by simp [State.unread,hrx,hij])
  | poll j f rest hj hrx =>
    by_cases hij : i = j
    · subst hij
      exact Or.inr ⟨rfl,f,by simp [State.unread,hrx,hj]⟩
    · exact Or.inl (by simp [State.unread,hrx,hij])

theorem isSome_of_step (h : step cap s a = some t) {i : ℕ} (hi : (s.deviceRx i).isSome) :
    (t.deviceRx i).isSome := by
  cases step_buffers h with
  | same _ hrx => rwa [hrx]
  | frame f hrx => simpa [hrx] using hi
  | tryClone j _ hrx => by_cases hij : i = j <;> simp [hrx,hij,hi]
  | poll j f rest _ hrx => by_cases hij : i = j <;> simp [hrx,hij,hi]

theorem txClosed_of_step (h : step cap s a = some t) (hs : s.txClosed) : t.txClosed := by
  unfold State.txClosed at *
  cases step_moves h with
  | keep _ _ _ hst => rwa [hst]
  | readEnd _ _ _ hst => rwa [hst]
  | dropTx _ _ _ hst => rwa [hst]
  | takeInner _ _ _ hst => rwa [hst]
  | dropCancelled _ _ _ hst => rwa [hst]
  | writeError _ hst => exact Or.inl hst
  | dropSend _ hst => exact Or.inr hst
  | dropInner _ _ _ _ hst => rwa [hst]
  | shutdown _ _ hst =>
    rw [hst,if_neg]
    · exact hs
    · rcases hs with hs | hs <;> simp [hs]

end Hub
end Minidsp
