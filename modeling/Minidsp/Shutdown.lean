import Minidsp.Broadcast
import Minidsp.Buffer
import Mathlib.Logic.Function.Basic
import Minidsp.Transition

/-! The end of a hub: its read task leaves its loop, or calls of `shutdown` take it apart, with
any number of them at once. Who still owns the sender of the broadcast, and what the clones
still get. -/
namespace Minidsp
namespace Shutdown

open Buffer

/-- The read task: in its loop, past it, with its half of the sender dropped, through its exit
code; or aborted, and dropped where it waited. -/
inductive ReadTask
  | reading
  | leaving
  | dropped
  | exited
  | aborted
  deriving DecidableEq

/-- The send task: before it has locked the sink, in its loop with the lock, gone. -/
inductive SendTask
  | starting
  | sending
  | ended
  deriving DecidableEq

/-- A call of `shutdown`. It has drained the handles, which it got or found gone; it has aborted
the read task, and then the send task as well; it has taken `Inner` and waits for the lock of
the sink; it waits for the read task, and then for the send task; it is over, or its future is
dropped. -/
inductive Call
  | idle
  | drained
  | readAborted
  | ready (drained : Bool)
  | locking (drained : Bool)
  | joiningRead
  | joiningSend
  | complete (drained : Bool)
  | cancelled
  deriving DecidableEq

/-- After the wait for the lock: the handles are joined, if there are any. -/
def Call.join : Bool → Call
  | true => .joiningRead
  | false => .complete false

/-- The call owns the `Inner` that it took. -/
def Call.holds : Call → Prop
  | locking _ => True
  | _ => False

structure State where
  /-- There is an `Inner` in the slot that all clones share. -/
  inner : Bool
  /-- The handles of the tasks are not drained. -/
  handles : Bool
  readTask : ReadTask
  sendTask : SendTask
  /-- The tasks are to be dropped where they wait. -/
  readAbort : Bool
  sendAbort : Bool
  calls : ℕ → Call
  clones : ℕ → Option (Broadcast.Lagging Bytes)

def init : State where
  inner := true
  handles := true
  readTask := .reading
  sendTask := .starting
  readAbort := false
  sendAbort := false
  calls _ := .idle
  clones i := if i = 0 then some .new else none

/-- The sender is owned by `Inner`, in the slot or taken out of it, and by the read task. -/
def State.senderAlive (s : State) : Prop :=
  s.inner = true ∨ (∃ k, (s.calls k).holds) ∨ s.readTask = .reading ∨ s.readTask = .leaving

def State.setCall (s : State) (k : ℕ) (c : Call) : State :=
  { s with calls := Function.update s.calls k c }

inductive Label
  | frame (f : Bytes)
  /-- `device_rx` ends or fails, or the broadcast has no receiver. -/
  | readEnd
  | dropTx
  | takeInner
  | cancelRead
  | lockSend
  /-- A write fails. -/
  | sendEnd
  | cancelSend
  | tryClone (i : ℕ)
  | poll (i : ℕ)
  | dropClone (i : ℕ)
  | drain (k : ℕ)
  | abortRead (k : ℕ)
  | abortSend (k : ℕ)
  | take (k : ℕ)
  /-- `shutdown` has the lock of the sink, and drops `Inner`. -/
  | lockSink (k : ℕ)
  | joinRead (k : ℕ)
  | joinSend (k : ℕ)
  /-- The future of `shutdown` is dropped where it waits. -/
  | cancel (k : ℕ)

/-- The frame is put before all clones; the broadcast retains `retain` frames. -/
def step (retain : ℕ) (s : State) : Label → Option State
  | .frame f =>
    if s.readTask = .reading then
      some { s with clones := fun i => (s.clones i).map (·.push retain f) }
    else none
  | .readEnd => if s.readTask = .reading then some { s with readTask := .leaving } else none
  | .dropTx => if s.readTask = .leaving then some { s with readTask := .dropped } else none
  | .takeInner =>
    if s.readTask = .dropped then some { s with readTask := .exited, inner := false } else none
  | .cancelRead =>
    if s.readAbort ∧ s.readTask = .reading then some { s with readTask := .aborted } else none
  | .lockSend => if s.sendTask = .starting then some { s with sendTask := .sending } else none
  | .sendEnd => if s.sendTask = .sending then some { s with sendTask := .ended } else none
  | .cancelSend =>
    if s.sendAbort ∧ s.sendTask ≠ .ended then some { s with sendTask := .ended } else none
  | .tryClone i =>
    if s.inner ∧ s.clones i = none then
      some { s with clones := Function.update s.clones i (some .new) }
    else none
  | .poll i =>
    match (s.clones i).bind Broadcast.Lagging.read with
    | some r => some { s with clones := Function.update s.clones i (some r) }
    | none => none
  | .dropClone i =>
    if (s.clones i).isSome then some { s with clones := Function.update s.clones i none } else none
  | .drain k =>
    if s.calls k = .idle then
      some { s.setCall k (if s.handles then .drained else .ready false) with handles := false }
    else none
  | .abortRead k =>
    if s.calls k = .drained then some { s.setCall k .readAborted with readAbort := true } else none
  | .abortSend k =>
    if s.calls k = .readAborted then some { s.setCall k (.ready true) with sendAbort := true }
    else none
  | .take k =>
    match s.calls k with
    | .ready drained =>
      some { s.setCall k (if s.inner then .locking drained else .join drained) with inner := false }
    | _ => none
  | .lockSink k =>
    match s.calls k with
    | .locking drained =>
      -- the send task has the lock until it ends
      if s.sendTask = .sending then none else some (s.setCall k (.join drained))
    | _ => none
  | .joinRead k =>
    if s.calls k = .joiningRead ∧ (s.readTask = .exited ∨ s.readTask = .aborted) then
      some (s.setCall k .joiningSend)
    else none
  | .joinSend k =>
    if s.calls k = .joiningSend ∧ s.sendTask = .ended then some (s.setCall k (.complete true))
    else none
  | .cancel k =>
    match s.calls k with
    | .locking _ | .joiningRead | .joiningSend => some (s.setCall k .cancelled)
    | _ => none

/-- The read task has run its exit code, or the call that drained the handles is complete. -/
def State.Dead (s : State) : Prop := s.readTask = .exited ∨ ∃ k, s.calls k = .complete true

def State.ended (s : State) (i : ℕ) : Prop :=
  (∃ r, s.clones i = some r ∧ r.unread = []) ∧ ¬s.senderAlive

/-! What each step can do. -/

def ReadTask.Finished (r : ReadTask) : Prop := r = .exited ∨ r = .aborted

inductive ReadTask.Next : ReadTask → ReadTask → Prop
  | leave : Next .reading .leaving
  | dropTx : Next .leaving .dropped
  | abort : Next .reading .aborted

theorem ReadTask.Next.ne_exited {r r' : ReadTask} (h : Next r r') : r' ≠ .exited := by
  cases h <;> exact nofun

theorem ReadTask.Next.not_finished {r r' : ReadTask} (h : Next r r') : ¬r.Finished := by
  cases h <;> simp [Finished]

def Call.Took : Call → Prop
  | idle | drained | readAborted | ready _ => False
  | _ => True

def Call.Waits : Call → Prop
  | locking _ | joiningRead | joiningSend => True
  | _ => False

theorem Call.Waits.took {c : Call} (h : c.Waits) : c.Took := by
  cases c <;> first | exact h.elim | trivial

def Call.Joined : Call → Prop
  | joiningSend | complete true => True
  | _ => False

structure CallMoves (s t : State) (k : ℕ) : Prop where
  others : ∀ j, j ≠ k → t.calls j = s.calls j
  readTask : t.readTask = s.readTask
  clones : t.clones = s.clones
  inner : s.inner = false → t.inner = false
  took : (t.calls k).Took → (s.calls k).Took ∨ t.inner = false
  joined : (t.calls k).Joined → (s.calls k).Joined ∨ s.readTask.Finished
  holds : (t.calls k).holds → s.inner = true
  complete : s.calls k ≠ .complete true

inductive Moves (s t : State) : Prop
  | clones : t = { s with clones := t.clones } → Moves s t
  | read : s.readTask.Next t.readTask → t = { s with readTask := t.readTask } → Moves s t
  | exit : s.readTask = .dropped → t = { s with readTask := .exited, inner := false } → Moves s t
  | send : t = { s with sendTask := t.sendTask } → Moves s t
  | call (k : ℕ) : CallMoves s t k → Moves s t

variable {retain : ℕ} {s t : State} {a : Label}

/-- Everything a step can do. -/
theorem step_spec (h : step retain s a = some t) : match a with
    | .frame f => s.readTask = .reading ∧
      t = { s with clones := fun i => (s.clones i).map (·.push retain f) }
    | .readEnd => s.readTask = .reading ∧ t = { s with readTask := .leaving }
    | .dropTx => s.readTask = .leaving ∧ t = { s with readTask := .dropped }
    | .takeInner => s.readTask = .dropped ∧ t = { s with readTask := .exited, inner := false }
    | .cancelRead =>
      (s.readAbort = true ∧ s.readTask = .reading) ∧ t = { s with readTask := .aborted }
    | .lockSend => s.sendTask = .starting ∧ t = { s with sendTask := .sending }
    | .sendEnd => s.sendTask = .sending ∧ t = { s with sendTask := .ended }
    | .cancelSend =>
      (s.sendAbort = true ∧ s.sendTask ≠ .ended) ∧ t = { s with sendTask := .ended }
    | .tryClone i => (s.inner = true ∧ s.clones i = none) ∧
      t = { s with clones := Function.update s.clones i (some .new) }
    | .poll i => ∃ r r', s.clones i = some r ∧ r.read = some r' ∧
      t = { s with clones := Function.update s.clones i (some r') }
    | .dropClone i => (s.clones i).isSome = true ∧
      t = { s with clones := Function.update s.clones i none }
    | .drain k => s.calls k = .idle ∧
      t = { s.setCall k (if s.handles then .drained else .ready false) with handles := false }
    | .abortRead k => s.calls k = .drained ∧
      t = { s.setCall k .readAborted with readAbort := true }
    | .abortSend k => s.calls k = .readAborted ∧
      t = { s.setCall k (.ready true) with sendAbort := true }
    | .take k => ∃ drained, s.calls k = .ready drained ∧
      t = { s.setCall k (if s.inner then .locking drained else .join drained) with inner := false }
    | .lockSink k => ∃ drained, s.calls k = .locking drained ∧ s.sendTask ≠ .sending ∧
      t = s.setCall k (.join drained)
    | .joinRead k => (s.calls k = .joiningRead ∧ s.readTask.Finished) ∧
      t = s.setCall k .joiningSend
    | .joinSend k => (s.calls k = .joiningSend ∧ s.sendTask = .ended) ∧
      t = s.setCall k (.complete true)
    | .cancel k => (s.calls k).Waits ∧ t = s.setCall k .cancelled := by
  cases a with
  | poll i =>
    simp only [step] at h
    split at h
    · rename_i r' hread
      obtain ⟨r,hr,hread⟩ := Option.bind_eq_some_iff.mp hread
      exact ⟨r,r',hr,hread,(Option.some.inj h).symm⟩
    · cases h
  | take k =>
    simp only [step] at h
    split at h
    · rename_i drained hk
      exact ⟨drained,hk,(Option.some.inj h).symm⟩
    · cases h
  | lockSink k =>
    simp only [step] at h
    split at h
    · rename_i drained hk
      split_ifs at h with hsending
      exact ⟨drained,hk,hsending,(Option.some.inj h).symm⟩
    · cases h
  | cancel k =>
    simp only [step] at h
    split at h
    case h_4 => cases h
    all_goals
      rename_i hk
      exact ⟨by rw [hk]; trivial,(Option.some.inj h).symm⟩
  | _ =>
    obtain ⟨hguard,ht⟩ := Option.ite_none_right_eq_some.mp h
    exact ⟨hguard,(Option.some.inj ht).symm⟩

theorem callMoves_of {k : ℕ} {c : Call} (hcalls : t.calls = Function.update s.calls k c)
    (hread : t.readTask = s.readTask) (hclones : t.clones = s.clones)
    (hinner : t.inner = s.inner ∨ t.inner = false)
    (htook : c.Took → (s.calls k).Took ∨ t.inner = false)
    (hjoined : c.Joined → (s.calls k).Joined ∨ s.readTask.Finished)
    (hholds : c.holds → s.inner = true) (hcomplete : s.calls k ≠ .complete true) :
    CallMoves s t k where
  others j hj := by rw [hcalls,Function.update_of_ne hj]
  readTask := hread
  clones := hclones
  inner hs := by
    rcases hinner with h | h
    · exact h.trans hs
    · exact h
  took := by rw [hcalls,Function.update_self]; exact htook
  joined := by rw [hcalls,Function.update_self]; exact hjoined
  holds := by rw [hcalls,Function.update_self]; exact hholds
  complete := hcomplete

theorem Call.not_joined_join (drained : Bool) : ¬(Call.join drained).Joined := by
  cases drained <;> exact id

theorem Call.not_holds_join (drained : Bool) : ¬(Call.join drained).holds := by
  cases drained <;> exact id

theorem take_moves {k : ℕ} (h : step retain s (.take k) = some t) : CallMoves s t k := by
  obtain ⟨drained,hk,rfl⟩ := step_spec h
  refine callMoves_of rfl rfl rfl (Or.inr rfl) (fun _ => Or.inr rfl) (fun hjoined => ?_)
    (fun hholds => ?_) (by simp [hk])
  · split_ifs at hjoined
    · exact hjoined.elim
    · exact absurd hjoined (Call.not_joined_join drained)
  · split_ifs at hholds with hinner
    · exact hinner
    · exact absurd hholds (Call.not_holds_join drained)

def Label.caller? : Label → Option ℕ
  | .drain k | .abortRead k | .abortSend k | .take k | .lockSink k | .joinRead k | .joinSend k
  | .cancel k => some k
  | _ => none

theorem call_moves {k : ℕ} (ha : a.caller? = some k) (h : step retain s a = some t) :
    CallMoves s t k := by
  cases a with
  | drain k' =>
    obtain rfl := Option.some.inj ha
    obtain ⟨hk,rfl⟩ := step_spec h
    refine callMoves_of rfl rfl rfl (Or.inl rfl) (fun ht => ?_) (fun hj => ?_) (fun hh => ?_)
      (by simp [hk])
    · split_ifs at ht <;> exact ht.elim
    · split_ifs at hj <;> exact hj.elim
    · split_ifs at hh <;> exact hh.elim
  | abortRead k' | abortSend k' =>
    obtain rfl := Option.some.inj ha
    obtain ⟨hk,rfl⟩ := step_spec h
    exact callMoves_of rfl rfl rfl (Or.inl rfl) (fun ht => ht.elim) (fun hj => hj.elim)
      (fun hh => hh.elim) (by simp [hk])
  | take k' =>
    obtain rfl := Option.some.inj ha
    exact take_moves h
  | lockSink k' =>
    obtain rfl := Option.some.inj ha
    obtain ⟨drained,hk,-,rfl⟩ := step_spec h
    exact callMoves_of rfl rfl rfl (Or.inl rfl) (fun _ => Or.inl (by rw [hk]; trivial))
      (fun hj => absurd hj (Call.not_joined_join drained))
      (fun hh => absurd hh (Call.not_holds_join drained)) (by simp [hk])
  | joinRead k' =>
    obtain rfl := Option.some.inj ha
    obtain ⟨⟨hk,hfinished⟩,rfl⟩ := step_spec h
    exact callMoves_of rfl rfl rfl (Or.inl rfl) (fun _ => Or.inl (by rw [hk]; trivial))
      (fun _ => Or.inr hfinished) (fun hh => hh.elim) (by simp [hk])
  | joinSend k' =>
    obtain rfl := Option.some.inj ha
    obtain ⟨⟨hk,-⟩,rfl⟩ := step_spec h
    exact callMoves_of rfl rfl rfl (Or.inl rfl) (fun _ => Or.inl (by rw [hk]; trivial))
      (fun _ => Or.inl (by rw [hk]; trivial)) (fun hh => hh.elim) (by simp [hk])
  | cancel k' =>
    obtain rfl := Option.some.inj ha
    obtain ⟨hwaits,rfl⟩ := step_spec h
    refine callMoves_of rfl rfl rfl (Or.inl rfl) (fun _ => Or.inl hwaits.took) (fun hj => hj.elim)
      (fun hh => hh.elim) fun hk => ?_
    rw [hk] at hwaits
    exact hwaits
  | _ => cases ha

theorem step_moves (h : step retain s a = some t) : Moves s t := by
  cases hcaller : a.caller? with
  | some k => exact .call k (call_moves hcaller h)
  | none =>
    cases a with
    | frame _ | tryClone _ | dropClone _ =>
      obtain ⟨-,rfl⟩ := step_spec h
      exact .clones rfl
    | poll i =>
      obtain ⟨r,r',-,-,rfl⟩ := step_spec h
      exact .clones rfl
    | readEnd =>
      obtain ⟨hr,rfl⟩ := step_spec h
      exact .read (by rw [hr]; exact .leave) rfl
    | dropTx =>
      obtain ⟨hr,rfl⟩ := step_spec h
      exact .read (by rw [hr]; exact .dropTx) rfl
    | takeInner =>
      obtain ⟨hr,rfl⟩ := step_spec h
      exact .exit hr rfl
    | cancelRead =>
      obtain ⟨⟨-,hr⟩,rfl⟩ := step_spec h
      exact .read (by rw [hr]; exact .abort) rfl
    | lockSend | sendEnd | cancelSend =>
      obtain ⟨-,rfl⟩ := step_spec h
      exact .send rfl
    | _ => cases hcaller

structure State.Valid (s : State) : Prop where
  exited : s.readTask = .exited → s.inner = false
  took : ∀ k, (s.calls k).Took → s.inner = false
  joined : ∀ k, (s.calls k).Joined → s.readTask.Finished

theorem init_valid : init.Valid := ⟨nofun,fun _ h => h.elim,fun _ h => h.elim⟩

theorem inner_of_step (h : step retain s a = some t) (hs : s.inner = false) : t.inner = false := by
  cases step_moves h with
  | clones ht => rw [ht]; exact hs
  | read _ ht => rw [ht]; exact hs
  | exit _ ht => rw [ht]
  | send ht => rw [ht]; exact hs
  | call k hc => exact hc.inner hs

theorem readTask_of_step (h : step retain s a = some t) (hs : s.readTask.Finished) :
    t.readTask = s.readTask := by
  cases step_moves h with
  | clones ht => rw [ht]
  | read hnext ht => exact absurd hs hnext.not_finished
  | exit hr => rcases hs with hs | hs <;> cases hr.symm.trans hs
  | send ht => rw [ht]
  | call k hc => exact hc.readTask

theorem step_valid (hs : s.Valid) (h : step retain s a = some t) : t.Valid := by
  have hinner : s.inner = false → t.inner = false := inner_of_step h
  have hfinished : s.readTask.Finished → t.readTask.Finished := fun hf => by
    rw [readTask_of_step h hf]
    exact hf
  cases step_moves h with
  | clones ht => rw [ht]; exact ⟨hs.exited,hs.took,hs.joined⟩
  | read hnext ht =>
    refine ⟨fun hr => ?_,fun k hk => hinner (hs.took k ?_),fun k hk => hfinished (hs.joined k ?_)⟩
    · exact absurd hr hnext.ne_exited
    · rw [ht] at hk
      exact hk
    · rw [ht] at hk
      exact hk
  | exit hr ht => rw [ht]; exact ⟨fun _ => rfl,fun _ _ => rfl,fun _ _ => Or.inl rfl⟩
  | send ht => rw [ht]; exact ⟨hs.exited,hs.took,hs.joined⟩
  | call k hc =>
    refine ⟨fun hr => ?_,fun j hj => ?_,fun j hj => ?_⟩
    · exact hinner (hs.exited (hc.readTask.symm.trans hr))
    · by_cases hjk : j = k
      · subst hjk
        exact (hc.took hj).elim (fun h => hinner (hs.took j h)) id
      · rw [hc.others j hjk] at hj
        exact hinner (hs.took j hj)
    · by_cases hjk : j = k
      · subst hjk
        exact (hc.joined hj).elim (fun h => hfinished (hs.joined j h)) hfinished
      · rw [hc.others j hjk] at hj
        exact hfinished (hs.joined j hj)

theorem reachable_valid (hs : Transition.Reachable (step retain) init s) : s.Valid :=
  hs.invariant init_valid fun _ _ _ hs h => step_valid hs h

/-! After the end. -/

theorem dead_of_step (h : step retain s a = some t) (hs : s.Dead) : t.Dead := by
  rcases hs with hs | ⟨k,hk⟩
  · exact Or.inl ((readTask_of_step h (Or.inl hs)).trans hs)
  · refine Or.inr ⟨k,?_⟩
    cases step_moves h with
    | clones ht => rw [ht]; exact hk
    | read _ ht => rw [ht]; exact hk
    | exit _ ht => rw [ht]; exact hk
    | send ht => rw [ht]; exact hk
    | call j hc =>
      have hkj : k ≠ j := by
        rintro rfl
        exact hc.complete hk
      rw [hc.others k hkj,hk]

theorem State.Valid.finished (hs : s.Valid) (hdead : s.Dead) : s.readTask.Finished := by
  rcases hdead with hr | ⟨k,hk⟩
  · exact Or.inl hr
  · exact hs.joined k (by rw [hk]; trivial)

theorem State.Valid.inner_of_dead (hs : s.Valid) (hdead : s.Dead) : s.inner = false := by
  rcases hdead with hr | ⟨k,hk⟩
  · exact hs.exited hr
  · exact hs.took k (by rw [hk]; trivial)

/-- Nobody but a call that has taken `Inner` can own the sender then. -/
theorem State.Valid.senderAlive_iff (hs : s.Valid) (hdead : s.Dead) :
    s.senderAlive ↔ ∃ k, (s.calls k).holds := by
  have hinner := hs.inner_of_dead hdead
  constructor
  · rintro (h | h | h | h)
    · rw [hinner] at h
      cases h
    · exact h
    · rcases hs.finished hdead with hr | hr <;> cases hr.symm.trans h
    · rcases hs.finished hdead with hr | hr <;> cases hr.symm.trans h
  · exact fun h => Or.inr (Or.inl h)

theorem notHolds_of_step (h : step retain s a = some t) (hinner : s.inner = false)
    (hs : ∀ k, ¬(s.calls k).holds) (k : ℕ) : ¬(t.calls k).holds := by
  cases step_moves h with
  | clones ht => rw [ht]; exact hs k
  | read _ ht => rw [ht]; exact hs k
  | exit _ ht => rw [ht]; exact hs k
  | send ht => rw [ht]; exact hs k
  | call j hc =>
    by_cases hkj : k = j
    · subst hkj
      intro hk
      rw [hc.holds hk] at hinner
      cases hinner
    · rw [hc.others k hkj]
      exact hs k

inductive Clones (retain : ℕ) (s t : State) : Label → Prop
  | same (a : Label) : t.clones = s.clones → Clones retain s t a
  | frame (f : Bytes) : s.readTask = .reading →
      t.clones = (fun i => (s.clones i).map (·.push retain f)) → Clones retain s t (.frame f)
  | tryClone (i : ℕ) : s.clones i = none →
      t.clones = Function.update s.clones i (some .new) → Clones retain s t (.tryClone i)
  | poll (i : ℕ) {r r' : Broadcast.Lagging Bytes} : s.clones i = some r → r.read = some r' →
      t.clones = Function.update s.clones i (some r') → Clones retain s t (.poll i)
  | dropClone (i : ℕ) : t.clones = Function.update s.clones i none →
      Clones retain s t (.dropClone i)

theorem step_clones (h : step retain s a = some t) : Clones retain s t a := by
  cases hcaller : a.caller? with
  | some k => exact .same _ (call_moves hcaller h).clones
  | none =>
    cases a with
    | frame f =>
      obtain ⟨hr,rfl⟩ := step_spec h
      exact .frame f hr rfl
    | tryClone i =>
      obtain ⟨⟨-,hi⟩,rfl⟩ := step_spec h
      exact .tryClone i hi rfl
    | dropClone i =>
      obtain ⟨-,rfl⟩ := step_spec h
      exact .dropClone i rfl
    | poll i =>
      obtain ⟨r,r',hr,hread,rfl⟩ := step_spec h
      exact .poll i hr hread rfl
    | readEnd | dropTx | takeInner | cancelRead | lockSend | sendEnd | cancelSend =>
      obtain ⟨-,rfl⟩ := step_spec h
      exact .same _ rfl
    | _ => cases hcaller

def State.InOrder (s : State) : Prop := ∀ i r, s.clones i = some r → r.InOrder

theorem init_inOrder : init.InOrder := by
  intro i r hr
  simp only [init] at hr
  split_ifs at hr
  obtain rfl := Option.some.inj hr
  exact Broadcast.Lagging.new_inOrder

theorem step_inOrder (hs : s.InOrder) (h : step retain s a = some t) : t.InOrder := by
  intro j r hr
  cases step_clones h with
  | same _ ht => exact hs j r (ht ▸ hr)
  | frame f _ ht =>
    rw [ht] at hr
    obtain ⟨r₀,hr₀,rfl⟩ := Option.map_eq_some_iff.mp hr
    exact Broadcast.Lagging.push_inOrder (hs j r₀ hr₀) retain f
  | tryClone i _ ht =>
    rw [ht,Function.update_apply] at hr
    split_ifs at hr with hij
    · obtain rfl := Option.some.inj hr
      exact Broadcast.Lagging.new_inOrder
    · exact hs j r hr
  | poll i hi hread ht =>
    rw [ht,Function.update_apply] at hr
    split_ifs at hr with hij
    · obtain rfl := Option.some.inj hr
      exact Broadcast.Lagging.read_inOrder (hs i _ hi) hread
    · exact hs j r hr
  | dropClone i ht =>
    rw [ht,Function.update_apply] at hr
    split_ifs at hr with hij
    exact hs j r hr

theorem reachable_inOrder (hs : Transition.Reachable (step retain) init s) : s.InOrder :=
  hs.invariant init_inOrder fun _ _ _ hs h => step_inOrder hs h

/-- What a clone had not read yet it has read since, or it is still there. -/
def Drains (s t : State) (i : ℕ) : Prop :=
  ∀ r, s.clones i = some r → ∃ d r', t.clones i = some r' ∧ r.unread = d ++ r'.unread ∧
    r'.received = r.received ++ d

theorem drains_of_step (h : step retain s a = some t) (hs : s.readTask.Finished) {i : ℕ}
    (ha : a ≠ .dropClone i) : Drains s t i := by
  intro r hr
  cases step_clones h with
  | same _ ht => exact ⟨[],r,by rw [ht,hr],rfl,by simp⟩
  | frame f hreading =>
    rcases hs with hs | hs <;> cases hs.symm.trans hreading
  | tryClone j hnone ht =>
    have hij : i ≠ j := by
      rintro rfl
      cases hr.symm.trans hnone
    exact ⟨[],r,by rw [ht,Function.update_of_ne hij,hr],rfl,by simp⟩
  | poll j hj hread ht =>
    by_cases hij : i = j
    · subst hij
      obtain rfl := Option.some.inj (hr.symm.trans hj)
      obtain ⟨f,hunread,hreceived,-,-⟩ := Broadcast.Lagging.read_eq hread
      exact ⟨[f],_,by rw [ht,Function.update_self],hunread,hreceived⟩
    · exact ⟨[],r,by rw [ht,Function.update_of_ne hij,hr],rfl,by simp⟩
  | dropClone j ht =>
    have hij : i ≠ j := fun hij => ha (by rw [hij])
    exact ⟨[],r,by rw [ht,Function.update_of_ne hij,hr],rfl,by simp⟩

theorem drains_of_run {xs : List Label} (h : Transition.run (step retain) s xs = some t)
    (hs : s.readTask.Finished) {i : ℕ} (hi : .dropClone i ∉ xs) : Drains s t i := by
  induction xs generalizing s with
  | nil =>
    obtain rfl : s = t := Option.some.inj h
    exact fun r hr => ⟨[],r,hr,rfl,by simp⟩
  | cons a xs ih =>
    obtain ⟨u,hu,hrest⟩ := Transition.run_cons_iff.mp h
    have hfinished : u.readTask.Finished := by
      rw [readTask_of_step hu hs]
      exact hs
    intro r hr
    obtain ⟨d,r',hr',hunread,hreceived⟩ :=
      drains_of_step hu hs (fun ha => hi (by simp [ha])) r hr
    obtain ⟨d',r'',hr'',hunread',hreceived'⟩ :=
      ih hrest hfinished (fun hmem => hi (List.mem_cons_of_mem _ hmem)) r' hr'
    refine ⟨d ++ d',r'',hr'',?_,?_⟩
    · rw [hunread,hunread',List.append_assoc]
    · rw [hreceived',hreceived,List.append_assoc]

/-! The call that owns the sender lets go of it. -/

/-- Who calls `shutdown` has drained the handles, and the send task is aborted then or will
be; one call at most has taken `Inner`. -/
structure State.Handled (s : State) : Prop where
  handles : ∀ k, s.calls k ≠ .idle → s.handles = false
  abort : s.handles = false →
    s.sendAbort = true ∨ ∃ k, s.calls k = .drained ∨ s.calls k = .readAborted
  holder : ∀ j k, (s.calls j).holds → (s.calls k).holds → j = k

structure HandleMoves (s t : State) (k : ℕ) : Prop where
  sendAbort : s.sendAbort = true → t.sendAbort = true
  handles : s.handles = false → t.handles = false
  idle : s.calls k = .idle → t.handles = false
  drained : s.handles = true → t.handles = false → t.calls k = .drained
  pending : s.calls k = .drained ∨ s.calls k = .readAborted →
    t.calls k = .readAborted ∨ t.sendAbort = true

theorem handleMoves_of_ready {k : ℕ} (hhandles : t.handles = s.handles)
    (habort : t.sendAbort = s.sendAbort) (hidle : s.calls k ≠ .idle)
    (hdrained : s.calls k ≠ .drained) (haborted : s.calls k ≠ .readAborted) :
    HandleMoves s t k where
  sendAbort h := habort.trans h
  handles h := hhandles.trans h
  idle h := absurd h hidle
  drained h h' := by cases h'.symm.trans (hhandles.trans h)
  pending h := h.elim (fun h => absurd h hdrained) fun h => absurd h haborted

theorem call_handles {k : ℕ} (ha : a.caller? = some k) (h : step retain s a = some t) :
    HandleMoves s t k := by
  cases a with
  | drain k' =>
    obtain rfl := Option.some.inj ha
    obtain ⟨hk,rfl⟩ := step_spec h
    refine ⟨id,fun _ => rfl,fun _ => rfl,fun hhandles _ => ?_,by simp [hk]⟩
    exact (Function.update_self ..).trans (if_pos hhandles)
  | abortRead k' =>
    obtain rfl := Option.some.inj ha
    obtain ⟨hk,rfl⟩ := step_spec h
    refine ⟨id,id,by simp [hk],fun h h' => ?_,fun _ => Or.inl (Function.update_self ..)⟩
    cases h.symm.trans h'
  | abortSend k' =>
    obtain rfl := Option.some.inj ha
    obtain ⟨hk,rfl⟩ := step_spec h
    refine ⟨fun _ => rfl,id,by simp [hk],fun h h' => ?_,fun _ => Or.inr rfl⟩
    cases h.symm.trans h'
  | joinRead k' | joinSend k' =>
    obtain rfl := Option.some.inj ha
    obtain ⟨⟨hk,-⟩,rfl⟩ := step_spec h
    exact handleMoves_of_ready rfl rfl (by simp [hk]) (by simp [hk]) (by simp [hk])
  | take k' =>
    obtain rfl := Option.some.inj ha
    obtain ⟨drained,hk,rfl⟩ := step_spec h
    exact handleMoves_of_ready rfl rfl (by simp [hk]) (by simp [hk]) (by simp [hk])
  | lockSink k' =>
    obtain rfl := Option.some.inj ha
    obtain ⟨drained,hk,-,rfl⟩ := step_spec h
    exact handleMoves_of_ready rfl rfl (by simp [hk]) (by simp [hk]) (by simp [hk])
  | cancel k' =>
    obtain rfl := Option.some.inj ha
    obtain ⟨hwaits,rfl⟩ := step_spec h
    refine handleMoves_of_ready rfl rfl ?_ ?_ ?_ <;>
    · intro hk
      rw [hk] at hwaits
      exact hwaits
  | _ => cases ha

theorem calls_of_step (ha : a.caller? = none) (h : step retain s a = some t) :
    t.handles = s.handles ∧ t.sendAbort = s.sendAbort ∧ t.calls = s.calls := by
  cases a with
  | poll i =>
    obtain ⟨r,r',-,-,rfl⟩ := step_spec h
    exact ⟨rfl,rfl,rfl⟩
  | frame _ | readEnd | dropTx | takeInner | cancelRead | lockSend | sendEnd | cancelSend
  | tryClone _ | dropClone _ =>
    obtain ⟨-,rfl⟩ := step_spec h
    exact ⟨rfl,rfl,rfl⟩
  | _ => cases ha

theorem init_handled : init.Handled := ⟨fun _ h => absurd rfl h,nofun,fun _ _ h => h.elim⟩

theorem step_handled (hv : s.Valid) (hs : s.Handled) (h : step retain s a = some t) :
    t.Handled := by
  cases hcaller : a.caller? with
  | some k =>
    have hc := call_moves hcaller h
    have hh := call_handles hcaller h
    refine ⟨fun j hj => ?_,fun hhandles => ?_,fun i j hi hj => ?_⟩
    · by_cases hjk : j = k
      · subst hjk
        by_cases hidle : s.calls j = .idle
        · exact hh.idle hidle
        · exact hh.handles (hs.handles j hidle)
      · rw [hc.others j hjk] at hj
        exact hh.handles (hs.handles j hj)
    · cases hold : s.handles with
      | true => exact Or.inr ⟨k,Or.inl (hh.drained hold hhandles)⟩
      | false =>
        rcases hs.abort hold with habort | ⟨j,hj⟩
        · exact Or.inl (hh.sendAbort habort)
        · by_cases hjk : j = k
          · subst hjk
            exact (hh.pending hj).elim (fun hj' => Or.inr ⟨j,Or.inr hj'⟩) Or.inl
          · exact Or.inr ⟨j,by rwa [hc.others j hjk]⟩
    · -- nobody owns it while it is in the slot
      have hfresh : ∀ l, (t.calls k).holds → l ≠ k → ¬(t.calls l).holds := by
        intro l hk hlk hl
        rw [hc.others l hlk] at hl
        have htook : (s.calls l).Took := by
          cases hcl : s.calls l with
          | locking => trivial
          | _ => rw [hcl] at hl; exact hl.elim
        have hnone := hv.took l htook
        rw [hc.holds hk] at hnone
        cases hnone
      by_cases hik : i = k
      · subst hik
        by_contra hij
        exact hfresh j hi (fun hji => hij hji.symm) hj
      · by_cases hjk : j = k
        · subst hjk
          exact absurd hi (hfresh i hj hik)
        · rw [hc.others i hik] at hi
          rw [hc.others j hjk] at hj
          exact hs.holder i j hi hj
  | none =>
    obtain ⟨hhandles,habort,hcalls⟩ := calls_of_step hcaller h
    exact ⟨by rw [hhandles,hcalls]; exact hs.handles,
      by rw [hhandles,habort,hcalls]; exact hs.abort,by rw [hcalls]; exact hs.holder⟩

/-- The steps that the owner waits for, and its own. -/
def Label.releases : Label → Bool
  | .abortRead _ | .abortSend _ | .cancelSend | .lockSink _ => true
  | _ => false

/-- So many of these steps, and no call owns the sender. -/
def Releases (retain : ℕ) (s : State) (n : ℕ) : Prop :=
  ∃ xs t, xs.length ≤ n ∧ (∀ a ∈ xs, a.releases = true) ∧
    Transition.run (step retain) s xs = some t ∧ ∀ k, ¬(t.calls k).holds

theorem Releases.cons {n : ℕ} (ha : a.releases = true) (h : step retain s a = some t)
    (ht : Releases retain t n) : Releases retain s (n+1) := by
  obtain ⟨xs,u,hlen,hxs,hrun,hu⟩ := ht
  refine ⟨a :: xs,u,Nat.succ_le_succ hlen,?_,Transition.run_cons_iff.mpr ⟨t,h,hrun⟩,hu⟩
  intro b hb
  rcases List.mem_cons.mp hb with rfl | hb
  · exact ha
  · exact hxs b hb

theorem Releases.mono {m n : ℕ} (h : Releases retain s m) (hmn : m ≤ n) : Releases retain s n := by
  obtain ⟨xs,t,hlen,hrest⟩ := h
  exact ⟨xs,t,hlen.trans hmn,hrest⟩

theorem releases_of_unlocked (hs : ∀ j k, (s.calls j).holds → (s.calls k).holds → j = k) {k : ℕ}
    (hk : (s.calls k).holds) (hsend : s.sendTask ≠ .sending) : Releases retain s 1 := by
  obtain ⟨drained,hlocking⟩ : ∃ drained, s.calls k = .locking drained := by
    cases hc : s.calls k with
    | locking drained => exact ⟨drained,rfl⟩
    | _ => rw [hc] at hk; exact hk.elim
  have hstep : step retain s (.lockSink k) = some (s.setCall k (.join drained)) := by
    simp only [step,hlocking,if_neg hsend]
  refine ⟨[.lockSink k],_,Nat.le_refl 1,by simp [Label.releases],
    Transition.run_cons_iff.mpr ⟨_,hstep,rfl⟩,fun j hj => ?_⟩
  by_cases hjk : j = k
  · subst hjk
    simp only [State.setCall,Function.update_self] at hj
    cases drained <;> exact hj
  · simp only [State.setCall,Function.update_of_ne hjk] at hj
    exact hjk (hs j k hj hk)

theorem releases_of_aborted (hs : ∀ j k, (s.calls j).holds → (s.calls k).holds → j = k) {k : ℕ}
    (hk : (s.calls k).holds) (habort : s.sendAbort = true) : Releases retain s 2 := by
  by_cases hsend : s.sendTask = .sending
  · have hstep : step retain s .cancelSend = some { s with sendTask := .ended } :=
      if_pos ⟨habort,by rw [hsend]; exact nofun⟩
    exact .cons rfl hstep (releases_of_unlocked hs hk nofun)
  · exact (releases_of_unlocked hs hk hsend).mono (by omega)

theorem holds_setCall {j k : ℕ} {c : Call} (hk : ¬(s.calls k).holds) (hc : ¬c.holds) :
    ((s.setCall k c).calls j).holds ↔ (s.calls j).holds := by
  by_cases hjk : j = k
  · subst hjk
    simp only [State.setCall,Function.update_self,hk,hc]
  · simp only [State.setCall,Function.update_of_ne hjk]

theorem releases_of_readAborted (hs : ∀ j k, (s.calls j).holds → (s.calls k).holds → j = k)
    {j k : ℕ} (hk : (s.calls k).holds) (hj : s.calls j = .readAborted) : Releases retain s 3 := by
  have hstep : step retain s (.abortSend j) =
      some { s.setCall j (.ready true) with sendAbort := true } := if_pos hj
  have hsame : ∀ i, ((s.setCall j (.ready true)).calls i).holds ↔ (s.calls i).holds :=
    fun i => holds_setCall (by rw [hj]; exact id) id
  refine .cons rfl hstep (releases_of_aborted (k := k) (fun i i' hi hi' => ?_) ?_ rfl)
  · exact hs i i' ((hsame i).mp hi) ((hsame i').mp hi')
  · exact (hsame k).mpr hk

theorem releases_of_drained (hs : ∀ j k, (s.calls j).holds → (s.calls k).holds → j = k)
    {j k : ℕ} (hk : (s.calls k).holds) (hj : s.calls j = .drained) : Releases retain s 4 := by
  have hstep : step retain s (.abortRead j) =
      some { s.setCall j .readAborted with readAbort := true } := if_pos hj
  have hsame : ∀ i, ((s.setCall j .readAborted).calls i).holds ↔ (s.calls i).holds :=
    fun i => holds_setCall (by rw [hj]; exact id) id
  refine .cons rfl hstep (releases_of_readAborted (j := j) (k := k) (fun i i' hi hi' => ?_) ?_ ?_)
  · exact hs i i' ((hsame i).mp hi) ((hsame i').mp hi')
  · exact (hsame k).mpr hk
  · exact Function.update_self ..

/-- Whoever owns the sender can let go of it. -/
theorem State.Handled.releases (hs : s.Handled) {k : ℕ} (hk : (s.calls k).holds) :
    Releases retain s 4 := by
  have hhandles : s.handles = false := hs.handles k fun hidle => by
    rw [hidle] at hk
    exact hk
  rcases hs.abort hhandles with habort | ⟨j,hj | hj⟩
  · exact (releases_of_aborted hs.holder hk habort).mono (by omega)
  · exact releases_of_drained hs.holder hk hj
  · exact (releases_of_readAborted hs.holder hk hj).mono (by omega)

theorem reachable_handled (hs : Transition.Reachable (step retain) init s) : s.Handled := by
  have h := hs.invariant (I := fun s => s.Valid ∧ s.Handled) ⟨init_valid,init_handled⟩
    fun _ _ _ hs h => ⟨step_valid hs.1 h,step_handled hs.1 hs.2 h⟩
  exact h.2

/-- What a run `xs` from a dead hub `s` finds in `t`: nobody can get a clone any more, and who
still owns the sender is a call of `shutdown` that has taken `Inner` and can let go of it. When
there is none the streams end with what is buffered for them. -/
structure Final (retain : ℕ) (s : State) (xs : List Label) (t : State) : Prop where
  inner : t.inner = false
  noClone : ∀ i, step retain t (.tryClone i) = none
  owner : t.senderAlive ↔ ∃ k, (t.calls k).holds
  released : t.senderAlive → Releases retain t 4
  gone : ¬s.senderAlive → ¬t.senderAlive
  drained : ∀ i, .dropClone i ∉ xs → Drains s t i
  ended : ¬t.senderAlive → ∀ i r, t.clones i = some r → (t.ended i ↔ r.unread = [])

theorem State.ended_iff (h : ¬s.senderAlive) {i : ℕ} {r : Broadcast.Lagging Bytes}
    (hr : s.clones i = some r) : s.ended i ↔ r.unread = [] := by
  constructor
  · rintro ⟨⟨r',hr',hunread⟩,-⟩
    obtain rfl := Option.some.inj (hr'.symm.trans hr)
    exact hunread
  · exact fun hunread => ⟨⟨r,hr,hunread⟩,h⟩

theorem reachable_run {xs : List Label} (hs : Transition.Reachable (step retain) init s)
    (h : Transition.run (step retain) s xs = some t) :
    Transition.Reachable (step retain) init t := by
  obtain ⟨ys,hys⟩ := hs
  exact ⟨ys ++ xs,Transition.run_append_iff.mpr ⟨s,hys,h⟩⟩

/-- The end of a hub is final, and every clone has got what was broadcast until then. -/
theorem hub_death (retain : ℕ) (s : State) (hs : Transition.Reachable (step retain) init s) :
    s.InOrder ∧ (s.Dead → ∀ xs t, Transition.run (step retain) s xs = some t →
      Final retain s xs t) := by
  refine ⟨reachable_inOrder hs,fun hdead xs t h => ?_⟩
  have hv := reachable_valid hs
  have ht := reachable_run hs h
  have htdead : t.Dead := Transition.run_invariant (fun _ _ _ hs h => dead_of_step h hs) hdead h
  have htv := reachable_valid ht
  have hinner := htv.inner_of_dead htdead
  have howner := htv.senderAlive_iff htdead
  refine ⟨hinner,fun i => ?_,howner,fun halive => ?_,fun hgone => ?_,fun i hi => ?_,
    fun hgone i r hr => State.ended_iff hgone hr⟩
  · simp only [step,hinner,Bool.false_eq_true,false_and,if_false]
  · obtain ⟨k,hk⟩ := howner.mp halive
    exact (reachable_handled ht).releases hk
  · rw [hv.senderAlive_iff hdead,not_exists] at hgone
    rw [howner,not_exists]
    have hrun := Transition.run_invariant
      (I := fun s => s.inner = false ∧ ∀ k, ¬(s.calls k).holds)
      (fun _ _ _ hs h => ⟨inner_of_step h hs.1,notHolds_of_step h hs.1 hs.2⟩)
      ⟨hv.inner_of_dead hdead,hgone⟩ h
    exact hrun.2
  · exact drains_of_run h (hv.finished hdead) hi

/-- A frame is broadcast, and the device hangs up before the clone reads it. -/
theorem hub_death_after_frame : ∃ s t,
    Transition.run (step 100) init [.frame [1],.readEnd,.dropTx,.takeInner] = some s ∧
      Transition.run (step 100) s [.poll 0] = some t ∧ Final 100 s [.poll 0] t :=
  ⟨_,_,rfl,rfl,(hub_death 100 _ ⟨[.frame [1],.readEnd,.dropTx,.takeInner],rfl⟩).2 (Or.inl rfl) _ _
    rfl⟩

/-- The read task has run its exit code, or the call that has drained the handles is complete,
and another call still owns the `Inner` that it took. -/
theorem taken_inner_keeps_sender :
    (¬∀ s, Transition.Reachable (step 100) init s → s.readTask = .exited → ¬s.senderAlive) ∧
    ¬∀ s, Transition.Reachable (step 100) init s → (∃ k, s.calls k = .complete true) →
      ¬s.senderAlive := by
  constructor
  · intro h
    exact h _ ⟨[.lockSend,.readEnd,.dropTx,.drain 0,.abortRead 0,.abortSend 0,.take 0,.takeInner],
      rfl⟩ rfl (Or.inr (Or.inl ⟨0,trivial⟩))
  · intro h
    exact h _ ⟨[.lockSend,.drain 0,.drain 1,.take 1,.abortRead 0,.abortSend 0,.take 0,.cancelRead,
      .cancelSend,.joinRead 0,.joinSend 0],rfl⟩ ⟨0,rfl⟩ (Or.inr (Or.inl ⟨1,trivial⟩))

end Shutdown
end Minidsp
