import Minidsp.Delivery

/-! Concurrent calls and an honest device: it answers the commands in the order in which the
sink got them, and nothing fails. The entry of a call and its command take their places in two
critical sections, the push and the request for the lock around the sink. -/
namespace Minidsp
namespace Multiplexer

variable {s t : State} {i : ℕ} {a : Label}

/-- The steps of an honest run: a response answers the first command on the wire that has no
answer yet, and a future is only dropped once its command is on the wire. -/
def Honest (s : State) : Label → Prop
  | .recv (.ok data) =>
    ∃ p, s.sink[s.dispatched.length]? = some p ∧ p.1.matchesResponse data = true
  | .drop i => ∃ cmd, s.calls i = .flushing cmd ∨ s.calls i = .awaiting cmd
  | .enqueue .. | .lock _ | .send _ | .flush _ | .resume _ => True
  | _ => False

/-- A call asks for the lock after all calls whose entries are before its own. -/
def InOrder (s : State) : Label → Prop
  | .lock i => ∀ p ∈ s.pendingCommand.takeWhile (fun p => p.2 != i), ∀ c, s.calls p.2 ≠ .queued c
  | _ => True

/-- Every answer has reached the call whose command it answers, and the commands that wait for
an answer are at the front of the queue, in the order of the wire. -/
structure Paired (s : State) : Prop where
  wire : s.sink <+: s.enqueued
  order : s.sink.drop s.dispatched.length <+: s.pendingCommand
  answered : ∀ (k : ℕ) (p : PendingCommandTuple) (data : Responses) (w : Option ℕ),
    s.sink[k]? = some p → s.dispatched[k]? = some (data,w) →
    s.reply p.2 = some (.ok data)
  returned : ∀ i data, s.calls i = .returned (.ok data) →
    ∃ (k : ℕ) (p : PendingCommandTuple) (w : Option ℕ),
      s.sink[k]? = some p ∧ p.2 = i ∧ s.dispatched[k]? = some (data,w)
  events : s.events = []

/-- The entries are, in the order of the queue, on the wire, at the lock, or short of it. -/
structure InStep (s : State) (front : Option ℕ) (locking rest : List PendingCommandTuple) :
    Prop where
  write : s.write = true
  recvTask : s.recvTask = .looping
  enqueued : s.enqueued = s.sink ++ (locking ++ rest)
  writeQueue : s.writeQueue = front.toList ++ locking.map Prod.snd
  front : ∀ j, front = some j → ∃ cmd, s.calls j = .flushing cmd ∨ s.calls j = .awaiting cmd
  locking : ∀ p ∈ locking, s.calls p.2 = .locking p.1
  rest : ∀ p ∈ rest, s.calls p.2 = .queued p.1
  sent : ∀ p ∈ s.sink, ∀ c, s.calls p.2 ≠ .queued c
  oneshots : s.oneshots = List.zipWith (fun p d => (p,.ok d.1)) s.sink s.dispatched
  answers : s.dispatched.length ≤ s.sink.length
  events : s.events = []

theorem zipWith_concat {α β γ : Type} (f : α → β → γ) {as : List α} {bs : List β} {a : α} (b : β)
    (h : as[bs.length]? = some a) :
    List.zipWith f as (bs ++ [b]) = List.zipWith f as bs ++ [f a b] := by
  induction bs generalizing as with
  | nil =>
    cases as with
    | nil => cases h
    | cons x as =>
      obtain rfl := Option.some.inj h
      simp
  | cons y bs ih =>
    cases as with
    | nil => cases h
    | cons x as =>
      have h' : as[bs.length]? = some a := by simpa using h
      simp [ih h']

theorem zipWith_append_left {α β γ : Type} (f : α → β → γ) {as bs : List α} {cs : List β}
    (h : cs.length ≤ as.length) : List.zipWith f (as ++ bs) cs = List.zipWith f as cs := by
  induction cs generalizing as with
  | nil => simp
  | cons c cs ih =>
    cases as with
    | nil => simp at h
    | cons a as =>
      have h' : cs.length ≤ as.length := by simpa using h
      simp [ih h']

namespace InStep

variable {locking rest : List PendingCommandTuple} {front : Option ℕ}

theorem init_inStep : InStep init none [] [] :=
  ⟨rfl,rfl,rfl,rfl,nofun,nofun,nofun,nofun,rfl,le_rfl,rfl⟩

section

variable (hv : Valid s) (hs : InStep s front locking rest)
include hv hs

theorem pendingCommand :
    s.pendingCommand = s.sink.drop s.dispatched.length ++ (locking ++ rest) := by
  have hlen : s.oneshots.length = s.dispatched.length := by
    rw [hs.oneshots,List.length_zipWith]
    exact Nat.min_eq_right hs.answers
  have hfifo := congrArg (List.drop s.dispatched.length) hv.fifo
  rw [List.drop_left' (by rw [List.length_map,hlen]),hs.enqueued,
    List.drop_append_of_le_length hs.answers] at hfifo
  exact hfifo.symm

theorem paired : Paired s where
  wire := ⟨_,hs.enqueued.symm⟩
  order := ⟨_,(hs.pendingCommand hv).symm⟩
  answered k p data w hp hd := by
    refine hv.reply_of_mem (o := (p,.ok data)) ?_
    rw [hs.oneshots]
    refine List.mem_of_getElem? (i := k) ?_
    simp [List.getElem?_zipWith,hp,hd]
  returned i data hi := by
    obtain ⟨cmd,hmem⟩ := hv.entered.returned i data hi
    rw [hs.oneshots] at hmem
    obtain ⟨k,hk⟩ := List.mem_iff_getElem?.mp hmem
    rw [List.getElem?_zipWith] at hk
    cases hp : s.sink[k]? with
    | none => simp [hp] at hk
    | some p =>
      cases hd : s.dispatched[k]? with
      | none => simp [hp,hd] at hk
      | some d =>
        simp only [hp,hd,Option.some.injEq,Prod.mk.injEq,Except.ok.injEq] at hk
        exact ⟨k,p,d.2,hp,by rw [hk.1],by rw [hd,← hk.2]⟩
  events := hs.events

theorem locking_nodup : ((locking ++ rest).map Prod.snd).Nodup := by
  have h := hv.entered.nodup
  rw [hs.enqueued,List.map_append,List.nodup_append] at h
  exact h.2.1

end

theorem others {c : Call} (hs : InStep s front locking rest)
    (hl : ∀ cmd, s.calls i ≠ .locking cmd) (hq : ∀ cmd, s.calls i ≠ .queued cmd) :
    (∀ p ∈ locking, (s.setCall i c).calls p.2 = .locking p.1) ∧
      ∀ p ∈ rest, (s.setCall i c).calls p.2 = .queued p.1 := by
  constructor
  · intro p hp
    have hne : p.2 ≠ i := fun h => hl p.1 (h ▸ hs.locking p hp)
    simpa [hne] using hs.locking p hp
  · intro p hp
    have hne : p.2 ≠ i := fun h => hq p.1 (h ▸ hs.rest p hp)
    simpa [hne] using hs.rest p hp

theorem front_setCall {c : Call} (hs : InStep s front locking rest)
    (hi : ∀ cmd, s.calls i ≠ .flushing cmd ∧ s.calls i ≠ .awaiting cmd) :
    ∀ j, front = some j →
      ∃ cmd, (s.setCall i c).calls j = .flushing cmd ∨ (s.setCall i c).calls j = .awaiting cmd := by
  intro j hj
  obtain ⟨cmd,hc⟩ := hs.front j hj
  have hne : j ≠ i := by
    rintro rfl
    exact hc.elim (hi cmd).1 (hi cmd).2
  exact ⟨cmd,by simpa [hne] using hc⟩

theorem front_of_holds (hs : InStep s front locking rest) (hh : s.holds i)
    (hc : ∀ cmd, s.calls i ≠ .locking cmd) : front = some i := by
  rw [State.holds,hs.writeQueue] at hh
  cases front with
  | none =>
    obtain ⟨p,hp,rfl⟩ := List.mem_map.mp (List.mem_of_mem_head? hh)
    exact absurd (hs.locking p hp) (hc p.1)
  | some j => exact hh

theorem sent_setCall {c : Call} (hs : InStep s front locking rest)
    (hc : ∀ cmd, c ≠ .queued cmd) :
    ∀ p ∈ s.sink, ∀ cmd, (s.setCall i c).calls p.2 ≠ .queued cmd := by
  intro p hp cmd
  simp only [State.setCall,Function.update_apply]
  split_ifs
  · exact hc cmd
  · exact hs.sent p hp cmd

theorem enqueue_inStep {cmd : Commands} (hv : Valid s) (hs : InStep s front locking rest)
    (h : enqueue s i cmd = some t) : InStep t front locking (rest ++ [(cmd,i)]) := by
  obtain ⟨hidle,rfl⟩ := enqueue_iff.mp h
  have htx : s.eventTx = true := hv.eventTx.mpr (Or.inl hs.recvTask)
  obtain ⟨hlock,hrest⟩ := hs.others (c := .queued cmd) (i := i) (by simp [hidle]) (by simp [hidle])
  simp only [htx,if_true]
  refine ⟨hs.write,hs.recvTask,by simp [push,hs.enqueued],hs.writeQueue,
    hs.front_setCall (by simp [hidle]),hlock,?_,?_,hs.oneshots,hs.answers,hs.events⟩
  · intro p hp
    rcases List.mem_append.mp hp with hp | hp
    · exact hrest p hp
    · obtain rfl := List.mem_singleton.mp hp
      simp
  · intro p hp c
    have hne : p.2 ≠ i := by
      intro hpi
      have hmem : p ∈ s.enqueued := by rw [hs.enqueued]; exact List.mem_append_left _ hp
      exact hv.entered.fresh p hmem (by rw [hpi]; exact hidle)
    simpa [hne] using hs.sent p hp c

/-- The call that asks for the lock in turn is the first of those that have not asked yet. -/
theorem lock_rest {cmd : Commands} (hv : Valid s) (hs : InStep s front locking rest)
    (ho : InOrder s (.lock i)) (hc : s.calls i = .queued cmd) : ∃ rest', rest = (cmd,i) :: rest' := by
  have hmem : (cmd,i) ∈ s.enqueued := hv.entered.command i cmd (by rw [hc]; rfl)
  have hrest : (cmd,i) ∈ rest := by
    rw [hs.enqueued] at hmem
    rcases List.mem_append.mp hmem with hsink | hmem
    · exact absurd hc (hs.sent _ hsink cmd)
    rcases List.mem_append.mp hmem with hlock | hrest
    · cases hc.symm.trans (hs.locking _ hlock)
    · exact hrest
  -- an entry of `rest` before this one would be a call that has not asked for the lock yet
  obtain ⟨before,after,hsplit⟩ := List.append_of_mem hrest
  cases before with
  | nil => exact ⟨after,hsplit⟩
  | cons p before =>
    have hp : p ∈ rest := by simp [hsplit]
    have hpend := hs.pendingCommand hv
    rw [hsplit,← List.append_assoc,← List.append_assoc] at hpend
    have hnodup := hv.pending_nodup
    rw [hpend,List.map_append,List.map_cons,List.nodup_append] at hnodup
    refine absurd (hs.rest p hp) (ho p ?_ p.1)
    rw [hpend,List.takeWhile_append_of_pos]
    · simp
    · intro q hq
      have hne := hnodup.2.2 q.2 (List.mem_map_of_mem hq) i (by simp)
      simpa using hne

theorem lock_inStep (hv : Valid s) (hs : InStep s front locking rest) (ho : InOrder s (.lock i))
    (h : lock s i = some t) :
    ∃ cmd rest', InStep t front (locking ++ [(cmd,i)]) rest' := by
  obtain ⟨cmd,hc,rfl⟩ := lock_iff.mp h
  obtain ⟨after,rfl⟩ := lock_rest hv hs ho hc
  have hnodup := hs.locking_nodup hv
  rw [List.map_append,List.map_cons,List.nodup_append,List.nodup_cons] at hnodup
  refine ⟨cmd,after,hs.write,hs.recvTask,by simp [hs.enqueued],by simp [hs.writeQueue],
    hs.front_setCall (by simp [hc]),?_,?_,hs.sent_setCall nofun,hs.oneshots,hs.answers,hs.events⟩
  · intro p hp
    rcases List.mem_append.mp hp with hp | hp
    · have hne : p.2 ≠ i := fun hpi => by cases hc.symm.trans (hpi ▸ hs.locking p hp)
      simpa [hne] using hs.locking p hp
    · obtain rfl := List.mem_singleton.mp hp
      simp
  · intro p hp
    have hne : p.2 ≠ i := by
      rintro rfl
      exact hnodup.2.1.1 (List.mem_map.mpr ⟨p,hp,rfl⟩)
    simpa [hne] using hs.rest p (List.mem_cons_of_mem _ hp)

theorem send_inStep (hv : Valid s) (hs : InStep s front locking rest) (h : send s i = some t) :
    ∃ locking', InStep t (some i) locking' rest := by
  obtain ⟨cmd,hc,hh,rfl⟩ := send_iff.mp h
  simp only [hs.write,if_true]
  rw [State.holds,hs.writeQueue] at hh
  cases front with
  | some j =>
    obtain ⟨c,hfl | haw⟩ := hs.front j rfl
    · obtain rfl := Option.some.inj hh
      cases hc.symm.trans hfl
    · obtain rfl := Option.some.inj hh
      cases hc.symm.trans haw
  | none =>
    cases locking with
    | nil => cases hh
    | cons p locking =>
      obtain rfl := Option.some.inj hh
      obtain rfl : cmd = p.1 := by
        have := hc.symm.trans (hs.locking p (by simp))
        exact Call.locking.inj this
      have hnodup := hs.locking_nodup hv
      rw [List.cons_append,List.map_cons,List.nodup_cons] at hnodup
      have hother : ∀ q ∈ locking ++ rest, q.2 ≠ p.2 :=
        fun q hq hqp => hnodup.1 (hqp ▸ List.mem_map_of_mem hq)
      refine ⟨locking,hs.write,hs.recvTask,by simp [hs.enqueued],?_,?_,?_,?_,?_,?_,?_,hs.events⟩
      · exact hs.writeQueue
      · rintro j ⟨rfl⟩
        exact ⟨p.1,.inl (by simp)⟩
      · intro q hq
        have hne := hother q (List.mem_append_left _ hq)
        simpa [hne] using hs.locking q (List.mem_cons_of_mem _ hq)
      · intro q hq
        have hne := hother q (List.mem_append_right _ hq)
        simpa [hne] using hs.rest q hq
      · intro q hq c
        rcases List.mem_append.mp hq with hq | hq
        · exact hs.sent_setCall (c := .flushing p.1) (by simp) q hq c
        · obtain rfl := List.mem_singleton.mp hq
          simp
      · exact hs.oneshots.trans (zipWith_append_left _ hs.answers).symm
      · exact hs.answers.trans (by simp)

theorem flush_inStep (hs : InStep s front locking rest) (h : flush s i = some t) :
    InStep t front locking rest := by
  obtain ⟨cmd,hc,hh,rfl⟩ := flush_iff.mp h
  obtain ⟨hlock,hrest⟩ := hs.others (c := .awaiting cmd) (i := i) (by simp [hc]) (by simp [hc])
  refine ⟨hs.write,hs.recvTask,hs.enqueued,hs.writeQueue,?_,hlock,hrest,hs.sent_setCall nofun,
    hs.oneshots,hs.answers,hs.events⟩
  intro j hj
  obtain rfl : i = j := Option.some.inj ((hs.front_of_holds hh (by simp [hc])).symm.trans hj)
  exact ⟨cmd,.inr (by simp)⟩

theorem resume_inStep (hs : InStep s front locking rest) (h : resume s i = some t) :
    InStep t none locking rest := by
  obtain ⟨cmd,result,hc,hh,-,rfl⟩ := resume_iff.mp h
  obtain ⟨hlock,hrest⟩ := hs.others (c := .returned result) (i := i) (by simp [hc]) (by simp [hc])
  refine ⟨hs.write,hs.recvTask,hs.enqueued,?_,nofun,hlock,hrest,hs.sent_setCall nofun,hs.oneshots,
    hs.answers,hs.events⟩
  simp [hs.writeQueue,hs.front_of_holds hh (by simp [hc])]

theorem drop_inStep (hs : InStep s front locking rest)
    (hh : ∃ cmd, s.calls i = .flushing cmd ∨ s.calls i = .awaiting cmd) (h : drop s i = some t) :
    InStep t (front.filter (· ≠ i)) locking rest := by
  obtain ⟨-,rfl⟩ := drop_iff.mp h
  have hl : ∀ cmd, s.calls i ≠ .locking cmd := by
    obtain ⟨c,hc | hc⟩ := hh <;> simp [hc]
  have hq : ∀ cmd, s.calls i ≠ .queued cmd := by
    obtain ⟨c,hc | hc⟩ := hh <;> simp [hc]
  obtain ⟨hlock,hrest⟩ := hs.others (c := .dropped) hl hq
  have hnot : i ∉ locking.map Prod.snd := by
    intro hmem
    obtain ⟨p,hp,rfl⟩ := List.mem_map.mp hmem
    exact hl p.1 (hs.locking p hp)
  refine ⟨hs.write,hs.recvTask,hs.enqueued,?_,?_,hlock,hrest,hs.sent_setCall nofun,hs.oneshots,
    hs.answers,hs.events⟩
  · show s.writeQueue.erase i = _
    rw [hs.writeQueue]
    cases front with
    | none => simp [List.erase_of_not_mem hnot]
    | some j =>
      by_cases hj : j = i
      · simp [hj,Option.filter]
      · simp [hj,Option.filter,List.erase_of_not_mem hnot]
  · intro j hj
    obtain ⟨hfront,hne⟩ := Option.filter_eq_some_iff.mp hj
    obtain ⟨cmd,hc⟩ := hs.front j hfront
    exact ⟨cmd,by simpa [show j ≠ i by simpa using hne] using hc⟩

theorem recv_inStep {data : Responses} (hv : Valid s) (hs : InStep s front locking rest)
    (hh : Honest s (.recv (.ok data))) : InStep (dispatch s data) front locking rest := by
  obtain ⟨⟨cmd,i⟩,hp,hm⟩ := hh
  have hpend := hs.pendingCommand hv
  obtain ⟨hlt,hget⟩ := List.getElem?_eq_some_iff.mp hp
  rw [List.drop_eq_getElem_cons hlt,hget,List.cons_append] at hpend
  rw [dispatch_of_matches hpend hm]
  refine ⟨hs.write,hs.recvTask,hs.enqueued,hs.writeQueue,hs.front,hs.locking,hs.rest,hs.sent,?_,?_,
    hs.events⟩
  · show s.oneshots ++ _ = List.zipWith _ s.sink (s.dispatched ++ _)
    rw [zipWith_concat _ _ hp,hs.oneshots]
  · show (s.dispatched ++ _).length ≤ _
    rw [List.length_append]
    exact hlt

end InStep

/-- One honest step, with the lock requested in the order of the queue. -/
theorem step_inStep {front : Option ℕ} {locking rest : List PendingCommandTuple} (hv : Valid s)
    (hs : InStep s front locking rest) (hh : Honest s a) (ho : InOrder s a)
    (h : step s a = some t) : ∃ front locking rest, InStep t front locking rest := by
  cases a with
  | enqueue i cmd => exact ⟨_,_,_,hs.enqueue_inStep hv h⟩
  | lock i =>
    obtain ⟨cmd,rest',hs'⟩ := hs.lock_inStep hv ho h
    exact ⟨_,_,_,hs'⟩
  | send i =>
    obtain ⟨locking',hs'⟩ := hs.send_inStep hv h
    exact ⟨_,_,_,hs'⟩
  | flush i => exact ⟨_,_,_,hs.flush_inStep h⟩
  | resume i => exact ⟨_,_,_,hs.resume_inStep h⟩
  | drop i => exact ⟨_,_,_,hs.drop_inStep hh h⟩
  | recv item =>
    cases item with
    | ok data =>
      obtain ⟨-,rfl⟩ := recv_ok_iff.mp h
      exact ⟨_,_,_,hs.recv_inStep hv hh⟩
    | error e => exact hh.elim
  | _ => exact hh.elim

/-- In an honest run in which the lock is requested in the order of the queue, every reply
reaches the call whose command it answers. -/
theorem replies_paired (as : List Label) (s : State) (h : Transition.run step init as = some s)
    (hh : Transition.Along step Honest init as) (ho : Transition.Along step InOrder init as) :
    Paired s := by
  have hboth : Transition.Along step (fun s a => Honest s a ∧ InOrder s a) init as :=
    Transition.along_and.mpr ⟨hh,ho⟩
  have hinv : Valid s ∧ ∃ front locking rest, InStep s front locking rest := by
    refine Transition.guarded_invariant
      (I := fun s => Valid s ∧ ∃ front locking rest, InStep s front locking rest) ?_
      ⟨init_valid,none,[],[],InStep.init_inStep⟩ hboth h
    rintro s a t ⟨hv,front,locking,rest,hs⟩ ⟨hh,ho⟩ hstep
    exact ⟨step_valid hv hstep,step_inStep hv hs hh ho hstep⟩
  obtain ⟨hv,front,locking,rest,hs⟩ := hinv
  exact hs.paired hv

/-- Two calls whose commands reach the wire in the order of the queue. -/
theorem replies_paired_two_calls :
    ∃ s, Transition.run step init [.enqueue 0 .readHardwareId,.enqueue 1 (.setMute true),.lock 0,
        .lock 1,.send 0,.flush 0,.recv (.ok (.hardwareId ⟨1,10,10⟩)),.resume 0,.send 1,.flush 1,
        .recv (.ok .ack)] = some s ∧ Paired s ∧ s.reply 1 = some (.ok .ack) := by
  let as : List Label := [.enqueue 0 .readHardwareId,.enqueue 1 (.setMute true),.lock 0,.lock 1,
    .send 0,.flush 0,.recv (.ok (.hardwareId ⟨1,10,10⟩)),.resume 0,.send 1,.flush 1,
    .recv (.ok .ack)]
  have hrun : (Transition.run step init as).map (fun s => s.reply 1) = some (some (.ok .ack)) := rfl
  obtain ⟨s,hs,hreply⟩ := Option.map_eq_some_iff.mp hrun
  refine ⟨s,hs,replies_paired as s hs ?_ ?_,hreply⟩
  · iterate 6 refine (Transition.along_cons_of rfl).mpr ⟨trivial,?_⟩
    refine (Transition.along_cons_of rfl).mpr ⟨⟨(.readHardwareId,0),rfl,rfl⟩,?_⟩
    iterate 3 refine (Transition.along_cons_of rfl).mpr ⟨trivial,?_⟩
    exact (Transition.along_cons_of rfl).mpr ⟨⟨(.setMute true,1),rfl,rfl⟩,trivial⟩
  · iterate 2 refine (Transition.along_cons_of rfl).mpr ⟨trivial,?_⟩
    refine (Transition.along_cons_of rfl).mpr ⟨nofun,?_⟩
    refine (Transition.along_cons_of rfl).mpr ⟨?_,?_⟩
    · rintro p (_ | ⟨_,⟨⟩⟩) c
      exact nofun
    iterate 6 refine (Transition.along_cons_of rfl).mpr ⟨trivial,?_⟩
    exact (Transition.along_cons_of rfl).mpr ⟨trivial,trivial⟩

/-- The second call overtakes the first on its way to the sink; its acknowledgment finds the
entry of the first at the front and becomes an event. -/
theorem overtaken_call_loses_ack :
    ¬∀ as s, Transition.run step init as = some s → Transition.Along step Honest init as →
      Paired s := by
  intro h
  let as : List Label := [.enqueue 0 .readHardwareId,.enqueue 1 (.setMute true),.lock 1,.send 1,
    .flush 1,.recv (.ok .ack)]
  have hrun : (Transition.run step init as).map State.events = some [.ack] := rfl
  obtain ⟨s,hs,hev⟩ := Option.map_eq_some_iff.mp hrun
  have hhonest : Transition.Along step Honest init as := by
    iterate 5 refine (Transition.along_cons_of rfl).mpr ⟨trivial,?_⟩
    exact (Transition.along_cons_of rfl).mpr ⟨⟨(.setMute true,1),rfl,rfl⟩,trivial⟩
  have hp := h as s hs hhonest
  cases hev.symm.trans hp.events

end Multiplexer
end Minidsp
