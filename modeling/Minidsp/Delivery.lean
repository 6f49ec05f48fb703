import Minidsp.Multiplexer

/-! The multiplexer refines the queue of waiting requests; what it delivers is read off that. -/
namespace Minidsp
namespace Multiplexer

variable {s t : State} {i : ℕ} {a : Label}

/-- The multiplexer as a queue of requests: what the oneshots got is what left it. -/
def State.replyQueue (s : State) : ReplyQueue.Queue ℕ Commands Responses where
  joined := s.enqueued
  waiting := s.pendingCommand
  gone := s.oneshots.map fun o => (o.1,o.2.toOption)
  offered := s.dispatched

def Label.ops (s : State) : Label → List (ReplyQueue.Op ℕ Commands Responses)
  | .enqueue i cmd => if s.eventTx then [.join cmd i] else []
  | .recv (.ok data) => [.offer data]
  | .drain => [.discard]
  | _ => []

theorem replyQueue_dispatch (s : State) (data : Responses) :
    (dispatch s data).replyQueue =
      ReplyQueue.offer Commands.matchesResponse s.replyQueue data := by
  cases hp : s.pendingCommand with
  | nil => simp [dispatch,ReplyQueue.offer,State.replyQueue,hp]
  | cons p rest =>
    cases hm : p.1.matchesResponse data <;>
      simp [dispatch,ReplyQueue.offer,State.replyQueue,hp,hm,Except.toOption]

/-- Refinement: each step is the operations it stands for. -/
theorem replyQueue_step (h : step s a = some t) :
    t.replyQueue = (a.ops s).foldl (ReplyQueue.apply Commands.matchesResponse) s.replyQueue := by
  have hsink : a.atSink = true → t.replyQueue = s.replyQueue := by
    intro ha
    obtain ⟨hp,-,-,ho,-,he,hd⟩ := atSink_frame ha h
    simp only [State.replyQueue,hp,ho,he,hd]
  cases a with
  | enqueue i cmd =>
    obtain ⟨-,rfl⟩ := enqueue_iff.mp h
    cases htx : s.eventTx <;>
      simp [Label.ops,htx,ReplyQueue.apply,State.replyQueue,push,refuse]
  | recv item =>
    cases item with
    | ok data =>
      obtain ⟨-,rfl⟩ := recv_ok_iff.mp h
      exact replyQueue_dispatch s data
    | error e =>
      obtain ⟨-,rfl | rfl⟩ := recv_error h <;> rfl
  | streamEnd =>
    obtain ⟨-,rfl⟩ := streamEnd_iff.mp h
    rfl
  | takeTx =>
    obtain ⟨-,rfl⟩ := takeTx_iff.mp h
    rfl
  | drain =>
    obtain ⟨-,⟨hp,rfl⟩ | ⟨p,rest,hp,rfl⟩⟩ := drain_iff.mp h <;>
      simp [Label.ops,ReplyQueue.apply,State.replyQueue,hp,Except.toOption]
  | _ => exact hsink rfl

/-- The entries belong to different calls, each of which still has the command it was
made with; a call returns with what its oneshot got. -/
structure Entered (s : State) : Prop where
  fresh : ∀ p ∈ s.enqueued, s.calls p.2 ≠ .idle
  nodup : (s.enqueued.map Prod.snd).Nodup
  command : ∀ i cmd, (s.calls i).command? = some cmd → (cmd,i) ∈ s.enqueued
  returned : ∀ i r, s.calls i = .returned (.ok r) → ∃ cmd, ((cmd,i),.ok r) ∈ s.oneshots

theorem mem_of_reply {x : Except MiniDSPError Responses} (h : s.reply i = some x) :
    ∃ cmd, ((cmd,i),x) ∈ s.oneshots := by
  obtain ⟨⟨⟨cmd,j⟩,y⟩,hfind,rfl⟩ := Option.map_eq_some_iff.mp h
  have hj : j = i := by simpa using List.find?_some hfind
  exact ⟨cmd,hj ▸ List.mem_of_find?_eq_some hfind⟩

theorem Entered.move {c : Call} (hs : Entered s) (hcalls : t.calls = Function.update s.calls i c)
    (hc : c ≠ .idle) (hmem : ∀ p ∈ t.enqueued, p ∈ s.enqueued ∨ p.2 = i)
    (hkeep : ∀ p ∈ s.enqueued, p ∈ t.enqueued) (hnodup : (t.enqueued.map Prod.snd).Nodup)
    (hcmd : ∀ cmd, c.command? = some cmd → (cmd,i) ∈ t.enqueued) (ho : s.oneshots = t.oneshots)
    (hret : ∀ r, c = .returned (.ok r) → ∃ cmd, ((cmd,i),.ok r) ∈ t.oneshots) : Entered t where
  fresh p hp := by
    rw [hcalls,Function.update_apply]
    split_ifs with hpi
    · exact hc
    · exact hs.fresh p ((hmem p hp).resolve_right hpi)
  nodup := hnodup
  command k cmd hk := by
    rw [hcalls,Function.update_apply] at hk
    split_ifs at hk with hki
    · exact hki ▸ hcmd cmd hk
    · exact hkeep _ (hs.command k cmd hk)
  returned k r hk := by
    rw [hcalls,Function.update_apply] at hk
    split_ifs at hk with hki
    · exact hki ▸ hret r hk
    · exact ho ▸ hs.returned k r hk

theorem Entered.same (hs : Entered s) (hcalls : t.calls = s.calls)
    (he : t.enqueued = s.enqueued) (ho : ∀ o ∈ s.oneshots, o ∈ t.oneshots) : Entered t where
  fresh := by rw [hcalls,he]; exact hs.fresh
  nodup := by rw [he]; exact hs.nodup
  command := by rw [hcalls,he]; exact hs.command
  returned j r hj := by
    obtain ⟨cmd,hmem⟩ := hs.returned j r (hcalls ▸ hj)
    exact ⟨cmd,ho _ hmem⟩

theorem enqueue_entered {cmd : Commands} (hs : Entered s) (h : enqueue s i cmd = some t) :
    Entered t := by
  obtain ⟨hidle,rfl⟩ := enqueue_iff.mp h
  cases htx : s.eventTx with
  | false =>
    exact hs.move rfl nofun (fun p hp => Or.inl hp) (fun p hp => hp) hs.nodup nofun rfl nofun
  | true =>
    have hnodup : ((s.enqueued ++ [(cmd,i)]).map Prod.snd).Nodup := by
      rw [List.map_append,List.nodup_append]
      refine ⟨hs.nodup,by simp,?_⟩
      intro j hj k hk hjk
      obtain ⟨p,hp,rfl⟩ := List.mem_map.mp hj
      have hpi : p.2 = i := hjk.trans (by simpa using hk)
      exact hs.fresh p hp (by rw [hpi]; exact hidle)
    refine hs.move rfl nofun ?_ (fun p hp => List.mem_append_left _ hp) hnodup ?_ rfl nofun
    · intro p hp
      rcases List.mem_append.mp hp with hp | hp
      · exact Or.inl hp
      · exact Or.inr (by rw [List.mem_singleton.mp hp])
    · rintro cmd' ⟨rfl⟩
      exact List.mem_append_right _ (List.mem_singleton_self _)

theorem step_entered (hs : Entered s) (h : step s a = some t) : Entered t := by
  have hsink : a.atSink = true → Entered t := by
    intro ha
    obtain ⟨-,-,-,ho,-,he,-⟩ := atSink_frame ha h
    rcases atSink_calls ha h with hc | ⟨j,c,hc,hj,hidle,hcmd,hret⟩
    · exact hs.same hc he fun o hmem => by rw [ho]; exact hmem
    · refine hs.move hc hidle (fun p hp => Or.inl (he ▸ hp)) (fun p hp => he ▸ hp)
        (he ▸ hs.nodup) ?_ ho.symm ?_
      · intro cmd hk
        exact he ▸ hs.command j cmd (hcmd cmd hk)
      · intro r hr
        exact ho ▸ mem_of_reply (hret r hr)
  cases a with
  | enqueue i cmd => exact enqueue_entered hs h
  | recv item =>
    cases item with
    | ok data =>
      obtain ⟨-,rfl⟩ := recv_ok_iff.mp h
      exact hs.same (dispatch_calls s data) (dispatch_enqueued s data) (dispatch_oneshots s data)
    | error e =>
      obtain ⟨-,rfl | rfl⟩ := recv_error h
      · exact hs
      · exact hs.same rfl rfl fun o ho => ho
  | streamEnd =>
    obtain ⟨-,rfl⟩ := streamEnd_iff.mp h
    exact hs.same rfl rfl fun o ho => ho
  | takeTx =>
    obtain ⟨-,rfl⟩ := takeTx_iff.mp h
    exact hs.same rfl rfl fun o ho => ho
  | drain =>
    obtain ⟨-,⟨hp,rfl⟩ | ⟨p,rest,hp,rfl⟩⟩ := drain_iff.mp h
    · exact hs.same rfl rfl fun o ho => ho
    · exact hs.same rfl rfl fun o ho => List.mem_append_left _ ho
  | _ => exact hsink rfl

structure Valid (s : State) : Prop where
  orderly : ReplyQueue.Orderly Commands.matchesResponse s.replyQueue
  entered : Entered s
  eventTx : s.eventTx = true ↔ s.recvTask = .looping ∨ s.recvTask = .left
  drained : s.recvTask = .drained → s.pendingCommand = []
  events : s.events = s.dispatched.filterMap fun d => if d.2 = none then some d.1 else none
  failed : ∀ p e, (p,.error e) ∈ s.oneshots → e = .transportClosed

theorem init_valid : Valid init where
  orderly := ReplyQueue.empty_orderly
  entered := ⟨by simp [init],List.nodup_nil,by simp [init,Call.command?],by simp [init]⟩
  eventTx := by simp [init]
  drained := by simp [init]
  events := rfl
  failed := by simp [init]

theorem dispatch_cases (s : State) (data : Responses) :
    (∃ cmd i rest, s.pendingCommand = (cmd,i) :: rest ∧ cmd.matchesResponse data = true ∧
      dispatch s data = { s with
        pendingCommand := rest
        oneshots := s.oneshots ++ [((cmd,i),.ok data)]
        dispatched := s.dispatched ++ [(data,some i)] }) ∨
    ((∀ p, s.pendingCommand.head? = some p → p.1.matchesResponse data = false) ∧
      dispatch s data = { s with
        events := s.events ++ [data]
        dispatched := s.dispatched ++ [(data,none)] }) := by
  by_cases hm : ∀ p, s.pendingCommand.head? = some p → p.1.matchesResponse data = false
  · exact Or.inr ⟨hm,dispatch_of_not_matches hm⟩
  · push Not at hm
    obtain ⟨⟨cmd,i⟩,hp,hmatch⟩ := hm
    obtain ⟨rest,hrest⟩ := List.head?_eq_some_iff.mp hp
    have hmatch' : cmd.matchesResponse data = true := by simpa using hmatch
    exact Or.inl ⟨cmd,i,rest,hrest,hmatch',dispatch_of_matches hrest hmatch'⟩

theorem step_valid (hs : Valid s) (h : step s a = some t) : Valid t := by
  have horderly : ReplyQueue.Orderly Commands.matchesResponse t.replyQueue := by
    rw [replyQueue_step h]
    exact ReplyQueue.run_orderly hs.orderly _
  have hentered := step_entered hs.entered h
  have hsink : a.atSink = true → Valid t := by
    intro ha
    obtain ⟨hp,htx,hr,ho,hev,-,hd⟩ := atSink_frame ha h
    exact ⟨horderly,hentered,by rw [htx,hr]; exact hs.eventTx,by rw [hp,hr]; exact hs.drained,
      by rw [hev,hd]; exact hs.events,by rw [ho]; exact hs.failed⟩
  cases a with
  | enqueue i cmd =>
    obtain ⟨hidle,rfl⟩ := enqueue_iff.mp h
    cases htx : s.eventTx with
    | false =>
      simp only [htx,Bool.false_eq_true,if_false] at horderly hentered
      exact ⟨horderly,hentered,hs.eventTx,hs.drained,hs.events,hs.failed⟩
    | true =>
      have hopen := hs.eventTx.mp htx
      simp only [htx,if_true] at horderly hentered
      refine ⟨horderly,hentered,hs.eventTx,fun hr => ?_,hs.events,hs.failed⟩
      rcases hopen with ho | ho <;> cases ho.symm.trans hr
  | recv item =>
    cases item with
    | ok data =>
      obtain ⟨hr,rfl⟩ := recv_ok_iff.mp h
      rcases dispatch_cases s data with ⟨cmd,i,rest,hp,hm,he⟩ | ⟨hm,he⟩
      · rw [he] at horderly hentered ⊢
        refine ⟨horderly,hentered,hs.eventTx,fun hd => ?_,?_,?_⟩
        · cases hr.symm.trans hd
        · simpa using hs.events
        · simpa using hs.failed
      · rw [he] at horderly hentered ⊢
        refine ⟨horderly,hentered,hs.eventTx,hs.drained,?_,hs.failed⟩
        simp [hs.events]
    | error e =>
      obtain ⟨hr,rfl | rfl⟩ := recv_error h
      · exact hs
      · have htx : s.eventTx = true := hs.eventTx.mpr (Or.inl hr)
        exact ⟨horderly,hentered,by simp [htx],nofun,hs.events,hs.failed⟩
  | streamEnd =>
    obtain ⟨hr,rfl⟩ := streamEnd_iff.mp h
    have htx : s.eventTx = true := hs.eventTx.mpr (Or.inl hr)
    exact ⟨horderly,hentered,by simp [htx],nofun,hs.events,hs.failed⟩
  | takeTx =>
    obtain ⟨hr,rfl⟩ := takeTx_iff.mp h
    exact ⟨horderly,hentered,by simp,nofun,hs.events,hs.failed⟩
  | drain =>
    obtain ⟨hr,⟨hp,rfl⟩ | ⟨p,rest,hp,rfl⟩⟩ := drain_iff.mp h
    · have htx : s.eventTx ≠ true := by
        rw [Ne,hs.eventTx]
        simp [hr]
      exact ⟨horderly,hentered,by simp [htx],fun _ => hp,hs.events,hs.failed⟩
    · refine ⟨horderly,hentered,hs.eventTx,(fun hd => by cases hr.symm.trans hd),hs.events,?_⟩
      intro q e hq
      rcases List.mem_append.mp hq with hq | hq
      · exact hs.failed q e hq
      · obtain ⟨-,he⟩ := Prod.mk.inj (List.mem_singleton.mp hq)
        exact Except.error.inj he
  | _ => exact hsink rfl

theorem reachable_valid (hs : Transition.Reachable step init s) : Valid s :=
  hs.invariant init_valid fun _ _ _ hs h => step_valid hs h

namespace Valid

variable (hs : Valid s)
include hs

theorem fifo : s.enqueued = s.oneshots.map Prod.fst ++ s.pendingCommand := by
  have h := hs.orderly.fifo
  simpa [State.replyQueue,Function.comp_def] using h

theorem callers_nodup : (s.oneshots.map fun o => o.1.2).Nodup ∧
    ∀ o ∈ s.oneshots, ∀ p ∈ s.pendingCommand, o.1.2 ≠ p.2 := by
  have h := hs.entered.nodup
  rw [hs.fifo,List.map_append,List.nodup_append,List.map_map] at h
  exact ⟨h.1,fun o ho p hp => h.2.2 _ (List.mem_map_of_mem ho) _ (List.mem_map_of_mem hp)⟩

theorem pending_nodup : (s.pendingCommand.map Prod.snd).Nodup := by
  have h := hs.entered.nodup
  rw [hs.fifo,List.map_append,List.nodup_append] at h
  exact h.2.1

theorem reply_of_mem {o : PendingCommandTuple × Except MiniDSPError Responses}
    (ho : o ∈ s.oneshots) : s.reply o.1.2 = some o.2 := by
  rw [State.reply,ReplyQueue.find?_key (fun o => o.1.2) hs.callers_nodup.1 ho]
  rfl

theorem reply_of_pending {p : PendingCommandTuple} (hp : p ∈ s.pendingCommand) :
    s.reply p.2 = none := by
  cases hr : s.reply p.2 with
  | none => rfl
  | some x =>
    obtain ⟨cmd,hmem⟩ := mem_of_reply hr
    exact absurd rfl (hs.callers_nodup.2 _ hmem p hp)

theorem accepted {p : PendingCommandTuple} {r : Responses} (h : (p,.ok r) ∈ s.oneshots) :
    p.1.matchesResponse r = true :=
  hs.orderly.accepted p r (List.mem_map.mpr ⟨(p,.ok r),h,rfl⟩)

end Valid

/-! The lock around the sink. -/

def Call.atLock : Call → Bool
  | .locking _ | .flushing _ | .awaiting _ => true
  | _ => false

def Call.hasSent : Call → Bool
  | .flushing _ | .awaiting _ => true
  | _ => false

/-- The queue of the lock; a call that has sent its command still has the lock. -/
structure Seated (s : State) : Prop where
  nodup : s.writeQueue.Nodup
  waits : ∀ i, i ∈ s.writeQueue ↔ (s.calls i).atLock = true
  holder : ∀ i, (s.calls i).hasSent = true → s.holds i

namespace Seated

theorem init_seated : Seated init := ⟨List.nodup_nil,fun _ => ⟨nofun,nofun⟩,nofun⟩

theorem of_eq (hs : Seated s) (hq : t.writeQueue = s.writeQueue) (hc : t.calls = s.calls) :
    Seated t := by
  refine ⟨hq ▸ hs.nodup,fun i => ?_,fun i hi => ?_⟩
  · rw [hq,hc]
    exact hs.waits i
  · rw [hc] at hi
    rw [State.holds,hq]
    exact hs.holder i hi

theorem setCall {c : Call} (hs : Seated s) (hq : t.writeQueue = s.writeQueue)
    (hc : t.calls = Function.update s.calls i c) (hat : c.atLock = (s.calls i).atLock)
    (hsent : c.hasSent = true → s.holds i) : Seated t := by
  refine ⟨hq ▸ hs.nodup,fun j => ?_,fun j hj => ?_⟩
  · rw [hq,hc,hs.waits j]
    by_cases hji : j = i
    · rw [hji,Function.update_self,hat]
    · rw [Function.update_of_ne hji]
  · rw [State.holds,hq]
    rw [hc] at hj
    by_cases hji : j = i
    · rw [hji,Function.update_self] at hj
      exact hji ▸ hsent hj
    · rw [Function.update_of_ne hji] at hj
      exact hs.holder j hj

theorem leave {c : Call} (hs : Seated s) (hq : t.writeQueue = s.writeQueue.erase i)
    (hc : t.calls = Function.update s.calls i c) (hat : c.atLock = false)
    (hsent : c.hasSent = false) : Seated t := by
  refine ⟨hq ▸ hs.nodup.erase i,fun j => ?_,fun j hj => ?_⟩
  · rw [hq,hc,hs.nodup.mem_erase_iff,hs.waits j]
    by_cases hji : j = i
    · simp [hji,hat]
    · simp [hji]
  · rw [hc] at hj
    by_cases hji : j = i
    · rw [hji,Function.update_self,hsent] at hj
      cases hj
    · rw [Function.update_of_ne hji] at hj
      obtain ⟨rest,hrest⟩ := List.head?_eq_some_iff.mp (hs.holder j hj)
      rw [State.holds,hq,hrest,List.erase_cons_tail (by simpa using hji)]
      rfl

theorem tail_eq_erase (h : s.holds i) : s.writeQueue.tail = s.writeQueue.erase i := by
  obtain ⟨rest,hrest⟩ := List.head?_eq_some_iff.mp h
  rw [hrest,List.erase_cons_head,List.tail_cons]

end Seated

theorem step_seated (hs : Seated s) (h : step s a = some t) : Seated t := by
  cases a with
  | enqueue i cmd =>
    obtain ⟨hidle,rfl⟩ := enqueue_iff.mp h
    have hat : (s.calls i).atLock = false := by rw [hidle]; rfl
    cases s.eventTx with
    | true => exact hs.setCall rfl rfl hat.symm nofun
    | false => exact hs.setCall rfl rfl hat.symm nofun
  | lock i =>
    obtain ⟨cmd,hc,rfl⟩ := lock_iff.mp h
    have hnot : i ∉ s.writeQueue := by
      rw [hs.waits,hc]
      exact nofun
    refine ⟨?_,fun j => ?_,fun j hj => ?_⟩
    · exact List.nodup_append.mpr ⟨hs.nodup,List.nodup_singleton i,by
        rintro j hj _ hmem rfl
        exact hnot (List.mem_singleton.mp hmem ▸ hj)⟩
    · by_cases hji : j = i
      · simp [hji,Call.atLock]
      · simp [hji,hs.waits]
    · by_cases hji : j = i
      · rw [hji,setCall_calls,Function.update_self] at hj
        cases hj
      · rw [setCall_calls,Function.update_of_ne hji] at hj
        rw [State.holds,List.head?_append,hs.holder j hj]
        rfl
  | send i =>
    obtain ⟨cmd,hc,hh,rfl⟩ := send_iff.mp h
    cases s.write with
    | true => exact hs.setCall rfl rfl (by rw [hc]; rfl) fun _ => hh
    | false => exact hs.leave (Seated.tail_eq_erase hh) rfl rfl rfl
  | sendError i e =>
    obtain ⟨-,hh,-,rfl⟩ := sendError_iff.mp h
    exact hs.leave (Seated.tail_eq_erase hh) rfl rfl rfl
  | flush i =>
    obtain ⟨cmd,hc,hh,rfl⟩ := flush_iff.mp h
    exact hs.setCall rfl rfl (by rw [hc]; rfl) fun _ => hh
  | resume i =>
    obtain ⟨cmd,result,-,hh,-,rfl⟩ := resume_iff.mp h
    exact hs.leave (Seated.tail_eq_erase hh) rfl rfl rfl
  | drop i =>
    obtain ⟨-,rfl⟩ := drop_iff.mp h
    exact hs.leave rfl rfl rfl rfl
  | recv item =>
    cases item with
    | ok data =>
      obtain ⟨-,rfl⟩ := recv_ok_iff.mp h
      exact hs.of_eq (dispatch_writeQueue s data) (dispatch_calls s data)
    | error e => obtain ⟨-,rfl | rfl⟩ := recv_error h <;> exact hs.of_eq rfl rfl
  | streamEnd =>
    obtain ⟨-,rfl⟩ := streamEnd_iff.mp h
    exact hs.of_eq rfl rfl
  | takeTx =>
    obtain ⟨-,rfl⟩ := takeTx_iff.mp h
    exact hs.of_eq rfl rfl
  | drain => obtain ⟨-,⟨-,rfl⟩ | ⟨_,_,-,rfl⟩⟩ := drain_iff.mp h <;> exact hs.of_eq rfl rfl
  | shutdown =>
    obtain rfl := shutdown_eq h
    exact hs.of_eq rfl rfl

theorem reachable_seated (hs : Transition.Reachable step init s) : Seated s :=
  hs.invariant Seated.init_seated fun _ _ _ hs h => step_seated hs h

theorem matches_readMemory {addr : UInt16} {size : UInt8} {r : Responses}
    (h : (Commands.readMemory addr size).matchesResponse r = true) :
    ∃ data, r = .memoryData ⟨addr,data⟩ ∧ data.length = size.toNat := by
  cases r with
  | memoryData view =>
    simp only [Commands.matchesResponse,Bool.and_eq_true,beq_iff_eq] at h
    exact ⟨view.data,by rw [← h.1],h.2⟩
  | _ => cases h

theorem matches_readFloats {addr : UInt16} {len : UInt8} {r : Responses}
    (h : (Commands.readFloats addr len).matchesResponse r = true) :
    ∃ data, r = .floatData ⟨addr,data⟩ ∧ data.length = len.toNat := by
  cases r with
  | floatData view =>
    simp only [Commands.matchesResponse,Bool.and_eq_true,beq_iff_eq] at h
    exact ⟨view.data,by rw [← h.1],h.2⟩
  | _ => cases h

/-- What the histories of a run look like at any moment. -/
structure DeliverySafe (s : State) : Prop where
  order : s.enqueued = s.oneshots.map Prod.fst ++ s.pendingCommand
  once : (s.enqueued.map Prod.snd).Nodup
  accepted : ∀ p r, (p,.ok r) ∈ s.oneshots → p.1.matchesResponse r = true
  memory : ∀ addr size i r, ((.readMemory addr size,i),.ok r) ∈ s.oneshots →
    ∃ data, r = .memoryData ⟨addr,data⟩ ∧ data.length = size.toNat
  floats : ∀ addr len i r, ((.readFloats addr len,i),.ok r) ∈ s.oneshots →
    ∃ data, r = .floatData ⟨addr,data⟩ ∧ data.length = len.toNat
  taken : s.dispatched.filterMap ReplyQueue.claimed =
    s.oneshots.filterMap fun o => o.2.toOption.map fun r => (o.1.2,r)
  events : s.events = s.dispatched.filterMap fun d => if d.2 = none then some d.1 else none
  returned : ∀ i r, s.calls i = .returned (.ok r) → ∃ cmd, ((cmd,i),.ok r) ∈ s.oneshots

def OnePlace (s : State) (data : Responses) (t : State) : Prop :=
  (∃ cmd i rest, s.pendingCommand = (cmd,i) :: rest ∧ cmd.matchesResponse data = true ∧
    t.pendingCommand = rest ∧ t.oneshots = s.oneshots ++ [((cmd,i),.ok data)] ∧
    t.events = s.events) ∨
  ((∀ p, s.pendingCommand.head? = some p → p.1.matchesResponse data = false) ∧
    t.pendingCommand = s.pendingCommand ∧ t.oneshots = s.oneshots ∧
    t.events = s.events ++ [data])

theorem Valid.deliverySafe (hs : Valid s) : DeliverySafe s where
  order := hs.fifo
  once := hs.entered.nodup
  accepted _ _ h := hs.accepted h
  memory _ _ _ _ h := matches_readMemory (hs.accepted h)
  floats _ _ _ _ h := matches_readFloats (hs.accepted h)
  taken := by
    have h := hs.orderly.matched
    rw [State.replyQueue,List.filterMap_map] at h
    exact h
  events := hs.events
  returned := hs.entered.returned

/-- In every run a response is delivered once, in order, and to a caller that accepts it. -/
theorem delivery_safe (s : State) (hs : Transition.Reachable step init s) :
    DeliverySafe s ∧ ∀ data t, step s (.recv (.ok data)) = some t → OnePlace s data t := by
  refine ⟨(reachable_valid hs).deliverySafe,fun data t h => ?_⟩
  obtain ⟨-,rfl⟩ := recv_ok_iff.mp h
  rcases dispatch_cases s data with ⟨cmd,i,rest,hp,hm,he⟩ | ⟨hm,he⟩
  · exact Or.inl ⟨cmd,i,rest,hp,hm,by rw [he],by rw [he],by rw [he]⟩
  · exact Or.inr ⟨hm,by rw [he],by rw [he],by rw [he]⟩

/-- Two calls and their responses, with an event between them. -/
def goldenPath : List Label :=
  [.enqueue 0 (.setMute true),.lock 0,.send 0,.flush 0,.enqueue 1 .readHardwareId,.lock 1,
    .recv (.ok .ack),.resume 0,.send 1,.flush 1,.recv (.ok .configChanged),
    .recv (.ok (.hardwareId ⟨1,10,10⟩)),.resume 1]

theorem delivery_safe_golden_path :
    ∃ s, Transition.run step init goldenPath = some s ∧ s.events = [.configChanged] ∧
      DeliverySafe s := by
  have hrun : (Transition.run step init goldenPath).map State.events = some [.configChanged] := rfl
  obtain ⟨s,hs,hev⟩ := Option.map_eq_some_iff.mp hrun
  exact ⟨s,hs,hev,(delivery_safe s ⟨_,hs⟩).1⟩

end Multiplexer
end Minidsp
