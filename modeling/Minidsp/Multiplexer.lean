import Mathlib.Logic.Function.Basic
import Minidsp.Commands
import Minidsp.ReplyQueue
import Minidsp.Transition
import Minidsp.Transport

/-! The command-response multiplexer as a transition system. A step is one critical section of
a `roundtrip`, of the receive task or of its cleanup; calls are numbered. -/
namespace Minidsp
namespace Multiplexer

/-- A pending command, with the call whose oneshot waits for the response. -/
abbrev PendingCommandTuple := Commands × ℕ

/-- A call of `roundtrip`, by the await point it has reached. -/
inductive Call
  | idle
  | queued (cmd : Commands)
  | locking (cmd : Commands)
  | flushing (cmd : Commands)
  | awaiting (cmd : Commands)
  | returned (result : Except MiniDSPError Responses)
  | dropped

/-- The receive task: in `recv_loop`, past it, past taking `event_tx`, past the drain. -/
inductive RecvTask
  | looping
  | left
  | closed
  | drained
  deriving DecidableEq

structure State where
  pendingCommand : List PendingCommandTuple
  eventTx : Bool
  /-- The sink is still there. -/
  write : Bool
  /-- The calls at the fair lock around the sink, the one that holds it first. -/
  writeQueue : List ℕ
  calls : ℕ → Call
  recvTask : RecvTask
  /-- What the sink was given. -/
  sink : List PendingCommandTuple
  /-- What was sent on the oneshots, with the entry each of them came from. -/
  oneshots : List (PendingCommandTuple × Except MiniDSPError Responses)
  events : List Responses
  /-- History: the entries pushed so far, and each response with the call it went to. -/
  enqueued : List PendingCommandTuple
  dispatched : List (Responses × Option ℕ)

def init : State where
  pendingCommand := []
  eventTx := true
  write := true
  writeQueue := []
  calls _ := .idle
  recvTask := .looping
  sink := []
  oneshots := []
  events := []
  enqueued := []
  dispatched := []

def State.reply (s : State) (i : ℕ) : Option (Except MiniDSPError Responses) :=
  (s.oneshots.find? fun o => o.1.2 == i).map Prod.snd

def State.setCall (s : State) (i : ℕ) (c : Call) : State :=
  { s with calls := Function.update s.calls i c }

section SetCall

variable (s : State) (i : ℕ) (c : Call)

@[simp] theorem setCall_calls : (s.setCall i c).calls = Function.update s.calls i c := rfl
@[simp] theorem setCall_pendingCommand : (s.setCall i c).pendingCommand = s.pendingCommand := rfl
@[simp] theorem setCall_eventTx : (s.setCall i c).eventTx = s.eventTx := rfl
@[simp] theorem setCall_write : (s.setCall i c).write = s.write := rfl
@[simp] theorem setCall_writeQueue : (s.setCall i c).writeQueue = s.writeQueue := rfl
@[simp] theorem setCall_recvTask : (s.setCall i c).recvTask = s.recvTask := rfl
@[simp] theorem setCall_sink : (s.setCall i c).sink = s.sink := rfl
@[simp] theorem setCall_oneshots : (s.setCall i c).oneshots = s.oneshots := rfl
@[simp] theorem setCall_events : (s.setCall i c).events = s.events := rfl
@[simp] theorem setCall_enqueued : (s.setCall i c).enqueued = s.enqueued := rfl
@[simp] theorem setCall_dispatched : (s.setCall i c).dispatched = s.dispatched := rfl

end SetCall

def State.holds (s : State) (i : ℕ) : Prop := s.writeQueue.head? = some i

instance (s : State) (i : ℕ) : Decidable (s.holds i) := inferInstanceAs (Decidable (_ = _))

/-- `pending_command.push_back`. -/
def push (s : State) (i : ℕ) (cmd : Commands) : State :=
  { s.setCall i (.queued cmd) with
    pendingCommand := s.pendingCommand ++ [(cmd,i)]
    enqueued := s.enqueued ++ [(cmd,i)] }

/-- The early return of a call that finds `event_tx` taken. -/
def refuse (s : State) (i : ℕ) : State := s.setCall i (.returned (.error .transportClosed))

@[simp] theorem push_calls (s : State) (i : ℕ) (cmd : Commands) :
    (push s i cmd).calls = Function.update s.calls i (.queued cmd) := rfl
@[simp] theorem refuse_calls (s : State) (i : ℕ) :
    (refuse s i).calls = Function.update s.calls i (.returned (.error .transportClosed)) := rfl

/-- The block under the locks of `event_tx` and `pending_command`. -/
def enqueue (s : State) (i : ℕ) (cmd : Commands) : Option State :=
  match s.calls i with
  | .idle => if s.eventTx then some (push s i cmd) else some (refuse s i)
  | _ => none

/-- `self.write.lock()` is polled: the call gets the lock or a place in its queue. -/
def lock (s : State) (i : ℕ) : Option State :=
  match s.calls i with
  | .queued cmd => some { s.setCall i (.locking cmd) with writeQueue := s.writeQueue ++ [i] }
  | _ => none

/-- With the lock: the sink takes the command, or is gone. -/
def send (s : State) (i : ℕ) : Option State :=
  match s.calls i with
  | .locking cmd =>
    if s.holds i then
      if s.write then some { s.setCall i (.flushing cmd) with sink := s.sink ++ [(cmd,i)] }
      else some { s.setCall i (.returned (.error .transportClosed)) with
        writeQueue := s.writeQueue.tail }
    else none
  | _ => none

/-- `writer.send(cmd)` fails, before or after the sink took the command: the sink is dropped. -/
def sendError (s : State) (i : ℕ) (e : MiniDSPError) : Option State :=
  match s.calls i with
  | .locking _ | .flushing _ =>
    if s.holds i ∧ s.write then
      some { s.setCall i (.returned (.error e)) with
        write := false
        writeQueue := s.writeQueue.tail }
    else none
  | _ => none

/-- `writer.send(cmd)` is done; the call keeps the lock. -/
def flush (s : State) (i : ℕ) : Option State :=
  match s.calls i with
  | .flushing cmd => if s.holds i then some (s.setCall i (.awaiting cmd)) else none
  | _ => none

/-- The oneshot has the reply, and the call returns with it and gives up the lock. -/
def resume (s : State) (i : ℕ) : Option State :=
  match s.calls i with
  | .awaiting _ =>
    if s.holds i then
      (s.reply i).map fun result =>
        { s.setCall i (.returned result) with writeQueue := s.writeQueue.tail }
    else none
  | _ => none

/-- The future is dropped at one of its await points, with the guard it holds. -/
def drop (s : State) (i : ℕ) : Option State :=
  match s.calls i with
  | .locking _ | .flushing _ | .awaiting _ =>
    some { s.setCall i .dropped with writeQueue := s.writeQueue.erase i }
  | _ => none

/-- The response goes to the front entry if that one accepts it, else to the events. -/
def dispatch (s : State) (data : Responses) : State :=
  match s.pendingCommand with
  | [] => { s with events := s.events ++ [data], dispatched := s.dispatched ++ [(data,none)] }
  | (cmd,i) :: rest =>
    if cmd.matchesResponse data then
      { s with
        pendingCommand := rest
        oneshots := s.oneshots ++ [((cmd,i),.ok data)]
        dispatched := s.dispatched ++ [(data,some i)] }
    else { s with events := s.events ++ [data], dispatched := s.dispatched ++ [(data,none)] }

def recv (s : State) (item : Except MiniDSPError Responses) : Option State :=
  if s.recvTask = .looping then
    match item with
    | .ok data => some (dispatch s data)
    | .error (.parseError _) => some s
    | .error _ => some { s with recvTask := .left }
  else none

def streamEnd (s : State) : Option State :=
  if s.recvTask = .looping then some { s with recvTask := .left } else none

def takeTx (s : State) : Option State :=
  if s.recvTask = .left then some { s with eventTx := false, recvTask := .closed } else none

/-- One turn of the drain: `pop_front`, or the end of the task. -/
def drain (s : State) : Option State :=
  if s.recvTask = .closed then
    match s.pendingCommand with
    | [] => some { s with recvTask := .drained }
    | p :: rest => some { s with
        pendingCommand := rest
        oneshots := s.oneshots ++ [(p,.error .transportClosed)] }
  else none

/-- `MultiplexerService::shutdown` has the lock: no call is at the sink, or waits for its reply. -/
def shutdown (s : State) : Option State :=
  match s.writeQueue.head?.map s.calls with
  | some (.flushing _) | some (.awaiting _) => none
  | _ => some { s with write := false }

inductive Label
  | enqueue (i : ℕ) (cmd : Commands)
  | lock (i : ℕ)
  | send (i : ℕ)
  | sendError (i : ℕ) (e : MiniDSPError)
  | flush (i : ℕ)
  | resume (i : ℕ)
  | drop (i : ℕ)
  | recv (item : Except MiniDSPError Responses)
  | streamEnd
  | takeTx
  | drain
  | shutdown

def step (s : State) : Label → Option State
  | .enqueue i cmd => enqueue s i cmd
  | .lock i => lock s i
  | .send i => send s i
  | .sendError i e => sendError s i e
  | .flush i => flush s i
  | .resume i => resume s i
  | .drop i => drop s i
  | .recv item => recv s item
  | .streamEnd => streamEnd s
  | .takeTx => takeTx s
  | .drain => drain s
  | .shutdown => shutdown s

/-! What each step can do. -/

/-- The steps of a call past the queue, and the shutdown of the sink. -/
def Label.atSink : Label → Bool
  | .lock _ | .send _ | .sendError .. | .flush _ | .resume _ | .drop _ | .shutdown => true
  | _ => false

variable {s t : State} {i : ℕ} {cmd : Commands} {data : Responses} {a : Label}

theorem enqueue_iff : enqueue s i cmd = some t ↔ s.calls i = .idle ∧
    t = if s.eventTx then push s i cmd else refuse s i := by
  unfold enqueue
  cases s.calls i <;> cases s.eventTx <;> simp [eq_comm]

theorem lock_iff : lock s i = some t ↔ ∃ cmd, s.calls i = .queued cmd ∧
    t = { s.setCall i (.locking cmd) with writeQueue := s.writeQueue ++ [i] } := by
  unfold lock
  cases s.calls i <;> simp [eq_comm]

theorem send_iff : send s i = some t ↔ ∃ cmd, s.calls i = .locking cmd ∧ s.holds i ∧
    t = if s.write then { s.setCall i (.flushing cmd) with sink := s.sink ++ [(cmd,i)] }
      else { s.setCall i (.returned (.error .transportClosed)) with
        writeQueue := s.writeQueue.tail } := by
  unfold send
  by_cases hh : s.holds i <;> cases s.calls i <;> cases s.write <;> simp [hh,eq_comm]

theorem sendError_iff {e : MiniDSPError} : sendError s i e = some t ↔
    (∃ cmd, s.calls i = .locking cmd ∨ s.calls i = .flushing cmd) ∧ s.holds i ∧ s.write = true ∧
      t = { s.setCall i (.returned (.error e)) with
        write := false
        writeQueue := s.writeQueue.tail } := by
  unfold sendError
  by_cases hh : s.holds i <;> cases s.calls i <;> cases s.write <;> simp [hh,eq_comm]

theorem flush_iff : flush s i = some t ↔ ∃ cmd, s.calls i = .flushing cmd ∧ s.holds i ∧
    t = s.setCall i (.awaiting cmd) := by
  unfold flush
  by_cases hh : s.holds i <;> cases s.calls i <;> simp [hh,eq_comm]

theorem resume_iff : resume s i = some t ↔ ∃ cmd result, s.calls i = .awaiting cmd ∧ s.holds i ∧
    s.reply i = some result ∧
      t = { s.setCall i (.returned result) with writeQueue := s.writeQueue.tail } := by
  unfold resume
  by_cases hh : s.holds i <;> cases s.calls i <;> simp [hh,eq_comm]

theorem drop_iff : drop s i = some t ↔
    (∃ cmd, s.calls i = .locking cmd ∨ s.calls i = .flushing cmd ∨ s.calls i = .awaiting cmd) ∧
      t = { s.setCall i .dropped with writeQueue := s.writeQueue.erase i } := by
  unfold drop
  cases s.calls i <;> simp [eq_comm]

theorem shutdown_eq (h : shutdown s = some t) : t = { s with write := false } := by
  unfold shutdown at h
  split at h
  · cases h
  · cases h
  · exact (Option.some.inj h).symm

theorem dispatch_of_matches {rest : List PendingCommandTuple}
    (hp : s.pendingCommand = (cmd,i) :: rest) (h : cmd.matchesResponse data = true) :
    dispatch s data = { s with
      pendingCommand := rest
      oneshots := s.oneshots ++ [((cmd,i),.ok data)]
      dispatched := s.dispatched ++ [(data,some i)] } := by
  simp [dispatch,hp,h]

theorem dispatch_of_not_matches
    (h : ∀ p, s.pendingCommand.head? = some p → p.1.matchesResponse data = false) :
    dispatch s data = { s with
      events := s.events ++ [data]
      dispatched := s.dispatched ++ [(data,none)] } := by
  unfold dispatch
  cases hp : s.pendingCommand with
  | nil => rfl
  | cons p rest => simp [h p (by rw [hp]; rfl)]

theorem recv_ok_iff : recv s (.ok data) = some t ↔ s.recvTask = .looping ∧ t = dispatch s data := by
  by_cases hl : s.recvTask = .looping <;> simp [recv,hl,eq_comm]

theorem recv_error {e : MiniDSPError} (h : recv s (.error e) = some t) :
    s.recvTask = .looping ∧ (t = s ∨ t = { s with recvTask := .left }) := by
  unfold recv at h
  split_ifs at h with hl
  refine ⟨hl,?_⟩
  cases e <;> simp_all [eq_comm]

theorem streamEnd_iff : streamEnd s = some t ↔
    s.recvTask = .looping ∧ t = { s with recvTask := .left } := by
  by_cases hl : s.recvTask = .looping <;> simp [streamEnd,hl,eq_comm]

theorem takeTx_iff : takeTx s = some t ↔
    s.recvTask = .left ∧ t = { s with eventTx := false, recvTask := .closed } := by
  by_cases hl : s.recvTask = .left <;> simp [takeTx,hl,eq_comm]

theorem drain_iff : drain s = some t ↔ s.recvTask = .closed ∧
    ((s.pendingCommand = [] ∧ t = { s with recvTask := .drained }) ∨
      ∃ p rest, s.pendingCommand = p :: rest ∧ t = { s with
        pendingCommand := rest
        oneshots := s.oneshots ++ [(p,.error .transportClosed)] }) := by
  by_cases hl : s.recvTask = .closed <;> cases hp : s.pendingCommand <;>
    simp [drain,hl,hp,eq_comm]

def Call.command? : Call → Option Commands
  | .queued cmd | .locking cmd | .flushing cmd | .awaiting cmd => some cmd
  | _ => none

/-- The steps at the sink leave the queue, the channels and the receive task alone. -/
theorem atSink_frame (ha : a.atSink = true) (h : step s a = some t) :
    t.pendingCommand = s.pendingCommand ∧ t.eventTx = s.eventTx ∧ t.recvTask = s.recvTask ∧
      t.oneshots = s.oneshots ∧ t.events = s.events ∧ t.enqueued = s.enqueued ∧
      t.dispatched = s.dispatched := by
  cases a with
  | lock i =>
    obtain ⟨cmd,-,rfl⟩ := lock_iff.mp h
    exact ⟨rfl,rfl,rfl,rfl,rfl,rfl,rfl⟩
  | send i =>
    obtain ⟨cmd,-,-,rfl⟩ := send_iff.mp h
    cases s.write <;> exact ⟨rfl,rfl,rfl,rfl,rfl,rfl,rfl⟩
  | sendError i e =>
    obtain ⟨-,-,-,rfl⟩ := sendError_iff.mp h
    exact ⟨rfl,rfl,rfl,rfl,rfl,rfl,rfl⟩
  | flush i =>
    obtain ⟨cmd,-,-,rfl⟩ := flush_iff.mp h
    exact ⟨rfl,rfl,rfl,rfl,rfl,rfl,rfl⟩
  | resume i =>
    obtain ⟨cmd,result,-,-,-,rfl⟩ := resume_iff.mp h
    exact ⟨rfl,rfl,rfl,rfl,rfl,rfl,rfl⟩
  | drop i =>
    obtain ⟨-,rfl⟩ := drop_iff.mp h
    exact ⟨rfl,rfl,rfl,rfl,rfl,rfl,rfl⟩
  | shutdown =>
    obtain rfl := shutdown_eq h
    exact ⟨rfl,rfl,rfl,rfl,rfl,rfl,rfl⟩
  | _ => cases ha

theorem atSink_calls (ha : a.atSink = true) (h : step s a = some t) :
    t.calls = s.calls ∨ ∃ i c, t.calls = Function.update s.calls i c ∧ s.calls i ≠ .idle ∧
      c ≠ .idle ∧ (∀ cmd, c.command? = some cmd → (s.calls i).command? = some cmd) ∧
      ∀ r, c = .returned (.ok r) → s.reply i = some (.ok r) := by
  cases a with
  | lock i =>
    obtain ⟨cmd,hc,rfl⟩ := lock_iff.mp h
    exact Or.inr ⟨i,.locking cmd,rfl,by simp [hc],nofun,by simp [hc,Call.command?],nofun⟩
  | send i =>
    obtain ⟨cmd,hc,-,rfl⟩ := send_iff.mp h
    refine Or.inr ⟨i,if s.write then .flushing cmd else .returned (.error .transportClosed),?_⟩
    cases s.write <;> simp [State.setCall,hc,Call.command?]
  | sendError i e =>
    obtain ⟨⟨cmd,hc⟩,-,-,rfl⟩ := sendError_iff.mp h
    refine Or.inr ⟨i,.returned (.error e),rfl,?_,nofun,nofun,nofun⟩
    rcases hc with hc | hc <;> simp [hc]
  | flush i =>
    obtain ⟨cmd,hc,-,rfl⟩ := flush_iff.mp h
    exact Or.inr ⟨i,.awaiting cmd,rfl,by simp [hc],nofun,by simp [hc,Call.command?],nofun⟩
  | resume i =>
    obtain ⟨cmd,result,hc,-,hr,rfl⟩ := resume_iff.mp h
    refine Or.inr ⟨i,.returned result,rfl,by simp [hc],nofun,nofun,?_⟩
    rintro r ⟨rfl⟩
    exact hr
  | drop i =>
    obtain ⟨⟨cmd,hc⟩,rfl⟩ := drop_iff.mp h
    refine Or.inr ⟨i,.dropped,rfl,?_,nofun,nofun,nofun⟩
    rcases hc with hc | hc | hc <;> simp [hc]
  | shutdown =>
    obtain rfl := shutdown_eq h
    exact Or.inl rfl
  | _ => cases ha

theorem dispatch_frame (s : State) (data : Responses) :
    (dispatch s data).calls = s.calls ∧ (dispatch s data).enqueued = s.enqueued ∧
      (dispatch s data).eventTx = s.eventTx ∧ (dispatch s data).recvTask = s.recvTask ∧
      (dispatch s data).writeQueue = s.writeQueue := by
  unfold dispatch
  split
  · exact ⟨rfl,rfl,rfl,rfl,rfl⟩
  · split <;> exact ⟨rfl,rfl,rfl,rfl,rfl⟩

@[simp] theorem dispatch_calls (s : State) (data : Responses) :
    (dispatch s data).calls = s.calls := (dispatch_frame s data).1
@[simp] theorem dispatch_enqueued (s : State) (data : Responses) :
    (dispatch s data).enqueued = s.enqueued := (dispatch_frame s data).2.1
@[simp] theorem dispatch_eventTx (s : State) (data : Responses) :
    (dispatch s data).eventTx = s.eventTx := (dispatch_frame s data).2.2.1
@[simp] theorem dispatch_recvTask (s : State) (data : Responses) :
    (dispatch s data).recvTask = s.recvTask := (dispatch_frame s data).2.2.2.1
@[simp] theorem dispatch_writeQueue (s : State) (data : Responses) :
    (dispatch s data).writeQueue = s.writeQueue := (dispatch_frame s data).2.2.2.2

theorem dispatch_oneshots (s : State) (data : Responses) :
    ∀ o ∈ s.oneshots, o ∈ (dispatch s data).oneshots := by
  intro o ho
  unfold dispatch
  split
  · exact ho
  · split
    · exact List.mem_append_left _ ho
    · exact ho

inductive RecvTask.Next : RecvTask → RecvTask → Prop
  | left : Next .looping .left
  | closed : Next .left .closed
  | drained : Next .closed .drained

theorem RecvTask.Next.ne_looping {r r' : RecvTask} (h : Next r r') : r' ≠ .looping := by
  cases h <;> exact nofun

theorem step_recvTask (h : step s a = some t) :
    t.recvTask = s.recvTask ∨ RecvTask.Next s.recvTask t.recvTask := by
  cases a with
  | enqueue i cmd =>
    obtain ⟨-,rfl⟩ := enqueue_iff.mp h
    cases s.eventTx <;> exact Or.inl rfl
  | recv item =>
    cases item with
    | ok data =>
      obtain ⟨-,rfl⟩ := recv_ok_iff.mp h
      exact Or.inl (dispatch_recvTask s data)
    | error e =>
      obtain ⟨hl,rfl | rfl⟩ := recv_error h
      · exact Or.inl rfl
      · exact Or.inr (hl ▸ .left)
  | streamEnd =>
    obtain ⟨hl,rfl⟩ := streamEnd_iff.mp h
    exact Or.inr (hl ▸ .left)
  | takeTx =>
    obtain ⟨hl,rfl⟩ := takeTx_iff.mp h
    exact Or.inr (hl ▸ .closed)
  | drain =>
    obtain ⟨hl,⟨-,rfl⟩ | ⟨_,_,-,rfl⟩⟩ := drain_iff.mp h
    · exact Or.inr (hl ▸ .drained)
    · exact Or.inl rfl
  | _ => exact Or.inl (atSink_frame rfl h).2.2.1

end Multiplexer
end Minidsp
