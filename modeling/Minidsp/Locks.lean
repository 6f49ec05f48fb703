import Minidsp.Delivery
import Minidsp.LockOrder

/-! The multiplexer with the locks of `event_tx` and `pending_command` made explicit: between
any two instructions of one task every other task may run. -/
namespace Minidsp
namespace Multiplexer

inductive LockName
  | eventTx
  | pendingCommand
  deriving DecidableEq

instance : Finite LockName :=
  Finite.of_surjective (fun b : Bool => if b then .eventTx else .pendingCommand) fun l => by
    cases l with
    | eventTx => exact ⟨true,rfl⟩
    | pendingCommand => exact ⟨false,rfl⟩

theorem LockName.forall {P : LockName → Prop} : (∀ l, P l) ↔ P .eventTx ∧ P .pendingCommand :=
  ⟨fun h => ⟨h _,h _⟩,fun h l => by cases l with | eventTx => exact h.1 | pendingCommand => exact h.2⟩

/-- Nested locks are taken in this order. -/
def LockName.rank : LockName → ℕ
  | .eventTx => 0
  | .pendingCommand => 1

inductive Task
  | call (i : ℕ)
  | subscriber (j : ℕ)
  | recv
  deriving DecidableEq

inductive Action
  | look (cmd : Commands)
  | push (cmd : Commands)
  | subscribe
  | dispatch (data : Responses)
  | takeTx
  | drain

abbrev Program := List (LockOrder.Instr LockName Action)

/-- The first block of `roundtrip`; the guards are dropped in reverse order. -/
def roundtripBlock (cmd : Commands) : Program :=
  [.lock .eventTx,.act (.look cmd),.lock .pendingCommand,.act (.push cmd),
    .unlock .pendingCommand,.unlock .eventTx]

def subscribeBlock : Program := [.lock .eventTx,.act .subscribe,.unlock .eventTx]

def dispatchBlock (data : Responses) : Program :=
  [.lock .pendingCommand,.act (.dispatch data),.unlock .pendingCommand]

/-- The end of the receive task. -/
def cleanupBlock : Program :=
  [.lock .eventTx,.act .takeTx,.unlock .eventTx,
    .lock .pendingCommand,.act .drain,.unlock .pendingCommand]

structure Locked where
  mplex : State
  locks : LockOrder.System Task LockName Action
  /-- Whether a subscriber got a receiver. -/
  subscribed : ℕ → Option Bool

def initLocked : Locked where
  mplex := init
  locks := { holder := fun _ => none, program := fun _ => [] }
  subscribed _ := none

def Locked.setProgram (s : Locked) (τ : Task) (p : Program) : Locked :=
  { s with locks := s.locks.setProgram τ p }

def perform (s : Locked) (p : Program) : Task → Action → Option Locked
  | .call i, .look _ =>
    if s.mplex.eventTx then some (s.setProgram (.call i) p)
    else some { s.setProgram (.call i) [.unlock .eventTx] with mplex := refuse s.mplex i }
  | .call i, .push cmd => some { s.setProgram (.call i) p with mplex := push s.mplex i cmd }
  | .subscriber j, .subscribe => some { s.setProgram (.subscriber j) p with
      subscribed := Function.update s.subscribed j (some s.mplex.eventTx) }
  | .recv, .dispatch data =>
    (recv s.mplex (.ok data)).map fun m => { s.setProgram .recv p with mplex := m }
  | .recv, .takeTx => (takeTx s.mplex).map fun m => { s.setProgram .recv p with mplex := m }
  | .recv, .drain => (drain s.mplex).map fun m =>
      -- `while let`: the instruction is left when there was nothing to pop
      { s.setProgram .recv (if m.recvTask = .drained then p else .act .drain :: p) with mplex := m }
  | _, _ => none

def exec (s : Locked) (τ : Task) : Option Locked :=
  match s.locks.program τ with
  | [] => none
  | .lock l :: p =>
    if s.locks.holder l = none then some { s with locks := s.locks.acquire τ l p } else none
  | .unlock l :: p => some { s with locks := s.locks.release τ l p }
  | .act a :: p => perform s p τ a

inductive LockLabel
  | roundtrip (i : ℕ) (cmd : Commands)
  | subscribe (j : ℕ)
  | receive (data : Responses)
  | cleanup
  | exec (τ : Task)
  /-- A step that takes neither lock. -/
  | other (a : Label)

def stepLocked (s : Locked) : LockLabel → Option Locked
  | .roundtrip i cmd =>
    match s.mplex.calls i with
    | .idle =>
      if s.locks.program (.call i) = [] then some (s.setProgram (.call i) (roundtripBlock cmd))
      else none
    | _ => none
  | .subscribe j =>
    if s.locks.program (.subscriber j) = [] ∧ s.subscribed j = none then
      some (s.setProgram (.subscriber j) subscribeBlock)
    else none
  | .receive data =>
    if s.locks.program .recv = [] ∧ s.mplex.recvTask = .looping then
      some (s.setProgram .recv (dispatchBlock data))
    else none
  | .cleanup =>
    if s.locks.program .recv = [] ∧ s.mplex.recvTask = .left then
      some (s.setProgram .recv cleanupBlock)
    else none
  | .exec τ => exec s τ
  | .other a =>
    match a with
    | .recv (.error e) =>
      if s.locks.program .recv = [] then
        (recv s.mplex (.error e)).map fun m => { s with mplex := m }
      else none
    | .streamEnd =>
      if s.locks.program .recv = [] then (streamEnd s.mplex).map fun m => { s with mplex := m }
      else none
    | a => if a.atSink then (step s.mplex a).map fun m => { s with mplex := m } else none

/-! Where each task can be, and what holds there. -/

/-- A call is outside its block, or has looked while the transport was open and keeps it open. -/
inductive CallAt (m : State) (i : ℕ) : Program → Prop
  | outside : CallAt m i []
  | entering (cmd : Commands) : m.calls i = .idle → CallAt m i (roundtripBlock cmd)
  | looking (cmd : Commands) : m.calls i = .idle → CallAt m i ((roundtripBlock cmd).drop 1)
  | looked (cmd : Commands) : m.calls i = .idle → m.eventTx = true →
      CallAt m i ((roundtripBlock cmd).drop 2)
  | pushing (cmd : Commands) : m.calls i = .idle → m.eventTx = true →
      CallAt m i ((roundtripBlock cmd).drop 3)
  | pushed : CallAt m i [.unlock .pendingCommand,.unlock .eventTx]
  | leaving : CallAt m i [.unlock .eventTx]

inductive SubscriberAt : Program → Prop
  | outside : SubscriberAt []
  | entering : SubscriberAt subscribeBlock
  | looking : SubscriberAt (subscribeBlock.drop 1)
  | leaving : SubscriberAt (subscribeBlock.drop 2)

inductive RecvAt (m : State) : Program → Prop
  | outside : m.recvTask ≠ .closed → RecvAt m []
  | entering (data : Responses) : m.recvTask = .looping → RecvAt m (dispatchBlock data)
  | dispatching (data : Responses) : m.recvTask = .looping → RecvAt m ((dispatchBlock data).drop 1)
  | dispatched : m.recvTask ≠ .closed → RecvAt m [.unlock .pendingCommand]
  | closing : m.recvTask = .left → RecvAt m cleanupBlock
  | taking : m.recvTask = .left → RecvAt m (cleanupBlock.drop 1)
  | taken : m.recvTask = .closed → RecvAt m (cleanupBlock.drop 2)
  | between : m.recvTask = .closed → RecvAt m (cleanupBlock.drop 3)
  | draining : m.recvTask = .closed → RecvAt m (cleanupBlock.drop 4)

def TaskAt (m : State) : Task → Program → Prop
  | .call i => CallAt m i
  | .subscriber _ => SubscriberAt
  | .recv => RecvAt m

theorem TaskAt.ascending {m : State} {τ : Task} {p : Program} (h : TaskAt m τ p) :
    LockOrder.Ascending LockName.rank p := by
  cases τ with
  | call i =>
    cases h <;>
      simp [roundtripBlock,LockOrder.Ascending,LockOrder.holds,LockName.forall,LockName.rank]
  | subscriber j =>
    cases h <;> simp [subscribeBlock,LockOrder.Ascending,LockOrder.holds]
  | recv => cases h <;> simp [dispatchBlock,cleanupBlock,LockOrder.Ascending,LockOrder.holds]

/-- What the tasks other than the one that moves rely on. -/
theorem TaskAt.mono {m m' : State} {τ : Task} {p : Program} (h : TaskAt m τ p)
    (hidle : ∀ i, τ = .call i → m.calls i = .idle → m'.calls i = .idle)
    (htx : LockOrder.holds p .eventTx = true → m.eventTx = true → m'.eventTx = true)
    (hrecv : τ = .recv → m'.recvTask = m.recvTask) : TaskAt m' τ p := by
  cases τ with
  | call i =>
    cases h with
    | outside => exact .outside
    | entering cmd hi => exact .entering cmd (hidle i rfl hi)
    | looking cmd hi => exact .looking cmd (hidle i rfl hi)
    | looked cmd hi ho => exact .looked cmd (hidle i rfl hi) (htx rfl ho)
    | pushing cmd hi ho => exact .pushing cmd (hidle i rfl hi) (htx rfl ho)
    | pushed => exact .pushed
    | leaving => exact .leaving
  | subscriber j => exact h
  | recv =>
    have hr := hrecv rfl
    cases h with
    | outside h => exact .outside (hr ▸ h)
    | entering data h => exact .entering data (hr.trans h)
    | dispatching data h => exact .dispatching data (hr.trans h)
    | dispatched h => exact .dispatched (hr ▸ h)
    | closing h => exact .closing (hr.trans h)
    | taking h => exact .taking (hr.trans h)
    | taken h => exact .taken (hr.trans h)
    | between h => exact .between (hr.trans h)
    | draining h => exact .draining (hr.trans h)

/-- The multiplexer behind the locks is a reachable one, the locks belong to the programs that
hold them, and every task is at a point of its block. -/
structure Inside (s : Locked) : Prop where
  reach : Transition.Reachable step init s.mplex
  consistent : LockOrder.Consistent s.locks
  tasks : ∀ τ, TaskAt s.mplex τ (s.locks.program τ)

theorem init_inside : Inside initLocked where
  reach := ⟨[],rfl⟩
  consistent := by simp [initLocked,LockOrder.Consistent,LockOrder.holds]
  tasks τ := by
    cases τ with
    | call i => exact .outside
    | subscriber j => exact .outside
    | recv => exact .outside (by simp [initLocked,init])

variable {u v : Locked} {τ : Task} {p : Program}

structure Follows (u v : Locked) : Prop where
  inside : Inside v
  mplex : v.mplex = u.mplex ∨ ∃ b, step u.mplex b = some v.mplex

theorem Inside.move (hu : Inside u) (hprog : v.locks.program = Function.update u.locks.program τ p)
    (hcons : LockOrder.Consistent v.locks)
    (hstep : v.mplex = u.mplex ∨ ∃ b, step u.mplex b = some v.mplex)
    (hτ : TaskAt v.mplex τ p)
    (hothers : ∀ σ, σ ≠ τ → TaskAt v.mplex σ (u.locks.program σ)) : Follows u v := by
  refine ⟨⟨?_,hcons,fun σ => ?_⟩,hstep⟩
  · rcases hstep with h | ⟨b,h⟩
    · exact h ▸ hu.reach
    · exact hu.reach.tail h
  · rw [hprog,Function.update_apply]
    split_ifs with h
    · exact h ▸ hτ
    · exact hothers σ h

theorem Inside.acquire {l : LockName} (hu : Inside u)
    (hprog : u.locks.program τ = .lock l :: p)
    (h : exec u τ = some v) (hτ : TaskAt u.mplex τ p) : Follows u v := by
  unfold exec at h
  rw [hprog] at h
  simp only at h
  split_ifs at h with hfree
  obtain rfl := Option.some.inj h
  have hasc := (hu.tasks τ).ascending
  rw [hprog] at hasc
  exact hu.move rfl (hu.consistent.acquire hprog hasc hfree) (Or.inl rfl) hτ fun σ _ => hu.tasks σ

theorem Inside.release {l : LockName} (hu : Inside u)
    (hprog : u.locks.program τ = .unlock l :: p)
    (h : exec u τ = some v) (hτ : TaskAt u.mplex τ p) : Follows u v := by
  unfold exec at h
  rw [hprog] at h
  obtain rfl := Option.some.inj h
  have hasc := (hu.tasks τ).ascending
  rw [hprog] at hasc
  exact hu.move rfl (hu.consistent.release hprog hasc) (Or.inl rfl) hτ fun σ _ => hu.tasks σ

theorem Inside.act {m : State} (hu : Inside u)
    (hp : ∀ l, LockOrder.holds p l = LockOrder.holds (u.locks.program τ) l)
    (hv : v.locks = u.locks.setProgram τ p ∧ v.mplex = m)
    (hstep : m = u.mplex ∨ ∃ b, step u.mplex b = some m) (hτ : TaskAt m τ p)
    (hidle : ∀ i, τ ≠ .call i → u.mplex.calls i = .idle → m.calls i = .idle)
    (htx : ∀ σ, σ ≠ τ → LockOrder.holds (u.locks.program σ) .eventTx = true →
      u.mplex.eventTx = true → m.eventTx = true)
    (hrecv : τ ≠ .recv → m.recvTask = u.mplex.recvTask) : Follows u v := by
  obtain ⟨hl,rfl⟩ := hv
  refine hu.move (by rw [hl]; rfl) (by rw [hl]; exact hu.consistent.setProgram hp) hstep hτ ?_
  intro σ hσ
  refine (hu.tasks σ).mono ?_ (htx σ hσ) ?_
  · rintro i rfl
    exact hidle i hσ.symm
  · rintro rfl
    exact hrecv hσ.symm

theorem idle_update {s : State} {i : ℕ} {c : Call} (j : ℕ) (hj : Task.call i ≠ .call j)
    (hidle : s.calls j = .idle) : Function.update s.calls i c j = .idle := by
  have hne : j ≠ i := fun h => hj (by rw [h])
  rw [Function.update_of_ne hne,hidle]

theorem exec_call_follows {i : ℕ} (hu : Inside u) (h : exec u (.call i) = some v) : Follows u v := by
  have hat : CallAt u.mplex i (u.locks.program (.call i)) := hu.tasks (.call i)
  generalize hp : u.locks.program (.call i) = p at hat
  cases hat with
  | outside => simp [exec,hp] at h
  | entering cmd hidle => exact hu.acquire hp h (.looking cmd hidle)
  | looking cmd hidle =>
    simp only [exec,hp,roundtripBlock,List.drop_succ_cons,List.drop_zero,perform] at h
    cases htx : u.mplex.eventTx with
    | true =>
      simp only [htx,if_true] at h
      obtain rfl := Option.some.inj h
      exact hu.act (m := u.mplex) (by rw [hp]; exact fun l => rfl) ⟨rfl,rfl⟩ (Or.inl rfl)
        (.looked cmd hidle htx) (fun _ _ h => h) (fun _ _ _ h => h) fun _ => rfl
    | false =>
      simp only [htx,Bool.false_eq_true,if_false] at h
      obtain rfl := Option.some.inj h
      refine hu.act (m := refuse u.mplex i) ?_ ⟨rfl,rfl⟩ (Or.inr ⟨.enqueue i cmd,?_⟩) .leaving
        idle_update (fun _ _ _ h => h) fun _ => rfl
      · rw [hp]
        exact LockName.forall.mpr ⟨rfl,rfl⟩
      · exact enqueue_iff.mpr ⟨hidle,by simp [htx]⟩
  | looked cmd hidle htx => exact hu.acquire hp h (.pushing cmd hidle htx)
  | pushing cmd hidle htx =>
    simp only [exec,hp,roundtripBlock,List.drop_succ_cons,List.drop_zero,perform] at h
    obtain rfl := Option.some.inj h
    refine hu.act (m := push u.mplex i cmd) (by rw [hp]; exact fun l => rfl) ⟨rfl,rfl⟩
      (Or.inr ⟨.enqueue i cmd,?_⟩) .pushed idle_update (fun _ _ _ h => h) fun _ => rfl
    exact enqueue_iff.mpr ⟨hidle,by simp [htx]⟩
  | pushed => exact hu.release hp h .leaving
  | leaving => exact hu.release hp h .outside

theorem exec_subscriber_follows {j : ℕ} (hu : Inside u) (h : exec u (.subscriber j) = some v) :
    Follows u v := by
  have hat : SubscriberAt (u.locks.program (.subscriber j)) := hu.tasks (.subscriber j)
  generalize hp : u.locks.program (.subscriber j) = p at hat
  cases hat with
  | outside => simp [exec,hp] at h
  | entering => exact hu.acquire hp h .looking
  | looking =>
    simp only [exec,hp,subscribeBlock,List.drop_succ_cons,List.drop_zero,perform] at h
    obtain rfl := Option.some.inj h
    exact hu.act (m := u.mplex) (by rw [hp]; exact fun l => rfl) ⟨rfl,rfl⟩ (Or.inl rfl)
      .leaving (fun _ _ h => h) (fun _ _ _ h => h) fun _ => rfl
  | leaving => exact hu.release hp h .outside

/-- While the receive task has the lock of `event_tx`, no other task does. -/
theorem Inside.alone (hu : Inside u) (hτ : LockOrder.holds (u.locks.program τ) .eventTx = true) :
    ∀ σ, σ ≠ τ → LockOrder.holds (u.locks.program σ) .eventTx ≠ true := by
  intro σ hσ hheld
  have h1 := (hu.consistent .eventTx τ).mpr hτ
  have h2 := (hu.consistent .eventTx σ).mpr hheld
  exact hσ (Option.some.inj (h2.symm.trans h1))

theorem exec_recv_follows (hu : Inside u) (h : exec u .recv = some v) : Follows u v := by
  have hat : RecvAt u.mplex (u.locks.program .recv) := hu.tasks .recv
  generalize hp : u.locks.program .recv = p at hat
  cases hat with
  | outside => simp [exec,hp] at h
  | entering data hl => exact hu.acquire hp h (.dispatching data hl)
  | dispatching data hl =>
    simp only [exec,hp,dispatchBlock,List.drop_succ_cons,List.drop_zero,perform] at h
    obtain ⟨m,hm,rfl⟩ := Option.map_eq_some_iff.mp h
    obtain ⟨-,rfl⟩ := recv_ok_iff.mp hm
    refine hu.act (by rw [hp]; exact fun l => rfl) ⟨rfl,rfl⟩ (Or.inr ⟨.recv (.ok data),hm⟩)
      (.dispatched (by rw [dispatch_recvTask,hl]; exact nofun)) ?_ ?_ fun h => absurd rfl h
    · intro i _ hi
      rw [dispatch_calls]
      exact hi
    · intro σ _ _ ho
      rw [dispatch_eventTx]
      exact ho
  | dispatched hl => exact hu.release hp h (.outside hl)
  | closing hl => exact hu.acquire hp h (.taking hl)
  | taking hl =>
    simp only [exec,hp,cleanupBlock,List.drop_succ_cons,List.drop_zero,perform] at h
    obtain ⟨m,hm,rfl⟩ := Option.map_eq_some_iff.mp h
    obtain ⟨-,rfl⟩ := takeTx_iff.mp hm
    refine hu.act (by rw [hp]; exact fun l => rfl) ⟨rfl,rfl⟩ (Or.inr ⟨.takeTx,hm⟩) (.taken rfl)
      (fun _ _ h => h) ?_ fun h => absurd rfl h
    intro σ hσ hheld
    exact absurd hheld (hu.alone (by rw [hp]; rfl) σ hσ)
  | taken hl => exact hu.release hp h (.between hl)
  | between hl => exact hu.acquire hp h (.draining hl)
  | draining hl =>
    simp only [exec,hp,cleanupBlock,List.drop_succ_cons,List.drop_zero,perform] at h
    obtain ⟨m,hm,rfl⟩ := Option.map_eq_some_iff.mp h
    have hm' := hm
    obtain ⟨-,⟨hnil,rfl⟩ | ⟨e,rest,hcons,rfl⟩⟩ := drain_iff.mp hm
    · exact hu.act (by rw [hp]; exact fun l => rfl) ⟨rfl,rfl⟩ (Or.inr ⟨.drain,hm'⟩)
        (.dispatched nofun) (fun _ _ h => h) (fun _ _ _ h => h) fun h => absurd rfl h
    · have hnext : TaskAt { u.mplex with
            pendingCommand := rest
            oneshots := u.mplex.oneshots ++ [(e,.error .transportClosed)] } .recv
          (cleanupBlock.drop 4) := RecvAt.draining hl
      refine hu.act (by rw [hp]; exact fun l => rfl) ⟨?_,rfl⟩ (Or.inr ⟨.drain,hm'⟩) hnext
        (fun _ _ h => h) (fun _ _ _ h => h) fun h => absurd rfl h
      simp [Locked.setProgram,hl,cleanupBlock]

theorem Inside.begin (hu : Inside u) (hnil : u.locks.program τ = [])
    (hp : ∀ l, LockOrder.holds p l = false) (hτ : TaskAt u.mplex τ p) :
    Follows u (u.setProgram τ p) :=
  hu.act (fun l => by rw [hp,hnil]; rfl) ⟨rfl,rfl⟩ (Or.inl rfl) hτ (fun _ _ h => h)
    (fun _ _ _ h => h) fun _ => rfl

theorem Inside.other {m : State} {a : Label} (hu : Inside u) (h : step u.mplex a = some m)
    (hidle : ∀ i, u.mplex.calls i = .idle → m.calls i = .idle)
    (htx : m.eventTx = u.mplex.eventTx)
    (hrecv : TaskAt m .recv (u.locks.program .recv)) : Follows u { u with mplex := m } := by
  refine ⟨⟨hu.reach.tail h,hu.consistent,fun σ => ?_⟩,Or.inr ⟨a,h⟩⟩
  by_cases hσ : σ = .recv
  · exact hσ ▸ hrecv
  · exact (hu.tasks σ).mono (fun i _ => hidle i) (fun _ ho => htx.trans ho) fun h => absurd h hσ

theorem atSink_follows {m : State} {a : Label} (hu : Inside u) (ha : a.atSink = true)
    (h : step u.mplex a = some m) : Follows u { u with mplex := m } := by
  obtain ⟨-,htx,hr,-⟩ := atSink_frame ha h
  refine hu.other h ?_ htx ((hu.tasks .recv).mono nofun (fun _ ho => htx.trans ho) fun _ => hr)
  intro i hi
  rcases atSink_calls ha h with hc | ⟨j,c,hc,hj,-⟩
  · rw [hc]
    exact hi
  · have hne : i ≠ j := fun h => hj (h ▸ hi)
    rw [hc,Function.update_of_ne hne]
    exact hi

theorem other_follows {a : Label} (hu : Inside u) (h : stepLocked u (.other a) = some v) :
    Follows u v := by
  have hleft : u.locks.program .recv = [] → ∀ m : State, m.recvTask = .left →
      TaskAt m .recv (u.locks.program .recv) := by
    intro hnil m hm
    rw [hnil]
    exact RecvAt.outside (by rw [hm]; exact nofun)
  cases a with
  | recv item =>
    cases item with
    | ok data => simp [stepLocked,Label.atSink] at h
    | error e =>
      simp only [stepLocked] at h
      split_ifs at h with hnil
      obtain ⟨m,hm,rfl⟩ := Option.map_eq_some_iff.mp h
      obtain ⟨-,rfl | rfl⟩ := recv_error hm
      · exact ⟨hu,Or.inl rfl⟩
      · exact hu.other (a := .recv (.error e)) hm (fun _ h => h) rfl (hleft hnil _ rfl)
  | streamEnd =>
    simp only [stepLocked] at h
    split_ifs at h with hnil
    obtain ⟨m,hm,rfl⟩ := Option.map_eq_some_iff.mp h
    obtain ⟨-,rfl⟩ := streamEnd_iff.mp hm
    exact hu.other (a := .streamEnd) hm (fun _ h => h) rfl (hleft hnil _ rfl)
  | enqueue i cmd => simp [stepLocked,Label.atSink] at h
  | takeTx => simp [stepLocked,Label.atSink] at h
  | drain => simp [stepLocked,Label.atSink] at h
  | _ =>
    simp only [stepLocked,Label.atSink,if_true] at h
    obtain ⟨m,hm,rfl⟩ := Option.map_eq_some_iff.mp h
    exact atSink_follows hu rfl hm

theorem stepLocked_follows {a : LockLabel} (hu : Inside u) (h : stepLocked u a = some v) :
    Follows u v := by
  cases a with
  | roundtrip i cmd =>
    simp only [stepLocked] at h
    split at h
    · rename_i hidle
      split_ifs at h with hnil
      obtain rfl := Option.some.inj h
      exact hu.begin hnil (LockName.forall.mpr ⟨rfl,rfl⟩) (CallAt.entering cmd hidle)
    · cases h
  | subscribe j =>
    simp only [stepLocked] at h
    split_ifs at h with hnil
    obtain rfl := Option.some.inj h
    exact hu.begin hnil.1 (LockName.forall.mpr ⟨rfl,rfl⟩) SubscriberAt.entering
  | receive data =>
    simp only [stepLocked] at h
    split_ifs at h with hnil
    obtain rfl := Option.some.inj h
    exact hu.begin hnil.1 (LockName.forall.mpr ⟨rfl,rfl⟩) (RecvAt.entering data hnil.2)
  | cleanup =>
    simp only [stepLocked] at h
    split_ifs at h with hnil
    obtain rfl := Option.some.inj h
    exact hu.begin hnil.1 (LockName.forall.mpr ⟨rfl,rfl⟩) (RecvAt.closing hnil.2)
  | exec τ =>
    cases τ with
    | call i => exact exec_call_follows hu h
    | subscriber j => exact exec_subscriber_follows hu h
    | recv => exact exec_recv_follows hu h
  | other a => exact other_follows hu h

theorem reachable_inside (hu : Transition.Reachable stepLocked initLocked u) : Inside u :=
  hu.invariant init_inside fun _ _ _ hu h => (stepLocked_follows hu h).inside

/-- The steps that a task owes once it is inside a block, or once the loop has ended. -/
def LockLabel.owed : LockLabel → Bool
  | .exec _ | .cleanup => true
  | _ => false

theorem Inside.exec_ready (hu : Inside u) (hbusy : u.locks.program τ ≠ [])
    (hfree : ∀ l p, u.locks.program τ = .lock l :: p → u.locks.holder l = none) :
    ∃ v, exec u τ = some v := by
  have hat := hu.tasks τ
  unfold exec
  generalize hp : u.locks.program τ = p at *
  cases τ with
  | call i =>
    cases hat with
    | outside => exact absurd rfl hbusy
    | entering cmd => simp [roundtripBlock,hfree .eventTx _ rfl]
    | looking cmd => cases htx : u.mplex.eventTx <;> simp [roundtripBlock,perform,htx]
    | looked cmd => simp [roundtripBlock,hfree .pendingCommand _ rfl]
    | pushing cmd => simp [roundtripBlock,perform]
    | pushed => simp
    | leaving => simp
  | subscriber j =>
    cases hat with
    | outside => exact absurd rfl hbusy
    | entering => simp [subscribeBlock,hfree .eventTx _ rfl]
    | looking => simp [subscribeBlock,perform]
    | leaving => simp [subscribeBlock]
  | recv =>
    cases hat with
    | outside => exact absurd rfl hbusy
    | entering data => simp [dispatchBlock,hfree .pendingCommand _ rfl]
    | dispatching data hl => simp [dispatchBlock,perform,recv,hl]
    | dispatched => simp
    | closing => simp [cleanupBlock,hfree .eventTx _ rfl]
    | taking hl => simp [cleanupBlock,perform,takeTx,hl]
    | taken => simp [cleanupBlock]
    | between => simp [cleanupBlock,hfree .pendingCommand _ rfl]
    | draining hl => cases hq : u.mplex.pendingCommand <;> simp [cleanupBlock,perform,drain,hl,hq]

theorem Inside.exists_exec (hu : Inside u) (hbusy : ∃ τ, u.locks.program τ ≠ []) :
    ∃ τ v, exec u τ = some v := by
  obtain ⟨τ,hτ,hfree⟩ := LockOrder.exists_ready hu.consistent (fun τ => (hu.tasks τ).ascending) hbusy
  obtain ⟨v,hv⟩ := hu.exec_ready hτ hfree
  exact ⟨τ,v,hv⟩

/-- Once the loop has ended, some owed step is enabled until the queue is drained. -/
theorem Inside.exists_owed (hu : Inside u) (hl : u.mplex.recvTask ≠ .looping)
    (hd : u.mplex.recvTask ≠ .drained) : ∃ a v, a.owed = true ∧ stepLocked u a = some v := by
  by_cases hnil : u.locks.program .recv = []
  · have hat : RecvAt u.mplex (u.locks.program .recv) := hu.tasks .recv
    rw [hnil] at hat
    cases hat with
    | outside hc =>
      have hleft : u.mplex.recvTask = .left := by
        cases hr : u.mplex.recvTask <;> simp_all
      exact ⟨.cleanup,_,rfl,by simp only [stepLocked]; rw [if_pos ⟨hnil,hleft⟩]⟩
  · obtain ⟨τ,v,hv⟩ := hu.exists_exec ⟨.recv,hnil⟩
    exact ⟨.exec τ,v,rfl,hv⟩

theorem step_drained {s t : State} {a : Label} (h : step s a = some t)
    (hd : s.recvTask = .drained) : t.recvTask = .drained := by
  rcases step_recvTask h with he | hnext
  · exact he.trans hd
  · rw [hd] at hnext
    cases hnext

theorem step_closed {s t : State} {a : Label} (h : step s a = some t)
    (hc : s.eventTx = false) : t.eventTx = false := by
  cases a with
  | enqueue i cmd =>
    obtain ⟨-,rfl⟩ := enqueue_iff.mp h
    simp [hc,refuse]
  | recv item =>
    cases item with
    | ok data =>
      obtain ⟨-,rfl⟩ := recv_ok_iff.mp h
      exact (dispatch_eventTx s data).trans hc
    | error e => obtain ⟨-,rfl | rfl⟩ := recv_error h <;> exact hc
  | streamEnd =>
    obtain ⟨-,rfl⟩ := streamEnd_iff.mp h
    exact hc
  | takeTx =>
    obtain ⟨-,rfl⟩ := takeTx_iff.mp h
    rfl
  | drain => obtain ⟨-,⟨-,rfl⟩ | ⟨_,_,-,rfl⟩⟩ := drain_iff.mp h <;> exact hc
  | _ => exact (atSink_frame rfl h).2.1.trans hc

theorem Inside.stays {P : State → Prop} (hP : ∀ s t a, step s a = some t → P s → P t)
    (hu : Inside u) (h : P u.mplex) {as : List LockLabel}
    (hrun : Transition.run stepLocked u as = some v) : Inside v ∧ P v.mplex := by
  refine Transition.run_invariant (I := fun w => Inside w ∧ P w.mplex) ?_ ⟨hu,h⟩ hrun
  rintro w a w' ⟨hw,hPw⟩ hstep
  have hf := stepLocked_follows hw hstep
  refine ⟨hf.inside,?_⟩
  rcases hf.mplex with he | ⟨b,hb⟩
  · exact he ▸ hPw
  · exact hP _ _ b hb hPw

structure ClosesCleanly (u : Locked) : Prop where
  empty : u.mplex.recvTask = .drained → ∀ as v, Transition.run stepLocked u as = some v →
    v.mplex.recvTask = .drained ∧ v.mplex.pendingCommand = []
  resolved : u.mplex.recvTask = .drained → ∀ p ∈ u.mplex.enqueued,
    (∃ data, u.mplex.reply p.2 = some (.ok data)) ∨
      u.mplex.reply p.2 = some (.error .transportClosed)
  resumes : u.mplex.recvTask = .drained → ∀ i cmd, u.mplex.calls i = .awaiting cmd →
    ∃ m, resume u.mplex i = some m
  stays_closed : u.mplex.eventTx = false → ∀ as v, Transition.run stepLocked u as = some v →
    v.mplex.eventTx = false
  refused : u.mplex.eventTx = false → ∀ i cmd p,
    u.locks.program (.call i) = .act (.look cmd) :: p →
    ∃ v, exec u (.call i) = some v ∧
      v.mplex.calls i = .returned (.error .transportClosed) ∧
      v.mplex.enqueued = u.mplex.enqueued ∧ v.mplex.pendingCommand = u.mplex.pendingCommand ∧
      v.locks.program (.call i) = [.unlock .eventTx]
  no_receiver : u.mplex.eventTx = false → ∀ j p,
    u.locks.program (.subscriber j) = .act .subscribe :: p →
    ∃ v, exec u (.subscriber j) = some v ∧ v.subscribed j = some false ∧ v.mplex = u.mplex
  no_deadlock : (∃ τ, u.locks.program τ ≠ []) → ∃ τ v, exec u τ = some v
  cleanup : u.mplex.recvTask ≠ .looping → u.mplex.recvTask ≠ .drained →
    ∃ a v, a.owed = true ∧ stepLocked u a = some v

theorem Valid.resolved {s : State} (hs : Valid s) (hd : s.recvTask = .drained)
    {p : PendingCommandTuple} (hp : p ∈ s.enqueued) :
    (∃ data, s.reply p.2 = some (.ok data)) ∨ s.reply p.2 = some (.error .transportClosed) := by
  have hgone : p ∈ s.oneshots.map Prod.fst := by
    have hfifo := hs.fifo
    rw [hs.drained hd,List.append_nil] at hfifo
    exact hfifo ▸ hp
  obtain ⟨⟨q,x⟩,hmem,rfl⟩ := List.mem_map.mp hgone
  have hreply := hs.reply_of_mem hmem
  cases x with
  | ok data => exact Or.inl ⟨data,hreply⟩
  | error e =>
    obtain rfl := hs.failed q e hmem
    exact Or.inr hreply

/-- In every interleaving the multiplexer closes without losing a caller. -/
theorem closes_cleanly (u : Locked) (hu : Transition.Reachable stepLocked initLocked u) :
    ClosesCleanly u := by
  have hin := reachable_inside hu
  have hvalid := reachable_valid hin.reach
  refine ⟨?_,fun hd p hp => hvalid.resolved hd hp,?_,?_,?_,?_,hin.exists_exec,hin.exists_owed⟩
  · intro hd as v hrun
    obtain ⟨hv,hdv⟩ := hin.stays (P := fun s => s.recvTask = .drained)
      (fun _ _ _ h hd => step_drained h hd) hd hrun
    exact ⟨hdv,(reachable_valid hv.reach).drained hdv⟩
  · intro hd i cmd hc
    have hh : u.mplex.holds i := (reachable_seated hin.reach).holder i (by rw [hc]; rfl)
    have hmem : (cmd,i) ∈ u.mplex.enqueued := hvalid.entered.command i cmd (by rw [hc]; rfl)
    rcases hvalid.resolved hd hmem with ⟨data,hr⟩ | hr
    · exact ⟨_,resume_iff.mpr ⟨cmd,_,hc,hh,hr,rfl⟩⟩
    · exact ⟨_,resume_iff.mpr ⟨cmd,_,hc,hh,hr,rfl⟩⟩
  · intro hc as v hrun
    exact (hin.stays (P := fun s => s.eventTx = false) (fun _ _ _ h hc => step_closed h hc) hc hrun).2
  · intro hc i cmd p hp
    have hexec : exec u (.call i) = some { u.setProgram (.call i) [.unlock .eventTx] with
        mplex := refuse u.mplex i } := by
      simp [exec,hp,perform,hc]
    refine ⟨_,hexec,by simp,rfl,rfl,?_⟩
    simp [Locked.setProgram,LockOrder.System.setProgram]
  · intro hc j p hp
    have hexec : exec u (.subscriber j) = some { u.setProgram (.subscriber j) p with
        subscribed := Function.update u.subscribed j (some u.mplex.eventTx) } := by
      simp [exec,hp,perform]
    exact ⟨_,hexec,by simp [hc],rfl⟩

/-- A call that has looked before the cleanup takes `event_tx` is drained with the others; a
later call and a subscriber are refused. -/
theorem closes_cleanly_late_call :
    ∃ u, Transition.run stepLocked initLocked
        [.roundtrip 0 (.setMute true),.exec (.call 0),.exec (.call 0),.other .streamEnd,.cleanup,
          .exec (.call 0),.exec (.call 0),.exec (.call 0),.exec (.call 0),.roundtrip 1 .firLoadEnd,
          .exec .recv,.exec .recv,.exec .recv,.exec (.call 1),.exec (.call 1),.exec .recv,
          .exec .recv,.exec .recv] = some u ∧
      u.mplex.reply 0 = some (.error .transportClosed) ∧ ClosesCleanly u := by
  let as : List LockLabel :=
    [.roundtrip 0 (.setMute true),.exec (.call 0),.exec (.call 0),.other .streamEnd,.cleanup,
      .exec (.call 0),.exec (.call 0),.exec (.call 0),.exec (.call 0),.roundtrip 1 .firLoadEnd,
      .exec .recv,.exec .recv,.exec .recv,.exec (.call 1),.exec (.call 1),.exec .recv,
      .exec .recv,.exec .recv]
  have hrun : (Transition.run stepLocked initLocked as).map (fun u => u.mplex.reply 0) =
      some (some (.error .transportClosed)) := rfl
  obtain ⟨u,hu,hreply⟩ := Option.map_eq_some_iff.mp hrun
  exact ⟨u,hu,hreply,closes_cleanly u ⟨as,hu⟩⟩

end Multiplexer
end Minidsp
