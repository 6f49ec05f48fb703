import Minidsp.Decoder
import Minidsp.Transition
import Minidsp.Transport

/-! The logging wrapper around a transport, and the task at the other end of its channel, which
may end at any moment. -/
namespace Minidsp

open Buffer

inductive Poll (α : Type)
  | ready (a : α)
  | pending
  deriving DecidableEq, Repr

namespace Logger

structure Inner (σ Sent Received Err : Type) where
  pollNext : σ → Poll (Option (Except Err Received)) × σ
  pollReady : σ → Poll (Except Err Unit) × σ
  startSend : σ → Sent → Except Err Unit × σ
  pollFlush : σ → Poll (Except Err Unit) × σ
  pollClose : σ → Poll (Except Err Unit) × σ

inductive Call (Sent : Type)
  | pollNext
  | pollReady
  | startSend (item : Sent)
  | pollFlush
  | pollClose
  deriving DecidableEq, Repr

inductive Answer (Received Err : Type)
  | item (x : Poll (Option (Except Err Received)))
  | poll (x : Poll (Except Err Unit))
  | sent (x : Except Err Unit)
  deriving Repr

inductive Message (Sent Received : Type)
  | sent (item : Sent)
  | received (item : Received)
  deriving DecidableEq, Repr

/-- The logging task: it may have a file to create first. -/
inductive Task
  | creating
  | looping
  | ended
  deriving DecidableEq, Repr

structure Bare (σ Sent Received Err : Type) where
  inner : σ
  asked : List (Call Sent)
  answers : List (Answer Received Err)

/-- The wrapped transport; the receiver of the channel is dropped when the task ends. -/
structure State (σ Sent Received Err : Type) extends Bare σ Sent Received Err where
  task : Task
  queue : List (Message Sent Received)
  panicked : Option Panic

section
variable {σ Sent Received Err : Type} (t : Inner σ Sent Received Err)

def Inner.call (s : σ) : Call Sent → Answer Received Err × σ
  | .pollNext => (.item (t.pollNext s).1,(t.pollNext s).2)
  | .pollReady => (.poll (t.pollReady s).1,(t.pollReady s).2)
  | .startSend item => (.sent (t.startSend s item).1,(t.startSend s item).2)
  | .pollFlush => (.poll (t.pollFlush s).1,(t.pollFlush s).2)
  | .pollClose => (.poll (t.pollClose s).1,(t.pollClose s).2)

def Bare.forward (b : Bare σ Sent Received Err) (c : Call Sent) : Bare σ Sent Received Err where
  inner := (t.call b.inner c).2
  asked := b.asked ++ [c]
  answers := b.answers ++ [(t.call b.inner c).1]

namespace State

variable (s : State σ Sent Received Err)

/-- `None` when the receiver has been dropped. -/
def unboundedSend (m : Message Sent Received) : Option (State σ Sent Received Err) :=
  if s.task = .ended then none else some { s with queue := s.queue ++ [m] }

def forward (c : Call Sent) : State σ Sent Received Err :=
  { s with toBare := s.toBare.forward t c }

/-- A received element is logged if there is anyone left to log it. -/
def pollNext : State σ Sent Received Err :=
  match (t.pollNext s.inner).1 with
  | .ready (some (.ok element)) =>
    ((s.forward t .pollNext).unboundedSend (.received element)).getD (s.forward t .pollNext)
  | _ => s.forward t .pollNext

def startSend (item : Sent) : State σ Sent Received Err :=
  match s.unboundedSend (.sent item) with
  | some s => s.forward t (.startSend item)
  | none => { s with panicked := some (.explicit "called unwrap on an Err value") }

def call : Call Sent → State σ Sent Received Err
  | .pollNext => s.pollNext t
  | .startSend item => s.startSend t item
  | c => s.forward t c

end State

/-- The caller polls or sends, the inner transport changes by itself, and the task creates its
file, takes a message, which it may not survive, or is gone. -/
inductive Label (σ Sent : Type)
  | call (c : Call Sent)
  | world (f : σ → σ)
  | created (ok : Bool)
  | take (survives : Bool)
  | abort

def step (s : State σ Sent Received Err) : Label σ Sent → Option (State σ Sent Received Err)
  | .call c => if s.panicked.isSome then none else some (s.call t c)
  | .world f => some { s with inner := f s.inner }
  | .created ok =>
    match s.task with
    | .creating => some { s with task := if ok then .looping else .ended }
    | _ => none
  | .take survives =>
    match s.task, s.queue with
    | .looping, _ :: queue =>
      some { s with queue := queue, task := if survives then .looping else .ended }
    | _, _ => none
  | .abort => some { s with task := .ended }

def bare (b : Bare σ Sent Received Err) : Label σ Sent → Bare σ Sent Received Err
  | .call c => b.forward t c
  | .world f => { b with inner := f b.inner }
  | _ => b

def initBare (s₀ : σ) : Bare σ Sent Received Err := ⟨s₀,[],[]⟩

def init (s₀ : σ) (task : Task) : State σ Sent Received Err := ⟨initBare s₀,task,[],none⟩

/-- Nothing of the wrapper is seen. -/
def Transparent (s : State σ Sent Received Err) (b : Bare σ Sent Received Err) : Prop :=
  s.toBare = b ∧ s.panicked = none

/-- There is a receiver of the log when an item is sent. -/
def LogOpen (s : State σ Sent Received Err) : Label σ Sent → Prop
  | .call (.startSend _) => s.task ≠ .ended
  | _ => True

end

/-- `transport_logging`: the task survives the messages that the decoder does. -/
def DecodedBy {σ Err : Type} (d : Decoder) (s : State σ Bytes Bytes Err) :
    Label σ Bytes → Prop
  | .take survives => ∀ m ∈ s.queue.head?, survives = match m with
    | .sent frame => (d.feedSent frame).isOk
    | .received frame => (d.feedRecv frame).isOk
  | _ => True

section
variable {σ Sent Received Err : Type} {t : Inner σ Sent Received Err}
variable {s u : State σ Sent Received Err} {b : Bare σ Sent Received Err} {a : Label σ Sent}

theorem unboundedSend_eq_some {m : Message Sent Received} (h : s.unboundedSend m = some u) :
    u.toBare = s.toBare ∧ u.panicked = s.panicked := by
  simp only [State.unboundedSend] at h
  split_ifs at h
  obtain rfl := Option.some.inj h
  exact ⟨rfl,rfl⟩

theorem pollNext_toBare (s : State σ Sent Received Err) :
    (s.pollNext t).toBare = s.toBare.forward t .pollNext ∧
      (s.pollNext t).panicked = s.panicked := by
  unfold State.pollNext
  split
  · rename_i element _
    cases hsend : (s.forward t .pollNext).unboundedSend (.received element) with
    | none => exact ⟨rfl,rfl⟩
    | some u => exact unboundedSend_eq_some hsend
  · exact ⟨rfl,rfl⟩

theorem startSend_toBare (h : s.task ≠ .ended) (item : Sent) :
    (s.startSend t item).toBare = s.toBare.forward t (.startSend item) ∧
      (s.startSend t item).panicked = s.panicked := by
  rw [State.startSend,State.unboundedSend,if_neg h]
  exact ⟨rfl,rfl⟩

/-- Without one the item is lost, and the task of the caller with it. -/
theorem startSend_panics (h : s.task = .ended) (item : Sent) :
    (s.startSend t item).panicked ≠ none := by
  rw [State.startSend,State.unboundedSend,if_pos h]
  exact nofun

/-- What a step does, but for the log: the steps of its task do nothing else. -/
theorem step_spec (h : step t s a = some u) : match a with
    | .call c => s.panicked = none ∧ u = s.call t c
    | .world f => u = { s with inner := f s.inner }
    | _ => u.toBare = s.toBare ∧ u.panicked = s.panicked := by
  cases a with
  | call c =>
    obtain ⟨hs,hu⟩ := Option.ite_none_left_eq_some.mp h
    exact ⟨Option.not_isSome_iff_eq_none.mp hs,(Option.some.inj hu).symm⟩
  | world f => exact (Option.some.inj h).symm
  | created _ | take _ =>
    simp only [step] at h
    split at h
    · obtain rfl := Option.some.inj h
      exact ⟨rfl,rfl⟩
    · cases h
  | abort =>
    obtain rfl := Option.some.inj h
    exact ⟨rfl,rfl⟩

theorem step_transparent (hs : Transparent s b) (ha : LogOpen s a) (h : step t s a = some u) :
    Transparent u (bare t b a) := by
  obtain ⟨rfl,hok⟩ := hs
  cases a with
  | call c =>
    obtain ⟨-,rfl⟩ := step_spec h
    cases c with
    | pollNext =>
      obtain ⟨hbare,hpanicked⟩ := pollNext_toBare (t := t) s
      exact ⟨hbare,hpanicked.trans hok⟩
    | startSend item =>
      obtain ⟨hbare,hpanicked⟩ := startSend_toBare (t := t) ha item
      exact ⟨hbare,hpanicked.trans hok⟩
    | _ => exact ⟨rfl,hok⟩
  | world f =>
    obtain rfl : u = _ := step_spec h
    exact ⟨rfl,hok⟩
  | created _ | take _ | abort =>
    obtain ⟨hbare,hpanicked⟩ := step_spec h
    exact ⟨hbare,hpanicked.trans hok⟩

theorem step_panicked (h : step t s a = some u) (hu : u.panicked = none) :
    s.panicked = none ∧ LogOpen s a := by
  cases a with
  | call c =>
    obtain ⟨hok,rfl⟩ := step_spec h
    refine ⟨hok,?_⟩
    cases c with
    | startSend item => exact fun hended => startSend_panics hended item hu
    | _ => trivial
  | world f =>
    obtain rfl : u = _ := step_spec h
    exact ⟨hu,trivial⟩
  | created _ | take _ | abort => exact ⟨(step_spec h).2.symm.trans hu,trivial⟩

theorem along_logOpen {xs : List (Label σ Sent)} (h : Transition.run (step t) s xs = some u)
    (hu : u.panicked = none) : s.panicked = none ∧ Transition.Along (step t) LogOpen s xs := by
  induction xs generalizing s with
  | nil =>
    obtain rfl := Option.some.inj h
    exact ⟨hu,trivial⟩
  | cons a xs ih =>
    obtain ⟨v,hv,hrest⟩ := Transition.run_cons_iff.mp h
    obtain ⟨hpanicked,halong⟩ := ih hrest
    obtain ⟨hs,hopen⟩ := step_panicked hv hpanicked
    exact ⟨hs,(Transition.along_cons_of hv).mpr ⟨hopen,halong⟩⟩

/-- In any run the wrapper does what the transport alone would do exactly if the log is open
whenever an item is sent. -/
theorem transparent_iff {s₀ : σ} {task : Task} {xs : List (Label σ Sent)}
    (h : Transition.run (step t) (init s₀ task : State σ Sent Received Err) xs = some u) :
    Transparent u (xs.foldl (bare t) (initBare s₀)) ↔
      Transition.Along (step t) LogOpen (init s₀ task) xs := by
  constructor
  · rintro ⟨-,hu⟩
    exact (along_logOpen h hu).2
  · intro hopen
    exact Transition.guarded_simulation (fun _ _ _ _ => step_transparent) ⟨rfl,rfl⟩ hopen h

end

/-! A transport that takes everything and never has anything. -/

def quiet : Inner Unit Bytes Bytes MiniDSPError where
  pollNext _ := (.pending,())
  pollReady _ := (.ready (.ok ()),())
  startSend _ _ := (.ok (),())
  pollFlush _ := (.ready (.ok ()),())
  pollClose _ := (.ready (.ok ()),())

theorem transparent_iff_one_frame :
    ∃ u : State Unit Bytes Bytes MiniDSPError,
      Transition.run (step quiet) (init () .looping)
        [.call (.startSend [1]),.take true,.call .pollNext] = some u ∧
      Transparent u ⟨(),[.startSend [1],.pollNext],[.sent (.ok ()),.item .pending]⟩ := by
  have hopen : Transition.Along (step quiet) LogOpen (init () .looping)
      [.call (.startSend [1]),.take true,.call .pollNext] :=
    ⟨nofun,fun _ _ => ⟨trivial,fun _ _ => ⟨trivial,fun _ _ => trivial⟩⟩⟩
  exact ⟨_,rfl,(transparent_iff rfl).mpr hopen⟩

/-- A write without a value is sent, and the decoder panics on it: the next frame is not sent,
and whoever sends it panics as well. -/
theorem dead_log_panics_sender :
    ¬∀ (d : Decoder) (xs : List (Label Unit Bytes)) (u : State Unit Bytes Bytes MiniDSPError),
      Transition.Along (step quiet) (DecodedBy d) (init () .looping) xs →
      Transition.run (step quiet) (init () .looping) xs = some u →
      Transparent u (xs.foldl (bare quiet) (initBare ())) := by
  intro h
  have hdecoded : Transition.Along (step quiet) (DecodedBy ⟨false,none⟩)
      (init () .looping : State Unit Bytes Bytes MiniDSPError)
      [.call (.startSend [4,0x13,0,0]),.take false,.call (.startSend [1])] := by
    refine ⟨trivial,fun s hs => ⟨?_,fun _ _ => ⟨trivial,fun _ _ => trivial⟩⟩⟩
    obtain rfl := Option.some.inj hs
    rintro m ⟨⟩
    rfl
  exact nomatch (h ⟨false,none⟩ _ _ hdecoded rfl).2

end Logger
end Minidsp
