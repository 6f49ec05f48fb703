import Minidsp.Delivery

/-! Frames from the transport, parsed and taken by one turn of the receive loop each: which of
them end the loop. -/
namespace Minidsp
namespace Multiplexer

open Buffer

variable {s t : State} {f : Bytes}

/-- `FrameCodec::poll_next` on a frame and one turn of `recv_loop`; a panic has no next state. -/
def frameTurn (s : State) (f : Bytes) : Option State :=
  match parseResponse f with
  | .ok data => recv s (.ok data)
  | .error (.error e) => recv s (.error e)
  | .error (.panic _) => none

theorem frameTurn_step (h : frameTurn s f = some t) : ∃ item, step s (.recv item) = some t := by
  unfold frameTurn at h
  split at h
  · exact ⟨.ok _,h⟩
  · exact ⟨.error _,h⟩
  · cases h

inductive Input
  | frame (f : Bytes)
  | call (a : Label)

def Label.byCaller : Label → Bool
  | .recv _ | .streamEnd | .takeTx | .drain => false
  | _ => true

def stepInput (s : State) : Input → Option State
  | .frame f => frameTurn s f
  | .call a => if a.byCaller then step s a else none

/-- The loop goes on, and the frame was skipped or dispatched. -/
def Kept (s : State) : Input → Prop
  | .frame f => ∃ t, frameTurn s f = some t ∧ t.recvTask = .looping ∧
      (t = s ∨ ∃ data, parseResponse f = .ok data ∧ t = dispatch s data)
  | .call _ => True

def Readable (_ : State) : Input → Prop
  | .frame f => ¬Unreadable f
  | .call _ => True

/-- A frame with a response that the front entry accepts reaches its caller. -/
def Delivers (s : State) : Prop :=
  ∀ p rest f data, s.pendingCommand = p :: rest → parseResponse f = .ok data →
    p.1.matchesResponse data = true →
    ∃ t, frameTurn s f = some t ∧ t.pendingCommand = rest ∧ (p,.ok data) ∈ t.oneshots

theorem byCaller_recvTask {a : Label} (ha : a.byCaller = true) (h : step s a = some t) :
    t.recvTask = s.recvTask := by
  cases a with
  | enqueue i cmd =>
    obtain ⟨-,rfl⟩ := enqueue_iff.mp h
    split <;> rfl
  | recv _ | streamEnd | takeTx | drain => cases ha
  | _ => exact (atSink_frame rfl h).2.2.1

/-- An unreadable frame comes as a protocol error, and the loop only skips parse errors. -/
theorem frameTurn_unreadable (hl : s.recvTask = .looping) (hf : Unreadable f) :
    frameTurn s f = some { s with recvTask := .left } := by
  obtain ⟨e,he⟩ := parseResponse_unreadable hf
  simp [frameTurn,he,recv,hl]

theorem frameTurn_readable (hl : s.recvTask = .looping) (hf : ¬Unreadable f) :
    ∃ t, frameTurn s f = some t ∧ t.recvTask = .looping ∧
      (t = s ∨ ∃ data, parseResponse f = .ok data ∧ t = dispatch s data) := by
  rcases parseResponse_readable hf with ⟨data,hdata⟩ | ⟨e,he⟩
  · refine ⟨dispatch s data,?_,?_,Or.inr ⟨data,hdata,rfl⟩⟩
    · simp [frameTurn,hdata,recv,hl]
    · rw [dispatch_recvTask,hl]
  · exact ⟨s,by simp [frameTurn,he,recv,hl],hl,Or.inl rfl⟩

theorem kept_frame_iff (hl : s.recvTask = .looping) :
    Kept s (.frame f) ↔ Readable s (.frame f) := by
  refine ⟨?_,frameTurn_readable hl⟩
  rintro ⟨t,ht,hloop,-⟩ hf
  rw [frameTurn_unreadable hl hf] at ht
  obtain rfl := Option.some.inj ht
  cases hloop

theorem stepInput_looping {x : Input} (hl : s.recvTask = .looping) (hx : Readable s x)
    (h : stepInput s x = some t) : t.recvTask = .looping := by
  cases x with
  | frame f =>
    obtain ⟨u,hu,hloop,-⟩ := frameTurn_readable hl hx
    obtain rfl := Option.some.inj (hu.symm.trans h)
    exact hloop
  | call a =>
    simp only [stepInput] at h
    split_ifs at h with ha
    rw [byCaller_recvTask ha h,hl]

theorem delivers_of_looping (hl : s.recvTask = .looping) : Delivers s := by
  rintro ⟨cmd,i⟩ rest f data hp hf hm
  refine ⟨dispatch s data,by simp [frameTurn,hf,recv,hl],?_⟩
  rw [dispatch_of_matches hp hm]
  exact ⟨rfl,by simp⟩

theorem along_kept_iff (hl : s.recvTask = .looping) (xs : List Input) :
    Transition.Along stepInput Kept s xs ↔ Transition.Along stepInput Readable s xs := by
  induction xs generalizing s with
  | nil => exact Iff.rfl
  | cons x xs ih =>
    have hx : Kept s x ↔ Readable s x := by
      cases x with
      | frame f => exact kept_frame_iff hl
      | call a => exact Iff.rfl
    constructor
    · rintro ⟨hk,hrest⟩
      exact ⟨hx.mp hk,fun t ht => (ih (stepInput_looping hl (hx.mp hk) ht)).mp (hrest t ht)⟩
    · rintro ⟨hr,hrest⟩
      exact ⟨hx.mpr hr,fun t ht => (ih (stepInput_looping hl hr ht)).mpr (hrest t ht)⟩

/-- From any state with a running loop, frames between the steps of any calls keep the loop
and the delivery of the next reply exactly if none of them is cut short of its fields. -/
theorem frames_keep_loop_iff (s : State) (hl : s.recvTask = .looping) (xs : List Input) :
    (Transition.Along stepInput Kept s xs ∧
      ∀ t, Transition.run stepInput s xs = some t → Delivers t) ↔
      Transition.Along stepInput Readable s xs := by
  constructor
  · rintro ⟨hk,-⟩
    exact (along_kept_iff hl xs).mp hk
  · intro hr
    refine ⟨(along_kept_iff hl xs).mpr hr,fun t ht => delivers_of_looping ?_⟩
    exact Transition.guarded_invariant (I := fun s => s.recvTask = .looping)
      (fun s x t hl hx h => stepInput_looping hl hx h) hl hr ht

/-- An empty frame and the frame of an acknowledgment, with a pending command between them. -/
theorem frames_keep_loop_ack :
    Transition.Along stepInput Kept init
      [.frame [],.call (.enqueue 0 (.setMute true)),.frame [1]] := by
  have hempty : ¬Unreadable [] := by
    rintro ⟨packet,hp,-⟩
    cases hp
  have hack : ¬Unreadable [1] := by
    rintro ⟨packet,hp,hcut⟩
    obtain rfl := Except.ok.inj hp
    exact hcut
  exact ((frames_keep_loop_iff init rfl
    [.frame [],.call (.enqueue 0 (.setMute true)),.frame [1]]).mpr
      ⟨hempty,fun _ _ => ⟨trivial,fun _ _ => ⟨hack,fun _ _ => trivial⟩⟩⟩).1

/-- The frame of a memory response without its address tears the loop down. -/
theorem truncated_frame_ends_loop :
    ¬∀ s : State, s.recvTask = .looping → ∀ xs, Transition.Along stepInput Kept s xs := by
  intro h
  have hcut : Unreadable [0x02,0x05] := ⟨[0x05],rfl,by decide⟩
  exact (kept_frame_iff rfl).mp (h init rfl [.frame [0x02,0x05]]).1 hcut

end Multiplexer
end Minidsp
