import Minidsp.Client
import Minidsp.Delivery
import Minidsp.Sharing

/-! Tasks with clones of one client, from the lock around the service to the device. A
`roundtrip` keeps the lock until the service has answered or its time is up, so that there is
one call of the multiplexer at a time. -/
namespace Minidsp
namespace Service

/-- The device at the other end of the wire: it answers every command it takes. -/
abbrev Peer (σ : Type) := σ → Commands → Responses × σ

namespace Peer

variable {σ : Type} (peer : Peer σ)

def device : Dialogue.Device σ Commands Responses MiniDSPError := fun s q =>
  (.ok (peer s q).1,(peer s q).2)

def serve : σ → List Commands → List Responses × σ
  | s, [] => ([],s)
  | s, q :: qs => ((peer s q).1 :: (serve (peer s q).2 qs).1,(serve (peer s q).2 qs).2)

/-- Every answer is one the command can be answered with. -/
def Fitting : Prop := ∀ s (q : Commands), q.matchesResponse (peer s q).1 = true

@[simp] theorem serve_nil (s : σ) : peer.serve s [] = ([],s) := rfl

theorem serve_append (s : σ) (qs rs : List Commands) :
    peer.serve s (qs ++ rs) = ((peer.serve s qs).1 ++ (peer.serve (peer.serve s qs).2 rs).1,
      (peer.serve (peer.serve s qs).2 rs).2) := by
  induction qs generalizing s with
  | nil => rfl
  | cons q qs ih => simp [serve,ih]

theorem serve_concat (s : σ) (qs : List Commands) (q : Commands) :
    peer.serve s (qs ++ [q]) = ((peer.serve s qs).1 ++ [(peer (peer.serve s qs).2 q).1],
      (peer (peer.serve s qs).2 q).2) := serve_append peer s qs [q]

@[simp] theorem serve_length (s : σ) (qs : List Commands) :
    (peer.serve s qs).1.length = qs.length := by
  induction qs generalizing s with
  | nil => rfl
  | cons q qs ih => simp [serve,ih]

theorem serve_getElem? (s : σ) (qs : List Commands) (n : ℕ) :
    (peer.serve s qs).1[n]? = qs[n]?.map fun q => (peer (peer.serve s (qs.take n)).2 q).1 := by
  induction qs generalizing s n with
  | nil => simp
  | cons q qs ih =>
    cases n with
    | zero => rfl
    | succ n => simp [serve,ih]

/-- A device that answers with zeros, and remembers what it was told. -/
def blank : Peer (List Commands) := fun s q => (answer q,s ++ [q])
where
  answer : Commands → Responses
    | .readMemory addr size => .memoryData ⟨addr,List.replicate size.toNat 0⟩
    | .readFloats addr len => .floatData ⟨addr,List.replicate len.toNat 0⟩
    | .readHardwareId => .hardwareId ⟨0,0,0⟩
    | .setConfig .. => .configChanged
    | .firLoadStart _ => .firLoadSize 0
    | .unk07 _ => .unk02
    | .read addr _ => .read addr []
    | _ => .ack

theorem blank_fitting : blank.Fitting := by
  intro s q
  have hfits : q.matchesResponse (blank.answer q) = true := by
    cases q with
    | readMemory addr size =>
      exact Bool.and_eq_true_iff.mpr ⟨beq_self_eq_true addr,beq_iff_eq.mpr List.length_replicate⟩
    | readFloats addr len =>
      exact Bool.and_eq_true_iff.mpr ⟨beq_self_eq_true addr,beq_iff_eq.mpr List.length_replicate⟩
    | _ => rfl
  exact hfits

end Peer

structure State (ι σ α : Type) where
  /-- What each task still has to do. -/
  tasks : ι → Call α
  /-- The task that holds the lock around the service, and the number of its call. -/
  guard : Option (ι × ℕ)
  /-- The calls made so far. -/
  calls : ℕ
  mux : Multiplexer.State
  device : σ
  /-- The commands the device has taken off the wire. -/
  taken : ℕ
  /-- Its answers on their way back. -/
  inbound : List Responses

variable {ι σ α : Type}

def start (tasks : ι → Call α) (device : σ) : State ι σ α where
  tasks := tasks
  guard := none
  calls := 0
  mux := Multiplexer.init
  device := device
  taken := 0
  inbound := []

inductive Poll
  | enqueue
  | lock
  | send
  | sendError (e : MiniDSPError)
  | flush
  | resume

def Poll.label (k : ℕ) (q : Commands) : Poll → Multiplexer.Label
  | .enqueue => .enqueue k q
  | .lock => .lock k
  | .send => .send k
  | .sendError e => .sendError k e
  | .flush => .flush k
  | .resume => .resume k

inductive Ending
  | streamEnd
  | takeTx
  | drain
  | shutdown

def Ending.label : Ending → Multiplexer.Label
  | .streamEnd => .streamEnd
  | .takeTx => .takeTx
  | .drain => .drain
  | .shutdown => .shutdown

inductive Label (ι : Type)
  | acquire (c : ι)
  | poll (p : Poll)
  | finish
  | timeout
  | answer
  | receive
  | stray (item : Except MiniDSPError Responses)
  | ending (a : Ending)

/-- The steps that are no fault of the link or of the device. -/
def Label.Smooth : Label ι → Prop
  | .poll (.sendError _) | .timeout | .ending _ => False
  | .stray (.error e) => ∃ p, e = .parseError p
  | _ => True

/-- The steps that leave the sink and the receive task in place. -/
def Label.Working : Label ι → Prop
  | .poll (.sendError _) | .ending _ => False
  | .stray (.error e) => ∃ p, e = .parseError p
  | _ => True

theorem Label.Smooth.working {a : Label ι} (ha : a.Smooth) : a.Working := by
  cases a with
  | poll p => cases p <;> trivial
  | stray item => cases item <;> trivial
  | _ => trivial

variable [DecidableEq ι]

def State.release (s : State ι σ α) (c : ι) (p : Call α) : State ι σ α :=
  { s with tasks := Function.update s.tasks c p, guard := none }

def step (peer : Peer σ) (s : State ι σ α) : Label ι → Option (State ι σ α)
  | .acquire c =>
    match s.guard,s.tasks c with
    | none,.ask _ _ => some { s with guard := some (c,s.calls), calls := s.calls+1 }
    | _,_ => none
  | .poll p =>
    match s.guard with
    | none => none
    | some (c,k) =>
      match s.tasks c with
      | .done _ => none
      | .ask q _ => (Multiplexer.step s.mux (p.label k q)).map fun mux => { s with mux }
  | .finish =>
    match s.guard with
    | none => none
    | some (c,k) =>
      match s.tasks c,s.mux.calls k with
      | .ask _ next,.returned result => some (s.release c (next result))
      | _,_ => none
  | .timeout =>
    match s.guard with
    | none => none
    | some (c,k) =>
      match s.tasks c with
      | .done _ => none
      | .ask _ next => (Multiplexer.drop s.mux k).map fun mux =>
        { s with mux }.release c (next (.error .timeout))
  | .answer =>
    s.mux.sink[s.taken]?.map fun p => { s with
      device := (peer s.device p.1).2
      taken := s.taken+1
      inbound := s.inbound ++ [(peer s.device p.1).1] }
  | .receive =>
    match s.inbound with
    | [] => none
    | r :: inbound => (Multiplexer.recv s.mux (.ok r)).map fun mux => { s with mux, inbound }
  | .stray item => (Multiplexer.recv s.mux item).map fun mux => { s with mux }
  | .ending a => (Multiplexer.step s.mux a.label).map fun mux => { s with mux }

/-- What is assumed of a run: nothing the device sends unasked looks like the answer to the
command at the front of the queue, and no call is given up before its command has left. -/
def Faithful (s : State ι σ α) : Label ι → Prop
  | .stray (.ok data) =>
    ∀ p, s.mux.pendingCommand.head? = some p → p.1.matchesResponse data = false
  | .timeout => ∀ c k, s.guard = some (c,k) →
    s.mux.write = true → ∀ q, s.mux.calls k ≠ .locking q
  | _ => True

variable {peer : Peer σ} {s t : State ι σ α}

theorem acquire_iff {c : ι} : step peer s (.acquire c) = some t ↔
    s.guard = none ∧ (∃ q next, s.tasks c = .ask q next) ∧
      t = { s with guard := some (c,s.calls), calls := s.calls+1 } := by
  rw [step]
  cases s.guard <;> cases s.tasks c <;> simp [eq_comm]

theorem poll_iff {p : Poll} : step peer s (.poll p) = some t ↔
    ∃ c k q next mux, s.guard = some (c,k) ∧ s.tasks c = .ask q next ∧
      Multiplexer.step s.mux (p.label k q) = some mux ∧ t = { s with mux } := by
  rw [step]
  cases hg : s.guard with
  | none => simp
  | some g =>
    obtain ⟨c,k⟩ := g
    cases hc : s.tasks c <;> simp [hc,eq_comm]

theorem finish_iff : step peer s .finish = some t ↔
    ∃ c k q next result, s.guard = some (c,k) ∧ s.tasks c = .ask q next ∧
      s.mux.calls k = .returned result ∧ t = s.release c (next result) := by
  rw [step]
  cases hg : s.guard with
  | none => simp
  | some g =>
    obtain ⟨c,k⟩ := g
    cases hc : s.tasks c with
    | done result => simp [hc]
    | ask q next => cases hk : s.mux.calls k <;> simp [hc,hk,eq_comm]

theorem timeout_iff : step peer s .timeout = some t ↔
    ∃ c k q next mux, s.guard = some (c,k) ∧ s.tasks c = .ask q next ∧
      Multiplexer.drop s.mux k = some mux ∧
      t = { s with mux }.release c (next (.error .timeout)) := by
  rw [step]
  cases hg : s.guard with
  | none => simp
  | some g =>
    obtain ⟨c,k⟩ := g
    cases hc : s.tasks c <;> simp [hc,eq_comm]

theorem answer_iff : step peer s .answer = some t ↔ ∃ p, s.mux.sink[s.taken]? = some p ∧
    t = { s with
      device := (peer s.device p.1).2
      taken := s.taken+1
      inbound := s.inbound ++ [(peer s.device p.1).1] } := by
  rw [step]
  cases s.mux.sink[s.taken]? <;> simp [eq_comm]

theorem receive_iff : step peer s .receive = some t ↔ ∃ r inbound, s.inbound = r :: inbound ∧
    s.mux.recvTask = .looping ∧ t = { s with mux := Multiplexer.dispatch s.mux r, inbound } := by
  rw [step]
  cases s.inbound with
  | nil => simp
  | cons r inbound =>
    by_cases hl : s.mux.recvTask = .looping <;> simp [Multiplexer.recv,hl,eq_comm]

theorem stray_iff {item : Except MiniDSPError Responses} : step peer s (.stray item) = some t ↔
    ∃ mux, Multiplexer.recv s.mux item = some mux ∧ t = { s with mux } := by
  simp [step,eq_comm]

theorem ending_iff {a : Ending} : step peer s (.ending a) = some t ↔
    ∃ mux, Multiplexer.step s.mux a.label = some mux ∧ t = { s with mux } := by
  simp [step,eq_comm]

end Service
end Minidsp
