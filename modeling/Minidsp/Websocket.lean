import Minidsp.Broadcast
import Minidsp.MiniDSP
import Minidsp.Transition

/-! The websocket of a device: its status is sent once, and then what it announces, its levels,
and what polling finds. -/
namespace Minidsp

/-- The master status and the levels of a device, and what a client knows of them; an absent
field is not sent, nor an empty list. -/
structure StatusSummary where
  master : MasterStatus
  inputLevels : List F32Bits
  outputLevels : List F32Bits
  deriving DecidableEq, Repr

instance : Inhabited StatusSummary := ⟨⟨default,[],[]⟩⟩

/-- An update the device announces, if the response is one; the filter of
`subscribe_master_status`. -/
def MiniDSP.statusUpdate (dsp : MiniDSP) : Responses → Option MasterStatus
  | .memoryData memory =>
    let status := MasterStatus.fromMemory dsp.deviceInfo memory
    if status = default then none else some status
  | _ => none

namespace Websocket

def applyUpdate (state data : StatusSummary) : StatusSummary where
  master := data.master.onto state.master
  inputLevels := if data.inputLevels = [] then state.inputLevels else data.inputLevels
  outputLevels := if data.outputLevels = [] then state.outputLevels else data.outputLevels

inductive Message
  | initial (status : StatusSummary)
  | pushed (master : MasterStatus)
  | levels (inputLevels outputLevels : List F32Bits)
  | polled (summary : StatusSummary)
  deriving DecidableEq, Repr

def Message.summary : Message → StatusSummary
  | initial status => status
  | pushed master => { (default : StatusSummary) with master := master }
  | levels inputLevels outputLevels =>
    { (default : StatusSummary) with inputLevels := inputLevels, outputLevels := outputLevels }
  | polled summary => summary

def received (sent : List Message) : StatusSummary :=
  sent.foldl (fun state m => applyUpdate state m.summary) default

@[simp] theorem received_concat (sent : List Message) (m : Message) :
    received (sent ++ [m]) = applyUpdate (received sent) m.summary := by
  simp [received]

inductive Phase
  | fetching
  | metering (master : MasterStatus)
  | fetched (status : StatusSummary)
  | upgraded (status : StatusSummary)
  | greeted (status : StatusSummary)
  | streaming (stream : Broadcast.Receiver) (lastPolledStatus : StatusSummary)
  | closed
  deriving DecidableEq, Repr

/-- A request with or without `?levels` and `?poll`, the events of the device, and what was
sent to the client. -/
structure Session where
  levels : Bool
  poll : Bool
  events : Broadcast.Channel Responses
  phase : Phase
  sent : List Message
  deriving DecidableEq, Repr

/-- A step carries what the device answers, and whether the websocket takes the message. -/
inductive Step
  | event (item : Responses)
  | master (x : Except MiniDSPError MasterStatus)
  | meters (x : Except MiniDSPError (List F32Bits × List F32Bits))
  | upgrade (ok : Bool)
  | greet (ok : Bool)
  | subscribe (ok : Bool)
  | push (ok : Bool)
  | levelTick (x : Except MiniDSPError (List F32Bits × List F32Bits)) (ok : Bool)
  | pollTick (x : Except MiniDSPError MasterStatus) (ok : Bool)
  | client (closes : Bool)

def start (levels poll : Bool) : Session := ⟨levels,poll,.empty,.fetching,[]⟩

/-- The message is sent and the handler goes on, or the websocket is gone. -/
def Session.send (s : Session) (ok : Bool) (m : Message) (phase : Phase) : Session :=
  if ok then { s with sent := s.sent ++ [m], phase := phase } else { s with phase := .closed }

def push (dsp : MiniDSP) (s : Session) (stream : Broadcast.Receiver) (last : StatusSummary)
    (ok : Bool) : Option Session := do
  let (item,stream) ← s.events.recv stream
  return match dsp.statusUpdate item with
    | some master => s.send ok (.pushed master) (.streaming stream last)
    | none => { s with phase := .streaming stream last }

def pollTick (s : Session) (stream : Broadcast.Receiver) (last : StatusSummary)
    (x : Except MiniDSPError MasterStatus) (ok : Bool) : Session :=
  match x with
  | .error _ => s
  | .ok master =>
    let summary := { (default : StatusSummary) with master := master }
    if last = summary then s else s.send ok (.polled summary) (.streaming stream summary)

def levelTick (s : Session) (x : Except MiniDSPError (List F32Bits × List F32Bits)) (ok : Bool) :
    Session :=
  match x with
  | .error _ => s
  | .ok (inputLevels,outputLevels) => s.send ok (.levels inputLevels outputLevels) s.phase

def step (dsp : MiniDSP) (s : Session) (a : Step) : Option Session :=
  match a, s.phase with
  | .event item, _ => some { s with events := s.events.send item }
  | .master (.ok master), .fetching => some { s with phase := .metering master }
  | .master (.error _), .fetching => some { s with phase := .closed }
  | .meters (.ok (inputLevels,outputLevels)), .metering master =>
    some { s with phase := .fetched ⟨master,inputLevels,outputLevels⟩ }
  | .meters (.error _), .metering _ => some { s with phase := .closed }
  | .upgrade ok, .fetched status =>
    some { s with phase := if ok then .upgraded status else .closed }
  | .greet ok, .upgraded status => some (s.send ok (.initial status) (.greeted status))
  | .subscribe ok, .greeted status =>
    some { s with phase :=
      if ok then .streaming s.events.subscribe { status with inputLevels := [], outputLevels := [] }
      else .closed }
  | .push ok, .streaming stream last => push dsp s stream last ok
  | .levelTick x ok, .streaming _ _ => if s.levels then some (levelTick s x ok) else none
  | .pollTick x ok, .streaming stream last =>
    if s.poll then some (pollTick s stream last x ok) else none
  | .client closes, .streaming _ _ => some (if closes then { s with phase := .closed } else s)
  | _, _ => none

/-! What each step does. -/

def Step.Succeeds : Step → Prop
  | .master x => ∃ master, x = .ok master
  | .meters x => ∃ levels, x = .ok levels
  | .upgrade ok | .greet ok | .subscribe ok | .push ok | .levelTick _ ok | .pollTick _ ok => ok
  | .client closes => !closes
  | .event _ => True

/-- The steps the handler owes; what it does on a tick is not among them. -/
def Owed : Step → Prop
  | .master _ | .meters _ | .upgrade _ | .greet _ | .subscribe _ | .push _ => True
  | _ => False

inductive Moves (dsp : MiniDSP) (s : Session) : Step → Session → Prop
  | event (item) : Moves dsp s (.event item) { s with events := s.events.send item }
  | close (a) (h : ¬a.Succeeds) : Moves dsp s a { s with phase := .closed }
  | master (m) (hp : s.phase = .fetching) :
    Moves dsp s (.master (.ok m)) { s with phase := .metering m }
  | meters (i o m) (hp : s.phase = .metering m) :
    Moves dsp s (.meters (.ok (i,o))) { s with phase := .fetched ⟨m,i,o⟩ }
  | upgrade (status) (hp : s.phase = .fetched status) :
    Moves dsp s (.upgrade true) { s with phase := .upgraded status }
  | greet (status) (hp : s.phase = .upgraded status) : Moves dsp s (.greet true)
    { s with sent := s.sent ++ [.initial status], phase := .greeted status }
  | subscribe (status) (hp : s.phase = .greeted status) : Moves dsp s (.subscribe true)
    { s with phase :=
      .streaming s.events.subscribe { status with inputLevels := [], outputLevels := [] } }
  | push (stream last item stream' m) (hp : s.phase = .streaming stream last)
    (hrecv : s.events.recv stream = some (item,stream')) (hm : dsp.statusUpdate item = some m) :
    Moves dsp s (.push true)
      { s with sent := s.sent ++ [.pushed m], phase := .streaming stream' last }
  | skip (ok stream last item stream') (hp : s.phase = .streaming stream last)
    (hrecv : s.events.recv stream = some (item,stream')) (hm : dsp.statusUpdate item = none) :
    Moves dsp s (.push ok) { s with phase := .streaming stream' last }
  | levels (i o stream last) (hp : s.phase = .streaming stream last) :
    Moves dsp s (.levelTick (.ok (i,o)) true)
      { s with sent := s.sent ++ [.levels i o], phase := .streaming stream last }
  | polled (m stream last) (hp : s.phase = .streaming stream last) (hpoll : s.poll) :
    Moves dsp s (.pollTick (.ok m) true)
      { s with sent := s.sent ++ [.polled ⟨m,[],[]⟩], phase := .streaming stream ⟨m,[],[]⟩ }
  | idle (a stream last) (hp : s.phase = .streaming stream last) (ha : ¬Owed a) :
    Moves dsp s a s

theorem moves_of_step {dsp : MiniDSP} {s t : Session} {a : Step} (h : step dsp s a = some t) :
    Moves dsp s a t := by
  unfold step at h
  split at h
  · obtain rfl := Option.some.inj h
    exact .event _
  · rename_i m hp
    obtain rfl := Option.some.inj h
    exact .master m hp
  · obtain rfl := Option.some.inj h
    exact .close _ (by simp [Step.Succeeds])
  · rename_i i o m hp
    obtain rfl := Option.some.inj h
    exact .meters i o m hp
  · obtain rfl := Option.some.inj h
    exact .close _ (by simp [Step.Succeeds])
  · rename_i ok status hp
    obtain rfl := Option.some.inj h
    cases ok with
    | true => exact .upgrade status hp
    | false => exact .close _ (by simp [Step.Succeeds])
  · rename_i ok status hp
    obtain rfl := Option.some.inj h
    cases ok with
    | true => exact .greet status hp
    | false => exact .close _ (by simp [Step.Succeeds])
  · rename_i ok status hp
    obtain rfl := Option.some.inj h
    cases ok with
    | true => exact .subscribe status hp
    | false => exact .close _ (by simp [Step.Succeeds])
  · rename_i ok stream last hp
    obtain ⟨⟨item,stream'⟩,hrecv,ht⟩ := Option.bind_eq_some_iff.mp h
    obtain rfl := Option.some.inj ht
    cases hm : dsp.statusUpdate item with
    | none => exact .skip ok stream last item stream' hp hrecv hm
    | some m =>
      cases ok with
      | true => exact .push stream last item stream' m hp hrecv hm
      | false => exact .close _ (by simp [Step.Succeeds])
  · rename_i x ok stream last hp
    split_ifs at h
    obtain rfl := Option.some.inj h
    match x, ok with
    | .error _, ok => exact .idle _ stream last hp id
    | .ok (i,o), true =>
      simpa only [levelTick,Session.send,hp,if_true] using Moves.levels i o stream last hp
    | .ok (i,o), false => exact .close _ (by simp [Step.Succeeds])
  · rename_i x ok stream last hp
    split_ifs at h with hpoll
    obtain rfl := Option.some.inj h
    match x with
    | .error _ => exact .idle _ stream last hp id
    | .ok m =>
      simp only [pollTick]
      split
      · exact .idle _ stream last hp id
      · cases ok with
        | true => exact .polled m stream last hp hpoll
        | false => exact .close _ (by simp [Step.Succeeds])
  · rename_i closes stream last hp
    obtain rfl := Option.some.inj h
    cases closes with
    | true => exact .close _ (by simp [Step.Succeeds])
    | false => exact .idle _ stream last hp id
  · cases h

/-! A mock device, its status, and what it announces when it is muted. -/

def mock : MiniDSP := ⟨Device.generic,⟨10,100,0,100,900001⟩⟩
def playing : MasterStatus := ⟨some 0,some .usb,some ⟨-10⟩,some false,none⟩
def muted : Responses := .memoryData ⟨Eeprom.mute,[1]⟩

end Websocket
end Minidsp
