import Mathlib.Logic.Function.Basic
import Minidsp.Codec
import Minidsp.Transport

/-! The TCP server, which lets several clients talk to one device: the frames of every client go
to the device through one channel, and each frame of the device goes to all clients. -/
namespace Minidsp
namespace TcpServer

open Buffer

/-- Truncate a frame of the device after its ending. -/
def truncate (frame : Bytes) : Except MiniDSPError Bytes :=
  match frame with
  | [] => .error (.malformedResponse "Received an empty frame")
  | b :: _ =>
    let len := b.toNat
    if frame.length < len then
      let got := frame.length
      .error (.malformedResponse s!"Expected frame of length {len}, got {got}")
    else .ok (frame.take len)

/-- What an item of the device's stream adds to the broadcast; errors are dropped. -/
def received (item : Except MiniDSPError Bytes) : List Bytes :=
  match item >>= truncate with
  | .ok frame => [frame]
  | .error _ => []

/-- Where the task of a client is: at its `select!`, in `remote.send` with some bytes left, in
`device_tx.send` with the frame in the channel, or at its end. -/
inductive Turn
  | selecting
  | sending (rest : Bytes)
  | queued
  | closed
  deriving DecidableEq, Repr

structure Connection where
  turn : Turn
  /-- The decoder of `remote` with its read buffer. -/
  remote : Framed.Fed Codec UInt8 Bytes
  isReadable : Bool
  eof : Bool
  /-- The frame of the broadcast `device_rx` began with, and the one that is next. -/
  subscribed : ℕ
  next : ℕ
  /-- The bytes the client was sent. -/
  written : Bytes

namespace Connection

def new (subscribed : ℕ) : Connection :=
  ⟨.selecting,.new .newServer,false,false,subscribed,subscribed,[]⟩

/-- `device_rx.recv()`. -/
def recv (retain : ℕ) (broadcast : List Bytes) (sender : Bool) (conn : Connection) :
    Option Connection :=
  if conn.turn ≠ .selecting then none
  else if conn.next + retain < broadcast.length then some { conn with turn := .closed }
  else match broadcast[conn.next]? with
    | some frame => some { conn with turn := .sending frame, next := conn.next+1 }
    | none => if sender then none else some { conn with turn := .closed }

/-- The socket takes some of the bytes that are left. -/
def write (n : ℕ) (conn : Connection) : Option Connection :=
  match conn.turn with
  | .sending rest =>
    if n ≤ rest.length then
      some { conn with
        turn := if rest.drop n = [] then .selecting else .sending (rest.drop n)
        written := conn.written ++ rest.take n }
    else none
  | _ => none

def writeError (conn : Connection) : Option Connection :=
  match conn.turn with
  | .sending _ => some { conn with turn := .closed }
  | _ => none

/-- A read of the socket; no bytes are the end of the stream. -/
def read (chunk : Bytes) (conn : Connection) : Option Connection :=
  if conn.turn = .selecting ∧ conn.isReadable = false then
    some { conn with
      remote := conn.remote.feed chunk
      isReadable := true
      eof := decide (chunk = []) }
  else none

def readError (conn : Connection) : Option Connection :=
  if conn.turn = .selecting ∧ conn.isReadable = false then some { conn with turn := .closed }
  else none

/-- `remote.next()` calls the decoder; a frame is for the device. -/
def poll (conn : Connection) : Option (Connection × Option Bytes) :=
  if conn.turn = .selecting ∧ conn.isReadable = true then
    match Codec.decode conn.remote.state conn.remote.buffer with
    | .error _ => some ({ conn with turn := .closed },none)
    | .ok (state,buffer,item) =>
      let remote := { conn.remote with
        state := state, buffer := buffer, given := conn.remote.given ++ item.toList }
      match item with
      | some frame => some ({ conn with remote := remote, turn := .queued },some frame)
      | none =>
        -- at the end of the stream `remote` ends, or fails on a frame that is cut
        some ({ conn with
          remote := remote
          isReadable := false
          turn := if conn.eof then .closed else .selecting },none)
  else none

/-- `device_tx.send` returns. -/
def flushed (conn : Connection) : Option Connection :=
  if conn.turn = .queued then some { conn with turn := .selecting } else none

end Connection

section
variable (ι : Type)

inductive TxTask
  | receiving
  | sending (entry : ι × Bytes)
  | ended
  deriving DecidableEq

structure State where
  serving : Bool
  rxReading : Bool
  txTask : TxTask ι
  /-- The handles of the tasks whose end `serve` was told of. -/
  rxJoined : Bool
  txJoined : Bool
  /-- All frames that were broadcast, and the one `serve` itself gets next. -/
  broadcast : List Bytes
  streamRx : ℕ
  connections : ι → Option Connection
  /-- The frames in the channel to the device, and the senders that wait for room. -/
  deviceTx : List (ι × Bytes)
  parked : List ι
  /-- What the device took. -/
  sink : List (ι × Bytes)

inductive Label
  | accept (c : ι)
  | acceptError
  | frame (item : Except MiniDSPError Bytes)
  | streamEnd
  | recv (c : ι)
  | write (c : ι) (n : ℕ)
  | writeError (c : ι)
  | read (c : ι) (chunk : Bytes)
  | readError (c : ι)
  | poll (c : ι)
  | flushed (c : ι)
  | takeFrame
  | sendFrame
  | sendError
  | streamRecv
  | joinRx
  | joinTx
  /-- The tasks are aborted when `serve` is gone. -/
  | abortRx
  | abortTx

end

/-- How many frames wait in the channel before its senders do, and how many the broadcast
retains. -/
structure Capacity where
  mpsc : ℕ
  broadcast : ℕ

def start (ι : Type) : State ι :=
  ⟨true,true,.receiving,false,false,[],0,fun _ => none,[],[],[]⟩

section
variable {ι : Type} [DecidableEq ι] (cap : Capacity) (s : State ι)

def State.set (c : ι) (conn : Connection) : State ι :=
  { s with connections := Function.update s.connections c (some conn) }

@[simp] theorem State.set_self (c : ι) (conn : Connection) :
    (s.set c conn).connections c = some conn := Function.update_self ..

theorem State.set_of_ne {c c' : ι} (h : c' ≠ c) (conn : Connection) :
    (s.set c conn).connections c' = s.connections c' := Function.update_of_ne h ..

def State.onConnection (c : ι) (f : Connection → Option Connection) : Option (State ι) :=
  (s.connections c).bind fun conn => (f conn).map (s.set c)

/-- The task that owns the receiver of the channel ends. -/
def State.dropReceiver : State ι := { s with txTask := .ended, deviceTx := [], parked := [] }

/-- `start_send` of the client's sender, which is parked when there is no room behind it. -/
def State.push (c : ι) (frame : Bytes) : State ι :=
  { s with
    deviceTx := s.deviceTx ++ [(c,frame)]
    parked := if cap.mpsc < s.deviceTx.length+1 then s.parked ++ [c] else s.parked }

/-- `serve` gets the first frame it has not had, and gives up when it lags. -/
def State.streamRecv : Option (State ι) :=
  if s.streamRx + cap.broadcast < s.broadcast.length then some { s with serving := false }
  else if s.streamRx < s.broadcast.length then some { s with streamRx := s.streamRx+1 }
  else none

def State.poll (c : ι) : Option (State ι) :=
  (s.connections c).bind fun conn => conn.poll.map fun
    | (conn,none) => s.set c conn
    | (conn,some frame) =>
      if s.txTask = .ended then s.set c { conn with turn := .closed }
      else (s.set c conn).push cap c frame

def step : Label ι → Option (State ι)
  | .accept c =>
    if s.serving ∧ s.connections c = none then some (s.set c (.new s.broadcast.length)) else none
  | .acceptError => if s.serving then some { s with serving := false } else none
  | .frame item =>
    if s.rxReading then some { s with broadcast := s.broadcast ++ received item } else none
  | .streamEnd => if s.rxReading then some { s with rxReading := false } else none
  | .recv c =>
    s.onConnection c (Connection.recv cap.broadcast s.broadcast (s.serving || s.rxReading))
  | .write c n => s.onConnection c (Connection.write n)
  | .writeError c => s.onConnection c Connection.writeError
  | .read c chunk => s.onConnection c (Connection.read chunk)
  | .readError c => s.onConnection c Connection.readError
  | .poll c => s.poll cap c
  | .flushed c => if c ∈ s.parked then none else s.onConnection c Connection.flushed
  | .takeFrame =>
    match s.txTask,s.deviceTx with
    | .receiving,entry :: rest =>
      some { s with txTask := .sending entry, deviceTx := rest, parked := s.parked.tail }
    | _,_ => none
  | .sendFrame =>
    match s.txTask with
    | .sending entry => some { s with txTask := .receiving, sink := s.sink ++ [entry] }
    | _ => none
  | .sendError =>
    match s.txTask with
    | .sending _ => some s.dropReceiver
    | _ => none
  | .streamRecv => if s.serving then s.streamRecv cap else none
  | .joinRx =>
    -- a handle that is polled after it was ready panics
    if s.serving ∧ ¬s.rxReading then
      some { s with serving := !s.rxJoined, rxJoined := true }
    else none
  | .joinTx =>
    if s.serving ∧ s.txTask = .ended then
      some { s with serving := !s.txJoined, txJoined := true }
    else none
  | .abortRx => if s.serving then none else some { s with rxReading := false }
  | .abortTx => if s.serving then none else some s.dropReceiver

end

end TcpServer
end Minidsp
