import Minidsp.Responses

/-! The errors of the transports, and the step from a frame to a response. -/
namespace Minidsp

open Buffer

/-- Payloads that nothing here looks into are kept as text. -/
inductive MiniDSPError
  | hidError (message : String)
  | ioError (message : String)
  | malformedResponse (message : String)
  | invalidSource
  | tooManyCoefficients
  | parseError (e : Packet.ParseError)
  | malformedFilterData
  | transportError (message : String)
  | transportFailure (message : String)
  | transportClosed
  | webSocketError (message : String)
  | concurrencyError
  | internalError (message : String)
  | outOfRange
  | invalidURL
  | protocolError (e : ProtocolError)
  | url2Error (message : String)
  | noSuchPeripheral
  | timeout
  | deviceNotReady
  deriving DecidableEq, Repr

instance : From Packet.ParseError MiniDSPError := ⟨.parseError⟩
instance : From ProtocolError MiniDSPError := ⟨.protocolError⟩

/-- The two levels of the parser: each wraps its error in a constructor of its own. -/
def parseResponse (frame : Bytes) : Exec MiniDSPError Responses := do
  let packet ← Exec.errInto (Exec.ofExcept (Packet.unframe frame))
  Exec.errInto (Responses.fromBytes packet)

/-- The length byte is fine, but the packet behind it is cut short of its fields. -/
def Unreadable (frame : Bytes) : Prop :=
  ∃ packet, Packet.unframe frame = .ok packet ∧ Responses.Truncated packet

theorem parseResponse_unreadable {frame : Bytes} (h : Unreadable frame) :
    ∃ e, parseResponse frame = .error (.error (.protocolError e)) := by
  obtain ⟨packet,hp,hcut⟩ := h
  obtain ⟨e,he⟩ := Responses.fromBytes_truncated hcut
  refine ⟨.decodeError e,?_⟩
  simp only [parseResponse,hp,Exec.ofExcept,Exec.errInto_ok,bind,Except.bind,he,Exec.errInto_error]
  rfl

/-- Every other frame is parsed, or refused by the framing. -/
theorem parseResponse_readable {frame : Bytes} (h : ¬Unreadable frame) :
    (∃ r, parseResponse frame = .ok r) ∨
      ∃ e, parseResponse frame = .error (.error (.parseError e)) := by
  cases hp : Packet.unframe frame with
  | error e =>
    refine Or.inr ⟨e,?_⟩
    simp only [parseResponse,hp,Exec.ofExcept,Exec.errInto_error,bind,Except.bind]
    rfl
  | ok packet =>
    obtain ⟨r,hr⟩ := Responses.fromBytes_whole fun hcut => h ⟨packet,hp,hcut⟩
    refine Or.inl ⟨r,?_⟩
    simp only [parseResponse,hp,Exec.ofExcept,Exec.errInto_ok,bind,Except.bind,hr]

end Minidsp
