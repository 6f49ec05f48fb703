import Minidsp.ControlFlow
import Minidsp.Transition

/-! The task that keeps the integration connected to one device of the daemon: session after
session, as long as the integration is running. -/
namespace Minidsp

open Transition ControlFlow Stmt

namespace WsLoop

/-- What the `except` clauses tell apart: `CancelledError`, which is no `Exception`, and
`TimeoutError` among those that are. -/
inductive Exc
  | cancelled
  | timeout
  | exception
  deriving DecidableEq, Repr

structure Callback where
  id : ℕ
  raises : Option Exc
  deriving DecidableEq, Repr

/-- The subscribed callbacks in the order of a walk over the set. -/
structure Listeners where
  calls : List Callback
  nodup : (calls.map (·.id)).Nodup

/-- A message of a websocket; of a text, what loading and applying it comes to. -/
inductive WSMsg
  | text (update : Except Exc Listeners)
  | closed
  | error
  | other

/-- What the environment does in one turn of the loop: what connecting raises and who is told
then; the first message, or what the wait for it raises; the messages after it and what their
iterator raises at the end; what closing raises; and who is told when the session is over. -/
structure Turn where
  connect : Option Exc
  onConnect : Listeners
  first : Except Exc WSMsg
  messages : List WSMsg
  stop : Option Exc
  close : Option Exc
  sleepCancelled : Bool
  listeners : Listeners

inductive Event
  | attempt
  | connected (available : Bool)
  | called (listener : ℕ) (available : Bool)
  | raised (e : Exc)
  deriving DecidableEq, Repr

/-- `_ws_connected` of the device, and what has happened in the turn. -/
structure World where
  connected : Bool
  events : List Event

def World.log (w : World) (e : Event) : World := { w with events := w.events ++ [e] }

abbrev Stmt := ControlFlow.Stmt World Exc

def call : Option Exc → Stmt
  | none => noop
  | some e => fun w => (.raised e,w.log (.raised e))

def setConnected (b : Bool) : Stmt := fun w =>
  (.next,{ w with connected := b }.log (.connected b))

def isDeviceAvailable (w : World) : Bool := w.connected

def fireListeners (l : Listeners) : Stmt :=
  forEach (fun cb w => call cb.raises (w.log (.called cb.id (isDeviceAvailable w)))) noop l.calls

def applyUpdate : Except Exc Listeners → Stmt
  | .error e => call (some e)
  | .ok l => fireListeners l

/-- The branches on the type of a message, the same for the first and for the others. -/
def handle : WSMsg → Stmt
  | .text update => applyUpdate update
  | .closed | .error => exit .brk
  | .other => noop

/-- `break` in the handler of the timeout, and in the branches on the first message. -/
def receiveFirst : Except Exc WSMsg → Stmt
  | .error e => tryExcept (call (some e)) fun
    | .timeout => some (exit .brk)
    | _ => none
  | .ok first => handle first

/-- The body of the `async with`. -/
def body (t : Turn) : Stmt :=
  seq (setConnected true) <|
  seq (fireListeners t.onConnect) <|
  seq (receiveFirst t.first) <|
  forEach handle (call t.stop) t.messages

def session (t : Turn) : Stmt :=
  seq (fun w => call t.connect (w.log .attempt)) <|
  withFinally (body t) (call t.close)

/-- The outer `except` clauses. -/
def recover (t : Turn) : Exc → Option Stmt
  | .cancelled => some (seq (setConnected false) (seq (fireListeners t.listeners) (exit .ret)))
  | .timeout | .exception => some noop

/-- The first `try` of a turn; `opened` is whether there is a client session. -/
def connection (t : Turn) (opened : Bool) : Stmt :=
  withFinally (tryExcept (if opened then session t else call (some .exception)) (recover t))
    (setConnected false)

/-- The second `try`, around the sleep. -/
def pause (t : Turn) : Stmt :=
  tryExcept (call (if t.sleepCancelled then some .cancelled else none)) fun
    | .cancelled => some (seq (fireListeners t.listeners) (exit .ret))
    | _ => none

/-- The body of the `while` loop. -/
def turn (t : Turn) (opened : Bool) : Stmt :=
  seq (connection t opened) <|
  seq (pause t) <|
  fireListeners t.listeners

/-- The integration, with the task of one device; `exit` is how the task left its loop. -/
structure State where
  running : Bool
  session : Bool
  connected : Bool
  exit : Option (Exit Exc)

/-- After `async_setup`. -/
def init : State := ⟨true,true,false,none⟩

/-- The two halves of `async_shutdown` are an `await` apart. -/
inductive Label
  | turn (t : Turn)
  | shutdown
  | closeSession

/-- The loop is left when its condition is false, as by a `break`. -/
def State.turn (s : State) (t : Turn) : Exit Exc × World :=
  if s.running then WsLoop.turn t s.session ⟨s.connected,[]⟩ else (.brk,⟨s.connected,[]⟩)

def step (s : State) : Label → Option State
  | .turn t =>
    if s.exit = none then
      let (x,w) := s.turn t
      some { s with connected := w.connected, exit := if x = .next then none else some x }
    else none
  | .shutdown => some { s with running := false }
  | .closeSession => if s.running then none else some { s with session := false }

/-! What the integration relies on, and when it can. -/

def Cancelled (w : World) : Prop := .raised .cancelled ∈ w.events

instance (w : World) : Decidable (Cancelled w) := inferInstanceAs (Decidable (_ ∈ _))

/-- The turn tries to connect, the task is not at its end unless it is cancelled, and after the
device was marked as available every listener is called with the device unavailable. -/
structure KeepsUp (s : State) (t : Turn) : Prop where
  attempts : .attempt ∈ (s.turn t).2.events
  resumes : ¬Cancelled (s.turn t).2 → ∀ s', step s (.turn t) = some s' → s'.exit = none
  informs : ∀ pre post, (s.turn t).2.events = pre ++ .connected true :: post →
    ∀ cb ∈ t.listeners.calls, .called cb.id false ∈ post

def NeverGivesUp (s : State) : Label → Prop
  | .turn t => s.running → s.exit = none → KeepsUp s t
  | _ => True

def Listeners.Calm (l : Listeners) : Prop := ∀ cb ∈ l.calls, cb.raises = none

def Listeners.AllCalled (l : Listeners) : Prop := ∀ cb ∈ l.calls.dropLast, cb.raises = none

/-- The session comes to one of the two `break` statements that are not in the `async for`. -/
structure Turn.CutShort (t : Turn) : Prop where
  connect : t.connect = none
  onConnect : t.onConnect.Calm
  first : t.first = .error .timeout ∨ t.first = .ok .closed ∨ t.first = .ok .error
  close : t.close = none

/-- A session that is not cut short, and listeners that do not raise after it. In a turn that is
cancelled the last of them may, and all of them if there was no session. -/
structure Unhindered (s : State) (t : Turn) : Prop where
  uncancelled : ¬Cancelled (s.turn t).2 → ¬t.CutShort ∧ t.listeners.Calm
  cancelled : Cancelled (s.turn t).2 → t.connect = none → t.listeners.AllCalled

def GoesOn (s : State) : Label → Prop
  | .turn t => s.running → s.exit = none → Unhindered s t
  | _ => True

/-! Calling the listeners. -/

def raised : List Callback → Exit Exc
  | [] => .next
  | cb :: cbs =>
    match cb.raises with
    | none => raised cbs
    | some e => .raised e

def called (available : Bool) : List Callback → List Event
  | [] => []
  | cb :: cbs => .called cb.id available ::
    match cb.raises with
    | none => called available cbs
    | some e => [.raised e]

theorem fireListeners_eq (l : Listeners) (w : World) : fireListeners l w =
    (raised l.calls,{ w with events := w.events ++ called w.connected l.calls }) := by
  unfold fireListeners
  generalize l.calls = cbs
  induction cbs generalizing w with
  | nil => simp [forEach,noop,raised,called]
  | cons cb cbs ih =>
    cases hraises : cb.raises with
    | none =>
      simp [forEach,call,noop,World.log,isDeviceAvailable,raised,called,hraises] at ih ⊢
      simp [ih]
    | some e =>
      simp [forEach,call,World.log,isDeviceAvailable,raised,called,hraises]

theorem Listeners.calm_iff {l : Listeners} : l.Calm ↔ raised l.calls = .next := by
  unfold Calm
  induction l.calls with
  | nil => simp [raised]
  | cons cb cbs ih => cases hraises : cb.raises <;> simp [raised,hraises,ih]

theorem raised_cases (cbs : List Callback) :
    raised cbs = .next ∨ ∃ e, raised cbs = .raised e ∧ ∀ b, .raised e ∈ called b cbs := by
  induction cbs with
  | nil => exact Or.inl rfl
  | cons cb cbs ih =>
    cases hraises : cb.raises with
    | none => simpa [raised,called,hraises] using ih
    | some e => simp [raised,called,hraises]

theorem mem_called_of_calm {cbs : List Callback} (h : raised cbs = .next) {b : Bool} {e : Event}
    (he : e ∈ called b cbs) : ∃ cb ∈ cbs, e = .called cb.id b := by
  induction cbs with
  | nil => cases he
  | cons cb cbs ih =>
    cases hraises : cb.raises with
    | none =>
      simp only [raised,called,hraises,List.mem_cons] at h he ⊢
      rcases he with rfl | he
      · exact ⟨cb,Or.inl rfl,rfl⟩
      · obtain ⟨cb',hmem,rfl⟩ := ih h he
        exact ⟨cb',Or.inr hmem,rfl⟩
    | some e' => simp [raised,hraises] at h

theorem Listeners.allCalled_iff (l : Listeners) (b : Bool) :
    (∀ cb ∈ l.calls, .called cb.id b ∈ called b l.calls) ↔ l.AllCalled := by
  unfold AllCalled
  have hnodup := l.nodup
  generalize l.calls = cbs at hnodup ⊢
  induction cbs with
  | nil => simp
  | cons cb cbs ih =>
    obtain ⟨hid,hnodup⟩ := List.nodup_cons.mp hnodup
    have hne : ∀ cb' ∈ cbs, cb'.id ≠ cb.id := fun cb' hcb' h =>
      hid (List.mem_map.mpr ⟨cb',hcb',h⟩)
    cases cbs with
    | nil => simp [called]
    | cons cb' cbs =>
      rw [List.dropLast_cons_of_ne_nil (List.cons_ne_nil _ _)]
      cases hraises : cb.raises with
      | none =>
        refine List.forall_mem_cons.trans (Iff.trans ?_ List.forall_mem_cons.symm)
        refine (and_congr (by simp [called,hraises]) ?_).trans (and_congr_right fun _ => ih hnodup)
        refine forall₂_congr fun c hc => ?_
        simp [called,hraises,hne c hc]
      | some e =>
        simp [called,hraises,hne cb' List.mem_cons_self]

/-! What a session does. -/

def Quiet : Event → Prop
  | .called _ available => available = true
  | .connected available => available = false
  | _ => True

/-- While the session lasts; what it is left by has been raised, and nothing else that would be a
cancellation. -/
structure Online (base : List Event) (x : Exit Exc) (w : World) : Prop where
  connected : w.connected = true
  ne_ret : x ≠ .ret
  events : ∃ es, w.events = base ++ es ∧ (∀ e ∈ es, Quiet e) ∧
    (∀ e, x = .raised e → .raised e ∈ es) ∧
    ((∀ e, x ≠ .raised e) → .raised .cancelled ∉ es)

variable {base : List Event}

theorem Online.append {x x' : Exit Exc} {w : World} (h : Online base x' w) {es : List Event}
    (hx' : (∀ e, x ≠ .raised e) → ∀ e, x' ≠ .raised e) (hret : x ≠ .ret)
    (hquiet : ∀ e ∈ es, Quiet e) (hraised : ∀ e, x = .raised e → .raised e ∈ es)
    (hnot : (∀ e, x ≠ .raised e) → .raised .cancelled ∉ es) :
    Online base x { w with events := w.events ++ es } := by
  obtain ⟨before,hevents,hbefore,-,hnone⟩ := h.events
  refine ⟨h.connected,hret,before ++ es,?_,fun e he => ?_,fun e he => ?_,fun he => ?_⟩
  · rw [hevents,List.append_assoc]
  · exact (List.mem_append.mp he).elim (hbefore e) (hquiet e)
  · exact List.mem_append_right _ (hraised e he)
  · simpa [List.mem_append] using ⟨hnone (hx' he),hnot he⟩

theorem call_online (r : Option Exc) : Triple (Online base .next) (call r) (Online base) := by
  intro w h
  cases r with
  | none => exact h
  | some e =>
    refine h.append (fun _ _ => nofun) nofun (by simp [Quiet]) (fun e' he => ?_)
      (fun he => absurd rfl (he e))
    simp [Exit.raised.inj he]

theorem quiet_called (cbs : List Callback) : ∀ e ∈ called true cbs, Quiet e := by
  induction cbs with
  | nil => exact nofun
  | cons cb cbs ih =>
    refine List.forall_mem_cons.mpr ⟨rfl,?_⟩
    cases cb.raises with
    | none => exact ih
    | some e => exact List.forall_mem_singleton.mpr trivial

theorem fireListeners_online (l : Listeners) :
    Triple (Online base .next) (fireListeners l) (Online base) := by
  intro w h
  have hquiet : ∀ e ∈ called w.connected l.calls, Quiet e := h.connected ▸ quiet_called _
  rw [fireListeners_eq]
  rcases raised_cases l.calls with hnext | ⟨e,hraised,hmem⟩
  · rw [hnext]
    change Online base .next _
    refine h.append (fun _ _ => nofun) nofun hquiet nofun fun _ he => ?_
    obtain ⟨cb,-,hcb⟩ := mem_called_of_calm hnext he
    cases hcb
  · rw [hraised]
    change Online base (.raised e) _
    refine h.append (fun _ _ => nofun) nofun hquiet (fun e' he => ?_)
      fun he => absurd rfl (he e)
    exact Exit.raised.inj he ▸ hmem w.connected

theorem exit_online : Triple (Online base .next) (exit .brk) (Online base) :=
  fun _ h =>
    ⟨h.connected,nofun,h.events.imp fun _ he => ⟨he.1,he.2.1,nofun,fun _ => he.2.2.2 nofun⟩⟩

theorem handle_online (msg : WSMsg) : Triple (Online base .next) (handle msg) (Online base) := by
  rcases msg with (e | l) | _ | _ | _
  · exact call_online (some e)
  · exact fireListeners_online l
  · exact exit_online
  · exact exit_online
  · exact fun _ h => h

theorem receiveFirst_online (first : Except Exc WSMsg) :
    Triple (Online base .next) (receiveFirst first) (Online base) := by
  rcases first with (_ | _ | _) | msg
  · exact call_online (some .cancelled)
  · exact fun w h => h.append (fun _ _ => nofun) nofun (by simp [Quiet]) nofun (by simp)
  · exact call_online (some .exception)
  · exact handle_online msg

theorem messages_online (t : Turn) : Triple (Online base .next)
    (forEach handle (call t.stop) t.messages) (Online base) := by
  refine Triple.forEach (fun msg _ => handle_online msg) (fun _ h => h) (fun w h => ?_)
    (fun _ _ _ _ h => h) (call_online t.stop)
  exact ⟨h.connected,nofun,h.events.imp fun _ he => ⟨he.1,he.2.1,nofun,fun _ => he.2.2.2 nofun⟩⟩

def opening : List Event := [.attempt,.connected true]

theorem body_online (t : Turn) :
    Triple (fun w => w.events = [.attempt]) (body t) (Online opening) := by
  refine Triple.andThen (fun w hw => ?_) <| (fireListeners_online _).andThen <|
    (receiveFirst_online _).andThen (messages_online t)
  exact ⟨rfl,nofun,[],by simp [setConnected,World.log,opening,hw],nofun,nofun,fun _ => nofun⟩

theorem session_eq {t : Turn} (hconnect : t.connect = none) (w : World) :
    session t w = withFinally (body t) (call t.close) (w.log .attempt) := by
  simp [session,seq,call,noop,hconnect]

theorem session_online {t : Turn} (hconnect : t.connect = none) {w : World} (hw : w.events = []) :
    Online opening (session t w).1 (session t w).2 := by
  rw [session_eq hconnect]
  refine Triple.withFinally (S := fun x y => Online opening (if y = .next then x else y))
    (body_online t) (fun x w h => ?_) (fun x w h => h) (fun x y w hy h => ?_) _
    (by simp [World.log,hw])
  · cases hclose : t.close with
    | none => exact h
    | some e =>
      refine h.append (fun he => absurd rfl (he e)) nofun (by simp [Quiet]) (fun e' he => ?_)
        fun he => absurd rfl (he e)
      simp [Exit.raised.inj he]
  · rwa [if_neg hy] at h

theorem call_ne_brk (r : Option Exc) (w : World) : (call r w).1 ≠ .brk := by
  cases r <;> exact nofun

theorem raised_ne_brk (cbs : List Callback) : raised cbs ≠ .brk := by
  rcases raised_cases cbs with h | ⟨e,h,-⟩ <;> rw [h] <;> exact nofun

theorem receiveFirst_brk_iff (first : Except Exc WSMsg) (w : World) :
    (receiveFirst first w).1 = .brk ↔
      first = .error .timeout ∨ first = .ok .closed ∨ first = .ok .error := by
  rcases first with (_ | _ | _) | ((e | l) | _ | _ | _)
  case ok.text.ok => simp [receiveFirst,handle,applyUpdate,fireListeners_eq,raised_ne_brk]
  all_goals simp [receiveFirst,handle,applyUpdate,call,tryExcept,exit,noop]

theorem call_next_iff {r : Option Exc} {w : World} : (call r w).1 = .next ↔ r = none := by
  cases r <;> simp [call,noop]

theorem body_brk_iff (t : Turn) (w : World) : (body t w).1 = .brk ↔ t.onConnect.Calm ∧
    (t.first = .error .timeout ∨ t.first = .ok .closed ∨ t.first = .ok .error) := by
  have hloop : ∀ w, (forEach handle (call t.stop) t.messages w).1 ≠ .brk :=
    forEach_ne_brk (call_ne_brk t.stop) t.messages
  have hbrk : (Exit.brk : Exit Exc) ≠ .next := nofun
  unfold body
  rw [seq_exit_iff hbrk,seq_exit_iff hbrk,seq_exit_iff hbrk,fireListeners_eq,
    receiveFirst_brk_iff,Listeners.calm_iff]
  simp [setConnected,raised_ne_brk,hloop]

/-- The `break` statements that leave the session leave the `while` loop. -/
theorem session_brk_iff (t : Turn) (w : World) : (session t w).1 = .brk ↔ t.CutShort := by
  have hbrk : (Exit.brk : Exit Exc) ≠ .next := nofun
  unfold session
  rw [seq_exit_iff hbrk,withFinally_exit_iff (call_ne_brk _ _),body_brk_iff,call_next_iff,
    call_next_iff]
  constructor
  · rintro (h | ⟨hconnect,⟨honConnect,hfirst⟩,hclose⟩)
    · exact absurd h (call_ne_brk _ _)
    · exact ⟨hconnect,honConnect,hfirst,hclose⟩
  · exact fun h => Or.inr ⟨h.connect,⟨h.onConnect,h.first⟩,h.close⟩

/-! What a turn does. -/

inductive Course (t : Turn) (x : Exit Exc) (w : World) : Prop
  | refused (h : t.connect ≠ none) (hevents : .connected true ∉ w.events)
      (hexit : ¬Cancelled w → x = raised t.listeners.calls) : Course t x w
  | cutShort (h : t.CutShort) (hexit : x = .brk) (hcancelled : ¬Cancelled w) : Course t x w
  | told (h : t.connect = none) (hwhole : ¬t.CutShort) (before after : List Event)
      (hevents : w.events =
        opening ++ (before ++ (called false t.listeners.calls ++ after)))
      (hbefore : ∀ e ∈ before, Quiet e) (hafter : ∀ e ∈ after, Quiet e)
      (hexit : ¬Cancelled w → x = raised t.listeners.calls) : Course t x w

theorem pause_spec (t : Turn) (w : World) : ∃ es,
    (seq (pause t) (fireListeners t.listeners) w).2 =
      { w with events := w.events ++ es ++ called w.connected t.listeners.calls } ∧
    (∀ e ∈ es, Quiet e) ∧ (.raised .cancelled ∉ es →
      (seq (pause t) (fireListeners t.listeners) w).1 = raised t.listeners.calls) := by
  cases hsleep : t.sleepCancelled with
  | false =>
    refine ⟨[],?_,nofun,fun _ => ?_⟩ <;>
      simp [seq,pause,tryExcept,call,noop,hsleep,fireListeners_eq]
  | true =>
    refine ⟨[.raised .cancelled],?_,by simp [Quiet],fun h => absurd List.mem_cons_self h⟩
    rcases raised_cases t.listeners.calls with h | ⟨e,h,-⟩ <;>
      simp [seq,pause,tryExcept,call,exit,World.log,hsleep,fireListeners_eq,h]

theorem connection_eq (t : Turn) (w : World) : connection t true w =
    ((tryExcept (session t) (recover t) w).1,
      ⟨false,(tryExcept (session t) (recover t) w).2.events ++ [.connected false]⟩) :=
  withFinally_of_next rfl

theorem turn_of_brk {t : Turn} {w w' : World} (h : session t w = (.brk,w')) :
    turn t true w = (.brk,⟨false,w'.events ++ [.connected false]⟩) := by
  have hconnection : connection t true w = (.brk,⟨false,w'.events ++ [.connected false]⟩) := by
    rw [connection_eq,tryExcept_of_ne_raised (by rw [h]; exact fun _ => nofun),h]
  rw [turn,seq_of_ne_next (by rw [hconnection]; exact nofun),hconnection]

theorem recover_cancelled (t : Turn) (w : World) : ∃ x, x ≠ .next ∧
    seq (setConnected false) (seq (fireListeners t.listeners) (exit .ret)) w =
      (x,⟨false,w.events ++ (.connected false :: called false t.listeners.calls)⟩) := by
  have hfired : fireListeners t.listeners ⟨false,w.events ++ [.connected false]⟩ =
      (raised t.listeners.calls,
        ⟨false,w.events ++ (.connected false :: called false t.listeners.calls)⟩) := by
    rw [fireListeners_eq]
    simp only [List.append_assoc,List.singleton_append]
  have hset : setConnected false w = (.next,⟨false,w.events ++ [.connected false]⟩) := rfl
  rw [seq_of_next hset]
  rcases raised_cases t.listeners.calls with hnext | ⟨e,hraised,-⟩
  · rw [hnext] at hfired
    exact ⟨.ret,nofun,seq_of_next hfired⟩
  · rw [hraised] at hfired
    exact ⟨.raised e,nofun,(seq_of_ne_next (by rw [hfired]; exact nofun)).trans hfired⟩

theorem turn_of_ne_brk {t : Turn} {w w' : World} {x : Exit Exc} (h : session t w = (x,w'))
    (hbrk : x ≠ .brk) (hret : x ≠ .ret) : ∃ before after,
      (turn t true w).2.events =
        w'.events ++ (before ++ (called false t.listeners.calls ++ after)) ∧
      (∀ e ∈ before, Quiet e) ∧ (∀ e ∈ after, Quiet e) ∧
      (x ≠ .raised .cancelled → .raised .cancelled ∉ before →
        (turn t true w).1 = raised t.listeners.calls) := by
  by_cases hx : x = .raised .cancelled
  · subst hx
    obtain ⟨y,hy,hrecover⟩ := recover_cancelled t w'
    have hconnection := connection_eq t w
    rw [tryExcept_of_raised h rfl,hrecover] at hconnection
    rw [turn,seq_of_ne_next (by rw [hconnection]; exact hy),hconnection]
    exact ⟨[.connected false],[.connected false],by simp,by simp [Quiet],by simp [Quiet],
      fun hx => absurd rfl hx⟩
  · have hrecovered : tryExcept (session t) (recover t) w = (.next,w') := by
      cases x with
      | next => exact (tryExcept_of_ne_raised (by rw [h]; exact fun _ => nofun)).trans h
      | brk => exact absurd rfl hbrk
      | ret => exact absurd rfl hret
      | raised e =>
        have hhandler : recover t e = some noop := by
          cases e with
          | cancelled => exact absurd rfl hx
          | timeout | exception => rfl
        exact tryExcept_of_raised h hhandler
    have hconnection : connection t true w = (.next,⟨false,w'.events ++ [.connected false]⟩) := by
      rw [connection_eq,hrecovered]
    obtain ⟨es,hevents,hquiet,hexit⟩ := pause_spec t ⟨false,w'.events ++ [.connected false]⟩
    rw [turn,seq_of_next hconnection,hevents]
    refine ⟨.connected false :: es,[],by simp,?_,nofun,fun _ hnot => hexit fun he => ?_⟩
    · exact List.forall_mem_cons.mpr ⟨rfl,hquiet⟩
    · exact hnot (List.mem_cons_of_mem _ he)

theorem Quiet.ne_connected {e : Event} (h : Quiet e) : e ≠ .connected true := by
  rintro rfl
  cases h

theorem connected_not_mem_called {b b' : Bool} (cbs : List Callback) :
    .connected b' ∉ called b cbs := by
  induction cbs with
  | nil => exact nofun
  | cons cb cbs ih => cases hraises : cb.raises <;> simp [called,hraises,ih]

theorem not_marked {before after : List Event} (hbefore : ∀ e ∈ before, Quiet e)
    (hafter : ∀ e ∈ after, Quiet e) (cbs : List Callback) :
    .connected true ∉ before ++ (called false cbs ++ after) := by
  simp only [List.mem_append,not_or]
  exact ⟨fun h => (hbefore _ h).ne_connected rfl,connected_not_mem_called cbs,
    fun h => (hafter _ h).ne_connected rfl⟩

/-- Only one of the three courses ends the loop of a task that is not cancelled and whose
listeners do not raise. -/
theorem turn_course (t : Turn) (c : Bool) : .attempt ∈ (turn t true ⟨c,[]⟩).2.events ∧
    Course t (turn t true ⟨c,[]⟩).1 (turn t true ⟨c,[]⟩).2 := by
  cases hconnect : t.connect with
  | some e =>
    have hsession : session t ⟨c,[]⟩ = (.raised e,⟨c,[.attempt,.raised e]⟩) := by
      simp [session,seq,call,World.log,hconnect]
    obtain ⟨before,after,hevents,hbefore,hafter,hexit⟩ :=
      turn_of_ne_brk hsession (by simp) (by simp)
    refine ⟨by simp [hevents],.refused (by simp [hconnect]) ?_ fun hnot => ?_⟩
    · rw [hevents]
      simpa using not_marked hbefore hafter t.listeners.calls
    · simp only [Cancelled,hevents,List.mem_append,List.mem_cons,not_or] at hnot
      exact hexit (fun he => hnot.1.2.1 (congrArg _ (Exit.raised.inj he).symm)) hnot.2.1
  | none =>
    have honline := session_online hconnect (w := ⟨c,[]⟩) rfl
    cases hsession : session t ⟨c,[]⟩ with
    | mk x w =>
      rw [hsession] at honline
      obtain ⟨mid,hmid,hquiet,hraised,hnone⟩ := honline.events
      by_cases hx : x = .brk
      · subst hx
        have hcut : t.CutShort := (session_brk_iff t ⟨c,[]⟩).mp (congrArg Prod.fst hsession)
        rw [turn_of_brk hsession,hmid]
        refine ⟨by simp [opening],.cutShort hcut rfl fun h => ?_⟩
        have hcancelled : .raised .cancelled ∈ mid := by simpa [Cancelled,opening] using h
        exact hnone (by simp) hcancelled
      · have hwhole : ¬t.CutShort := fun h =>
          hx ((congrArg Prod.fst hsession).symm.trans ((session_brk_iff t ⟨c,[]⟩).mpr h))
        obtain ⟨before,after,hevents,hbefore,hafter,hexit⟩ :=
          turn_of_ne_brk hsession hx honline.ne_ret
        rw [hmid,List.append_assoc] at hevents
        refine ⟨by simp [hevents,opening],.told hconnect hwhole (mid ++ before) after
          (by rw [hevents,List.append_assoc]) ?_ hafter fun hnot => ?_⟩
        · exact fun e he => (List.mem_append.mp he).elim (hquiet e) (hbefore e)
        · simp only [Cancelled,hevents,List.mem_append,not_or] at hnot
          exact hexit (fun he => hnot.2.1 (hraised _ he)) hnot.2.2.1

/-! Runs. -/

def State.Opened (s : State) : Prop := s.running = true → s.session = true

theorem step_turn {s : State} (h : s.exit = none) (t : Turn) : step s (.turn t) =
    some { s with
      connected := (s.turn t).2.connected
      exit := if (s.turn t).1 = .next then none else some (s.turn t).1 } :=
  if_pos h

theorem step_opened {s s' : State} {l : Label} (hs : s.Opened) (h : step s l = some s') :
    s'.Opened := by
  cases l with
  | turn t =>
    by_cases hexit : s.exit = none
    · obtain rfl := Option.some.inj ((step_turn hexit t).symm.trans h)
      exact hs
    · cases (if_neg hexit).symm.trans h
  | shutdown =>
    obtain rfl := Option.some.inj h
    exact nofun
  | closeSession =>
    simp only [step] at h
    split_ifs at h with hrunning
    obtain rfl := Option.some.inj h
    exact fun h => absurd h hrunning

theorem Listeners.Calm.allCalled {l : Listeners} (h : l.Calm) : l.AllCalled :=
  fun cb hcb => h cb (List.dropLast_subset _ hcb)

theorem informs_iff {es : List Event} (hes : .connected true ∉ es) {P : List Event → Prop} :
    (∀ pre post, opening ++ es = pre ++ .connected true :: post → P post) ↔ P es := by
  constructor
  · exact fun h => h [.attempt] es rfl
  · intro h pre post heq
    match pre, heq with
    | [], heq => cases (List.cons.inj heq).1
    | [_], heq => exact (List.cons.inj (List.cons.inj heq).2).2 ▸ h
    | _ :: _ :: pre, heq =>
      have htail : es = pre ++ .connected true :: post := (List.cons.inj (List.cons.inj heq).2).2
      exact absurd (htail ▸ List.mem_append_right _ List.mem_cons_self) hes

theorem told_iff {l : Listeners} {before after : List Event} (hbefore : ∀ e ∈ before, Quiet e)
    (hafter : ∀ e ∈ after, Quiet e) :
    (∀ cb ∈ l.calls, .called cb.id false ∈ before ++ (called false l.calls ++ after)) ↔
      l.AllCalled := by
  rw [← l.allCalled_iff false]
  refine forall₂_congr fun cb _ => ?_
  simp only [List.mem_append]
  constructor
  · rintro (h | h | h)
    · exact nomatch hbefore _ h
    · exact h
    · exact nomatch hafter _ h
  · exact fun h => Or.inr (Or.inl h)

theorem resumes_iff {s : State} (h : s.exit = none) (t : Turn) :
    (∀ s', step s (.turn t) = some s' → s'.exit = none) ↔ (s.turn t).1 = .next := by
  rw [step_turn h]
  simp

/-- A turn keeps up if and only if nothing hinders it. -/
theorem keepsUp_iff {s : State} (hs : s.Opened) (hrunning : s.running = true)
    (hlive : s.exit = none) (t : Turn) : KeepsUp s t ↔ Unhindered s t := by
  have hturn : s.turn t = turn t true ⟨s.connected,[]⟩ := by
    rw [State.turn,if_pos hrunning,hs hrunning]
  obtain ⟨hattempt,hcourse⟩ := turn_course t s.connected
  rw [← hturn] at hattempt hcourse
  have hresumes := resumes_iff hlive t
  cases hcourse with
  | refused hconnect hevents hexit =>
    constructor
    · intro h
      refine ⟨fun hnot => ⟨fun hcut => hconnect hcut.connect,?_⟩,fun _ h => absurd h hconnect⟩
      exact Listeners.calm_iff.mpr ((hexit hnot).symm.trans (hresumes.mp (h.resumes hnot)))
    · intro h
      refine ⟨hattempt,fun hnot => ?_,fun pre post heq => ?_⟩
      · exact hresumes.mpr ((hexit hnot).trans (Listeners.calm_iff.mp (h.uncancelled hnot).2))
      · exact absurd (heq ▸ List.mem_append_right _ List.mem_cons_self) hevents
  | cutShort hcut hexit hnot =>
    constructor
    · intro h
      cases hexit.symm.trans (hresumes.mp (h.resumes hnot))
    · exact fun h => absurd hcut (h.uncancelled hnot).1
  | told hconnect hwhole before after hevents hbefore hafter hexit =>
    have hinforms := (informs_iff (not_marked hbefore hafter t.listeners.calls)
      (P := fun post => ∀ cb ∈ t.listeners.calls, .called cb.id false ∈ post)).trans
        (told_iff hbefore hafter)
    rw [← hevents] at hinforms
    constructor
    · intro h
      refine ⟨fun hnot => ⟨hwhole,?_⟩,fun _ _ => hinforms.mp h.informs⟩
      exact Listeners.calm_iff.mpr ((hexit hnot).symm.trans (hresumes.mp (h.resumes hnot)))
    · intro h
      refine ⟨hattempt,fun hnot => ?_,hinforms.mpr ?_⟩
      · exact hresumes.mpr ((hexit hnot).trans (Listeners.calm_iff.mp (h.uncancelled hnot).2))
      · by_cases hcancelled : Cancelled (s.turn t).2
        · exact h.cancelled hcancelled hconnect
        · exact (h.uncancelled hcancelled).2.allCalled

/-- The task never gives up by itself in exactly the runs in which nothing hinders a turn. -/
theorem neverGivesUp_iff (labels : List Label) :
    Along step NeverGivesUp init labels ↔ Along step GoesOn init labels := by
  refine along_congr (I := State.Opened) (fun _ _ _ hs h => step_opened hs h) (fun s l hs => ?_)
    fun _ => rfl
  cases l with
  | turn t =>
    exact imp_congr_right fun hrunning => imp_congr_right fun hexit =>
      keepsUp_iff hs hrunning hexit t
  | shutdown | closeSession => exact Iff.rfl

/-- A session in which nothing arrives for 60 s. -/
def silent : Turn :=
  ⟨none,⟨[⟨0,none⟩],by decide⟩,.error .timeout,[],none,none,false,⟨[⟨0,none⟩],by decide⟩⟩

/-- The `break` after the warning that says reconnecting ends the task. -/
theorem silence_ends_task : ¬∀ labels, Along step NeverGivesUp init labels := by
  intro h
  have hsilent : KeepsUp init silent := (h [.turn silent]).1 rfl rfl
  cases hsilent.resumes (by decide) _ rfl

end WsLoop
end Minidsp
