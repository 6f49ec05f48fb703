import Minidsp.Report
import Minidsp.Transition

/-! The HID link: a sink that writes one report after the other, each again and again while that
fails, and a thread that reads reports as long as somebody listens. -/
namespace Minidsp
namespace HidStream

open Buffer

section
variable {δ ε : Type} (write : Bytes → δ → Except ε Unit × δ)

structure State (δ ε : Type) where
  device : δ
  /-- The report of a send that was started and not polled. -/
  currentTx : Option Bytes
  written : List (Bytes × Except ε Unit)
  /-- What the polls answered. -/
  answers : List (Except ε Unit)

def start (ε : Type) (d : δ) : State δ ε := ⟨d,none,[],[]⟩

/-- `device.write`. -/
def writeReport (buf : Bytes) (s : State δ ε) : Except ε Unit × State δ ε :=
  let (result,device) := write buf s.device
  (result,{ s with device := device, written := s.written ++ [(buf,result)] })

/-- The loop of the send; there are always some tries remaining. -/
def retry (buf : Bytes) : ℕ → Except ε Unit → State δ ε → Except ε Unit × State δ ε
  | _, .ok (), s => (.ok (),s)
  | 0, result, s => (result,s)
  | remaining+1, .error _, s =>
    let (result,s) := writeReport write buf s
    if remaining = 0 then (result,s) else retry buf remaining result s

/-- The future of a send; it never waits, so one poll is all of it. -/
def sendReport (buf : Bytes) (s : State δ ε) : Except ε Unit × State δ ε :=
  let (result,s) := writeReport write buf s
  retry write buf 10 result s

/-- `poll_ready`, which `poll_flush` and `poll_close` are too. -/
def pollReady (s : State δ ε) : Except ε Unit × State δ ε :=
  match s.currentTx with
  | some buf =>
    let (result,s) := sendReport write buf s
    (result,{ s with currentTx := none })
  | none => (.ok (),s)

/-- A panic when the sink is not ready. -/
def startSend (item : Bytes) (s : State δ ε) : Option (State δ ε) :=
  if s.currentTx = none then some { s with currentTx := some (send item) } else none

inductive Call
  | pollReady
  | pollFlush
  | pollClose
  | startSend (item : Bytes)
  deriving DecidableEq, Repr

def step (s : State δ ε) : Call → Option (State δ ε)
  | .startSend item => startSend item s
  | _ =>
    let (answer,s) := pollReady write s
    some { s with answers := s.answers ++ [answer] }

end

def Call.item : Call → Option Bytes
  | .startSend item => some item
  | _ => none

/-! One send. -/

/-- How often a send with some tries remaining can have failed before its last write. -/
def Tried {ε : Type} (remaining failures : ℕ) : Except ε Unit → Prop
  | .ok () => failures ≤ remaining
  | .error _ => failures = remaining

/-- What was written for an item, and what came of it: either one write succeeded at last, or all
eleven failed. -/
structure Sent (ε : Type) where
  item : Bytes
  failures : List ε
  result : Except ε Unit
  tried : Tried 10 failures.length result

def attempts {ε : Type} (buf : Bytes) (failures : List ε) (result : Except ε Unit) :
    List (Bytes × Except ε Unit) :=
  failures.map (fun e => (buf,.error e)) ++ [(buf,result)]

def Sent.writes {ε : Type} (x : Sent ε) : List (Bytes × Except ε Unit) :=
  attempts (send x.item) x.failures x.result

section
variable {δ ε : Type} {write : Bytes → δ → Except ε Unit × δ} {s t : State δ ε} {c : Call}

structure Wrote (s t : State δ ε) (writes : List (Bytes × Except ε Unit)) : Prop where
  written : t.written = s.written ++ writes
  currentTx : t.currentTx = s.currentTx
  answers : t.answers = s.answers

variable (write) in
theorem writeReport_wrote (buf : Bytes) (s : State δ ε) :
    Wrote s (writeReport write buf s).2 [(buf,(writeReport write buf s).1)] := ⟨rfl,rfl,rfl⟩

theorem Wrote.trans {u : State δ ε} {ws ws' : List (Bytes × Except ε Unit)} (h : Wrote s t ws)
    (h' : Wrote t u ws') : Wrote s u (ws ++ ws') :=
  ⟨by rw [h'.written,h.written,List.append_assoc],h'.currentTx.trans h.currentTx,
    h'.answers.trans h.answers⟩

variable (write) in
theorem retry_spec (buf : Bytes) (remaining : ℕ) (e : ε) (s : State δ ε) :
    ∃ failures result t, retry write buf (remaining+1) (.error e) s = (result,t) ∧
      Wrote s t (attempts buf failures result) ∧ Tried remaining failures.length result := by
  induction remaining generalizing e s with
  | zero =>
    refine ⟨[],_,_,rfl,writeReport_wrote write buf s,?_⟩
    show Tried 0 0 (write buf s.device).1
    cases (write buf s.device).1 with
    | ok u => exact le_refl 0
    | error e => rfl
  | succ remaining ih =>
    have hwrote := writeReport_wrote write buf s
    have hretry : retry write buf (remaining+1+1) (.error e) s = retry write buf (remaining+1)
      (writeReport write buf s).1 (writeReport write buf s).2 := rfl
    cases hresult : (writeReport write buf s).1 with
    | ok u =>
      refine ⟨[],.ok (),_,?_,hresult ▸ hwrote,Nat.zero_le _⟩
      rw [hretry,hresult]
      rfl
    | error e' =>
      obtain ⟨failures,result,t,ht,hwrote',htried⟩ := ih e' (writeReport write buf s).2
      refine ⟨e' :: failures,result,t,?_,(hresult ▸ hwrote).trans hwrote',?_⟩
      · rw [hretry,hresult,ht]
      · cases result with
        | ok u => exact Nat.succ_le_succ htried
        | error e => exact congrArg Nat.succ htried

variable (write) in
theorem sendReport_spec (item : Bytes) (s : State δ ε) : ∃ (x : Sent ε) (t : State δ ε),
    sendReport write (send item) s = (x.result,t) ∧ x.item = item ∧ Wrote s t x.writes := by
  have hwrote := writeReport_wrote write (send item) s
  have hsend : sendReport write (send item) s = retry write (send item) 10
    (writeReport write (send item) s).1 (writeReport write (send item) s).2 := rfl
  cases hresult : (writeReport write (send item) s).1 with
  | ok u =>
    refine ⟨⟨item,[],.ok (),Nat.zero_le _⟩,_,?_,rfl,hresult ▸ hwrote⟩
    rw [hsend,hresult]
    rfl
  | error e =>
    obtain ⟨failures,result,t,ht,hwrote',htried⟩ :=
      retry_spec write (send item) 9 e (writeReport write (send item) s).2
    refine ⟨⟨item,e :: failures,result,?_⟩,t,by rw [hsend,hresult,ht],rfl,
      (hresult ▸ hwrote).trans hwrote'⟩
    cases result with
    | ok u => exact Nat.succ_le_succ htried
    | error e => exact congrArg Nat.succ htried

/-! A run of calls. -/

def isError {α : Type} : Except ε α → Bool
  | .error _ => true
  | .ok _ => false

/-- What was written was written for the items that were sent, in their order and but for the one
that was not polled, and each error was answered once. -/
structure Recorded (items : List Bytes) (s : State δ ε) (sent : List (Sent ε)) : Prop where
  items : ∃ pending : Option Bytes, items = sent.map Sent.item ++ pending.toList ∧
    s.currentTx = pending.map send
  written : s.written = sent.flatMap Sent.writes
  answers : s.answers.filter isError = (sent.map Sent.result).filter isError

theorem start_recorded (d : δ) : Recorded [] (start ε d) [] := ⟨⟨none,rfl,rfl⟩,rfl,rfl⟩

theorem pollReady_recorded {items : List Bytes} {sent : List (Sent ε)}
    (hs : Recorded items s sent) (h : (pollReady write s).2 = t) :
    ∃ sent', Recorded items { t with answers := t.answers ++ [(pollReady write s).1] } sent' := by
  obtain ⟨pending,hitems,htx⟩ := hs.items
  cases pending with
  | none =>
    have hpoll : pollReady write s = (.ok (),s) := by rw [pollReady,htx]; rfl
    rw [hpoll] at h ⊢
    obtain rfl := h
    refine ⟨sent,⟨none,hitems,htx⟩,hs.written,?_⟩
    rw [List.filter_append,← hs.answers]
    exact List.append_nil _
  | some item =>
    obtain ⟨x,u,hsend,hitem,hwrote⟩ := sendReport_spec write item s
    have hpoll : pollReady write s = (x.result,{ u with currentTx := none }) := by
      rw [pollReady,htx,Option.map_some]
      show ((sendReport write (send item) s).1,
        { (sendReport write (send item) s).2 with currentTx := none }) = _
      rw [hsend]
    rw [hpoll] at h ⊢
    obtain rfl := h
    refine ⟨sent ++ [x],⟨none,?_,rfl⟩,?_,?_⟩
    · rw [hitems,List.map_append,List.map_singleton,hitem]
      exact (List.append_nil _).symm
    · rw [List.flatMap_append,List.flatMap_singleton,← hs.written]
      exact hwrote.written
    · show (u.answers ++ [x.result]).filter isError = _
      rw [hwrote.answers,List.filter_append,hs.answers,List.map_append,List.filter_append]
      rfl

theorem step_recorded {items : List Bytes} {sent : List (Sent ε)} (hs : Recorded items s sent)
    (h : step write s c = some t) : ∃ sent', Recorded (items ++ c.item.toList) t sent' := by
  cases c with
  | startSend item =>
    obtain ⟨hready,hsome⟩ := Option.ite_none_right_eq_some.mp h
    obtain rfl := Option.some.inj hsome
    obtain ⟨pending,hitems,htx⟩ := hs.items
    rw [hready] at htx
    obtain rfl : pending = none := Option.map_eq_none_iff.mp htx.symm
    refine ⟨sent,⟨some item,?_,rfl⟩,hs.written,hs.answers⟩
    rw [hitems,Option.toList_none,List.append_nil]
    rfl
  | pollReady | pollFlush | pollClose =>
    obtain rfl := Option.some.inj h
    obtain ⟨sent',hs'⟩ := pollReady_recorded hs (Eq.refl (pollReady write s).2)
    exact ⟨sent',(List.append_nil items).symm ▸ hs'⟩

theorem run_recorded {calls : List Call} {items : List Bytes} {sent : List (Sent ε)}
    (hs : Recorded items s sent) (h : Transition.run (step write) s calls = some t) :
    ∃ sent', Recorded (items ++ calls.filterMap Call.item) t sent' := by
  induction calls generalizing s items sent with
  | nil =>
    obtain rfl := Option.some.inj h
    exact ⟨sent,by rwa [List.filterMap_nil,List.append_nil]⟩
  | cons c calls ih =>
    obtain ⟨u,hu,ht⟩ := Transition.run_cons_iff.mp h
    obtain ⟨sent',hs'⟩ := step_recorded hs hu
    obtain ⟨sent'',hs''⟩ := ih hs' ht
    refine ⟨sent'',?_⟩
    rw [List.filterMap_cons]
    cases c with
    | startSend item =>
      rw [List.append_assoc] at hs''
      exact hs''
    | pollReady | pollFlush | pollClose =>
      rw [List.append_assoc] at hs''
      exact hs''

/-! What arrives. -/

theorem unframe_send {p : Bytes} (hp : p.length ≤ 62) :
    Packet.unframe ((send (Packet.frame p)).drop 1) = .ok p := by
  have hfits : (0 :: Packet.frame p).length ≤ packetSize := by
    rw [List.length_cons,Packet.frame_length,packetSize]
    omega
  rw [send,resize_of_le hfits]
  exact Packet.unframe_frame (by omega) _

theorem writes_accepted (x : Sent ε) : x.writes.filter (fun w => !isError w.2) =
    if isError x.result then [] else [(send x.item,x.result)] := by
  have hfailures : (x.failures.map fun e => (send x.item,(.error e : Except ε Unit))).filter
      (fun w => !isError w.2) = [] := by
    simp [isError]
  rw [Sent.writes,attempts,List.filter_append,hfailures]
  cases hx : isError x.result <;> simp [hx]

/-- What is written for a packet, and what the poll then answers: reports that hold the packet, of
which all but the last fail. -/
structure Carried (p : Bytes) (writes : List (Bytes × Except ε Unit)) (result : Except ε Unit) :
    Prop where
  holds : ∀ w ∈ writes, Packet.unframe (w.1.drop 1) = .ok p
  failed : ∀ w ∈ writes.dropLast, isError w.2 = true
  last : writes.getLast?.map Prod.snd = some result
  bounded : writes.length ≤ 11
  lost : isError result = true → writes.length = 11

theorem Sent.carried (x : Sent ε) {p : Bytes} (hitem : x.item = Packet.frame p)
    (hp : p.length ≤ 62) : Carried p x.writes x.result where
  holds w hw := by
    have hreport : w.1 = send x.item := by
      rcases List.mem_append.mp hw with hw | hw
      · obtain ⟨e,-,rfl⟩ := List.mem_map.mp hw
        rfl
      · obtain rfl := List.mem_singleton.mp hw
        rfl
    rw [hreport,hitem]
    exact unframe_send hp
  failed w hw := by
    rw [Sent.writes,attempts,List.dropLast_concat] at hw
    obtain ⟨e,-,rfl⟩ := List.mem_map.mp hw
    rfl
  last := by rw [Sent.writes,attempts,List.getLast?_concat,Option.map_some]
  bounded := by
    have htried := x.tried
    rw [Sent.writes,attempts,List.length_append,List.length_map]
    cases hx : x.result with
    | ok u =>
      rw [hx] at htried
      exact Nat.succ_le_succ htried
    | error e =>
      rw [hx] at htried
      exact Nat.succ_le_succ htried.le
  lost hx := by
    have htried := x.tried
    rw [Sent.writes,attempts,List.length_append,List.length_map]
    cases hresult : x.result with
    | ok u =>
      rw [hresult] at hx
      cases hx
    | error e =>
      rw [hresult] at htried
      exact congrArg Nat.succ htried

theorem carried_packets {sent : List (Sent ε)} {packets rest : List Bytes}
    (h : packets.map Packet.frame = sent.map Sent.item ++ rest)
    (hp : ∀ p ∈ packets, p.length ≤ 62) :
    List.Forall₂ (fun p x => Carried p x.writes x.result) (packets.take sent.length) sent := by
  induction sent generalizing packets with
  | nil => exact .nil
  | cons x sent ih =>
    cases packets with
    | nil => cases h
    | cons p packets =>
      obtain ⟨hitem,hrest⟩ := List.cons.inj h
      exact .cons (x.carried hitem.symm (hp p (by simp)))
        (ih hrest fun q hq => hp q (by simp [hq]))

theorem accepted_packets {sent : List (Sent ε)} {packets rest : List Bytes}
    (h : packets.map Packet.frame = sent.map Sent.item ++ rest)
    (hp : ∀ p ∈ packets, p.length ≤ 62) :
    ((sent.flatMap Sent.writes).filter fun w => !isError w.2).map
        (fun w => Packet.unframe (w.1.drop 1)) =
      ((packets.zip (sent.map Sent.result)).filter fun x => !isError x.2).map fun x => .ok x.1 := by
  induction sent generalizing packets with
  | nil => simp
  | cons x sent ih =>
    cases packets with
    | nil => cases h
    | cons p packets =>
      obtain ⟨hitem,hrest⟩ := List.cons.inj h
      have ih' := ih hrest fun q hq => hp q (by simp [hq])
      have hframe : Packet.unframe ((send x.item).drop 1) = .ok p := by
        rw [← hitem]
        exact unframe_send (hp p (by simp))
      rw [List.flatMap_cons,List.filter_append,List.map_append,ih',writes_accepted,List.map_cons,
        List.zip_cons_cons]
      cases hx : isError x.result with
      | true => simp [hx]
      | false => simpa [hx] using hframe

/-- Packets that are framed and sent arrive in their order: each is accepted once, or it is
written eleven times in vain and one poll answers that; only the last may not have been polled. -/
theorem packets_arrive_once {d : δ} {calls : List Call} {packets : List Bytes}
    (h : Transition.run (step write) (start ε d) calls = some s)
    (hcalls : calls.filterMap Call.item = packets.map Packet.frame)
    (hp : ∀ p ∈ packets, p.length ≤ 62) :
    ∃ sent : List (Sent ε),
      s.written = sent.flatMap Sent.writes ∧
      List.Forall₂ (fun p x => Carried p x.writes x.result) (packets.take sent.length) sent ∧
      packets.length = sent.length + s.currentTx.toList.length ∧
      (s.written.filter fun w => !isError w.2).map (fun w => Packet.unframe (w.1.drop 1)) =
        ((packets.zip (sent.map Sent.result)).filter fun x => !isError x.2).map
          (fun x => .ok x.1) ∧
      s.answers.filter isError = (sent.map Sent.result).filter isError := by
  obtain ⟨sent,hsent⟩ := run_recorded (start_recorded d) h
  rw [List.nil_append,hcalls] at hsent
  obtain ⟨pending,hitems,htx⟩ := hsent.items
  refine ⟨sent,hsent.written,carried_packets hitems hp,?_,?_,hsent.answers⟩
  · have hlen := congrArg List.length hitems
    rw [List.length_map,List.length_append,List.length_map] at hlen
    rw [hlen,htx]
    cases pending <;> rfl
  · rw [hsent.written]
    exact accepted_packets hitems hp

/-- The first packet is lost, and the third write of the second is accepted. -/
theorem packets_arrive_once_third : ∃ s : State ℕ Unit,
    Transition.run (step fun _ n => (if n < 13 then .error () else .ok (),n+1)) (start Unit 0)
      [.startSend (Packet.frame [0x17,1]),.pollReady,.startSend (Packet.frame [0x17,0]),
        .pollFlush] = some s ∧
    s.answers = [.error (),.ok ()] ∧
    ∃ sent : List (Sent Unit), s.written = sent.flatMap Sent.writes ∧
      List.Forall₂ (fun p x => Carried p x.writes x.result) ([[0x17,1],[0x17,0]].take sent.length)
        sent ∧ s.written.length = 14 := by
  obtain ⟨sent,hwritten,hcarried,-,-,-⟩ := @packets_arrive_once ℕ Unit
    (fun _ n => (if n < 13 then .error () else .ok (),n+1)) _ 0
    [.startSend (Packet.frame [0x17,1]),.pollReady,.startSend (Packet.frame [0x17,0]),.pollFlush]
    [[0x17,1],[0x17,0]] rfl rfl (by simp)
  exact ⟨_,rfl,rfl,sent,hwritten,hcarried,rfl⟩

end

/-! The reading thread. -/

/-- The report id some platforms put before the data. -/
def strip : Bytes → Bytes
  | [] => []
  | b :: rest => if b = 0 then rest else b :: rest

inductive Thread
  | checking
  | reading
  | ended
  deriving DecidableEq, Repr

structure Reading (ε : Type) where
  thread : Thread
  /-- The receiver has not been closed. -/
  isOpen : Bool
  /-- What was sent to the receiver. -/
  rx : List (Except ε Bytes)

inductive ReadLabel (ε : Type)
  /-- `tx.is_closed()` -/
  | check
  /-- `read_timeout` returns; no bytes are a timeout. -/
  | readDone (outcome : Except ε Bytes)
  /-- The stream is dropped. -/
  | drop

section
variable {ε : Type}

def readItem : Except ε Bytes → Option (Except ε Bytes)
  | .ok [] => none
  | .ok bytes => some (.ok (strip bytes))
  | .error e => some (.error e)

def readStep (s : Reading ε) : ReadLabel ε → Option (Reading ε)
  | .check =>
    if s.thread = .checking then some { s with thread := if s.isOpen then .reading else .ended }
    else none
  | .readDone outcome =>
    if s.thread = .reading then
      match readItem outcome with
      | none => some { s with thread := .checking }
      | some item =>
        if s.isOpen then some { s with thread := .checking, rx := s.rx ++ [item] }
        else some { s with thread := .ended }
    else none
  | .drop => if s.isOpen then some { s with isOpen := false } else none

def ReadLabel.outcome : ReadLabel ε → Option (Except ε Bytes)
  | .readDone outcome => some outcome
  | _ => none

def ReadLabel.isDrop : ReadLabel ε → Bool
  | .drop => true
  | _ => false

variable {s t : Reading ε}

theorem readStep_open {a : ReadLabel ε} (hs : s.isOpen = true) (ha : a.isDrop = false)
    (h : readStep s a = some t) :
    t.isOpen = true ∧ t.rx = s.rx ++ (a.outcome.bind readItem).toList := by
  cases a with
  | drop => cases ha
  | check =>
    obtain ⟨-,hsome⟩ := Option.ite_none_right_eq_some.mp h
    obtain rfl := Option.some.inj hsome
    exact ⟨hs,(List.append_nil _).symm⟩
  | readDone outcome =>
    obtain ⟨-,hsome⟩ := Option.ite_none_right_eq_some.mp h
    rw [ReadLabel.outcome,Option.bind_some]
    cases hitem : readItem outcome with
    | none =>
      rw [hitem] at hsome
      obtain rfl := Option.some.inj hsome
      exact ⟨hs,(List.append_nil _).symm⟩
    | some item =>
      rw [hitem] at hsome
      simp only [hs,if_true] at hsome
      obtain rfl := Option.some.inj hsome
      exact ⟨rfl,rfl⟩

theorem readRun_open {as : List (ReadLabel ε)} (hs : s.isOpen = true)
    (has : ∀ a ∈ as, a.isDrop = false) (h : Transition.run readStep s as = some t) :
    t.isOpen = true ∧ t.rx = s.rx ++ (as.filterMap ReadLabel.outcome).filterMap readItem := by
  induction as generalizing s with
  | nil =>
    obtain rfl := Option.some.inj h
    exact ⟨hs,(List.append_nil _).symm⟩
  | cons a as ih =>
    obtain ⟨u,hu,ht⟩ := Transition.run_cons_iff.mp h
    obtain ⟨huo,hux⟩ := readStep_open hs (has a (by simp)) hu
    obtain ⟨hto,htx⟩ := ih huo (fun b hb => has b (by simp [hb])) ht
    refine ⟨hto,?_⟩
    rw [htx,hux,List.append_assoc,List.filterMap_cons]
    cases ho : a.outcome with
    | none => rfl
    | some outcome =>
      dsimp only
      rw [List.filterMap_cons,Option.bind_some]
      cases readItem outcome <;> rfl

def Reading.left (s : Reading ε) : ℕ := if s.thread = .reading then 1 else 0

theorem readStep_closed {a : ReadLabel ε} (hs : s.isOpen = false) (h : readStep s a = some t) :
    t.isOpen = false ∧ t.rx = s.rx ∧ a.outcome.toList.length + t.left ≤ s.left := by
  cases a with
  | drop =>
    obtain ⟨hopen,-⟩ := Option.ite_none_right_eq_some.mp h
    cases hs.symm.trans hopen
  | check =>
    obtain ⟨-,hsome⟩ := Option.ite_none_right_eq_some.mp h
    obtain rfl := Option.some.inj hsome
    exact ⟨hs,rfl,by simp [ReadLabel.outcome,Reading.left,hs]⟩
  | readDone outcome =>
    obtain ⟨hreading,hsome⟩ := Option.ite_none_right_eq_some.mp h
    split at hsome
    · obtain rfl := Option.some.inj hsome
      exact ⟨hs,rfl,by simp [ReadLabel.outcome,Reading.left,hreading]⟩
    · rw [hs] at hsome
      obtain rfl := Option.some.inj hsome
      exact ⟨rfl,rfl,by simp [ReadLabel.outcome,Reading.left,hreading]⟩

theorem readRun_closed {as : List (ReadLabel ε)} (hs : s.isOpen = false)
    (h : Transition.run readStep s as = some t) :
    t.rx = s.rx ∧ (as.filterMap ReadLabel.outcome).length + t.left ≤ s.left := by
  induction as generalizing s with
  | nil =>
    obtain rfl := Option.some.inj h
    exact ⟨rfl,by simp⟩
  | cons a as ih =>
    obtain ⟨u,hu,ht⟩ := Transition.run_cons_iff.mp h
    obtain ⟨huo,hux,hul⟩ := readStep_closed hs hu
    obtain ⟨htx,htl⟩ := ih huo ht
    refine ⟨htx.trans hux,?_⟩
    rw [List.filterMap_cons]
    cases ho : a.outcome with
    | none =>
      rw [ho] at hul
      simp only [Option.toList_none,List.length_nil] at hul
      exact htl.trans (by omega)
    | some outcome =>
      rw [ho] at hul
      simp only [Option.toList_some,List.length_singleton] at hul
      simp only [List.length_cons]
      omega

/-- The stream yields what is read until it is dropped, each report and each error once and in
order; after that the thread reads once more at most. -/
theorem reports_read_until_dropped {before after : List (ReadLabel ε)}
    (hbefore : ∀ a ∈ before, a.isDrop = false)
    (h : Transition.run readStep ⟨.checking,true,[]⟩ (before ++ .drop :: after) = some s) :
    s.rx = (before.filterMap ReadLabel.outcome).filterMap readItem ∧
      (after.filterMap ReadLabel.outcome).length ≤ 1 := by
  obtain ⟨t,ht,hs⟩ := Transition.run_append_iff.mp h
  obtain ⟨u,hu,hs⟩ := Transition.run_cons_iff.mp hs
  obtain ⟨-,htx⟩ := readRun_open rfl hbefore ht
  obtain ⟨-,hsome⟩ := Option.ite_none_right_eq_some.mp hu
  obtain rfl := Option.some.inj hsome
  obtain ⟨hsx,hsl⟩ := readRun_closed rfl hs
  refine ⟨hsx.trans htx,?_⟩
  have hleft : t.left ≤ 1 := by
    rw [Reading.left]
    split_ifs <;> omega
  exact (Nat.le_add_right _ _).trans (hsl.trans hleft)

/-- A timeout, a report with its id, an error, and a report that nobody wants. -/
theorem reports_read_until_dropped_late : ∃ s : Reading Unit,
    Transition.run readStep ⟨.checking,true,[]⟩ ([.check,.readDone (.ok []),.check,
      .readDone (.ok [0,2,5]),.check,.readDone (.error ()),.check] ++
        .drop :: [.readDone (.ok [7])]) = some s ∧
    s.rx = [.ok [2,5],.error ()] ∧ s.thread = .ended :=
  ⟨_,rfl,(@reports_read_until_dropped Unit _ [.check,.readDone (.ok []),.check,
    .readDone (.ok [0,2,5]),.check,.readDone (.error ()),.check] [.readDone (.ok [7])]
    (by simp [ReadLabel.isDrop]) rfl).1,rfl⟩

end
end HidStream
end Minidsp
