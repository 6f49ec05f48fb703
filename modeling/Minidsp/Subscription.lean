import Minidsp.Fairness
import Minidsp.Websocket

/-! What a client that does not poll knows: the status the device had when it was asked, and what
is announced after the handler has subscribed. What is announced in between is lost. -/
namespace Minidsp
namespace Websocket

open Transition

def announced (dsp : MiniDSP) (before : MasterStatus) (items : List Responses) : MasterStatus :=
  items.foldl (fun status item => ((dsp.statusUpdate item).getD default).onto status) before

def Session.Answered (s : Session) : Prop := s.phase ≠ .fetching

/-- The read was answered, and the handler has not subscribed. -/
def Session.InWindow (s : Session) : Prop := match s.phase with
  | .metering _ | .fetched _ | .upgraded _ | .greeted _ => True
  | _ => False

def Session.Drained (s : Session) : Prop :=
  ∃ stream last, s.phase = .streaming stream last ∧ s.events.pending stream = []

variable {dsp : MiniDSP} {before : MasterStatus}

/-- A handler without `?poll` whose device answers and whose websocket does not fail. -/
structure Serves (before : MasterStatus) (e : Execution (step dsp)) : Prop where
  start : ∃ levels, e.state 0 = start levels false
  fair : e.Fair Owed
  succeeds : ∀ n a, e.label n = some a → a.Succeeds
  /-- The device answers with the status it has. -/
  answers : ∀ n m, e.label n = some (.master (.ok m)) →
    m = announced dsp before (e.state n).events.sent

/-- The event of this moment is forwarded later: the handler takes it off the stream, and sends
the status it announces. -/
def Forwarded (e : Execution (step dsp)) (n : ℕ) (master : MasterStatus) : Prop :=
  ∃ m last, n < m ∧ e.label m = some (.push true) ∧
    (e.state m).phase = .streaming ⟨(e.state n).events.sent.length⟩ last ∧
    (e.state (m+1)).sent = (e.state m).sent ++ [.pushed master]

/-- Every announcement after the answer is forwarded, and a client that has all there is knows
the status of the device. -/
def NothingLost (before : MasterStatus) (e : Execution (step dsp)) : Prop :=
  (∀ n item master, e.label n = some (.event item) → dsp.statusUpdate item = some master →
    (e.state n).Answered → Forwarded e n master) ∧
  ∀ n, (e.state n).Drained →
    (received (e.state n).sent).master = announced dsp before (e.state n).events.sent

def QuietWindow (e : Execution (step dsp)) : Prop :=
  ∀ n item, e.label n = some (.event item) → dsp.statusUpdate item ≠ none →
    ¬(e.state n).InWindow

theorem announced_concat (items : List Responses) (item : Responses) :
    announced dsp before (items ++ [item]) =
      ((dsp.statusUpdate item).getD default).onto (announced dsp before items) := by
  simp [announced]

/-! Lost events. -/

def Behind (k : ℕ) (s : Session) : Prop := k ≤ s.events.sent.length ∧ match s.phase with
  | .fetching => False
  | .streaming stream _ => k ≤ stream.next
  | _ => True

theorem behind_step {k : ℕ} {s t : Session} {a : Step} (hs : Behind k s)
    (h : step dsp s a = some t) : Behind k t := by
  obtain ⟨hlen,hs⟩ := hs
  cases moves_of_step h with
  | event item =>
    refine ⟨?_,hs⟩
    simp only [Broadcast.Channel.send,List.length_append]
    omega
  | close a hfail => exact ⟨hlen,trivial⟩
  | master m hp => exact ⟨hlen,trivial⟩
  | meters i o m hp => exact ⟨hlen,trivial⟩
  | upgrade status hp => exact ⟨hlen,trivial⟩
  | greet status hp => exact ⟨hlen,trivial⟩
  | subscribe status hp => exact ⟨hlen,hlen⟩
  | push stream last item stream' m hp hrecv hm =>
    rw [hp] at hs
    have hnext := (Broadcast.recv_next hrecv).1
    exact ⟨hlen,by simp only; omega⟩
  | skip ok stream last item stream' hp hrecv hm =>
    rw [hp] at hs
    have hnext := (Broadcast.recv_next hrecv).1
    exact ⟨hlen,by simp only; omega⟩
  | levels i o stream last hp =>
    rw [hp] at hs
    exact ⟨hlen,hs⟩
  | polled m stream last hp hpoll =>
    rw [hp] at hs
    exact ⟨hlen,hs⟩
  | idle a stream last hp => exact ⟨hlen,hs⟩

/-- What is announced in the window is never forwarded. -/
theorem lost_of_inWindow {e : Execution (step dsp)} {n : ℕ} {item : Responses}
    {master : MasterStatus} (hl : e.label n = some (.event item))
    (hwindow : (e.state n).InWindow) : ¬Forwarded e n master := by
  rintro ⟨m,last,hlt,-,hphase,-⟩
  obtain ⟨j,rfl⟩ := Nat.exists_eq_add_of_le hlt
  have hfirst : Behind ((e.state n).events.sent.length+1) (e.state (n+1)) := by
    obtain ht := Option.some.inj (e.step_of_label hl)
    rw [← ht]
    refine ⟨by simp [Broadcast.Channel.send],?_⟩
    cases hp : (e.state n).phase with
    | metering m | fetched status | upgraded status | greeted status => simp
    | fetching | streaming stream last | closed => simp [Session.InWindow,hp] at hwindow
  have hbehind := (e.drop (n+1)).invariant (I := Behind _) hfirst
    (fun i a hl hb => behind_step hb ((e.drop (n+1)).step_of_label hl)) j
  have hnext : (e.state n).events.sent.length+1 ≤ (e.state n).events.sent.length := by
    have h := hbehind.2
    rw [show (e.drop (n+1)).state j = e.state (n+1+j) from rfl,hphase] at h
    exact h
  omega

/-! Merged messages. -/

/-- What was sent, with what the stream still has, is the status of the device. -/
def Caught (dsp : MiniDSP) (before : MasterStatus) (s : Session) : Prop :=
  s.poll = false ∧ match s.phase with
  | .fetching => s.sent = []
  | .metering m => s.sent = [] ∧ m = announced dsp before s.events.sent
  | .fetched status | .upgraded status =>
    s.sent = [] ∧ status.master = announced dsp before s.events.sent
  | .greeted _ => (received s.sent).master = announced dsp before s.events.sent
  | .streaming stream _ => stream.next ≤ s.events.sent.length ∧
    announced dsp (received s.sent).master (s.events.pending stream) =
      announced dsp before s.events.sent
  | .closed => False

theorem caught_event {s : Session} {item : Responses} (hs : Caught dsp before s)
    (hquiet : dsp.statusUpdate item ≠ none → ¬s.InWindow) :
    Caught dsp before { s with events := s.events.send item } := by
  obtain ⟨hpoll,hs⟩ := hs
  refine ⟨hpoll,?_⟩
  have hsilent : s.InWindow → announced dsp before (s.events.send item).sent =
      announced dsp before s.events.sent := by
    intro hwindow
    have hnone : dsp.statusUpdate item = none := by
      by_contra h
      exact hquiet h hwindow
    rw [Broadcast.Channel.send,announced_concat,hnone]
    rfl
  cases hp : s.phase with
  | fetching => simpa only [hp] using hs
  | metering m | fetched status | upgraded status | greeted status =>
    simp only [hp] at hs ⊢
    rw [hsilent (by simp [Session.InWindow,hp])]
    exact hs
  | streaming stream last =>
    simp only [hp] at hs ⊢
    refine ⟨?_,?_⟩
    · simp only [Broadcast.Channel.send,List.length_append]
      omega
    · rw [Broadcast.pending_send hs.1,announced_concat,hs.2]
      exact (announced_concat ..).symm
  | closed => simp only [hp] at hs

theorem caught_recv {s : Session} {stream stream' : Broadcast.Receiver} {last : StatusSummary}
    {item : Responses} (hs : Caught dsp before s) (hp : s.phase = .streaming stream last)
    (hrecv : s.events.recv stream = some (item,stream')) : s.poll = false ∧
      stream'.next ≤ s.events.sent.length ∧
      announced dsp (((dsp.statusUpdate item).getD default).onto (received s.sent).master)
        (s.events.pending stream') = announced dsp before s.events.sent := by
  rw [Caught,hp] at hs
  obtain ⟨hpoll,-,hmerged⟩ := hs
  obtain ⟨hnext,hlt⟩ := Broadcast.recv_next hrecv
  rw [Broadcast.pending_recv hrecv,announced,List.foldl_cons] at hmerged
  exact ⟨hpoll,by omega,hmerged⟩

theorem caught_step {s t : Session} {a : Step} (hs : Caught dsp before s)
    (hsucceeds : a.Succeeds)
    (hanswers : ∀ m, a = .master (.ok m) → m = announced dsp before s.events.sent)
    (hquiet : ∀ item, a = .event item → dsp.statusUpdate item ≠ none → ¬s.InWindow)
    (h : step dsp s a = some t) : Caught dsp before t := by
  cases moves_of_step h with
  | event item => exact caught_event hs (hquiet item rfl)
  | close a hfail => exact absurd hsucceeds hfail
  | master m hp =>
    rw [Caught,hp] at hs
    exact ⟨hs.1,hs.2,hanswers m rfl⟩
  | meters i o m hp | upgrade status hp =>
    rw [Caught,hp] at hs
    exact hs
  | greet status hp =>
    rw [Caught,hp] at hs
    obtain ⟨hpoll,hsent,hstatus⟩ := hs
    refine ⟨hpoll,?_⟩
    rw [← hstatus,hsent]
    exact MasterStatus.onto_default _
  | subscribe status hp =>
    rw [Caught,hp] at hs
    refine ⟨hs.1,le_rfl,?_⟩
    rw [Broadcast.pending_subscribe]
    exact hs.2
  | push stream last item stream' m hp hrecv hm =>
    obtain ⟨hpoll,hle,hmerged⟩ := caught_recv hs hp hrecv
    refine ⟨hpoll,hle,?_⟩
    rw [← hmerged,received_concat,hm]
    rfl
  | skip ok stream last item stream' hp hrecv hm =>
    obtain ⟨hpoll,hle,hmerged⟩ := caught_recv hs hp hrecv
    rw [hm] at hmerged
    exact ⟨hpoll,hle,hmerged⟩
  | levels i o stream last hp =>
    rw [Caught,hp] at hs
    obtain ⟨hpoll,hle,hmerged⟩ := hs
    refine ⟨hpoll,hle,?_⟩
    rw [← hmerged,received_concat]
    rfl
  | polled m stream last hp hpoll => simp [hs.1] at hpoll
  | idle a stream last hp => exact hs

theorem Serves.caught {e : Execution (step dsp)} (h : Serves before e) (hquiet : QuietWindow e)
    (n : ℕ) : Caught dsp before (e.state n) := by
  refine e.invariant ?_ (fun n a hl hs => caught_step hs (h.succeeds n a hl)
    (fun m ha => h.answers n m (ha ▸ hl)) (fun item ha => hquiet n item (ha ▸ hl))
    (e.step_of_label hl)) n
  obtain ⟨levels,hstart⟩ := h.start
  rw [hstart]
  exact ⟨rfl,rfl⟩

/-! Forwarded events. -/

/-- What a streaming handler does with the stream: nothing, or it takes the next event off it,
and sends what that announces. -/
theorem streaming_step {s t : Session} {a : Step} {stream : Broadcast.Receiver}
    {last : StatusSummary} (hp : s.phase = .streaming stream last) (hpoll : s.poll = false)
    (hsucceeds : a.Succeeds) (h : step dsp s a = some t) :
    ∃ stream' last', t.phase = .streaming stream' last' ∧ (stream' = stream ∨
      ∃ item ok, a = .push ok ∧ s.events.recv stream = some (item,stream') ∧
        ∀ m, dsp.statusUpdate item = some m → ok ∧ t.sent = s.sent ++ [.pushed m]) := by
  cases moves_of_step h with
  | event item => exact ⟨stream,last,hp,.inl rfl⟩
  | close a hfail => exact absurd hsucceeds hfail
  | master m hp' | meters i o m hp' | upgrade status hp' | greet status hp'
  | subscribe status hp' => rw [hp] at hp'; cases hp'
  | push stream₂ last₂ item stream' m hp' hrecv hm =>
    rw [hp] at hp'
    cases hp'
    refine ⟨stream',last,rfl,.inr ⟨item,true,rfl,hrecv,fun m' hm' => ⟨rfl,?_⟩⟩⟩
    rw [Option.some.inj (hm'.symm.trans hm)]
  | skip ok stream₂ last₂ item stream' hp' hrecv hm =>
    rw [hp] at hp'
    cases hp'
    exact ⟨stream',last,rfl,.inr ⟨item,ok,rfl,hrecv,fun m hm' => by rw [hm] at hm'; cases hm'⟩⟩
  | levels i o stream₂ last₂ hp' =>
    rw [hp] at hp'
    cases hp'
    exact ⟨stream,last,rfl,.inl rfl⟩
  | polled m stream₂ last₂ hp' hpoll' => simp [hpoll] at hpoll'
  | idle a stream₂ last₂ hp' => exact ⟨stream,last,hp,.inl rfl⟩

theorem push_enabled (dsp : MiniDSP) {s : Session} {stream : Broadcast.Receiver} {last : StatusSummary}
    (hp : s.phase = .streaming stream last) (hlt : stream.next < s.events.sent.length) :
    ∃ t, step dsp s (.push true) = some t := by
  simp only [step,hp,push,Broadcast.recv_of_lt hlt]
  exact ⟨_,rfl⟩

theorem not_enabled_of_drained {s : Session} {stream : Broadcast.Receiver} {last : StatusSummary}
    (hp : s.phase = .streaming stream last) (hle : s.events.sent.length ≤ stream.next) :
    ¬Enabled (step dsp) Owed s := by
  rintro ⟨a,t,howed,h⟩
  cases a with
  | event _ | levelTick _ _ | pollTick _ _ | client _ => exact howed
  | master x | meters x => cases x <;> simp [step,hp] at h
  | upgrade ok | greet ok | subscribe ok => simp [step,hp] at h
  | push ok => simp [step,hp,push,Broadcast.Channel.recv,hle] at h

theorem events_prefix {s t : Session} {a : Step} (h : step dsp s a = some t) :
    s.events.sent <+: t.events.sent := by
  cases moves_of_step h with
  | event item => exact List.prefix_append _ _
  | _ => exact List.prefix_rfl

def StreamsFor (k : ℕ) (item : Responses) (s : Session) : Prop :=
  s.poll = false ∧ (∃ stream last, s.phase = .streaming stream last) ∧
    s.events.sent[k]? = some item

def ReadPast (k : ℕ) (s : Session) : Prop :=
  ∃ stream last, s.phase = .streaming stream last ∧ k < stream.next

def leftUpTo (k : ℕ) (s : Session) : ℕ := match s.phase with
  | .streaming stream _ => k+1-stream.next
  | _ => 0

theorem poll_step {s t : Session} {a : Step} (h : step dsp s a = some t) : t.poll = s.poll := by
  cases moves_of_step h <;> rfl

theorem streamsFor_step {k : ℕ} {item : Responses} {s t : Session} {a : Step}
    (hs : StreamsFor k item s) (hsucceeds : a.Succeeds) (h : step dsp s a = some t) :
    StreamsFor k item t := by
  obtain ⟨hpoll,⟨stream,last,hp⟩,hitem⟩ := hs
  obtain ⟨stream',last',hp',-⟩ := streaming_step hp hpoll hsucceeds h
  refine ⟨(poll_step h).trans hpoll,⟨stream',last',hp'⟩,?_⟩
  obtain ⟨rest,hrest⟩ := events_prefix h
  rw [← hrest]
  exact (List.getElem?_append_left (List.getElem?_eq_some_iff.mp hitem).1).trans hitem

theorem ReadPast.next_le {k : ℕ} {s : Session} (hnot : ¬ReadPast k s)
    {stream : Broadcast.Receiver} {last : StatusSummary} (hp : s.phase = .streaming stream last) :
    stream.next ≤ k :=
  Nat.not_lt.mp fun h => hnot ⟨stream,last,hp,h⟩

theorem leftUpTo_lt {k : ℕ} {item : Responses} {s t : Session} {a : Step}
    (hs : StreamsFor k item s) (hnot : ¬ReadPast k s) (howed : Owed a)
    (h : step dsp s a = some t) : leftUpTo k t < leftUpTo k s := by
  obtain ⟨-,⟨stream,last,hp⟩,-⟩ := hs
  have hle := ReadPast.next_le hnot hp
  have hleft : leftUpTo k s = k+1-stream.next := by simp [leftUpTo,hp]
  rw [hleft]
  cases moves_of_step h with
  | event item => exact howed.elim
  | close a hfail =>
    simp only [leftUpTo]
    omega
  | master m hp' | meters i o m hp' | upgrade status hp' | greet status hp'
  | subscribe status hp' => rw [hp] at hp'; cases hp'
  | push stream₂ last₂ item stream' m hp' hrecv hm
  | skip ok stream₂ last₂ item stream' hp' hrecv hm =>
    rw [hp] at hp'
    cases hp'
    have := (Broadcast.recv_next hrecv).1
    simp only [leftUpTo]
    omega
  | levels i o stream₂ last₂ hp' => exact howed.elim
  | polled m stream₂ last₂ hp' hpoll' => exact howed.elim
  | idle a stream₂ last₂ hp' hidle => exact absurd howed hidle

theorem leftUpTo_le {k : ℕ} {item : Responses} {s t : Session} {a : Step}
    (hs : StreamsFor k item s) (hsucceeds : a.Succeeds) (h : step dsp s a = some t) :
    leftUpTo k t ≤ leftUpTo k s := by
  obtain ⟨hpoll,⟨stream,last,hp⟩,-⟩ := hs
  obtain ⟨stream',last',hp',hstream⟩ := streaming_step hp hpoll hsucceeds h
  simp only [leftUpTo,hp,hp']
  rcases hstream with rfl | ⟨_,_,-,hrecv,-⟩
  · exact le_rfl
  · have := (Broadcast.recv_next hrecv).1
    omega

/-- A fair handler reads on past every event. -/
theorem eventually_readPast {e : Execution (step dsp)} {k : ℕ} {item : Responses}
    (hfair : e.Fair Owed) (hsucceeds : ∀ n a, e.label n = some a → a.Succeeds)
    (h0 : StreamsFor k item (e.state 0)) : ∃ n, ReadPast k (e.state n) := by
  by_contra hnever
  push Not at hnever
  have hstep : ∀ n a, e.label n = some a → StreamsFor k item (e.state n) →
      StreamsFor k item (e.state (n+1)) :=
    fun n a hl hs => streamsFor_step hs (hsucceeds n a hl) (e.step_of_label hl)
  have hread := e.eventually_of_measure (I := fun s => StreamsFor k item s ∧ ¬ReadPast k s)
    (P := ReadPast k) (leftUpTo k) hfair ⟨h0,hnever 0⟩
    (fun n a hl hs => ⟨hstep n a hl hs.1,hnever (n+1)⟩) ?_ ?_ ?_
  · obtain ⟨n,hn⟩ := hread
    exact hnever n hn
  · rintro s ⟨⟨-,⟨stream,last,hp⟩,hitem⟩,hnot⟩ -
    have hle := ReadPast.next_le hnot hp
    have hlt := (List.getElem?_eq_some_iff.mp hitem).1
    obtain ⟨t,ht⟩ := push_enabled dsp hp (by omega)
    exact ⟨.push true,t,trivial,ht⟩
  · exact fun s a t hs howed h => leftUpTo_lt hs.1 hs.2 howed h
  · exact fun n a hl hs => leftUpTo_le hs.1 (hsucceeds n a hl) (e.step_of_label hl)

theorem forwarded_at {e : Execution (step dsp)} {k : ℕ} {item : Responses} {master : MasterStatus}
    (hsucceeds : ∀ n a, e.label n = some a → a.Succeeds)
    (hm : dsp.statusUpdate item = some master) (h0 : StreamsFor k item (e.state 0))
    (hnot : ¬ReadPast k (e.state 0)) {n : ℕ} (hn : ReadPast k (e.state n)) :
    ∃ m last, e.label m = some (.push true) ∧ (e.state m).phase = .streaming ⟨k⟩ last ∧
      (e.state (m+1)).sent = (e.state m).sent ++ [.pushed master] := by
  classical
  have hall := e.invariant (I := StreamsFor k item) h0 fun n a hl hs =>
    streamsFor_step hs (hsucceeds n a hl) (e.step_of_label hl)
  have hex : ∃ n, ReadPast k (e.state n) := ⟨n,hn⟩
  obtain ⟨m,hfirst⟩ := Nat.exists_eq_succ_of_ne_zero
    (show Nat.find hex ≠ 0 from fun hz => hnot (hz ▸ Nat.find_spec hex))
  have hpast : ReadPast k (e.state (m+1)) := by
    have hspec := Nat.find_spec hex
    rwa [hfirst] at hspec
  have hbefore : ¬ReadPast k (e.state m) := Nat.find_min hex (by omega)
  obtain ⟨hpoll,⟨stream,last,hp⟩,hitem⟩ := hall m
  have hle := ReadPast.next_le hbefore hp
  obtain ⟨stream₂,last₂,hp₂,hlt⟩ := hpast
  cases hl : e.label m with
  | none =>
    have hsame := e.next m
    rw [hl] at hsame
    exact absurd ⟨stream₂,last₂,hsame ▸ hp₂,hlt⟩ hbefore
  | some a =>
    obtain ⟨stream',last',hp',hstream⟩ :=
      streaming_step hp hpoll (hsucceeds m a hl) (e.step_of_label hl)
    rw [hp'] at hp₂
    cases hp₂
    rcases hstream with rfl | ⟨item',ok,rfl,hrecv,hsent⟩
    · omega
    · -- the event that is taken is the `k`-th
      obtain ⟨hnext,hlen⟩ := Broadcast.recv_next hrecv
      have hk : stream.next = k := by omega
      obtain rfl : item' = item := by
        have hget := Broadcast.recv_of_lt (c := (e.state m).events) (r := stream) hlen
        rw [hrecv] at hget
        have hat := hitem
        rw [← hk,List.getElem?_eq_getElem hlen] at hat
        exact (Prod.mk.inj (Option.some.inj hget)).1.trans (Option.some.inj hat)
      obtain ⟨hok,hpushed⟩ := hsent master hm
      subst hok
      exact ⟨m,last,hl,by rw [hp,← hk],hpushed⟩

theorem Serves.forwarded {e : Execution (step dsp)} (h : Serves before e) (hquiet : QuietWindow e)
    {n : ℕ} {item : Responses} {master : MasterStatus} (hl : e.label n = some (.event item))
    (hm : dsp.statusUpdate item = some master) (hanswered : (e.state n).Answered) :
    Forwarded e n master := by
  obtain ⟨hpoll,hcaught⟩ := h.caught hquiet n
  have hwindow := hquiet n item hl (by rw [hm]; simp)
  have hstreaming : ∃ stream last, (e.state n).phase = .streaming stream last ∧
      stream.next ≤ (e.state n).events.sent.length := by
    cases hp : (e.state n).phase with
    | fetching => exact absurd hp hanswered
    | metering m | fetched status | upgraded status | greeted status =>
      exact absurd (by simp [Session.InWindow,hp]) hwindow
    | streaming stream last =>
      rw [hp] at hcaught
      exact ⟨stream,last,rfl,hcaught.1⟩
    | closed =>
      rw [hp] at hcaught
      exact hcaught.elim
  obtain ⟨stream,last,hp,hle⟩ := hstreaming
  have hnext := Option.some.inj (e.step_of_label hl)
  have h0 : StreamsFor (e.state n).events.sent.length item ((e.drop (n+1)).state 0) := by
    show StreamsFor _ item (e.state (n+1))
    rw [← hnext]
    exact ⟨hpoll,⟨stream,last,hp⟩,by simp [Broadcast.Channel.send]⟩
  have hnot : ¬ReadPast (e.state n).events.sent.length ((e.drop (n+1)).state 0) := by
    show ¬ReadPast _ (e.state (n+1))
    rw [← hnext]
    rintro ⟨stream',last',hp',hlt⟩
    rw [show ({ e.state n with events := (e.state n).events.send item } : Session).phase =
      (e.state n).phase from rfl,hp] at hp'
    cases hp'
    omega
  have hsucceeds : ∀ m a, (e.drop (n+1)).label m = some a → a.Succeeds :=
    fun m a hl => h.succeeds (n+1+m) a hl
  obtain ⟨j,hj⟩ := eventually_readPast (h.fair.drop (n+1)) hsucceeds h0
  obtain ⟨m,last',hlabel,hphase,hsent⟩ := forwarded_at hsucceeds hm h0 hnot hj
  exact ⟨n+1+m,last',by omega,hlabel,hphase,hsent⟩

/-- Nothing is lost exactly when nothing is announced between the answer and the subscription. -/
theorem nothingLost_iff {e : Execution (step dsp)} (h : Serves before e) :
    NothingLost before e ↔ QuietWindow e := by
  constructor
  · rintro ⟨hforwarded,-⟩ n item hl hupdate hwindow
    obtain ⟨master,hm⟩ := Option.ne_none_iff_exists'.mp hupdate
    refine lost_of_inWindow hl hwindow (hforwarded n item master hl hm fun hp => ?_)
    simp [Session.InWindow,hp] at hwindow
  · intro hquiet
    refine ⟨fun n item master hl hm => h.forwarded hquiet hl hm,fun n hdrained => ?_⟩
    obtain ⟨stream,last,hp,hpending⟩ := hdrained
    have hcaught := (h.caught hquiet n).2
    rw [hp] at hcaught
    have hmerged := hcaught.2
    rwa [hpending] at hmerged

theorem serves_ofRun {levels : Bool} {as : List Step} {s : Session}
    (hrun : run (step dsp) (start levels false) (.master (.ok before) :: as) = some s)
    (hend : ¬Enabled (step dsp) Owed s) (hsucceeds : ∀ a ∈ as, a.Succeeds)
    (honce : ∀ m, .master (.ok m) ∉ as) :
    Serves before (Execution.ofRun (step dsp) _ _ (by rw [hrun]; rfl)) := by
  refine ⟨⟨levels,rfl⟩,Execution.ofRun_fair hrun hend,fun n a hl => ?_,fun n m hl => ?_⟩
  · rcases List.mem_cons.mp (List.mem_of_getElem? hl) with rfl | ha
    · exact ⟨before,rfl⟩
    · exact hsucceeds a ha
  · cases n with
    | zero =>
      cases hl
      rfl
    | succ n =>
      have hmem : as[n]? = some (.master (.ok m)) := hl
      exact absurd (List.mem_of_getElem? hmem) (honce m)

def mutedLater : List Step :=
  [.meters (.ok ([],[])),.upgrade true,.greet true,.subscribe true,.event muted,.push true]

theorem run_mutedLater : run (step mock) (start false false) (.master (.ok playing) :: mutedLater) =
    some ⟨false,false,⟨[muted]⟩,.streaming ⟨1⟩ ⟨playing,[],[]⟩,
      [.initial ⟨playing,[],[]⟩,.pushed ⟨none,none,none,some true,none⟩]⟩ := by
  rfl

def laterExecution : Execution (step mock) :=
  .ofRun _ _ _ (Option.isSome_iff_exists.mpr ⟨_,run_mutedLater⟩)

theorem serves_later : Serves playing laterExecution :=
  serves_ofRun run_mutedLater (not_enabled_of_drained rfl le_rfl)
    (by simp [mutedLater,Step.Succeeds]) (by simp [mutedLater])

theorem nothingLost_later : NothingLost playing laterExecution := by
  refine (nothingLost_iff serves_later).mpr fun n item hl _ hwindow => ?_
  match n with
  | 0 | 1 | 2 | 3 | 4 => cases hl
  | 5 => exact hwindow
  | 6 => cases hl
  | n+7 => cases hl

def mutedEarly : List Step :=
  [.meters (.ok ([],[])),.upgrade true,.event muted,.greet true,.subscribe true]

theorem run_mutedEarly : run (step mock) (start false false) (.master (.ok playing) :: mutedEarly) =
    some ⟨false,false,⟨[muted]⟩,.streaming ⟨1⟩ ⟨playing,[],[]⟩,[.initial ⟨playing,[],[]⟩]⟩ := by
  rfl

def earlyExecution : Execution (step mock) :=
  .ofRun _ _ _ (Option.isSome_iff_exists.mpr ⟨_,run_mutedEarly⟩)

theorem lost_early : Serves playing earlyExecution ∧ ¬NothingLost playing earlyExecution := by
  refine ⟨serves_ofRun run_mutedEarly (not_enabled_of_drained rfl le_rfl)
    (by simp [mutedEarly,Step.Succeeds]) (by simp [mutedEarly]),?_⟩
  rintro ⟨hforwarded,-⟩
  have hlabel : earlyExecution.label 3 = some (.event muted) := rfl
  have hanswered : (earlyExecution.state 3).Answered := by
    intro h
    cases h
  exact lost_of_inWindow hlabel trivial
    (hforwarded 3 muted ⟨none,none,none,some true,none⟩ hlabel rfl hanswered)

end Websocket
end Minidsp
