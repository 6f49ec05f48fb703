import Minidsp.OneCall

/-! The tasks of the service see one device that answers each of them at once: the calls of the
multiplexer, its queue, the wire and the receive task refine the atomic system. -/
namespace Minidsp
namespace Service

variable {ι σ α : Type} {s t : State ι σ α}
variable {front own unsent : List Multiplexer.PendingCommandTuple}

/-- The device has answered the commands it took as it would answer them one after the other,
and the n-th answer goes to the n-th oneshot. -/
structure Served (peer : Peer σ) (d : σ) (s : State ι σ α) (answers : List Responses) : Prop where
  taken : s.taken ≤ s.mux.sink.length
  serve : peer.serve d ((s.mux.sink.take s.taken).map Prod.fst) = (answers,s.device)
  oneshots : ∀ (n : ℕ) (p : Multiplexer.PendingCommandTuple) (r : Responses),
    s.mux.oneshots[n]? = some (p,.ok r) → answers[n]? = some r
  inbound : s.mux.recvTask = .looping →
    s.mux.oneshots.length ≤ s.taken ∧ s.inbound = answers.drop s.mux.oneshots.length

namespace Served

variable {peer : Peer σ} {d : σ} {answers : List Responses}

theorem start_served (tasks : ι → Call α) : Served peer d (start tasks d) [] where
  taken := le_rfl
  serve := rfl
  oneshots _ _ _ h := by cases h
  inbound _ := ⟨le_rfl,rfl⟩

theorem length (hs : Served peer d s answers) : answers.length = s.taken := by
  have h := congrArg (fun x => x.1.length) hs.serve
  simpa [Nat.min_eq_left hs.taken] using h.symm

theorem same (hs : Served peer d s answers) (hsink : s.mux.sink <+: t.mux.sink)
    (ho : t.mux.oneshots = s.mux.oneshots) (hr : t.mux.recvTask = .looping →
      s.mux.recvTask = .looping) (hd : t.device = s.device) (ht : t.taken = s.taken)
    (hi : t.inbound = s.inbound) : Served peer d t answers where
  taken := ht ▸ hs.taken.trans hsink.length_le
  serve := by
    obtain ⟨more,hmore⟩ := hsink
    rw [ht,hd,← hmore,List.take_append_of_le_length hs.taken]
    exact hs.serve
  oneshots := ho ▸ hs.oneshots
  inbound hl := by
    rw [ho,ht,hi]
    exact hs.inbound (hr hl)

theorem answer (hs : Served peer d s answers) {p : Multiplexer.PendingCommandTuple}
    (hp : s.mux.sink[s.taken]? = some p) : Served peer d
      { s with
        device := (peer s.device p.1).2
        taken := s.taken+1
        inbound := s.inbound ++ [(peer s.device p.1).1] }
      (answers ++ [(peer s.device p.1).1]) where
  taken := by
    obtain ⟨hlt,-⟩ := List.getElem?_eq_some_iff.mp hp
    exact hlt
  serve := by
    rw [List.take_add_one,hp,Option.toList_some,List.map_append,List.map_singleton,
      Peer.serve_concat,hs.serve]
  oneshots n q r hn := by
    have h := hs.oneshots n q r hn
    obtain ⟨hlt,-⟩ := List.getElem?_eq_some_iff.mp h
    rwa [List.getElem?_append_left hlt]
  inbound hl := by
    obtain ⟨hle,hi⟩ := hs.inbound hl
    refine ⟨Nat.le_succ_of_le hle,?_⟩
    rw [hi,List.drop_append_of_le_length (hs.length ▸ hle)]

theorem front_matches (hs : Served peer d s answers) (hp : peer.Fitting)
    (ht : Tidy s front own unsent) (hl : s.mux.recvTask = .looping) {r : Responses}
    {inbound : List Responses} (hi : s.inbound = r :: inbound) :
    answers[s.mux.oneshots.length]? = some r ∧ ∃ q k rest,
      s.mux.pendingCommand = (q,k) :: rest ∧ q.matchesResponse r = true := by
  obtain ⟨hle,hin⟩ := hs.inbound hl
  have hr : answers[s.mux.oneshots.length]? = some r := by
    rw [← List.head?_drop,← hin,hi]
    rfl
  obtain ⟨hlt,-⟩ := List.getElem?_eq_some_iff.mp hr
  rw [hs.length] at hlt
  have hget : s.mux.sink[s.mux.oneshots.length]? =
      some (s.mux.sink.get ⟨s.mux.oneshots.length,hlt.trans_le hs.taken⟩) :=
    List.getElem?_eq_getElem _
  generalize s.mux.sink.get _ = p at hget
  have hfit : p.1.matchesResponse r = true := by
    have h := hr
    rw [show answers = _ from (congrArg Prod.fst hs.serve).symm,Peer.serve_getElem?,
      List.getElem?_map,List.getElem?_take_of_lt hlt,hget] at h
    obtain rfl := Option.some.inj h
    exact hp _ _
  have hpend := congrArg (fun l => l[s.mux.oneshots.length]?) ht.valid.fifo
  simp only [ht.pushed,List.getElem?_append_left (hlt.trans_le hs.taken),hget] at hpend
  rw [List.getElem?_append_right (by simp),List.length_map,Nat.sub_self] at hpend
  cases hq : s.mux.pendingCommand with
  | nil => simp [hq] at hpend
  | cons e rest =>
    rw [hq] at hpend
    obtain rfl : p = e := by simpa using hpend
    exact ⟨hr,p.1,p.2,rest,rfl,hfit⟩

theorem receive (hs : Served peer d s answers) (hp : peer.Fitting)
    (ht : Tidy s front own unsent) (hl : s.mux.recvTask = .looping) {r : Responses}
    {inbound : List Responses} (hi : s.inbound = r :: inbound) :
    Served peer d { s with mux := Multiplexer.dispatch s.mux r, inbound } answers := by
  obtain ⟨hr,q,k,rest,hpend,hm⟩ := hs.front_matches hp ht hl hi
  rw [Multiplexer.dispatch_of_matches hpend hm]
  obtain ⟨hle,hin⟩ := hs.inbound hl
  refine ⟨hs.taken,hs.serve,?_,fun _ => ?_⟩
  · intro n p r' hn
    rcases Nat.lt_or_ge n s.mux.oneshots.length with hlt | hge
    · exact hs.oneshots n p r' (by rwa [List.getElem?_append_left hlt] at hn)
    · rw [List.getElem?_append_right hge] at hn
      cases hz : n - s.mux.oneshots.length with
      | zero =>
        rw [hz] at hn
        obtain ⟨-,hok⟩ := Prod.mk.inj (Option.some.inj hn)
        obtain rfl := Except.ok.inj hok
        rwa [show n = s.mux.oneshots.length by omega]
      | succ m => simp [hz] at hn
  · obtain ⟨hlt,-⟩ := List.getElem?_eq_some_iff.mp hr
    refine ⟨by simpa [← hs.length,Nat.add_one_le_iff] using hlt,?_⟩
    show inbound = answers.drop (s.mux.oneshots ++ _).length
    rw [List.length_append,List.length_singleton,← List.drop_drop,← hin,hi]
    rfl

theorem closed (hs : Served peer d s answers) {mux : Multiplexer.State}
    (hsink : mux.sink = s.mux.sink) (hl : mux.recvTask ≠ .looping)
    (ho : ∃ e, mux.oneshots = s.mux.oneshots ++ e ∧ ∀ o ∈ e, ∃ x, o.2 = .error x) :
    Served peer d { s with mux } answers where
  taken := hsink ▸ hs.taken
  serve := hsink ▸ hs.serve
  oneshots n p r hn := by
    obtain ⟨e,he,hall⟩ := ho
    have hn' : mux.oneshots[n]? = some (p,.ok r) := hn
    rw [he] at hn'
    rcases Nat.lt_or_ge n s.mux.oneshots.length with hlt | hge
    · exact hs.oneshots n p r (by rwa [List.getElem?_append_left hlt] at hn')
    · rw [List.getElem?_append_right hge] at hn'
      obtain ⟨x,hx⟩ := hall _ (List.mem_of_getElem? hn')
      cases hx
  inbound h := absurd h hl

/-- The response a call returns is the one the device gave to its command. -/
theorem returned (hs : Served peer d s answers) {c : ι} {k : ℕ} {q : Commands}
    {next : Except MiniDSPError Responses → Call α} (ht : Tidy s front own unsent)
    (hg : s.guard = some (c,k)) (hc : s.tasks c = .ask q next) {r : Responses}
    (hk : s.mux.calls k = .returned (.ok r)) :
    own = [(q,k)] ∧ r = (peer (peer.serve d (front.map Prod.fst)).2 q).1 := by
  obtain ⟨rfl,hb⟩ | ⟨rfl,-⟩ := ht.underway.cases hg hc
  · rw [hk] at hb
    exact hb.elim
  refine ⟨rfl,?_⟩
  obtain ⟨cmd,hmem⟩ := ht.valid.entered.returned k r hk
  obtain ⟨n,hn⟩ := List.mem_iff_getElem?.mp hmem
  have hr := hs.oneshots n _ r hn
  have hfifo : s.mux.enqueued[n]? = some (cmd,k) := by
    obtain ⟨hlt,-⟩ := List.getElem?_eq_some_iff.mp hn
    rw [ht.valid.fifo,List.getElem?_append_left (by simpa using hlt),List.getElem?_map,hn]
    rfl
  have hlast : s.mux.enqueued[front.length]? = some (q,k) := by
    rw [ht.pushed,ht.wire]
    simp
  have hpos := place_unique ht.valid hfifo hlast rfl
  subst hpos
  obtain ⟨hlt,-⟩ := List.getElem?_eq_some_iff.mp hr
  rw [hs.length] at hlt
  rw [show answers = _ from (congrArg Prod.fst hs.serve).symm,Peer.serve_getElem?,
    List.getElem?_map,List.getElem?_take_of_lt hlt,ht.wire] at hr
  simp only [List.getElem?_append_right le_rfl,Nat.sub_self,List.getElem?_cons_zero,Option.map_some,
    Option.some.injEq] at hr
  rw [← hr,← List.map_take,List.take_take,Nat.min_eq_left hlt.le,List.take_left]

section Steps

variable [DecidableEq ι] (hs : Served peer d s answers)
include hs

theorem poll {p : Poll} (h : step peer s (.poll p) = some t) : Served peer d t answers := by
  obtain ⟨c,k,q,next,mux,-,-,hmux,rfl⟩ := poll_iff.mp h
  have hsink := sink_prefix hmux
  have hsteps : (p.label k q).atSink = true → Served peer d { s with mux } answers := by
    intro ha
    obtain ⟨-,-,hr,ho,-,-,-⟩ := Multiplexer.atSink_frame ha hmux
    exact hs.same hsink ho (fun hl => hr ▸ hl) rfl rfl rfl
  cases p with
  | enqueue =>
    obtain ⟨-,rfl⟩ := Multiplexer.enqueue_iff.mp hmux
    cases htx : s.mux.eventTx with
    | false =>
      simp only [htx,Bool.false_eq_true,if_false] at hsink ⊢
      exact hs.same hsink rfl id rfl rfl rfl
    | true =>
      simp only [htx,if_true] at hsink ⊢
      exact hs.same hsink rfl id rfl rfl rfl
  | _ => exact hsteps rfl

theorem stray {item : Except MiniDSPError Responses} (hf : Faithful s (.stray item))
    (h : step peer s (.stray item) = some t) : Served peer d t answers := by
  obtain ⟨mux,hrecv,rfl⟩ := stray_iff.mp h
  cases item with
  | ok r =>
    obtain ⟨-,rfl⟩ := Multiplexer.recv_ok_iff.mp hrecv
    rw [Multiplexer.dispatch_of_not_matches hf]
    exact hs.same List.prefix_rfl rfl id rfl rfl rfl
  | error e =>
    obtain ⟨-,rfl | rfl⟩ := Multiplexer.recv_error hrecv
    · exact hs
    · exact hs.closed rfl nofun ⟨[],(List.append_nil _).symm,by simp⟩

theorem ending {a : Ending} (h : step peer s (.ending a) = some t) : Served peer d t answers := by
  obtain ⟨mux,hmux,rfl⟩ := ending_iff.mp h
  cases a with
  | streamEnd =>
    obtain ⟨-,rfl⟩ := Multiplexer.streamEnd_iff.mp hmux
    exact hs.closed rfl nofun ⟨[],(List.append_nil _).symm,by simp⟩
  | takeTx =>
    obtain ⟨-,rfl⟩ := Multiplexer.takeTx_iff.mp hmux
    exact hs.closed rfl nofun ⟨[],(List.append_nil _).symm,by simp⟩
  | drain =>
    obtain ⟨hr,⟨-,rfl⟩ | ⟨p,_,-,rfl⟩⟩ := Multiplexer.drain_iff.mp hmux
    · exact hs.closed rfl nofun ⟨[],(List.append_nil _).symm,by simp⟩
    · refine hs.closed rfl (by simp [hr]) ⟨_,rfl,fun o ho => ?_⟩
      obtain rfl := List.mem_singleton.mp ho
      exact ⟨_,rfl⟩
  | shutdown =>
    obtain rfl := Multiplexer.shutdown_eq hmux
    exact hs.same List.prefix_rfl rfl id rfl rfl rfl

theorem timeout (h : step peer s .timeout = some t) : Served peer d t answers := by
  obtain ⟨c,k,q,next,mux,-,-,hdrop,rfl⟩ := timeout_iff.mp h
  obtain ⟨-,rfl⟩ := Multiplexer.drop_iff.mp hdrop
  exact hs.same List.prefix_rfl rfl id rfl rfl rfl

end Steps

end Served

/-- The state of the atomic system a state of the service stands for: the device has taken the
commands of all calls but the one under way. -/
def Refines (peer : Peer σ) (d : σ) (s : State ι σ α)
    (ab : Dialogue.Shared Commands Responses MiniDSPError α ι σ) : Prop :=
  ∃ front own unsent answers, Tidy s front own unsent ∧ Served peer d s answers ∧
    ab.clients = s.tasks ∧ ab.device = (peer.serve d (front.map Prod.fst)).2

/-- The sink and the receive task are there, and no call has come back with an error. -/
structure Healthy (s : State ι σ α) : Prop where
  write : s.mux.write = true
  recvTask : s.mux.recvTask = .looping
  calls : ∀ j e, s.mux.calls j ≠ .returned (.error e)
  oneshots : ∀ p e, (p,.error e) ∉ s.mux.oneshots

theorem start_refines {peer : Peer σ} {d : σ} (tasks : ι → Call α) :
    Refines peer d (start tasks d) ⟨d,tasks⟩ :=
  ⟨[],[],[],[],Tidy.start_tidy tasks d,Served.start_served tasks,rfl,rfl⟩

/-- When no call is under way and the device has taken all commands, it is in the state of the
atomic system. -/
theorem Refines.device {peer : Peer σ} {d : σ}
    {ab : Dialogue.Shared Commands Responses MiniDSPError α ι σ} (hs : Refines peer d s ab)
    (hg : s.guard = none) (ht : s.taken = s.mux.sink.length) : ab.device = s.device := by
  obtain ⟨front,own,unsent,answers,htidy,hsv,-,hdevice⟩ := hs
  have hown : own = [] := by
    cases htidy.underway with
    | free => rfl
    | before => rfl
    | after hg' => cases hg.symm.trans hg'
  have hserve := hsv.serve
  rw [ht,List.take_length,htidy.wire,hown,List.append_nil] at hserve
  rw [hdevice,hserve]

theorem start_healthy (tasks : ι → Call α) (d : σ) : Healthy (start tasks d) where
  write := rfl
  recvTask := rfl
  calls _ _ := nofun
  oneshots _ _ h := absurd h List.not_mem_nil

theorem Healthy.move (hs : Healthy s) {mux : Multiplexer.State} {k : ℕ} {x : Multiplexer.Call}
    (hw : mux.write = s.mux.write) (hr : mux.recvTask = s.mux.recvTask)
    (hcalls : mux.calls = Function.update s.mux.calls k x) (ho : mux.oneshots = s.mux.oneshots)
    (hx : ∀ e, x ≠ .returned (.error e)) : Healthy { s with mux } where
  write := hw.trans hs.write
  recvTask := hr.trans hs.recvTask
  calls j := by
    simp only [hcalls,Function.update_apply]
    split_ifs
    · exact hx
    · exact hs.calls j
  oneshots p e := by
    simp only [ho]
    exact hs.oneshots p e

theorem Healthy.poll (hs : Healthy s) (hv : Multiplexer.Valid s.mux) {mux : Multiplexer.State}
    {p : Poll} {k : ℕ} {q : Commands} (hp : ∀ e, p ≠ .sendError e)
    (h : Multiplexer.step s.mux (p.label k q) = some mux) : Healthy { s with mux } := by
  cases p with
  | enqueue =>
    obtain ⟨-,rfl⟩ := Multiplexer.enqueue_iff.mp h
    rw [if_pos (hv.eventTx.mpr (Or.inl hs.recvTask))]
    exact hs.move rfl rfl rfl rfl nofun
  | lock =>
    obtain ⟨cmd,-,rfl⟩ := Multiplexer.lock_iff.mp h
    exact hs.move rfl rfl rfl rfl nofun
  | send =>
    obtain ⟨cmd,-,-,rfl⟩ := Multiplexer.send_iff.mp h
    rw [if_pos hs.write]
    exact hs.move rfl rfl rfl rfl nofun
  | sendError e => exact absurd rfl (hp e)
  | flush =>
    obtain ⟨cmd,-,-,rfl⟩ := Multiplexer.flush_iff.mp h
    exact hs.move rfl rfl rfl rfl nofun
  | resume =>
    obtain ⟨cmd,x,-,-,hx,rfl⟩ := Multiplexer.resume_iff.mp h
    refine hs.move rfl rfl rfl rfl ?_
    rintro e ⟨rfl⟩
    obtain ⟨cmd',hmem⟩ := Multiplexer.mem_of_reply hx
    exact hs.oneshots _ e hmem

theorem Healthy.dispatch (hs : Healthy s) (r : Responses) (inbound : List Responses) :
    Healthy { s with mux := Multiplexer.dispatch s.mux r, inbound } where
  write := (dispatch_sink s.mux r).2.trans hs.write
  recvTask := (Multiplexer.dispatch_recvTask s.mux r).trans hs.recvTask
  calls := by
    simp only [Multiplexer.dispatch_calls]
    exact hs.calls
  oneshots p e hmem := by
    rcases Multiplexer.dispatch_cases s.mux r with ⟨cmd,i,rest,-,-,he⟩ | ⟨-,he⟩
    · simp only [he,List.mem_append,List.mem_singleton,Prod.mk.injEq,reduceCtorEq,and_false,
        or_false] at hmem
      exact hs.oneshots p e hmem
    · simp only [he] at hmem
      exact hs.oneshots p e hmem

theorem step_healthy [DecidableEq ι] {peer : Peer σ} {a : Label ι} (hs : Healthy s)
    (hv : Multiplexer.Valid s.mux) (ha : a.Working) (h : step peer s a = some t) : Healthy t := by
  cases a with
  | acquire c =>
    obtain ⟨-,-,rfl⟩ := acquire_iff.mp h
    exact ⟨hs.write,hs.recvTask,hs.calls,hs.oneshots⟩
  | poll p =>
    obtain ⟨c,k,q,next,mux,-,-,hmux,rfl⟩ := poll_iff.mp h
    refine hs.poll hv ?_ hmux
    rintro e rfl
    exact ha
  | finish =>
    obtain ⟨c,k,q,next,x,-,-,-,rfl⟩ := finish_iff.mp h
    exact ⟨hs.write,hs.recvTask,hs.calls,hs.oneshots⟩
  | answer =>
    obtain ⟨p,-,rfl⟩ := answer_iff.mp h
    exact ⟨hs.write,hs.recvTask,hs.calls,hs.oneshots⟩
  | receive =>
    obtain ⟨r,inbound,-,-,rfl⟩ := receive_iff.mp h
    exact hs.dispatch r inbound
  | stray item =>
    obtain ⟨mux,hrecv,rfl⟩ := stray_iff.mp h
    cases item with
    | ok r =>
      obtain ⟨-,rfl⟩ := Multiplexer.recv_ok_iff.mp hrecv
      exact hs.dispatch r s.inbound
    | error e =>
      obtain ⟨p,rfl⟩ := ha
      obtain rfl : s.mux = mux := by simpa [Multiplexer.recv,hs.recvTask] using hrecv
      exact hs
  | timeout =>
    obtain ⟨c,k,q,next,mux,-,-,hdrop,rfl⟩ := timeout_iff.mp h
    obtain ⟨-,rfl⟩ := Multiplexer.drop_iff.mp hdrop
    have hmux : Healthy { s with
        mux := { s.mux.setCall k .dropped with writeQueue := s.mux.writeQueue.erase k } } :=
      hs.move (k := k) (x := .dropped) rfl rfl rfl rfl (by simp)
    exact ⟨hmux.write,hmux.recvTask,hmux.calls,hmux.oneshots⟩
  | ending a => exact ha.elim

section Refinement

variable [DecidableEq ι] {peer : Peer σ} {d : σ}
variable {ab : Dialogue.Shared Commands Responses MiniDSPError α ι σ}

/-- The end of a call is a step of the atomic system: its question was answered, its answer was
lost, or the device never saw it. -/
theorem release_step {answers : List Responses} {c : ι} {k : ℕ} {q : Commands}
    {next : Except MiniDSPError Responses → Call α} {x : Except MiniDSPError Responses}
    (hown : own = [] ∨ own = [(q,k)]) (hs : Served peer d t answers)
    (ht : Tidy t (front ++ own) [] unsent) (hclients : ab.clients = s.tasks)
    (hdevice : ab.device = (peer.serve d (front.map Prod.fst)).2) (hc : s.tasks c = .ask q next)
    (htasks : t.tasks = Function.update s.tasks c (next x))
    (hx : ∀ r, x = .ok r → own = [(q,k)] ∧ r = (peer ab.device q).1) :
    ∃ fate ab', Dialogue.Shared.step peer.device ab (c,fate) = some ab' ∧ Refines peer d t ab' ∧
      (∀ r, x = .ok r → fate = .answered) := by
  have htarget : ∀ fate, Dialogue.Shared.ask peer.device ab.device q fate =
      (x,(peer.serve d ((front ++ own).map Prod.fst)).2) → (∀ r, x = .ok r → fate = .answered) →
      ∃ fate ab', Dialogue.Shared.step peer.device ab (c,fate) = some ab' ∧ Refines peer d t ab' ∧
        (∀ r, x = .ok r → fate = .answered) := by
    intro fate hask hfate
    refine ⟨fate,⟨_,Function.update ab.clients c (next x)⟩,Dialogue.Shared.step_iff.mpr
      ⟨q,next,by rw [hclients,hc],by rw [hask]⟩,
      ⟨_,_,_,_,ht,hs,by rw [hclients,htasks],rfl⟩,hfate⟩
  cases x with
  | ok r =>
    obtain ⟨rfl,rfl⟩ := hx r rfl
    refine htarget .answered ?_ fun _ _ => rfl
    simp [Dialogue.Shared.ask,Peer.device,Peer.serve_concat,hdevice]
  | error e =>
    rcases hown with rfl | rfl
    · refine htarget (.refused e) ?_ (by simp)
      simp [Dialogue.Shared.ask,hdevice]
    · refine htarget (.lost e) ?_ (by simp)
      simp [Dialogue.Shared.ask,Peer.device,Peer.serve_concat,hdevice]

/-- A step of the service is a step of the atomic system or none. -/
theorem step_refines {a : Label ι} (hp : peer.Fitting) (hs : Refines peer d s ab)
    (hf : Faithful s a) (h : step peer s a = some t) :
    Refines peer d t ab ∨ ∃ c fate ab', Dialogue.Shared.step peer.device ab (c,fate) = some ab' ∧
      Refines peer d t ab' ∧ (Healthy s → a.Smooth → fate = .answered) := by
  obtain ⟨front,own,unsent,answers,ht,hsv,hclients,hdevice⟩ := hs
  cases a with
  | acquire c =>
    have ht' := ht.acquire_tidy h
    obtain ⟨-,-,rfl⟩ := acquire_iff.mp h
    exact Or.inl ⟨_,_,_,_,ht',hsv.same List.prefix_rfl rfl id rfl rfl rfl,hclients,hdevice⟩
  | poll p =>
    obtain ⟨own',unsent',ht'⟩ := ht.poll_tidy h
    have hsv' := hsv.poll h
    obtain ⟨c,k,q,next,mux,-,-,-,rfl⟩ := poll_iff.mp h
    exact Or.inl ⟨_,_,_,_,ht',hsv',hclients,hdevice⟩
  | finish =>
    have ht' := ht.finish_tidy h
    obtain ⟨c,k,q,next,x,hg,hc,hk,rfl⟩ := finish_iff.mp h
    have hown : own = [] ∨ own = [(q,k)] := (ht.underway.cases hg hc).imp And.left And.left
    have hx : ∀ r, x = .ok r → own = [(q,k)] ∧ r = (peer ab.device q).1 := by
      rintro r rfl
      rw [hdevice]
      exact hsv.returned ht hg hc hk
    have hsv' : Served peer d (s.release c (next x)) answers :=
      hsv.same List.prefix_rfl rfl id rfl rfl rfl
    obtain ⟨fate,ab',hstep,href,hfate⟩ := release_step hown hsv' ht' hclients hdevice hc rfl hx
    refine Or.inr ⟨c,fate,ab',hstep,href,fun hh _ => ?_⟩
    cases x with
    | ok r => exact hfate r rfl
    | error e => exact absurd hk (hh.calls k e)
  | timeout =>
    have ht' := ht.timeout_tidy hf h
    have hsv' := hsv.timeout h
    obtain ⟨c,k,q,next,mux,hg,hc,-,rfl⟩ := timeout_iff.mp h
    have hown : own = [] ∨ own = [(q,k)] := (ht.underway.cases hg hc).imp And.left And.left
    obtain ⟨fate,ab',hstep,href,-⟩ := release_step hown hsv' ht' hclients hdevice hc rfl nofun
    exact Or.inr ⟨c,fate,ab',hstep,href,fun _ hsm => hsm.elim⟩
  | answer =>
    have ht' := ht.answer_tidy h
    obtain ⟨p,hget,rfl⟩ := answer_iff.mp h
    exact Or.inl ⟨_,_,_,_,ht',hsv.answer hget,hclients,hdevice⟩
  | receive =>
    have ht' := ht.receive_tidy h
    obtain ⟨r,inbound,hi,hl,rfl⟩ := receive_iff.mp h
    exact Or.inl ⟨_,_,_,_,ht',hsv.receive hp ht hl hi,hclients,hdevice⟩
  | stray item =>
    have ht' := ht.stray_tidy h
    have hsv' := hsv.stray hf h
    obtain ⟨mux,-,rfl⟩ := stray_iff.mp h
    exact Or.inl ⟨_,_,_,_,ht',hsv',hclients,hdevice⟩
  | ending a =>
    have ht' := ht.ending_tidy h
    have hsv' := hsv.ending h
    obtain ⟨mux,-,rfl⟩ := ending_iff.mp h
    exact Or.inl ⟨_,_,_,_,ht',hsv',hclients,hdevice⟩

theorem run_refines (hp : peer.Fitting) {as : List (Label ι)} (hs : Refines peer d s ab)
    (hf : Transition.Along (step peer) Faithful s as)
    (h : Transition.run (step peer) s as = some t) :
    ∃ fates ab', Transition.run (Dialogue.Shared.step peer.device) ab fates = some ab' ∧
      Refines peer d t ab' ∧ (Healthy s → (∀ a ∈ as, a.Smooth) →
        Healthy t ∧ ∀ f ∈ fates, f.2 = .answered) := by
  induction as generalizing s ab with
  | nil =>
    obtain rfl : s = t := Option.some.inj h
    exact ⟨[],ab,rfl,hs,fun hh _ => ⟨hh,nofun⟩⟩
  | cons a as ih =>
    obtain ⟨u,hu,ht⟩ := Transition.run_cons_iff.mp h
    obtain ⟨hfa,hfs⟩ := (Transition.along_cons_of hu).mp hf
    have hv : Multiplexer.Valid s.mux := by
      obtain ⟨_,_,_,_,htidy,-⟩ := hs
      exact htidy.valid
    rcases step_refines hp hs hfa hu with href | ⟨c,fate,ab₁,hstep,href,hfate⟩
    · obtain ⟨fates,ab',hrun,href',hsm⟩ := ih href hfs ht
      refine ⟨fates,ab',hrun,href',fun hh hall => ?_⟩
      exact hsm (step_healthy hh hv (hall a (by simp)).working hu) fun b hb => hall b (by simp [hb])
    · obtain ⟨fates,ab',hrun,href',hsm⟩ := ih href hfs ht
      refine ⟨(c,fate) :: fates,ab',Transition.run_cons_iff.mpr ⟨ab₁,hstep,hrun⟩,href',?_⟩
      intro hh hall
      have ha := hall a (by simp)
      obtain ⟨ht',hans⟩ := hsm (step_healthy hh hv ha.working hu) fun b hb => hall b (by simp [hb])
      refine ⟨ht',fun f hmem => ?_⟩
      rcases List.mem_cons.mp hmem with rfl | hmem
      · exact hfate hh ha
      · exact hans f hmem

/-- Whatever the interleaving and the faults of the link, the tasks see a device that answers
one question at a time: every answer is the one the device gives to the question at that moment,
a call that fails was taken by the device once or not at all, and without faults none fails. -/
theorem calls_are_atomic (hp : peer.Fitting) (tasks : ι → Call α) (d : σ) (as : List (Label ι))
    (s : State ι σ α) (h : Transition.run (step peer) (start tasks d) as = some s)
    (hf : Transition.Along (step peer) Faithful (start tasks d) as) :
    ∃ fates ab, Transition.run (Dialogue.Shared.step peer.device) ⟨d,tasks⟩ fates = some ab ∧
      ab.clients = s.tasks ∧
      (s.guard = none → s.taken = s.mux.sink.length → ab.device = s.device) ∧
      ((∀ a ∈ as, a.Smooth) → ∀ f ∈ fates, f.2 = .answered) := by
  obtain ⟨fates,ab,hrun,href,hsm⟩ := run_refines hp (start_refines tasks) hf h
  refine ⟨fates,ab,hrun,?_,href.device,fun hall => (hsm (start_healthy tasks d) hall).2⟩
  obtain ⟨_,_,_,_,-,-,hclients,-⟩ := href
  exact hclients

/-- Two tasks: the first gives its call up once the command has left, and the second gets the
response to its own. -/
theorem calls_are_atomic_after_timeout :
    let tasks : Bool → Call Responses :=
      fun c => .roundtrip (if c then .readHardwareId else .setMute true)
    let as : List (Label Bool) := [.acquire false,.poll .enqueue,.poll .lock,.poll .send,.timeout,
      .acquire true,.poll .enqueue,.poll .lock,.poll .send,.poll .flush,.answer,.answer,.receive,
      .receive,.poll .resume,.finish]
    ∃ s fates ab, Transition.run (step Peer.blank) (start tasks []) as = some s ∧
      s.device = [.setMute true,.readHardwareId] ∧
      Transition.run (Dialogue.Shared.step Peer.blank.device) ⟨[],tasks⟩ fates = some ab ∧
      ab.clients = s.tasks := by
  intro tasks as
  have hrun : (Transition.run (step Peer.blank) (start tasks []) as).map State.device =
    some [.setMute true,.readHardwareId] := rfl
  obtain ⟨s,hs,hdevice⟩ := Option.map_eq_some_iff.mp hrun
  have hf : Transition.Along (step Peer.blank) Faithful (start tasks []) as := by
    iterate 4 refine (Transition.along_cons_of rfl).mpr ⟨trivial,?_⟩
    refine (Transition.along_cons_of rfl).mpr ⟨?_,?_⟩
    · rintro c k ⟨rfl,rfl⟩ - q
      exact nofun
    iterate 10 refine (Transition.along_cons_of rfl).mpr ⟨trivial,?_⟩
    exact (Transition.along_cons_of rfl).mpr ⟨trivial,trivial⟩
  obtain ⟨fates,ab,hab,hclients,-⟩ := calls_are_atomic Peer.blank_fitting tasks [] as s hs hf
  exact ⟨s,fates,ab,hs,hdevice,hab,hclients⟩

end Refinement

end Service
end Minidsp
