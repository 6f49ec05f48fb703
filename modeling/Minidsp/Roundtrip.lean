import Minidsp.Atomicity
import Minidsp.MiniDSP

/-! Runs in which the sink and the receive task stay: no task is ever stuck, and without a
timeout a task that is alone returns what it returns with the device at hand. -/
namespace Minidsp
namespace Service

variable {ι σ α : Type} {s t : State ι σ α} {peer : Peer σ} {d : σ}

/-- The call under way is the only one in the queue of the lock around the sink. -/
def Lined (s : State ι σ α) : Prop :=
  s.mux.writeQueue = (s.guard.map Prod.snd).toList.filter fun k => (s.mux.calls k).atLock

structure Good (peer : Peer σ) (d : σ) (s : State ι σ α) : Prop where
  refines : ∃ ab, Refines peer d s ab
  healthy : Healthy s
  lined : Lined s

theorem start_good (tasks : ι → Call α) : Good peer d (start tasks d) :=
  ⟨⟨_,start_refines tasks⟩,start_healthy tasks d,rfl⟩

theorem holds_of_atLock {c : ι} {k : ℕ} (hs : Good peer d s) (hg : s.guard = some (c,k))
    (hk : (s.mux.calls k).atLock = true) : s.mux.holds k := by
  have h := hs.lined
  rw [Lined,hg] at h
  simp [Multiplexer.State.holds,h,hk]

/-- With the lock free and no call given up, every call has its response: the device has taken
all commands. -/
theorem all_taken (hs : Good peer d s) (hkept : ∀ j, s.mux.calls j ≠ .dropped)
    (hg : s.guard = none) : s.taken = s.mux.sink.length := by
  obtain ⟨_,front,own,unsent,answers,ht,hsv,-,-⟩ := hs.refines
  refine le_antisymm hsv.taken (not_lt.mp fun hlt => ?_)
  have hget : s.mux.enqueued[s.taken]? = some (s.mux.sink.get ⟨s.taken,hlt⟩) := by
    rw [ht.pushed,List.getElem?_append_left hlt]
    exact List.getElem?_eq_getElem hlt
  generalize s.mux.sink.get _ = p at hget
  -- the call of the first command that is not taken has come back with a response
  have hnone : (s.mux.calls p.2).command? = none := by
    by_contra hne
    obtain ⟨cmd,hcmd⟩ := Option.ne_none_iff_exists'.mp hne
    obtain ⟨c,hc⟩ := ht.busy _ _ hcmd
    cases hg.symm.trans hc
  have hret : ∃ r, s.mux.calls p.2 = .returned (.ok r) := by
    have hcalls := hs.healthy.calls p.2
    have hidle := ht.valid.entered.fresh p (List.mem_of_getElem? hget)
    cases hp : s.mux.calls p.2 with
    | returned x =>
      cases x with
      | ok r => exact ⟨r,rfl⟩
      | error e => exact absurd hp (hcalls e)
    | dropped => exact absurd hp (hkept p.2)
    | idle => exact absurd hp hidle
    | _ => simp [hp,Multiplexer.Call.command?] at hnone
  obtain ⟨r,hr⟩ := hret
  obtain ⟨cmd,hmem⟩ := ht.valid.entered.returned p.2 r hr
  obtain ⟨n,hn⟩ := List.mem_iff_getElem?.mp hmem
  obtain ⟨hlt',-⟩ := List.getElem?_eq_some_iff.mp hn
  have hfifo : s.mux.enqueued[n]? = some (cmd,p.2) := by
    rw [ht.valid.fifo,List.getElem?_append_left (by simpa using hlt'),List.getElem?_map,hn]
    rfl
  have hpos := place_unique ht.valid hfifo hget rfl
  have hle := (hsv.inbound hs.healthy.recvTask).1
  omega

section Steps

variable [DecidableEq ι]

theorem poll_lined {p : Poll} (hs : Lined s) (hp : ∀ e, p ≠ .sendError e)
    (hh : Healthy s) (h : step peer s (.poll p) = some t) : Lined t := by
  obtain ⟨c,k,q,next,mux,hg,-,hmux,rfl⟩ := poll_iff.mp h
  simp only [Lined,hg,Option.map_some,Option.toList_some] at hs ⊢
  cases p with
  | enqueue =>
    obtain ⟨hk,rfl⟩ := Multiplexer.enqueue_iff.mp hmux
    cases s.mux.eventTx <;>
      simpa [Multiplexer.push,Multiplexer.refuse,hk,Multiplexer.Call.atLock] using hs
  | lock =>
    obtain ⟨cmd,hk,rfl⟩ := Multiplexer.lock_iff.mp hmux
    simpa [hk,Multiplexer.Call.atLock] using hs
  | send =>
    obtain ⟨cmd,hk,-,rfl⟩ := Multiplexer.send_iff.mp hmux
    rw [if_pos hh.write]
    simpa [hk,Multiplexer.Call.atLock] using hs
  | sendError e => exact absurd rfl (hp e)
  | flush =>
    obtain ⟨cmd,hk,-,rfl⟩ := Multiplexer.flush_iff.mp hmux
    simpa [hk,Multiplexer.Call.atLock] using hs
  | resume =>
    obtain ⟨cmd,x,hk,-,-,rfl⟩ := Multiplexer.resume_iff.mp hmux
    simp [hs,hk,Multiplexer.Call.atLock]

theorem step_lined {a : Label ι} {front own unsent : List Multiplexer.PendingCommandTuple}
    (hs : Lined s) (ht : Tidy s front own unsent) (hh : Healthy s) (ha : a.Working)
    (h : step peer s a = some t) : Lined t := by
  cases a with
  | acquire c =>
    obtain ⟨hg,-,rfl⟩ := acquire_iff.mp h
    simpa [Lined,hg,ht.fresh s.calls le_rfl,Multiplexer.Call.atLock] using hs
  | poll p =>
    refine poll_lined hs ?_ hh h
    rintro e rfl
    exact ha
  | finish =>
    obtain ⟨c,k,q,next,x,hg,-,hk,rfl⟩ := finish_iff.mp h
    simpa [Lined,State.release,hg,hk,Multiplexer.Call.atLock] using hs
  | answer =>
    obtain ⟨p,-,rfl⟩ := answer_iff.mp h
    exact hs
  | receive =>
    obtain ⟨r,inbound,-,-,rfl⟩ := receive_iff.mp h
    simpa [Lined,Multiplexer.dispatch_writeQueue] using hs
  | stray item =>
    obtain ⟨mux,hrecv,rfl⟩ := stray_iff.mp h
    cases item with
    | ok r =>
      obtain ⟨-,rfl⟩ := Multiplexer.recv_ok_iff.mp hrecv
      simpa [Lined,Multiplexer.dispatch_writeQueue] using hs
    | error e => obtain ⟨-,rfl | rfl⟩ := Multiplexer.recv_error hrecv <;> exact hs
  | timeout =>
    obtain ⟨c,k,q,next,mux,hg,-,hdrop,rfl⟩ := timeout_iff.mp h
    obtain ⟨⟨cmd,hk⟩,rfl⟩ := Multiplexer.drop_iff.mp hdrop
    have hlock : (s.mux.calls k).atLock = true := by
      rcases hk with hk | hk | hk <;> rw [hk] <;> rfl
    rw [Lined,hg] at hs
    simp [Lined,State.release,hs,hlock]
  | ending a => exact ha.elim

theorem step_good {a : Label ι} (hp : peer.Fitting) (hs : Good peer d s) (hf : Faithful s a)
    (ha : a.Working) (h : step peer s a = some t) : Good peer d t := by
  obtain ⟨ab,href⟩ := hs.refines
  obtain ⟨_,_,_,_,htidy,-⟩ := id href
  refine ⟨?_,step_healthy hs.healthy htidy.valid ha h,step_lined hs.lined htidy hs.healthy ha h⟩
  rcases step_refines hp href hf h with href' | ⟨_,_,ab',-,href',-⟩
  · exact ⟨ab,href'⟩
  · exact ⟨ab',href'⟩

theorem run_good {as : List (Label ι)} (hp : peer.Fitting) (hs : Good peer d s)
    (hf : Transition.Along (step peer) Faithful s as) (hw : ∀ a ∈ as, a.Working)
    (h : Transition.run (step peer) s as = some t) : Good peer d t := by
  induction as generalizing s with
  | nil =>
    obtain rfl : s = t := Option.some.inj h
    exact hs
  | cons a as ih =>
    obtain ⟨u,hu,ht⟩ := Transition.run_cons_iff.mp h
    obtain ⟨hfa,hfs⟩ := (Transition.along_cons_of hu).mp hf
    exact ih (step_good hp hs hfa (hw a (by simp)) hu) hfs (fun b hb => hw b (by simp [hb])) ht

def Leads (peer : Peer σ) (s t : State ι σ α) : Prop :=
  ∃ as, Transition.run (step peer) s as = some t ∧ Transition.Along (step peer) Faithful s as ∧
    ∀ a ∈ as, a.Smooth

theorem Leads.refl : Leads peer s s := ⟨[],rfl,trivial,nofun⟩

theorem Leads.trans {u : State ι σ α} (hst : Leads peer s t) (htu : Leads peer t u) :
    Leads peer s u := by
  obtain ⟨as,has,hfa,hsa⟩ := hst
  obtain ⟨bs,hbs,hfb,hsb⟩ := htu
  refine ⟨as ++ bs,Transition.run_append_iff.mpr ⟨t,has,hbs⟩,
    (Transition.along_append_of has).mpr ⟨hfa,hfb⟩,fun a ha => ?_⟩
  rcases List.mem_append.mp ha with ha | ha
  · exact hsa a ha
  · exact hsb a ha

theorem Leads.single {a : Label ι} (hf : Faithful s a) (ha : a.Smooth)
    (h : step peer s a = some t) : Leads peer s t :=
  ⟨[a],Transition.run_cons_iff.mpr ⟨t,h,rfl⟩,(Transition.along_cons_of h).mpr ⟨hf,trivial⟩,
    fun _ hb => List.mem_singleton.mp hb ▸ ha⟩

theorem Leads.good (hp : peer.Fitting) (hs : Good peer d s) (h : Leads peer s t) :
    Good peer d t := by
  obtain ⟨as,has,hf,hsm⟩ := h
  exact run_good hp hs hf (fun a ha => (hsm a ha).working) has

/-- Without faults the call of `c` can come to its end, with a response. -/
def Ends (peer : Peer σ) (s : State ι σ α) (c : ι)
    (next : Except MiniDSPError Responses → Call α) : Prop :=
  ∃ t r, Leads peer s t ∧ t.guard = none ∧ t.tasks = Function.update s.tasks c (next (.ok r))

def Label.plain : Label ι → Bool
  | .acquire _ | .finish | .answer | .receive => true
  | .poll (.sendError _) => false
  | .poll _ => true
  | .timeout | .stray _ | .ending _ => false

theorem Leads.plain {a : Label ι} (ha : a.plain = true) (h : step peer s a = some t) :
    Leads peer s t := by
  have hf : Faithful s a ∧ a.Smooth := by
    cases a with
    | poll p => cases p <;> first | exact ⟨trivial,trivial⟩ | cases ha
    | timeout => cases ha
    | stray item => cases ha
    | ending a => cases ha
    | _ => exact ⟨trivial,trivial⟩
  exact Leads.single hf.1 hf.2 h

section Drive

variable {c : ι} {k : ℕ} {q : Commands} {next : Except MiniDSPError Responses → Call α}

theorem Ends.of_step (hp : peer.Fitting) (hs : Good peer d s) {a : Label ι} (ha : a.plain = true)
    (h : step peer s a = some t) (htasks : t.tasks = s.tasks)
    (ht : Good peer d t → Ends peer t c next) : Ends peer s c next := by
  have hst := Leads.plain ha h
  obtain ⟨u,r,htu,hg,hu⟩ := ht (hst.good hp hs)
  exact ⟨u,r,hst.trans htu,hg,htasks ▸ hu⟩

variable (hp : peer.Fitting) (hs : Good peer d s) (hg : s.guard = some (c,k))
  (hc : s.tasks c = .ask q next)
include hs hg hc

theorem ends_returned {x : Except MiniDSPError Responses} (hk : s.mux.calls k = .returned x) :
    Ends peer s c next := by
  cases x with
  | ok r =>
    have hstep : step peer s .finish = some _ := finish_iff.mpr
      ⟨c,k,q,next,.ok r,hg,hc,hk,rfl⟩
    exact ⟨s.release c (next (.ok r)),r,Leads.plain (a := .finish) rfl hstep,rfl,rfl⟩
  | error e => exact absurd hk (hs.healthy.calls k e)

include hp

theorem ends_answered (hk : s.mux.calls k = .awaiting q) (ht : s.taken = s.mux.sink.length)
    (hi : s.inbound = []) : Ends peer s c next := by
  obtain ⟨ab,front,own,unsent,answers,htidy,hsv,-,-⟩ := hs.refines
  obtain ⟨-,hb⟩ | ⟨rfl,-⟩ := htidy.underway.cases hg hc
  · rw [hk] at hb
    exact hb.elim
  obtain ⟨hle,hin⟩ := hsv.inbound hs.healthy.recvTask
  have hlen : s.mux.oneshots.length = s.mux.sink.length := by
    have h := hin.symm.trans hi
    rw [List.drop_eq_nil_iff,hsv.length] at h
    omega
  have hmem : (q,k) ∈ s.mux.oneshots.map Prod.fst := by
    have h := congrArg (List.take s.mux.oneshots.length) htidy.valid.fifo
    rw [List.take_left' (by simp),hlen,htidy.pushed,List.take_left] at h
    rw [← h,htidy.wire]
    simp
  obtain ⟨⟨p,x⟩,ho,hpk⟩ := List.mem_map.mp hmem
  have hreply : s.mux.reply k = some x := by
    have h := htidy.valid.reply_of_mem ho
    rwa [show p = (q,k) from hpk] at h
  have hh := holds_of_atLock hs hg (by rw [hk]; rfl)
  have hpoll : step peer s (.poll .resume) = some _ := poll_iff.mpr
    ⟨c,k,q,next,_,hg,hc,Multiplexer.resume_iff.mpr ⟨q,x,hk,hh,hreply,rfl⟩,rfl⟩
  exact Ends.of_step hp hs rfl hpoll rfl fun ht => ends_returned (x := x) ht hg hc (by simp)

theorem ends_taken (hk : s.mux.calls k = .awaiting q) (ht : s.taken = s.mux.sink.length) :
    Ends peer s c next := by
  generalize hi : s.inbound = inbound
  induction inbound generalizing s with
  | nil => exact ends_answered hp hs hg hc hk ht hi
  | cons r inbound ih =>
    have hrecv : step peer s .receive = some _ :=
      receive_iff.mpr ⟨r,inbound,hi,hs.healthy.recvTask,rfl⟩
    refine Ends.of_step hp hs (a := .receive) rfl hrecv rfl fun hs' => ?_
    exact ih hs' hg hc (by simpa using hk) (by simpa [(dispatch_sink s.mux r).1] using ht) rfl

theorem ends_awaiting (hk : s.mux.calls k = .awaiting q) : Ends peer s c next := by
  generalize hn : s.mux.sink.length - s.taken = n
  induction n generalizing s with
  | zero =>
    obtain ⟨_,_,_,_,_,-,hsv,-,-⟩ := hs.refines
    have := hsv.taken
    exact ends_taken hp hs hg hc hk (by omega)
  | succ n ih =>
    have hlt : s.taken < s.mux.sink.length := by omega
    have hans : step peer s .answer = some _ :=
      answer_iff.mpr ⟨_,List.getElem?_eq_getElem hlt,rfl⟩
    refine Ends.of_step hp hs (a := .answer) rfl hans rfl fun hs' => ?_
    refine ih hs' hg hc hk ?_
    show s.mux.sink.length - (s.taken+1) = n
    omega

theorem ends_flushing (hk : s.mux.calls k = .flushing q) : Ends peer s c next := by
  have hh := holds_of_atLock hs hg (by rw [hk]; rfl)
  have hpoll : step peer s (.poll .flush) = some _ := poll_iff.mpr
    ⟨c,k,q,next,_,hg,hc,Multiplexer.flush_iff.mpr ⟨q,hk,hh,rfl⟩,rfl⟩
  exact Ends.of_step hp hs rfl hpoll rfl fun hs' => ends_awaiting hp hs' hg hc (by simp)

theorem ends_locking (hk : s.mux.calls k = .locking q) : Ends peer s c next := by
  have hh := holds_of_atLock hs hg (by rw [hk]; rfl)
  have hpoll : step peer s (.poll .send) = some _ := poll_iff.mpr
    ⟨c,k,q,next,_,hg,hc,Multiplexer.send_iff.mpr ⟨q,hk,hh,rfl⟩,rfl⟩
  refine Ends.of_step hp hs rfl hpoll rfl fun hs' => ends_flushing hp hs' hg hc ?_
  simp [hs.healthy.write]

theorem ends_queued (hk : s.mux.calls k = .queued q) : Ends peer s c next := by
  have hpoll : step peer s (.poll .lock) = some _ := poll_iff.mpr
    ⟨c,k,q,next,_,hg,hc,Multiplexer.lock_iff.mpr ⟨q,hk,rfl⟩,rfl⟩
  exact Ends.of_step hp hs rfl hpoll rfl fun hs' => ends_locking hp hs' hg hc (by simp)

theorem ends_idle (hk : s.mux.calls k = .idle) : Ends peer s c next := by
  have hpoll : step peer s (.poll .enqueue) = some _ := poll_iff.mpr
    ⟨c,k,q,next,_,hg,hc,Multiplexer.enqueue_iff.mpr ⟨hk,rfl⟩,rfl⟩
  obtain ⟨_,_,_,_,_,htidy,-⟩ := hs.refines
  have htx := htidy.valid.eventTx.mpr (Or.inl hs.healthy.recvTask)
  refine Ends.of_step hp hs rfl hpoll rfl fun hs' => ends_queued hp hs' hg hc ?_
  simp [htx]

/-- The call under way is never stuck. -/
theorem ends_underway : Ends peer s c next := by
  obtain ⟨_,_,own,_,_,htidy,-⟩ := hs.refines
  have hcases := htidy.underway.cases hg hc
  cases hk : s.mux.calls k with
  | idle => exact ends_idle hp hs hg hc hk
  | queued cmd =>
    obtain rfl : cmd = q := by
      rcases hcases with ⟨-,h⟩ | ⟨-,h⟩
      · rwa [hk] at h
      · rw [hk] at h
        exact h.elim
    exact ends_queued hp hs hg hc hk
  | locking cmd =>
    obtain rfl : cmd = q := by
      rcases hcases with ⟨-,h⟩ | ⟨-,h⟩
      · rwa [hk] at h
      · rw [hk] at h
        exact h.elim
    exact ends_locking hp hs hg hc hk
  | flushing cmd =>
    obtain rfl : cmd = q := by
      rcases hcases with ⟨-,h⟩ | ⟨-,h⟩
      · rw [hk] at h
        exact h.elim
      · rwa [hk] at h
    exact ends_flushing hp hs hg hc hk
  | awaiting cmd =>
    obtain rfl : cmd = q := by
      rcases hcases with ⟨-,h⟩ | ⟨-,h⟩
      · rw [hk] at h
        exact h.elim
      · rwa [hk] at h
    exact ends_awaiting hp hs hg hc hk
  | returned x => exact ends_returned hs hg hc hk
  | dropped =>
    rcases hcases with ⟨-,h⟩ | ⟨-,h⟩
    · rw [hk] at h
      exact h.elim
    · rw [hk] at h
      exact h.elim

end Drive

theorem finishes (hp : peer.Fitting) (c : ι) (p : Call α) (hs : Good peer d s)
    (hg : s.guard = none) (hc : s.tasks c = p) : ∃ t x, Leads peer s t ∧ t.tasks c = .done x := by
  induction p generalizing s with
  | done x => exact ⟨s,x,Leads.refl,hc⟩
  | ask q next ih =>
    have hacq : step peer s (.acquire c) = some _ := acquire_iff.mpr ⟨hg,⟨q,next,hc⟩,rfl⟩
    have hst := Leads.plain (a := .acquire c) rfl hacq
    obtain ⟨u,r,htu,hgu,hu⟩ := ends_underway hp (hst.good hp hs) rfl hc
    have hsu := hst.trans htu
    have huc : u.tasks c = next (.ok r) := by
      rw [hu]
      exact Function.update_self _ _ _
    obtain ⟨v,x,huv,hv⟩ := ih (.ok r) (hsu.good hp hs) hgu huc
    exact ⟨v,x,hsu.trans huv,hv⟩

theorem good_finishes (hp : peer.Fitting) (hs : Good peer d s) (c : ι) :
    ∃ t x, Leads peer s t ∧ t.tasks c = .done x := by
  cases hg : s.guard with
  | none => exact finishes hp c _ hs hg rfl
  | some g =>
    obtain ⟨_,_,_,_,_,ht,-⟩ := hs.refines
    have hask : ∃ q next, s.tasks g.1 = .ask q next := by
      cases ht.underway with
      | free hg' => cases hg.symm.trans hg'
      | before hg' hc => exact Option.some.inj (hg.symm.trans hg') ▸ ⟨_,_,hc⟩
      | after hg' hc => exact Option.some.inj (hg.symm.trans hg') ▸ ⟨_,_,hc⟩
    obtain ⟨q,next,hc⟩ := hask
    obtain ⟨u,r,hsu,hgu,-⟩ := ends_underway (k := g.2) hp hs hg hc
    obtain ⟨v,x,huv,hv⟩ := finishes hp c _ (hsu.good hp hs) hgu rfl
    exact ⟨v,x,hsu.trans huv,hv⟩

/-- While the sink and the receive task work no task is ever stuck: from every state of a run,
whatever the other tasks have begun or given up, each task can come to its end. -/
theorem tasks_finish (hp : peer.Fitting) (tasks : ι → Call α) (d : σ) (as : List (Label ι))
    (s : State ι σ α) (h : Transition.run (step peer) (start tasks d) as = some s)
    (hf : Transition.Along (step peer) Faithful (start tasks d) as) (hw : ∀ a ∈ as, a.Working)
    (c : ι) : ∃ t x, Leads peer s t ∧ t.tasks c = .done x :=
  good_finishes hp (run_good hp (start_good tasks) hf hw h) c

/-- The first task has given its call up once the command has left. -/
theorem tasks_finish_after_timeout :
    let tasks : Bool → Call Responses := fun _ => .roundtrip .readHardwareId
    let as : List (Label Bool) := [.acquire false,.poll .enqueue,.poll .lock,.poll .send,.timeout]
    ∃ s, Transition.run (step Peer.blank) (start tasks []) as = some s ∧
      s.taken ≠ s.mux.sink.length ∧ ∃ t x, Leads Peer.blank s t ∧ t.tasks true = .done x := by
  intro tasks as
  have hrun : (Transition.run (step Peer.blank) (start tasks []) as).map
      (fun s => (s.taken,s.mux.sink.length)) = some (0,1) := rfl
  obtain ⟨s,hs,hlink⟩ := Option.map_eq_some_iff.mp hrun
  obtain ⟨htaken,hsink⟩ := Prod.mk.inj hlink
  have hf : Transition.Along (step Peer.blank) Faithful (start tasks []) as := by
    iterate 4 refine (Transition.along_cons_of rfl).mpr ⟨trivial,?_⟩
    refine (Transition.along_cons_of rfl).mpr ⟨?_,trivial⟩
    rintro c k ⟨rfl,rfl⟩ - q
    exact nofun
  refine ⟨s,hs,by omega,tasks_finish Peer.blank_fitting tasks [] as s hs hf ?_ true⟩
  intro a ha
  simp only [as,List.mem_cons,List.not_mem_nil,or_false] at ha
  rcases ha with rfl | rfl | rfl | rfl | rfl <;> trivial

theorem poll_kept {p : Poll} (hp : ∀ e, p ≠ .sendError e) (hs : ∀ j, s.mux.calls j ≠ .dropped)
    (h : step peer s (.poll p) = some t) (j : ℕ) : t.mux.calls j ≠ .dropped := by
  obtain ⟨c,k,q,next,mux,-,-,hmux,rfl⟩ := poll_iff.mp h
  have hmove : ∀ x, x ≠ .dropped → Function.update s.mux.calls k x j ≠ .dropped := by
    intro x hx
    rw [Function.update_apply]
    split_ifs
    · exact hx
    · exact hs j
  cases p with
  | enqueue =>
    obtain ⟨-,rfl⟩ := Multiplexer.enqueue_iff.mp hmux
    cases s.mux.eventTx
    · exact hmove _ nofun
    · exact hmove _ nofun
  | lock =>
    obtain ⟨cmd,-,rfl⟩ := Multiplexer.lock_iff.mp hmux
    exact hmove _ nofun
  | send =>
    obtain ⟨cmd,-,-,rfl⟩ := Multiplexer.send_iff.mp hmux
    cases s.mux.write
    · exact hmove _ nofun
    · exact hmove _ nofun
  | sendError e => exact absurd rfl (hp e)
  | flush =>
    obtain ⟨cmd,-,-,rfl⟩ := Multiplexer.flush_iff.mp hmux
    exact hmove _ nofun
  | resume =>
    obtain ⟨cmd,x,-,-,-,rfl⟩ := Multiplexer.resume_iff.mp hmux
    exact hmove _ nofun

/-- Only a timeout gives a call up. -/
theorem step_kept {a : Label ι} (ha : a.Smooth) (hs : ∀ j, s.mux.calls j ≠ .dropped)
    (h : step peer s a = some t) : ∀ j, t.mux.calls j ≠ .dropped := by
  cases a with
  | acquire c =>
    obtain ⟨-,-,rfl⟩ := acquire_iff.mp h
    exact hs
  | poll p =>
    refine poll_kept ?_ hs h
    rintro e rfl
    exact ha
  | finish =>
    obtain ⟨c,k,q,next,x,-,-,-,rfl⟩ := finish_iff.mp h
    exact hs
  | answer =>
    obtain ⟨p,-,rfl⟩ := answer_iff.mp h
    exact hs
  | receive =>
    obtain ⟨r,inbound,-,-,rfl⟩ := receive_iff.mp h
    simpa using hs
  | stray item =>
    obtain ⟨mux,hrecv,rfl⟩ := stray_iff.mp h
    cases item with
    | ok r =>
      obtain ⟨-,rfl⟩ := Multiplexer.recv_ok_iff.mp hrecv
      simpa using hs
    | error e => obtain ⟨-,rfl | rfl⟩ := Multiplexer.recv_error hrecv <;> exact hs
  | timeout => exact ha.elim
  | ending a => exact ha.elim

theorem Leads.kept (h : Leads peer s t) (hs : ∀ j, s.mux.calls j ≠ .dropped) :
    ∀ j, t.mux.calls j ≠ .dropped := by
  obtain ⟨as,has,-,hsm⟩ := h
  have hst : Transition.Leads (step peer) Label.Smooth s t := ⟨as,has,hsm⟩
  exact hst.invariant (I := fun u => ∀ j, u.mux.calls j ≠ .dropped)
    (fun _ _ _ hu ha hstep => step_kept ha hu hstep) hs

/-- A task that is alone: when it is done, it has returned what it returns with the device at
hand, and the device is left in the same state. -/
theorem returns_alone (hp : peer.Fitting) {tasks : ι → Call α} {c : ι}
    (hothers : ∀ c', c' ≠ c → ∃ x, tasks c' = .done x) (h : Leads peer (start tasks d) s)
    {x : Outcome MiniDSPError α} (hx : s.tasks c = .done x) :
    Dialogue.run peer.device (tasks c) d = (x,s.device) := by
  have hs := h.good hp (start_good tasks)
  have hkept := h.kept fun j => (nofun : (start tasks d).mux.calls j ≠ .dropped)
  obtain ⟨as,has,hf,hsm⟩ := h
  obtain ⟨fates,ab,hrun,href,hall⟩ := run_refines hp (start_refines tasks) hf has
  have hclients : ab.clients = s.tasks := by
    obtain ⟨_,_,_,_,-,-,hclients,-⟩ := href
    exact hclients
  obtain ⟨honly,hdone⟩ := Dialogue.Shared.run_only (c := c) hothers hrun
  have hans : ∀ a ∈ fates, a = (c,.answered) :=
    fun a ha => Prod.ext (honly a ha) ((hall (start_healthy tasks d) hsm).2 a ha)
  have hg : s.guard = none := by
    obtain ⟨_,_,_,_,_,ht,-⟩ := hs.refines
    have hno : ∀ c' q next, s.tasks c' ≠ .ask q next := by
      intro c' q next hask
      by_cases hcc : c' = c
      · cases (hcc ▸ hask).symm.trans hx
      · obtain ⟨y,hy⟩ := hdone c' hcc
        cases (hclients ▸ hy).symm.trans hask
    cases ht.underway with
    | free hg => exact hg
    | before _ hc => exact absurd hc (hno _ _ _)
    | after _ hc => exact absurd hc (hno _ _ _)
  rw [← href.device hg (all_taken hs hkept hg)]
  exact Dialogue.Shared.run_done hans hrun (hclients ▸ hx)

/-- The whole way from a client to the device and back, for a task that is alone and a link
without faults: the task can always come to its end, and it ends as with the device at hand. -/
theorem stack_is_transparent (hp : peer.Fitting) (tasks : ι → Call α) (d : σ) (c : ι)
    (hothers : ∀ c', c' ≠ c → ∃ x, tasks c' = .done x) (s : State ι σ α)
    (h : Leads peer (start tasks d) s) :
    (∀ x, s.tasks c = .done x → Dialogue.run peer.device (tasks c) d = (x,s.device)) ∧
      ∃ t, Leads peer s t ∧ t.tasks c = .done (Dialogue.run peer.device (tasks c) d).1 ∧
        t.device = (Dialogue.run peer.device (tasks c) d).2 := by
  refine ⟨fun x hx => returns_alone hp hothers h hx,?_⟩
  obtain ⟨t,x,hst,hx⟩ := good_finishes hp (h.good hp (start_good tasks)) c
  have hret := returns_alone hp hothers (h.trans hst) hx
  exact ⟨t,hst,by rw [hret,hx],by rw [hret]⟩

theorem stack_is_transparent_blank :
    let tasks : Bool → Call Unit := fun c => if c then pure () else MiniDSP.setMasterMute true
    ∃ t, Leads Peer.blank (start tasks []) t ∧ t.tasks false = .done (.ok ()) ∧
      t.device = [.setMute true] := by
  intro tasks
  have hothers : ∀ c', c' ≠ false → ∃ x, tasks c' = .done x := by
    intro c' hc'
    obtain rfl : c' = true := by simpa using hc'
    exact ⟨.ok (),rfl⟩
  exact (stack_is_transparent Peer.blank_fitting tasks [] false hothers _ Leads.refl).2

end Steps
end Service
end Minidsp
