import Minidsp.Service

/-! The service lock lets one call at a time into the multiplexer, so that the wire and the
queue hold the calls in the order in which they got the lock. -/
namespace Minidsp
namespace Service

variable {ι σ α : Type} {s t : State ι σ α}
variable {front own unsent : List Multiplexer.PendingCommandTuple}

theorem dispatch_sink (mux : Multiplexer.State) (r : Responses) :
    (Multiplexer.dispatch mux r).sink = mux.sink ∧
      (Multiplexer.dispatch mux r).write = mux.write := by
  unfold Multiplexer.dispatch
  split
  · exact ⟨rfl,rfl⟩
  · split <;> exact ⟨rfl,rfl⟩

theorem sink_prefix {mux mux' : Multiplexer.State} {a : Multiplexer.Label}
    (h : Multiplexer.step mux a = some mux') : mux.sink <+: mux'.sink := by
  cases a with
  | enqueue i cmd =>
    obtain ⟨-,rfl⟩ := Multiplexer.enqueue_iff.mp h
    cases mux.eventTx <;> exact List.prefix_rfl
  | lock i =>
    obtain ⟨cmd,-,rfl⟩ := Multiplexer.lock_iff.mp h
    exact List.prefix_rfl
  | send i =>
    obtain ⟨cmd,-,-,rfl⟩ := Multiplexer.send_iff.mp h
    cases mux.write
    · exact List.prefix_rfl
    · exact List.prefix_append _ _
  | sendError i e =>
    obtain ⟨-,-,-,rfl⟩ := Multiplexer.sendError_iff.mp h
    exact List.prefix_rfl
  | flush i =>
    obtain ⟨cmd,-,-,rfl⟩ := Multiplexer.flush_iff.mp h
    exact List.prefix_rfl
  | resume i =>
    obtain ⟨cmd,result,-,-,-,rfl⟩ := Multiplexer.resume_iff.mp h
    exact List.prefix_rfl
  | drop i =>
    obtain ⟨-,rfl⟩ := Multiplexer.drop_iff.mp h
    exact List.prefix_rfl
  | recv item =>
    cases item with
    | ok r =>
      obtain ⟨-,rfl⟩ := Multiplexer.recv_ok_iff.mp h
      rw [(dispatch_sink mux r).1]
    | error e => obtain ⟨-,rfl | rfl⟩ := Multiplexer.recv_error h <;> exact List.prefix_rfl
  | streamEnd =>
    obtain ⟨-,rfl⟩ := Multiplexer.streamEnd_iff.mp h
    exact List.prefix_rfl
  | takeTx =>
    obtain ⟨-,rfl⟩ := Multiplexer.takeTx_iff.mp h
    exact List.prefix_rfl
  | drain =>
    obtain ⟨-,⟨-,rfl⟩ | ⟨_,_,-,rfl⟩⟩ := Multiplexer.drain_iff.mp h <;> exact List.prefix_rfl
  | shutdown =>
    obtain rfl := Multiplexer.shutdown_eq h
    exact List.prefix_rfl

/-- The entries of different places belong to different calls. -/
theorem place_unique {mux : Multiplexer.State} (hv : Multiplexer.Valid mux) {m n : ℕ}
    {p e : Multiplexer.PendingCommandTuple} (hp : mux.enqueued[m]? = some p)
    (he : mux.enqueued[n]? = some e) (h : p.2 = e.2) : m = n := by
  have hmap : ∀ {m : ℕ} {p : Multiplexer.PendingCommandTuple}, mux.enqueued[m]? = some p →
      (mux.enqueued.map Prod.snd)[m]? = some p.2 := by
    intro m p hm
    rw [List.getElem?_map,hm]
    rfl
  obtain ⟨hlt,-⟩ := List.getElem?_eq_some_iff.mp (hmap hp)
  refine (List.getElem?_inj hlt hv.entered.nodup).mp ?_
  rw [hmap hp,hmap he,h]

def Before (q : Commands) : Multiplexer.Call → Prop
  | .idle | .returned (.error _) => True
  | .queued cmd | .locking cmd => cmd = q
  | _ => False

def After (q : Commands) : Multiplexer.Call → Prop
  | .flushing cmd | .awaiting cmd => cmd = q
  | .returned _ => True
  | _ => False

inductive Own (s : State ι σ α) : List Multiplexer.PendingCommandTuple → Prop
  | free (hg : s.guard = none) : Own s []
  | before {c : ι} {k : ℕ} {q : Commands} {next : Except MiniDSPError Responses → Call α}
      (hg : s.guard = some (c,k)) (hc : s.tasks c = .ask q next) (hk : Before q (s.mux.calls k)) :
      Own s []
  | after {c : ι} {k : ℕ} {q : Commands} {next : Except MiniDSPError Responses → Call α}
      (hg : s.guard = some (c,k)) (hc : s.tasks c = .ask q next) (hk : After q (s.mux.calls k)) :
      Own s [(q,k)]

/-- The wire holds the entries of earlier calls, and last that of the call under way. What was
pushed without going out is the entry of that call, or came after the sink was gone. -/
structure Tidy (s : State ι σ α) (front own unsent : List Multiplexer.PendingCommandTuple) :
    Prop where
  valid : Multiplexer.Valid s.mux
  fresh : ∀ j, s.calls ≤ j → s.mux.calls j = .idle
  number : ∀ c k, s.guard = some (c,k) → k < s.calls
  busy : ∀ j cmd, (s.mux.calls j).command? = some cmd → ∃ c, s.guard = some (c,j)
  underway : Own s own
  wire : s.mux.sink = front ++ own
  earlier : ∀ p ∈ front, ∀ c, s.guard ≠ some (c,p.2)
  pushed : s.mux.enqueued = s.mux.sink ++ unsent
  waiting : s.mux.write = true → ∀ p ∈ unsent, (s.mux.calls p.2).command? = some p.1

theorem Own.cases (h : Own s own) {c : ι} {k : ℕ} {q : Commands}
    {next : Except MiniDSPError Responses → Call α} (hg : s.guard = some (c,k))
    (hc : s.tasks c = .ask q next) :
    own = [] ∧ Before q (s.mux.calls k) ∨ own = [(q,k)] ∧ After q (s.mux.calls k) := by
  cases h with
  | free hg' => cases hg.symm.trans hg'
  | before hg' hc' hk =>
    obtain ⟨rfl,rfl⟩ := Prod.mk.inj (Option.some.inj (hg.symm.trans hg'))
    obtain ⟨rfl,-⟩ := Dialogue.ask.inj (hc.symm.trans hc')
    exact Or.inl ⟨rfl,hk⟩
  | after hg' hc' hk =>
    obtain ⟨rfl,rfl⟩ := Prod.mk.inj (Option.some.inj (hg.symm.trans hg'))
    obtain ⟨rfl,-⟩ := Dialogue.ask.inj (hc.symm.trans hc')
    exact Or.inr ⟨rfl,hk⟩

namespace Tidy

theorem start_tidy (tasks : ι → Call α) (d : σ) : Tidy (start tasks d) [] [] [] :=
  ⟨Multiplexer.init_valid,fun _ _ => rfl,nofun,nofun,.free rfl,rfl,nofun,rfl,nofun⟩

theorem still (hs : Tidy s front own unsent) {mux : Multiplexer.State} {inbound : List Responses}
    (hv : Multiplexer.Valid mux) (hcalls : mux.calls = s.mux.calls) (hsink : mux.sink = s.mux.sink)
    (henq : mux.enqueued = s.mux.enqueued) (hw : mux.write = true → s.mux.write = true) :
    Tidy { s with mux, inbound } front own unsent where
  valid := hv
  fresh j hj := (congrFun hcalls j).trans (hs.fresh j hj)
  number := hs.number
  busy j cmd hj := hs.busy j cmd (by rwa [← hcalls])
  underway := by
    cases hs.underway with
    | free hg => exact .free hg
    | before hg hc hk => exact .before hg hc (by rwa [hcalls])
    | after hg hc hk => exact .after hg hc (by rwa [hcalls])
  wire := hsink.trans hs.wire
  earlier := hs.earlier
  pushed := by rw [henq,hsink,hs.pushed]
  waiting hwrite := by
    rw [hcalls]
    exact hs.waiting (hw hwrite)

theorem move (hs : Tidy s front own unsent) {mux : Multiplexer.State} {c : ι} {k : ℕ}
    {x : Multiplexer.Call} {own' unsent' : List Multiplexer.PendingCommandTuple}
    (hg : s.guard = some (c,k)) (hv : Multiplexer.Valid mux)
    (hcalls : mux.calls = Function.update s.mux.calls k x) (hown : Own { s with mux } own')
    (hsink : mux.sink = front ++ own') (henq : mux.enqueued = mux.sink ++ unsent')
    (hunsent : mux.write = true → ∀ p ∈ unsent', (mux.calls p.2).command? = some p.1) :
    Tidy { s with mux } front own' unsent' where
  valid := hv
  fresh j hj := by
    have hne : j ≠ k := by
      have := hs.number c k hg
      have : s.calls ≤ j := hj
      omega
    show mux.calls j = .idle
    rw [hcalls,Function.update_of_ne hne]
    exact hs.fresh j hj
  number := hs.number
  busy j cmd hj := by
    by_cases hjk : j = k
    · exact ⟨c,hjk ▸ hg⟩
    · refine hs.busy j cmd ?_
      have h : (mux.calls j).command? = some cmd := hj
      rwa [hcalls,Function.update_of_ne hjk] at h
  underway := hown
  wire := hsink
  earlier := hs.earlier
  pushed := henq
  waiting := hunsent

/-- Once its command is on the wire, no call waits to send. -/
theorem unsent_eq_nil_of_own {c : ι} {k : ℕ} {q : Commands} (hs : Tidy s front [(q,k)] unsent)
    (hg : s.guard = some (c,k)) (hw : s.mux.write = true) : unsent = [] := by
  refine List.eq_nil_iff_forall_not_mem.mpr fun p hp => ?_
  obtain ⟨c',hg'⟩ := hs.busy _ _ (hs.waiting hw p hp)
  obtain ⟨-,hpk⟩ := Prod.mk.inj (Option.some.inj (hg.symm.trans hg'))
  have hnodup := hs.valid.entered.nodup
  rw [hs.pushed,List.map_append,List.nodup_append] at hnodup
  have hsink : (q,k) ∈ s.mux.sink := by simp [hs.wire]
  exact hnodup.2.2 _ (List.mem_map_of_mem hsink) _ (List.mem_map_of_mem hp) hpk

theorem unsent_eq_own (hs : Tidy s front own unsent) (hw : s.mux.write = true) {c : ι} {k : ℕ}
    {q : Commands} (hg : s.guard = some (c,k)) (hown : own = [])
    (hk : s.mux.calls k = .locking q) : unsent = [(q,k)] := by
  have hmem : (q,k) ∈ unsent := by
    have h := hs.valid.entered.command k q (by rw [hk]; rfl)
    rw [hs.pushed,hs.wire,hown,List.append_nil] at h
    refine (List.mem_append.mp h).resolve_left fun hf => ?_
    exact hs.earlier _ hf c hg
  have hall : ∀ p ∈ unsent, p = (q,k) := by
    intro p hp
    have hcmd := hs.waiting hw p hp
    obtain ⟨c',hg'⟩ := hs.busy _ _ hcmd
    obtain ⟨-,hpk⟩ := Prod.mk.inj (Option.some.inj (hg.symm.trans hg'))
    rw [← hpk,hk] at hcmd
    exact Prod.ext (Option.some.inj hcmd).symm hpk.symm
  have hnodup : unsent.Nodup := by
    have h := hs.valid.entered.nodup
    rw [hs.pushed,List.map_append,List.nodup_append] at h
    exact List.Nodup.of_map _ h.2.1
  obtain ⟨a,b,rfl⟩ := List.append_of_mem hmem
  cases a with
  | cons p a =>
    obtain rfl := hall p (by simp)
    simp at hnodup
  | nil =>
    cases b with
    | nil => rfl
    | cons p b =>
      obtain rfl := hall p (by simp)
      simp at hnodup

theorem waiting_move (hs : Tidy s front own unsent) {k : ℕ} {x : Multiplexer.Call}
    (hx : ∀ cmd, (s.mux.calls k).command? = some cmd → x.command? = some cmd)
    (hw : s.mux.write = true) :
    ∀ p ∈ unsent, (Function.update s.mux.calls k x p.2).command? = some p.1 := by
  intro p hp
  have hcmd := hs.waiting hw p hp
  by_cases hpk : p.2 = k
  · rw [hpk,Function.update_self]
    exact hx _ (hpk ▸ hcmd)
  · rwa [Function.update_of_ne hpk]

section Polls

variable {c : ι} {k : ℕ} {q : Commands} {next : Except MiniDSPError Responses → Call α}
variable {mux : Multiplexer.State} (hs : Tidy s front own unsent) (hg : s.guard = some (c,k))
  (hc : s.tasks c = .ask q next)
include hs hg hc

theorem enqueue_tidy (h : Multiplexer.enqueue s.mux k q = some mux) :
    ∃ unsent', Tidy { s with mux } front own unsent' := by
  have hv : Multiplexer.Valid mux := Multiplexer.step_valid (a := .enqueue k q) hs.valid h
  obtain ⟨hidle,rfl⟩ := Multiplexer.enqueue_iff.mp h
  obtain ⟨rfl,-⟩ | ⟨-,hk⟩ := hs.underway.cases hg hc
  swap
  · rw [hidle] at hk
    exact hk.elim
  have hwait := fun x =>
    hs.waiting_move (k := k) (x := x) (by simp [hidle,Multiplexer.Call.command?])
  cases htx : s.mux.eventTx with
  | false =>
    simp only [htx,Bool.false_eq_true,if_false] at hv ⊢
    exact ⟨_,hs.move hg hv rfl (.before hg hc (by simp [Before])) hs.wire hs.pushed (hwait _)⟩
  | true =>
    simp only [htx,if_true] at hv ⊢
    refine ⟨unsent ++ [(q,k)],hs.move hg hv rfl (.before hg hc (by simp [Before])) hs.wire ?_ ?_⟩
    · simp [Multiplexer.push,hs.pushed]
    · intro hw p hp
      rcases List.mem_append.mp hp with hp | hp
      · exact hwait _ hw p hp
      · obtain rfl := List.mem_singleton.mp hp
        simp [Multiplexer.Call.command?]

theorem lock_tidy (h : Multiplexer.lock s.mux k = some mux) :
    Tidy { s with mux } front own unsent := by
  have hv : Multiplexer.Valid mux := Multiplexer.step_valid (a := .lock k) hs.valid h
  obtain ⟨cmd,hk,rfl⟩ := Multiplexer.lock_iff.mp h
  obtain ⟨rfl,hb⟩ | ⟨-,ha⟩ := hs.underway.cases hg hc
  swap
  · rw [hk] at ha
    exact ha.elim
  obtain rfl : cmd = q := by rwa [hk] at hb
  refine hs.move hg hv rfl (.before hg hc (by simp [Before])) hs.wire hs.pushed ?_
  exact hs.waiting_move (by simp [hk,Multiplexer.Call.command?])

theorem send_tidy (h : Multiplexer.send s.mux k = some mux) :
    ∃ own' unsent', Tidy { s with mux } front own' unsent' := by
  have hv : Multiplexer.Valid mux := Multiplexer.step_valid (a := .send k) hs.valid h
  obtain ⟨cmd,hk,-,rfl⟩ := Multiplexer.send_iff.mp h
  obtain ⟨rfl,hb⟩ | ⟨-,ha⟩ := hs.underway.cases hg hc
  swap
  · rw [hk] at ha
    exact ha.elim
  obtain rfl : cmd = q := by rwa [hk] at hb
  cases hw : s.mux.write with
  | false =>
    simp only [hw,Bool.false_eq_true,if_false] at hv ⊢
    refine ⟨[],_,hs.move hg hv rfl (.before hg hc (by simp [Before])) hs.wire hs.pushed ?_⟩
    intro hw'
    cases hw.symm.trans hw'
  | true =>
    simp only [hw,if_true] at hv ⊢
    obtain rfl := hs.unsent_eq_own hw hg rfl hk
    refine ⟨[(cmd,k)],[],hs.move hg hv rfl (.after hg hc (by simp [After])) ?_ ?_ nofun⟩
    · simp [hs.wire]
    · simp [hs.pushed]

theorem sendError_tidy {e : MiniDSPError} (h : Multiplexer.sendError s.mux k e = some mux) :
    Tidy { s with mux } front own unsent := by
  have hv : Multiplexer.Valid mux := Multiplexer.step_valid (a := .sendError k e) hs.valid h
  obtain ⟨-,-,-,rfl⟩ := Multiplexer.sendError_iff.mp h
  refine hs.move hg hv rfl ?_ hs.wire hs.pushed nofun
  obtain ⟨rfl,-⟩ | ⟨rfl,-⟩ := hs.underway.cases hg hc
  · exact .before hg hc (by simp [Before])
  · exact .after hg hc (by simp [After])

theorem flush_tidy (h : Multiplexer.flush s.mux k = some mux) :
    Tidy { s with mux } front own unsent := by
  have hv : Multiplexer.Valid mux := Multiplexer.step_valid (a := .flush k) hs.valid h
  obtain ⟨cmd,hk,-,rfl⟩ := Multiplexer.flush_iff.mp h
  obtain ⟨-,hb⟩ | ⟨rfl,ha⟩ := hs.underway.cases hg hc
  · rw [hk] at hb
    exact hb.elim
  obtain rfl : cmd = q := by rwa [hk] at ha
  refine hs.move hg hv rfl (.after hg hc (by simp [After])) hs.wire hs.pushed ?_
  exact hs.waiting_move (by simp [hk,Multiplexer.Call.command?])

theorem resume_tidy (h : Multiplexer.resume s.mux k = some mux) :
    Tidy { s with mux } front own unsent := by
  have hv : Multiplexer.Valid mux := Multiplexer.step_valid (a := .resume k) hs.valid h
  obtain ⟨cmd,result,hk,-,-,rfl⟩ := Multiplexer.resume_iff.mp h
  obtain ⟨-,hb⟩ | ⟨rfl,ha⟩ := hs.underway.cases hg hc
  · rw [hk] at hb
    exact hb.elim
  refine hs.move hg hv rfl (.after hg hc (by simp [After])) hs.wire hs.pushed fun hw p hp => ?_
  rw [hs.unsent_eq_nil_of_own hg hw] at hp
  cases hp

end Polls

section Steps

variable [DecidableEq ι] {peer : Peer σ} (hs : Tidy s front own unsent)
include hs

theorem acquire_tidy {c : ι} (h : step peer s (.acquire c) = some t) : Tidy t front own unsent := by
  obtain ⟨hg,⟨q,next,hc⟩,rfl⟩ := acquire_iff.mp h
  have hidle : s.mux.calls s.calls = .idle := hs.fresh _ le_rfl
  have hquiet : ∀ j cmd, (s.mux.calls j).command? ≠ some cmd := by
    intro j cmd hj
    obtain ⟨c',hg'⟩ := hs.busy j cmd hj
    cases hg.symm.trans hg'
  refine ⟨hs.valid,fun j hj => hs.fresh j (Nat.le_of_succ_le hj),?_,?_,?_,hs.wire,?_,hs.pushed,
    hs.waiting⟩
  · rintro c' k ⟨rfl,rfl⟩
    exact Nat.lt_succ_self _
  · exact fun j cmd hj => absurd hj (hquiet j cmd)
  · cases hs.underway with
    | free => exact .before rfl hc (by simp [hidle,Before])
    | before hg' => cases hg.symm.trans hg'
    | after hg' => cases hg.symm.trans hg'
  · intro p hp c' hg'
    obtain ⟨-,hpk⟩ := Prod.mk.inj (Option.some.inj hg')
    have hmem : p ∈ s.mux.enqueued := by
      rw [hs.pushed,hs.wire]
      simp [hp]
    exact hs.valid.entered.fresh p hmem (hpk ▸ hidle)

theorem poll_tidy {p : Poll} (h : step peer s (.poll p) = some t) :
    ∃ own' unsent', Tidy t front own' unsent' := by
  obtain ⟨c,k,q,next,mux,hg,hc,hmux,rfl⟩ := poll_iff.mp h
  cases p with
  | enqueue =>
    obtain ⟨unsent',ht⟩ := hs.enqueue_tidy hg hc hmux
    exact ⟨_,_,ht⟩
  | lock => exact ⟨_,_,hs.lock_tidy hg hc hmux⟩
  | send => exact hs.send_tidy hg hc hmux
  | sendError e => exact ⟨_,_,hs.sendError_tidy hg hc hmux⟩
  | flush => exact ⟨_,_,hs.flush_tidy hg hc hmux⟩
  | resume => exact ⟨_,_,hs.resume_tidy hg hc hmux⟩

theorem release_tidy {c : ι} {k : ℕ} (hg : s.guard = some (c,k))
    (hk : (s.mux.calls k).command? = none) (p : Call α) :
    Tidy (s.release c p) (front ++ own) [] unsent where
  valid := hs.valid
  fresh := hs.fresh
  number := nofun
  busy j cmd hj := by
    obtain ⟨c',hg'⟩ := hs.busy j cmd hj
    obtain ⟨-,rfl⟩ := Prod.mk.inj (Option.some.inj (hg.symm.trans hg'))
    have hj' : (s.mux.calls k).command? = some cmd := hj
    cases hk.symm.trans hj'
  underway := .free rfl
  wire := hs.wire.trans (List.append_nil _).symm
  earlier _ _ _ := nofun
  pushed := hs.pushed
  waiting := hs.waiting

theorem finish_tidy (h : step peer s .finish = some t) : Tidy t (front ++ own) [] unsent := by
  obtain ⟨c,k,q,next,result,hg,-,hk,rfl⟩ := finish_iff.mp h
  exact hs.release_tidy hg (by rw [hk]; rfl) _

theorem timeout_tidy (hf : Faithful s .timeout) (h : step peer s .timeout = some t) :
    Tidy t (front ++ own) [] unsent := by
  obtain ⟨c,k,q,next,mux,hg,hc,hdrop,rfl⟩ := timeout_iff.mp h
  have hv : Multiplexer.Valid mux := Multiplexer.step_valid (a := .drop k) hs.valid hdrop
  obtain ⟨⟨cmd,hk⟩,rfl⟩ := Multiplexer.drop_iff.mp hdrop
  have hquiet : s.mux.write = true → unsent = [] := by
    intro hw
    obtain ⟨rfl,hb⟩ | ⟨rfl,-⟩ := hs.underway.cases hg hc
    · rcases hk with hk | hk | hk
      · exact absurd hk (hf c k hg hw cmd)
      · rw [hk] at hb
        exact hb.elim
      · rw [hk] at hb
        exact hb.elim
    · exact hs.unsent_eq_nil_of_own hg hw
  refine ⟨hv,?_,nofun,?_,.free rfl,hs.wire.trans (List.append_nil _).symm,fun _ _ _ => nofun,
    hs.pushed,?_⟩
  · intro j hj
    have hne : j ≠ k := by
      have := hs.number c k hg
      have : s.calls ≤ j := hj
      omega
    simpa [State.release,hne] using hs.fresh j hj
  · intro j cmd' hj
    by_cases hjk : j = k
    · simp [State.release,hjk,Multiplexer.Call.command?] at hj
    · have hj' : (s.mux.calls j).command? = some cmd' := by
        simpa [State.release,hjk] using hj
      obtain ⟨c',hg'⟩ := hs.busy j cmd' hj'
      obtain ⟨-,rfl⟩ := Prod.mk.inj (Option.some.inj (hg.symm.trans hg'))
      exact absurd rfl hjk
  · intro hw p hp
    rw [hquiet hw] at hp
    cases hp

theorem answer_tidy (h : step peer s .answer = some t) : Tidy t front own unsent := by
  obtain ⟨p,-,rfl⟩ := answer_iff.mp h
  refine ⟨hs.valid,hs.fresh,hs.number,hs.busy,?_,hs.wire,hs.earlier,hs.pushed,hs.waiting⟩
  cases hs.underway with
  | free hg => exact .free hg
  | before hg hc hk => exact .before hg hc hk
  | after hg hc hk => exact .after hg hc hk

theorem receive_tidy (h : step peer s .receive = some t) : Tidy t front own unsent := by
  obtain ⟨r,inbound,-,hl,rfl⟩ := receive_iff.mp h
  have hrecv : Multiplexer.recv s.mux (.ok r) = some (Multiplexer.dispatch s.mux r) :=
    Multiplexer.recv_ok_iff.mpr ⟨hl,rfl⟩
  have hv := Multiplexer.step_valid (a := .recv (.ok r)) hs.valid hrecv
  obtain ⟨hcalls,henq,-,-⟩ := Multiplexer.dispatch_frame s.mux r
  obtain ⟨hsink,hwrite⟩ := dispatch_sink s.mux r
  exact hs.still hv hcalls hsink henq fun hw => hwrite ▸ hw

theorem stray_tidy {item : Except MiniDSPError Responses} (h : step peer s (.stray item) = some t) :
    Tidy t front own unsent := by
  obtain ⟨mux,hrecv,rfl⟩ := stray_iff.mp h
  have hv := Multiplexer.step_valid (a := .recv item) hs.valid hrecv
  cases item with
  | ok r =>
    obtain ⟨hl,rfl⟩ := Multiplexer.recv_ok_iff.mp hrecv
    obtain ⟨hcalls,henq,-,-⟩ := Multiplexer.dispatch_frame s.mux r
    obtain ⟨hsink,hwrite⟩ := dispatch_sink s.mux r
    exact hs.still hv hcalls hsink henq fun hw => hwrite ▸ hw
  | error e =>
    obtain ⟨-,rfl | rfl⟩ := Multiplexer.recv_error hrecv
    · exact hs
    · exact hs.still hv rfl rfl rfl id

theorem ending_tidy {a : Ending} (h : step peer s (.ending a) = some t) :
    Tidy t front own unsent := by
  obtain ⟨mux,hmux,rfl⟩ := ending_iff.mp h
  have hv := Multiplexer.step_valid hs.valid hmux
  cases a with
  | streamEnd =>
    obtain ⟨-,rfl⟩ := Multiplexer.streamEnd_iff.mp hmux
    exact hs.still hv rfl rfl rfl id
  | takeTx =>
    obtain ⟨-,rfl⟩ := Multiplexer.takeTx_iff.mp hmux
    exact hs.still hv rfl rfl rfl id
  | drain =>
    obtain ⟨-,⟨-,rfl⟩ | ⟨_,_,-,rfl⟩⟩ := Multiplexer.drain_iff.mp hmux <;>
      exact hs.still hv rfl rfl rfl id
  | shutdown =>
    obtain rfl := Multiplexer.shutdown_eq hmux
    exact hs.still hv rfl rfl rfl nofun

end Steps

end Tidy

end Service
end Minidsp
