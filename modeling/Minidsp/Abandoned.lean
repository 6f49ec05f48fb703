import Minidsp.Delivery

/-! Calls that end without a reply: the entry of such a call stays in the queue, and what that
means for the responses that arrive later. No response here is a late reply to such a call. -/
namespace Minidsp
namespace Multiplexer

variable {s t : State} {data : Responses}

def State.waits (s : State) (i : ℕ) : Bool := (s.calls i).command?.isSome

/-- The next entry whose caller still waits. -/
def State.nextLive (s : State) : Option PendingCommandTuple :=
  s.pendingCommand.find? fun p => s.waits p.2

/-- A response goes where it would without the entries of callers that have given up. -/
structure Routed (s : State) (data : Responses) (t : State) : Prop where
  delivered : ∀ p, s.nextLive = some p → p.1.matchesResponse data = true →
    t.reply p.2 = some (.ok data)
  forwarded : (∀ p ∈ s.pendingCommand, s.waits p.2 = true → p.1.matchesResponse data = false) →
    t.events = s.events ++ [data]
  not_absorbed : ∀ p ∈ s.pendingCommand, s.waits p.2 = false → t.reply p.2 ≠ some (.ok data)

/-- The caller at the front waits, or the response matches neither the front entry nor the
next entry whose caller waits. -/
def HeadOk (s : State) (data : Responses) : Prop :=
  ∀ p, s.pendingCommand.head? = some p → s.waits p.2 = true ∨
    (p.1.matchesResponse data = false ∧
      ∀ q, s.nextLive = some q → q.1.matchesResponse data = false)

theorem nextLive_of_head {p : PendingCommandTuple} (hp : s.pendingCommand.head? = some p)
    (hw : s.waits p.2 = true) : s.nextLive = some p := by
  obtain ⟨rest,hrest⟩ := List.head?_eq_some_iff.mp hp
  simp [State.nextLive,hrest,hw]

theorem mem_of_nextLive {p : PendingCommandTuple} (h : s.nextLive = some p) :
    p ∈ s.pendingCommand ∧ s.waits p.2 = true := by
  rw [State.nextLive] at h
  exact ⟨List.mem_of_find?_eq_some h,by simpa using List.find?_some h⟩

theorem reply_dispatch {cmd : Commands} {i : ℕ} {rest : List PendingCommandTuple} (hs : Valid s)
    (hp : s.pendingCommand = (cmd,i) :: rest) (hm : cmd.matchesResponse data = true) :
    (dispatch s data).reply i = some (.ok data) ∧
      ∀ j, j ≠ i → (dispatch s data).reply j = s.reply j := by
  have hi : s.reply i = none := hs.reply_of_pending (p := (cmd,i)) (by simp [hp])
  have hnone : s.oneshots.find? (fun o => o.1.2 == i) = none := by
    simpa [State.reply] using hi
  rw [dispatch_of_matches hp hm]
  constructor
  · simp only [State.reply,List.find?_append,hnone]
    simp
  · intro j hj
    have hij : (i == j) = false := by simpa using hj.symm
    simp [State.reply,List.find?_append,hij]

theorem routed_of_headOk (hs : Valid s) (h : HeadOk s data) : Routed s data (dispatch s data) := by
  rcases dispatch_cases s data with ⟨cmd,i,rest,hp,hm,he⟩ | ⟨hm,he⟩
  · -- the front entry takes the response, so its caller waits
    obtain ⟨htaken,hother⟩ := reply_dispatch hs hp hm
    have hhead : s.pendingCommand.head? = some (cmd,i) := by rw [hp]; rfl
    have hw : s.waits i = true := by
      rcases h _ hhead with hw | ⟨hno,-⟩
      · exact hw
      · cases hm.symm.trans hno
    refine ⟨?_,?_,?_⟩
    · intro p hnext _
      obtain rfl := Option.some.inj ((nextLive_of_head hhead hw).symm.trans hnext)
      exact htaken
    · intro hnone
      cases hm.symm.trans (hnone (cmd,i) (by simp [hp]) hw)
    · intro p hpend hpw
      have hne : p.2 ≠ i := by
        intro hpi
        rw [hpi,hw] at hpw
        cases hpw
      rw [hother p.2 hne,hs.reply_of_pending hpend]
      exact nofun
  · rw [he]
    refine ⟨?_,fun _ => rfl,?_⟩
    · intro p hnext hmatch
      obtain ⟨front,hfront⟩ : ∃ front, s.pendingCommand.head? = some front := by
        cases hl : s.pendingCommand with
        | nil => simp [State.nextLive,hl] at hnext
        | cons q rest => exact ⟨q,rfl⟩
      rcases h front hfront with hw | ⟨-,hno⟩
      · obtain rfl := Option.some.inj ((nextLive_of_head hfront hw).symm.trans hnext)
        cases hmatch.symm.trans (hm front hfront)
      · cases hmatch.symm.trans (hno p hnext)
    · intro p hpend _
      have hnone : s.reply p.2 = none := hs.reply_of_pending hpend
      change s.reply p.2 ≠ _
      rw [hnone]
      exact nofun

theorem headOk_of_routed (hs : Valid s) (h : Routed s data (dispatch s data)) : HeadOk s data := by
  intro front hfront
  cases hw : s.waits front.2 with
  | true => exact Or.inl rfl
  | false =>
    have hmem : front ∈ s.pendingCommand := List.mem_of_mem_head? hfront
    obtain ⟨rest,hrest⟩ := List.head?_eq_some_iff.mp hfront
    have hno : front.1.matchesResponse data = false := by
      cases hm : front.1.matchesResponse data with
      | false => rfl
      | true => exact absurd (reply_dispatch hs hrest hm).1 (h.not_absorbed front hmem hw)
    refine Or.inr ⟨hno,fun q hnext => ?_⟩
    cases hm : q.1.matchesResponse data with
    | false => rfl
    | true =>
      have hgot := h.delivered q hnext hm
      have hsame : dispatch s data = _ := dispatch_of_not_matches (by
        rw [hfront]
        rintro p ⟨rfl⟩
        exact hno)
      rw [hsame] at hgot
      have hnone : s.reply q.2 = none := hs.reply_of_pending (mem_of_nextLive hnext).1
      cases hnone.symm.trans hgot

def RoutedAt (s : State) : Label → Prop
  | .recv (.ok data) => ∀ t, step s (.recv (.ok data)) = some t → Routed s data t
  | _ => True

def HeadOkAt (s : State) : Label → Prop
  | .recv (.ok data) => s.recvTask = .looping → HeadOk s data
  | _ => True

theorem routedAt_iff (hs : Valid s) (a : Label) : RoutedAt s a ↔ HeadOkAt s a := by
  cases a with
  | recv item =>
    cases item with
    | ok data =>
      constructor
      · intro h hl
        exact headOk_of_routed hs (h _ (recv_ok_iff.mpr ⟨hl,rfl⟩))
      · intro h t ht
        obtain ⟨hl,rfl⟩ := recv_ok_iff.mp ht
        exact routed_of_headOk hs (h hl)
    | error e => exact Iff.rfl
  | _ => exact Iff.rfl

/-- Along every run, all responses go where they should exactly if at each of them the front
entry is not in the way. -/
theorem responses_routed_iff (as : List Label) :
    Transition.Along step RoutedAt init as ↔ Transition.Along step HeadOkAt init as :=
  Transition.along_congr (fun _ _ _ hs h => step_valid hs h) (fun _ a hs => routedAt_iff hs a)
    init_valid

/-- A timed-out mute command takes the acknowledgment of the next command. -/
theorem abandoned_mute_absorbs_ack :
    ¬∀ as, Transition.Along step RoutedAt init as := by
  intro h
  let sent : List Label := [.enqueue 0 (.setMute true),.lock 0,.send 0,.flush 0,.drop 0,
    .enqueue 1 (.setSource 1),.lock 1,.send 1,.flush 1]
  have hrun : (Transition.run step init (sent ++ [.recv (.ok .ack)])).map
      (fun t => t.reply 1) = some none := rfl
  have hnext : (Transition.run step init sent).map State.nextLive =
      some (some (.setSource 1,1)) := rfl
  obtain ⟨t,ht,hreply⟩ := Option.map_eq_some_iff.mp hrun
  obtain ⟨s,hs,hstep⟩ := Transition.run_concat_iff.mp ht
  obtain ⟨s',hs',hlive⟩ := Option.map_eq_some_iff.mp hnext
  obtain rfl := Option.some.inj (hs.symm.trans hs')
  have hrouted := Transition.along_iff.mp (h (sent ++ [.recv (.ok .ack)])) sent _ [] s rfl hs t hstep
  cases hreply.symm.trans (hrouted.delivered _ hlive rfl)

end Multiplexer
end Minidsp
