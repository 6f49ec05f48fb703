import Minidsp.TcpClients

/-! No client of the TCP server waits for another: its own steps and those of the task that
writes to the device bring its frames there. -/
namespace Minidsp
namespace TcpServer

open Buffer Transition
open Dialogue.Shared (own)

namespace Connection

variable {broadcast : List Bytes} {conn : Connection}

theorem poll_cases (h : conn.Valid broadcast) (hturn : conn.turn = .selecting)
    (hreadable : conn.isReadable = true) :
    (∃ conn' frame, conn.poll = some (conn',some frame) ∧ conn'.remote.fed = conn.remote.fed ∧
      conn'.remote.buffer.length < conn.remote.buffer.length) ∨
    ∃ conn', conn.poll = some (conn',none) ∧ conn'.remote.fed = conn.remote.fed ∧
      conn'.isReadable = false := by
  obtain ⟨state,buffer,item,hdecode,rfl⟩ := server_chunked.total _ conn.remote.buffer h.codec
  have hpoll : conn.poll = _ := if_pos ⟨hturn,hreadable⟩
  rw [hdecode] at hpoll
  cases item with
  | some frame =>
    exact Or.inl ⟨_,frame,hpoll,rfl,server_chunked.shrinks _ _ _ _ _ h.codec hdecode⟩
  | none => exact Or.inr ⟨_,hpoll,rfl,rfl⟩

end Connection

variable {ι : Type} [DecidableEq ι] {cap : Capacity} {s t : State ι} {c : ι} {conn : Connection}

/-- A step of the client's own task that writes or polls, or of the task that owns the device. -/
def Label.isOwn (c : ι) : Label ι → Prop
  | .write c' _ | .poll c' | .flushed c' => c' = c
  | .takeFrame | .sendFrame => True
  | _ => False

variable (cap c) in
theorem leads_receiving (htx : s.txTask ≠ .ended) :
    ∃ t, Leads (step cap) (Label.isOwn c) s t ∧ t.txTask = .receiving ∧ t.deviceTx = s.deviceTx ∧
      t.connections = s.connections := by
  cases hcase : s.txTask with
  | receiving => exact ⟨s,.refl,hcase,rfl,rfl⟩
  | ended => exact absurd hcase htx
  | sending entry =>
    refine ⟨{ s with txTask := .receiving, sink := s.sink ++ [entry] },
      .single (a := .sendFrame) trivial ?_,rfl,rfl,rfl⟩
    simp only [step,hcase]

variable (cap c) in
theorem leads_drained (htx : s.txTask ≠ .ended) :
    ∃ t, Leads (step cap) (Label.isOwn c) s t ∧ t.txTask = .receiving ∧ t.deviceTx = [] ∧
      t.connections = s.connections := by
  generalize hqueue : s.deviceTx = queue
  induction queue generalizing s with
  | nil =>
    obtain ⟨t,hst,ht,hempty,hconns⟩ := leads_receiving cap c htx
    exact ⟨t,hst,ht,hempty.trans hqueue,hconns⟩
  | cons entry queue ih =>
    obtain ⟨t,hst,ht,hsame,hconns⟩ := leads_receiving cap c htx
    have htake : step cap t .takeFrame = some
        { t with txTask := .sending entry, deviceTx := queue, parked := t.parked.tail } := by
      simp only [step,ht,hsame,hqueue]
    obtain ⟨u,htu,hu,hempty,hconns'⟩ := ih (s := { t with
      txTask := .sending entry, deviceTx := queue, parked := t.parked.tail }) (by simp) rfl
    exact ⟨u,hst.trans ((Leads.single trivial htake).trans htu),hu,hempty,hconns'.trans hconns⟩

theorem leads_selecting (hs : s.Valid cap) (htx : s.txTask ≠ .ended)
    (hc : s.connections c = some conn) (hopen : conn.turn ≠ .closed) :
    ∃ t conn', Leads (step cap) (Label.isOwn c) s t ∧ t.txTask ≠ .ended ∧
      t.connections c = some conn' ∧ (∀ c', c' ≠ c → t.connections c' = s.connections c') ∧
      conn'.turn = .selecting ∧ conn'.remote = conn.remote := by
  cases hturn : conn.turn with
  | selecting => exact ⟨s,conn,.refl,htx,hc,fun _ _ => rfl,hturn,rfl⟩
  | closed => exact absurd hturn hopen
  | sending rest =>
    have hwrite : step cap s (.write c rest.length) = some (s.set c { conn with
        turn := .selecting, written := conn.written ++ rest }) := by
      refine onConnection_iff.mpr ⟨conn,_,hc,?_,rfl⟩
      simp [Connection.write,hturn]
    exact ⟨_,_,.single (by exact rfl) hwrite,htx,s.set_self c _,fun _ h => s.set_of_ne h _,rfl,rfl⟩
  | queued =>
    obtain ⟨t,hst,ht,hempty,hconns⟩ := leads_drained cap c htx
    have hroom := (hst.invariant (fun _ _ _ hs _ h => step_valid hs h) hs).room
    rw [hempty,List.length_nil,Nat.zero_sub,List.length_eq_zero_iff] at hroom
    have hflushed : step cap t (.flushed c) = some (t.set c { conn with turn := .selecting }) := by
      refine (if_neg (by simp [hroom])).trans (onConnection_iff.mpr ⟨conn,_,?_,?_,rfl⟩)
      · rw [hconns,hc]
      · exact if_pos hturn
    refine ⟨_,_,hst.trans (.single (by exact rfl) hflushed),?_,t.set_self c _,fun c' h => ?_,rfl,
      rfl⟩
    · show t.txTask ≠ _
      rw [ht]
      simp
    · rw [t.set_of_ne h,hconns]

/-- The decoder gives all that was read. -/
theorem leads_settled (hs : s.Valid cap) (htx : s.txTask ≠ .ended)
    (hc : s.connections c = some conn) (hopen : conn.turn ≠ .closed) :
    ∃ t conn', Leads (step cap) (Label.isOwn c) s t ∧ t.txTask ≠ .ended ∧
      t.connections c = some conn' ∧ (∀ c', c' ≠ c → t.connections c' = s.connections c') ∧
      conn'.isReadable = false ∧ conn'.remote.fed = conn.remote.fed := by
  generalize hlen : conn.remote.buffer.length = n
  induction n using Nat.strong_induction_on generalizing s conn with
  | h n ih =>
  obtain ⟨t,conn₁,hst,ht,hc₁,hothers,hsel,hremote⟩ := leads_selecting hs htx hc hopen
  have htvalid : t.Valid cap := hst.invariant (fun _ _ _ hs _ h => step_valid hs h) hs
  cases hreadable : conn₁.isReadable with
  | false => exact ⟨t,conn₁,hst,ht,hc₁,hothers,hreadable,by rw [hremote]⟩
  | true =>
    rcases Connection.poll_cases (htvalid.connection c conn₁ hc₁) hsel hreadable with
      ⟨conn₂,frame,hpoll,hfed,hlt⟩ | ⟨conn₂,hpoll,hfed,hdone⟩
    · have hpush : step cap t (.poll c) = some ((t.set c conn₂).push cap c frame) := by
        simp [step,State.poll,hc₁,hpoll,ht]
      have hqueued := (Connection.poll_spec (htvalid.connection c conn₁ hc₁) hpoll).2.2.2.2
      rw [hremote,hlen] at hlt
      obtain ⟨u,conn₃,htu,hu,hc₃,hothers',hdone,hfed'⟩ := ih _ hlt (step_valid htvalid hpush) ht
        (t.set_self c conn₂) (by rw [hqueued (by simp)]; simp) rfl
      refine ⟨u,conn₃,hst.trans ((Leads.single (by exact rfl) hpush).trans htu),hu,hc₃,
        fun c' h => ?_,hdone,hfed'.trans (hfed.trans (by rw [hremote]))⟩
      exact (hothers' c' h).trans ((t.set_of_ne h conn₂).trans (hothers c' h))
    · have hset : step cap t (.poll c) = some (t.set c conn₂) := by
        simp [step,State.poll,hc₁,hpoll]
      exact ⟨_,_,hst.trans (.single (by exact rfl) hset),ht,t.set_self c conn₂,
        fun c' h => (t.set_of_ne h conn₂).trans (hothers c' h),hdone,hfed.trans (by rw [hremote])⟩

/-- While the device works, whatever the other clients do or fail to do, all frames of what was
read of a client can still be brought to the device by that client's task and the task that
writes. -/
theorem client_not_held_up {as : List (Label ι)}
    (h : run (step cap) (start ι) as = some s) (hc : s.connections c = some conn)
    (hopen : conn.turn ≠ .closed) (htx : s.txTask ≠ .ended) :
    ∃ t conn', Leads (step cap) (Label.isOwn c) s t ∧
      t.connections c = some conn' ∧ (∀ c', c' ≠ c → t.connections c' = s.connections c') ∧
      conn'.remote.fed = conn.remote.fed ∧
      own c t.sink = Framed.items Codec.decode .newServer conn.remote.fed := by
  have hs := run_valid h
  obtain ⟨u,conn₁,hsu,hu,hc₁,hothers,hdone,hfed⟩ := leads_settled hs htx hc hopen
  obtain ⟨t,hut,ht,hempty,hconns⟩ := leads_drained cap c hu
  have hst := hsu.trans hut
  have htvalid : t.Valid cap := hst.invariant (fun _ _ _ hs _ h => step_valid hs h) hs
  have hct : t.connections c = some conn₁ := by rw [hconns,hc₁]
  refine ⟨t,conn₁,hst,hct,fun c' hne => by rw [hconns,hothers c' hne],hfed,?_⟩
  have hflow := htvalid.flow (by simp [ht]) c
  rw [ht,hempty,given_eq hct,(htvalid.connection c conn₁ hct).settled hdone,hfed] at hflow
  rw [← hflow]
  simp [TxTask.taken]

/-- The other client reads nothing of what it is sent. -/
theorem client_not_held_up_by_stuck : ∃ s : State Bool,
    run (step ⟨1,2⟩) (start Bool) [.accept true,.accept false,.frame (.ok [1,0xff]),.recv false,
      .read true [2,0x17,0x19]] = some s ∧
    ∃ t, Leads (step ⟨1,2⟩) (Label.isOwn true) s t ∧ own true t.sink = [[2,0x17,0x19]] := by
  obtain ⟨t,_,hlead,-,-,-,hsink⟩ := @client_not_held_up Bool _ ⟨1,2⟩ _ true _ [.accept true,
    .accept false,.frame (.ok [1,0xff]),.recv false,.read true [2,0x17,0x19]] rfl rfl (by decide)
    (by decide)
  exact ⟨_,rfl,t,hlead,hsink.trans rfl⟩

end TcpServer
end Minidsp
