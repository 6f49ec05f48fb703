import Mathlib.Data.Finset.Card
import Minidsp.Effects
import Minidsp.TcpServer

/-! What the clients of the TCP server and its device get from each other, in every run. -/
namespace Minidsp
namespace TcpServer

open Buffer
open Dialogue.Shared (own own_append own_self own_other)

theorem truncate_wellFormed {frame g : Bytes} (h : truncate frame = .ok g) :
    g = [] ∨ Codec.newClient.WellFormed g := by
  cases frame with
  | nil => cases h
  | cons b rest =>
    rw [truncate] at h
    dsimp only at h
    split at h
    · cases h
    · rename_i hlen
      obtain rfl := Except.ok.inj h
      rw [List.length_cons,Nat.not_lt] at hlen
      by_cases hb : b = 0
      · exact Or.inl (by rw [hb]; rfl)
      · have hpos : b.toNat ≠ 0 := fun h0 => hb (UInt8.toNat_inj.mp h0)
        obtain ⟨n,hn⟩ := Nat.exists_eq_succ_of_ne_zero hpos
        refine Or.inr ⟨b,rest.take n,by rw [hn,List.take_succ_cons],hb,?_⟩
        have hadd : Codec.newClient.additionalLength = 0 := rfl
        rw [List.length_take,hn,hadd]
        omega

theorem received_wellFormed {item : Except MiniDSPError Bytes} {g : Bytes}
    (h : g ∈ received item) : g = [] ∨ Codec.newClient.WellFormed g := by
  rw [received] at h
  split at h
  · rename_i frame hframe
    obtain rfl := List.mem_singleton.mp h
    cases item with
    | error e => cases hframe
    | ok frame => exact truncate_wellFormed hframe
  · cases h

/-! One client. -/

theorem server_chunked : Framed.Chunked Codec.decode (· = Codec.newServer) :=
  Codec.decode_chunked (Or.inl rfl)

/-- What a turn leaves to be written of the frames so far. -/
def Turn.Leaves : Turn → Bytes → Prop
  | .sending left, rest => rest = left
  | .closed, _ => True
  | _, rest => rest = []

/-- The client was sent a part of the frames from the one it began with to the one that is next,
and the device was given frames of what the client sent: all of them, when the decoder asks for
more. -/
structure Connection.Valid (broadcast : List Bytes) (conn : Connection) : Prop where
  codec : conn.remote.state = .newServer
  consistent : conn.remote.Consistent Codec.decode .newServer
  settled : conn.isReadable = false →
    conn.remote.given = Framed.items Codec.decode .newServer conn.remote.fed
  place : conn.subscribed ≤ conn.next ∧ conn.next ≤ broadcast.length
  wire : ∃ rest, conn.turn.Leaves rest ∧
    conn.written ++ rest = ((broadcast.take conn.next).drop conn.subscribed).flatten

namespace Connection

variable {broadcast : List Bytes} {conn conn' : Connection} {retain : ℕ} {sender : Bool}

theorem new_valid : (new broadcast.length).Valid broadcast where
  codec := rfl
  consistent := Framed.Fed.new_consistent server_chunked rfl
  settled _ := rfl
  place := ⟨le_rfl,le_rfl⟩
  wire := ⟨[],rfl,by simp [new]⟩

theorem Valid.append (h : conn.Valid broadcast) (more : List Bytes) :
    conn.Valid (broadcast ++ more) := by
  obtain ⟨hsub,hnext⟩ := h.place
  refine ⟨h.codec,h.consistent,h.settled,⟨hsub,hnext.trans (by simp)⟩,?_⟩
  rw [List.take_append_of_le_length hnext]
  exact h.wire

theorem Valid.turn (h : conn.Valid broadcast) {turn : Turn}
    (hturn : ∀ rest, conn.turn.Leaves rest → turn.Leaves rest) :
    ({ conn with turn := turn } : Connection).Valid broadcast := by
  obtain ⟨rest,hleaves,hwire⟩ := h.wire
  exact ⟨h.codec,h.consistent,h.settled,h.place,rest,hturn rest hleaves,hwire⟩

/-- A step of a client that gives nothing to the device, and is not one of a parked client. -/
structure Inner (broadcast : List Bytes) (conn conn' : Connection) : Prop where
  valid : conn'.Valid broadcast
  given : conn'.remote.given = conn.remote.given
  subscribed : conn'.subscribed = conn.subscribed
  turn : conn.turn ≠ .queued

theorem flatten_next {n m : ℕ} (hm : m ≤ n) (hn : n < broadcast.length) :
    ((broadcast.take (n+1)).drop m).flatten =
      ((broadcast.take n).drop m).flatten ++ broadcast[n] := by
  have hlen : m ≤ (broadcast.take n).length := by
    rw [List.length_take]
    exact le_min hm (hm.trans hn.le)
  rw [List.take_succ_eq_append_getElem hn,List.drop_append_of_le_length hlen,List.flatten_append,
    List.flatten_singleton]

theorem recv_inner (h : conn.Valid broadcast)
    (hrecv : conn.recv retain broadcast sender = some conn') : Inner broadcast conn conn' := by
  rw [recv] at hrecv
  split at hrecv
  · cases hrecv
  · rename_i hturn
    rw [not_not] at hturn
    have hne : conn.turn ≠ .queued := by simp [hturn]
    split at hrecv
    · obtain rfl := Option.some.inj hrecv
      exact ⟨h.turn fun _ _ => trivial,rfl,rfl,hne⟩
    · split at hrecv
      · rename_i frame hframe
        obtain rfl := Option.some.inj hrecv
        obtain ⟨hlt,rfl⟩ := List.getElem?_eq_some_iff.mp hframe
        obtain ⟨rest,hleaves,hwire⟩ := h.wire
        rw [hturn] at hleaves
        obtain rfl : rest = [] := hleaves
        rw [List.append_nil] at hwire
        refine ⟨⟨h.codec,h.consistent,h.settled,⟨h.place.1.trans (Nat.le_succ _),hlt⟩,_,rfl,?_⟩,
          rfl,rfl,hne⟩
        rw [flatten_next h.place.1 hlt,hwire]
      · obtain ⟨-,hsome⟩ := Option.ite_none_left_eq_some.mp hrecv
        obtain rfl := Option.some.inj hsome
        exact ⟨h.turn fun _ _ => trivial,rfl,rfl,hne⟩

theorem write_inner {n : ℕ} (h : conn.Valid broadcast) (hwrite : conn.write n = some conn') :
    Inner broadcast conn conn' := by
  rw [write] at hwrite
  split at hwrite
  · rename_i left hturn
    obtain ⟨-,hsome⟩ := Option.ite_none_right_eq_some.mp hwrite
    obtain rfl := Option.some.inj hsome
    obtain ⟨rest,hleaves,hwire⟩ := h.wire
    rw [hturn] at hleaves
    obtain rfl : rest = left := hleaves
    refine ⟨⟨h.codec,h.consistent,h.settled,h.place,rest.drop n,?_,?_⟩,rfl,rfl,
      by simp [hturn]⟩
    · show Turn.Leaves (if rest.drop n = [] then _ else _) _
      split_ifs with hdone
      · exact hdone
      · rfl
    · rw [List.append_assoc,List.take_append_drop,hwire]
  · cases hwrite

theorem writeError_inner (h : conn.Valid broadcast) (hwrite : conn.writeError = some conn') :
    Inner broadcast conn conn' := by
  rw [writeError] at hwrite
  split at hwrite
  · rename_i left hturn
    obtain rfl := Option.some.inj hwrite
    exact ⟨h.turn fun _ _ => trivial,rfl,rfl,by simp [hturn]⟩
  · cases hwrite

theorem read_inner {chunk : Bytes} (h : conn.Valid broadcast)
    (hread : conn.read chunk = some conn') : Inner broadcast conn conn' := by
  obtain ⟨⟨hturn,-⟩,hsome⟩ := Option.ite_none_right_eq_some.mp hread
  obtain rfl := Option.some.inj hsome
  exact ⟨⟨h.codec,h.consistent.feed server_chunked rfl h.codec chunk,nofun,h.place,
    h.wire⟩,rfl,rfl,by simp [hturn]⟩

theorem readError_inner (h : conn.Valid broadcast) (hread : conn.readError = some conn') :
    Inner broadcast conn conn' := by
  obtain ⟨⟨hturn,-⟩,hsome⟩ := Option.ite_none_right_eq_some.mp hread
  obtain rfl := Option.some.inj hsome
  exact ⟨h.turn fun _ _ => trivial,rfl,rfl,by simp [hturn]⟩

theorem flushed_valid (h : conn.Valid broadcast) (hflushed : conn.flushed = some conn') :
    conn'.Valid broadcast ∧ conn'.remote.given = conn.remote.given ∧
      conn'.subscribed = conn.subscribed := by
  obtain ⟨hturn,hsome⟩ := Option.ite_none_right_eq_some.mp hflushed
  obtain rfl := Option.some.inj hsome
  exact ⟨h.turn fun rest hleaves => by rw [hturn] at hleaves; exact hleaves,rfl,rfl⟩

/-- The decoder gives one frame, or has given all. -/
theorem poll_spec {x : Option Bytes} (h : conn.Valid broadcast)
    (hpoll : conn.poll = some (conn',x)) :
    conn.turn = .selecting ∧ conn'.Valid broadcast ∧
      conn'.remote.given = conn.remote.given ++ x.toList ∧ conn'.subscribed = conn.subscribed ∧
      (x ≠ none → conn'.turn = .queued) := by
  obtain ⟨⟨hturn,hreadable⟩,hsome⟩ := Option.ite_none_right_eq_some.mp hpoll
  obtain ⟨state,buffer,item,hdecode,rfl⟩ := server_chunked.total _ conn.remote.buffer h.codec
  rw [hdecode] at hsome
  have hnext := h.consistent.call server_chunked h.codec hdecode
  obtain ⟨rest,hleaves,hwire⟩ := h.wire
  rw [hturn] at hleaves
  obtain rfl : rest = [] := hleaves
  cases item with
  | some frame =>
    obtain ⟨rfl,rfl⟩ := Prod.mk.inj (Option.some.inj hsome)
    exact ⟨hturn,⟨rfl,hnext,fun hfalse => absurd (hreadable.symm.trans hfalse) (by simp),h.place,
      [],rfl,hwire⟩,rfl,rfl,fun _ => rfl⟩
  | none =>
    obtain ⟨rfl,rfl⟩ := Prod.mk.inj (Option.some.inj hsome)
    have hgiven := h.consistent.given_of_none server_chunked rfl hdecode
    refine ⟨hturn,⟨rfl,hnext,fun _ => ?_,h.place,[],?_,hwire⟩,rfl,rfl,fun hx => absurd rfl hx⟩
    · exact (List.append_nil _).trans hgiven
    · show Turn.Leaves (if conn.eof = true then _ else _) _
      split_ifs
      · trivial
      · rfl

end Connection

/-! All clients. -/

section
variable {ι : Type}

def State.given (s : State ι) (c : ι) : List Bytes :=
  match s.connections c with
  | some conn => conn.remote.given
  | none => []

theorem given_eq {s : State ι} {c : ι} {conn : Connection} (h : s.connections c = some conn) :
    s.given c = conn.remote.given := by
  rw [State.given,h]

/-- The frame the task has between the channel and the device. -/
def TxTask.taken : TxTask ι → List (ι × Bytes)
  | .sending entry => [entry]
  | _ => []

end

variable {ι : Type} [DecidableEq ι] {cap : Capacity} {s t : State ι} {a : Label ι}

structure State.Valid (cap : Capacity) (s : State ι) : Prop where
  connection : ∀ c conn, s.connections c = some conn → conn.Valid s.broadcast
  /-- Nothing is lost before the device fails. -/
  flow : s.txTask ≠ .ended → ∀ c, own c (s.sink ++ s.txTask.taken ++ s.deviceTx) = s.given c
  order : ∀ c, own c s.sink <+: s.given c
  /-- The senders that wait are as many as there are frames without room. -/
  room : s.parked.length = s.deviceTx.length - cap.mpsc
  parked : s.parked.Nodup ∧
    ∀ c ∈ s.parked, ∃ conn, s.connections c = some conn ∧ conn.turn = .queued

theorem start_valid : (start ι).Valid cap :=
  ⟨nofun,fun _ _ => rfl,fun _ => List.prefix_rfl,(Nat.zero_sub _).symm,List.nodup_nil,nofun⟩

theorem given_set (c : ι) (conn : Connection) : (s.set c conn).given c = conn.remote.given :=
  given_eq (s.set_self c conn)

theorem given_set_of_ne {c c' : ι} (h : c' ≠ c) (conn : Connection) :
    (s.set c conn).given c' = s.given c' := by
  rw [State.given,s.set_of_ne h conn,State.given]

theorem State.Valid.set (hs : s.Valid cap) {c : ι} {conn : Connection}
    (hconn : conn.Valid s.broadcast) (hgiven : s.given c <+: conn.remote.given)
    (hsame : s.txTask ≠ .ended → conn.remote.given = s.given c) (hparked : c ∉ s.parked) :
    (s.set c conn).Valid cap := by
  refine ⟨fun c' conn' hc' => ?_,fun hend c' => ?_,fun c' => ?_,hs.room,hs.parked.1,
    fun c' hc' => ?_⟩
  · by_cases hc : c' = c
    · subst hc
      rw [s.set_self] at hc'
      exact Option.some.inj hc' ▸ hconn
    · rw [s.set_of_ne hc] at hc'
      exact hs.connection c' conn' hc'
  · refine (hs.flow hend c').trans ?_
    by_cases hc : c' = c
    · subst hc
      rw [given_set,hsame hend]
    · rw [given_set_of_ne hc]
  · refine (hs.order c').trans ?_
    by_cases hc : c' = c
    · subst hc
      rwa [given_set]
    · rw [given_set_of_ne hc]
  · have hc : c' ≠ c := fun hc => hparked (hc ▸ hc')
    rw [s.set_of_ne hc]
    exact hs.parked.2 c' hc'

theorem onConnection_iff {c : ι} {f : Connection → Option Connection} :
    s.onConnection c f = some t ↔ ∃ conn conn', s.connections c = some conn ∧
      f conn = some conn' ∧ t = s.set c conn' := by
  simp only [State.onConnection,Option.bind_eq_some_iff,Option.map_eq_some_iff,eq_comm (a := t)]
  constructor
  · rintro ⟨conn,hconn,conn',hf,ht⟩
    exact ⟨conn,conn',hconn,hf,ht⟩
  · rintro ⟨conn,conn',hconn,hf,ht⟩
    exact ⟨conn,hconn,conn',hf,ht⟩

theorem State.Valid.not_parked (hs : s.Valid cap) {c : ι} {conn : Connection}
    (hc : s.connections c = some conn) (hturn : conn.turn ≠ .queued) : c ∉ s.parked := by
  intro hmem
  obtain ⟨conn',hconn',hqueued⟩ := hs.parked.2 c hmem
  exact hturn (Option.some.inj (hconn'.symm.trans hc) ▸ hqueued)

theorem onConnection_valid (hs : s.Valid cap) {c : ι} {f : Connection → Option Connection}
    (hf : ∀ conn conn', conn.Valid s.broadcast → f conn = some conn' →
      Connection.Inner s.broadcast conn conn')
    (h : s.onConnection c f = some t) : t.Valid cap := by
  obtain ⟨conn,conn',hc,hfc,rfl⟩ := onConnection_iff.mp h
  have hinner := hf conn conn' (hs.connection c conn hc) hfc
  have hgiven := hinner.given.trans (given_eq hc).symm
  exact hs.set hinner.valid (hgiven ▸ List.prefix_rfl) (fun _ => hgiven)
    (hs.not_parked hc hinner.turn)

theorem dropReceiver_valid (hs : s.Valid cap) : s.dropReceiver.Valid cap :=
  ⟨hs.connection,fun h => absurd rfl h,hs.order,(Nat.zero_sub _).symm,List.nodup_nil,nofun⟩

theorem push_valid (hs : s.Valid cap) {c : ι} {conn conn' : Connection} {frame : Bytes}
    (hc : s.connections c = some conn) (hsel : conn.turn = .selecting)
    (hconn' : conn'.Valid s.broadcast) (hgiven : conn'.remote.given = conn.remote.given ++ [frame])
    (hqueued : conn'.turn = .queued) : ((s.set c conn').push cap c frame).Valid cap := by
  have hnot : c ∉ s.parked := hs.not_parked hc (by simp [hsel])
  have hadded : ∀ c', ((s.set c conn').push cap c frame).given c' =
      s.given c' ++ own c' [(c,frame)] := by
    intro c'
    by_cases h : c' = c
    · subst h
      refine (given_set c' conn').trans ?_
      rw [hgiven,given_eq hc]
      exact congrArg _ (own_self c' [frame]).symm
    · refine (given_set_of_ne h conn').trans ?_
      rw [show own c' [(c,frame)] = [] from own_other h [frame],List.append_nil]
  refine ⟨fun c' conn₀ hc' => ?_,fun hend c' => ?_,fun c' => ?_,?_,?_,fun c' hmem => ?_⟩
  · by_cases h : c' = c
    · subst h
      obtain rfl := Option.some.inj ((s.set_self c' conn').symm.trans hc')
      exact hconn'
    · exact hs.connection c' conn₀ ((s.set_of_ne h conn').symm.trans hc')
  · rw [hadded,← hs.flow hend c',← own_append,List.append_assoc _ s.deviceTx]
    rfl
  · rw [hadded]
    exact (hs.order c').trans (List.prefix_append _ _)
  · have hroom := hs.room
    show (if cap.mpsc < s.deviceTx.length+1 then s.parked ++ [c] else s.parked).length =
      (s.deviceTx ++ [(c,frame)]).length - cap.mpsc
    rw [List.length_append,List.length_singleton]
    split_ifs with h
    · rw [List.length_append,List.length_singleton]
      omega
    · omega
  · show (if cap.mpsc < s.deviceTx.length+1 then s.parked ++ [c] else s.parked).Nodup
    split_ifs
    · exact hs.parked.1.append (List.nodup_singleton c) (by simpa using hnot)
    · exact hs.parked.1
  · by_cases h : c' = c
    · subst h
      exact ⟨conn',s.set_self c' conn',hqueued⟩
    · have hpush : c' ∈ if cap.mpsc < s.deviceTx.length+1 then s.parked ++ [c] else s.parked :=
        hmem
      have hmem' : c' ∈ s.parked := by
        split_ifs at hpush
        · exact (List.mem_append.mp hpush).resolve_right (by simpa using h)
        · exact hpush
      obtain ⟨conn₀,hconn₀,hturn⟩ := hs.parked.2 c' hmem'
      exact ⟨conn₀,(s.set_of_ne h conn').trans hconn₀,hturn⟩

theorem poll_valid (hs : s.Valid cap) {c : ι} (h : s.poll cap c = some t) : t.Valid cap := by
  obtain ⟨conn,hc,hmap⟩ := Option.bind_eq_some_iff.mp h
  obtain ⟨⟨conn',x⟩,hpoll,ht⟩ := Option.map_eq_some_iff.mp hmap
  obtain ⟨hsel,hconn',hgiven,-,hqueued⟩ := Connection.poll_spec (hs.connection c conn hc) hpoll
  have hnot : c ∉ s.parked := hs.not_parked hc (by simp [hsel])
  have hprefix : s.given c <+: conn'.remote.given := by
    rw [hgiven,given_eq hc]
    exact List.prefix_append _ _
  cases x with
  | none =>
    obtain rfl := ht
    refine hs.set hconn' hprefix (fun _ => ?_) hnot
    rw [hgiven,given_eq hc]
    exact List.append_nil _
  | some frame =>
    dsimp only at ht
    split_ifs at ht with hend
    · -- the channel is closed, and the frame is lost
      obtain rfl := ht
      exact hs.set (hconn'.turn fun _ _ => trivial) hprefix (fun hne => absurd hend hne) hnot
    · obtain rfl := ht
      exact push_valid hs hc hsel hconn' hgiven (hqueued (by simp))

theorem State.Valid.frame (hs : s.Valid cap) {more : List Bytes}
    (hconns : t.connections = s.connections) (hcast : t.broadcast = s.broadcast ++ more)
    (hsink : t.sink = s.sink) (htx : t.txTask = s.txTask) (hqueue : t.deviceTx = s.deviceTx)
    (hparked : t.parked = s.parked) : t.Valid cap := by
  have hgiven : t.given = s.given := by
    funext c
    rw [State.given,hconns,State.given]
  refine ⟨fun c conn hc => ?_,?_,?_,?_,?_⟩
  · rw [hcast]
    exact (hs.connection c conn (hconns ▸ hc)).append more
  · rw [htx,hsink,hqueue,hgiven]
    exact hs.flow
  · rw [hsink,hgiven]
    exact hs.order
  · rw [hparked,hqueue]
    exact hs.room
  · rw [hparked,hconns]
    exact hs.parked

theorem accept_valid (hs : s.Valid cap) {c : ι} (hc : s.connections c = none) :
    (s.set c (.new s.broadcast.length)).Valid cap := by
  have hgiven : s.given c = [] := by rw [State.given,hc]
  refine hs.set Connection.new_valid (by rw [hgiven]; exact List.nil_prefix) (fun _ => hgiven.symm)
    fun hmem => ?_
  obtain ⟨conn,hconn,-⟩ := hs.parked.2 c hmem
  cases hc.symm.trans hconn

theorem takeFrame_valid (hs : s.Valid cap) {entry : ι × Bytes} {rest : List (ι × Bytes)}
    (htx : s.txTask = .receiving) (hqueue : s.deviceTx = entry :: rest) :
    ({ s with txTask := .sending entry, deviceTx := rest, parked := s.parked.tail }
      : State ι).Valid cap := by
  have hroom := hs.room
  rw [hqueue,List.length_cons] at hroom
  refine ⟨hs.connection,fun _ c => ?_,hs.order,?_,hs.parked.1.tail,
    fun c hc => hs.parked.2 c (List.mem_of_mem_tail hc)⟩
  · have hflow := hs.flow (by simp [htx]) c
    rw [htx,hqueue] at hflow
    refine Eq.trans ?_ hflow
    simp [TxTask.taken]
  · show s.parked.tail.length = rest.length - cap.mpsc
    rw [List.length_tail]
    omega

theorem sendFrame_valid (hs : s.Valid cap) {entry : ι × Bytes} (htx : s.txTask = .sending entry) :
    ({ s with txTask := .receiving, sink := s.sink ++ [entry] } : State ι).Valid cap := by
  have hflow : ∀ c, own c (s.sink ++ [entry] ++ s.deviceTx) = s.given c := by
    intro c
    have hflow := hs.flow (by simp [htx]) c
    rwa [htx] at hflow
  refine ⟨hs.connection,fun _ c => ?_,fun c => ?_,hs.room,hs.parked⟩
  · refine Eq.trans ?_ (hflow c)
    simp [TxTask.taken]
  · show own c (s.sink ++ [entry]) <+: s.given c
    rw [← hflow c,own_append c (s.sink ++ [entry])]
    exact List.prefix_append _ _

theorem flushed_valid (hs : s.Valid cap) {c : ι} (hparked : c ∉ s.parked)
    (h : s.onConnection c Connection.flushed = some t) : t.Valid cap := by
  obtain ⟨conn,conn',hc,hfc,rfl⟩ := onConnection_iff.mp h
  obtain ⟨hconn',hgiven,-⟩ := Connection.flushed_valid (hs.connection c conn hc) hfc
  have hsame := hgiven.trans (given_eq hc).symm
  exact hs.set hconn' (hsame ▸ List.prefix_rfl) (fun _ => hsame) hparked

theorem step_valid (hs : s.Valid cap) (h : step cap s a = some t) : t.Valid cap := by
  cases a with
  | accept c =>
    obtain ⟨⟨-,hc⟩,hsome⟩ := Option.ite_none_right_eq_some.mp h
    obtain rfl := Option.some.inj hsome
    exact accept_valid hs hc
  | recv c => exact onConnection_valid hs (fun _ _ => Connection.recv_inner) h
  | write c n => exact onConnection_valid hs (fun _ _ => Connection.write_inner) h
  | writeError c => exact onConnection_valid hs (fun _ _ => Connection.writeError_inner) h
  | read c chunk => exact onConnection_valid hs (fun _ _ => Connection.read_inner) h
  | readError c => exact onConnection_valid hs (fun _ _ => Connection.readError_inner) h
  | poll c => exact poll_valid hs h
  | flushed c =>
    obtain ⟨hparked,hsome⟩ := Option.ite_none_left_eq_some.mp h
    exact flushed_valid hs hparked hsome
  | takeFrame =>
    simp only [step] at h
    split at h
    · rename_i entry rest htx hqueue
      obtain rfl := Option.some.inj h
      exact takeFrame_valid hs htx hqueue
    · cases h
  | sendFrame =>
    simp only [step] at h
    split at h
    · rename_i entry htx
      obtain rfl := Option.some.inj h
      exact sendFrame_valid hs htx
    · cases h
  | sendError =>
    simp only [step] at h
    split at h
    · obtain rfl := Option.some.inj h
      exact dropReceiver_valid hs
    · cases h
  | abortTx =>
    obtain ⟨-,hsome⟩ := Option.ite_none_left_eq_some.mp h
    obtain rfl := Option.some.inj hsome
    exact dropReceiver_valid hs
  | frame item =>
    obtain ⟨-,hsome⟩ := Option.ite_none_right_eq_some.mp h
    obtain rfl := Option.some.inj hsome
    exact hs.frame rfl rfl rfl rfl rfl rfl
  | streamRecv =>
    obtain ⟨-,hrecv⟩ := Option.ite_none_right_eq_some.mp h
    rw [State.streamRecv] at hrecv
    split_ifs at hrecv
    · obtain rfl := Option.some.inj hrecv
      exact hs.frame rfl (List.append_nil _).symm rfl rfl rfl rfl
    · obtain rfl := Option.some.inj hrecv
      exact hs.frame rfl (List.append_nil _).symm rfl rfl rfl rfl
  | abortRx =>
    obtain ⟨-,hsome⟩ := Option.ite_none_left_eq_some.mp h
    obtain rfl := Option.some.inj hsome
    exact hs.frame rfl (List.append_nil _).symm rfl rfl rfl rfl
  | acceptError | streamEnd | joinRx | joinTx =>
    obtain ⟨-,hsome⟩ := Option.ite_none_right_eq_some.mp h
    obtain rfl := Option.some.inj hsome
    exact hs.frame rfl (List.append_nil _).symm rfl rfl rfl rfl

theorem run_valid {as : List (Label ι)} (h : Transition.run (step cap) (start ι) as = some s) :
    s.Valid cap :=
  Transition.run_invariant (fun _ _ _ hs h => step_valid hs h) start_valid h

/-- Beyond its buffer the channel holds one frame of each client at most; the clients of those
frames are parked, and send nothing more for as long as they are. -/
theorem channel_bounded {as : List (Label ι)}
    (h : Transition.run (step cap) (start ι) as = some s) (clients : Finset ι)
    (hall : ∀ c conn, s.connections c = some conn → c ∈ clients) :
    s.deviceTx.length ≤ cap.mpsc + clients.card ∧
      s.parked.length = s.deviceTx.length - cap.mpsc ∧ s.parked.Nodup ∧
      ∀ c ∈ s.parked, step cap s (.poll c) = none ∧ step cap s (.flushed c) = none := by
  have hs := run_valid h
  have hroom := hs.room
  have hparked : s.parked.length ≤ clients.card := by
    rw [← List.toFinset_card_of_nodup hs.parked.1]
    refine Finset.card_le_card fun c hc => ?_
    obtain ⟨conn,hconn,-⟩ := hs.parked.2 c (List.mem_toFinset.mp hc)
    exact hall c conn hconn
  refine ⟨by omega,hroom,hs.parked.1,fun c hmem => ⟨?_,if_pos hmem⟩⟩
  obtain ⟨conn,hconn,hturn⟩ := hs.parked.2 c hmem
  have hpoll : conn.poll = none := if_neg (by simp [hturn])
  simp [step,State.poll,hconn,hpoll]

theorem channel_bounded_two : ∃ s : State Bool,
    Transition.run (step ⟨1,2⟩) (start Bool) [.accept true,.accept false,.read true [2,0x17,0x19],
      .poll true,.flushed true,.poll true,.read false [2,0x31,0x33],.poll false] = some s ∧
    s.deviceTx.length ≤ 1+2 ∧ s.deviceTx.length = 2 ∧ s.parked = [false] ∧
    step ⟨1,2⟩ s (.flushed false) = none := by
  obtain ⟨hlen,-,-,hparked⟩ := @channel_bounded Bool _ ⟨1,2⟩ _ [.accept true,.accept false,
    .read true [2,0x17,0x19],.poll true,.flushed true,.poll true,.read false [2,0x31,0x33],
    .poll false] rfl .univ fun c _ _ => Finset.mem_univ c
  exact ⟨_,rfl,hlen,rfl,rfl,(hparked false (List.mem_singleton.mpr rfl)).2⟩

/-! From the clients to the device. -/

theorem items_stream {c : Codec} (hc : c.InLengthMode) {frames : List (Bytes × ℕ)}
    (hf : ∀ f ∈ frames, c.WellFormed f.1) :
    Framed.items Codec.decode c (Codec.stream frames) = frames.map Prod.fst := by
  have hdrain := Codec.drain_stream hc frames 0 hf
  rw [List.replicate_zero,List.nil_append] at hdrain
  exact (Codec.decode_chunked hc).items_of_drain rfl hdrain

/-- The device takes the frames that each client sent, in the order in which it sent them and
each one once and whole, whatever the others send and in whatever pieces they are read; while
the device works, those that it has not taken yet are on their way. -/
theorem frames_reach_device {as : List (Label ι)} {c : ι} {conn : Connection}
    (h : Transition.run (step cap) (start ι) as = some s) (hc : s.connections c = some conn) :
    own c s.sink <+: Framed.items Codec.decode .newServer conn.remote.fed ∧
      (s.txTask ≠ .ended →
        own c (s.sink ++ s.txTask.taken ++ s.deviceTx) = conn.remote.given) ∧
      (conn.isReadable = false →
        conn.remote.given = Framed.items Codec.decode .newServer conn.remote.fed) ∧
      ∀ frames : List (Bytes × ℕ), (∀ f ∈ frames, Codec.newServer.WellFormed f.1) →
        conn.remote.fed <+: Codec.stream frames → own c s.sink <+: frames.map Prod.fst := by
  have hs := run_valid h
  have hconn := hs.connection c conn hc
  have htaken : own c s.sink <+: Framed.items Codec.decode .newServer conn.remote.fed := by
    refine (hs.order c).trans ?_
    rw [given_eq hc]
    exact hconn.consistent.given_prefix server_chunked rfl
  refine ⟨htaken,fun htx => (hs.flow htx c).trans (given_eq hc),hconn.settled,
    fun frames hf hfed => ?_⟩
  · obtain ⟨rest,hrest⟩ := hfed
    refine htaken.trans ?_
    rw [← items_stream (Or.inl rfl) hf,← hrest]
    exact server_chunked.items_prefix rfl _ _

theorem frames_reach_device_two : ∃ s : State Bool,
    Transition.run (step ⟨1,2⟩) (start Bool) [.accept true,.accept false,.read true [2,0x17],
      .poll true,.read false [2,0x31,0x33],.poll false,.read true [0x19,0,0],.poll true,.takeFrame,
      .sendFrame,.flushed true,.takeFrame,.sendFrame] = some s ∧
    own true s.sink <+: [[2,0x17,0x19]] ∧ s.sink = [(false,[2,0x31,0x33]),(true,[2,0x17,0x19])] :=
  ⟨_,rfl,(@frames_reach_device Bool _ ⟨1,2⟩ _ [.accept true,.accept false,
    .read true [2,0x17],.poll true,.read false [2,0x31,0x33],.poll false,.read true [0x19,0,0],
    .poll true,.takeFrame,.sendFrame,.flushed true,.takeFrame,.sendFrame] _ _ rfl rfl).2.2.2
    [([2,0x17,0x19],2)] (by
      intro f hf
      rw [List.mem_singleton.mp hf]
      exact ⟨2,[0x17,0x19],rfl,by decide,rfl⟩) ⟨[],rfl⟩,rfl⟩

/-! From the device to the clients. -/

/-- A client whose first bytes are fewer than 64, wherever its stream is cut. -/
theorem drive_client (reads : List Bytes)
    (hfirst : ∀ r, reads.find? (fun r => decide (r ≠ [])) = some r → r.length < 64) :
    ∃ c buf stops, Framed.drive Codec.decode .newClient [] reads = some (c,buf,stops) ∧
      stops.flatMap Framed.Stop.items =
        Framed.items Codec.decode .newSmallClient reads.flatten := by
  have hsmall := Codec.decode_chunked (c := .newSmallClient) (Or.inr rfl)
  induction reads with
  | nil => exact ⟨_,_,_,rfl,rfl⟩
  | cons r reads ih =>
    by_cases hne : r = []
    · subst hne
      obtain ⟨c,buf,stops,hdrive,hitems⟩ := ih (by simpa using hfirst)
      have hcall : Codec.decode .newClient [] = .ok (.newClient,[],none) := rfl
      refine ⟨c,buf,⟨.newClient,[],[]⟩ :: stops,?_,hitems⟩
      rw [Framed.drive_cons (Framed.drain_of_none 0 hcall),hdrive]
      rfl
    · have hlt : r.length < 64 := hfirst r (by simp [hne])
      obtain ⟨whole,hwhole⟩ := hsmall.drain_total _ rfl
        (Nat.lt_succ_self ([] ++ (r :: reads).flatten).length)
      obtain ⟨stops,hdrive,hitems,-⟩ := hsmall.drive_of_drain (r :: reads) rfl rfl hwhole
      refine ⟨whole.state,whole.buffer,stops,?_,?_⟩
      · rw [← hdrive,Framed.drive,Framed.drive,List.nil_append]
        rw [Framed.drain_congr (r.length+1) (Codec.decode_small hne hlt)]
      · rw [hitems]
        exact (hsmall.items_of_drain rfl hwhole).symm

theorem flatten_eq_stream (frames : List Bytes) :
    frames.flatten = Codec.stream ((frames.filter (· ≠ [])).map fun f => (f,0)) := by
  induction frames with
  | nil => rfl
  | cons f frames ih =>
    by_cases hf : f = []
    · rw [hf,List.flatten_cons,ih]
      rfl
    · rw [List.flatten_cons,ih,List.filter_cons_of_pos (by simpa using hf)]
      simp [Codec.stream]

def Label.broadcasts : Label ι → List Bytes
  | .frame item => received item
  | _ => []

/-- How many frames a client missed, as it came after them. -/
def State.subscribed (s : State ι) (c : ι) : Option ℕ :=
  (s.connections c).map Connection.subscribed

/-- Nothing was broadcast, and no client begins with another frame than before. -/
def Kept (s t : State ι) : Prop := t.broadcast = s.broadcast ∧ t.subscribed = s.subscribed

theorem set_kept {c : ι} {conn conn' : Connection} (hc : s.connections c = some conn)
    (hsame : conn'.subscribed = conn.subscribed) : Kept s (s.set c conn') := by
  refine ⟨rfl,funext fun c' => ?_⟩
  by_cases h : c' = c
  · subst h
    rw [State.subscribed,s.set_self,State.subscribed,hc,Option.map_some,hsame]
    rfl
  · rw [State.subscribed,s.set_of_ne h,State.subscribed]

theorem onConnection_kept (hs : s.Valid cap) {c : ι} {f : Connection → Option Connection}
    (hf : ∀ conn conn', conn.Valid s.broadcast → f conn = some conn' →
      Connection.Inner s.broadcast conn conn')
    (h : s.onConnection c f = some t) : Kept s t := by
  obtain ⟨conn,conn',hc,hfc,rfl⟩ := onConnection_iff.mp h
  exact set_kept hc (hf conn conn' (hs.connection c conn hc) hfc).subscribed

theorem poll_kept (hs : s.Valid cap) {c : ι} (h : s.poll cap c = some t) : Kept s t := by
  obtain ⟨conn,hc,hmap⟩ := Option.bind_eq_some_iff.mp h
  obtain ⟨⟨conn',x⟩,hpoll,ht⟩ := Option.map_eq_some_iff.mp hmap
  obtain ⟨-,-,-,hsame,-⟩ := Connection.poll_spec (hs.connection c conn hc) hpoll
  cases x with
  | none =>
    obtain rfl := ht
    exact set_kept hc hsame
  | some frame =>
    dsimp only at ht
    split_ifs at ht
    · obtain rfl := ht
      exact set_kept hc hsame
    · obtain rfl := ht
      exact set_kept hc hsame

/-- Only the device broadcasts, and a client begins with the next frame when it is accepted. -/
theorem step_kept (hs : s.Valid cap) (h : step cap s a = some t) :
    (∃ item, a = .frame item ∧ t = { s with broadcast := s.broadcast ++ received item }) ∨
      (∃ c, a = .accept c ∧ t = s.set c (.new s.broadcast.length)) ∨
      a.broadcasts = [] ∧ Kept s t := by
  have hkept : a.broadcasts = [] → Kept s t →
      (∃ item, a = .frame item ∧ t = { s with broadcast := s.broadcast ++ received item }) ∨
      (∃ c, a = .accept c ∧ t = s.set c (.new s.broadcast.length)) ∨
      a.broadcasts = [] ∧ Kept s t := fun ha ht => Or.inr (Or.inr ⟨ha,ht⟩)
  cases a with
  | frame item =>
    obtain ⟨-,hsome⟩ := Option.ite_none_right_eq_some.mp h
    exact Or.inl ⟨item,rfl,(Option.some.inj hsome).symm⟩
  | accept c =>
    obtain ⟨-,hsome⟩ := Option.ite_none_right_eq_some.mp h
    exact Or.inr (Or.inl ⟨c,rfl,(Option.some.inj hsome).symm⟩)
  | recv c => exact hkept rfl (onConnection_kept hs (fun _ _ => Connection.recv_inner) h)
  | write c n => exact hkept rfl (onConnection_kept hs (fun _ _ => Connection.write_inner) h)
  | writeError c =>
    exact hkept rfl (onConnection_kept hs (fun _ _ => Connection.writeError_inner) h)
  | read c chunk => exact hkept rfl (onConnection_kept hs (fun _ _ => Connection.read_inner) h)
  | readError c =>
    exact hkept rfl (onConnection_kept hs (fun _ _ => Connection.readError_inner) h)
  | poll c => exact hkept rfl (poll_kept hs h)
  | flushed c =>
    obtain ⟨conn,conn',hc,hfc,rfl⟩ := onConnection_iff.mp (Option.ite_none_left_eq_some.mp h).2
    exact hkept rfl (set_kept hc (Connection.flushed_valid (hs.connection c conn hc) hfc).2.2)
  | takeFrame | sendFrame | sendError =>
    simp only [step] at h
    split at h
    · obtain rfl := Option.some.inj h
      exact hkept rfl ⟨rfl,rfl⟩
    · cases h
  | streamRecv =>
    obtain ⟨-,hrecv⟩ := Option.ite_none_right_eq_some.mp h
    rw [State.streamRecv] at hrecv
    split_ifs at hrecv
    · obtain rfl := Option.some.inj hrecv
      exact hkept rfl ⟨rfl,rfl⟩
    · obtain rfl := Option.some.inj hrecv
      exact hkept rfl ⟨rfl,rfl⟩
  | abortRx | abortTx =>
    obtain ⟨-,hsome⟩ := Option.ite_none_left_eq_some.mp h
    obtain rfl := Option.some.inj hsome
    exact hkept rfl ⟨rfl,rfl⟩
  | acceptError | streamEnd | joinRx | joinTx =>
    obtain ⟨-,hsome⟩ := Option.ite_none_right_eq_some.mp h
    obtain rfl := Option.some.inj hsome
    exact hkept rfl ⟨rfl,rfl⟩

theorem step_broadcast (hs : s.Valid cap) (h : step cap s a = some t) :
    t.broadcast = s.broadcast ++ a.broadcasts := by
  obtain ⟨item,rfl,rfl⟩ | ⟨c,rfl,rfl⟩ | ⟨ha,hkept⟩ := step_kept hs h
  · rfl
  · exact (List.append_nil _).symm
  · rw [ha,List.append_nil,hkept.1]

theorem step_subscribed (hs : s.Valid cap) (h : step cap s a = some t) {c : ι} {n : ℕ}
    (hn : t.subscribed c = some n) :
    s.subscribed c = some n ∨ a = .accept c ∧ n = s.broadcast.length := by
  obtain ⟨item,rfl,rfl⟩ | ⟨c',rfl,rfl⟩ | ⟨ha,hkept⟩ := step_kept hs h
  · exact Or.inl hn
  · by_cases hc : c = c'
    · subst hc
      rw [State.subscribed,s.set_self] at hn
      exact Or.inr ⟨rfl,(Option.some.inj hn).symm⟩
    · rw [State.subscribed,s.set_of_ne hc] at hn
      exact Or.inl hn
  · exact Or.inl (by rwa [← hkept.2])

theorem run_broadcast {as : List (Label ι)} (hs : s.Valid cap)
    (h : Transition.run (step cap) s as = some t) :
    t.broadcast = s.broadcast ++ as.flatMap Label.broadcasts := by
  induction as generalizing s with
  | nil =>
    obtain rfl := Option.some.inj h
    exact (List.append_nil _).symm
  | cons a as ih =>
    obtain ⟨u,hu,ht⟩ := Transition.run_cons_iff.mp h
    rw [ih (step_valid hs hu) ht,step_broadcast hs hu,List.flatMap_cons,List.append_assoc]

/-- A client was accepted in the run, and begins with what was broadcast after that. -/
theorem run_subscribed {as : List (Label ι)} (hs : s.Valid cap)
    (h : Transition.run (step cap) s as = some t) {c : ι} {n : ℕ} (hn : t.subscribed c = some n) :
    s.subscribed c = some n ∨ ∃ before after, as = before ++ .accept c :: after ∧
      n = (s.broadcast ++ before.flatMap Label.broadcasts).length := by
  induction as generalizing s with
  | nil =>
    obtain rfl := Option.some.inj h
    exact Or.inl hn
  | cons a as ih =>
    obtain ⟨u,hu,ht⟩ := Transition.run_cons_iff.mp h
    rcases ih (step_valid hs hu) ht with hn' | ⟨before,after,rfl,rfl⟩
    · rcases step_subscribed hs hu hn' with hn' | ⟨rfl,rfl⟩
      · exact Or.inl hn'
      · exact Or.inr ⟨[],as,rfl,congrArg List.length (List.append_nil _).symm⟩
    · refine Or.inr ⟨a :: before,after,rfl,?_⟩
      rw [step_broadcast hs hu,List.flatMap_cons,List.append_assoc]

omit [DecidableEq ι] in
theorem broadcast_wellFormed (as : List (Label ι)) :
    ∀ f ∈ as.flatMap Label.broadcasts, f = [] ∨ Codec.newClient.WellFormed f := by
  intro f hf
  obtain ⟨a,-,ha⟩ := List.mem_flatMap.mp hf
  cases a with
  | frame item => exact received_wellFormed ha
  | _ => cases ha

/-- Every client is sent the frames that are broadcast after it was accepted, each whole before
the next and none left out; it loses the connection rather than a frame. A client that reads
them through its codec gets just these frames. -/
theorem client_gets_frames {as : List (Label ι)} {c : ι} {conn : Connection}
    (h : Transition.run (step cap) (start ι) as = some s) (hc : s.connections c = some conn) :
    ∃ before after, as = before ++ .accept c :: after ∧
      conn.subscribed = (before.flatMap Label.broadcasts).length ∧
      conn.written <+: (after.flatMap Label.broadcasts).flatten ∧
      (conn.turn = .selecting → conn.next = s.broadcast.length →
        conn.written = (after.flatMap Label.broadcasts).flatten) ∧
      ∀ reads : List Bytes, reads.flatten <+: conn.written →
        (∀ r, reads.find? (fun r => decide (r ≠ [])) = some r → r.length < 64) →
        ∃ codec buf stops, Framed.drive Codec.decode .newClient [] reads =
            some (codec,buf,stops) ∧
          stops.flatMap Framed.Stop.items <+:
            (after.flatMap Label.broadcasts).filter (· ≠ []) := by
  have hs := run_valid h
  have hcast : s.broadcast = as.flatMap Label.broadcasts :=
    (run_broadcast start_valid h).trans (List.nil_append _)
  have hsub : s.subscribed c = some conn.subscribed := by rw [State.subscribed,hc,Option.map_some]
  obtain hnone | ⟨before,after,rfl,hlen⟩ := run_subscribed start_valid h hsub
  · cases hnone
  have hafter : s.broadcast.drop conn.subscribed = after.flatMap Label.broadcasts := by
    rw [hcast,List.flatMap_append,hlen]
    exact List.drop_left
  obtain ⟨rest,hleaves,hwire⟩ := (hs.connection c conn hc).wire
  have hwritten : conn.written <+: (s.broadcast.drop conn.subscribed).flatten := by
    refine List.IsPrefix.trans ⟨rest,hwire⟩ ?_
    exact ((List.take_prefix conn.next s.broadcast).drop conn.subscribed).flatten
  refine ⟨before,after,rfl,hlen,?_⟩
  rw [← hafter]
  refine ⟨hwritten,fun hturn hnext => ?_,fun reads hreads hfirst => ?_⟩
  · rw [hturn] at hleaves
    obtain rfl : rest = [] := hleaves
    rw [hnext,List.take_length,List.append_nil] at hwire
    exact hwire
  · obtain ⟨codec,buf,stops,hdrive,hitems⟩ := drive_client reads hfirst
    refine ⟨codec,buf,stops,hdrive,?_⟩
    obtain ⟨e,he⟩ := hreads.trans hwritten
    have hsmall := Codec.decode_chunked (c := .newSmallClient) (Or.inr rfl)
    rw [hitems]
    refine (hsmall.items_prefix rfl _ e).trans ?_
    rw [he,flatten_eq_stream,items_stream (Or.inr rfl),List.map_map]
    · exact ⟨[],(List.append_nil _).trans (List.map_id _)⟩
    · intro f hf
      obtain ⟨g,hg,rfl⟩ := List.mem_map.mp hf
      obtain ⟨hmem,hne⟩ := List.mem_filter.mp hg
      have hg' := hcast ▸ List.mem_of_mem_drop hmem
      exact (broadcast_wellFormed _ g hg').resolve_left (by simpa using hne)

/-- The second client comes later and is sent what is left of the stream, the first one all. -/
theorem client_gets_frames_two :
    let as : List (Label Bool) := [.accept true,.frame (.ok [1,0xff,0xff]),.accept false,
      .recv true,.write true 1,.frame (.ok []),.frame (.ok [3,0x05,0xff,0]),.recv false,
      .recv true,.write true 2,.write true 1,.write false 1]
    ∃ s, Transition.run (step ⟨1,2⟩) (start Bool) as = some s ∧
      (∃ before after, as = before ++ .accept false :: after ∧
        1 = (before.flatMap Label.broadcasts).length ∧
        [3] <+: (after.flatMap Label.broadcasts).flatten) ∧
      (s.connections true).map (·.written) = some [1,3,0x05,0xff] := by
  intro as
  obtain ⟨before,after,has,hlen,hwritten,-,-⟩ :=
    @client_gets_frames Bool _ ⟨1,2⟩ _ as false _ rfl rfl
  exact ⟨_,rfl,⟨before,after,has,hlen,hwritten⟩,rfl⟩

end TcpServer
end Minidsp
