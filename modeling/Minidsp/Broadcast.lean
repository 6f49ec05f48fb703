import Mathlib.Data.List.Basic

/-! A broadcast channel whose receivers never lag: what was sent is kept, and every receiver
reads on from where it stands. And a receiver of one that only retains so much. -/
namespace Broadcast

variable {α : Type*}

structure Channel (α : Type*) where
  sent : List α
  deriving DecidableEq, Repr

structure Receiver where
  next : ℕ
  deriving DecidableEq, Repr

def Channel.empty : Channel α := ⟨[]⟩
def Channel.send (c : Channel α) (a : α) : Channel α := ⟨c.sent ++ [a]⟩

def Channel.subscribe (c : Channel α) : Receiver := ⟨c.sent.length⟩

def Channel.recv (c : Channel α) (r : Receiver) : Option (α × Receiver) :=
  c.sent[r.next]?.map fun a => (a,⟨r.next+1⟩)

def Channel.pending (c : Channel α) (r : Receiver) : List α := c.sent.drop r.next

section Laws

variable {c : Channel α} {r r' : Receiver} {a : α}

@[simp] theorem pending_subscribe : c.pending c.subscribe = [] := List.drop_length

theorem pending_send (h : r.next ≤ c.sent.length) :
    (c.send a).pending r = c.pending r ++ [a] :=
  List.drop_append_of_le_length h

theorem recv_next (h : c.recv r = some (a,r')) : r'.next = r.next+1 ∧ r.next < c.sent.length := by
  obtain ⟨b,hb,he⟩ := Option.map_eq_some_iff.mp h
  obtain ⟨rfl,rfl⟩ := Prod.mk.inj he
  exact ⟨rfl,(List.getElem?_eq_some_iff.mp hb).1⟩

theorem pending_recv (h : c.recv r = some (a,r')) : c.pending r = a :: c.pending r' := by
  obtain ⟨b,hb,he⟩ := Option.map_eq_some_iff.mp h
  obtain ⟨rfl,rfl⟩ := Prod.mk.inj he
  obtain ⟨hlt,rfl⟩ := List.getElem?_eq_some_iff.mp hb
  exact List.drop_eq_getElem_cons hlt

theorem recv_of_lt (h : r.next < c.sent.length) :
    c.recv r = some (c.sent[r.next],⟨r.next+1⟩) := by
  rw [Channel.recv,List.getElem?_eq_getElem h]
  rfl

end Laws

/-- A receiver that loses the oldest of what it has not read when more is sent than is retained,
with the history of what was sent since it was made and of what it got. -/
structure Lagging (α : Type*) where
  sent : List α
  received : List α
  unread : List α
  lagged : Bool
  deriving DecidableEq, Repr

namespace Lagging

def new : Lagging α := ⟨[],[],[],false⟩

def push (retain : ℕ) (a : α) (r : Lagging α) : Lagging α where
  sent := r.sent ++ [a]
  received := r.received
  unread := (r.unread ++ [a]).drop (r.unread.length+1-retain)
  lagged := r.lagged || decide (retain < r.unread.length+1)

def read (r : Lagging α) : Option (Lagging α) :=
  match r.unread with
  | [] => none
  | a :: rest => some { r with received := r.received ++ [a], unread := rest }

/-- What it got and what it will get is in order and without duplicates, and all that was sent
unless it has lagged. -/
structure InOrder (r : Lagging α) : Prop where
  order : (r.received ++ r.unread).Sublist r.sent
  complete : r.lagged = false → r.received ++ r.unread = r.sent

variable {r r' : Lagging α}

theorem new_inOrder : (new : Lagging α).InOrder := ⟨List.Sublist.refl _,fun _ => rfl⟩

theorem push_inOrder (h : r.InOrder) (retain : ℕ) (a : α) : (r.push retain a).InOrder := by
  constructor
  · have hall : (r.received ++ (r.unread ++ [a])).Sublist (r.sent ++ [a]) := by
      rw [← List.append_assoc]
      exact h.order.append (List.Sublist.refl _)
    exact ((List.Sublist.refl _).append (List.drop_sublist _ _)).trans hall
  · intro hlagged
    simp only [push,Bool.or_eq_false_iff,decide_eq_false_iff_not,Nat.not_lt] at hlagged
    simp only [push,Nat.sub_eq_zero_of_le hlagged.2,List.drop_zero]
    rw [← List.append_assoc,h.complete hlagged.1]

theorem read_eq (h : r.read = some r') : ∃ a, r.unread = a :: r'.unread ∧
    r'.received = r.received ++ [a] ∧ r'.sent = r.sent ∧ r'.lagged = r.lagged := by
  unfold read at h
  split at h
  · cases h
  · rename_i a rest hunread
    obtain rfl := Option.some.inj h
    exact ⟨a,hunread,rfl,rfl,rfl⟩

theorem read_inOrder (h : r.InOrder) (hread : r.read = some r') : r'.InOrder := by
  obtain ⟨a,hunread,hreceived,hsent,hlagged⟩ := read_eq hread
  have hsame : r'.received ++ r'.unread = r.received ++ r.unread := by
    rw [hreceived,hunread,List.append_assoc]
    rfl
  exact ⟨by rw [hsame,hsent]; exact h.order,by rw [hsame,hsent,hlagged]; exact h.complete⟩

end Lagging
end Broadcast
