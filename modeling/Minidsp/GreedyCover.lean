import Mathlib.Combinatorics.Enumerative.DoubleCounting
import Mathlib.Data.List.Pairwise
import Mathlib.Data.List.TakeWhile

/-! A sorted list cut into groups from its front: the first element leads a group, and those
that follow are in it as long as they are in reach of the leader. No leader is in reach of
another, so that sets which hold only what is in reach of their least element cover the list in
no smaller number. -/
namespace GreedyCover

variable {α ι : Type*}

/-- The groups, each with its leader first. -/
def groups (reach : α → α → Bool) : List α → List (α × List α)
  | [] => []
  | a :: as => (a,as.takeWhile (reach a)) :: groups reach (as.dropWhile (reach a))
termination_by as => as.length
decreasing_by exact Nat.lt_succ_of_le (List.dropWhile_sublist _).length_le

section

variable (reach : α → α → Bool)

@[simp] theorem groups_nil : groups reach [] = [] := by rw [groups]

theorem groups_cons (a : α) (as : List α) : groups reach (a :: as) =
    (a,as.takeWhile (reach a)) :: groups reach (as.dropWhile (reach a)) := by rw [groups]

def leaders (as : List α) : List α := (groups reach as).map Prod.fst

theorem leaders_cons (a : α) (as : List α) :
    leaders reach (a :: as) = a :: leaders reach (as.dropWhile (reach a)) := by
  rw [leaders,groups_cons,List.map_cons]
  rfl

theorem leaders_sublist (as : List α) : (leaders reach as).Sublist as := by
  induction as using groups.induct reach with
  | case1 => simp [leaders]
  | case2 a as ih =>
    rw [leaders_cons]
    exact (ih.trans (List.dropWhile_sublist _)).cons_cons a

end

section

variable [LE α] {reach : α → α → Bool} {as : List α}

theorem not_reach_of_mem_dropWhile {a : α} (hreach : ∀ b c, b ≤ c → reach a c → reach a b)
    (hsorted : as.Pairwise (· ≤ ·)) : ∀ c ∈ as.dropWhile (reach a), ¬reach a c := by
  induction as with
  | nil => simp
  | cons b bs ih =>
    obtain ⟨hle,hrest⟩ := List.pairwise_cons.mp hsorted
    by_cases hb : reach a b
    · rw [List.dropWhile_cons_of_pos hb]
      exact ih hrest
    · rw [List.dropWhile_cons_of_neg hb,List.forall_mem_cons]
      exact ⟨hb,fun c hc hreached => hb (hreach b c (hle c hc) hreached)⟩

theorem leaders_apart (hreach : ∀ a b c, b ≤ c → reach a c → reach a b)
    (hsorted : as.Pairwise (· ≤ ·)) :
    (leaders reach as).Pairwise fun a b => a ≤ b ∧ ¬reach a b := by
  induction as using groups.induct reach with
  | case1 => simp [leaders]
  | case2 a as ih =>
    obtain ⟨hle,hrest⟩ := List.pairwise_cons.mp hsorted
    rw [leaders_cons,List.pairwise_cons]
    refine ⟨fun b hb => ?_,ih (hrest.sublist (List.dropWhile_sublist _))⟩
    have hb' := (leaders_sublist reach _).subset hb
    exact ⟨hle b ((List.dropWhile_sublist _).subset hb'),
      not_reach_of_mem_dropWhile (hreach a) hrest b hb'⟩

/-- The groups are as few as the sets of any cover. -/
theorem length_groups_le {covers : ι → α → Prop} {cover : Finset ι}
    (hreach : ∀ a b c, b ≤ c → reach a c → reach a b) (hsorted : as.Pairwise (· ≤ ·))
    (hcover : ∀ a ∈ as, ∃ i ∈ cover, covers i a)
    (hset : ∀ i a b, covers i a → covers i b → a ≤ b → reach a b) :
    (groups reach as).length ≤ cover.card := by
  have hapart := List.pairwise_iff_getElem.mp (leaders_apart hreach hsorted)
  have hcount : (groups reach as).length = (leaders reach as).length := by
    rw [leaders,List.length_map]
  rw [hcount,← Finset.card_fin (leaders reach as).length]
  refine Finset.card_le_card_of_forall_subsingleton
    (fun (k : Fin (leaders reach as).length) i => covers i (leaders reach as)[k]) ?_ ?_
  · intro k _
    exact hcover _ ((leaders_sublist reach as).subset (List.getElem_mem k.isLt))
  · rintro i - k ⟨-,hk⟩ l ⟨-,hl⟩
    rcases lt_trichotomy k l with h | h | h
    · obtain ⟨hle,hfar⟩ := hapart k l k.isLt l.isLt h
      exact absurd (hset i _ _ hk hl hle) hfar
    · exact h
    · obtain ⟨hle,hfar⟩ := hapart l k l.isLt k.isLt h
      exact absurd (hset i _ _ hl hk hle) hfar

end

end GreedyCover
