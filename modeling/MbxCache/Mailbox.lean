import Mathlib.Data.Nat.Find
import Mathlib.Data.Set.Basic

/-! Things that come in bit by bit and are collected all at once, and lists cut into pieces. -/

namespace MbxCache

/-- What waits at each moment. Some moments collect everything; at the others things may come in
and none is lost. -/
structure Mailbox (α : Type) where
  contents : Nat → Set α
  collects : Nat → Prop
  initially : contents 0 = ∅
  emptied : ∀ n, collects n → contents (n + 1) = ∅
  kept : ∀ n, ¬ collects n → contents n ⊆ contents (n + 1)

namespace Mailbox

variable {α : Type} (box : Mailbox α)

def Arrives (n : Nat) (item : α) : Prop := item ∉ box.contents n ∧ item ∈ box.contents (n + 1)

def Quiet (n m : Nat) : Prop := ∀ k, n < k → k < m → ¬ box.collects k

def Next (n m : Nat) : Prop := n < m ∧ box.collects m ∧ box.Quiet n m

variable {box} {n m k : Nat} {item : α}

theorem Arrives.not_collects (arrives : box.Arrives n item) : ¬ box.collects n := by
  intro collects
  have member := arrives.2
  rw [box.emptied n collects] at member
  exact member

theorem mem_contents_iff : item ∈ box.contents m ↔
    ∃ n < m, box.Arrives n item ∧ box.Quiet n m := by
  induction m with
  | zero =>
      rw [box.initially]
      constructor
      · intro member
        exact absurd member (Set.notMem_empty item)
      · rintro ⟨n, before, _⟩
        exact absurd before (Nat.not_lt_zero n)
  | succ m ih =>
      constructor
      · intro member
        by_cases held : item ∈ box.contents m
        · obtain ⟨n, before, arrives, quiet⟩ := ih.mp held
          refine ⟨n, Nat.lt_succ_of_lt before, arrives, fun k after until' collects => ?_⟩
          rcases Nat.lt_succ_iff_lt_or_eq.mp until' with earlier | rfl
          · exact quiet k after earlier collects
          · rw [box.emptied k collects] at member
            exact member
        · refine ⟨m, Nat.lt_succ_self m, ⟨held, member⟩, fun k after until' => ?_⟩
          omega
      · rintro ⟨n, before, arrives, quiet⟩
        rcases Nat.lt_succ_iff_lt_or_eq.mp before with earlier | rfl
        · have held : item ∈ box.contents m :=
            ih.mpr ⟨n, earlier, arrives, fun k after until' =>
              quiet k after (Nat.lt_succ_of_lt until')⟩
          exact box.kept m (quiet m earlier (Nat.lt_succ_self m)) held
        · exact arrives.2

theorem arrival_unique (first : box.Arrives n item) (second : box.Arrives k item)
    (quiet : box.Quiet n m) (quiet' : box.Quiet k m) (before : n < m) (before' : k < m) :
    n = k := by
  rcases Nat.lt_trichotomy n k with earlier | same | later
  · have held : item ∈ box.contents k :=
      mem_contents_iff.mpr ⟨n, earlier, first, fun j after until' =>
        quiet j after (Nat.lt_trans until' before')⟩
    exact absurd held second.1
  · exact same
  · have held : item ∈ box.contents n :=
      mem_contents_iff.mpr ⟨k, later, second, fun j after until' =>
        quiet' j after (Nat.lt_trans until' before)⟩
    exact absurd held first.1

theorem Next.collected (next : box.Next n m) (arrives : box.Arrives n item) :
    item ∈ box.contents m :=
  mem_contents_iff.mpr ⟨n, next.1, arrives, next.2.2⟩

/-- What a collection gets came by one arrival. -/
theorem collected_once (collects : box.collects m) (member : item ∈ box.contents m) :
    ∃! n, box.Arrives n item ∧ box.Next n m := by
  obtain ⟨n, before, arrives, quiet⟩ := mem_contents_iff.mp member
  refine ⟨n, ⟨arrives, before, collects, quiet⟩, ?_⟩
  rintro other ⟨arrives', before', _, quiet'⟩
  exact arrival_unique arrives' arrives quiet' quiet before' before

theorem next_unique (first : box.Next n m) (second : box.Next n k) : m = k := by
  rcases Nat.lt_trichotomy m k with earlier | same | later
  · exact absurd first.2.1 (second.2.2 m first.1 earlier)
  · exact same
  · exact absurd second.2.1 (first.2.2 k second.1 later)

/-- What arrives is collected next, or waits at every later moment. -/
theorem Arrives.collected_or_waits (arrives : box.Arrives n item) :
    (∃! m, box.Next n m) ∨ ∀ m, n < m → item ∈ box.contents m := by
  classical
  by_cases later : ∃ m, n < m ∧ box.collects m
  · obtain ⟨after, collects⟩ := Nat.find_spec later
    have next : box.Next n (Nat.find later) :=
      ⟨after, collects, fun k above below again => Nat.find_min later below ⟨above, again⟩⟩
    exact .inl ⟨_, next, fun other also => next_unique also next⟩
  · right
    intro m after
    exact mem_contents_iff.mpr ⟨n, after, arrives, fun k above _ collects =>
      later ⟨k, above, collects⟩⟩

/-- `chunks`: pieces of some length, and what is left. -/
def chunks (size : Nat) (items : List α) : List (List α) :=
  if items = [] ∨ size = 0 then [] else items.take size :: chunks size (items.drop size)
termination_by items.length
decreasing_by
  rename_i more
  have items : items.length ≠ 0 := fun empty => more (.inl (List.length_eq_zero_iff.mp empty))
  rw [List.length_drop]
  omega

theorem chunks_flatten {size : Nat} (positive : 0 < size) (items : List α) :
    (chunks size items).flatten = items := by
  fun_induction chunks size items with
  | case1 items ends =>
      rcases ends with rfl | none
      · rfl
      · omega
  | case2 items more ih => rw [List.flatten_cons, ih, List.take_append_drop]

theorem chunks_sized {size : Nat} {items piece : List α} (member : piece ∈ chunks size items) :
    piece ≠ [] ∧ piece.length ≤ size := by
  fun_induction chunks size items with
  | case1 => cases member
  | case2 items more ih =>
      rcases List.mem_cons.mp member with rfl | later
      · refine ⟨fun empty => ?_, List.length_take_le size items⟩
        rcases List.take_eq_nil_iff.mp empty with none | none
        · exact more (.inr none)
        · exact more (.inl none)
      · exact ih later

end Mailbox
end MbxCache
