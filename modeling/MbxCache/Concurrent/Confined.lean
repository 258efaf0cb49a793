import MbxCache.Concurrent.Alone
import MbxCache.Concurrent.Footprint

namespace MbxCache.Concurrent

variable {I : Interface} {A B : Type} {M : Machine I} {admits : M.Choice → Prop}

/-- Whatever admissible choices the surroundings make, the program makes only calls of a kind.
A program that starts or awaits jobs does not run by itself. -/
def Program.Confined (M : Machine I) (admits : M.Choice → Prop) (allowed : I.Op → Prop) :
    Program I A → M.State → Prop
  | .done _, _ => True
  | .call op next, state => allowed op ∧ ∀ choice, admits choice →
      (next (M.exec choice op state).2).Confined M admits allowed (M.exec choice op state).1
  | .spawn _ _, _ => False
  | .join _ _, _ => False

namespace Program.Confined

variable {allowed : I.Op → Prop} {p : Program I A} {state : M.State}

theorem bind {next : A → Program I B} {post : A → M.State → Prop}
    (first : p.Confined M admits allowed state) (ends : p.Ends M admits post state)
    (rest : ∀ result after, post result after → (next result).Confined M admits allowed after) :
    (p.bind next).Confined M admits allowed state := by
  induction p generalizing state with
  | done result => exact rest result state ends
  | call op more ih =>
      exact ⟨first.1, fun choice admitted =>
        ih _ (first.2 choice admitted) (ends choice admitted)⟩
  | spawn job more _ => exact first.elim
  | join ids more _ => exact first.elim

theorem run (confined : p.Confined M admits allowed state) {moves : List (Move M.Choice)}
    (admitted : ∀ choice, .main choice ∈ moves → admits choice) (asked : List (Asked I))
    (dropped : Bool) :
    ∃ after rest asked' dropped', M.run state ⟨p, [], asked, dropped⟩ moves =
        (after, ⟨rest, [], asked', dropped'⟩) ∧ rest.Confined M admits allowed after := by
  induction moves generalizing p state asked dropped with
  | nil => exact ⟨state, p, asked, dropped, rfl, confined⟩
  | cons move moves ih =>
      have later : ∀ choice, .main choice ∈ moves → admits choice :=
        fun choice member => admitted choice (List.mem_cons_of_mem _ member)
      cases move with
      | main choice =>
          cases dropped with
          | true => exact ih confined later asked true
          | false =>
              cases p with
              | done result => exact ih confined later asked false
              | call op next =>
                  exact ih (confined.2 choice (admitted choice List.mem_cons_self)) later _ false
              | spawn job next => exact confined.elim
              | join ids next => exact confined.elim
      | task id choice => exact ih confined later asked dropped
      | abort id => exact ih confined later asked dropped
      | drop => exact ih confined later asked true

theorem carries (confined : p.Confined M admits allowed state) {moves : List (Move M.Choice)}
    (admitted : ∀ choice, .main choice ∈ moves → admits choice) {move : Move M.Choice}
    {choice : M.Choice} {op : I.Op}
    (carried : M.carries (M.run state (.start p) moves).2 move = some (choice, op)) :
    allowed op := by
  obtain ⟨after, rest, asked, dropped, ran, confined'⟩ := confined.run admitted [] false
  rw [Process.start, ran] at carried
  cases move with
  | main made =>
      simp only [Machine.carries] at carried
      split at carried
      · cases carried
      · cases rest with
        | done result => cases carried
        | call op' next =>
            cases carried
            exact confined'.1
        | spawn job next => exact confined'.elim
        | join ids next => exact confined'.elim
  | task id made => cases carried
  | abort id => cases carried
  | drop => cases carried

end Program.Confined
end MbxCache.Concurrent
