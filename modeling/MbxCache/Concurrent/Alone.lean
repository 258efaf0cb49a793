import MbxCache.Concurrent.Program

namespace MbxCache.Concurrent

variable {I : Interface} {A B : Type} {M : Machine I} {admits : M.Choice → Prop}

/-- Whatever admissible choices the surroundings make, the program ends, as promised.
A program that starts or awaits jobs does not run by itself. -/
def Program.Ends (M : Machine I) (admits : M.Choice → Prop) (post : A → M.State → Prop) :
    Program I A → M.State → Prop
  | .done result, state => post result state
  | .call op next, state => ∀ choice, admits choice →
      (next (M.exec choice op state).2).Ends M admits post (M.exec choice op state).1
  | .spawn _ _, _ => False
  | .join _ _, _ => False

namespace Program.Ends

variable {post weaker : A → M.State → Prop} {p : Program I A} {state : M.State}

theorem mono (ends : p.Ends M admits post state)
    (implied : ∀ result after, post result after → weaker result after) :
    p.Ends M admits weaker state := by
  induction p generalizing state with
  | done result => exact implied result state ends
  | call op next ih => exact fun choice admitted => ih _ (ends choice admitted)
  | spawn job next _ => exact ends
  | join ids next _ => exact ends

theorem bind {next : A → Program I B} {final : B → M.State → Prop}
    (first : p.Ends M admits post state)
    (rest : ∀ result after, post result after → (next result).Ends M admits final after) :
    (p.bind next).Ends M admits final state := by
  induction p generalizing state with
  | done result => exact rest result state first
  | call op more ih => exact fun choice admitted => ih _ (first choice admitted)
  | spawn job more _ => exact first.elim
  | join ids more _ => exact first.elim

theorem and (ends : p.Ends M admits post state) (also : p.Ends M admits weaker state) :
    p.Ends M admits (fun result after => post result after ∧ weaker result after) state := by
  induction p generalizing state with
  | done result => exact ⟨ends, also⟩
  | call op next ih => exact fun choice admitted => ih _ (ends choice admitted) (also choice admitted)
  | spawn job next _ => exact ends
  | join ids next _ => exact ends

/-- A process that nobody disturbs answers after finitely many of its steps. -/
theorem answers (ends : p.Ends M admits post state) (choices : Nat → M.Choice)
    (admitted : ∀ n, admits (choices n)) (asked : List (Asked I)) :
    ∃ count result, (M.run state ⟨p, [], asked, false⟩
        ((List.range count).map fun n => .main (choices n))).2.answer = some result ∧
      post result (M.run state ⟨p, [], asked, false⟩
        ((List.range count).map fun n => .main (choices n))).1 := by
  induction p generalizing state choices asked with
  | done result => exact ⟨0, result, rfl, ends⟩
  | call op next ih =>
      obtain ⟨count, result, answer, holds⟩ := ih _ (ends (choices 0) (admitted 0))
        (fun n => choices (n + 1)) (fun n => admitted (n + 1))
        (asked ++ [⟨op, (M.exec (choices 0) op state).2⟩])
      refine ⟨count + 1, result, ?_⟩
      rw [List.range_succ_eq_map, List.map_cons, List.map_map]
      exact ⟨answer, holds⟩
  | spawn job next _ => exact ends.elim
  | join ids next _ => exact ends.elim

theorem run (ends : p.Ends M admits post state) {moves : List (Move M.Choice)}
    (admitted : ∀ choice, .main choice ∈ moves → admits choice) (asked : List (Asked I))
    (dropped : Bool) :
    ∃ after rest asked' dropped', M.run state ⟨p, [], asked, dropped⟩ moves =
        (after, ⟨rest, [], asked', dropped'⟩) ∧ rest.Ends M admits post after := by
  induction moves generalizing p state asked dropped with
  | nil => exact ⟨state, p, asked, dropped, rfl, ends⟩
  | cons move moves ih =>
      have later : ∀ choice, .main choice ∈ moves → admits choice :=
        fun choice member => admitted choice (List.mem_cons_of_mem _ member)
      cases move with
      | main choice =>
          cases dropped with
          | true => exact ih ends later asked true
          | false =>
              cases p with
              | done result => exact ih ends later asked false
              | call op next =>
                  exact ih (ends choice (admitted choice List.mem_cons_self)) later _ false
              | spawn job next => exact ends.elim
              | join ids next => exact ends.elim
      | task id choice => exact ih ends later asked dropped
      | abort id => exact ih ends later asked dropped
      | drop => exact ih ends later asked true

theorem answered (ends : p.Ends M admits post state) {moves : List (Move M.Choice)}
    (admitted : ∀ choice, .main choice ∈ moves → admits choice) {result : A}
    (answer : (M.run state (.start p) moves).2.answer = some result) :
    post result (M.run state (.start p) moves).1 := by
  obtain ⟨after, rest, asked, dropped, ran, ends'⟩ := ends.run admitted [] false
  rw [Process.start, ran] at answer ⊢
  have done : rest = .done result := Program.result?_eq answer
  rw [done] at ends'
  exact ends'

end Program.Ends

theorem Machine.run_done (M : Machine I) (state : M.State) (result : A) (asked : List (Asked I))
    (dropped : Bool) (moves : List (Move M.Choice)) :
    ∃ dropped', M.run state ⟨.done result, [], asked, dropped⟩ moves =
      (state, ⟨.done result, [], asked, dropped'⟩) := by
  induction moves generalizing dropped with
  | nil => exact ⟨dropped, rfl⟩
  | cons move moves ih =>
      cases move with
      | main choice => cases dropped <;> exact ih _
      | task id choice => exact ih dropped
      | abort id => exact ih dropped
      | drop => exact ih true

end MbxCache.Concurrent
