import MbxCache.Concurrent.Program

namespace MbxCache.Concurrent

/-- How a program sees its surroundings: what others may change between two of its
steps, what each of its steps needs, and what each step may lead to. -/
structure Logic (I : Interface) (W : Type) where
  Later : W → W → Prop
  Calls : I.Op → W → Prop
  Called : (op : I.Op) → W → I.Val op → W → Prop
  Spawns : I.Job → W → Prop
  Spawned : I.Job → W → Nat → W → Prop
  Joins : List Nat → W → Prop
  Joined : List Nat → W → Nat → Option I.Out → W → Prop
  refl : ∀ w, Later w w
  trans : ∀ {u v w}, Later u v → Later v w → Later u w

namespace Logic

variable {I : Interface} {W A B : Type} (L : Logic I W)

/-- Every step of the program is allowed when it comes, and its results meet `post`. -/
def Safe : Program I A → (A → W → Prop) → W → Prop
  | .done result, post, w => ∀ w', L.Later w w' → post result w'
  | .call op next, post, w => ∀ w', L.Later w w' →
      L.Calls op w' ∧ ∀ value after, L.Called op w' value after → Safe (next value) post after
  | .spawn job next, post, w => ∀ w', L.Later w w' →
      L.Spawns job w' ∧ ∀ id after, L.Spawned job w' id after → Safe (next id) post after
  | .join ids next, post, w => ∀ w', L.Later w w' →
      L.Joins ids w' ∧ ∀ id out after, L.Joined ids w' id out after →
        Safe (next id out) post after

variable {L}

theorem Safe.later {p : Program I A} {post : A → W → Prop} {w w' : W} (safe : L.Safe p post w)
    (later : L.Later w w') : L.Safe p post w' := by
  cases p <;> exact fun w'' more => safe w'' (L.trans later more)

theorem Safe.mono {p : Program I A} {post post' : A → W → Prop} {w : W}
    (safe : L.Safe p post w) (weaker : ∀ result w, post result w → post' result w) :
    L.Safe p post' w := by
  induction p generalizing w with
  | done result => exact fun w' later => weaker result w' (safe w' later)
  | call op next ih =>
      intro w' later
      obtain ⟨allowed, rest⟩ := safe w' later
      exact ⟨allowed, fun value after called => ih value (rest value after called)⟩
  | spawn job next ih =>
      intro w' later
      obtain ⟨allowed, rest⟩ := safe w' later
      exact ⟨allowed, fun id after spawned => ih id (rest id after spawned)⟩
  | join ids next ih =>
      intro w' later
      obtain ⟨allowed, rest⟩ := safe w' later
      exact ⟨allowed, fun id out after joined => ih id out (rest id out after joined)⟩

theorem Safe.bind {p : Program I A} {f : A → Program I B} {post : B → W → Prop} {w : W}
    (safe : L.Safe p (fun result w => L.Safe (f result) post w) w) :
    L.Safe (p.bind f) post w := by
  induction p generalizing w with
  | done result => exact safe w (L.refl w)
  | call op next ih =>
      intro w' later
      obtain ⟨allowed, rest⟩ := safe w' later
      exact ⟨allowed, fun value after called => ih value (rest value after called)⟩
  | spawn job next ih =>
      intro w' later
      obtain ⟨allowed, rest⟩ := safe w' later
      exact ⟨allowed, fun id after spawned => ih id (rest id after spawned)⟩
  | join ids next ih =>
      intro w' later
      obtain ⟨allowed, rest⟩ := safe w' later
      exact ⟨allowed, fun id out after joined => ih id out (rest id out after joined)⟩

/-- The rule to reason with: run the first part to a condition the second starts from. -/
theorem Safe.seq {p : Program I A} {f : A → Program I B} {mid : A → W → Prop}
    {post : B → W → Prop} {w : W} (first : L.Safe p mid w)
    (rest : ∀ result w, mid result w → L.Safe (f result) post w) : L.Safe (p.bind f) post w :=
  Safe.bind (first.mono rest)

theorem Safe.done {result : A} {post : A → W → Prop} {w : W}
    (stable : ∀ w', L.Later w w' → post result w') : L.Safe (.done result) post w := stable

theorem Safe.call {op : I.Op} {next : I.Val op → Program I A} {post : A → W → Prop} {w : W}
    (step : ∀ w', L.Later w w' → L.Calls op w' ∧
      ∀ value after, L.Called op w' value after → L.Safe (next value) post after) :
    L.Safe (.call op next) post w := step

end Logic
end MbxCache.Concurrent
