import Mathlib.Data.List.Basic

/-! Readers that consume a stream in chunks and emit events.

A reader whose answer to a chunk is determined by its first element and the
answer to the rest cannot tell one way of cutting the stream from another. -/

namespace MbxCache.Incremental

variable {R α ε E N : Type}

/-- Consume with `next` from wherever `first` stopped, keeping both outputs. -/
def andThen (first : Except ε (R × List E)) (next : R → Except ε (R × List E)) :
    Except ε (R × List E) :=
  match first with
  | .error e => .error e
  | .ok (reader, events) =>
      match next reader with
      | .error e => .error e
      | .ok (last, more) => .ok (last, events ++ more)

def feed (push : R → List α → Except ε (R × List E)) :
    R → List (List α) → Except ε (R × List E)
  | reader, [] => .ok (reader, [])
  | reader, chunk :: rest => andThen (push reader chunk) fun next => feed push next rest

inductive Agree (norm : List E → N) :
    Except ε (R × List E) → Except ε (R × List E) → Prop
  | failed (e : ε) : Agree norm (.error e) (.error e)
  | emitted (reader : R) {left right : List E} (same : norm left = norm right) :
      Agree norm (.ok (reader, left)) (.ok (reader, right))

namespace Agree

variable {norm : List E → N}

theorem refl (x : Except ε (R × List E)) : Agree norm x x := by
  cases x with
  | error e => exact .failed e
  | ok pair => exact .emitted pair.1 rfl

theorem symm {x y : Except ε (R × List E)} (agree : Agree norm x y) : Agree norm y x := by
  cases agree with
  | failed e => exact .failed e
  | emitted reader same => exact .emitted reader same.symm

theorem trans {x y z : Except ε (R × List E)} (first : Agree norm x y)
    (second : Agree norm y z) : Agree norm x z := by
  cases first with
  | failed e => exact second
  | emitted reader same =>
      cases second with
      | emitted _ other => exact .emitted reader (same.trans other)

theorem andThen
    (append : ∀ {a a' b b' : List E}, norm a = norm a' → norm b = norm b' →
      norm (a ++ b) = norm (a' ++ b'))
    {x y : Except ε (R × List E)} {f g : R → Except ε (R × List E)}
    (first : Agree norm x y)
    (next : ∀ reader events, x = .ok (reader, events) → Agree norm (f reader) (g reader)) :
    Agree norm (andThen x f) (Incremental.andThen y g) := by
  cases first with
  | failed e => exact .failed e
  | emitted reader same =>
      have rest := next reader _ rfl
      simp only [Incremental.andThen]
      generalize f reader = left at rest
      generalize g reader = right at rest
      cases rest with
      | failed e => exact .failed e
      | emitted last other => exact .emitted last (append same other)

end Agree

theorem andThen_assoc (x : Except ε (R × List E)) (f g : R → Except ε (R × List E)) :
    andThen (andThen x f) g = andThen x fun reader => andThen (f reader) g := by
  cases x with
  | error e => rfl
  | ok pair =>
      obtain ⟨reader, events⟩ := pair
      simp only [andThen]
      cases middle : f reader with
      | error e => rfl
      | ok pair =>
          obtain ⟨next, more⟩ := pair
          simp only
          cases last : g next with
          | error e => rfl
          | ok pair => simp [List.append_assoc]

theorem andThen_start (reader : R) (f : R → Except ε (R × List E)) :
    andThen (.ok (reader, [])) f = f reader := by
  simp only [andThen]
  cases f reader <;> simp

theorem andThen_ok {first : Except ε (R × List E)} {next : R → Except ε (R × List E)} {last : R}
    {events : List E} (both : andThen first next = .ok (last, events)) :
    ∃ reader front back, first = .ok (reader, front) ∧ next reader = .ok (last, back) ∧
      events = front ++ back := by
  cases first with
  | error e => cases both
  | ok pair =>
      obtain ⟨reader, front⟩ := pair
      simp only [andThen] at both
      split at both
      · cases both
      · rename_i stop back second
        cases both
        exact ⟨reader, front, back, rfl, second, rfl⟩

theorem feed_append (push : R → List α → Except ε (R × List E)) (reader : R)
    (front back : List (List α)) :
    feed push reader (front ++ back) =
      andThen (feed push reader front) fun next => feed push next back := by
  induction front generalizing reader with
  | nil =>
      rw [List.nil_append, feed, andThen_start]
  | cons chunk rest ih =>
      simp only [List.cons_append, feed, andThen_assoc]
      exact congrArg (andThen (push reader chunk)) (funext ih)

structure Splits (push : R → List α → Except ε (R × List E)) (norm : List E → N)
    (valid : R → Prop) : Prop where
  append : ∀ {a a' b b' : List E}, norm a = norm a' → norm b = norm b' →
    norm (a ++ b) = norm (a' ++ b')
  keeps : ∀ {reader chunk next events}, valid reader →
    push reader chunk = .ok (next, events) → valid next
  nil : ∀ {reader}, valid reader → push reader [] = .ok (reader, [])
  cons : ∀ {reader} x xs, valid reader →
    Agree norm (push reader (x :: xs)) (andThen (push reader [x]) fun next => push next xs)

namespace Splits

variable {push : R → List α → Except ε (R × List E)} {norm : List E → N} {valid : R → Prop}

theorem push_append (splits : Splits push norm valid) (reader : R) (front back : List α)
    (start : valid reader) :
    Agree norm (push reader (front ++ back))
      (andThen (push reader front) fun next => push next back) := by
  induction front generalizing reader with
  | nil =>
      rw [splits.nil start, andThen_start]
      exact Agree.refl _
  | cons x xs ih =>
      have head := splits.cons x (xs ++ back) start
      have tail : Agree norm (andThen (push reader [x]) fun next => push next (xs ++ back))
          (andThen (push reader [x]) fun next =>
            andThen (push next xs) fun last => push last back) := by
        apply Agree.andThen splits.append (Agree.refl _)
        intro next events pushed
        exact ih next (splits.keeps start pushed)
      have whole : Agree norm
          (andThen (andThen (push reader [x]) fun next => push next xs) fun last => push last back)
          (andThen (push reader (x :: xs)) fun last => push last back) := by
        apply Agree.andThen splits.append (splits.cons x xs start).symm
        intro _ _ _
        exact Agree.refl _
      rw [andThen_assoc] at whole
      exact head.trans (tail.trans whole)

/-- Any way of cutting a stream reads as the stream pushed whole. -/
theorem feed_flatten (splits : Splits push norm valid) (reader : R) (chunks : List (List α))
    (start : valid reader) :
    Agree norm (feed push reader chunks) (push reader chunks.flatten) := by
  induction chunks generalizing reader with
  | nil =>
      rw [List.flatten_nil, splits.nil start]
      exact Agree.refl _
  | cons chunk rest ih =>
      have later : Agree norm (feed push reader (chunk :: rest))
          (andThen (push reader chunk) fun next => push next rest.flatten) := by
        apply Agree.andThen splits.append (Agree.refl _)
        intro next events pushed
        exact ih next (splits.keeps start pushed)
      rw [List.flatten_cons]
      exact later.trans (splits.push_append reader chunk rest.flatten start).symm

end Splits
end MbxCache.Incremental
