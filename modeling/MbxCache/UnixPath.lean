import Mathlib.Data.List.Basic

/-! Unix paths as texts: their components, how they are joined, and where they lead. -/

namespace MbxCache.UnixPath

class Alphabet (α : Type) where
  slash : α
  dot : α
  distinct : dot ≠ slash

open Alphabet

inductive Component (α : Type)
  | rootDir
  | curDir
  | parentDir
  | normal (name : List α)
  deriving DecidableEq

variable {α : Type}

def Component.enter (directory : List (List α)) : Component α → List (List α)
  | .rootDir => []
  | .curDir => directory
  | .parentDir => directory.dropLast
  | .normal name => directory ++ [name]

/-- Where components lead from a directory. -/
def resolve (directory : List (List α)) (path : List (Component α)) : List (List α) :=
  path.foldl Component.enter directory

theorem resolve_names (directory names : List (List α)) :
    resolve directory (names.map .normal) = directory ++ names := by
  induction names generalizing directory with
  | nil => simp [resolve]
  | cons name rest ih =>
      have step : resolve directory ((name :: rest).map .normal) =
          resolve (directory ++ [name]) (rest.map .normal) := rfl
      rw [step, ih, List.append_assoc, List.singleton_append]

variable [Alphabet α]

structure IsName (name : List α) : Prop where
  given : name ≠ []
  notDot : name ≠ [dot]
  notDots : name ≠ [dot, dot]
  whole : slash ∉ name

theorem IsName.relative {name : List α} (named : IsName name) : name.head? ≠ some slash := by
  intro head
  exact named.whole (List.mem_of_head? head)

theorem IsName.of_free {name : List α} (given : name ≠ []) (dotless : dot ∉ name)
    (whole : slash ∉ name) : IsName name :=
  ⟨given, fun same => dotless (same ▸ List.mem_cons_self),
    fun same => dotless (same ▸ List.mem_cons_self), whole⟩

variable [DecidableEq α]

/-- What a piece between two separators stands for. Nothing and a single dot stand for nothing. -/
def Component.ofPiece (piece : List α) : Option (Component α) :=
  if piece = [] ∨ piece = [dot] then none
  else if piece = [dot, dot] then some .parentDir
  else some (.normal piece)

def leading (path : List α) : List (Component α) :=
  if path.head? = some slash then [.rootDir]
  else if (path.splitOn slash).head? = some [dot] then [.curDir]
  else []

/-- `Path::components`, by which paths are compared. -/
def components (path : List α) : List (Component α) :=
  leading path ++ (path.splitOn slash).filterMap Component.ofPiece

/-- `Path::join` -/
def join (base part : List α) : List α :=
  if part.head? = some slash then part
  else if base = [] ∨ base.getLast? = some slash then base ++ part
  else base ++ slash :: part

def Below (directory path : List α) : Prop :=
  ∃ names : List (List α), names ≠ [] ∧ (∀ name ∈ names, IsName name) ∧
    components path = components directory ++ names.map .normal

def Above (directory path : List α) : Prop :=
  components directory <+: components path ∧ components directory ≠ components path

def IsParent (directory path : List α) : Prop :=
  ∃ name : List α, components path = components directory ++ [.normal name]

theorem splitOn_append (front rest : List α) :
    (front ++ slash :: rest).splitOn slash = front.splitOn slash ++ rest.splitOn slash :=
  List.splitOnP_append_cons front rest (beq_self_eq_true slash)

theorem splitOn_whole {piece : List α} (whole : slash ∉ piece) : piece.splitOn slash = [piece] := by
  apply List.splitOnP_eq_singleton
  intro x member
  exact beq_false_of_ne fun same => whole (same ▸ member)

theorem splitOn_front {front : List α} (whole : slash ∉ front) (rest : List α) :
    ∃ piece others, (front ++ rest).splitOn slash = (front ++ piece) :: others := by
  by_cases within : slash ∈ rest
  · obtain ⟨piece, others, rfl, free⟩ := List.eq_append_cons_of_mem within
    have whole' : slash ∉ front ++ piece := by simp [whole, free]
    refine ⟨piece, others.splitOn slash, ?_⟩
    rw [← List.append_assoc, splitOn_append, splitOn_whole whole', List.singleton_append]
  · have whole' : slash ∉ front ++ rest := by simp [whole, within]
    exact ⟨rest, [], splitOn_whole whole'⟩

theorem splitOn_ne_nil (path : List α) : path.splitOn slash ≠ [] := List.splitOnP_ne_nil _ path

theorem leading_append (front rest : List α) :
    leading (front ++ slash :: rest) = leading (front ++ [slash]) := by
  have heads : (front ++ slash :: rest).head? = (front ++ [slash]).head? := by
    cases front <;> rfl
  have pieces : ((front ++ slash :: rest).splitOn slash).head? =
      ((front ++ [slash]).splitOn slash).head? := by
    rw [splitOn_append, splitOn_append, List.head?_append_of_ne_nil _ (splitOn_ne_nil front),
      List.head?_append_of_ne_nil _ (splitOn_ne_nil front)]
  unfold leading
  rw [heads, pieces]

theorem leading_trailing {front : List α} (given : front ≠ []) :
    leading (front ++ [slash]) = leading front := by
  unfold leading
  rw [List.head?_append_of_ne_nil _ given, splitOn_append,
    List.head?_append_of_ne_nil _ (splitOn_ne_nil front)]

theorem components_append (front rest : List α) :
    components (front ++ slash :: rest) =
      components (front ++ [slash]) ++ (rest.splitOn slash).filterMap Component.ofPiece := by
  unfold components
  rw [leading_append, splitOn_append, splitOn_append, List.filterMap_append,
    List.filterMap_append]
  simp [Component.ofPiece]

/-- A separator at the end says nothing, unless there is nothing else. -/
theorem components_trailing {front : List α} (given : front ≠ []) :
    components (front ++ [slash]) = components front := by
  unfold components
  rw [leading_trailing given, splitOn_append, List.filterMap_append]
  simp [Component.ofPiece]

theorem components_nil : components ([] : List α) = [] := by
  simp [components, leading, Component.ofPiece]

/-- What a path that begins with a piece of its own adds to another. -/
theorem components_join (base : List α) {part : List α} (relative : part.head? ≠ some slash)
    (opens : (part.splitOn slash).head? ≠ some [dot]) :
    components (join base part) = components base ++ components part := by
  have plain : leading part = [] := by
    unfold leading
    rw [if_neg relative, if_neg opens]
  have pieces : (part.splitOn slash).filterMap Component.ofPiece = components part := by
    rw [components, plain, List.nil_append]
  unfold join
  rw [if_neg relative]
  split
  next closed =>
    by_cases empty : base = []
    · rw [empty, List.nil_append, components_nil, List.nil_append]
    · obtain ⟨front, rfl⟩ := List.getLast?_eq_some_iff.mp (closed.resolve_left empty)
      rw [List.append_assoc, List.singleton_append, components_append, pieces]
  next open' =>
    rw [components_append, components_trailing fun empty => open' (.inl empty), pieces]

namespace IsName

variable {name : List α}

theorem ofPiece (named : IsName name) : Component.ofPiece name = some (.normal name) := by
  unfold Component.ofPiece
  rw [if_neg (not_or.mpr ⟨named.given, named.notDot⟩), if_neg named.notDots]

theorem opens (named : IsName name) : (name.splitOn slash).head? ≠ some [dot] := by
  rw [splitOn_whole named.whole]
  exact fun same => named.notDot (Option.some.inj same)

theorem components (named : IsName name) : components name = [Component.normal name] := by
  unfold UnixPath.components leading
  rw [if_neg named.relative, if_neg named.opens, splitOn_whole named.whole]
  simp [named.ofPiece]

end IsName

theorem components_join_name (base : List α) {name : List α} (named : IsName name) :
    components (join base name) = components base ++ [.normal name] := by
  rw [components_join base named.relative named.opens, named.components]

theorem components_join_front (base : List α) {front : List α} (long : 2 < front.length)
    (whole : slash ∉ front) (rest : List α) :
    ∃ piece more, components (join base (front ++ rest)) =
      components base ++ .normal (front ++ piece) :: more := by
  have given : front ≠ [] := List.ne_nil_of_length_pos (Nat.lt_trans Nat.zero_lt_two long)
  have relative : (front ++ rest).head? ≠ some slash := by
    rw [List.head?_append_of_ne_nil _ given]
    exact fun head => whole (List.mem_of_head? head)
  obtain ⟨piece, others, pieces⟩ := splitOn_front whole rest
  have longer {short : List α} (few : short.length ≤ 2) : front ++ piece ≠ short := by
    intro same
    have lengths := congrArg List.length same
    rw [List.length_append] at lengths
    omega
  have opens : ((front ++ rest).splitOn slash).head? ≠ some [dot] := by
    rw [pieces]
    exact fun same => longer (by simp) (Option.some.inj same)
  have first : Component.ofPiece (front ++ piece) = some (.normal (front ++ piece)) := by
    unfold Component.ofPiece
    rw [if_neg (not_or.mpr ⟨longer (by simp), longer (by simp)⟩), if_neg (longer (by simp))]
  have alone : components (front ++ rest) =
      .normal (front ++ piece) :: others.filterMap Component.ofPiece := by
    unfold components leading
    rw [if_neg relative, if_neg opens, pieces, List.nil_append, List.filterMap_cons_some first]
  exact ⟨piece, others.filterMap Component.ofPiece,
    by rw [components_join base relative opens, alone]⟩

theorem components_joins (base : List α) {names : List (List α)}
    (named : ∀ name ∈ names, IsName name) :
    components (names.foldl join base) = components base ++ names.map .normal := by
  induction names generalizing base with
  | nil => simp
  | cons name rest ih =>
      rw [List.foldl_cons, ih _ fun other member => named other (List.mem_cons_of_mem _ member),
        components_join_name base (named name List.mem_cons_self), List.append_assoc]
      rfl

theorem components_flatMap {base : List α} (given : base ≠ []) {names : List (List α)}
    (named : ∀ name ∈ names, IsName name) :
    components (base ++ names.flatMap (slash :: ·)) = components base ++ names.map .normal := by
  induction names generalizing base with
  | nil => simp
  | cons name rest ih =>
      have first : IsName name := named name List.mem_cons_self
      have longer : base ++ slash :: name ≠ [] := by simp
      have step : components (base ++ slash :: name) = components base ++ [.normal name] := by
        rw [components_append, components_trailing given, splitOn_whole first.whole,
          List.filterMap_cons_some first.ofPiece, List.filterMap_nil]
      calc
        components (base ++ (name :: rest).flatMap (slash :: ·))
        _ = components ((base ++ slash :: name) ++ rest.flatMap (slash :: ·)) := by simp
        _ = components base ++ [.normal name] ++ rest.map .normal := by
          rw [ih longer fun other member => named other (List.mem_cons_of_mem _ member), step]
        _ = components base ++ (name :: rest).map .normal := by simp

end MbxCache.UnixPath
