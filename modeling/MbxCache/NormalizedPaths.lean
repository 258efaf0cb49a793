import MbxCache.Auth.Namespace
import MbxCache.UnixPath

/-! Normalized paths (`model.rs`): what is accepted, and what it denotes. -/

namespace MbxCache

structure PlainComponent (component : List Char) : Prop where
  safe : component ≠ [] ∧ component ≠ ['.'] ∧ component ≠ ['.', '.']
  plain : '/' ∉ component ∧ '\\' ∉ component ∧ '\x00' ∉ component

/-- `${NAME}`, alone or followed by components. -/
def NormalizedPath (path : String) : Prop :=
  ∃ (name : List Char) (components : List (List Char)),
    path.toList = '$' :: '{' :: (name ++ '}' :: components.flatMap ('/' :: ·)) ∧
    name ≠ [] ∧ (∀ c ∈ name, c.isAlphanum = true ∨ c = '_') ∧
    ∀ component ∈ components, PlainComponent component

instance : UnixPath.Alphabet Char := ⟨'/', '.', by decide⟩

structure Denotes (path : String) (name : List Char) (components : List (List Char)) : Prop where
  spelled : path.toList = '$' :: '{' :: (name ++ '}' :: components.flatMap ('/' :: ·))
  named : name ≠ []
  word : ∀ c ∈ name, c.isAlphanum = true ∨ c = '_'
  plain : ∀ component ∈ components, PlainComponent component

def placeholderName (path : String) : List Char := (path.toList.drop 2).takeWhile (· ≠ '}')

def placeholderSuffix (path : String) : List Char := (path.toList.dropWhile (· ≠ '}')).drop 1

def relativePath (path : String) : List Char := (placeholderSuffix path).drop 1

def placeholderComponents (path : String) : List (List Char) :=
  (splitOn '/' (placeholderSuffix path)).drop 1

theorem flatMap_splitOn (separator : Char) (text : List Char) :
    (splitOn separator text).flatMap (separator :: ·) = separator :: text := by
  induction text with
  | nil => simp [splitOn]
  | cons c rest ih =>
      simp only [splitOn]
      split
      next same => simp [ih, same]
      next =>
        cases found : splitOn separator rest with
        | nil => exact absurd found (splitOn_ne_nil separator rest)
        | cons first others =>
            have joined : first ++ others.flatMap (separator :: ·) = rest := by
              simpa [found] using ih
            simp [joined]

theorem splitOn_free {separator : Char} {text : List Char} (free : separator ∉ text) :
    splitOn separator text = [text] := by
  induction text with
  | nil => rfl
  | cons c rest ih =>
      have other : c ≠ separator := fun same => free (same ▸ List.mem_cons_self)
      have tail : separator ∉ rest := fun member => free (List.mem_cons_of_mem c member)
      simp [splitOn, other, ih tail]

theorem splitOn_flatMap {separator : Char} (first : List Char) (others : List (List Char))
    (free : ∀ component ∈ first :: others, separator ∉ component) :
    splitOn separator (first ++ others.flatMap (separator :: ·)) = first :: others := by
  induction others generalizing first with
  | nil => simpa using splitOn_free (free first List.mem_cons_self)
  | cons next others ih =>
      have rest : ∀ component ∈ next :: others, separator ∉ component :=
        fun component member => free component (List.mem_cons_of_mem first member)
      calc
        splitOn separator (first ++ (next :: others).flatMap (separator :: ·))
        _ = splitOn separator (first ++ separator :: (next ++ others.flatMap (separator :: ·))) := by
          simp
        _ = first :: next :: others := by
          rw [splitOn_append, ih next rest, splitOn_free (free first List.mem_cons_self)]
          rfl

theorem mem_splitOn {separator : Char} {text component : List Char}
    (member : component ∈ splitOn separator text) :
    separator ∉ component ∧ ∀ c ∈ component, c ∈ text := by
  induction text generalizing component with
  | nil =>
      have empty : component = [] := by simpa [splitOn] using member
      simp [empty]
  | cons c rest ih =>
      simp only [splitOn] at member
      split at member
      next =>
        rcases List.mem_cons.mp member with empty | later
        · simp [empty]
        · exact ⟨(ih later).1, fun x holds => List.mem_cons_of_mem c ((ih later).2 x holds)⟩
      next other =>
        cases found : splitOn separator rest with
        | nil => exact absurd found (splitOn_ne_nil separator rest)
        | cons first others =>
            simp only [found, List.mem_cons] at member ih
            rcases member with head | later
            · have before := ih (.inl rfl)
              subst head
              refine ⟨?_, ?_⟩
              · simpa [Ne.symm other] using before.1
              · intro x holds
                rcases List.mem_cons.mp holds with same | within
                · exact same ▸ List.mem_cons_self
                · exact List.mem_cons_of_mem c (before.2 x within)
            · have before := ih (.inr later)
              exact ⟨before.1, fun x holds => List.mem_cons_of_mem c (before.2 x holds)⟩

theorem relative_iff (relative : List Char) :
    (relative != [] && !relative.contains '\\' && !relative.contains '\x00' &&
        (splitOn '/' relative).all safeComponent) = true ↔
      ∃ components : List (List Char), '/' :: relative = components.flatMap ('/' :: ·) ∧
        ∀ component ∈ components, PlainComponent component := by
  simp only [Bool.and_eq_true, bne_iff_ne, ne_eq, Bool.not_eq_true', List.all_eq_true,
    safeComponent_iff]
  constructor
  · rintro ⟨⟨⟨_, backslash⟩, nul⟩, safe⟩
    refine ⟨splitOn '/' relative, (flatMap_splitOn '/' relative).symm, fun component member => ?_⟩
    have within := mem_splitOn member
    refine ⟨safe component member, within.1, fun holds => ?_, fun holds => ?_⟩
    · have clean : '\\' ∉ relative := by simpa using backslash
      exact clean (within.2 _ holds)
    · have clean : '\x00' ∉ relative := by simpa using nul
      exact clean (within.2 _ holds)
  · rintro ⟨components, spelled, plain⟩
    cases components with
    | nil => simp at spelled
    | cons first others =>
        have relative_eq : relative = first ++ others.flatMap ('/' :: ·) := by
          simpa using spelled
        have split : splitOn '/' relative = first :: others := by
          rw [relative_eq]
          exact splitOn_flatMap first others fun component member => (plain component member).plain.1
        have clean (c : Char) (outside : c ≠ '/')
            (free : ∀ component ∈ first :: others, c ∉ component) : c ∉ relative := by
          intro member
          have holds : c ∈ (first :: others).flatMap ('/' :: ·) := by
            rw [← spelled]
            exact List.mem_cons_of_mem _ member
          obtain ⟨component, present, within⟩ := List.mem_flatMap.mp holds
          rcases List.mem_cons.mp within with same | inner
          · exact outside same
          · exact free component present inner
        refine ⟨⟨⟨?_, ?_⟩, ?_⟩, ?_⟩
        · intro empty
          have nothing : first = [] := by
            rw [relative_eq] at empty
            exact (List.append_eq_nil_iff.mp empty).1
          exact (plain first List.mem_cons_self).safe.1 nothing
        · simpa using clean '\\' (by decide) fun component member =>
            (plain component member).plain.2.1
        · simpa using clean '\x00' (by decide) fun component member =>
            (plain component member).plain.2.2
        · rw [split]
          exact fun component member => (plain component member).safe

theorem name_split {name : List Char} (rest : List Char)
    (word : ∀ c ∈ name, c.isAlphanum = true ∨ c = '_') :
    (name ++ '}' :: rest).takeWhile (· ≠ '}') = name ∧
      ((name ++ '}' :: rest).dropWhile (· ≠ '}')).drop 1 = rest := by
  have inside : ∀ c ∈ name, decide (c ≠ '}') = true := by
    intro c member
    refine decide_eq_true fun same => ?_
    subst same
    exact absurd (word _ member) (by decide)
  constructor
  · rw [List.takeWhile_append_of_pos inside]
    simp
  · rw [List.dropWhile_append_of_pos inside]
    simp

theorem brace_split {text : List Char} (brace : '}' ∈ text) :
    text = text.takeWhile (· ≠ '}') ++ '}' :: (text.dropWhile (· ≠ '}')).drop 1 := by
  induction text with
  | nil => cases brace
  | cons c rest ih =>
      by_cases same : c = '}'
      · simp [same]
      · have later : '}' ∈ rest := (List.mem_cons.mp brace).resolve_left (Ne.symm same)
        simpa [same] using ih later

theorem validNormalizedPath_iff (path : String) :
    validNormalizedPath path = true ↔ NormalizedPath path := by
  unfold validNormalizedPath NormalizedPath
  constructor
  · intro valid
    split at valid
    next text spelled =>
      split at valid
      next => cases valid
      next closed =>
        dsimp only at valid
        split at valid
        next => cases valid
        next named =>
          have brace : '}' ∈ text := by simpa using closed
          simp only [Bool.or_eq_true, decide_eq_true_eq, Bool.not_eq_true', not_or,
            Bool.not_eq_false, List.all_eq_true, beq_iff_eq] at named
          have whole : text = text.takeWhile (· ≠ '}') ++
              '}' :: (text.dropWhile (· ≠ '}')).drop 1 := brace_split brace
          generalize (text.dropWhile (· ≠ '}')).drop 1 = suffix at valid whole
          split at valid
          next =>
            refine ⟨_, [], ?_, named.1, named.2, by simp⟩
            rw [spelled]
            exact congrArg (['$', '{'] ++ ·) whole
          next relative =>
            obtain ⟨components, joined, plain⟩ := (relative_iff relative).mp valid
            refine ⟨_, components, ?_, named.1, named.2, plain⟩
            rw [spelled, ← joined]
            exact congrArg (['$', '{'] ++ ·) whole
          next => cases valid
    next => cases valid
  · rintro ⟨name, components, spelled, named, word, plain⟩
    obtain ⟨front, back⟩ := name_split (components.flatMap ('/' :: ·)) word
    have closed : (name ++ '}' :: components.flatMap ('/' :: ·)).contains '}' = true := by simp
    have letters : (name.all fun c => c.isAlphanum || c == '_') = true := by
      simpa [List.all_eq_true] using word
    rw [spelled]
    simp only [closed, front, back, named, letters]
    cases components with
    | nil => simp
    | cons first others =>
        have checked := (relative_iff (first ++ others.flatMap ('/' :: ·))).mpr
          ⟨first :: others, by simp, plain⟩
        simpa using checked

theorem NormalizedPath.clean {path : String} (normalized : NormalizedPath path) :
    '\x00' ∉ path.toList := by
  obtain ⟨name, components, spelled, _, word, plain⟩ := normalized
  rw [spelled]
  simp only [List.mem_cons, List.mem_append, List.mem_flatMap, not_or, not_exists, not_and]
  refine ⟨by decide, by decide, ?_, by decide, fun component present => ⟨by decide, ?_⟩⟩
  · intro member
    exact absurd (word _ member) (by decide)
  · exact (plain component present).plain.2.2

theorem normalizedPath_iff (path : String) :
    NormalizedPath path ↔ ∃ name components, Denotes path name components := by
  constructor
  · rintro ⟨name, components, spelled, named, word, plain⟩
    exact ⟨name, components, spelled, named, word, plain⟩
  · rintro ⟨name, components, spelled, named, word, plain⟩
    exact ⟨name, components, spelled, named, word, plain⟩

theorem PlainComponent.isName {component : List Char} (plain : PlainComponent component) :
    UnixPath.IsName component :=
  ⟨plain.safe.1, plain.safe.2.1, plain.safe.2.2, plain.plain.1⟩

namespace Denotes

variable {path : String} {name : List Char} {components : List (List Char)}

theorem placeholder (denotes : Denotes path name components) : placeholderName path = name := by
  unfold placeholderName
  rw [denotes.spelled]
  exact (name_split _ denotes.word).1

theorem suffix (denotes : Denotes path name components) :
    placeholderSuffix path = components.flatMap ('/' :: ·) := by
  unfold placeholderSuffix
  rw [denotes.spelled]
  exact (name_split _ denotes.word).2

theorem split (denotes : Denotes path name components) :
    placeholderComponents path = components := by
  have free : ∀ component ∈ [] :: components, '/' ∉ component := by
    intro component member
    rcases List.mem_cons.mp member with rfl | later
    · exact List.not_mem_nil
    · exact (denotes.plain component later).plain.1
  have pieces : splitOn '/' (components.flatMap ('/' :: ·)) = [] :: components :=
    splitOn_flatMap [] components free
  rw [placeholderComponents, denotes.suffix, pieces, List.drop_one, List.tail_cons]

theorem relative (denotes : Denotes path name components) :
    UnixPath.components (relativePath path) = components.map .normal := by
  have names : ∀ component ∈ components, UnixPath.IsName component :=
    fun component member => (denotes.plain component member).isName
  rw [relativePath, denotes.suffix]
  cases components with
  | nil => exact UnixPath.components_nil
  | cons first others =>
      have head : UnixPath.IsName first := names first List.mem_cons_self
      have tail : ∀ component ∈ others, UnixPath.IsName component :=
        fun component member => names component (List.mem_cons_of_mem _ member)
      calc
        UnixPath.components (((first :: others).flatMap ('/' :: ·)).drop 1)
        _ = UnixPath.components (first ++ others.flatMap (UnixPath.Alphabet.slash :: ·)) := rfl
        _ = UnixPath.components first ++ others.map .normal :=
          UnixPath.components_flatMap head.given tail
        _ = (first :: others).map .normal := by
          rw [head.components]
          rfl

/-- What spells the same is the same. -/
theorem unique (denotes : Denotes path name components) {other : List Char}
    {others : List (List Char)} (again : Denotes path other others) :
    name = other ∧ components = others :=
  ⟨denotes.placeholder.symm.trans again.placeholder, denotes.split.symm.trans again.split⟩

theorem text (denotes : Denotes path name components) {other : String}
    (also : Denotes other name components) : path = other :=
  String.toList_inj.mp (denotes.spelled.trans also.spelled.symm)

end Denotes

theorem denotes_parts {path : String} (valid : validNormalizedPath path = true) :
    Denotes path (placeholderName path) (placeholderComponents path) := by
  obtain ⟨name, components, denotes⟩ :=
    (normalizedPath_iff path).mp ((validNormalizedPath_iff path).mp valid)
  rw [denotes.placeholder, denotes.split]
  exact denotes

/-- Normalized paths are `${NAME}` with components behind it and nothing else. Each of them denotes
one placeholder and one list of components, no two the same, and going by the text the components
never lead out of the directory the placeholder stands for. -/
theorem normalized_paths_exact :
    (∀ path, validNormalizedPath path = true ↔
      ∃ name components, Denotes path name components) ∧
    (∀ path name components, Denotes path name components →
      placeholderName path = name ∧ placeholderComponents path = components) ∧
    (∀ one other, validNormalizedPath one = true → validNormalizedPath other = true → one ≠ other →
      (placeholderName one, placeholderComponents one) ≠
        (placeholderName other, placeholderComponents other)) ∧
    (∀ path (root : List (List Char)), validNormalizedPath path = true →
      UnixPath.resolve root (UnixPath.components (relativePath path)) =
          root ++ placeholderComponents path ∧
        ∀ walked, walked <+: UnixPath.components (relativePath path) →
          root <+: UnixPath.resolve root walked) := by
  refine ⟨fun path => (validNormalizedPath_iff path).trans (normalizedPath_iff path),
    fun path name components denotes => ⟨denotes.placeholder, denotes.split⟩, ?_, ?_⟩
  · intro one other first second differ same
    obtain ⟨names, components⟩ := Prod.mk.inj same
    have also : Denotes other (placeholderName one) (placeholderComponents one) := by
      rw [names, components]
      exact denotes_parts second
    exact differ ((denotes_parts first).text also)
  · intro path root valid
    have spelled := (denotes_parts valid).relative
    rw [spelled]
    refine ⟨UnixPath.resolve_names root _, ?_⟩
    intro walked front
    obtain ⟨names, -, rfl⟩ := List.prefix_map_iff.mp front
    rw [UnixPath.resolve_names]
    exact List.prefix_append root names

end MbxCache
