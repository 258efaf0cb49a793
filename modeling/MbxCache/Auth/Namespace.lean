import MbxCache.Model

/-! Namespaces, and the patterns that grant them (`auth.rs`). -/

namespace MbxCache

def namespaceChar (c : Char) : Bool :=
  c.isAlphanum || c == '-' || c == '_' || c == '.' || c == '/'

/-- The length is in bytes. Every byte is a permitted ASCII character exactly when every
character is. -/
def validNamespace (value : String) : Bool :=
  value != "" && value.utf8ByteSize ≤ 255 && value.toList.all namespaceChar &&
    (splitOn '/' value.toList).all safeComponent

/-- `strip_suffix` -/
def stripSuffix (suffix text : List Char) : Option (List Char) :=
  if suffix.isSuffixOf text then some (text.take (text.length - suffix.length)) else none

/-- `strip_prefix` -/
def stripPrefix (front text : List Char) : Option (List Char) :=
  if front.isPrefixOf text then some (text.drop front.length) else none

def matchesNamespace (pattern ns : String) : Bool :=
  pattern == "*" || pattern == ns ||
    match stripSuffix ['/', '*'] pattern.toList with
    | some front => front.isPrefixOf ns.toList && ns.toList[front.length]? == some '/'
    | none => false

/-- One to 255 letters, digits, dots, underscores, hyphens and slashes, in components that
lead nowhere else. -/
structure IsNamespace (value : String) : Prop where
  length : 1 ≤ value.length ∧ value.length ≤ 255
  chars : ∀ c ∈ value.toList, namespaceChar c = true
  components : ∀ component ∈ splitOn '/' value.toList,
    component ≠ [] ∧ component ≠ ['.'] ∧ component ≠ ['.', '.']

/-- Everything, one namespace, or what lies below a prefix. -/
def Covers (pattern ns : String) : Prop :=
  pattern = "*" ∨ pattern = ns ∨
    ∃ front rest, rest ≠ "" ∧ pattern = front ++ "/*" ∧ ns = front ++ "/" ++ rest

theorem namespaceChar_size {c : Char} (permitted : namespaceChar c = true) : c.utf8Size = 1 := by
  apply Char.utf8Size_eq_one_iff.mpr
  simp only [namespaceChar, Bool.or_eq_true, beq_iff_eq] at permitted
  rcases permitted with (((word | rfl) | rfl) | rfl) | rfl
  · exact isAlphanum_ascii word
  all_goals decide

theorem utf8ByteSize_of_permitted {text : List Char}
    (permitted : ∀ c ∈ text, namespaceChar c = true) :
    (String.ofList text).utf8ByteSize = text.length := by
  induction text with
  | nil => rfl
  | cons c rest ih =>
      have tail := ih fun other member => permitted other (List.mem_cons_of_mem _ member)
      have head := namespaceChar_size (permitted c List.mem_cons_self)
      rw [String.ofList_cons, String.utf8ByteSize_append, tail, String.utf8ByteSize_singleton,
        head, List.length_cons]
      omega

theorem safeComponent_iff (component : List Char) :
    safeComponent component = true ↔
      component ≠ [] ∧ component ≠ ['.'] ∧ component ≠ ['.', '.'] := by
  simp only [safeComponent, Bool.and_eq_true, bne_iff_ne, and_assoc]

theorem validNamespace_iff (value : String) : validNamespace value = true ↔ IsNamespace value := by
  have size : (∀ c ∈ value.toList, namespaceChar c = true) →
      value.utf8ByteSize = value.length := by
    intro permitted
    have counted := utf8ByteSize_of_permitted permitted
    rwa [String.ofList_toList, String.length_toList] at counted
  have given : value ≠ "" ↔ 1 ≤ value.length := by
    rw [← String.length_toList, Nat.one_le_iff_ne_zero, ne_eq, ne_eq, List.length_eq_zero_iff,
      String.toList_eq_nil_iff]
  simp only [validNamespace, Bool.and_eq_true, bne_iff_ne, decide_eq_true_eq, List.all_eq_true,
    safeComponent_iff, given]
  constructor
  · rintro ⟨⟨⟨some, short⟩, permitted⟩, components⟩
    rw [size permitted] at short
    exact ⟨⟨some, short⟩, permitted, components⟩
  · rintro ⟨⟨some, short⟩, permitted, components⟩
    rw [← size permitted] at short
    exact ⟨⟨⟨some, short⟩, permitted⟩, components⟩

theorem splitOn_ne_nil (separator : Char) (text : List Char) : splitOn separator text ≠ [] := by
  induction text with
  | nil => simp [splitOn]
  | cons c rest ih =>
      simp only [splitOn]
      split
      · simp
      · split <;> simp

theorem splitOn_append (separator : Char) (front rest : List Char) :
    splitOn separator (front ++ separator :: rest) =
      splitOn separator front ++ splitOn separator rest := by
  induction front with
  | nil => simp [splitOn]
  | cons c others ih =>
      simp only [List.cons_append, splitOn, ih]
      split
      · rfl
      · cases found : splitOn separator others with
        | nil => exact absurd found (splitOn_ne_nil separator others)
        | cons first more => rfl

abbrev Namespace := {ns : String // IsNamespace ns}

theorem IsNamespace.front {front rest : String} (valid : IsNamespace (front ++ "/" ++ rest)) :
    front ≠ "" ∧ rest ≠ "" ∧ splitOn '/' (front ++ "/" ++ rest).toList =
      splitOn '/' front.toList ++ splitOn '/' rest.toList := by
  have split : splitOn '/' (front ++ "/" ++ rest).toList =
      splitOn '/' front.toList ++ splitOn '/' rest.toList := by
    rw [← splitOn_append]
    congr 1
    simp
  refine ⟨?_, ?_, split⟩
  · rintro rfl
    exact (valid.components [] (by rw [split]; simp [splitOn])).1 rfl
  · rintro rfl
    exact (valid.components [] (by rw [split]; simp [splitOn])).1 rfl

theorem stripSuffix_iff {suffix text front : List Char} :
    stripSuffix suffix text = some front ↔ text = front ++ suffix := by
  unfold stripSuffix
  split <;> rename_i ends
  · obtain ⟨before, rfl⟩ := List.isSuffixOf_iff_suffix.mp ends
    simp [eq_comm]
  · constructor
    · exact fun none => by cases none
    · rintro rfl
      exact absurd (List.isSuffixOf_iff_suffix.mpr (List.suffix_append _ _)) ends

theorem stripPrefix_iff {front text rest : List Char} :
    stripPrefix front text = some rest ↔ text = front ++ rest := by
  unfold stripPrefix
  split <;> rename_i starts
  · obtain ⟨after, rfl⟩ := List.isPrefixOf_iff_prefix.mp starts
    simp [eq_comm]
  · constructor
    · exact fun none => by cases none
    · rintro rfl
      exact absurd (List.isPrefixOf_iff_prefix.mpr (List.prefix_append _ _)) starts

/-- A pattern matches a namespace exactly when it covers it. -/
theorem matchesNamespace_iff {pattern ns : String} (valid : IsNamespace ns) :
    matchesNamespace pattern ns = true ↔ Covers pattern ns := by
  simp only [matchesNamespace, Bool.or_eq_true, beq_iff_eq, or_assoc, Covers]
  apply or_congr_right
  apply or_congr_right
  cases stripped : stripSuffix ['/', '*'] pattern.toList with
  | none =>
      refine iff_of_false (by simp) ?_
      rintro ⟨front, rest, _, rfl, _⟩
      have found : stripSuffix ['/', '*'] (front ++ "/*").toList = some front.toList :=
        stripSuffix_iff.mpr (by simp)
      rw [stripped] at found
      cases found
  | some front =>
      have spelled := stripSuffix_iff.mp stripped
      simp only [Bool.and_eq_true, beq_iff_eq, List.isPrefixOf_iff_prefix]
      constructor
      · rintro ⟨⟨after, starts⟩, slash⟩
        rw [← starts, List.getElem?_append_right (Nat.le_refl _), Nat.sub_self] at slash
        cases after with
        | nil => cases slash
        | cons c rest =>
            cases slash
            have whole : ns = String.ofList front ++ "/" ++ String.ofList rest := by
              apply String.toList_injective
              simp [← starts]
            refine ⟨String.ofList front, String.ofList rest, ?_, ?_, whole⟩
            · exact (IsNamespace.front (whole ▸ valid)).2.1
            · apply String.toList_injective
              simp [spelled]
      · rintro ⟨text, rest, _, same, rfl⟩
        have fronts : front = text.toList := by
          have both : text.toList ++ ['/', '*'] = front ++ ['/', '*'] := by
            rw [← spelled, same]
            simp
          exact (List.append_cancel_right both).symm
        subst fronts
        refine ⟨⟨"/".toList ++ rest.toList, by simp⟩, ?_⟩
        simp

end MbxCache
