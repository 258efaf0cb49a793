import Mathlib.Data.List.Sort
import MbxCache.Json

namespace MbxCache.Json

theorem induct {motive : Json → Prop} (null : motive .null) (bool : ∀ b, motive (.bool b))
    (unsigned : ∀ n, motive (.unsigned n)) (number : ∀ text, motive (.number text))
    (string : ∀ s, motive (.string s))
    (array : ∀ items, (∀ item ∈ items, motive item) → motive (.array items))
    (object : ∀ fields, (∀ field ∈ fields, motive field.2) → motive (.object fields)) :
    ∀ value, motive value
  | .null => null
  | .bool b => bool b
  | .unsigned n => unsigned n
  | .number text => number text
  | .string s => string s
  | .array items => array items fun item _ =>
      induct null bool unsigned number string array object item
  | .object fields => object fields fun field _ =>
      induct null bool unsigned number string array object field.2
termination_by value => sizeOf value
decreasing_by
  · have := List.sizeOf_lt_of_mem ‹item ∈ items›
    simp only [Json.array.sizeOf_spec]
    omega
  · have := List.sizeOf_lt_of_mem ‹field ∈ fields›
    cases field
    simp only [Json.object.sizeOf_spec, Prod.mk.sizeOf_spec] at this ⊢
    omega

mutual

def every (test : Json → Bool) : Json → Bool
  | .array items => test (.array items) && everyItem test items
  | .object fields => test (.object fields) && everyMember test fields
  | .null => test .null
  | .bool value => test (.bool value)
  | .unsigned value => test (.unsigned value)
  | .number text => test (.number text)
  | .string value => test (.string value)

def everyItem (test : Json → Bool) : List Json → Bool
  | [] => true
  | item :: rest => every test item && everyItem test rest

def everyMember (test : Json → Bool) : List (String × Json) → Bool
  | [] => true
  | (_, value) :: rest => every test value && everyMember test rest

end

mutual

def within : Nat → Json → Bool
  | 0, .array _ | 0, .object _ => false
  | limit + 1, .array items => withinItems limit items
  | limit + 1, .object fields => withinMembers limit fields
  | _, .null | _, .bool _ | _, .unsigned _ | _, .number _ | _, .string _ => true

def withinItems (limit : Nat) : List Json → Bool
  | [] => true
  | item :: rest => within limit item && withinItems limit rest

def withinMembers (limit : Nat) : List (String × Json) → Bool
  | [] => true
  | (_, value) :: rest => within limit value && withinMembers limit rest

end

mutual

def sortKeys (le : String → String → Bool) : Json → Json
  | .array items => .array (sortItems le items)
  | .object fields => .object ((sortMembers le fields).mergeSort fun a b => le a.1 b.1)
  | .null => .null
  | .bool value => .bool value
  | .unsigned value => .unsigned value
  | .number text => .number text
  | .string value => .string value

def sortItems (le : String → String → Bool) : List Json → List Json
  | [] => []
  | item :: rest => sortKeys le item :: sortItems le rest

def sortMembers (le : String → String → Bool) : List (String × Json) → List (String × Json)
  | [] => []
  | (key, value) :: rest => (key, sortKeys le value) :: sortMembers le rest

end

def sortedNode (le : String → String → Bool) : Json → Bool
  | .object fields => decide (fields.Pairwise fun a b => le a.1 b.1 = true)
  | .null | .bool _ | .unsigned _ | .number _ | .string _ | .array _ => true

def distinctNode : Json → Bool
  | .object fields => decide (fields.map Prod.fst).Nodup
  | .null | .bool _ | .unsigned _ | .number _ | .string _ | .array _ => true

variable {test : Json → Bool} {le : String → String → Bool} {limit : Nat} {value : Json}

theorem every_array {items : List Json} : every test (.array items) = true ↔
    test (.array items) = true ∧ ∀ item ∈ items, every test item = true := by
  have inner : everyItem test items = true ↔ ∀ item ∈ items, every test item = true := by
    induction items with
    | nil => simp [everyItem]
    | cons item rest ih => simp [everyItem, ih]
  rw [every, Bool.and_eq_true, inner]

theorem every_object {fields : List (String × Json)} : every test (.object fields) = true ↔
    test (.object fields) = true ∧ ∀ field ∈ fields, every test field.2 = true := by
  have inner : everyMember test fields = true ↔ ∀ field ∈ fields, every test field.2 = true := by
    induction fields with
    | nil => simp [everyMember]
    | cons field rest ih => simp [everyMember, ih]
  rw [every, Bool.and_eq_true, inner]

/-- A weaker test holds wherever the stronger one does. -/
theorem every_mono {weaker : Json → Bool} (implied : ∀ node, test node = true → weaker node = true)
    (value : Json) (all : every test value = true) : every weaker value = true := by
  induction value using induct with
  | array items ih =>
      rw [every_array] at all ⊢
      exact ⟨implied _ all.1, fun item member => ih item member (all.2 item member)⟩
  | object fields ih =>
      rw [every_object] at all ⊢
      exact ⟨implied _ all.1, fun field member => ih field member (all.2 field member)⟩
  | _ => exact implied _ all

theorem within_array {items : List Json} : within (limit + 1) (.array items) = true ↔
    ∀ item ∈ items, within limit item = true := by
  rw [within]
  induction items with
  | nil => simp [withinItems]
  | cons item rest ih => simp [withinItems, ih]

theorem within_object {fields : List (String × Json)} : within (limit + 1) (.object fields) = true ↔
    ∀ field ∈ fields, within limit field.2 = true := by
  rw [within]
  induction fields with
  | nil => simp [withinMembers]
  | cons field rest ih => simp [withinMembers, ih]

theorem sortItems_eq (items : List Json) : sortItems le items = items.map (sortKeys le) := by
  induction items with
  | nil => rfl
  | cons item rest ih => rw [sortItems, ih, List.map_cons]

theorem sortMembers_eq (fields : List (String × Json)) :
    sortMembers le fields = fields.map fun field => (field.1, sortKeys le field.2) := by
  induction fields with
  | nil => rfl
  | cons field rest ih => rw [sortMembers, ih, List.map_cons]

theorem sortKeys_array (items : List Json) :
    sortKeys le (.array items) = .array (items.map (sortKeys le)) := by
  rw [sortKeys, sortItems_eq]

theorem sortKeys_object (fields : List (String × Json)) :
    sortKeys le (.object fields) = .object
      ((fields.map fun field => (field.1, sortKeys le field.2)).mergeSort fun a b =>
        le a.1 b.1) := by
  rw [sortKeys, sortMembers_eq]

theorem every_sortKeys
    (arrays : ∀ items, test (.array (items.map (sortKeys le))) = test (.array items))
    (objects : ∀ fields : List (String × Json), test (sortKeys le (.object fields)) =
      test (.object fields)) (value : Json) :
    every test (sortKeys le value) = every test value := by
  induction value using induct with
  | array items ih =>
      rw [sortKeys_array, Bool.eq_iff_iff, every_array, every_array, arrays]
      simp only [List.forall_mem_map]
      exact and_congr_right fun _ => forall₂_congr fun item member => by rw [ih item member]
  | object fields ih =>
      have node := objects fields
      rw [sortKeys_object] at node ⊢
      rw [Bool.eq_iff_iff, every_object, every_object, node]
      simp only [List.mem_mergeSort, List.forall_mem_map]
      exact and_congr_right fun _ => forall₂_congr fun field member => by rw [ih field member]
  | _ => rfl

theorem within_sortKeys (limit : Nat) (value : Json) :
    within limit (sortKeys le value) = within limit value := by
  induction value using induct generalizing limit with
  | array items ih =>
      cases limit with
      | zero => rw [sortKeys_array]; rfl
      | succ limit =>
          rw [sortKeys_array, Bool.eq_iff_iff, within_array, within_array]
          simp only [List.forall_mem_map]
          exact forall₂_congr fun item member => by rw [ih item member]
  | object fields ih =>
      cases limit with
      | zero => rw [sortKeys_object]; rfl
      | succ limit =>
          rw [sortKeys_object, Bool.eq_iff_iff, within_object, within_object]
          simp only [List.mem_mergeSort, List.forall_mem_map]
          exact forall₂_congr fun field member => by rw [ih field member]
  | _ => rfl

theorem map_fixed {α : Type} {f : α → α} (list : List α) :
    list.map f = list ↔ ∀ item ∈ list, f item = item := by
  have self : list.map f = list ↔ list.map f = list.map id := by rw [List.map_id]
  rw [self, List.map_inj_left]
  rfl

section order

variable (total : ∀ a b, (le a b || le b a) = true)
  (trans : ∀ a b c, le a b = true → le b c = true → le a c = true)

include total trans

theorem mergeSort_arranged (fields : List (String × Json)) :
    (fields.mergeSort fun a b => le a.1 b.1).Pairwise fun a b => le a.1 b.1 = true :=
  List.pairwise_mergeSort (fun a b c => trans a.1 b.1 c.1) (fun a b => total a.1 b.1) fields

/-- Sorting changes nothing exactly if every object is sorted. -/
theorem sortKeys_fixed (value : Json) :
    sortKeys le value = value ↔ every (sortedNode le) value = true := by
  induction value using induct with
  | array items ih =>
      rw [sortKeys_array, every_array, ← forall₂_congr ih]
      simp only [Json.array.injEq, sortedNode, true_and]
      exact map_fixed items
  | object fields ih =>
      rw [sortKeys_object, every_object, ← forall₂_congr ih]
      simp only [Json.object.injEq, sortedNode, decide_eq_true_eq]
      have members : fields.map (fun field => (field.1, sortKeys le field.2)) = fields ↔
          ∀ field ∈ fields, sortKeys le field.2 = field.2 := by
        rw [map_fixed]
        exact forall₂_congr fun field _ => by simp [Prod.ext_iff]
      have keys : (fields.map fun field => (field.1, sortKeys le field.2)).Pairwise
          (fun a b => le a.1 b.1 = true) ↔ fields.Pairwise fun a b => le a.1 b.1 = true :=
        List.pairwise_map
      constructor
      · intro same
        have sorted : fields.Pairwise fun a b => le a.1 b.1 = true := by
          rw [← same]
          exact mergeSort_arranged total trans _
        rw [List.mergeSort_of_pairwise (keys.mpr sorted)] at same
        exact ⟨sorted, members.mp same⟩
      · rintro ⟨sorted, fixed⟩
        rw [List.mergeSort_of_pairwise (keys.mpr sorted), members.mpr fixed]
  | _ => simp [sortKeys, every, sortedNode]

theorem sortKeys_again (antisymm : ∀ a b, le a b = true → le b a = true → a = b)
    (other : String → String → Bool) (value : Json)
    (sorted : every (sortedNode le) value = true) (distinct : every distinctNode value = true) :
    sortKeys le (sortKeys other value) = value := by
  induction value using induct with
  | array items ih =>
      rw [every_array] at sorted distinct
      rw [sortKeys_array, sortKeys_array, List.map_map]
      congr 1
      exact (map_fixed items).mpr fun item member =>
        ih item member (sorted.2 item member) (distinct.2 item member)
  | object fields ih =>
      rw [every_object] at sorted distinct
      simp only [sortedNode, distinctNode, decide_eq_true_eq] at sorted distinct
      rw [sortKeys_object, sortKeys_object]
      congr 1
      have same : fields.map (fun field => (field.1, sortKeys le (sortKeys other field.2))) =
          fields := by
        refine (map_fixed fields).mpr fun field member => ?_
        rw [ih field member (sorted.2 field member) (distinct.2 field member)]
      have members : ((((fields.map fun field => (field.1, sortKeys other field.2)).mergeSort
          fun a b => other a.1 b.1).map fun field => (field.1, sortKeys le field.2)).mergeSort
            fun a b => le a.1 b.1).Perm fields := by
        refine (List.mergeSort_perm _ _).trans (((List.mergeSort_perm _ _).map _).trans ?_)
        rw [List.map_map]
        exact List.Perm.of_eq same
      refine List.Perm.eq_of_pairwise ?_ (mergeSort_arranged total trans _) sorted.1 members
      intro a b inside inside' below above
      have keys := antisymm a.1 b.1 below above
      exact List.inj_on_of_nodup_map distinct.1 (members.subset inside) inside' keys
  | _ => rfl

end order

end MbxCache.Json
