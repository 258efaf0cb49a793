import MbxCache.Storage.Filesystem
import MbxCache.UnixPath

/-! The paths of blobs (`storage/filesystem.rs`), as components below the root of a store and as
texts on a Unix file system. -/

namespace MbxCache

open UnixPath

instance : Alphabet UInt8 := ⟨47, 46, by decide⟩

/-- `str::is_char_boundary` -/
def isCharBoundary (text : Bytes) (index : Nat) : Bool :=
  index == 0 || index == text.length || text[index]?.any fun byte => byte < 128 || 192 ≤ byte

inductive PathError
  | invalid
  | panicked
  deriving DecidableEq, Repr

/-- `&text[..stop]`, which panics out of range and within a character. -/
def sliceTo (text : Bytes) (stop : Nat) : Except PathError Bytes :=
  if stop ≤ text.length ∧ isCharBoundary text stop = true then .ok (text.take stop)
  else .error .panicked

structure FilesystemStore where
  root : Bytes

/-- `FilesystemStore::path` -/
def FilesystemStore.path (store : FilesystemStore) (digest : Digest) : Except PathError Bytes :=
  if digest.validate then
    match digest.algorithmKind with
    | none => .error .invalid
    | some algorithm => do
        let front ← sliceTo (asBytes digest.hash) 2
        return join
          (join (join (join (join store.root (asBytes "blobs")) (asBytes algorithm.asStr)) front)
            (asBytes digest.hash))
          (asBytes (toString digest.size))
  else .error .invalid

def IsBlobPath (path : StorePath) : Prop := ∃ digest, blobPath digest = some path

theorem blobPath_some {digest : Digest} {path : StorePath} (named : blobPath digest = some path) :
    path = ["blobs", digest.algorithm, String.ofList (digest.hash.toList.take 2), digest.hash,
      toString digest.size] := by
  unfold blobPath at named
  split at named
  next =>
    obtain ⟨algorithm, kind, rfl⟩ := Option.map_eq_some_iff.mp named
    rw [(algorithmKind_asStr digest algorithm).mp kind]
  next => cases named

theorem blobPath_inj {one other : Digest} {path : StorePath} (first : blobPath one = some path)
    (second : blobPath other = some path) : one = other := by
  have same := (blobPath_some first).symm.trans (blobPath_some second)
  simp only [List.cons.injEq, and_true, true_and] at same
  obtain ⟨algorithm, -, hash, size⟩ := same
  have number : one.size.toNat = other.size.toNat := toString_inj.mp size
  cases one
  cases other
  simp_all [UInt64.toNat_inj]

theorem toString_digits {size : UInt64} {c : Char} (member : c ∈ (toString size).toList) :
    c.isDigit = true := by
  change c ∈ (Nat.repr size.toNat).toList at member
  rw [Nat.toList_repr] at member
  exact Nat.isDigit_of_mem_toDigits (by decide) (by decide) member

theorem blobPath_lasting {path : StorePath} (blob : IsBlobPath path) : temporary path = false := by
  obtain ⟨digest, named⟩ := blob
  rw [blobPath_some named, Bool.eq_false_iff]
  intro dotted
  have front : ".tmp".toList <+: (toString digest.size).toList :=
    List.isPrefixOf_iff_prefix.mp dotted
  exact absurd (toString_digits (front.subset (by decide : '.' ∈ ".tmp".toList))) (by decide)

theorem stagingPath_temporary (parent : StorePath) (random : String) :
    temporary (stagingPath parent random) = true := by
  simp [temporary, stagingPath]

theorem staging_notBlob (parent : StorePath) (random : String) :
    ¬ IsBlobPath (stagingPath parent random) := by
  intro blob
  have lasting := blobPath_lasting blob
  rw [stagingPath_temporary] at lasting
  cases lasting

theorem word_isName {text : String} (given : text ≠ "")
    (word : ∀ c ∈ text.toList, c.isAlphanum = true) : IsName (asBytes text) := by
  apply IsName.of_free
  · intro empty
    exact given (asBytes_injective empty)
  · intro member
    have dotted : '.' ∈ text.toList := mem_asBytes (by decide) member
    exact absurd (word _ dotted) (by decide)
  · intro member
    have slashed : '/' ∈ text.toList := mem_asBytes (by decide) member
    exact absurd (word _ slashed) (by decide)

theorem isLower_word {c : Char} (lower : Hex.isLower c = true) : c.isAlphanum = true := by
  simp only [Hex.isLower, Bool.or_eq_true, Bool.and_eq_true, decide_eq_true_eq] at lower
  rcases lower with ⟨above, below⟩ | ⟨above, below⟩
  · have digit : c.isDigit = true :=
      (Bool.and_eq_true _ _).mpr ⟨decide_eq_true above, decide_eq_true below⟩
    exact (Bool.or_eq_true _ _).mpr (.inr digit)
  · have letter : c.isLower = true :=
      (Bool.and_eq_true _ _).mpr
        ⟨decide_eq_true above, decide_eq_true (UInt32.le_trans below (by decide))⟩
    exact (Bool.or_eq_true _ _).mpr (.inl ((Bool.or_eq_true _ _).mpr (.inr letter)))

theorem slice_hash {hash : String} (long : 2 ≤ hash.toList.length)
    (word : ∀ c ∈ hash.toList, c.isAlphanum = true) :
    sliceTo (asBytes hash) 2 = .ok (asBytes (String.ofList (hash.toList.take 2))) := by
  have ascii : ∀ c ∈ hash.toList, c.val ≤ 127 := fun c member => isAlphanum_ascii (word c member)
  have bytes := asBytes_ascii ascii
  have front : asBytes (String.ofList (hash.toList.take 2)) = (asBytes hash).take 2 := by
    rw [bytes, ← List.map_take, asBytes_ascii, String.toList_ofList]
    intro c member
    rw [String.toList_ofList] at member
    exact ascii c (List.mem_of_mem_take member)
  have boundary : isCharBoundary (asBytes hash) 2 = true := by
    simp only [isCharBoundary, Bool.or_eq_true]
    by_cases ends : 2 = (asBytes hash).length
    · exact .inl (.inr (beq_iff_eq.mpr ends))
    · have further : 2 < hash.toList.length := by
        rw [bytes, List.length_map] at ends
        omega
      have low := UInt32.le_iff_toNat_le.mp (ascii _ (List.getElem_mem further))
      have small : (hash.toList[2].val.toUInt8) < 128 := by
        rw [UInt8.lt_iff_toNat_lt, UInt32.toNat_toUInt8]
        exact Nat.lt_of_le_of_lt (Nat.mod_le _ _) (Nat.lt_succ_of_le low)
      rw [bytes, List.getElem?_map, List.getElem?_eq_getElem further]
      exact .inr (by simpa using Or.inl small)
  unfold sliceTo
  rw [if_pos ⟨by rw [bytes, List.length_map]; exact long, boundary⟩, front]

/-- The path of a blob is its components joined to the root, and no slice ever panics. -/
theorem path_joins (store : FilesystemStore) (digest : Digest) :
    store.path digest =
      match blobPath digest with
      | none => .error .invalid
      | some names => .ok ((names.map asBytes).foldl join store.root) := by
  unfold FilesystemStore.path blobPath
  split
  next valid =>
    obtain ⟨⟨algorithm, kind⟩, long, lower⟩ := (validate_iff digest).mp valid
    have slice := slice_hash (by omega) fun c member => isLower_word (lower c member)
    rw [kind, slice]
    rfl
  next => rfl

theorem blobPath_valid {digest : Digest} {names : StorePath}
    (named : blobPath digest = some names) : digest.validate = true := by
  unfold blobPath at named
  split at named
  · assumption
  · cases named

theorem blobPath_names {digest : Digest} {names : StorePath}
    (named : blobPath digest = some names) : ∀ name ∈ names, IsName (asBytes name) := by
  obtain ⟨⟨algorithm, kind⟩, long, lower⟩ := (validate_iff digest).mp (blobPath_valid named)
  have word : ∀ c ∈ digest.hash.toList, c.isAlphanum = true :=
    fun c member => isLower_word (lower c member)
  have digits : ∀ c ∈ (toString digest.size).toList, c.isAlphanum = true := by
    intro c member
    rw [Char.isAlphanum, toString_digits member, Bool.or_true]
  have number : toString digest.size ≠ "" := by
    intro empty
    have digits : Nat.toDigits 10 digest.size.toNat = [] := by
      rw [← Nat.toList_repr]
      exact congrArg String.toList empty
    exact Nat.toDigits_ne_nil digits
  have hash : digest.hash ≠ "" := by
    intro empty
    rw [empty] at long
    cases long
  have front : String.ofList (digest.hash.toList.take 2) ≠ "" := by
    intro empty
    have short := congrArg (List.length ∘ String.toList) empty
    simp only [Function.comp, String.toList_ofList, List.length_take, long] at short
    cases short
  rw [blobPath_some named, (algorithmKind_asStr digest algorithm).mp kind]
  intro name member
  simp only [List.mem_cons, List.not_mem_nil, or_false] at member
  rcases member with rfl | rfl | rfl | rfl | rfl
  · exact word_isName (by decide) (List.all_eq_true.mp (by decide))
  · cases algorithm <;> exact word_isName (by decide) (List.all_eq_true.mp (by decide))
  · refine word_isName front fun c member => ?_
    rw [String.toList_ofList] at member
    exact word c (List.mem_of_mem_take member)
  · exact word_isName hash word
  · exact word_isName number digits

section
variable {store : FilesystemStore} {digest : Digest} {path : Bytes}

theorem path_named (found : store.path digest = .ok path) :
    ∃ names, blobPath digest = some names ∧
      components path = components store.root ++ (names.map asBytes).map .normal := by
  rw [path_joins] at found
  cases named : blobPath digest with
  | none =>
      rw [named] at found
      cases found
  | some names =>
      rw [named] at found
      cases found
      refine ⟨names, rfl, components_joins store.root fun name member => ?_⟩
      obtain ⟨text, present, rfl⟩ := List.mem_map.mp member
      exact blobPath_names named text present

theorem path_below (found : store.path digest = .ok path) :
    Below (join store.root (asBytes "blobs")) path := by
  obtain ⟨names, named, spelled⟩ := path_named found
  have whole : ∀ name ∈ names, IsName (asBytes name) := blobPath_names named
  have shape := blobPath_some named
  have blobs : IsName (asBytes "blobs") := whole "blobs" (shape ▸ List.mem_cons_self)
  refine ⟨names.tail.map asBytes, ?_, ?_, ?_⟩
  · rw [shape]
    exact List.cons_ne_nil _ _
  · intro name member
    obtain ⟨text, present, rfl⟩ := List.mem_map.mp member
    exact whole text (List.mem_of_mem_tail present)
  · rw [spelled, components_join_name store.root blobs, shape]
    simp

theorem path_inj {other : Digest} {there : Bytes} (found : store.path digest = .ok path)
    (also : store.path other = .ok there) (same : components path = components there) :
    digest = other := by
  obtain ⟨names, named, spelled⟩ := path_named found
  obtain ⟨others, named', spelled'⟩ := path_named also
  rw [spelled, spelled', List.append_cancel_left_eq] at same
  have bytes : names.map asBytes = others.map asBytes :=
    List.map_injective_iff.mpr (fun _ _ equal => Component.normal.inj equal) same
  obtain rfl : names = others :=
    List.map_injective_iff.mpr (fun _ _ equal => asBytes_injective equal) bytes
  exact blobPath_inj named named'

theorem path_depth (found : store.path digest = .ok path) :
    (components path).length = (components store.root).length + 5 := by
  obtain ⟨names, named, spelled⟩ := path_named found
  rw [spelled, blobPath_some named]
  simp

theorem path_not_above {other : Digest} {there : Bytes} (found : store.path digest = .ok path)
    (also : store.path other = .ok there) : ¬ Above path there := by
  rintro ⟨front, differ⟩
  exact differ (front.eq_of_length ((path_depth found).trans (path_depth also).symm))

/-- A path ends in a number, and that of a temporary file in the same directory does not. -/
theorem path_not_staging {other : Digest} {there directory : Bytes} (random : Bytes)
    (found : store.path digest = .ok path) (also : store.path other = .ok there)
    (parent : IsParent directory there) :
    components path ≠ components (join directory (asBytes ".tmp" ++ random)) := by
  intro same
  have long : 2 < (asBytes ".tmp").length := by decide
  have whole : Alphabet.slash ∉ asBytes ".tmp" := by decide
  obtain ⟨piece, more, staging⟩ := components_join_front directory long whole random
  obtain ⟨name, inside⟩ := parent
  -- The directory is one level up, so nothing follows the name of the temporary file.
  have depth : (components directory).length + 1 = (components store.root).length + 5 := by
    rw [← path_depth also, inside, List.length_append, List.length_singleton]
  have nothing : more = [] := by
    have lengths := congrArg List.length same
    rw [path_depth found, staging, List.length_append, List.length_cons] at lengths
    exact List.length_eq_zero_iff.mp (by omega)
  obtain ⟨names, named, spelled⟩ := path_named found
  have last : asBytes (toString digest.size) = asBytes ".tmp" ++ piece := by
    have ends := congrArg List.getLast? same
    rw [spelled, staging, nothing, blobPath_some named] at ends
    simpa using ends
  have dotted : '.' ∈ (toString digest.size).toList := by
    apply mem_asBytes (by decide)
    rw [last]
    exact List.mem_append_left piece (by decide)
  exact absurd (toString_digits dotted) (by decide)

end

/-- Blobs are kept apart. No slice of a hash panics; the path of every blob leads below the
directory of blobs and nowhere else; two blobs share no path, and neither lies in the way of the
other; and no temporary file has the path of a blob. -/
theorem blob_paths_apart (store : FilesystemStore) :
    (∀ digest, store.path digest ≠ .error .panicked) ∧
    (∀ digest path, store.path digest = .ok path →
      Below (join store.root (asBytes "blobs")) path) ∧
    (∀ one other here there, store.path one = .ok here → store.path other = .ok there →
      (components here = components there → one = other) ∧ ¬ Above here there ∧
        ¬ Above there here ∧
        ∀ directory random, IsParent directory there →
          components here ≠ components (join directory (asBytes ".tmp" ++ random))) := by
  refine ⟨?_, fun digest path found => path_below found, ?_⟩
  · intro digest
    rw [path_joins]
    intro panics
    split at panics <;> cases panics
  · intro one other here there found also
    exact ⟨path_inj found also, path_not_above found also, path_not_above also found,
      fun directory random parent => path_not_staging random found also parent⟩

end MbxCache
