import Mathlib.Data.List.Lex
import Mathlib.Data.String.Basic
import MbxCache.Json.Text
import MbxCache.Metadata.Memory
import MbxCache.Server.Publishing
import MbxCache.Server.Undisturbed
import MbxCache.Specimen

/-! The two serializers of JSON the server calls canonical: `canonical_json`, which writes
manifests, and `serde_json::to_vec`, which checks descriptors and metadata. -/

namespace MbxCache

namespace Json

def utf16Units (c : Char) : List Nat :=
  if c.toNat < 0x10000 then [c.toNat]
  else [0xD800 + (c.toNat - 0x10000) / 0x400, 0xDC00 + (c.toNat - 0x10000) % 0x400]

def utf16Le (one other : String) : Bool :=
  decide (one.toList.flatMap utf16Units ≤ other.toList.flatMap utf16Units)

/-- Keys by their bytes, which is by their code points: the order of a `BTreeMap<String, _>`. -/
def utf8Le (one other : String) : Bool := decide (one ≤ other)

/-- A number is whole and at most 2^53 in magnitude. A negative one is a sign and the digits of
its magnitude. -/
def integralNode : Json → Bool
  | .unsigned value => decide (value.toNat ≤ 2 ^ 53)
  | .number text =>
      match text.toList with
      | '-' :: digits =>
          let magnitude := Nat.ofDigitChars 10 digits 0
          decide (digits = Nat.toDigits 10 magnitude ∧ 0 < magnitude ∧ magnitude ≤ 2 ^ 53)
      | _ => false
  | .null | .bool _ | .string _ | .array _ | .object _ => true

theorem plain_integral (node : Json) (integral : integralNode node = true) :
    plainNode node = true := by
  cases node with
  | number text =>
      simp only [integralNode, plainNode] at integral ⊢
      split at integral
      next digits spelled =>
        obtain ⟨same, -⟩ := of_decide_eq_true integral
        have digits' := digits_unsigned (Nat.ofDigitChars 10 digits 0)
        rw [← same] at digits'
        simpa only [spelled, Bool.and_eq_true, List.all_eq_true, Bool.not_eq_true',
          List.isEmpty_eq_false_iff] using digits'
      next => cases integral
  | _ => rfl

section orders

theorem utf16Le_total (one other : String) : (utf16Le one other || utf16Le other one) = true := by
  simpa [utf16Le] using le_total _ _

theorem utf16Le_trans (one other third : String) (first : utf16Le one other = true)
    (second : utf16Le other third = true) : utf16Le one third = true := by
  simp only [utf16Le, decide_eq_true_eq] at first second ⊢
  exact first.trans second

theorem utf8Le_total (one other : String) : (utf8Le one other || utf8Le other one) = true := by
  simpa [utf8Le] using le_total one other

theorem utf8Le_trans (one other third : String) (first : utf8Le one other = true)
    (second : utf8Le other third = true) : utf8Le one third = true := by
  simp only [utf8Le, decide_eq_true_eq] at first second ⊢
  exact first.trans second

theorem utf8Le_antisymm (one other : String) (first : utf8Le one other = true)
    (second : utf8Le other one = true) : one = other := by
  simp only [utf8Le, decide_eq_true_eq] at first second
  exact le_antisymm first second

end orders

section sorting

variable {le : String → String → Bool} (value : Json)

theorem integral_sortKeys : every integralNode (sortKeys le value) = every integralNode value :=
  every_sortKeys (fun _ => rfl) (fun _ => rfl) value

theorem distinct_sortKeys : every distinctNode (sortKeys le value) = every distinctNode value := by
  refine every_sortKeys (fun _ => rfl) (fun fields => ?_) value
  have keys := (List.mergeSort_perm (fields.map fun field => (field.1, sortKeys le field.2))
    fun a b => le a.1 b.1).map Prod.fst
  rw [List.map_map] at keys
  rw [sortKeys_object, distinctNode, distinctNode, decide_eq_decide]
  exact keys.nodup_iff

end sorting
end Json

open Json

/-- The protocol crate's `canonical_json` (RFC 8785) of a value with whole numbers: members by
the UTF-16 code units of their keys, no blanks, the shortest escapes. -/
def canonicalJson (value : Json) : Bytes :=
  asBytes (String.ofList (render (sortKeys utf16Le value)))

/-- `serde_json` without an insertion-order feature, on values with whole numbers: it writes the
members of an object in the map's order, and reads a text into maps, up to a depth. -/
class SerdeJson extends Protocol where
  recursionLimit : Nat
  writeValue_render : ∀ value, every integralNode value = true →
    writeValue value = asBytes (String.ofList (render value))
  parseValue_render : ∀ value, every integralNode value = true →
    every distinctNode value = true → within recursionLimit value = true →
    parseValue (asBytes (String.ofList (render value))) = some (sortKeys utf8Le value)

/-- A JSON object as `serde_json` holds it, with whole numbers, which the parser's depth and the
limit on objects admit. -/
structure CanonicalObject [SerdeJson] where
  value : Json
  object : value.asObject.isSome = true
  integral : every integralNode value = true
  sorted : every (sortedNode utf8Le) value = true
  distinct : every distinctNode value = true
  nested : within SerdeJson.recursionLimit value = true
  small : (canonicalJson value).length ≤ maxObjectBytes

structure VisibleBlob [Protocol] (M : Type) [MetadataStore M] (bytes : Bytes) where
  ns : String
  digest : Digest
  state : ServerState M
  valid : MetadataStore.valid state.metadata
  checked : digest.validate = true
  names : digest.Names bytes
  seen : state.Sees ns digest
  stored : state.blobs digest = some bytes

section
variable [Protocol] {M : Type} [MetadataStore M] {bytes : Bytes}

def VisibleBlob.Yields (blob : VisibleBlob M bytes) (label : String) (value : Json) : Prop :=
  (readCanonicalObject blob.ns blob.digest label).Answers (fun result _ => result = .ok value)
    blob.state

theorem VisibleBlob.reads (blob : VisibleBlob M bytes) (label : String) :
    (readCanonicalObject blob.ns blob.digest label).Answers (fun result _ =>
      result = if maxObjectBytes < bytes.length then
          .error (.unprocessable s!"{label} is too large")
        else parseCanonicalObject label bytes) blob.state := by
  have checked : validateDigest blob.digest = .ok () := if_pos blob.checked
  rw [readCanonicalObject, checked, Handler.pureStep_ok, ← blob.names.1]
  by_cases large : maxObjectBytes < bytes.length
  · rw [if_pos large, if_pos large]
    exact Handler.Answers.refuse rfl
  · rw [if_neg large, if_neg large]
    apply Handler.Answers.bind (readVisible_answers blob.valid blob.digest _)
    · intro error after absent
      exact absurd ⟨blob.seen, by rw [blob.stored]; rfl⟩ absent
    · rintro read after ⟨rfl, -, present⟩
      cases blob.stored.symm.trans present
      exact Handler.Answers.pureStep rfl

theorem VisibleBlob.yields_iff {blob : VisibleBlob M bytes} {label : String} {value : Json} :
    blob.Yields label value ↔
      bytes.length ≤ maxObjectBytes ∧ parseCanonicalObject label bytes = .ok value := by
  have reads := blob.reads label
  constructor
  · intro yields
    obtain ⟨result, after, judged, accepted⟩ := Handler.Answers.comes (reads.and yields)
    rw [accepted] at judged
    split at judged
    · cases judged
    · next within => exact ⟨not_lt.mp within, judged.symm⟩
  · rintro ⟨small, parsed⟩
    apply reads.mono
    intro result after judged
    rw [judged, if_neg (not_lt.mpr small), parsed]

/-- Accepted bytes are what `serde_json::to_vec` makes of their value. -/
theorem parseCanonicalObject_written {label : String} {value : Json}
    (parsed : parseCanonicalObject label bytes = .ok value) : Protocol.writeValue value = bytes := by
  rw [parseCanonicalObject, parseCanonicalObject_parsed parsed] at parsed
  simp only [Bool.or_eq_true, decide_eq_true_eq] at parsed
  split at parsed
  · cases parsed
  · next accepted => exact not_not.mp (not_or.mp accepted).2

end

section
variable [SerdeJson]

namespace CanonicalObject

variable (object : CanonicalObject)

/-- `serde_json` reads canonical JSON back, whatever order the members were written in. -/
theorem parse_canonical : Protocol.parseValue (canonicalJson object.value) = some object.value := by
  rw [canonicalJson, SerdeJson.parseValue_render]
  · rw [sortKeys_again utf8Le_total utf8Le_trans utf8Le_antisymm utf16Le object.value object.sorted
      object.distinct]
  · rw [integral_sortKeys, object.integral]
  · rw [distinct_sortKeys, object.distinct]
  · rw [within_sortKeys, object.nested]

/-- The two serializers agree exactly on objects that are sorted for both. -/
theorem write_canonical : Protocol.writeValue object.value = canonicalJson object.value ↔
    every (sortedNode utf16Le) object.value = true := by
  have plain := every_mono plain_integral object.value object.integral
  have plain' : every plainNode (sortKeys utf16Le object.value) = true :=
    every_mono plain_integral _ (by rw [integral_sortKeys, object.integral])
  rw [SerdeJson.writeValue_render _ object.integral, ← sortKeys_fixed utf16Le_total utf16Le_trans]
  constructor
  · intro same
    exact (render_injective plain plain' (String.ofList_injective (asBytes_injective same))).symm
  · intro fixed
    rw [canonicalJson, fixed]

theorem judge_canonical (label : String) :
    parseCanonicalObject label (canonicalJson object.value) =
      if every (sortedNode utf16Le) object.value then .ok object.value
      else .error (.unprocessable s!"{label} is not canonical JSON") := by
  have isObject : object.value.asObject.isNone = false := by
    rw [Option.isNone_eq_false_iff, object.object]
  rw [parseCanonicalObject, object.parse_canonical]
  by_cases sorted : every (sortedNode utf16Le) object.value = true
  · have written := object.write_canonical.mpr sorted
    simp [isObject, written, sorted]
  · have differs := mt object.write_canonical.mp sorted
    simp [differs, sorted]

theorem accepts_canonical (label : String) :
    parseCanonicalObject label (canonicalJson object.value) = .ok object.value ↔
      every (sortedNode utf16Le) object.value = true := by
  rw [object.judge_canonical]
  split <;> simp [*]

/-- What `serde_json::to_vec` makes of an object is accepted. -/
theorem accepts_written (label : String) :
    parseCanonicalObject label (Protocol.writeValue object.value) = .ok object.value := by
  have isObject : object.value.asObject.isNone = false := by
    rw [Option.isNone_eq_false_iff, object.object]
  have read : Protocol.parseValue (Protocol.writeValue object.value) = some object.value := by
    rw [SerdeJson.writeValue_render _ object.integral, SerdeJson.parseValue_render _ object.integral
      object.distinct object.nested, (sortKeys_fixed utf8Le_total utf8Le_trans _).mpr object.sorted]
  simp [parseCanonicalObject, read, isObject]

end CanonicalObject

/-- The blob of `canonical_json` is accepted, and is the only one accepted for its object, exactly
if in every object within it the keys have the same order by UTF-16 code units as by bytes. -/
theorem one_canonical_form {M : Type} [MetadataStore M] (label : String) (object : CanonicalObject)
    (blob : VisibleBlob M (canonicalJson object.value)) :
    (blob.Yields label object.value ∧
      ∀ bytes (other : VisibleBlob M bytes), other.Yields label object.value →
        bytes = canonicalJson object.value) ↔
      every (sortedNode utf16Le) object.value = true := by
  constructor
  · rintro ⟨accepted, -⟩
    exact (object.accepts_canonical label).mp (VisibleBlob.yields_iff.mp accepted).2
  · intro sorted
    refine ⟨VisibleBlob.yields_iff.mpr ⟨object.small, (object.accepts_canonical label).mpr sorted⟩,
      fun bytes other yields => ?_⟩
    rw [← parseCanonicalObject_written (VisibleBlob.yields_iff.mp yields).2,
      object.write_canonical.mpr sorted]

end

section Example

/-- The value `serde_json` reads from a text. -/
def Specimen.parseValue (bytes : Bytes) : Option Json := do
  let text ← String.fromUTF8? ⟨bytes.toArray⟩
  let value ← read text.toList
  if every distinctNode value && within 127 value then some (sortKeys utf8Le value) else none

theorem fromUTF8_asBytes (text : String) : String.fromUTF8? ⟨(asBytes text).toArray⟩ = some text := by
  have bytes : (⟨(asBytes text).toArray⟩ : ByteArray) = text.toByteArray := by
    rw [asBytes, Array.toArray_toList]
  rw [bytes, String.fromUTF8?, dif_pos text.isValidUTF8]
  rfl

theorem Specimen.parseValue_render (value : Json) (integral : every integralNode value = true)
    (distinct : every distinctNode value = true) (nested : within 127 value = true) :
    parseValue (asBytes (String.ofList (render value))) = some (sortKeys utf8Le value) := by
  have plain := every_mono plain_integral value integral
  simp only [parseValue, fromUTF8_asBytes, Option.bind_eq_bind, Option.bind_some,
    String.toList_ofList, read_render plain, distinct, nested, Bool.and_true, if_true]

def faceFirst : Bytes :=
  [123, 34, 240, 159, 152, 128, 34, 58, 48, 44, 34, 239, 172, 129, 34, 58, 48, 125]

/-- U+FB01 before U+1F600, as `serde_json` orders them. -/
def ligatureFirst : Bytes :=
  [123, 34, 239, 172, 129, 34, 58, 48, 44, 34, 240, 159, 152, 128, 34, 58, 48, 125]

def faceFirstBlake3 : String := "700da42d24db58b5affa9fad53acb0cb71d89543ff56e0f50580b441f6982fc2"

def ligatureFirstBlake3 : String :=
  "b4a35728c1da82e21feff883cbce195798c2f243456bce92e3d6825a5cbdead4"

/-- A protocol that knows two texts of one value, with JSON as `serde_json` has it. -/
abbrev Specimen.serdeJson : SerdeJson where
  toProtocol := { Specimen.protocol with
    blake3 := hasher [(faceFirst, faceFirstBlake3), (ligatureFirst, ligatureFirstBlake3)]
    parseValue := Specimen.parseValue
    writeValue := fun value => asBytes (String.ofList (render value)) }
  recursionLimit := 127
  writeValue_render _ _ := rfl
  parseValue_render := Specimen.parseValue_render

attribute [local instance] Specimen.serdeJson

/-- Two keys, U+FB01 and U+1F600: the second has the larger code point and the smaller first
UTF-16 code unit. -/
def ligatureFace : Json := .object [("ﬁ", .unsigned 0), ("😀", .unsigned 0)]

theorem ligatureFace_sorted :
    sortKeys utf16Le ligatureFace = .object [("😀", .unsigned 0), ("ﬁ", .unsigned 0)] := by
  have keys : utf16Le "ﬁ" "😀" = false := by decide +kernel
  rw [ligatureFace, sortKeys_object]
  simp [List.mergeSort, List.MergeSort.Internal.splitInTwo, sortKeys, keys]

theorem ligatureFace_canonical : canonicalJson ligatureFace = faceFirst := by
  rw [canonicalJson, ligatureFace_sorted]
  decide +kernel

def ligatureFaceObject : CanonicalObject where
  value := ligatureFace
  object := rfl
  integral := by decide +kernel
  sorted := by decide +kernel
  distinct := by decide +kernel
  nested := by decide +kernel
  small := by rw [ligatureFace_canonical]; decide

def onlyBlob (bytes : Bytes) (digest : Digest) (checked : digest.validate = true)
    (names : digest.Names bytes) : VisibleBlob MemoryMetadata bytes where
  ns := "team"
  digest := digest
  state := ⟨fun other => if other = digest then some bytes else none,
    ⟨fun _ _ => none, fun ns other => ns == "team" && other == digest, fun _ _ => none⟩⟩
  valid _ _ _ stored := by cases stored
  checked := checked
  names := names
  seen := by simp [ServerState.Sees, ServerState.view, MetadataStore.view, MemoryMetadata.view]
  stored := if_pos rfl

def faceFirstDigest : Digest := ⟨"blake3", faceFirstBlake3, 18⟩

def ligatureFirstDigest : Digest := ⟨"blake3", ligatureFirstBlake3, 18⟩

theorem faceFirstDigest_names : faceFirstDigest.Names (canonicalJson ligatureFace) := by
  rw [ligatureFace_canonical]
  exact ⟨rfl, .blake3, rfl, by decide +kernel⟩

theorem ligatureFirst_written : Protocol.writeValue ligatureFace = ligatureFirst := by
  decide +kernel

theorem ligatureFirstDigest_names :
    ligatureFirstDigest.Names (Protocol.writeValue ligatureFace) := by
  rw [ligatureFirst_written]
  exact ⟨rfl, .blake3, rfl, by decide +kernel⟩

/-- The manifest serializer's form of an object is refused as a descriptor, and another form is
accepted. -/
theorem canonical_form_refused : ∃ (object : CanonicalObject)
    (blob : VisibleBlob MemoryMetadata (canonicalJson object.value)),
    (readCanonicalObject blob.ns blob.digest "action descriptor").Answers (fun result _ =>
      result = .error (.unprocessable "action descriptor is not canonical JSON")) blob.state ∧
    ∃ bytes, ∃ other : VisibleBlob MemoryMetadata bytes,
      other.Yields "action descriptor" object.value ∧ bytes ≠ canonicalJson object.value := by
  have unsorted : every (sortedNode utf16Le) ligatureFaceObject.value = false := by decide +kernel
  let written := Protocol.writeValue ligatureFace
  have differs : written ≠ canonicalJson ligatureFace := by
    intro same
    have sorted := ligatureFaceObject.write_canonical.mp same
    rw [unsorted] at sorted
    cases sorted
  refine ⟨ligatureFaceObject,
    onlyBlob _ faceFirstDigest (by decide +kernel) faceFirstDigest_names, ?_, written,
    onlyBlob written ligatureFirstDigest (by decide +kernel) ligatureFirstDigest_names, ?_, differs⟩
  · apply (VisibleBlob.reads _ _).mono
    intro result after judged
    rw [judged, if_neg (not_lt.mpr ligatureFaceObject.small), ligatureFaceObject.judge_canonical,
      unsorted]
    rfl
  · refine VisibleBlob.yields_iff.mpr ⟨by decide +kernel,
      ligatureFaceObject.accepts_written _⟩

end Example
end MbxCache
