import MbxCache.Encoding
import MbxCache.Json.Shape

/-! The compact text of a JSON value with whole numbers, and a reader of it. Members are
written and read in the order they have. -/

namespace MbxCache.Json

def shortEscapes : List (Char × Char) :=
  [('\x22', '\x22'), ('\x5c', '\x5c'), ('\x08', 'b'), ('\x09', 't'), ('\x0a', 'n'),
    ('\x0c', 'f'), ('\x0d', 'r')]

def escape (c : Char) : List Char :=
  match shortEscapes.lookup c with
  | some letter => ['\x5c', letter]
  | none =>
      if c.toNat < 32 then
        ['\x5c', 'u', '0', '0', Hex.digit (c.toNat / 16), Hex.digit (c.toNat % 16)]
      else [c]

def quote (text : String) : List Char := '\x22' :: (text.toList.flatMap escape ++ ['\x22'])

mutual

def render : Json → List Char
  | .null => ['n', 'u', 'l', 'l']
  | .bool true => ['t', 'r', 'u', 'e']
  | .bool false => ['f', 'a', 'l', 's', 'e']
  | .unsigned value => Nat.toDigits 10 value.toNat
  | .number text => text.toList
  | .string value => quote value
  | .array items => '[' :: renderItems items
  | .object fields => '{' :: renderMembers fields

def renderItems : List Json → List Char
  | [] => [']']
  | [item] => render item ++ [']']
  | item :: next :: rest => render item ++ ',' :: renderItems (next :: rest)

def renderMembers : List (String × Json) → List Char
  | [] => ['}']
  | [(key, value)] => quote key ++ ':' :: render value ++ ['}']
  | (key, value) :: next :: rest =>
      quote key ++ ':' :: render value ++ ',' :: renderMembers (next :: rest)

end

def unescape (letter : Char) : Option Char :=
  if letter = '/' then some '/'
  else (shortEscapes.find? fun pair => pair.2 = letter).map Prod.fst

def readString : List Char → Option (List Char × List Char)
  | [] => none
  | c :: rest =>
      if c = '\x22' then some ([], rest)
      else if c = '\x5c' then
        match rest with
        | 'u' :: first :: second :: third :: fourth :: rest => do
            let a ← Hex.value first
            let b ← Hex.value second
            let c ← Hex.value third
            let d ← Hex.value fourth
            let (text, rest) ← readString rest
            return (Char.ofNat (16 * (16 * (16 * a + b) + c) + d) :: text, rest)
        | letter :: rest => do
            let c ← unescape letter
            let (text, rest) ← readString rest
            return (c :: text, rest)
        | [] => none
      else do
        let (text, rest) ← readString rest
        return (c :: text, rest)

def readNumber (text : List Char) : Option (List Char × List Char) :=
  match text.takeWhile Char.isDigit with
  | [] => none
  | digits => some (digits, text.dropWhile Char.isDigit)

mutual

def readValue : Nat → List Char → Option (Json × List Char)
  | 0, _ => none
  | fuel + 1, text =>
      match text with
      | 'n' :: 'u' :: 'l' :: 'l' :: rest => some (.null, rest)
      | 't' :: 'r' :: 'u' :: 'e' :: rest => some (.bool true, rest)
      | 'f' :: 'a' :: 'l' :: 's' :: 'e' :: rest => some (.bool false, rest)
      | '\x22' :: rest => do
          let (value, rest) ← readString rest
          return (.string (String.ofList value), rest)
      | '[' :: ']' :: rest => some (.array [], rest)
      | '[' :: rest => do
          let (items, rest) ← readItems fuel rest
          return (.array items, rest)
      | '{' :: '}' :: rest => some (.object [], rest)
      | '{' :: rest => do
          let (fields, rest) ← readMembers fuel rest
          return (.object fields, rest)
      | '-' :: rest => do
          let (digits, rest) ← readNumber rest
          return (.number (String.ofList ('-' :: digits)), rest)
      | text => do
          let (digits, rest) ← readNumber text
          return (.unsigned (UInt64.ofNat (Nat.ofDigitChars 10 digits 0)), rest)

def readItems : Nat → List Char → Option (List Json × List Char)
  | 0, _ => none
  | fuel + 1, text => do
      let (item, rest) ← readValue fuel text
      match rest with
      | ']' :: rest => return ([item], rest)
      | ',' :: rest =>
          let (items, rest) ← readItems fuel rest
          return (item :: items, rest)
      | _ => none

def readMembers : Nat → List Char → Option (List (String × Json) × List Char)
  | 0, _ => none
  | fuel + 1, text => do
      let '\x22' :: text := text | none
      let (key, rest) ← readString text
      let ':' :: rest := rest | none
      let (value, rest) ← readValue fuel rest
      match rest with
      | '}' :: rest => return ([(String.ofList key, value)], rest)
      | ',' :: rest =>
          let (fields, rest) ← readMembers fuel rest
          return ((String.ofList key, value) :: fields, rest)
      | _ => none

end

def read (text : List Char) : Option Json :=
  match readValue text.length text with
  | some (value, []) => some value
  | _ => none

theorem shortEscapes_unescape : ∀ pair ∈ shortEscapes,
    pair.2 ≠ 'u' ∧ unescape pair.2 = some pair.1 := by
  decide

theorem readString_short (letter : Char) (rest : List Char) (plain : letter ≠ 'u') :
    readString ('\x5c' :: letter :: rest) = do
      let c ← unescape letter
      let (text, rest) ← readString rest
      return (c :: text, rest) := by
  rw [readString.eq_def]
  simp only [show ¬ ('\x5c' : Char) = '\x22' by decide, if_false, if_true]
  split
  next same => exact absurd (List.cons.inj same).1 plain
  next same =>
    cases same
    rfl
  next same => cases same

theorem readString_plain {c : Char} (rest : List Char) (open_ : c ≠ '\x22') (flat : c ≠ '\x5c') :
    readString (c :: rest) = (readString rest).map fun read => (c :: read.1, read.2) := by
  rw [readString.eq_def]
  simp only [if_neg open_, if_neg flat]
  cases readString rest <;> rfl

theorem readString_control {n : Nat} (small : n < 32) (rest : List Char) :
    readString ('\x5c' :: 'u' :: '0' :: '0' :: Hex.digit (n / 16) :: Hex.digit (n % 16) :: rest) =
      (readString rest).map fun read => (Char.ofNat n :: read.1, read.2) := by
  have zero : Hex.value '0' = some 0 := by decide
  have high : Hex.value (Hex.digit (n / 16)) = some (n / 16) := Hex.value_digit (by omega)
  have low : Hex.value (Hex.digit (n % 16)) = some (n % 16) := Hex.value_digit (by omega)
  have whole : 16 * (16 * (16 * 0 + 0) + n / 16) + n % 16 = n := by omega
  rw [readString.eq_def]
  simp only [show ¬ ('\x5c' : Char) = '\x22' by decide, if_false, if_true, zero, high, low, whole,
    Option.bind_eq_bind, Option.bind_some]
  cases readString rest <;> rfl

theorem readString_escape (c : Char) (rest : List Char) :
    readString (escape c ++ rest) = (readString rest).map fun read => (c :: read.1, read.2) := by
  unfold escape
  cases short : shortEscapes.lookup c with
  | some letter =>
      obtain ⟨front, back, listed, -⟩ := List.lookup_eq_some_iff.mp short
      have pair : (c, letter) ∈ shortEscapes := by simp [listed]
      obtain ⟨plain, back⟩ := shortEscapes_unescape _ pair
      simp only [List.cons_append, List.nil_append, readString_short letter rest plain, back,
        Option.bind_eq_bind, Option.bind_some]
      cases readString rest <;> rfl
  | none =>
      dsimp only
      split
      next small =>
        have read := readString_control small rest
        rw [Char.ofNat_toNat] at read
        exact read
      next =>
        have unlisted : ∀ pair ∈ shortEscapes, c ≠ pair.1 := by
          intro pair member same
          have found := List.lookup_eq_none_iff.mp short pair member
          simp [same] at found
        exact readString_plain rest (unlisted ('\x22', '\x22') (by decide))
          (unlisted ('\x5c', '\x5c') (by decide))

theorem readString_quoted (text rest : List Char) :
    readString (text.flatMap escape ++ '\x22' :: rest) = some (text, rest) := by
  induction text with
  | nil =>
      change readString ('\x22' :: rest) = _
      rw [readString.eq_def]
      rfl
  | cons c text ih =>
      rw [List.flatMap_cons, List.append_assoc, readString_escape, ih]
      rfl

def Stops (rest : List Char) : Prop := ∀ c ∈ rest.head?, c.isDigit = false

theorem readNumber_digits {digits rest : List Char} (some_ : digits ≠ [])
    (plain : ∀ c ∈ digits, c.isDigit = true) (stops : Stops rest) :
    readNumber (digits ++ rest) = some (digits, rest) := by
  have ended : rest.takeWhile Char.isDigit = [] ∧ rest.dropWhile Char.isDigit = rest := by
    cases rest with
    | nil => exact ⟨rfl, rfl⟩
    | cons c rest =>
        have last := stops c (by simp)
        exact ⟨List.takeWhile_cons_of_neg (by simp [last]),
          List.dropWhile_cons_of_neg (by simp [last])⟩
  unfold readNumber
  rw [List.takeWhile_append_of_pos plain, List.dropWhile_append_of_pos plain, ended.1, ended.2,
    List.append_nil]
  cases digits with
  | nil => exact absurd rfl some_
  | cons c digits => rfl

def plainNode : Json → Bool
  | .number text =>
      match text.toList with
      | '-' :: digits => !digits.isEmpty && digits.all Char.isDigit
      | _ => false
  | .null | .bool _ | .unsigned _ | .string _ | .array _ | .object _ => true

theorem plain_number {text : String} (plain : plainNode (.number text) = true) :
    ∃ digits, text = String.ofList ('-' :: digits) ∧ digits ≠ [] ∧
      ∀ c ∈ digits, c.isDigit = true := by
  simp only [plainNode] at plain
  split at plain
  next digits spelled =>
    simp only [Bool.and_eq_true, Bool.not_eq_true', List.isEmpty_eq_false_iff,
      List.all_eq_true] at plain
    exact ⟨digits, by rw [← spelled, String.ofList_toList], plain.1, plain.2⟩
  next => cases plain

theorem digits_unsigned (n : Nat) : Nat.toDigits 10 n ≠ [] ∧
    ∀ c ∈ Nat.toDigits 10 n, c.isDigit = true :=
  ⟨Nat.toDigits_ne_nil, fun _ member => Nat.isDigit_of_mem_toDigits (by decide) (by decide) member⟩

section reading

variable {fuel : Nat} {rest : List Char}

theorem readValue_digit {c : Char} (digit : c.isDigit = true) :
    readValue (fuel + 1) (c :: rest) = (readNumber (c :: rest)).map fun read =>
      (.unsigned (UInt64.ofNat (Nat.ofDigitChars 10 read.1 0)), read.2) := by
  rw [readValue]
  · cases readNumber (c :: rest) <;> rfl
  all_goals
    intro tail same
    cases same
    exact absurd digit (by decide)

theorem readValue_items (closed : rest.head? ≠ some ']') :
    readValue (fuel + 1) ('[' :: rest) = (readItems fuel rest).map fun read =>
      (.array read.1, read.2) := by
  rw [readValue]
  · cases readItems fuel rest <;> rfl
  · rintro tail rfl
    exact closed rfl

theorem readValue_members (closed : rest.head? ≠ some '}') :
    readValue (fuel + 1) ('{' :: rest) = (readMembers fuel rest).map fun read =>
      (.object read.1, read.2) := by
  rw [readValue]
  · cases readMembers fuel rest <;> rfl
  · rintro tail rfl
    exact closed rfl

end reading

theorem render_open {value : Json} (plain : every plainNode value = true) (rest : List Char) :
    (render value ++ rest).head? ≠ some ']' := by
  cases value with
  | bool b => cases b <;> simp [render]
  | unsigned n =>
      obtain ⟨some_, digits⟩ := digits_unsigned n.toNat
      rw [render]
      cases spelled : Nat.toDigits 10 n.toNat with
      | nil => exact absurd spelled some_
      | cons c others =>
          have digit := digits c (by simp [spelled])
          intro same
          rw [List.cons_append, List.head?_cons, Option.some.injEq] at same
          rw [same] at digit
          exact absurd digit (by decide)
  | number text =>
      obtain ⟨digits, rfl, -⟩ := plain_number plain
      simp [render]
  | _ => simp [render, quote]

/-- What is written is read back, whatever follows it. -/
def ReadsBack (value : Json) : Prop :=
  ∀ (fuel : Nat) (rest : List Char), (render value).length ≤ fuel → Stops rest →
    readValue fuel (render value ++ rest) = some (value, rest)

theorem stops_cons {c : Char} (rest : List Char) (other : c.isDigit = false) : Stops (c :: rest) := by
  intro first same
  rw [← Option.some.inj same]
  exact other

theorem readItems_render : ∀ (items : List Json), items ≠ [] → (∀ item ∈ items, ReadsBack item) →
    ∀ (fuel : Nat) (rest : List Char), (renderItems items).length ≤ fuel →
      readItems fuel (renderItems items ++ rest) = some (items, rest)
  | [item], _, back, fuel, rest, enough => by
      rw [renderItems, List.length_append, List.length_singleton] at enough
      obtain _ | fuel := fuel
      · omega
      · have one := back item (by simp) fuel (']' :: rest) (by omega) (stops_cons rest rfl)
        rw [renderItems, List.append_assoc, List.singleton_append, readItems, one]
        rfl
  | item :: next :: others, _, back, fuel, rest, enough => by
      rw [renderItems, List.length_append, List.length_cons] at enough
      obtain _ | fuel := fuel
      · omega
      · have one := back item (by simp) fuel (',' :: (renderItems (next :: others) ++ rest))
          (by omega) (stops_cons _ rfl)
        have more := readItems_render (next :: others) (by simp)
          (fun item member => back item (List.mem_cons_of_mem _ member)) fuel rest (by omega)
        rw [renderItems, List.append_assoc, List.cons_append, readItems, one]
        simp only [Option.bind_eq_bind, Option.bind_some, more]
        rfl

theorem quote_append (text : String) (rest : List Char) :
    quote text ++ rest = '\x22' :: (text.toList.flatMap escape ++ '\x22' :: rest) := by
  simp [quote]

theorem readMembers_render : ∀ (fields : List (String × Json)), fields ≠ [] →
    (∀ field ∈ fields, ReadsBack field.2) →
    ∀ (fuel : Nat) (rest : List Char), (renderMembers fields).length ≤ fuel →
      readMembers fuel (renderMembers fields ++ rest) = some (fields, rest)
  | [(key, value)], _, back, fuel, rest, enough => by
      simp only [renderMembers, List.length_append, List.length_cons, List.length_nil] at enough
      obtain _ | fuel := fuel
      · omega
      · have one := back (key, value) (by simp) fuel ('}' :: rest) (by dsimp only; omega)
          (stops_cons rest rfl)
        rw [renderMembers, List.append_assoc, List.append_assoc, quote_append, List.cons_append,
          readMembers]
        simp only [readString_quoted, Option.bind_eq_bind, Option.bind_some, List.singleton_append,
          one]
        simp
  | (key, value) :: next :: others, _, back, fuel, rest, enough => by
      simp only [renderMembers, List.length_append, List.length_cons] at enough
      obtain _ | fuel := fuel
      · omega
      · have one := back (key, value) (by simp) fuel
          (',' :: (renderMembers (next :: others) ++ rest)) (by dsimp only; omega) (stops_cons _ rfl)
        have more := readMembers_render (next :: others) (by simp)
          (fun field member => back field (List.mem_cons_of_mem _ member)) fuel rest (by omega)
        rw [renderMembers, List.append_assoc, List.append_assoc, quote_append, List.cons_append,
          List.cons_append, readMembers]
        simp only [readString_quoted, Option.bind_eq_bind, Option.bind_some, one, more,
          String.ofList_toList]
        rfl

theorem readValue_render (value : Json) (plain : every plainNode value = true) :
    ReadsBack value := by
  induction value using induct with
  | null =>
      intro fuel rest enough _
      obtain _ | fuel := fuel
      · simp [render] at enough
      · rfl
  | bool b =>
      intro fuel rest enough _
      obtain _ | fuel := fuel
      · cases b <;> simp [render] at enough
      · cases b <;> rfl
  | unsigned n =>
      intro fuel rest enough stops
      obtain ⟨some_, digits⟩ := digits_unsigned n.toNat
      have read := readNumber_digits some_ digits stops
      rw [render] at enough ⊢
      cases spelled : Nat.toDigits 10 n.toNat with
      | nil => exact absurd spelled some_
      | cons c others =>
          obtain _ | fuel := fuel
          · simp [spelled] at enough
          · rw [spelled] at read digits
            rw [List.cons_append] at read ⊢
            rw [readValue_digit (digits c List.mem_cons_self), read, ← spelled]
            simp [Nat.ofDigitChars_ten_toDigits]
  | number text =>
      intro fuel rest enough stops
      obtain ⟨digits, rfl, some_, plain⟩ := plain_number plain
      rw [render, String.toList_ofList] at enough ⊢
      obtain _ | fuel := fuel
      · simp at enough
      · rw [List.cons_append, readValue, readNumber_digits some_ plain stops]
        rfl
  | string text =>
      intro fuel rest enough _
      obtain _ | fuel := fuel
      · simp [render, quote] at enough
      · rw [render, quote, List.cons_append, List.append_assoc, List.singleton_append, readValue,
          readString_quoted]
        simp
  | array items ih =>
      intro fuel rest enough _
      have inner := (every_array.mp plain).2
      obtain _ | fuel := fuel
      · simp [render] at enough
      · cases items with
        | nil => rfl
        | cons item others =>
            rw [render, List.length_cons] at enough
            have read := readItems_render (item :: others) (by simp)
              (fun one member => ih one member (inner one member)) fuel rest (by omega)
            rw [render, List.cons_append, readValue_items, read]
            · rfl
            · cases others with
              | nil =>
                  rw [renderItems, List.append_assoc]
                  exact render_open (inner item (by simp)) _
              | cons next others =>
                  rw [renderItems, List.append_assoc]
                  exact render_open (inner item (by simp)) _
  | object fields ih =>
      intro fuel rest enough _
      have inner := (every_object.mp plain).2
      obtain _ | fuel := fuel
      · simp [render] at enough
      · cases fields with
        | nil => rfl
        | cons field others =>
            rw [render, List.length_cons] at enough
            have read := readMembers_render (field :: others) (by simp)
              (fun one member => ih one member (inner one member)) fuel rest (by omega)
            rw [render, List.cons_append, readValue_members, read]
            · rfl
            · cases others <;> simp [renderMembers, quote]

theorem read_render {value : Json} (plain : every plainNode value = true) :
    read (render value) = some value := by
  have back := readValue_render value plain (render value).length [] le_rfl (by simp [Stops])
  rw [List.append_nil] at back
  simp only [read, back]

/-- A text is that of one value only. -/
theorem render_injective {one other : Json} (plain : every plainNode one = true)
    (plain' : every plainNode other = true) (same : render one = render other) : one = other := by
  have read := (read_render plain).symm.trans (same ▸ read_render plain')
  exact Option.some.inj read

end MbxCache.Json
