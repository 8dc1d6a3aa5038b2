import GroupFlattening.Json.Value
import GroupFlattening.Proofs.Json.Token

/-!
# JSON Values Read Back

The machine that reads values takes one step for each token (`Step`), so it can be followed along a
text piece by piece. A well-formed value is passed in one piece: wherever a value may stand, the
machine comes from the beginning of its written form to the end with this value complete
(`IsWellFormed.readsBack`), by induction on the value, with an inner induction along the items of an
array and the fields of an object. Hence a value is read back from its text (`ofChars?_written`).
-/

namespace GroupFlattening.Json

/-- The key that a text is written as stands for this text. -/
theorem key?_map_ofChar (s : String) : key? (s.toList.map TextUnit.ofChar) = some s := by
  rw [key?, TextUnit.decode_map_ofChar, Option.map_some, String.ofList_toList]

namespace Value

open Token (EndsNumber)

/-! ## Steps of the machine -/

/-- Where a value may begin, and the arrays and objects that are open inside it. -/
inductive Opens : Expectation → List Frame → List Frame → Prop where
  | value (stack : List Frame) : Opens .value stack stack
  | firstItem (stack : List Frame) : Opens .firstItem stack (.items [] :: stack)

/-- What the machine does with one token. -/
inductive Step : Expectation → List Frame → Token → Expectation → List Frame → Prop where
  -- where a value may begin
  | null {e : Expectation} {s t : List Frame} (h : Opens e s t) : Step e s .null (.after .null) t
  | boolean {e : Expectation} {s t : List Frame} (h : Opens e s t) (b : Bool) :
    Step e s (.boolean b) (.after (.boolean b)) t
  | number {e : Expectation} {s t : List Frame} (h : Opens e s t) (written : List Char) :
    Step e s (.number written) (.after (.number written)) t
  | text {e : Expectation} {s t : List Frame} (h : Opens e s t) (units : List TextUnit) :
    Step e s (.text units) (.after (.text units)) t
  | beginArray {e : Expectation} {s t : List Frame} (h : Opens e s t) :
    Step e s .beginArray .firstItem t
  | beginObject {e : Expectation} {s t : List Frame} (h : Opens e s t) :
    Step e s .beginObject .firstKey t
  -- in an array
  | endEmptyArray (s : List Frame) : Step .firstItem s .endArray (.after (.array [])) s
  | nextItem (v : Value) (before : List Value) (s : List Frame) :
    Step (.after v) (.items before :: s) .comma .value (.items (v :: before) :: s)
  | endArray (v : Value) (before : List Value) (s : List Frame) :
    Step (.after v) (.items before :: s) .endArray (.after (.array (v :: before).reverse)) s
  -- in an object
  | endEmptyObject (s : List Frame) : Step .firstKey s .endObject (.after (.object [])) s
  | firstKey (key : List TextUnit) (s : List Frame) :
    Step .firstKey s (.text key) (.colon [] key) s
  | key (before : List (List TextUnit × Value)) (key : List TextUnit) (s : List Frame) :
    Step (.key before) s (.text key) (.colon before key) s
  | colon (before : List (List TextUnit × Value)) (key : List TextUnit) (s : List Frame) :
    Step (.colon before key) s .colon .value (.fields before key :: s)
  | nextField (v : Value) (before : List (List TextUnit × Value)) (key : List TextUnit)
    (s : List Frame) :
    Step (.after v) (.fields before key :: s) .comma (.key ((key, v) :: before)) s
  | endObject (v : Value) (before : List (List TextUnit × Value)) (key : List TextUnit)
    (s : List Frame) :
    Step (.after v) (.fields before key :: s) .endObject
      (.after (.object ((key, v) :: before).reverse)) s

variable {expected expected' : Expectation} {stack stack' : List Frame} {token : Token}
  {rest : List Char} {depth : Nat}

theorem readFrom_of_step (h : Step expected stack token expected' stack') (tokens : List Token) :
    readFrom expected stack (token :: tokens) = readFrom expected' stack' tokens := by
  cases h with
  | null h | boolean h | number h | text h | beginArray h | beginObject h =>
    cases h <;> simp only [readFrom]
  | _ => simp only [readFrom]

/-! ## Pieces of a text -/

/-- Reads a text to its end, with the given arrays and objects open. -/
def readText (expected : Expectation) (stack : List Frame) (chars : List Char) : Option Value :=
  (Token.ofChars? chars).bind (readFrom expected stack)

/-- One token is one step. -/
theorem readText_of_step {chars : List Char} (h : Step expected stack token expected' stack')
    (hnext : Token.next? chars = some (token, rest)) :
    readText expected stack chars = readText expected' stack' rest := by
  rw [readText, readText, Token.ofChars?_of_next? hnext, Option.bind_map]
  exact congrArg _ (funext (readFrom_of_step h))

theorem readText_mark {c : Char} (h : Step expected stack token expected' stack')
    (hmark : Token.ofMark? c = some token) :
    readText expected stack (c :: rest) = readText expected' stack' rest :=
  readText_of_step h (Token.next?_mark hmark rest)

theorem readText_quoted {units : List TextUnit}
    (h : Step expected stack (.text units) expected' stack')
    (hunits : ∀ unit ∈ units, unit.IsWritable) :
    readText expected stack (quoted units ++ rest) = readText expected' stack' rest := by
  refine readText_of_step h ?_
  rw [quoted, List.append_assoc]
  exact Token.next?_text hunits rest

theorem readText_space {c : Char} (h : Token.isSpace c = true) :
    readText expected stack (c :: rest) = readText expected stack rest := by
  rw [readText, readText, Token.ofChars?_space h]

theorem readText_newLine :
    readText expected stack (newLine depth ++ rest) = readText expected stack rest := by
  rw [newLine, List.cons_append, readText_space rfl]
  induction 2 * depth with
  | zero => rfl
  | succ n ih => rw [List.replicate_succ, List.cons_append, readText_space rfl, ih]

/-! ## Well-formed values -/

/-- Whether a value has a written form that is read as this value. -/
inductive IsWellFormed : Value → Prop where
  | null : IsWellFormed .null
  | boolean (b : Bool) : IsWellFormed (.boolean b)
  | number {written : List Char} (h : Token.isNumber written = true) :
    IsWellFormed (.number written)
  | text {units : List TextUnit} (h : ∀ unit ∈ units, unit.IsWritable) : IsWellFormed (.text units)
  | array {items : List Value} (h : ∀ item ∈ items, IsWellFormed item) :
    IsWellFormed (.array items)
  | object {fields : List (List TextUnit × Value)}
    (hkeys : ∀ field ∈ fields, ∀ unit ∈ field.1, unit.IsWritable)
    (hvalues : ∀ field ∈ fields, IsWellFormed field.2) : IsWellFormed (.object fields)

/-- Whether a value is passed in one piece where a value may begin, with this value complete. -/
def ReadsBack (value : Value) : Prop :=
  ∀ {expected stack stack' depth rest}, Opens expected stack stack' → EndsNumber rest →
    readText expected stack (value.writtenAt depth ++ rest) = readText (.after value) stack' rest

theorem endsNumber_newLine : EndsNumber (newLine depth ++ rest) := Token.endsNumber_cons rfl

theorem endsNumber_itemsAt {items : List Value} (h : EndsNumber rest) :
    EndsNumber (itemsAt depth items ++ rest) := by
  cases items with
  | nil => rwa [itemsAt]
  | cons item items =>
    rw [itemsAt]
    exact Token.endsNumber_cons rfl

theorem endsNumber_fieldsAt {fields : List (List TextUnit × Value)} (h : EndsNumber rest) :
    EndsNumber (fieldsAt depth fields ++ rest) := by
  cases fields with
  | nil => rwa [fieldsAt]
  | cons field fields =>
    rw [fieldsAt]
    exact Token.endsNumber_cons rfl

/-- Behind an item the other items are read up to the end of the array. -/
theorem readText_itemsAt {items : List Value} (hitems : ∀ item ∈ items, ReadsBack item)
    {value : Value} {before : List Value} {outer : Nat} :
    readText (.after value) (.items before :: stack)
        (itemsAt depth items ++ (newLine outer ++ ']' :: rest)) =
      readText (.after (.array ((value :: before).reverse ++ items))) stack rest := by
  -- along the items still to come, of which `value` is the one in front
  induction items generalizing value before with
  | nil => rw [itemsAt, List.nil_append, readText_newLine, readText_mark (.endArray ..) rfl,
      List.append_nil]
  | cons item items ih =>
    obtain ⟨hitem, hitems⟩ := List.forall_mem_cons.mp hitems
    simp only [itemsAt, List.cons_append, List.append_assoc]
    rw [readText_mark (.nextItem ..) rfl, readText_newLine,
      hitem (.value _) (endsNumber_itemsAt endsNumber_newLine), ih hitems]
    -- what was open holds the items in the opposite order
    rw [List.reverse_cons, List.append_assoc, List.singleton_append]

theorem readsBack_array {items : List Value} (hitems : ∀ item ∈ items, ReadsBack item) :
    ReadsBack (.array items) := by
  intro expected stack stack' depth rest hopens _
  cases items with
  -- an empty array is closed at once
  | nil =>
    simp only [writtenAt, List.cons_append, List.nil_append]
    rw [readText_mark (.beginArray hopens) rfl, readText_mark (.endEmptyArray ..) rfl]
  | cons item items =>
    obtain ⟨hitem, hitems⟩ := List.forall_mem_cons.mp hitems
    simp only [writtenAt, List.cons_append, List.append_assoc, List.nil_append]
    rw [readText_mark (.beginArray hopens) rfl, readText_newLine,
      hitem (.firstItem _) (endsNumber_itemsAt endsNumber_newLine), readText_itemsAt hitems]
    rfl

/-- Where a key may stand, a field is passed in one piece. -/
theorem readText_field {key : List TextUnit} {value : Value}
    {before : List (List TextUnit × Value)} (hkey : ∀ unit ∈ key, unit.IsWritable)
    (hvalue : ReadsBack value) (hrest : EndsNumber rest)
    (h : Step expected stack (.text key) (.colon before key) stack) :
    readText expected stack (quoted key ++ ':' :: ' ' :: (value.writtenAt depth ++ rest)) =
      readText (.after value) (.fields before key :: stack) rest := by
  rw [readText_quoted h hkey, readText_mark (.colon ..) rfl, readText_space rfl,
    hvalue (.value _) hrest]

/-- Behind a field the other fields are read up to the end of the object. -/
theorem readText_fieldsAt {fields : List (List TextUnit × Value)}
    (hkeys : ∀ field ∈ fields, ∀ unit ∈ field.1, unit.IsWritable)
    (hvalues : ∀ field ∈ fields, ReadsBack field.2) {value : Value} {key : List TextUnit}
    {before : List (List TextUnit × Value)} {outer : Nat} :
    readText (.after value) (.fields before key :: stack)
        (fieldsAt depth fields ++ (newLine outer ++ '\x7d' :: rest)) =
      readText (.after (.object (((key, value) :: before).reverse ++ fields))) stack rest := by
  -- along the fields still to come
  induction fields generalizing value key before with
  | nil => rw [fieldsAt, List.nil_append, readText_newLine, readText_mark (.endObject ..) rfl,
      List.append_nil]
  | cons field fields ih =>
    obtain ⟨hkey, hkeys⟩ := List.forall_mem_cons.mp hkeys
    obtain ⟨hvalue, hvalues⟩ := List.forall_mem_cons.mp hvalues
    simp only [fieldsAt, List.cons_append, List.append_assoc, List.nil_append]
    rw [readText_mark (.nextField ..) rfl, readText_newLine,
      readText_field hkey hvalue (endsNumber_fieldsAt endsNumber_newLine) (.key ..),
      ih hkeys hvalues]
    rw [List.reverse_cons, List.append_assoc, List.singleton_append]

theorem readsBack_object {fields : List (List TextUnit × Value)}
    (hkeys : ∀ field ∈ fields, ∀ unit ∈ field.1, unit.IsWritable)
    (hvalues : ∀ field ∈ fields, ReadsBack field.2) : ReadsBack (.object fields) := by
  intro expected stack stack' depth rest hopens _
  cases fields with
  | nil =>
    simp only [writtenAt, List.cons_append, List.nil_append]
    rw [readText_mark (.beginObject hopens) rfl, readText_mark (.endEmptyObject ..) rfl]
  | cons field fields =>
    obtain ⟨hkey, hkeys⟩ := List.forall_mem_cons.mp hkeys
    obtain ⟨hvalue, hvalues⟩ := List.forall_mem_cons.mp hvalues
    simp only [writtenAt, List.cons_append, List.append_assoc, List.nil_append]
    rw [readText_mark (.beginObject hopens) rfl, readText_newLine,
      readText_field hkey hvalue (endsNumber_fieldsAt endsNumber_newLine) (.firstKey ..),
      readText_fieldsAt hkeys hvalues]
    rfl

/-- A well-formed value is passed in one piece. -/
theorem IsWellFormed.readsBack {value : Value} (h : value.IsWellFormed) : value.ReadsBack := by
  induction h with
  | null => exact fun hopens _ => readText_of_step (.null hopens) rfl
  | boolean b =>
    cases b with
    | true => exact fun hopens _ => readText_of_step (.boolean hopens true) rfl
    | false => exact fun hopens _ => readText_of_step (.boolean hopens false) rfl
  | number hnumber =>
    -- the one token whose end depends on what follows
    exact fun hopens hrest =>
      readText_of_step (.number hopens _) (Token.next?_number hnumber hrest)
  | text hunits => exact fun hopens _ => readText_quoted (.text hopens _) hunits
  -- the items and fields read back by the induction hypothesis
  | array _ ih => exact readsBack_array ih
  | object hkeys _ ih => exact readsBack_object hkeys ih

/-- At the end of a text a complete value with nothing open around it is what was read. -/
theorem readText_nil (value : Value) : readText (.after value) [] [] = some value := by
  rw [readText, Token.ofChars?, Option.bind_some, readFrom]

/-- A well-formed value is read back from its text. -/
theorem ofChars?_written {value : Value} (h : value.IsWellFormed) :
    ofChars? value.written = some value := by
  calc ofChars? value.written
    _ = readText .value [] (value.writtenAt 0 ++ []) := by rw [List.append_nil]; rfl
    _ = readText (.after value) [] [] := h.readsBack (.value []) Token.endsNumber_nil
    _ = some value := readText_nil value

/-! ## Values of other types -/

theorem isWellFormed_ofNat (n : Nat) : (ofNat n).IsWellFormed :=
  .number (Token.isNumber_toDigits n)

/-- A natural number that is read has at most sixty-four bits. -/
theorem lt_of_nat? {value : Value} {n : Nat} (h : value.nat? = some n) : n < natLimit := by
  cases value with
  | number written =>
    simp only [nat?] at h
    split at h
    · next hdigits =>
      cases h
      exact hdigits.2
    · cases h
  | _ => cases h

/-- A natural number of at most sixty-four bits is read back. -/
theorem nat?_ofNat {n : Nat} (h : n < natLimit) : nat? (ofNat n) = some n := by
  have hdigits : (Nat.toDigits 10 n).all Token.isDigit = true :=
    List.all_eq_true.mpr (Token.forall_isDigit_toDigits n)
  rw [ofNat, nat?, Nat.ofDigitChars_ten_toDigits]
  exact if_pos ⟨hdigits, h⟩

end Value

end GroupFlattening.Json
