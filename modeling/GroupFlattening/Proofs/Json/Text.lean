import GroupFlattening.Json.Text

/-!
# Quoted Texts Read Back

Every element that can be written is read back in one piece, whatever follows it
(`read_written`): an escape by its letter, a code unit by its four hexadecimal digits, any other
character as itself. So the elements of a quoted text end where its closing quote stands
(`read_flatMap_written`). The elements that the characters of a text are written as hold no half of
a surrogate pair, since a character never is one, and stand for these characters again
(`decode_map_ofChar`).
-/

namespace GroupFlattening.Json.TextUnit

/-- Whether an element has a written form that is read as this element: a control character needs an
escape of its own, and a code unit sixteen bits. -/
def IsWritable : TextUnit → Prop
  | char c => c.toNat < 32 → escapes.lookup c ≠ none
  | unit code => code < 0x10000

/-! ## Hexadecimal digits -/

theorem hexValue?_hexDigit {n : Nat} (h : n < 16) : hexValue? (hexDigit n) = some n := by
  revert n
  decide

/-- Four hexadecimal digits are read as the number that they were made from. -/
theorem code?_hexDigit {code : Nat} (h : code < 0x10000) :
    code? (hexDigit (code / 4096 % 16)) (hexDigit (code / 256 % 16)) (hexDigit (code / 16 % 16))
      (hexDigit (code % 16)) = some code := by
  have hdigit : ∀ n, hexValue? (hexDigit (n % 16)) = some (n % 16) :=
    fun n => hexValue?_hexDigit (Nat.mod_lt n (by decide))
  simp only [code?, hdigit, Option.bind_eq_bind, Option.bind_some, Option.pure_def, Option.some_inj]
  omega

/-! ## Escapes -/

/-- A letter stands for the character that it is the escape of, and it is not the one in front of a
code unit. -/
theorem escaped?_of_lookup {c letter : Char} (h : escapes.lookup c = some letter) :
    escaped? letter = some c ∧ letter ≠ 'u' := by
  have hall : ∀ entry ∈ escapes, escaped? entry.2 = some entry.1 ∧ entry.2 ≠ 'u' := by decide
  obtain ⟨before, after, heq, -⟩ := List.lookup_eq_some_iff.mp h
  exact hall (c, letter) (by simp [heq])

/-- A character without an escape neither closes a text nor begins an escape. -/
theorem ne_of_lookup_eq_none {c : Char} (h : escapes.lookup c = none) : c ≠ '"' ∧ c ≠ '\\' := by
  constructor
  · rintro rfl
    cases h
  · rintro rfl
    cases h

/-! ## Reading what was written -/

/-- An escape is read by its letter. -/
theorem read_escape {c letter : Char} (hunit : letter ≠ 'u') (h : escaped? letter = some c)
    (rest : List Char) :
    read ('\\' :: letter :: rest) =
      (read rest).map fun (units, left) => (char c :: units, left) := by
  rw [read]
  · rw [h]
    cases read rest <;> rfl
  · intro a b c d rest heq
    exact absurd heq hunit

/-- A character that needs no escape is read as itself. -/
theorem read_plain {c : Char} (hquote : c ≠ '"') (hbackslash : c ≠ '\\')
    (hgraphic : ¬ c.toNat < 32) (rest : List Char) :
    read (c :: rest) = (read rest).map fun (units, left) => (char c :: units, left) := by
  rw [read]
  · rw [if_neg hgraphic]
    cases read rest <;> rfl
  · exact hquote
  · intro a b c d rest heq
    exact absurd heq hbackslash
  · intro letter rest heq
    exact absurd heq hbackslash

variable {unit : TextUnit} {units : List TextUnit}

/-- An element that can be written is read back, and then what follows it. -/
theorem read_written (h : unit.IsWritable) (rest : List Char) :
    read (unit.written ++ rest) = (read rest).map fun (units, left) => (unit :: units, left) := by
  -- a lone unit is written by its number, a character as itself or behind a backslash
  cases unit with
  | unit code =>
    simp only [written, List.cons_append, List.nil_append, read, code?_hexDigit h]
    cases read rest <;> rfl
  | char c =>
    cases hletter : escapes.lookup c with
    | some letter =>
      obtain ⟨hescaped, hunit⟩ := escaped?_of_lookup hletter
      rw [written, hletter]
      exact read_escape hunit hescaped rest
    | none =>
      obtain ⟨hquote, hbackslash⟩ := ne_of_lookup_eq_none hletter
      rw [written, hletter]
      exact read_plain hquote hbackslash (fun hcontrol => h hcontrol hletter) rest

/-- Elements that can be written are read back up to the closing quote. -/
theorem read_flatMap_written (h : ∀ unit ∈ units, unit.IsWritable) (rest : List Char) :
    read (units.flatMap written ++ '"' :: rest) = some (units, rest) := by
  induction units with
  | nil => rfl
  | cons unit units ih =>
    rw [List.forall_mem_cons] at h
    rw [List.flatMap_cons, List.append_assoc, read_written h.1, ih h.2]
    rfl

/-! ## The elements of a text -/

/-- Every character is written as an element that can be written. -/
theorem isWritable_ofChar (c : Char) : (ofChar c).IsWritable := by
  rw [ofChar]
  split
  · next hcontrol => exact Nat.lt_trans hcontrol.1 (by decide)
  · next hplain => exact fun hlt hnone => hplain ⟨hlt, hnone⟩

theorem decode_ofChar (c : Char) (units : List TextUnit) :
    decode (ofChar c :: units) = (decode units).map (c :: ·) := by
  rw [ofChar]
  split
  · next hcontrol =>
    -- a control character is far below the surrogates
    rw [decode.eq_def]
    simp only
    rw [if_neg (by omega), if_neg (by omega), Char.ofNat_toNat]
  · rfl

/-- The elements that the characters of a text are written as stand for these characters. -/
theorem decode_map_ofChar (chars : List Char) : decode (chars.map ofChar) = some chars := by
  induction chars with
  | nil => rfl
  | cons c chars ih => rw [List.map_cons, decode_ofChar, ih, Option.map_some]

end TextUnit

end GroupFlattening.Json
