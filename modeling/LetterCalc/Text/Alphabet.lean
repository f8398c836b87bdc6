/-!
# The characters of a line

A line is made of letters, digits, signs, parentheses and separators.  The letters are the
lowercase ones, each of which names a variable.

A text is blank when it holds nothing but white space, in the wide sense of the character property
`White_Space`.  This is more than the separators between words: the no-break space and the
ideographic space are blank as well.
-/

namespace LetterCalc

namespace Text

/-- The characters that separate words: space, line feed, carriage return, tab, vertical tab and
form feed. -/
def separators : List Char := [' ', '\n', '\r', '\t', '\x0b', '\x0c']

/-- The decimal digits. -/
def digits : List Char := ['0', '1', '2', '3', '4', '5', '6', '7', '8', '9']

/-- The names a variable can have. -/
def letters : List Char :=
  ['a', 'b', 'c', 'd', 'e', 'f', 'g', 'h', 'i', 'j', 'k', 'l', 'm', 'n', 'o', 'p', 'q', 'r',
    's', 't', 'u', 'v', 'w', 'x', 'y', 'z']

/-- The parentheses, each of which is a word of its own. -/
def parens : List Char := ['(', ')']

/-- The characters that end a word. -/
def stops : List Char := separators ++ parens

/-- The signs that operators are made of. -/
def signs : List Char := ['+', '-', '*', '=']

/-- What holds of the listed characters can be checked on the list. -/
theorem forall_mem_of_all {chars : List Char} (p : Char → Prop) [DecidablePred p]
    (h : chars.all (fun c => decide (p c)) = true) : ∀ c ∈ chars, p c := by
  intro c hc
  exact of_decide_eq_true (List.all_eq_true.1 h c hc)

/-- Characters that are listed by consecutive codes are those whose code lies in the range. -/
theorem mem_iff_of_codes {chars : List Char} {first count : Nat}
    (h : chars.map Char.toNat = List.range' first count) {c : Char} :
    c ∈ chars ↔ first ≤ c.toNat ∧ c.toNat < first + count := by
  rw [← List.mem_range'_1, ← h, List.mem_map]
  constructor
  · exact fun hc => ⟨c, hc, rfl⟩
  · rintro ⟨d, hd, hcode⟩
    rwa [← Char.toNat_inj.1 hcode]

theorem mem_digits_iff {c : Char} : c ∈ digits ↔ c.isDigit = true := by
  have hcodes : digits.map Char.toNat = List.range' 48 10 := by decide
  have hdigit : c.isDigit = true ↔ 48 ≤ c.toNat ∧ c.toNat ≤ 57 := Char.isDigit_iff_toNat
  rw [mem_iff_of_codes hcodes, hdigit]
  omega

theorem mem_letters_iff {c : Char} : c ∈ letters ↔ c.isLower = true := by
  have hcodes : letters.map Char.toNat = List.range' 97 26 := by decide
  have hlower : c.isLower = true ↔ 97 ≤ c.toNat ∧ c.toNat ≤ 122 := by
    show (decide (97 ≤ c.toNat) && decide (c.toNat ≤ 122)) = true ↔ _
    rw [Bool.and_eq_true, decide_eq_true_iff, decide_eq_true_iff]
  rw [mem_iff_of_codes hcodes, hlower]
  omega

theorem not_mem_separators_of_mem_parens {c : Char} (h : c ∈ parens) : c ∉ separators :=
  forall_mem_of_all (· ∉ separators) (by decide) c h

/-! ## White space -/

/-- Whether a character is in one of the ranges, which hold their first and last code points. -/
def inRanges (ranges : List (Nat × Nat)) (c : Char) : Bool :=
  ranges.any fun range => range.1 ≤ c.toNat && c.toNat ≤ range.2

/-- The ranges of white space, first and last code point included. -/
def whiteSpaceRanges : List (Nat × Nat) :=
  [(0x09, 0x0d), (0x20, 0x20), (0x85, 0x85), (0xa0, 0xa0), (0x1680, 0x1680), (0x2000, 0x200a),
    (0x2028, 0x2029), (0x202f, 0x202f), (0x205f, 0x205f), (0x3000, 0x3000)]

/-- Whether a character is white space. -/
def isWhiteSpace (c : Char) : Bool := inRanges whiteSpaceRanges c

/-- Whether a text holds nothing but white space. -/
def isBlank (text : String) : Bool := text.toList.all isWhiteSpace

/-- Every separator is white space. -/
theorem isWhiteSpace_of_mem_separators {c : Char} (h : c ∈ separators) :
    isWhiteSpace c = true := by
  simp only [separators, List.mem_cons, List.not_mem_nil, or_false] at h
  rcases h with rfl | rfl | rfl | rfl | rfl | rfl <;> rfl

end Text

end LetterCalc
