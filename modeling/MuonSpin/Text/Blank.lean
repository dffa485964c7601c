/-!
# Blank characters

The characters of Unicode's property White_Space, what a text is without them, and texts filled up
with blanks to a width.

* `isBlank`: the property;
* `trimChars`, `trimEnd`, `words`: a text without blanks around it, without blanks behind it, and its
  parts between blanks; **no word is empty or contains a blank** (`words_ne_nil`,
  `not_isBlank_of_mem_words`);
* `padLeft`, `padRight`, `padRightBytes`: blanks in front of and behind a text, up to a number of
  characters or of bytes of UTF-8.
-/

namespace MuonSpin

/-- The characters of Unicode's property White_Space. -/
def isBlank (c : Char) : Bool :=
  let n := c.toNat
  (9 ≤ n && n ≤ 13) || n == 0x20 || n == 0x85 || n == 0xA0 || n == 0x1680
    || (0x2000 ≤ n && n ≤ 0x200A) || n == 0x2028 || n == 0x2029 || n == 0x202F || n == 0x205F
    || n == 0x3000

/-- The characters without the blanks at their end. -/
def trimEndChars (cs : List Char) : List Char := (cs.reverse.dropWhile isBlank).reverse

/-- The characters without the blanks around them. -/
def trimChars (cs : List Char) : List Char := trimEndChars (cs.dropWhile isBlank)

/-- A text without the blanks at its end. -/
def trimEnd (s : String) : String := String.ofList (trimEndChars s.toList)

/-- The parts between blanks, the first one after the characters of `word`. -/
def wordsFrom (word : List Char) : List Char → List (List Char)
  | [] => if word.isEmpty then [] else [word]
  | c :: rest =>
    if isBlank c then
      if word.isEmpty then wordsFrom [] rest else word :: wordsFrom [] rest
    else wordsFrom (word ++ [c]) rest

/-- The parts between blanks. -/
def wordsOf (cs : List Char) : List (List Char) := wordsFrom [] cs

/-- The parts of a text between blanks. -/
def words (s : String) : List String := (wordsOf s.toList).map String.ofList

theorem wordsFrom_ne_nil {word cs w : List Char} (h : w ∈ wordsFrom word cs) : w ≠ [] := by
  induction cs generalizing word with
  | nil =>
    simp only [wordsFrom] at h
    split at h
    · simp at h
    · rename_i hw
      rw [List.mem_singleton] at h
      subst h
      simpa using hw
  | cons c rest ih =>
    simp only [wordsFrom] at h
    split at h
    · split at h
      · exact ih h
      · rename_i hw
        rcases List.mem_cons.1 h with rfl | h
        · simpa using hw
        · exact ih h
    · exact ih h

theorem not_isBlank_of_mem_wordsFrom {word cs w : List Char} {c : Char}
    (hword : ∀ d ∈ word, isBlank d = false) (h : w ∈ wordsFrom word cs) (hc : c ∈ w) :
    isBlank c = false := by
  induction cs generalizing word with
  | nil =>
    simp only [wordsFrom] at h
    split at h
    · simp at h
    · rw [List.mem_singleton] at h
      exact hword c (h ▸ hc)
  | cons d rest ih =>
    simp only [wordsFrom] at h
    split at h
    · split at h
      · exact ih (by simp) h
      · rcases List.mem_cons.1 h with rfl | h
        · exact hword c hc
        · exact ih (by simp) h
    · rename_i hd
      refine ih (fun e he => ?_) h
      rcases List.mem_append.1 he with he | he
      · exact hword e he
      · rw [List.mem_singleton] at he
        simpa [he] using hd

theorem words_ne_nil {cs w : List Char} (h : w ∈ wordsOf cs) : w ≠ [] := wordsFrom_ne_nil h

theorem not_isBlank_of_mem_words {cs w : List Char} {c : Char} (h : w ∈ wordsOf cs) (hc : c ∈ w) :
    isBlank c = false :=
  not_isBlank_of_mem_wordsFrom (by simp) h hc

/-! ## Columns -/

def spaces (n : Nat) : String := String.ofList (List.replicate n ' ')

/-- The text at the right end of a column. -/
def padLeft (width : Nat) (s : String) : String := spaces (width - s.length) ++ s

/-- The text at the left end of a column. -/
def padRight (width : Nat) (s : String) : String := s ++ spaces (width - s.length)

/-- The text at the left end of a column whose width is counted in bytes. -/
def padRightBytes (width : Nat) (s : String) : String := s ++ spaces (width - s.utf8ByteSize)

end MuonSpin
