import Mathlib.Data.List.Forall2
import MuonSpin.Proofs.Block.Tokens
import MuonSpin.Proofs.Layout.Words

/-!
# Spellings of a line

The same line of a theory can be written in many ways.

* `Spells`: a text is a line with these words, said without reading it;
  **`TheoryLine.spells_iff`**: the words are the tokens of the line;
* `SameName`, `SameParameter`: words that differ in the letter case of a kernel's name or of a keyword, or
  in the choice between name and abbreviation; `SameName.search`: such names name the same kernel;
* `TheoryLine.SameUpToLayout`: lines that differ in blanks, comments and such words only.
-/

namespace MuonSpin

/-! ## Words and texts -/

/-- A character that can stand in a word. -/
def isWordChar (c : Char) : Bool := !isBlank c && TheoryLine.isContent c

/-- The text is a line with these words: blanks stand between them, and a comment may follow. -/
inductive Spells : List String → List Char → Prop
  | comment {text : List Char} (start : ∀ c ∈ text.head?, TheoryLine.isContent c = false) :
    Spells [] text
  | blank {c : Char} {words : List String} {text : List Char} (blank : isBlank c = true)
      (rest : Spells words text) : Spells words (c :: text)
  | word {word : String} {words : List String} {text : List Char} (ne_nil : word.toList ≠ [])
      (chars : ∀ c ∈ word.toList, isWordChar c = true)
      (ends : ∀ c ∈ text.head?, isWordChar c = false)
      (rest : Spells words text) : Spells (word :: words) (word.toList ++ text)

theorem isWordChar_iff {c : Char} :
    isWordChar c = true ↔ isBlank c = false ∧ TheoryLine.isContent c = true := by
  simp [isWordChar]

theorem isContent_of_isBlank {c : Char} (h : isBlank c = true) :
    TheoryLine.isContent c = true := by
  by_contra hcomment
  have hc : c = '(' ∨ c = '#' := by simpa [TheoryLine.isContent, or_iff_not_imp_left] using hcomment
  rcases hc with rfl | rfl <;> exact absurd h (by decide)

theorem takeWhile_isContent_of_head? {text : List Char}
    (h : ∀ c ∈ text.head?, TheoryLine.isContent c = false) :
    text.takeWhile TheoryLine.isContent = [] := by
  rcases text with _ | ⟨c, text⟩
  · rfl
  · rw [List.takeWhile_cons_of_neg]
    simpa using h c rfl

theorem Spells.wordsOf_eq {words : List String} {text : List Char} (h : Spells words text) :
    wordsOf (text.takeWhile TheoryLine.isContent) = words.map String.toList := by
  induction h with
  | comment start =>
    rw [takeWhile_isContent_of_head? start]
    rfl
  | blank blank rest ih =>
    rw [List.takeWhile_cons_of_pos (isContent_of_isBlank blank), wordsOf_blank blank, ih]
  | @word word words text ne_nil chars ends rest ih =>
    have hword : ∀ c ∈ word.toList, isBlank c = false ∧ TheoryLine.isContent c = true :=
      fun c hc => isWordChar_iff.1 (chars c hc)
    rw [List.takeWhile_append_of_pos fun c hc => (hword c hc).2, wordsOf,
      wordsFrom_append fun c hc => (hword c hc).1, List.nil_append, List.map_cons, ← ih]
    rcases text with _ | ⟨c, text⟩
    · simp [wordsFrom, wordsOf, ne_nil]
    · by_cases hblank : isBlank c = true
      · rw [List.takeWhile_cons_of_pos (isContent_of_isBlank hblank),
          wordsFrom_blank ne_nil hblank, wordsOf_blank hblank]
      · have hcomment : TheoryLine.isContent c = false := by
          simpa [isWordChar, hblank] using ends c rfl
        rw [List.takeWhile_cons_of_neg (by simp [hcomment])]
        simp [wordsFrom, wordsOf, ne_nil]

theorem exists_word_append {c : Char} (text : List Char) (hc : isWordChar c = true) :
    ∃ (word : String) (rest : List Char), c :: text = word.toList ++ rest ∧ word.toList ≠ [] ∧
      (∀ d ∈ word.toList, isWordChar d = true) ∧ ∀ d ∈ rest.head?, isWordChar d = false := by
  refine ⟨.ofList ((c :: text).takeWhile isWordChar), (c :: text).dropWhile isWordChar, ?_⟩
  rw [String.toList_ofList]
  refine ⟨List.takeWhile_append_dropWhile.symm, ?_, fun d hd => List.mem_takeWhile_imp hd, ?_⟩
  · rw [List.takeWhile_cons_of_pos hc]
    exact List.cons_ne_nil _ _
  · intro d hd
    have hnot := List.head?_dropWhile_not isWordChar (c :: text)
    rw [Option.mem_def.1 hd] at hnot
    exact hnot

theorem exists_spells (text : List Char) : ∃ words, Spells words text := by
  induction hn : text.length using Nat.strongRecOn generalizing text with
  | ind n ih =>
    rcases text with _ | ⟨c, text⟩
    · exact ⟨[], .comment (by simp)⟩
    · by_cases hcomment : TheoryLine.isContent c = false
      · exact ⟨[], .comment (by simpa using hcomment)⟩
      · by_cases hblank : isBlank c = true
        · obtain ⟨words, hwords⟩ := ih text.length (by simp [← hn]) text rfl
          exact ⟨words, .blank hblank hwords⟩
        · have hc : isWordChar c = true := by simp_all [isWordChar]
          obtain ⟨word, rest, htext, hne, hchars, hends⟩ := exists_word_append text hc
          have hlength : rest.length < n := by
            have hpos := List.length_pos_iff.2 hne
            rw [← hn, htext, List.length_append]
            omega
          obtain ⟨words, hwords⟩ := ih rest.length hlength rest rfl
          rw [htext]
          exact ⟨_, .word hne hchars hends hwords⟩

/-- **The words that a line spells** are its tokens. -/
theorem TheoryLine.spells_iff {line : TheoryLine} {words : List String} :
    Spells words line.text.toList ↔ line.tokens = words := by
  have htokens : ∀ {words}, Spells words line.text.toList → line.tokens = words := by
    intro words h
    rw [tokens_eq, code, h.wordsOf_eq, List.map_map]
    simp [Function.comp_def]
  constructor
  · exact htokens
  · rintro rfl
    obtain ⟨words, hwords⟩ := exists_spells line.text.toList
    rwa [htokens hwords]

/-! ## Names of kernels -/

/-- The names are the same, or both name a kernel, in full or abbreviated and in any letter case. -/
inductive SameName : String → String → Prop
  | same (name : String) : SameName name name
  | kernel (kernel : Kernel) {name name' : String} (called : kernel.isCalled name = true)
      (called' : kernel.isCalled name' = true) : SameName name name'

/-- The name and the abbreviation of a kernel in small letters. -/
def Kernel.spellings (kernel : Kernel) : List (List Char) :=
  [kernel.signature.name.toList.map Char.toLower,
    kernel.signature.abbreviation.toList.map Char.toLower]

theorem Kernel.isCalled_iff {kernel : Kernel} {name : String} :
    kernel.isCalled name = true ↔ name.toList.map Char.toLower ∈ kernel.spellings := by
  rw [isCalled, equalUpToCase, equalUpToCase, Bool.or_eq_true, beq_iff_eq, beq_iff_eq, spellings,
    List.mem_cons, List.mem_singleton]
  exact or_congr eq_comm eq_comm

theorem Kernel.eq_of_isCalled {kernel kernel' : Kernel} {name : String}
    (h : kernel.isCalled name = true) (h' : kernel'.isCalled name = true) : kernel = kernel' := by
  have hdistinct : ∀ k ∈ all, ∀ k' ∈ all, k = k' ∨ ∀ s ∈ k.spellings, s ∉ k'.spellings := by
    decide +kernel
  rw [isCalled_iff] at h h'
  exact (hdistinct kernel (mem_all kernel) kernel' (mem_all kernel')).resolve_right
    fun hne => hne _ h h'

theorem Kernel.search_of_isCalled {kernel : Kernel} {name : String}
    (h : kernel.isCalled name = true) : search name = some kernel := by
  cases hsearch : search name with
  | none =>
    have hnone := List.find?_eq_none.1 hsearch kernel (mem_all kernel)
    exact absurd h hnone
  | some found =>
    have hfound := List.find?_some hsearch
    rw [eq_of_isCalled hfound h]

theorem SameName.search {name name' : String} (h : SameName name name') :
    Kernel.search name = Kernel.search name' := by
  cases h with
  | same => rfl
  | kernel kernel called called' =>
    rw [Kernel.search_of_isCalled called, Kernel.search_of_isCalled called']

theorem SameName.eq {name name' : String} (h : SameName name name')
    (hnone : Kernel.search name = none) : name = name' := by
  cases h with
  | same => rfl
  | kernel kernel called called' =>
    rw [Kernel.search_of_isCalled called] at hnone
    cases hnone

/-! ## Parameters -/

/-- The parameters are the same, or begin with the same keyword, in any letter case, and go on in the
same way. -/
inductive SameParameter : String → String → Prop
  | same (token : String) : SameParameter token token
  | keyword (keyword : Keyword) {token token' : String} {letters letters' rest : List Char}
      (token_eq : token.toList = letters ++ rest) (token_eq' : token'.toList = letters' ++ rest)
      (case : letters.map Char.toLower = keyword.letters)
      (case' : letters'.map Char.toLower = keyword.letters) : SameParameter token token'

/-! ## Lines -/

/-- The words of two lines are the same up to the names of kernels and the keywords. The words for the
module and the type of a user function are the same. -/
inductive SameWords : List String → List String → Prop
  | line {name name' : String} {params params' : List String} (names : SameName name name')
      (parameters : List.Forall₂ SameParameter params params')
      (identifiers : Kernel.user.isCalled name = true → params.take 2 = params'.take 2) :
    SameWords (name :: params) (name' :: params')

/-- The lines differ in their layout only: in blanks, comments, the letter case of names and keywords,
and abbreviations. -/
def TheoryLine.SameUpToLayout (line line' : TheoryLine) : Prop :=
  ∃ words words', Spells words line.text.toList ∧ Spells words' line'.text.toList ∧
    SameWords words words'

theorem TheoryLine.SameUpToLayout.tokens {line line' : TheoryLine}
    (h : line.SameUpToLayout line') : SameWords line.tokens line'.tokens := by
  obtain ⟨words, words', hwords, hwords', hsame⟩ := h
  rwa [spells_iff.1 hwords, spells_iff.1 hwords']

end MuonSpin
