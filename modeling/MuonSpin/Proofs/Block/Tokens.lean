import Mathlib.Tactic.SplitIfs
import MuonSpin.Theory.Token

/-!
# What parameter tokens are read as

* `Keyword`: the words for functions and for entries of the run map;
* `BuildContext.readToken_number`, `BuildContext.readToken_keyword`: a token of digits, and one that
  begins with a keyword; `BuildContext.readToken_eq_ok`: no other token is read;
* `Readable`, **`readable_iff`**: the tokens that some context reads; one context reads them all
  (`exists_reads_readable`).
-/

namespace MuonSpin

/-! ## Keywords -/

/-- What a number is the number of, unless it stands alone. -/
inductive Keyword where
  | function
  | map

namespace Keyword

/-- The keyword in small letters. -/
def letters : Keyword → List Char
  | function => ['f', 'u', 'n']
  | map => ['m', 'a', 'p']

/-- The least number that can stand behind the keyword. -/
def first : Keyword → Nat
  | function => 0
  | map => 1

/-- What the keyword stands for with a number behind it. -/
def read (ctx : BuildContext) : Keyword → Nat → Except Fault Reference
  | function => ctx.readFunction
  | map => ctx.readMap

end Keyword

theorem toLower_of_isDigit {c : Char} (h : c.isDigit = true) : c.toLower = c := by
  simp only [Char.isDigit, Bool.and_eq_true, decide_eq_true_eq] at h
  unfold Char.toLower
  split_ifs with hupper
  · have hle := UInt32.le_iff_toNat_le.1 h.2
    have hge := UInt32.le_iff_toNat_le.1 hupper.1
    simp at hle hge
    omega
  · rfl

section Keywords

variable {keyword keyword' letters rest cs : List Char} {n : Nat}

theorem keywordNumber?_append (h : letters.map Char.toLower = keyword) :
    keywordNumber? keyword (letters ++ rest) = word? rest := by
  have hlen : keyword.length = letters.length := by rw [← h, List.length_map]
  rw [keywordNumber?, hlen, List.take_left, List.drop_left, if_pos h]

theorem keywordNumber?_append_of_ne (h : letters.map Char.toLower = keyword')
    (hlen : keyword'.length = keyword.length) (hne : keyword' ≠ keyword) :
    keywordNumber? keyword (letters ++ rest) = none := by
  have hlen' : keyword.length = letters.length := by rw [← hlen, ← h, List.length_map]
  rw [keywordNumber?, hlen', List.take_left, h, if_neg hne]

theorem eq_append_of_keywordNumber? (h : keywordNumber? keyword cs = some n) :
    ∃ letters rest, cs = letters ++ rest ∧ letters.map Char.toLower = keyword ∧
      word? rest = some n := by
  rw [keywordNumber?] at h
  split_ifs at h with hletters
  exact ⟨_, _, (List.take_append_drop _ cs).symm, hletters, h⟩

theorem all_isDigit_of_keyword (keyword : Keyword)
    (h : letters.map Char.toLower = keyword.letters) :
    (letters ++ rest).all Char.isDigit = false := by
  have hletters : ∃ c ∈ letters, c.toLower.isDigit = false := by
    have hfirst : ∃ c ∈ keyword.letters, c.isDigit = false := by
      cases keyword with
      | function => exact ⟨'f', by decide, by decide⟩
      | map => exact ⟨'m', by decide, by decide⟩
    obtain ⟨c, hc, hdigit⟩ := hfirst
    rw [← h] at hc
    obtain ⟨d, hd, rfl⟩ := List.mem_map.1 hc
    exact ⟨d, hd, hdigit⟩
  obtain ⟨c, hc, hdigit⟩ := hletters
  rw [Bool.eq_false_iff]
  intro hall
  have hc' := List.all_eq_true.1 hall c (List.mem_append_left _ hc)
  rw [toLower_of_isDigit hc', hc'] at hdigit
  cases hdigit

theorem word?_lt (h : word? cs = some n) : n < wordLimit := by
  rw [word?] at h
  split_ifs at h with hdigits hlt
  cases h
  exact hlt

theorem all_isDigit_of_word? (h : word? cs = some n) : cs.all Char.isDigit = true := by
  rw [word?] at h
  split_ifs at h with hdigits
  simp only [Bool.or_eq_true, not_or, Bool.not_eq_true', Bool.not_eq_false] at hdigits
  exact hdigits.2

end Keywords

/-! ## Tokens -/

namespace BuildContext

variable {ctx : BuildContext} {token : String} {letters rest : List Char} {reference : Reference}

theorem readToken_number (h : token.toList.all Char.isDigit = true) :
    ctx.readToken token = match word? token.toList with
      | some number => ctx.readNumber number
      | none => .error (.unrecognizedToken token) := by
  cases hword : word? token.toList with
  | none => simp only [readToken, if_pos h, hword]
  | some number => simp only [readToken, if_pos h, hword]

theorem readToken_keyword (keyword : Keyword) (htoken : token.toList = letters ++ rest)
    (h : letters.map Char.toLower = keyword.letters) :
    ctx.readToken token = match word? rest with
      | some number => keyword.read ctx number
      | none => .error (.unrecognizedToken token) := by
  have hdigits : (letters ++ rest).all Char.isDigit = false := all_isDigit_of_keyword keyword h
  cases keyword with
  | function =>
    have hfun : keywordNumber? ['f', 'u', 'n'] (letters ++ rest) = word? rest :=
      keywordNumber?_append h
    have hmap : keywordNumber? ['m', 'a', 'p'] (letters ++ rest) = none :=
      keywordNumber?_append_of_ne h (by decide) (by decide)
    simp only [readToken, htoken, hdigits, hfun, hmap, Bool.false_eq_true, if_false]
    cases word? rest <;> rfl
  | map =>
    have hfun : keywordNumber? ['f', 'u', 'n'] (letters ++ rest) = none :=
      keywordNumber?_append_of_ne h (by decide) (by decide)
    have hmap : keywordNumber? ['m', 'a', 'p'] (letters ++ rest) = word? rest :=
      keywordNumber?_append h
    simp only [readToken, htoken, hdigits, hfun, hmap, Bool.false_eq_true, if_false]
    cases word? rest <;> rfl

/-- **No other token is read.** -/
theorem readToken_eq_ok (h : ctx.readToken token = .ok reference) :
    (∃ number, word? token.toList = some number ∧ ctx.readNumber number = .ok reference) ∨
    ∃ (keyword : Keyword) (letters rest : List Char) (number : Nat),
      token.toList = letters ++ rest ∧ letters.map Char.toLower = keyword.letters ∧
        word? rest = some number ∧ keyword.read ctx number = .ok reference := by
  by_cases hdigits : token.toList.all Char.isDigit = true
  · rw [readToken_number hdigits] at h
    split at h
    · rename_i number hnumber
      exact .inl ⟨number, hnumber, h⟩
    · cases h
  · simp only [readToken, if_neg hdigits] at h
    cases hfun : keywordNumber? ['f', 'u', 'n'] token.toList with
    | some number =>
      obtain ⟨letters, rest, hsplit, hletters, hword⟩ := eq_append_of_keywordNumber? hfun
      rw [hfun] at h
      exact .inr ⟨.function, letters, rest, number, hsplit, hletters, hword, h⟩
    | none =>
      cases hmap : keywordNumber? ['m', 'a', 'p'] token.toList with
      | some number =>
        obtain ⟨letters, rest, hsplit, hletters, hword⟩ := eq_append_of_keywordNumber? hmap
        rw [hfun, hmap] at h
        exact .inr ⟨.map, letters, rest, number, hsplit, hletters, hword, h⟩
      | none =>
        rw [hfun, hmap] at h
        cases h

end BuildContext

/-! ## Tokens that some context reads -/

/-- Some context reads the token. -/
def Readable (token : String) : Prop :=
  ∃ (ctx : BuildContext) (reference : Reference), ctx.readToken token = .ok reference

/-- The token is the number of a parameter, or a keyword in any letter case with a number of 64 bits
behind it. -/
def IsReference (token : String) : Prop :=
  (∃ number, word? token.toList = some number ∧ 1 ≤ number ∧ number ≤ functionOffset) ∨
  ∃ (keyword : Keyword) (letters rest : List Char) (number : Nat),
    token.toList = letters ++ rest ∧ letters.map Char.toLower = keyword.letters ∧
      word? rest = some number ∧ keyword.first ≤ number

/-- As many parameters as can be told by their numbers, and functions and entries of the run map for
all numbers below a limit. -/
def BuildContext.wide (limit : Nat) : BuildContext :=
  ⟨functionOffset, List.replicate limit 1, ⟨List.range limit⟩⟩

section Readable

variable {ctx : BuildContext} {token : String} {keyword : Keyword} {number : Nat}
  {reference : Reference} {limit : Nat}

theorem FunctionTable.exists_indexOf? {table : FunctionTable} (h : number ∈ table.numbers) :
    ∃ i, table.indexOf? number = some i := by
  obtain ⟨i, hi, hnumber⟩ := List.getElem_of_mem h
  have hmem : (number, i) ∈ table.numbers.zipIdx.reverse := by
    rw [List.mem_reverse, List.mem_zipIdx_iff_getElem?, List.getElem?_eq_getElem hi, hnumber]
  cases hlookup : table.indexOf? number with
  | some j => exact ⟨j, rfl⟩
  | none =>
    have hne := List.lookup_eq_none_iff.1 hlookup _ hmem
    simp at hne

theorem BuildContext.of_readNumber (h : ctx.readNumber number = .ok reference) :
    1 ≤ number ∧ number ≤ functionOffset := by
  rw [readNumber_eq] at h
  split_ifs at h with hrange
  omega

theorem Keyword.first_le_of_read (h : keyword.read ctx number = .ok reference) :
    keyword.first ≤ number := by
  cases keyword with
  | function => exact Nat.zero_le _
  | map =>
    change ctx.readMap number = .ok reference at h
    rw [BuildContext.readMap] at h
    split_ifs at h with hzero
    exact Nat.one_le_iff_ne_zero.2 hzero

theorem BuildContext.readNumber_wide (h : 1 ≤ number ∧ number ≤ functionOffset) :
    ∃ reference, (wide limit).readNumber number = .ok reference := by
  have hrange : 1 ≤ number ∧ number - 1 < functionOffset ∧
      number - 1 < (wide limit).paramCount := by
    have hcount : (wide limit).paramCount = functionOffset := rfl
    omega
  exact ⟨_, (readNumber_eq _ _).trans (if_pos hrange)⟩

theorem Keyword.read_wide (h : keyword.first ≤ number) (hlt : number < limit) :
    ∃ reference, keyword.read (.wide limit) number = .ok reference := by
  cases keyword with
  | function =>
    have hmem : number ∈ (BuildContext.wide limit).functions.numbers := List.mem_range.2 hlt
    obtain ⟨i, hi⟩ := FunctionTable.exists_indexOf? hmem
    exact ⟨.function i, by simp only [read, BuildContext.readFunction, hi]⟩
  | map =>
    have hne : number ≠ 0 := Nat.one_le_iff_ne_zero.1 h
    have hentry : (BuildContext.wide limit).runMap[number - 1]? = some 1 := by
      have hlt' : number - 1 < limit := by omega
      exact List.getElem?_replicate_of_lt hlt'
    have hone : (1 : Int) ≤ 1 ∧ (1 : Int) ≤ (BuildContext.wide limit).paramCount := by
      have hcount : (BuildContext.wide limit).paramCount = 20000 := rfl
      omega
    exact ⟨_, by simp only [read, BuildContext.readMap, if_neg hne, hentry, if_pos hone]; rfl⟩

theorem BuildContext.readToken_wide (h : IsReference token) :
    ∃ reference, (wide wordLimit).readToken token = .ok reference := by
  rcases h with ⟨number, hnumber, hrange⟩ |
    ⟨keyword, letters, rest, number, htoken, hletters, hnumber, hfirst⟩
  · rw [readToken_number (all_isDigit_of_word? hnumber), hnumber]
    exact readNumber_wide hrange
  · rw [readToken_keyword keyword htoken hletters, hnumber]
    exact keyword.read_wide hfirst (word?_lt hnumber)

/-- **Some context reads a token** exactly if it is a reference. -/
theorem readable_iff : Readable token ↔ IsReference token := by
  constructor
  · rintro ⟨ctx, reference, h⟩
    rcases BuildContext.readToken_eq_ok h with ⟨number, hnumber, hread⟩ |
      ⟨keyword, letters, rest, number, htoken, hletters, hnumber, hread⟩
    · exact .inl ⟨number, hnumber, BuildContext.of_readNumber hread⟩
    · exact .inr ⟨keyword, letters, rest, number, htoken, hletters, hnumber,
        Keyword.first_le_of_read hread⟩
  · intro h
    exact ⟨_, BuildContext.readToken_wide h⟩

theorem exists_reads_readable : ∃ ctx : BuildContext, ∀ token, Readable token →
    ∃ reference, ctx.readToken token = .ok reference :=
  ⟨.wide wordLimit, fun _ h => BuildContext.readToken_wide (readable_iff.1 h)⟩

end Readable

end MuonSpin
