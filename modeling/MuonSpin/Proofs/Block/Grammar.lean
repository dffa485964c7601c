import Mathlib.Data.List.Induction
import Mathlib.Data.Nat.Digits.Defs
import MuonSpin.Proofs.Block.Tokens

/-!
# The grammar of parameter tokens

* `IsNumeral`, `Keyword.Spelled`: a run of digits, and a keyword in any letter case with such a run
  behind it, with the number they stand for; **a number of more than 64 bits has no numeral**;
* `FunctionTable.Maps`: the position a function number has in the table;
* `BuildContext.readToken_numeral`, `BuildContext.readToken_spelled`,
  `BuildContext.readToken_other`: what the three kinds of tokens are read as;
* `BuildContext.Refuses`: which fault a token has in a context;
* **`readToken_grammar`**: which tokens are read as which reference, and which fault all others have.
-/

namespace MuonSpin

/-! ## Numerals -/

/-- The characters are a run of digits for a number that fits 64 bits. -/
structure IsNumeral (cs : List Char) (n : Nat) : Prop where
  ne_nil : cs ≠ []
  digits : ∀ c ∈ cs, c.isDigit = true
  value : Nat.ofDigits 10 (cs.reverse.map digitValue) = n
  fits : n < wordLimit

section Numerals

variable {cs : List Char} {n : Nat}

theorem digitsValue_eq_ofDigits (cs : List Char) :
    digitsValue cs = Nat.ofDigits 10 (cs.reverse.map digitValue) := by
  rw [digitsValue, Nat.ofDigits_eq_foldr, List.foldr_map, List.foldr_reverse]
  congr 1
  funext n c
  exact Nat.add_comm _ _

theorem word?_eq_some_iff : word? cs = some n ↔ IsNumeral cs n := by
  rw [word?, digitsValue_eq_ofDigits]
  constructor
  · intro h
    split_ifs at h with hdigits hfits
    simp only [Bool.or_eq_true, List.isEmpty_iff, Bool.not_eq_true', not_or,
      Bool.not_eq_false, List.all_eq_true] at hdigits
    cases h
    exact ⟨hdigits.1, hdigits.2, rfl, hfits⟩
  · rintro ⟨hne, hdigits, rfl, hfits⟩
    have hrun : ¬ (cs.isEmpty || !cs.all Char.isDigit) = true := by
      simp only [Bool.or_eq_true, List.isEmpty_iff, Bool.not_eq_true', not_or,
        Bool.not_eq_false, List.all_eq_true]
      exact ⟨hne, hdigits⟩
    rw [if_neg hrun, if_pos hfits]

end Numerals

/-! ## Keywords -/

/-- The characters are the keyword, in any letter case, and the numeral of a number. -/
def Keyword.Spelled (keyword : Keyword) (cs : List Char) (n : Nat) : Prop :=
  ∃ letters rest, cs = letters ++ rest ∧ letters.map Char.toLower = keyword.letters ∧
    IsNumeral rest n

namespace Keyword

variable {keyword : Keyword} {cs : List Char}

theorem keywordNumber?_eq_none (h : ∀ n, ¬ keyword.Spelled cs n) :
    keywordNumber? keyword.letters cs = none := by
  by_contra hne
  obtain ⟨n, hn⟩ := Option.ne_none_iff_exists'.1 hne
  obtain ⟨letters, rest, hsplit, hletters, hword⟩ := eq_append_of_keywordNumber? hn
  exact h n ⟨letters, rest, hsplit, hletters, word?_eq_some_iff.1 hword⟩

end Keyword

/-! ## Functions and entries of the run map -/

/-- The number stands at the position, and at no later one. -/
def FunctionTable.Maps (table : FunctionTable) (number i : Nat) : Prop :=
  table.numbers[i]? = some number ∧ ∀ j, i < j → table.numbers[j]? ≠ some number

namespace FunctionTable

variable {numbers : List Nat} {number last i : Nat}

theorem maps_append_self : Maps ⟨numbers ++ [number]⟩ number i ↔ i = numbers.length := by
  have hlast : (numbers ++ [number])[numbers.length]? = some number := by simp
  constructor
  · rintro ⟨hi, hnext⟩
    obtain ⟨hlt, -⟩ := List.getElem?_eq_some_iff.1 hi
    have hle : i ≤ numbers.length := by
      rw [List.length_append, List.length_singleton] at hlt
      exact Nat.le_of_lt_succ hlt
    by_contra hne
    exact hnext numbers.length (lt_of_le_of_ne hle hne) hlast
  · rintro rfl
    refine ⟨hlast, fun j hj hget => ?_⟩
    obtain ⟨hlt, -⟩ := List.getElem?_eq_some_iff.1 hget
    rw [List.length_append, List.length_singleton] at hlt
    omega

theorem maps_append_of_ne (h : last ≠ number) :
    Maps ⟨numbers ++ [last]⟩ number i ↔ Maps ⟨numbers⟩ number i := by
  have hget : ∀ j : Nat, (numbers ++ [last])[j]? = some number ↔ numbers[j]? = some number := by
    intro j
    rw [List.getElem?_append]
    split_ifs with hj
    · rfl
    · rw [List.getElem?_eq_none (Nat.le_of_not_lt hj), List.getElem?_singleton]
      split_ifs <;> simp [h]
  simp only [Maps, hget, ne_eq]

theorem indexOf?_append_singleton :
    indexOf? ⟨numbers ++ [last]⟩ number =
      if number = last then some numbers.length else indexOf? ⟨numbers⟩ number := by
  rw [indexOf?, List.zipIdx_append, List.reverse_append, Nat.zero_add, List.zipIdx_singleton,
    List.reverse_singleton, List.singleton_append, List.lookup_cons]
  by_cases h : number = last
  · simp [h]
  · simp [h, beq_false_of_ne h, indexOf?]

/-- **A look-up** finds the last position of a number. -/
theorem indexOf?_eq_some_iff {table : FunctionTable} :
    table.indexOf? number = some i ↔ table.Maps number i := by
  obtain ⟨numbers⟩ := table
  induction numbers using List.reverseRecOn with
  | nil => simp [indexOf?, Maps]
  | append_singleton numbers last ih =>
    rw [indexOf?_append_singleton]
    split_ifs with h
    · subst h
      rw [maps_append_self, Option.some_inj, eq_comm]
    · rw [maps_append_of_ne (Ne.symm h), ih]

end FunctionTable

namespace BuildContext

/-- Why an index into the run map names no parameter. -/
inductive MapFails (ctx : BuildContext) (index : Nat) : MapFault → Prop
  | indexZero (zero : index = 0) : MapFails ctx index .indexZero
  | pastEnd (past : ctx.runMap.length < index) :
    MapFails ctx index (.pastEnd ctx.runMap.length)
  | noParameter {entry : Int} (counted : 1 ≤ index)
      (entry_eq : ctx.runMap[index - 1]? = some entry)
      (out : ¬ (1 ≤ entry ∧ entry ≤ ctx.paramCount)) :
    MapFails ctx index (.noParameter entry ctx.paramCount)

variable {ctx : BuildContext} {number index : Nat} {reference : Reference} {fault : Fault}

theorem readNumber_eq_ok_iff :
    ctx.readNumber number = .ok reference ↔
      ∃ i, number = i + 1 ∧ i < ctx.paramCount ∧ i < functionOffset ∧
        reference = .parameter i := by
  rw [readNumber_eq]
  constructor
  · intro h
    split_ifs at h with hrange
    cases h
    exact ⟨number - 1, by omega, hrange.2.2, hrange.2.1, rfl⟩
  · rintro ⟨i, rfl, hcount, hoffset, rfl⟩
    rw [if_pos ⟨by omega, hoffset, hcount⟩]
    rfl

theorem readNumber_eq_error_iff :
    ctx.readNumber number = .error fault ↔
      (∀ i, number = i + 1 → ¬ (i < ctx.paramCount ∧ i < functionOffset)) ∧
        fault = .parameterOutOfRange number ctx.paramCount := by
  rw [readNumber_eq]
  split_ifs with hrange
  · constructor
    · intro h
      cases h
    · rintro ⟨hout, -⟩
      exact absurd ⟨hrange.2.2, hrange.2.1⟩ (hout (number - 1) (by omega))
  · constructor
    · intro h
      cases h
      refine ⟨?_, rfl⟩
      rintro i rfl ⟨hcount, hoffset⟩
      exact hrange ⟨by omega, hoffset, hcount⟩
    · rintro ⟨-, rfl⟩
      rfl

theorem readFunction_eq_ok_iff :
    ctx.readFunction number = .ok reference ↔
      ∃ i, ctx.functions.Maps number i ∧ reference = .function i := by
  simp only [readFunction, ← FunctionTable.indexOf?_eq_some_iff]
  cases ctx.functions.indexOf? number with
  | none => simp
  | some i => simp [eq_comm]

theorem readFunction_eq_error_iff :
    ctx.readFunction number = .error fault ↔
      (∀ i, ¬ ctx.functions.Maps number i) ∧ fault = .undefinedFunction number := by
  simp only [readFunction, ← FunctionTable.indexOf?_eq_some_iff]
  cases ctx.functions.indexOf? number with
  | none => simp [eq_comm]
  | some i => simp

theorem readMap_eq_ok_iff :
    ctx.readMap index = .ok reference ↔
      ∃ i : Nat, 1 ≤ index ∧ ctx.runMap[index - 1]? = some ((i : Int) + 1) ∧
        i + 1 ≤ ctx.paramCount ∧ reference = .parameter i := by
  rw [readMap]
  constructor
  · intro h
    split_ifs at h with hzero
    cases hentry : ctx.runMap[index - 1]? with
    | none =>
      simp only [hentry] at h
      cases h
    | some entry =>
      simp only [hentry] at h
      split_ifs at h with hrange
      cases h
      have hnat : ((entry.toNat - 1 : Nat) : Int) + 1 = entry := by omega
      exact ⟨entry.toNat - 1, by omega, by rw [hnat], by omega, rfl⟩
  · rintro ⟨i, hindex, hentry, hcount, rfl⟩
    have hrange : 1 ≤ (i : Int) + 1 ∧ (i : Int) + 1 ≤ ctx.paramCount := by omega
    have hnat : ((i : Int) + 1).toNat - 1 = i := by omega
    simp only [if_neg (Nat.one_le_iff_ne_zero.1 hindex), hentry, if_pos hrange, hnat]

theorem readMap_eq_error_iff :
    ctx.readMap index = .error fault ↔
      ∃ reason, ctx.MapFails index reason ∧ fault = .mapOutOfRange index reason := by
  rw [readMap]
  constructor
  · intro h
    split_ifs at h with hzero
    · cases h
      exact ⟨_, .indexZero hzero, rfl⟩
    cases hentry : ctx.runMap[index - 1]? with
    | none =>
      simp only [hentry] at h
      cases h
      have hlength := List.getElem?_eq_none_iff.1 hentry
      exact ⟨_, .pastEnd (by omega), rfl⟩
    | some entry =>
      simp only [hentry] at h
      split_ifs at h with hrange
      cases h
      exact ⟨_, .noParameter (by omega) hentry hrange, rfl⟩
  · rintro ⟨reason, hfails, rfl⟩
    cases hfails with
    | indexZero zero => rw [if_pos zero]
    | pastEnd past =>
      have hnone : ctx.runMap[index - 1]? = none := List.getElem?_eq_none (by omega)
      simp only [if_neg (show index ≠ 0 by omega), hnone]
    | noParameter counted entry_eq out =>
      simp only [if_neg (Nat.one_le_iff_ne_zero.1 counted), entry_eq, if_neg out]

/-! ## Tokens -/

variable {token : String} {keyword : Keyword} {n : Nat}

theorem readToken_numeral (h : IsNumeral token.toList n) :
    ctx.readToken token = ctx.readNumber n := by
  have hword : word? token.toList = some n := word?_eq_some_iff.2 h
  rw [readToken_number (all_isDigit_of_word? hword), hword]

theorem readToken_spelled (h : keyword.Spelled token.toList n) :
    ctx.readToken token = keyword.read ctx n := by
  obtain ⟨letters, rest, htoken, hletters, hn⟩ := h
  rw [readToken_keyword keyword htoken hletters, word?_eq_some_iff.2 hn]

/-- **A token of neither kind** is not recognized, be it a run of digits for a larger number. -/
theorem readToken_other (hnumber : ∀ n, ¬ IsNumeral token.toList n)
    (hkeyword : ∀ (keyword : Keyword) n, ¬ keyword.Spelled token.toList n) :
    ctx.readToken token = .error (.unrecognizedToken token) := by
  have hword : word? token.toList = none := by
    by_contra hne
    obtain ⟨n, hn⟩ := Option.ne_none_iff_exists'.1 hne
    exact hnumber n (word?_eq_some_iff.1 hn)
  by_cases hdigits : token.toList.all Char.isDigit = true
  · rw [readToken_number hdigits, hword]
  · have hfun : keywordNumber? ['f', 'u', 'n'] token.toList = none :=
      Keyword.keywordNumber?_eq_none (hkeyword .function)
    have hmap : keywordNumber? ['m', 'a', 'p'] token.toList = none :=
      Keyword.keywordNumber?_eq_none (hkeyword .map)
    simp only [readToken, if_neg hdigits, hfun, hmap]

/-- The fault of a token that is no reference. -/
inductive Refuses (ctx : BuildContext) (token : String) : Fault → Prop
  /-- A number that no parameter has, or that lies behind the function offset. -/
  | parameterOutOfRange {n : Nat} (numeral : IsNumeral token.toList n)
      (out : ∀ i, n = i + 1 → ¬ (i < ctx.paramCount ∧ i < functionOffset)) :
    Refuses ctx token (.parameterOutOfRange n ctx.paramCount)
  | undefinedFunction {n : Nat} (spelled : Keyword.function.Spelled token.toList n)
      (undefined : ∀ i, ¬ ctx.functions.Maps n i) :
    Refuses ctx token (.undefinedFunction n)
  | mapOutOfRange {n : Nat} {reason : MapFault} (spelled : Keyword.map.Spelled token.toList n)
      (fails : ctx.MapFails n reason) :
    Refuses ctx token (.mapOutOfRange n reason)
  /-- Neither a numeral nor a keyword with a numeral. -/
  | unrecognizedToken (noNumeral : ∀ n, ¬ IsNumeral token.toList n)
      (noKeyword : ∀ (keyword : Keyword) n, ¬ keyword.Spelled token.toList n) :
    Refuses ctx token (.unrecognizedToken token)

theorem readToken_eq_error_iff :
    ctx.readToken token = .error fault ↔ ctx.Refuses token fault := by
  constructor
  · intro h
    by_cases hnumber : ∃ n, IsNumeral token.toList n
    · obtain ⟨n, hn⟩ := hnumber
      rw [readToken_numeral hn, readNumber_eq_error_iff] at h
      obtain ⟨hout, rfl⟩ := h
      exact .parameterOutOfRange hn hout
    by_cases hkeyword : ∃ (keyword : Keyword) (n : Nat), keyword.Spelled token.toList n
    · obtain ⟨keyword, n, hn⟩ := hkeyword
      rw [readToken_spelled hn] at h
      cases keyword with
      | function =>
        obtain ⟨hundefined, rfl⟩ := readFunction_eq_error_iff.1 h
        exact .undefinedFunction hn hundefined
      | map =>
        obtain ⟨reason, hfails, rfl⟩ := readMap_eq_error_iff.1 h
        exact .mapOutOfRange hn hfails
    · push Not at hnumber hkeyword
      rw [readToken_other hnumber hkeyword] at h
      cases h
      exact .unrecognizedToken hnumber hkeyword
  · intro h
    cases h with
    | parameterOutOfRange numeral out =>
      rw [readToken_numeral numeral]
      exact readNumber_eq_error_iff.2 ⟨out, rfl⟩
    | undefinedFunction spelled undefined =>
      rw [readToken_spelled spelled]
      exact readFunction_eq_error_iff.2 ⟨undefined, rfl⟩
    | mapOutOfRange spelled fails =>
      rw [readToken_spelled spelled]
      exact readMap_eq_error_iff.2 ⟨_, fails, rfl⟩
    | unrecognizedToken noNumeral noKeyword => exact readToken_other noNumeral noKeyword

theorem readToken_eq_ok_iff :
    ctx.readToken token = .ok reference ↔
      (∃ n, IsNumeral token.toList n ∧ ctx.readNumber n = .ok reference) ∨
      ∃ (keyword : Keyword) (n : Nat), keyword.Spelled token.toList n ∧
        keyword.read ctx n = .ok reference := by
  constructor
  · intro h
    rcases readToken_eq_ok h with ⟨n, hword, hread⟩ |
      ⟨keyword, letters, rest, n, htoken, hletters, hword, hread⟩
    · exact .inl ⟨n, word?_eq_some_iff.1 hword, hread⟩
    · exact .inr ⟨keyword, n, ⟨letters, rest, htoken, hletters, word?_eq_some_iff.1 hword⟩, hread⟩
  · rintro (⟨n, hn, hread⟩ | ⟨keyword, n, hn, hread⟩)
    · rw [readToken_numeral hn, hread]
    · rw [readToken_spelled hn, hread]

end BuildContext

/-- **The grammar of parameter tokens**, for all tokens and contexts. A token is read as parameter `i`
exactly if it is a numeral of `i + 1`, below the number of parameters and the function offset, or the
keyword `map` with the numeral of an entry of the run map that holds `i + 1` and is the number of a
parameter. It is read as function `i` exactly if it is the keyword `fun` with the numeral of a number
whose position in the function table is `i`. Every other token has the fault that its kind has. -/
theorem readToken_grammar (ctx : BuildContext) (token : String) :
    (∀ i, ctx.readToken token = .ok (.parameter i) ↔
      (IsNumeral token.toList (i + 1) ∧ i < ctx.paramCount ∧ i < functionOffset) ∨
      ∃ n, Keyword.map.Spelled token.toList n ∧ 1 ≤ n ∧ n ≤ ctx.runMap.length ∧
        ctx.runMap[n - 1]? = some ((i : Int) + 1) ∧ i + 1 ≤ ctx.paramCount) ∧
    (∀ i, ctx.readToken token = .ok (.function i) ↔
      ∃ n, Keyword.function.Spelled token.toList n ∧ ctx.functions.Maps n i) ∧
    ∀ fault, ctx.readToken token = .error fault ↔ ctx.Refuses token fault := by
  refine ⟨fun i => ?_, fun i => ?_, fun fault => BuildContext.readToken_eq_error_iff⟩
  · rw [BuildContext.readToken_eq_ok_iff]
    constructor
    · rintro (⟨n, hn, hread⟩ | ⟨keyword, n, hn, hread⟩)
      · obtain ⟨j, rfl, hcount, hoffset, hj⟩ := BuildContext.readNumber_eq_ok_iff.1 hread
        cases hj
        exact .inl ⟨hn, hcount, hoffset⟩
      · cases keyword with
        | function =>
          obtain ⟨j, -, hj⟩ := BuildContext.readFunction_eq_ok_iff.1 hread
          cases hj
        | map =>
          obtain ⟨j, hone, hentry, hcount, hj⟩ := BuildContext.readMap_eq_ok_iff.1 hread
          cases hj
          obtain ⟨hlt, -⟩ := List.getElem?_eq_some_iff.1 hentry
          exact .inr ⟨n, hn, hone, by omega, hentry, hcount⟩
    · rintro (⟨hn, hcount, hoffset⟩ | ⟨n, hn, hone, -, hentry, hcount⟩)
      · exact .inl ⟨i + 1, hn, BuildContext.readNumber_eq_ok_iff.2 ⟨i, rfl, hcount, hoffset, rfl⟩⟩
      · exact .inr ⟨.map, n, hn, BuildContext.readMap_eq_ok_iff.2 ⟨i, hone, hentry, hcount, rfl⟩⟩
  · rw [BuildContext.readToken_eq_ok_iff]
    constructor
    · rintro (⟨n, -, hread⟩ | ⟨keyword, n, hn, hread⟩)
      · obtain ⟨j, -, -, -, hj⟩ := BuildContext.readNumber_eq_ok_iff.1 hread
        cases hj
      · cases keyword with
        | function =>
          obtain ⟨j, hmaps, hj⟩ := BuildContext.readFunction_eq_ok_iff.1 hread
          cases hj
          exact ⟨n, hn, hmaps⟩
        | map =>
          obtain ⟨j, -, -, -, hj⟩ := BuildContext.readMap_eq_ok_iff.1 hread
          cases hj
    · rintro ⟨n, hn, hmaps⟩
      exact .inr ⟨.function, n, hn, BuildContext.readFunction_eq_ok_iff.2 ⟨i, hmaps, rfl⟩⟩

end MuonSpin
