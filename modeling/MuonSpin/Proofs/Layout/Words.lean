import Mathlib.Data.List.TakeWhile
import MuonSpin.Kernel.Basic
import MuonSpin.Text.Blank
import MuonSpin.Theory.Line

/-!
# The words of a text

* `wordsFrom_append`, `wordsFrom_append_blanks`: the words of a text that is put together;
* `wordsOf_trimChars`: blanks around a text do not matter;
* **`TheoryLine.tokens_eq`**: the tokens of a line are the words in front of its comment, and
  `TheoryLine.isEmpty_content_iff`: a line without content is one without tokens.
-/

namespace MuonSpin

/-! ## Texts put together -/

section Words

variable {word w cs ds : List Char} {c : Char}

theorem wordsFrom_append (hw : ∀ d ∈ w, isBlank d = false) :
    wordsFrom word (w ++ cs) = wordsFrom (word ++ w) cs := by
  induction w generalizing word with
  | nil => simp
  | cons d w ih =>
    obtain ⟨hd, hw⟩ := List.forall_mem_cons.1 hw
    rw [List.cons_append, wordsFrom, if_neg (by simp [hd]), ih hw]
    simp

theorem wordsFrom_blank (hword : word ≠ []) (hc : isBlank c = true) :
    wordsFrom word (c :: cs) = word :: wordsOf cs := by
  rw [wordsFrom, if_pos hc, if_neg (by simpa using hword), wordsOf]

theorem wordsOf_blank (hc : isBlank c = true) : wordsOf (c :: cs) = wordsOf cs := by
  simp [wordsOf, wordsFrom, hc]

theorem wordsOf_blanks (hds : ∀ d ∈ ds, isBlank d = true) :
    wordsOf (ds ++ cs) = wordsOf cs := by
  induction ds with
  | nil => rfl
  | cons d ds ih =>
    obtain ⟨hd, hds⟩ := List.forall_mem_cons.1 hds
    rw [List.cons_append, wordsOf_blank hd, ih hds]

theorem wordsFrom_blanks (hword : word ≠ []) (hds : ∀ d ∈ ds, isBlank d = true) (hne : ds ≠ []) :
    wordsFrom word (ds ++ cs) = word :: wordsOf cs := by
  rcases ds with _ | ⟨d, ds⟩
  · exact absurd rfl hne
  · obtain ⟨hd, hds⟩ := List.forall_mem_cons.1 hds
    rw [List.cons_append, wordsFrom_blank hword hd, wordsOf_blanks hds]

theorem wordsFrom_append_blanks (hds : ∀ d ∈ ds, isBlank d = true) :
    wordsFrom word (cs ++ ds) = wordsFrom word cs := by
  induction cs generalizing word with
  | nil =>
    have hds' : wordsOf (ds ++ []) = wordsOf [] := wordsOf_blanks hds
    have hnil : wordsOf ds = [] := by simpa [wordsOf, wordsFrom] using hds'
    rcases eq_or_ne word [] with rfl | hword
    · simpa [wordsOf, wordsFrom] using hnil
    · rcases eq_or_ne ds [] with rfl | hne
      · rfl
      · have h : wordsFrom word (ds ++ []) = word :: wordsOf [] := wordsFrom_blanks hword hds hne
        rw [List.append_nil] at h
        simp [h, wordsOf, wordsFrom, hword]
  | cons c cs ih =>
    rw [List.cons_append, wordsFrom, wordsFrom]
    split_ifs
    · exact ih
    · rw [ih]
    · exact ih

theorem wordsOf_dropWhile_isBlank (cs : List Char) :
    wordsOf (cs.dropWhile isBlank) = wordsOf cs := by
  have hds : ∀ d ∈ cs.takeWhile isBlank, isBlank d = true := fun d hd => List.mem_takeWhile_imp hd
  have h : wordsOf (cs.takeWhile isBlank ++ cs.dropWhile isBlank) =
      wordsOf (cs.dropWhile isBlank) := wordsOf_blanks hds
  rw [List.takeWhile_append_dropWhile] at h
  exact h.symm

theorem trimEndChars_append (cs : List Char) :
    ∃ ds, (∀ d ∈ ds, isBlank d = true) ∧ cs = trimEndChars cs ++ ds := by
  refine ⟨(cs.reverse.takeWhile isBlank).reverse, ?_, ?_⟩
  · intro d hd
    exact List.mem_takeWhile_imp (List.mem_reverse.1 hd)
  · rw [trimEndChars, ← List.reverse_append, List.takeWhile_append_dropWhile, List.reverse_reverse]

theorem wordsOf_trimChars (cs : List Char) : wordsOf (trimChars cs) = wordsOf cs := by
  obtain ⟨ds, hds, h⟩ := trimEndChars_append (cs.dropWhile isBlank)
  calc wordsOf (trimChars cs)
      = wordsOf (trimEndChars (cs.dropWhile isBlank) ++ ds) := (wordsFrom_append_blanks hds).symm
    _ = wordsOf cs := by rw [← h, wordsOf_dropWhile_isBlank]

theorem wordsOf_eq_nil_iff : wordsOf cs = [] ↔ ∀ c ∈ cs, isBlank c = true := by
  constructor
  · intro h
    by_contra hne
    have hdrop : cs.dropWhile isBlank ≠ [] := by
      rwa [ne_eq, List.dropWhile_eq_nil_iff]
    obtain ⟨c, rest, hc⟩ := List.exists_cons_of_ne_nil hdrop
    have hblank : isBlank c = false := by
      have := List.head_dropWhile_not isBlank hdrop
      simpa [hc] using this
    rw [← wordsOf_dropWhile_isBlank, hc, wordsOf, wordsFrom, if_neg (by simp [hblank])] at h
    have hword : ∀ {word cs : List Char}, word ≠ [] → wordsFrom word cs ≠ [] := by
      intro word cs
      induction cs generalizing word with
      | nil => simp [wordsFrom]
      | cons c cs ih =>
        intro hne
        rw [wordsFrom]
        split_ifs <;> simp_all
    exact hword (by simp) h
  · intro h
    have hcs : wordsOf (cs ++ []) = wordsOf [] := wordsOf_blanks h
    simpa [wordsOf, wordsFrom] using hcs

theorem mem_of_mem_wordsFrom (hw : w ∈ wordsFrom word cs) (hc : c ∈ w) : c ∈ word ∨ c ∈ cs := by
  induction cs generalizing word with
  | nil =>
    rw [wordsFrom] at hw
    split_ifs at hw
    · cases hw
    · rw [List.mem_singleton] at hw
      exact .inl (hw ▸ hc)
  | cons d cs ih =>
    rw [wordsFrom] at hw
    split_ifs at hw
    · exact (ih hw).imp_right (List.mem_cons_of_mem d) |>.imp_left (by simp)
    · rcases List.mem_cons.1 hw with rfl | hw
      · exact .inl hc
      · exact (ih hw).imp (by simp) (List.mem_cons_of_mem d)
    · rcases ih hw with h | h
      · rcases List.mem_append.1 h with h | h
        · exact .inl h
        · exact .inr (by simp [List.mem_singleton.1 h])
      · exact .inr (List.mem_cons_of_mem d h)

end Words

/-! ## Tokens -/

namespace TheoryLine

variable {line : TheoryLine} {kernel : Kernel}

/-- The characters in front of the comment. -/
def code (line : TheoryLine) : List Char := line.text.toList.takeWhile isContent

theorem tokens_eq (line : TheoryLine) : line.tokens = (wordsOf line.code).map String.ofList := by
  rw [tokens, words, content, String.toList_ofList, wordsOf_trimChars, code]

theorem isEmpty_content_iff : line.content.isEmpty = true ↔ line.tokens = [] := by
  rw [String.isEmpty_iff, content, String.ofList_eq_empty_iff, tokens, words, content,
    String.toList_ofList, List.map_eq_nil_iff]
  refine ⟨fun h => by rw [h]; rfl, fun h => ?_⟩
  rw [wordsOf_trimChars, wordsOf_eq_nil_iff] at h
  have hdrop : (line.text.toList.takeWhile isContent).dropWhile isBlank = [] :=
    List.dropWhile_eq_nil_iff.2 h
  rw [trimChars, hdrop]
  rfl

theorem of_mem_tokens {token : String} (h : token ∈ line.tokens) :
    token.toList ≠ [] ∧ ∀ c ∈ token.toList, isBlank c = false ∧ isContent c = true := by
  rw [tokens_eq, List.mem_map] at h
  obtain ⟨w, hw, rfl⟩ := h
  rw [String.toList_ofList]
  refine ⟨words_ne_nil hw, fun c hc => ⟨not_isBlank_of_mem_words hw hc, ?_⟩⟩
  rcases mem_of_mem_wordsFrom hw hc with h | h
  · cases h
  · exact List.mem_takeWhile_imp h

/-! ## Lines that name a kernel -/

theorem tokens_ne_nil_of_search (h : Kernel.search (line.tokens.headD "") = some kernel) :
    line.tokens ≠ [] := by
  have hempty : Kernel.search "" = none := by decide
  intro hnil
  rw [hnil, List.headD_nil, hempty] at h
  cases h

theorem isSeparator_of_search (h : Kernel.search (line.tokens.headD "") = some kernel) :
    line.isSeparator = false := by
  have hplus : Kernel.search "+" = none := by decide
  rcases ht : line.tokens with _ | ⟨name, params⟩
  · exact absurd ht (tokens_ne_nil_of_search h)
  · rw [ht, List.headD_cons] at h
    have hne : name ≠ "+" := by
      rintro rfl
      rw [hplus] at h
      cases h
    simp [isSeparator, ht, hne]

theorem isEmpty_of_search (h : Kernel.search (line.tokens.headD "") = some kernel) :
    line.content.isEmpty = false := by
  rw [Bool.eq_false_iff, ne_eq, isEmpty_content_iff]
  exact tokens_ne_nil_of_search h

end TheoryLine

end MuonSpin
