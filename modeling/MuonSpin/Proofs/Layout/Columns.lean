import MuonSpin.Proofs.Layout.Words
import MuonSpin.Theory.Layout

/-!
# The words of a tidied line

Parameters are set in columns of six characters. A parameter of six characters or more fills its
column, and no blank is left between it and what stands in front of it.

* `fuse`: the words of parameters in columns behind a word; `length_fuse` counts them;
* `Kernel.keepsApart`, `Kernel.fitsColumns`: a blank stands in front of every parameter;
* `code_tidyText`: the tidied text in front of its comment;
* **`wordsOf_code_tidyText`**: its words are `Kernel.tidyWords`, which are the kernel's full name and
  the parameters if these are kept apart, and fewer if not (`Kernel.length_tidyWords_lt`).
-/

namespace MuonSpin

/-! ## Parameters in columns -/

/-- A blank is left in the column of the parameter. -/
def fitsColumn (param : String) : Bool := decide (param.length < 6)

/-- The words of parameters in columns behind a word: a parameter that fills its column becomes a
part of the word in front of it. -/
def fuse (word : List Char) : List String → List (List Char)
  | [] => [word]
  | p :: ps => if fitsColumn p then word :: fuse p.toList ps else fuse (word ++ p.toList) ps

/-- The words of parameters in columns. -/
def columnWords : List String → List (List Char)
  | [] => []
  | p :: ps => fuse p.toList ps

theorem length_fuse (word : List Char) (ps : List String) :
    (fuse word ps).length = ps.countP fitsColumn + 1 := by
  induction ps generalizing word with
  | nil => rfl
  | cons p ps ih =>
    rw [fuse]
    split_ifs with h
    · rw [List.length_cons, ih, List.countP_cons_of_pos h]
    · rw [ih, List.countP_cons_of_neg h]

theorem fuse_of_all {word : List Char} {ps : List String} (h : ps.all fitsColumn = true) :
    fuse word ps = word :: ps.map String.toList := by
  induction ps generalizing word with
  | nil => rfl
  | cons p ps ih =>
    obtain ⟨hp, hps⟩ := List.all_cons.symm ▸ h |> Bool.and_eq_true_iff.1
    rw [fuse, if_pos hp, ih hps, List.map_cons]

theorem exists_fuse (word : List Char) (ps : List String) :
    ∃ more rest, fuse word ps = (word ++ more) :: rest := by
  induction ps generalizing word with
  | nil => exact ⟨[], [], by simp [fuse]⟩
  | cons p ps ih =>
    rw [fuse]
    split_ifs with h
    · exact ⟨[], _, by rw [List.append_nil]⟩
    · obtain ⟨more, rest, hfuse⟩ := ih (word ++ p.toList)
      exact ⟨p.toList ++ more, rest, by rw [hfuse, List.append_assoc]⟩

/-! ## The words of columns -/

theorem toList_spaces (n : Nat) : (spaces n).toList = List.replicate n ' ' :=
  String.toList_ofList

theorem isBlank_of_mem_replicate {n : Nat} {c : Char} (h : c ∈ List.replicate n ' ') :
    isBlank c = true := by
  rw [List.eq_of_mem_replicate h]
  decide

theorem toList_parameterColumns_cons (p : String) (ps : List String) :
    (parameterColumns (p :: ps)).toList =
      List.replicate (6 - p.length) ' ' ++ (p.toList ++ (parameterColumns ps).toList) := by
  simp [parameterColumns, String.toList_join, padLeft, toList_spaces]

section Columns

variable {params : List String} {ds : List Char}

theorem wordsFrom_columns {word : List Char} (hword : word ≠ [])
    (hps : ∀ p ∈ params, p.toList ≠ [] ∧ ∀ c ∈ p.toList, isBlank c = false)
    (hds : ∀ d ∈ ds, isBlank d = true) :
    wordsFrom word ((parameterColumns params).toList ++ ds) = fuse word params := by
  induction params generalizing word with
  | nil =>
    have hnil : (parameterColumns []).toList = [] := by decide
    rw [hnil, wordsFrom_append_blanks hds]
    simp [wordsFrom, fuse, hword]
  | cons p ps ih =>
    obtain ⟨⟨hp, hblank⟩, hps⟩ := List.forall_mem_cons.1 hps
    rw [toList_parameterColumns_cons, List.append_assoc, List.append_assoc, fuse]
    split_ifs with hfit
    · have hne : List.replicate (6 - p.length) ' ' ≠ [] := by
        have hlt : p.length < 6 := by simpa [fitsColumn] using hfit
        simp only [ne_eq, List.replicate_eq_nil_iff]
        omega
      rw [wordsFrom_blanks hword (fun d => isBlank_of_mem_replicate) hne, wordsOf,
        wordsFrom_append hblank, List.nil_append, ih hp hps]
    · have hzero : 6 - p.length = 0 := by
        have hge : 6 ≤ p.length := by simpa [fitsColumn] using hfit
        omega
      rw [hzero, List.replicate_zero, List.nil_append, wordsFrom_append hblank,
        ih (by simp [hword]) hps]

theorem wordsOf_columns
    (hps : ∀ p ∈ params, p.toList ≠ [] ∧ ∀ c ∈ p.toList, isBlank c = false)
    (hds : ∀ d ∈ ds, isBlank d = true) :
    wordsOf ((parameterColumns params).toList ++ ds) = columnWords params := by
  rcases params with _ | ⟨p, ps⟩
  · have hnil : (parameterColumns []).toList = [] := by decide
    rw [hnil, List.nil_append, columnWords, wordsOf_eq_nil_iff]
    exact hds
  · obtain ⟨⟨hp, hblank⟩, hps⟩ := List.forall_mem_cons.1 hps
    rw [toList_parameterColumns_cons, List.append_assoc, List.append_assoc,
      wordsOf_blanks fun d => isBlank_of_mem_replicate, wordsOf, wordsFrom_append hblank,
      List.nil_append, wordsFrom_columns hp hps hds, columnWords]

end Columns

/-! ## Kernels -/

namespace Kernel

/-- A blank stands in front of every parameter: in its column, or behind the kernel's name. -/
def keepsApart (kernel : Kernel) (params : List String) : Bool :=
  params.tail.all fitsColumn && (decide (kernel.name.length < 10) || params.head?.all fitsColumn)

/-- A blank stands in front of every parameter if a line with this kernel is laid out in columns: user
functions are not, and other kernels only with a right number of parameters. -/
def fitsColumns (kernel : Kernel) (params : List String) : Bool :=
  match kernel with
  | .user => true
  | _ => !kernel.arity.accepts params.length || kernel.keepsApart params

theorem fitsColumns_of_ne {kernel : Kernel} {params : List String} (h : kernel ≠ .user) :
    kernel.fitsColumns params =
      (!kernel.arity.accepts params.length || kernel.keepsApart params) := by
  cases kernel with
  | closed form | static family | dynamic family => rfl
  | user => exact absurd rfl h

/-- The words of the kernel's name and of parameters in columns behind it. -/
def tidyWords (kernel : Kernel) (params : List String) : List (List Char) :=
  if kernel.name.length < 10 then kernel.name.toList :: columnWords params
  else fuse kernel.name.toList params

theorem tidyWords_of_keepsApart {kernel : Kernel} {params : List String}
    (h : kernel.keepsApart params = true) :
    kernel.tidyWords params = kernel.name.toList :: params.map String.toList := by
  rw [keepsApart, Bool.and_eq_true_iff, Bool.or_eq_true_iff, decide_eq_true_iff] at h
  obtain ⟨htail, hhead⟩ := h
  rw [tidyWords]
  split_ifs with hname
  · rcases params with _ | ⟨p, ps⟩
    · rfl
    · rw [List.tail_cons] at htail
      rw [columnWords, fuse_of_all htail, List.map_cons]
  · refine fuse_of_all ?_
    rcases params with _ | ⟨p, ps⟩
    · rfl
    · simpa using ⟨by simpa [hname] using hhead, by simpa using htail⟩

/-- The first word begins with the kernel's name. -/
theorem exists_tidyWords (kernel : Kernel) (params : List String) :
    ∃ more rest, kernel.tidyWords params = (kernel.name.toList ++ more) :: rest := by
  rw [tidyWords]
  split_ifs with hname
  · exact ⟨[], _, by rw [List.append_nil]⟩
  · exact exists_fuse _ _

/-- **Parameters that are not kept apart are fewer words.** -/
theorem length_tidyWords_lt {kernel : Kernel} {params : List String}
    (h : kernel.keepsApart params = false) :
    (kernel.tidyWords params).length < params.length + 1 := by
  have hcount : ∀ ps : List String, ps.all fitsColumn = false →
      ps.countP fitsColumn < ps.length := by
    intro ps hps
    refine lt_of_le_of_ne List.countP_le_length fun heq => ?_
    rw [List.countP_eq_length, ← List.all_eq_true] at heq
    simp [heq] at hps
  rw [keepsApart, Bool.and_eq_false_iff, Bool.or_eq_false_iff, decide_eq_false_iff_not] at h
  rw [tidyWords]
  rcases params with _ | ⟨p, ps⟩
  · simp at h
  · split_ifs with hname
    · have htail : ps.all fitsColumn = false := by simpa [hname] using h
      have := hcount ps htail
      simp only [columnWords, List.length_cons, length_fuse]
      omega
    · have hall : (p :: ps).all fitsColumn = false := by
        rcases h with h | h
        · simpa using fun _ => by simpa using h
        · have hp : fitsColumn p = false := by simpa using h.2
          simp [hp]
      have := hcount (p :: ps) hall
      rw [length_fuse]
      omega

theorem name_chars (kernel : Kernel) :
    1 < kernel.name.length ∧
      ∀ c ∈ kernel.name.toList, isBlank c = false ∧ TheoryLine.isContent c = true := by
  have hall : (all.all fun k => decide (1 < k.name.length) &&
      k.name.toList.all fun c => !isBlank c && TheoryLine.isContent c) = true := by decide +kernel
  have hkernel := List.all_eq_true.1 hall kernel (mem_all kernel)
  simpa using hkernel

theorem search_name (kernel : Kernel) : search kernel.name = some kernel := by
  have h : ∀ k ∈ all, search k.name = some k := by decide +kernel
  exact h kernel (mem_all kernel)

theorem head_comment (kernel : Kernel) : kernel.signature.comment.toList.head? = some '(' := by
  have hall : (all.all fun k => k.signature.comment.toList.head? == some '(') = true := by
    decide +kernel
  have hkernel := List.all_eq_true.1 hall kernel (mem_all kernel)
  exact eq_of_beq hkernel

theorem head_shiftComment {comment : String} (h : comment.toList.head? = some '(') :
    (Signature.shiftComment comment).toList.head? = some '(' := by
  rw [Signature.shiftComment]
  split
  · rename_i rest hrest
    have hcomment : comment.toList = rest.reverse ++ [')'] := by
      rw [← List.reverse_reverse comment.toList, hrest, List.reverse_cons]
    rw [hcomment] at h
    rw [String.toList_append, String.toList_ofList]
    rcases hrev : rest.reverse with _ | ⟨c, cs⟩
    · simp [hrev] at h
    · simpa [hrev] using h
  · exact h

end Kernel

/-! ## Tidied lines -/

theorem takeWhile_isContent_append {code : List Char} {comment : String}
    (hcode : ∀ c ∈ code, TheoryLine.isContent c = true) (h : comment.toList.head? = some '(') :
    (code ++ comment.toList).takeWhile TheoryLine.isContent = code := by
  rw [List.takeWhile_append_of_pos hcode]
  rcases hc : comment.toList with _ | ⟨c, cs⟩
  · simp
  · rw [hc, List.head?_cons, Option.some_inj] at h
    simp [h, TheoryLine.isContent]

theorem isContent_parameterColumns {params : List String}
    (hps : ∀ p ∈ params, ∀ c ∈ p.toList, TheoryLine.isContent c = true) :
    ∀ c ∈ (parameterColumns params).toList, TheoryLine.isContent c = true := by
  induction params with
  | nil =>
    have hnil : (parameterColumns []).toList = [] := by decide
    simp [hnil]
  | cons p ps ih =>
    obtain ⟨hp, hps⟩ := List.forall_mem_cons.1 hps
    intro c hc
    rw [toList_parameterColumns_cons, List.mem_append, List.mem_append] at hc
    rcases hc with hc | hc | hc
    · rw [List.eq_of_mem_replicate hc]
      decide
    · exact hp c hc
    · exact ih hps c hc

/-- In front of a comment the text of a line is cut off. -/
theorem takeWhile_columns (kernel : Kernel) {params : List String}
    (hps : ∀ p ∈ params, ∀ c ∈ p.toList, TheoryLine.isContent c = true) (m n : Nat)
    {comment : String} (hcomment : comment.toList.head? = some '(') :
    (kernel.name.toList ++ (List.replicate m ' ' ++
      ((parameterColumns params).toList ++ List.replicate n ' ')) ++
        comment.toList).takeWhile TheoryLine.isContent =
      kernel.name.toList ++ (List.replicate m ' ' ++
        ((parameterColumns params).toList ++ List.replicate n ' ')) := by
  refine takeWhile_isContent_append (fun c hc => ?_) hcomment
  have hspace : ∀ {k : Nat}, c ∈ List.replicate k ' ' → TheoryLine.isContent c = true := by
    intro k hk
    rw [List.eq_of_mem_replicate hk]
    decide
  simp only [List.mem_append] at hc
  rcases hc with hc | hc | hc | hc
  · exact (kernel.name_chars.2 c hc).2
  · exact hspace hc
  · exact isContent_parameterColumns hps c hc
  · exact hspace hc

theorem toList_padded (kernel : Kernel) (params : List String) (comment : String) :
    (padRightBytes commentColumn (padRight 10 kernel.name ++ parameterColumns params) ++
      comment).toList =
    kernel.name.toList ++ (List.replicate (10 - kernel.name.length) ' ' ++
      ((parameterColumns params).toList ++ List.replicate (commentColumn -
        (padRight 10 kernel.name ++ parameterColumns params).utf8ByteSize) ' ')) ++
      comment.toList := by
  simp [padRightBytes, padRight, toList_spaces]

/-- **What a tidied line says in front of its comment:** the full name of the kernel, blanks unless
the name is too long, the parameters in columns, and blanks. -/
theorem code_tidyText {kernel : Kernel} {params : List String} {text : String}
    (hkernel : kernel ≠ .user)
    (hps : ∀ p ∈ params, ∀ c ∈ p.toList, TheoryLine.isContent c = true)
    (h : tidyText? kernel params = some text) :
    ∃ m n, (m = 0 ↔ 10 ≤ kernel.name.length) ∧
      text.toList.takeWhile TheoryLine.isContent =
        kernel.name.toList ++ (List.replicate m ' ' ++
          ((parameterColumns params).toList ++ List.replicate n ' ')) := by
  unfold tidyText? at h
  split at h
  · rw [Option.some_inj] at h
    have hname : Kernel.name (.closed .polynomial) = "polynom" := rfl
    have hcut := takeWhile_columns (.closed .polynomial) hps 1 1
      (Kernel.head_comment (.closed .polynomial))
    refine ⟨1, 1, by decide, ?_⟩
    rw [← hcut, ← h, hname]
    simp [String.toList_append]
  · exact absurd rfl hkernel
  · have hm : 10 - kernel.name.length = 0 ↔ 10 ≤ kernel.name.length := by omega
    split_ifs at h with hcount
    · rw [← Option.some_inj.1 h, toList_padded]
      exact ⟨_, _, hm, takeWhile_columns kernel hps _ _ kernel.head_comment⟩
    · rw [← Option.some_inj.1 h, toList_padded]
      exact ⟨_, _, hm, takeWhile_columns kernel hps _ _
        (Kernel.head_shiftComment kernel.head_comment)⟩

theorem wordsOf_code_tidyText {kernel : Kernel} {params : List String} {text : String}
    (hkernel : kernel ≠ .user)
    (hps : ∀ p ∈ params, p.toList ≠ [] ∧
      ∀ c ∈ p.toList, isBlank c = false ∧ TheoryLine.isContent c = true)
    (h : tidyText? kernel params = some text) :
    wordsOf (text.toList.takeWhile TheoryLine.isContent) = kernel.tidyWords params := by
  obtain ⟨m, n, hm, hcode⟩ := code_tidyText hkernel (fun p hp c hc => ((hps p hp).2 c hc).2) h
  have hword : ∀ p ∈ params, p.toList ≠ [] ∧ ∀ c ∈ p.toList, isBlank c = false :=
    fun p hp => ⟨(hps p hp).1, fun c hc => ((hps p hp).2 c hc).1⟩
  have hname : kernel.name.toList ≠ [] := by
    have := kernel.name_chars.1
    rw [← String.length_toList] at this
    exact List.ne_nil_of_length_pos (by omega)
  rw [hcode, wordsOf, wordsFrom_append fun c hc => (kernel.name_chars.2 c hc).1, List.nil_append,
    Kernel.tidyWords]
  split_ifs with hlt
  · have hne : List.replicate m ' ' ≠ [] := by
      simp only [ne_eq, List.replicate_eq_nil_iff]
      omega
    rw [wordsFrom_blanks hname (fun d => isBlank_of_mem_replicate) hne,
      wordsOf_columns hword fun d => isBlank_of_mem_replicate]
  · have hzero : m = 0 := hm.2 (by omega)
    rw [hzero, List.replicate_zero, List.nil_append,
      wordsFrom_columns hname hword fun d => isBlank_of_mem_replicate]

end MuonSpin
