import Mathlib.Tactic.SplitIfs
import MuonSpin.Report.Csv

/-!
# Reading tables of comma-separated values

A reader takes the lines of a table at its line feeds, and the fields of a line at its commas.

* `IsTable`: the rows that a text is read as, which are unique (`IsTable.unique`);
* `IsField`: a text without commas and line feeds. **Nothing else is read from a table**
  (`IsTable.isField`), and rows of fields are read as they were written (`isTable_rows`);
* `isField_fixedText`: a number with decimals is a field;
* **`isTable_iff_names`**: an exported table is read as its rows if and only if the name of every run with
  a row is a field; `not_isTable_comma`: not every name is one.
-/

namespace MuonSpin

/-! ## Pieces of a text -/

section Pieces

variable {a c : Char} {piece cs : List Char}

theorem of_mem_splitOn (h : piece ∈ cs.splitOn a) (hc : c ∈ piece) : c ≠ a ∧ c ∈ cs := by
  induction cs generalizing piece with
  | nil =>
    rw [List.splitOn_nil, List.mem_singleton] at h
    rw [h] at hc
    cases hc
  | cons d cs ih =>
    rw [List.splitOn_cons_eq_if_modifyHead] at h
    split_ifs at h with hd
    · rcases List.mem_cons.1 h with rfl | h
      · cases hc
      · exact (ih h hc).imp_right (List.mem_cons_of_mem d)
    · obtain ⟨first, rest, hsplit⟩ := List.exists_cons_of_ne_nil (List.splitOn_ne_nil a cs)
      rw [hsplit, List.modifyHead_cons] at h
      rcases List.mem_cons.1 h with rfl | h
      · rcases List.mem_cons.1 hc with rfl | hc
        · exact ⟨by simpa using hd, List.mem_cons_self⟩
        · exact (ih (by rw [hsplit]; exact List.mem_cons_self) hc).imp_right
            (List.mem_cons_of_mem d)
      · exact (ih (by rw [hsplit]; exact List.mem_cons_of_mem _ h) hc).imp_right
          (List.mem_cons_of_mem d)

end Pieces

/-! ## Tables -/

/-- The fields of a line. -/
def lineFields (line : List Char) : List String := (line.splitOn ',').map String.ofList

/-- The text consists of lines, each with a line feed behind it, and the fields of the lines are the
rows. -/
def IsTable (text : String) (rows : List (List String)) : Prop :=
  ∃ lines : List (List Char), text.toList.splitOn '\n' = lines ++ [[]] ∧
    lines.map lineFields = rows

/-- A text that can stand in a table. -/
def IsField (text : String) : Prop := ∀ c ∈ text.toList, c ≠ ',' ∧ c ≠ '\n'

instance (text : String) : Decidable (IsField text) :=
  List.decidableBAll (fun c => c ≠ ',' ∧ c ≠ '\n') text.toList

section Tables

variable {text : String} {row : List String} {rows rows' : List (List String)}

theorem IsTable.unique (h : IsTable text rows) (h' : IsTable text rows') : rows = rows' := by
  obtain ⟨lines, hlines, rfl⟩ := h
  obtain ⟨lines', hlines', rfl⟩ := h'
  rw [hlines, List.append_cancel_right_eq] at hlines'
  rw [hlines']

/-- **What is read from a table** contains neither a comma nor a line feed. -/
theorem IsTable.isField (h : IsTable text rows) : ∀ row ∈ rows, ∀ field ∈ row, IsField field := by
  obtain ⟨lines, hlines, rfl⟩ := h
  intro row hrow field hfield c hc
  obtain ⟨line, hline, rfl⟩ := List.mem_map.1 hrow
  obtain ⟨piece, hpiece, rfl⟩ := List.mem_map.1 hfield
  rw [String.toList_ofList] at hc
  obtain ⟨hcomma, hmem⟩ := of_mem_splitOn hpiece hc
  have hsplit : line ∈ text.toList.splitOn '\n' := by
    rw [hlines]
    exact List.mem_append_left _ hline
  exact ⟨hcomma, (of_mem_splitOn hsplit hmem).1⟩

theorem toList_csvRow (row : List String) :
    (csvRow row).toList = [','].intercalate (row.map String.toList) ++ ['\n'] := by
  simp [csvRow]

theorem not_mem_intercalate (h : ∀ field ∈ row, IsField field) :
    '\n' ∉ [','].intercalate (row.map String.toList) := by
  induction row with
  | nil => simp
  | cons field row ih =>
    obtain ⟨hfield, hrow⟩ := List.forall_mem_cons.1 h
    have hhead : '\n' ∉ field.toList := fun hc => (hfield _ hc).2 rfl
    rcases row with _ | ⟨next, row⟩
    · simpa using hhead
    · have htail := ih hrow
      rw [List.map_cons] at htail
      rw [List.map_cons, List.map_cons, List.intercalate_cons_cons]
      simp [hhead, htail]

theorem lineFields_intercalate (hne : row ≠ []) (h : ∀ field ∈ row, IsField field) :
    lineFields ([','].intercalate (row.map String.toList)) = row := by
  have hcomma : ∀ cs ∈ row.map String.toList, ',' ∉ cs := by
    intro cs hcs hmem
    obtain ⟨field, hfield, rfl⟩ := List.mem_map.1 hcs
    exact (h field hfield _ hmem).1 rfl
  rw [lineFields, List.splitOn_intercalate _ hcomma (by simpa using hne), List.map_map]
  simp [Function.comp_def]

theorem isTable_rows (h : ∀ row ∈ rows, row ≠ [] ∧ ∀ field ∈ row, IsField field) :
    IsTable (String.join (rows.map csvRow)) rows := by
  induction rows with
  | nil => exact ⟨[], by decide, rfl⟩
  | cons row rows ih =>
    obtain ⟨⟨hne, hrow⟩, hrows⟩ := List.forall_mem_cons.1 h
    obtain ⟨lines, hlines, hfields⟩ := ih hrows
    refine ⟨[','].intercalate (row.map String.toList) :: lines, ?_, ?_⟩
    · have htext : (String.join ((row :: rows).map csvRow)).toList =
          [','].intercalate (row.map String.toList) ++
            '\n' :: (String.join (rows.map csvRow)).toList := by
        rw [String.toList_join, String.toList_join, List.map_cons, List.flatMap_cons,
          toList_csvRow, List.append_assoc, List.singleton_append]
      rw [htext, List.splitOn_append_cons_self_of_not_mem (not_mem_intercalate hrow), hlines,
        List.cons_append]
    · rw [List.map_cons, lineFields_intercalate hne hrow, hfields]

theorem isTable_rows_iff (hne : ∀ row ∈ rows, row ≠ []) :
    IsTable (String.join (rows.map csvRow)) rows ↔ ∀ row ∈ rows, ∀ field ∈ row, IsField field :=
  ⟨IsTable.isField, fun h => isTable_rows fun row hrow => ⟨hne row hrow, h row hrow⟩⟩

end Tables

/-! ## Numbers -/

theorem isField_append {a b : String} (ha : IsField a) (hb : IsField b) : IsField (a ++ b) := by
  intro c hc
  rw [String.toList_append] at hc
  exact (List.mem_append.1 hc).elim (ha c) (hb c)

theorem isField_pointText (places units : Nat) : IsField (pointText places units) := by
  have hdigit : ∀ {c : Char}, c.isDigit = true → c ≠ ',' ∧ c ≠ '\n' := by
    rintro c hc
    constructor <;> rintro rfl <;> exact absurd hc (by decide)
  have hdigits : ∀ n, ∀ c ∈ List.replicate n '0' ++ Nat.toDigits 10 units,
      c ≠ ',' ∧ c ≠ '\n' := by
    intro n c hc
    rcases List.mem_append.1 hc with hc | hc
    · rw [List.eq_of_mem_replicate hc]
      decide
    · exact hdigit (Nat.isDigit_of_mem_toDigits (by decide) (by decide) hc)
  intro c hc
  unfold pointText at hc
  simp only at hc
  split_ifs at hc
  · rw [String.toList_ofList] at hc
    exact hdigits _ c (List.mem_of_mem_take hc)
  · rw [String.toList_ofList] at hc
    rcases List.mem_append.1 hc with hc | hc
    · exact hdigits _ c (List.mem_of_mem_take hc)
    · rcases List.mem_cons.1 hc with rfl | hc
      · decide
      · exact hdigits _ c (List.mem_of_mem_drop hc)

/-- **A number is a field**, whether it is finite or not. -/
theorem isField_fixedText (places : Nat) (x : Float) : IsField (fixedText places x) := by
  have hsign : ∀ negative, IsField (signText negative) := by decide
  unfold fixedText
  split
  · decide
  · exact isField_append (hsign _) (by decide)
  · exact isField_append (hsign _) (isField_pointText _ _)

/-! ## Exported tables -/

section Exports

variable {curve : Curve} {run : SampledRun} {row : List String}

theorem Curve.of_mem_rows (h : row ∈ curve.rows) :
    ∃ t v, row = [curve.run, timeField t, valueField v] := by
  obtain ⟨⟨t, v⟩, -, rfl⟩ := List.mem_map.1 h
  exact ⟨t, v, rfl⟩

theorem SampledRun.of_mem_rows (h : row ∈ run.rows) : ∃ p : Sample,
    row = [run.run, timeField p.t, valueField p.model, valueField p.observed,
      valueField p.sigma] := by
  obtain ⟨p, -, rfl⟩ := List.mem_map.1 h
  exact ⟨p, rfl⟩

/-- A table whose rows are a name with fields behind it is read as its rows exactly if the names are
fields. -/
theorem isTable_csv_iff {α : Type} {header : List String} {items : List α} {name : α → String}
    {rows : α → List (List String)} (hheader : header ≠ [] ∧ ∀ field ∈ header, IsField field)
    (hrows : ∀ item ∈ items, ∀ row ∈ rows item,
      ∃ fields, row = name item :: fields ∧ ∀ field ∈ fields, IsField field) :
    IsTable (csvRow header ++ String.join ((items.flatMap rows).map csvRow))
        (header :: items.flatMap rows) ↔
      ∀ item ∈ items, rows item ≠ [] → IsField (name item) := by
  have htext : csvRow header ++ String.join ((items.flatMap rows).map csvRow) =
      String.join ((header :: items.flatMap rows).map csvRow) := by
    rw [List.map_cons, ← String.toList_inj, String.toList_append, String.toList_join,
      String.toList_join, List.flatMap_cons]
  have hne : ∀ row ∈ header :: items.flatMap rows, row ≠ [] := by
    refine List.forall_mem_cons.2 ⟨hheader.1, fun row hrow => ?_⟩
    obtain ⟨item, hitem, hrow⟩ := List.mem_flatMap.1 hrow
    obtain ⟨fields, rfl, -⟩ := hrows item hitem row hrow
    exact List.cons_ne_nil _ _
  rw [htext, isTable_rows_iff hne, List.forall_mem_cons]
  constructor
  · rintro ⟨-, h⟩ item hitem hsome
    obtain ⟨row, hrow⟩ := List.exists_mem_of_ne_nil _ hsome
    obtain ⟨fields, rfl, -⟩ := hrows item hitem row hrow
    exact h _ (List.mem_flatMap.2 ⟨item, hitem, hrow⟩) _ List.mem_cons_self
  · intro h
    refine ⟨hheader.2, fun row hrow => ?_⟩
    obtain ⟨item, hitem, hrow⟩ := List.mem_flatMap.1 hrow
    obtain ⟨fields, rfl, hfields⟩ := hrows item hitem row hrow
    exact List.forall_mem_cons.2 ⟨h item hitem (List.ne_nil_of_mem hrow), hfields⟩

end Exports

/-- **An exported table is read as its rows**, the header and one row for each curve and each of its
times with a value, or for each run and each of its measurements, if and only if the name of every run
that has a row contains neither a comma nor a line feed. -/
theorem isTable_iff_names (curves : List Curve) (runs : List SampledRun) :
    (IsTable (curvesCsv curves) (["run", "t_us", "value"] :: curves.flatMap Curve.rows) ↔
      ∀ curve ∈ curves, curve.rows ≠ [] → IsField curve.run) ∧
    (IsTable (samplesCsv runs)
        (["run", "t_us", "model", "observed", "sigma"] :: runs.flatMap SampledRun.rows) ↔
      ∀ run ∈ runs, run.rows ≠ [] → IsField run.run) := by
  constructor
  · refine isTable_csv_iff (by decide) fun curve _ row hrow => ?_
    obtain ⟨t, v, rfl⟩ := Curve.of_mem_rows hrow
    refine ⟨_, rfl, ?_⟩
    simp [timeField, valueField, isField_fixedText]
  · refine isTable_csv_iff (by decide) fun run _ row hrow => ?_
    obtain ⟨p, rfl⟩ := SampledRun.of_mem_rows hrow
    refine ⟨_, rfl, ?_⟩
    simp [timeField, valueField, isField_fixedText]

/-- **A comma in a name** is read as the end of a field: whatever rows the table is read as, the name is
not the first field of its row. -/
theorem not_isTable_comma : ¬ ∃ rows, IsTable (curvesCsv [⟨"a,b", [0], [1]⟩]) rows ∧
    rows.map List.head? = [some "run", some "a,b"] := by
  rintro ⟨rows, htable, hheads⟩
  have hmem : some "a,b" ∈ rows.map List.head? := by
    rw [hheads]
    decide
  obtain ⟨row, hrow, hhead⟩ := List.mem_map.1 hmem
  have hfield : IsField "a,b" :=
    htable.isField row hrow "a,b" (List.mem_of_head? hhead)
  exact absurd hfield (by decide)

end MuonSpin
