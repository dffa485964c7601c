import MuonSpin.Json.Writer
import MuonSpin.Proofs.Json.Numerals

/-!
# Documents that are read as they are written

* `decodeText_encodeText`: a text is given back by its code points;
* `JsonReader.points_flatMap`: the code points of a text are read as they are written, also those that
  are escaped;
* `Json.Writable`: documents whose numbers are well-formed and whose texts consist of code points;
* `JsonReader.value_chars`: such a document is read as it is written, at any depth and in front of
  whatever ends it; **the fuel that is needed is the number of characters**;
* **`Json.parse?_pretty`**: the text of a document is read as the document.
-/

namespace MuonSpin

/-! ## Texts -/

theorem not_isHighHalf_toNat (c : Char) : isHighHalf c.toNat = false := by
  have hvalid : c.toNat < 0xD800 ∨ 0xDFFF < c.toNat ∧ c.toNat < 0x110000 := c.valid
  simp only [isHighHalf, Bool.and_eq_false_iff, decide_eq_false_iff_not]
  omega

theorem not_isLowHalf_toNat (c : Char) : isLowHalf c.toNat = false := by
  have hvalid : c.toNat < 0xD800 ∨ 0xDFFF < c.toNat ∧ c.toNat < 0x110000 := c.valid
  simp only [isLowHalf, Bool.and_eq_false_iff, decide_eq_false_iff_not]
  omega

theorem decodeChars_map_toNat (before cs : List Char) :
    decodeChars before (cs.map Char.toNat) = some (before.reverse ++ cs) := by
  induction cs generalizing before with
  | nil => simp [decodeChars]
  | cons c cs ih =>
    rw [List.map_cons, decodeChars.eq_def]
    simp [not_isHighHalf_toNat, not_isLowHalf_toNat, ih]

theorem decodeText_encodeText (s : String) : decodeText (encodeText s) = some s := by
  rw [decodeText, encodeText, decodeChars_map_toNat]
  simp

/-- The number is a code point, or the half of one. -/
def IsCodePoint (n : Nat) : Prop := n < 0x110000

theorem isCodePoint_of_mem_encodeText {s : String} {n : Nat} (h : n ∈ encodeText s) :
    IsCodePoint n := by
  obtain ⟨c, -, rfl⟩ := List.mem_map.1 h
  have hvalid : c.toNat < 0xD800 ∨ 0xDFFF < c.toNat ∧ c.toNat < 0x110000 := c.valid
  unfold IsCodePoint
  omega

namespace JsonReader

open JsonWriter

variable {n : Nat} {before : CodePoints} {rest : List Char} {fuel : Nat}

theorem hexValue?_hexDigit (n : Nat) : hexValue? (hexDigit n) = some (n % 16) := by
  have hdigit : ∀ d < 16, hexValue? (Nat.digitChar d) = some d := by decide
  exact hdigit (n % 16) (Nat.mod_lt n (by decide))

theorem hexFour?_hexEscape (h : n < 0x10000) (rest : List Char) :
    hexFour? (hexDigit (n / 4096) :: hexDigit (n / 256) :: hexDigit (n / 16) :: hexDigit n :: rest) =
      some (n, rest) := by
  have hvalue : ((n / 4096 % 16 * 16 + n / 256 % 16) * 16 + n / 16 % 16) * 16 + n % 16 = n := by
    omega
  simp [hexFour?, hexValue?_hexDigit, hvalue]

theorem points_escape {c : Char} (hu : c ≠ 'u') (hc : escaped? c = some n) :
    points (fuel + 1) before ('\\' :: c :: rest) = points fuel (n :: before) rest := by
  rw [points.eq_def]
  simp [hc]

theorem points_plain {c : Char} (hquote : c ≠ '"') (hslash : c ≠ '\\') (hc : 0x20 ≤ c.toNat) :
    points (fuel + 1) before (c :: rest) = points fuel (c.toNat :: before) rest := by
  rw [points.eq_def]
  simp [hslash, Nat.not_lt.2 hc]

theorem points_pointChars (h : IsCodePoint n) :
    points (fuel + 1) before (pointChars n ++ rest) = points fuel (n :: before) rest := by
  unfold pointChars
  split
  · exact points_escape (by decide) rfl
  · exact points_escape (by decide) rfl
  · exact points_escape (by decide) rfl
  · exact points_escape (by decide) rfl
  · exact points_escape (by decide) rfl
  · exact points_escape (by decide) rfl
  · exact points_escape (by decide) rfl
  · rename_i hquote hslash _ _ _ _ _
    split_ifs with hescape
    · have hsmall : n < 0x10000 := by
        simp only [isHighHalf, isLowHalf, Bool.and_eq_true, decide_eq_true_eq] at hescape
        omega
      rw [points.eq_def]
      simp [hexEscape, hexFour?_hexEscape hsmall]
    · rw [not_or, not_or] at hescape
      obtain ⟨hcontrol, hhigh, hlow⟩ := hescape
      have hvalid : n.isValidChar := by
        simp only [isHighHalf, isLowHalf, Bool.and_eq_true, decide_eq_true_eq] at hhigh hlow
        unfold IsCodePoint at h
        unfold Nat.isValidChar
        omega
      have hchar : (Char.ofNat n).toNat = n := by
        rw [Char.ofNat, dif_pos hvalid]
        rfl
      have hne : ∀ c : Char, c.toNat ≠ n → Char.ofNat n ≠ c := by
        rintro c hc rfl
        exact hc hchar
      rw [List.singleton_append, points_plain (hne _ (Ne.symm hquote)) (hne _ (Ne.symm hslash)) (by omega),
        hchar]

theorem points_flatMap {ps : CodePoints} (h : ∀ n ∈ ps, IsCodePoint n) (hfuel : ps.length < fuel)
    (before : CodePoints) (rest : List Char) :
    points fuel before (ps.flatMap pointChars ++ '"' :: rest) = some (before.reverse ++ ps, rest) := by
  induction ps generalizing fuel before with
  | nil =>
    obtain ⟨fuel, rfl⟩ := Nat.exists_eq_add_of_lt hfuel
    simp [points]
  | cons n ps ih =>
    obtain ⟨hn, hps⟩ := List.forall_mem_cons.1 h
    rw [List.length_cons] at hfuel
    obtain ⟨fuel, rfl⟩ : ∃ k, fuel = k + 1 := ⟨fuel - 1, by omega⟩
    rw [List.flatMap_cons, List.append_assoc, points_pointChars hn, ih hps (by omega)]
    simp

theorem length_le_flatMap (ps : CodePoints) : ps.length ≤ (ps.flatMap pointChars).length := by
  have hpos : ∀ n, 1 ≤ (pointChars n).length := by
    intro n
    unfold pointChars
    split <;> try decide
    split_ifs <;> simp [hexEscape]
  induction ps with
  | nil => exact Nat.le_refl _
  | cons n ps ih =>
    have hn := hpos n
    rw [List.flatMap_cons, List.length_append, List.length_cons]
    omega

end JsonReader

/-! ## Documents -/

/-- Documents with well-formed numbers, whose texts and names consist of code points. -/
inductive Json.Writable : Json → Prop
  | null : Writable .null
  | bool (value : Bool) : Writable (.bool value)
  | number {n : Numeral} (wellFormed : n.WellFormed) : Writable (.number n)
  | text {points : CodePoints} (codePoints : ∀ n ∈ points, IsCodePoint n) : Writable (.text points)
  | array {items : List Json} (values : ∀ item ∈ items, Writable item) : Writable (.array items)
  | object {members : List (CodePoints × Json)}
      (names : ∀ member ∈ members, ∀ n ∈ member.1, IsCodePoint n)
      (values : ∀ member ∈ members, Writable member.2) : Writable (.object members)

namespace JsonReader

open JsonWriter

variable {json : Json} {fuel depth : Nat} {rest cs : List Char}

theorem skip_newline (depth : Nat) (cs : List Char) : skip (newline depth ++ cs) = skip cs := by
  unfold skip newline
  rw [List.dropWhile_append_of_pos]
  intro c hc
  rcases List.mem_cons.1 hc with rfl | hc
  · rfl
  · rw [List.eq_of_mem_replicate hc]
    rfl

theorem skip_cons {c : Char} (h : isBlank c = false) (cs : List Char) :
    skip (c :: cs) = c :: cs := by
  rw [skip, List.dropWhile_cons, h]
  rfl

theorem not_isBlank_of_isDigit {c : Char} (h : c.isDigit = true) : isBlank c = false := by
  simp only [isBlank, Bool.or_eq_false_iff, beq_eq_false_iff_ne]
  refine ⟨⟨⟨?_, ?_⟩, ?_⟩, ?_⟩ <;> rintro rfl <;> cases h

theorem value_congr {cs cs' : List Char} (h : skip cs = skip cs') (fuel : Nat) :
    value fuel cs = value fuel cs' := by
  rcases fuel with _ | fuel
  · rfl
  · rw [value, value, h]

theorem items_congr {cs cs' : List Char} (h : skip cs = skip cs') (fuel : Nat)
    (before : List Json) : items fuel before cs = items fuel before cs' := by
  rcases fuel with _ | fuel
  · rfl
  · rw [items, items, value_congr h]

theorem members_congr {cs cs' : List Char} (h : skip cs = skip cs') (fuel : Nat)
    (before : List (CodePoints × Json)) : members fuel before cs = members fuel before cs' := by
  rcases fuel with _ | fuel
  · rfl
  · rw [members, members, h]

theorem ends_newline (depth : Nat) (cs : List Char) : Ends (newline depth ++ cs) := by
  intro c hc
  cases hc
  decide

theorem exists_chars_eq_cons (h : json.Writable) (depth : Nat) :
    ∃ c cs, chars depth json = c :: cs ∧ isBlank c = false ∧ c ≠ ']' := by
  cases h with
  | null => exact ⟨_, _, rfl, rfl, by decide⟩
  | bool value => cases value <;> exact ⟨_, _, rfl, rfl, by decide⟩
  | @number n wellFormed =>
    rw [chars, Numeral.text_eq, Numeral.magnitudeChars]
    cases n.negative with
    | true => exact ⟨_, _, rfl, rfl, by decide⟩
    | false =>
      obtain ⟨c, cs, hcs⟩ := List.exists_cons_of_ne_nil wellFormed.whole.ne_nil
      have hc : c.isDigit = true := wellFormed.whole.isDigit c (by simp [hcs])
      refine ⟨c, _, by rw [hcs]; rfl, ?_, ?_⟩
      · exact not_isBlank_of_isDigit hc
      · rintro rfl
        cases hc
  | text codePoints => exact ⟨_, _, rfl, rfl, by decide⟩
  | @array items values => cases items <;> exact ⟨_, _, rfl, rfl, by decide⟩
  | @object members names values => cases members <;> exact ⟨_, _, rfl, rfl, by decide⟩

/-- The document is read as it is written, at any depth, in front of whatever can follow, and with no
more fuel than it has characters. -/
def IsRead (json : Json) : Prop :=
  ∀ (depth fuel : Nat) (rest : List Char), (chars depth json).length ≤ fuel → Ends rest →
    value fuel (chars depth json ++ rest) = some (json, rest)

theorem items_chars {item : Json} {others : List Json}
    (h : ∀ json ∈ item :: others, IsRead json) (inner outer : Nat)
    (hfuel : (chars inner item).length + (moreItems inner others).length < fuel)
    (before : List Json) (rest : List Char) :
    items fuel before
        (chars inner item ++ (moreItems inner others ++ (newline outer ++ ']' :: rest))) =
      some (.array (before.reverse ++ item :: others), rest) := by
  induction others generalizing item before fuel with
  | nil =>
    obtain ⟨fuel, rfl⟩ : ∃ k, fuel = k + 1 := ⟨fuel - 1, by omega⟩
    have hvalue := h item (by simp) inner fuel (newline outer ++ ']' :: rest) (by omega)
      (ends_newline outer _)
    rw [moreItems, List.nil_append, items, hvalue]
    simp only [skip_newline, skip_cons (c := ']') rfl]
    simp
  | cons next others ih =>
    obtain ⟨fuel, rfl⟩ : ∃ k, fuel = k + 1 := ⟨fuel - 1, by omega⟩
    obtain ⟨hitem, hothers⟩ := List.forall_mem_cons.1 h
    have hends : Ends (moreItems inner (next :: others) ++ (newline outer ++ ']' :: rest)) := by
      intro c hc
      cases hc
      decide
    have hvalue := hitem inner fuel _ (by omega) hends
    rw [moreItems] at hvalue hfuel ⊢
    simp only [List.length_append, List.length_cons] at hfuel
    rw [items, hvalue]
    simp only [List.cons_append, List.append_assoc, skip_cons (c := ',') rfl]
    rw [items_congr (skip_newline _ _), ih hothers (by omega)]
    simp

/-- A member is read, and what stands behind it says whether there is another one. -/
theorem members_memberChars {name : CodePoints} (hname : ∀ n ∈ name, IsCodePoint n)
    (h : IsRead json) (hfuel : (memberChars depth (name, json)).length ≤ fuel) (hrest : Ends rest)
    (before : List (CodePoints × Json)) :
    (∀ tail, skip rest = ',' :: tail →
      members (fuel + 1) before (memberChars depth (name, json) ++ rest) =
        members fuel ((name, json) :: before) tail) ∧
    ∀ tail, skip rest = '\x7d' :: tail →
      members (fuel + 1) before (memberChars depth (name, json) ++ rest) =
        some (.object (before.reverse ++ [(name, json)]), tail) := by
  have hlength := length_le_flatMap name
  rw [memberChars, textChars] at hfuel ⊢
  simp only [List.length_append, List.length_cons, List.length_nil] at hfuel
  have hpoints : points fuel [] (name.flatMap pointChars ++
      '"' :: (':' :: ' ' :: chars depth json ++ rest)) = _ :=
    points_flatMap hname (by omega) [] _
  have hvalue := h depth fuel rest (by omega) hrest
  have hskip : skip (' ' :: (chars depth json ++ rest)) = skip (chars depth json ++ rest) := by
    simp [skip, isBlank]
  have hblank := value_congr hskip fuel
  simp only [List.cons_append, List.append_assoc, List.nil_append, List.reverse_nil] at hpoints ⊢
  refine ⟨fun tail htail => ?_, fun tail htail => ?_⟩
  · rw [members, skip_cons (c := '"') rfl]
    simp only [hpoints, skip_cons (c := ':') rfl, hblank, hvalue, htail]
  · rw [members, skip_cons (c := '"') rfl]
    simp only [hpoints, skip_cons (c := ':') rfl, hblank, hvalue, htail, List.reverse_cons]

theorem members_chars {member : CodePoints × Json} {others : List (CodePoints × Json)}
    (hnames : ∀ m ∈ member :: others, ∀ n ∈ m.1, IsCodePoint n)
    (h : ∀ m ∈ member :: others, IsRead m.2) (inner outer : Nat)
    (hfuel : (memberChars inner member).length + (moreMembers inner others).length < fuel)
    (before : List (CodePoints × Json)) (rest : List Char) :
    members fuel before
        (memberChars inner member ++ (moreMembers inner others ++ (newline outer ++ '\x7d' :: rest))) =
      some (.object (before.reverse ++ member :: others), rest) := by
  induction others generalizing member before fuel with
  | nil =>
    obtain ⟨fuel, rfl⟩ : ∃ k, fuel = k + 1 := ⟨fuel - 1, by omega⟩
    have hends := ends_newline outer ('\x7d' :: rest)
    have hmember := members_memberChars (hnames member (by simp)) (h member (by simp))
      (Nat.le_trans (Nat.le_add_right _ _) (Nat.le_of_lt_succ hfuel)) hends before
    exact hmember.2 rest ((skip_newline _ _).trans (skip_cons rfl _))
  | cons next others ih =>
    obtain ⟨fuel, rfl⟩ : ∃ k, fuel = k + 1 := ⟨fuel - 1, by omega⟩
    have hends : Ends (moreMembers inner (next :: others) ++
        (newline outer ++ '\x7d' :: rest)) := by
      intro c hc
      cases hc
      decide
    have hmember := members_memberChars (hnames member (by simp)) (h member (by simp))
      (Nat.le_trans (Nat.le_add_right _ _) (Nat.le_of_lt_succ hfuel)) hends before
    have hskip : skip (moreMembers inner (next :: others) ++ (newline outer ++ '\x7d' :: rest)) =
        ',' :: (newline inner ++ (memberChars inner next ++ (moreMembers inner others ++
          (newline outer ++ '\x7d' :: rest)))) := by
      rw [moreMembers]
      simp only [List.cons_append, List.append_assoc]
      exact skip_cons rfl _
    rw [moreMembers] at hfuel
    simp only [List.length_append, List.length_cons] at hfuel
    refine (hmember.1 _ hskip).trans ?_
    rw [members_congr (skip_newline _ _), ih (List.forall_mem_cons.1 hnames).2
      (List.forall_mem_cons.1 h).2 (by omega)]
    simp

theorem value_digit {c : Char} (h : c.isDigit = true) (cs : List Char) :
    value (fuel + 1) (c :: cs) = numeral false (c :: cs) := by
  have hne : ∀ d : Char, d.isDigit = false → c ≠ d := by
    rintro d hd rfl
    rw [h] at hd
    cases hd
  rw [value, skip_cons (not_isBlank_of_isDigit h)]
  split <;> first
    | rfl
    | exact absurd (List.cons.inj ‹_›).1 (hne _ rfl)

theorem isRead_number {n : Numeral} (h : n.WellFormed) : IsRead (.number n) := by
  intro depth fuel rest hfuel hrest
  obtain ⟨c, cs, hcs⟩ := List.exists_cons_of_ne_nil h.whole.ne_nil
  have hc : c.isDigit = true := h.whole.isDigit c (by simp [hcs])
  have hmagnitude : n.magnitudeChars =
      c :: (cs ++ (Numeral.fractionChars n.fraction ++ Numeral.exponentChars n.exponent)) := by
    rw [Numeral.magnitudeChars, hcs, List.cons_append]
  have hnumeral := numeral_text h hrest
  rw [chars, Numeral.text_eq, hmagnitude] at hfuel ⊢
  rw [hmagnitude] at hnumeral
  obtain ⟨fuel, rfl⟩ : ∃ k, fuel = k + 1 := by
    simp only [List.length_append, List.length_cons] at hfuel
    exact ⟨fuel - 1, by omega⟩
  cases hsign : n.negative with
  | true =>
    rw [hsign] at hnumeral
    rw [if_pos rfl, List.singleton_append, List.cons_append, value, skip_cons (c := '-') rfl]
    exact hnumeral
  | false =>
    rw [hsign] at hnumeral
    rw [if_neg Bool.false_ne_true, List.nil_append, List.cons_append, value_digit hc]
    exact hnumeral

theorem isRead_text {ps : CodePoints} (h : ∀ n ∈ ps, IsCodePoint n) : IsRead (.text ps) := by
  intro depth fuel rest hfuel hrest
  have hlength := length_le_flatMap ps
  rw [chars, textChars] at hfuel ⊢
  simp only [List.length_append, List.length_cons, List.length_nil] at hfuel
  obtain ⟨fuel, rfl⟩ : ∃ k, fuel = k + 1 := ⟨fuel - 1, by omega⟩
  have hpoints := points_flatMap h (show ps.length < fuel by omega) [] rest
  simp only [List.cons_append, List.append_assoc, List.nil_append]
  rw [value, skip_cons (c := '"') rfl]
  simp [hpoints]

theorem isRead_array {items : List Json} (hwritable : ∀ item ∈ items, item.Writable)
    (h : ∀ item ∈ items, IsRead item) : IsRead (.array items) := by
  intro depth fuel rest hfuel hrest
  rcases items with _ | ⟨item, others⟩
  · obtain ⟨fuel, rfl⟩ : ∃ k, fuel = k + 2 := Nat.exists_eq_add_of_le' hfuel
    rfl
  · -- no item begins with the bracket that would end the array
    obtain ⟨c, cs, hcs, hblank, hc⟩ := exists_chars_eq_cons (hwritable item (by simp)) (depth + 1)
    rw [chars] at hfuel ⊢
    simp only [List.length_append, List.length_cons] at hfuel
    obtain ⟨fuel, rfl⟩ : ∃ k, fuel = k + 1 := ⟨fuel - 1, by omega⟩
    have hitems := items_chars h (depth + 1) depth (show _ < fuel by omega) [] rest
    rw [hcs] at hitems ⊢
    simp only [List.cons_append, List.append_assoc, List.nil_append] at hitems ⊢
    rw [value, skip_cons (c := '[') rfl]
    simp only [skip_newline, skip_cons hblank]
    split
    · rename_i heq
      exact absurd (List.cons.inj heq).1 hc
    · exact hitems

theorem isRead_object {ms : List (CodePoints × Json)}
    (hnames : ∀ m ∈ ms, ∀ n ∈ m.1, IsCodePoint n) (h : ∀ m ∈ ms, IsRead m.2) :
    IsRead (.object ms) := by
  intro depth fuel rest hfuel hrest
  rcases ms with _ | ⟨⟨name, json⟩, others⟩
  · obtain ⟨fuel, rfl⟩ : ∃ k, fuel = k + 2 := Nat.exists_eq_add_of_le' hfuel
    rfl
  · rw [chars] at hfuel ⊢
    simp only [List.length_append, List.length_cons] at hfuel
    obtain ⟨fuel, rfl⟩ : ∃ k, fuel = k + 1 := ⟨fuel - 1, by omega⟩
    have hmembers := members_chars hnames h (depth + 1) depth (show _ < fuel by omega) [] rest
    rw [memberChars, textChars] at hmembers ⊢
    simp only [List.cons_append, List.append_assoc, List.nil_append] at hmembers ⊢
    rw [value, skip_cons (c := '\x7b') rfl]
    simp only [skip_newline, skip_cons (c := '"') rfl]
    exact hmembers

/-- **A document is read as it is written.** -/
theorem value_chars (h : json.Writable) : IsRead json := by
  induction h with
  | null =>
    intro depth fuel rest hfuel hrest
    obtain ⟨fuel, rfl⟩ : ∃ k, fuel = k + 4 := Nat.exists_eq_add_of_le' hfuel
    rfl
  | bool value =>
    intro depth fuel rest hfuel hrest
    cases value with
    | true =>
      obtain ⟨fuel, rfl⟩ : ∃ k, fuel = k + 4 := Nat.exists_eq_add_of_le' hfuel
      rfl
    | false =>
      obtain ⟨fuel, rfl⟩ : ∃ k, fuel = k + 5 := Nat.exists_eq_add_of_le' hfuel
      rfl
  | number wellFormed => exact isRead_number wellFormed
  | text codePoints => exact isRead_text codePoints
  | array values ih => exact isRead_array values ih
  | object names values ih => exact isRead_object names ih

end JsonReader

theorem Json.parse?_pretty {json : Json} (h : json.Writable) : parse? json.pretty = some json := by
  have hends : JsonReader.Ends [] := fun c hc => by cases hc
  have hvalue := JsonReader.value_chars h 0 (2 * (JsonWriter.chars 0 json).length + 2) [] (by omega)
    hends
  rw [List.append_nil] at hvalue
  unfold parse? pretty
  simp only [String.toList_ofList, hvalue]
  rfl

end MuonSpin
