import Mathlib.Data.List.Basic
import Mathlib.Tactic.SplitIfs
import MuonSpin.Json.Reader

/-!
# Numerals that are read as they are written

* `Numeral.WellFormed`: the numerals of the format; `Numeral.wellFormed_ofFloat`: those of
  floating-point numbers are some;
* `JsonReader.Ends`: what can follow a numeral;
* **`JsonReader.numeral_text`**: a numeral is read as it is written, with its digits;
* `Numeral.isSome_ofFloat`: exactly the finite numbers have a numeral.
-/

namespace MuonSpin

/-! ## Digits -/

/-- At least one digit, and nothing else. -/
structure IsDigits (cs : List Char) : Prop where
  ne_nil : cs ≠ []
  isDigit : ∀ c ∈ cs, c.isDigit = true

theorem IsDigits.append {cs ds : List Char} (h : IsDigits cs)
    (hds : ∀ c ∈ ds, c.isDigit = true) : IsDigits (cs ++ ds) :=
  ⟨List.append_ne_nil_of_left_ne_nil h.ne_nil ds, fun c hc =>
    (List.mem_append.1 hc).elim (h.isDigit c) (hds c)⟩

theorem isDigit_of_mem_replicate {n : Nat} {c : Char} (h : c ∈ List.replicate n '0') :
    c.isDigit = true := by
  rw [List.eq_of_mem_replicate h]
  rfl

theorem isDigits_toDigits (n : Nat) : IsDigits (Nat.toDigits 10 n) :=
  ⟨Nat.toDigits_ne_nil, fun _ hc => Nat.isDigit_of_mem_toDigits (by decide) (by decide) hc⟩

theorem head?_toDigits_ne_zero {n : Nat} (h : n ≠ 0) : (Nat.toDigits 10 n).head? ≠ some '0' := by
  have hdigit : ∀ d < 10, d ≠ 0 → Nat.digitChar d ≠ '0' := by decide
  induction n using Nat.strongRecOn with
  | ind n ih =>
    by_cases hn : n < 10
    · rw [Nat.toDigits_of_lt_base hn, List.head?_cons, ne_eq, Option.some_inj]
      exact hdigit n hn h
    · have hne : n / 10 ≠ 0 := by omega
      obtain ⟨c, cs, hcs⟩ := List.exists_cons_of_ne_nil
        (Nat.toDigits_ne_nil (n := n / 10) (b := 10))
      have hhead := ih (n / 10) (by omega) hne
      rw [Nat.toDigits_of_base_le (by decide) (by omega), hcs, List.cons_append, List.head?_cons]
      rwa [hcs, List.head?_cons] at hhead

/-! ## Well-formed numerals -/

/-- Numerals of the format: all parts that are there have digits, and the whole part starts with a zero
only if it is zero. -/
structure Numeral.WellFormed (n : Numeral) : Prop where
  whole : IsDigits n.whole
  noLeadingZero : n.whole.head? = some '0' → n.whole = ['0']
  fraction : ∀ digits ∈ n.fraction, IsDigits digits
  exponent : ∀ e ∈ n.exponent, IsDigits e.digits

namespace JsonReader

/-- What follows a numeral cannot be taken for a part of it. -/
def Ends (rest : List Char) : Prop :=
  ∀ c ∈ rest.head?, c.isDigit = false ∧ c ≠ '.' ∧ c ≠ 'e' ∧ c ≠ 'E'

/-- The first of the characters is no digit. -/
def EndsDigits (rest : List Char) : Prop := ∀ c ∈ rest.head?, c.isDigit = false

section Digits

variable {digits rest : List Char}

theorem takeWhile_isDigit (h : ∀ c ∈ digits, c.isDigit = true) (hrest : EndsDigits rest) :
    (digits ++ rest).takeWhile Char.isDigit = digits ∧
      (digits ++ rest).dropWhile Char.isDigit = rest := by
  rw [List.takeWhile_append_of_pos h, List.dropWhile_append_of_pos h]
  rcases rest with _ | ⟨c, rest⟩
  · simp
  · have hc : c.isDigit = false := hrest c rfl
    simp [hc]

theorem someDigits_append (h : IsDigits digits) (hrest : EndsDigits rest) :
    someDigits (digits ++ rest) = some (digits, rest) := by
  obtain ⟨htake, hdrop⟩ := takeWhile_isDigit h.isDigit hrest
  simp [someDigits, htake, hdrop, h.ne_nil]

theorem wholePart_append (h : IsDigits digits) (hzero : digits.head? = some '0' → digits = ['0'])
    (hrest : EndsDigits rest) : wholePart (digits ++ rest) = some (digits, rest) := by
  obtain ⟨htake, hdrop⟩ := takeWhile_isDigit h.isDigit hrest
  unfold wholePart
  split
  · rename_i rest' heq
    obtain ⟨c, cs, rfl⟩ := List.exists_cons_of_ne_nil h.ne_nil
    obtain ⟨rfl, htail⟩ := List.cons.inj heq
    obtain rfl : cs = [] := (List.cons.inj (hzero rfl)).2
    rw [← htail]
    rfl
  · simp [htake, hdrop, h.ne_nil]

end Digits

end JsonReader

namespace Numeral

/-- The point with the digits behind it. -/
def fractionChars : Option (List Char) → List Char
  | some digits => '.' :: digits
  | none => []

def exponentChars : Option Exponent → List Char
  | some e => 'e' :: (if e.negative then ['-'] else []) ++ e.digits
  | none => []

/-- A numeral without its sign. -/
def magnitudeChars (n : Numeral) : List Char :=
  n.whole ++ (fractionChars n.fraction ++ exponentChars n.exponent)

theorem text_eq (n : Numeral) :
    n.text = (if n.negative then ['-'] else []) ++ n.magnitudeChars := by
  unfold text magnitudeChars
  cases n.fraction <;> cases n.exponent <;> simp [fractionChars, exponentChars]

end Numeral

namespace JsonReader

variable {n : Numeral} {rest : List Char}

theorem Ends.endsDigits (h : Ends rest) : EndsDigits rest := fun c hc => (h c hc).1

theorem exponentPart_append {e : Option Exponent} (he : ∀ x ∈ e, IsDigits x.digits)
    (hrest : Ends rest) :
    exponentPart (Numeral.exponentChars e ++ rest) = some (e, rest) := by
  cases e with
  | none =>
    rcases rest with _ | ⟨c, rest⟩
    · rfl
    · obtain ⟨-, -, hne, hne'⟩ := hrest c rfl
      simp [Numeral.exponentChars, exponentPart, hne, hne']
  | some e =>
    have hdigits := he e rfl
    have hsome := someDigits_append hdigits hrest.endsDigits
    have hsign : exponentSign ((if e.negative then ['-'] else []) ++ (e.digits ++ rest)) =
        (e.negative, e.digits ++ rest) := by
      cases e.negative with
      | true => rfl
      | false =>
        obtain ⟨c, cs, hcs⟩ := List.exists_cons_of_ne_nil hdigits.ne_nil
        have hc : c.isDigit = true := hdigits.isDigit c (by simp [hcs])
        rw [hcs]
        unfold exponentSign
        split
        · rename_i heq
          obtain ⟨rfl, -⟩ := List.cons.inj heq
          cases hc
        · rename_i heq
          obtain ⟨rfl, -⟩ := List.cons.inj heq
          cases hc
        · rfl
    simp [Numeral.exponentChars, exponentPart, hsign, hsome]

theorem fractionPart_append {f : Option (List Char)} (hf : ∀ x ∈ f, IsDigits x)
    (hrest : EndsDigits rest) (hpoint : ∀ c ∈ rest.head?, c ≠ '.') :
    fractionPart (Numeral.fractionChars f ++ rest) = some (f, rest) := by
  cases f with
  | none =>
    unfold fractionPart Numeral.fractionChars
    split
    · rename_i rest' heq
      rw [List.nil_append] at heq
      exact absurd rfl (hpoint '.' (by rw [heq]; rfl))
    · rfl
  | some digits =>
    simp [Numeral.fractionChars, fractionPart, someDigits_append (hf digits rfl) hrest]

/-- **A numeral is read as it is written.** -/
theorem numeral_text (h : n.WellFormed) (hrest : Ends rest) :
    numeral n.negative (n.magnitudeChars ++ rest) = some (.number n, rest) := by
  have hexponent := exponentPart_append h.exponent hrest
  have hfraction : fractionPart (Numeral.fractionChars n.fraction ++
      (Numeral.exponentChars n.exponent ++ rest)) =
      some (n.fraction, Numeral.exponentChars n.exponent ++ rest) := by
    refine fractionPart_append h.fraction ?_ ?_ <;> rcases n.exponent with _ | e
    · exact hrest.endsDigits
    · intro c hc
      cases hc
      rfl
    · exact fun c hc => (hrest c hc).2.1
    · intro c hc
      cases hc
      decide
  have hwhole : wholePart (n.whole ++ (Numeral.fractionChars n.fraction ++
      (Numeral.exponentChars n.exponent ++ rest))) =
      some (n.whole, Numeral.fractionChars n.fraction ++
        (Numeral.exponentChars n.exponent ++ rest)) := by
    refine wholePart_append h.whole h.noLeadingZero ?_
    rcases n.fraction with _ | digits
    · rcases n.exponent with _ | e
      · exact hrest.endsDigits
      · intro c hc
        cases hc
        rfl
    · intro c hc
      cases hc
      rfl
  simp only [numeral, Numeral.magnitudeChars, List.append_assoc, hwhole, hfraction, hexponent,
    Option.bind_eq_bind, Option.bind_some, pure]

end JsonReader

/-! ## Numerals of floating-point numbers -/

namespace Numeral

theorem wellFormed_scientific (negative : Bool) {digits : List Char} (h : IsDigits digits)
    (exponent : Int) : (scientific negative digits exponent).WellFormed := by
  obtain ⟨c, cs, rfl⟩ := List.exists_cons_of_ne_nil h.ne_nil
  refine ⟨⟨by simp [scientific], ?_⟩, ?_, ?_, ?_⟩
  · intro d hd
    exact h.isDigit d (List.mem_of_mem_take hd)
  · intro hzero
    simpa [scientific] using hzero
  · intro digits hdigits
    simp only [scientific] at hdigits
    split_ifs at hdigits with hlength
    · cases hdigits
    · cases hdigits
      refine ⟨?_, fun d hd => h.isDigit d (List.mem_of_mem_drop hd)⟩
      simpa using hlength
  · intro e he
    cases he
    exact isDigits_toDigits _

/-- The numeral of a decimal is well-formed, unless this is a zero with a high place. -/
theorem wellFormed_ofDecimal (negative : Bool) {d : Decimal}
    (h : d.digits ≠ 0 ∨ d.exponent = 0) : (ofDecimal negative d).WellFormed := by
  have hdigits := isDigits_toDigits d.digits
  have hpos : 0 < (Nat.toDigits 10 d.digits).length := List.length_pos_of_ne_nil hdigits.ne_nil
  have hnone : ∀ e ∈ (none : Option Exponent), IsDigits e.digits := fun e he => by cases he
  have hzero : IsDigits ['0'] := ⟨by simp, by simp⟩
  unfold ofDecimal
  simp only
  split_ifs with hfar hexponent hpoint
  · exact wellFormed_scientific negative hdigits _
  · refine ⟨hdigits.append fun c hc => isDigit_of_mem_replicate hc, fun hhead => ?_, ?_, hnone⟩
    · by_cases hn : d.digits = 0
      · have hexp : d.exponent = 0 := h.resolve_left fun hne => hne hn
        simp [hn, hexp]
      · rw [List.head?_append_of_ne_nil _ hdigits.ne_nil] at hhead
        exact absurd hhead (head?_toDigits_ne_zero hn)
    · rintro digits ⟨⟩
      exact hzero
  · have hn : d.digits ≠ 0 := h.resolve_right fun hexp => hexponent (by omega)
    have hhead : ∀ k, 0 < k → ((Nat.toDigits 10 d.digits).take k).head? =
        (Nat.toDigits 10 d.digits).head? := fun k hk => by
      rw [List.head?_take, if_neg (by omega)]
    refine ⟨⟨?_, fun c hc => hdigits.isDigit c (List.mem_of_mem_take hc)⟩, fun hfirst => ?_, ?_,
      hnone⟩
    · rw [ne_eq, List.take_eq_nil_iff, not_or]
      exact ⟨by omega, hdigits.ne_nil⟩
    · rw [hhead _ (by omega)] at hfirst
      exact absurd hfirst (head?_toDigits_ne_zero hn)
    · rintro digits ⟨⟩
      refine ⟨?_, fun c hc => hdigits.isDigit c (List.mem_of_mem_drop hc)⟩
      rw [ne_eq, List.drop_eq_nil_iff]
      omega
  · refine ⟨hzero, fun _ => rfl, ?_, hnone⟩
    rintro digits ⟨⟩
    refine ⟨by simp [hdigits.ne_nil], fun c hc => ?_⟩
    rcases List.mem_append.1 hc with hc | hc
    · exact isDigit_of_mem_replicate hc
    · exact hdigits.isDigit c hc

end Numeral

/-! ## Shortest decimals -/

theorem le_roundDiv (tie : Tie) (num den : Nat) : num / den ≤ roundDiv tie num den := by
  unfold roundDiv
  simp only
  split_ifs
  · exact Nat.le_refl _
  · exact Nat.le_succ _
  · cases tie with
    | up => exact Nat.le_succ _
    | toEven => exact Nat.le_add_right _ _

namespace Neighbourhood

theorem lower_pos {b : Binary} (h : b.mantissa ≠ 0) (exponent : Int) :
    0 < ((ofBinary b).scaled exponent).lower := by
  have hten : 0 < Nat.pow 10 (-exponent).toNat := Nat.pow_pos (by decide)
  have htwo : 0 < Nat.pow 2 (b.exponent - 2).toNat := Nat.pow_pos (by decide)
  have hgap : 0 < 4 * b.mantissa - (if b.mantissa = hiddenBit ∧ -1074 < b.exponent then 1 else 2) := by
    split_ifs <;> omega
  exact Nat.mul_pos (Nat.mul_pos hgap htwo) hten

theorem not_contains_zero {nb : Neighbourhood} (h : 0 < nb.lower) : nb.contains 0 = false := by
  have hle : ¬ nb.lower ≤ 0 := Nat.not_le.2 h
  have hlt : ¬ nb.lower < 0 := Nat.not_lt_zero _
  simp [contains, hle, hlt]

theorem nearestWhole?_ne_zero {tie : Tie} {nb : Neighbourhood} {n : Nat} (h : 0 < nb.lower)
    (hn : nb.nearestWhole? tie = some n) : n ≠ 0 := by
  have hzero := not_contains_zero h
  have hlow : nb.contains (nb.value / nb.denominator * nb.denominator) = true →
      0 < nb.value / nb.denominator := by
    intro hcontains
    refine Nat.pos_of_ne_zero fun hq => ?_
    rw [hq, Nat.zero_mul, hzero] at hcontains
    cases hcontains
  unfold nearestWhole? at hn
  simp only at hn
  split at hn
  · rename_i hcontains _
    cases hn
    have hle := le_roundDiv tie nb.value nb.denominator
    exact Nat.ne_of_gt (Nat.lt_of_lt_of_le (hlow hcontains) hle)
  · rename_i hcontains _
    cases hn
    exact Nat.ne_of_gt (hlow hcontains)
  · cases hn
    exact Nat.succ_ne_zero _
  · cases hn

end Neighbourhood

theorem Decimal.carry_ne_zero {d : Decimal} (h : d.digits ≠ 0) : d.carry.digits ≠ 0 := by
  unfold carry
  split_ifs
  · exact Nat.one_ne_zero
  · exact h

theorem shortest_ne_zero (tie : Tie) {b : Binary} (h : b.mantissa ≠ 0) :
    (shortest tie b).digits ≠ 0 ∨ (shortest tie b).exponent = 0 := by
  unfold shortest
  simp only
  split
  · rename_i d hfound
    obtain ⟨n, -, hgrid⟩ := List.exists_of_findSome?_eq_some hfound
    obtain ⟨k, hk, rfl⟩ := Option.map_eq_some_iff.1 hgrid
    exact .inl (Decimal.carry_ne_zero
      (Neighbourhood.nearestWhole?_ne_zero (Neighbourhood.lower_pos h _) hk))
  · exact .inr rfl

namespace Numeral

/-- **The numeral of a floating-point number** is well-formed. -/
theorem wellFormed_ofFloat {x : Float} {n : Numeral} (h : ofFloat x = some n) : n.WellFormed := by
  unfold ofFloat at h
  split at h
  · cases h
  · cases h
  · rename_i b hb
    split_ifs at h with hzero
    · cases h
      refine ⟨⟨by simp, by simp⟩, fun _ => rfl, ?_, fun e he => by cases he⟩
      rintro digits ⟨⟩
      exact ⟨by simp, by simp⟩
    · cases h
      exact wellFormed_ofDecimal b.negative (shortest_ne_zero .toEven hzero)

end Numeral

/-! ## Finite numbers -/

section Finite

open Float.Model Float.Model.UnpackedFloat

theorem toNat_unpackExponent (b : BitVec (Format.numBits .binary64)) :
    (unpackExponent b).toNat = b.toNat / hiddenBit % 2048 := by
  simp only [unpackExponent, BitVec.toNat_cast, BitVec.extractLsb, BitVec.extractLsb'_toNat,
    Nat.shiftRight_eq_div_pow]
  rfl

theorem isFinite_unpack (b : BitVec (Format.numBits .binary64)) :
    (UnpackedFloat.unpack .binary64 b).isFinite =
      decide (b.toNat / hiddenBit % 2048 ≠ 2047) := by
  have hiff : unpackExponent b = -1#_ ↔ b.toNat / hiddenBit % 2048 = 2047 := by
    rw [← BitVec.toNat_inj, toNat_unpackExponent]
    rfl
  rw [decide_eq_decide.2 (not_congr hiff.symm)]
  unfold UnpackedFloat.unpack
  dsimp only
  by_cases hfull : unpackExponent b = -1#_
  · rw [if_pos hfull, decide_eq_false (not_not_intro hfull)]
    by_cases hzero : unpackMantissa b = 0#_
    · rw [if_pos hzero]
      rfl
    · rw [if_neg hzero]
      rfl
  · rw [if_neg hfull, decide_eq_true hfull]
    by_cases hsmall : unpackExponent b = 0#_
    · rw [if_pos hsmall]
      by_cases hzero : unpackMantissa b = 0#_
      · rw [dif_pos hzero]
        rfl
      · rw [dif_neg hzero]
        rfl
    · rw [if_neg hsmall]
      rfl

theorem isFinite_eq (x : Float) :
    x.isFinite = decide (x.toBits.toNat / hiddenBit % 2048 ≠ 2047) :=
  isFinite_unpack x.toModel.toBits.toBitVec

end Finite

theorem Numeral.isSome_ofFloat (x : Float) : (ofFloat x).isSome = x.isFinite := by
  rw [isFinite_eq]
  unfold ofFloat classify
  simp only
  split_ifs with hfull hinfinite hsmall
  · simp [hfull]
  · simp [hfull]
  · simp only [hfull, ne_eq, not_false_eq_true, decide_true]
    split_ifs <;> rfl
  · simp only [hfull, ne_eq, not_false_eq_true, decide_true]
    split_ifs <;> rfl

end MuonSpin
