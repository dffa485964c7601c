import MuonSpin.Proofs.Json.RoundTrip

/-!
# Values and records that are read as they are written

* `Json.ReadsBack`: a floating-point number that its numeral gives back;
* `Json.asText?_ofText`, `Json.asFloat?_ofFloat`, `Json.asList?_ofList`: texts, numbers and lists;
  **a number that is not finite is written as `null` and is no number any more**
  (`Json.asFloat?_of_not_isFinite`);
* **`Json.fields?_record`**: the fields of a record are those it was made of;
* `Json.writable_record`, …: documents made of such values can be written and read.
-/

namespace MuonSpin

/-! ## Traversals -/

section Traversals

variable {α β : Type} {f : α → Option β} {g : α → β} {xs : List α} {x : α}

theorem mapM_eq_some_map (h : ∀ x ∈ xs, f x = some (g x)) : xs.mapM f = some (xs.map g) := by
  induction xs with
  | nil => rfl
  | cons x xs ih =>
    obtain ⟨hx, hxs⟩ := List.forall_mem_cons.1 h
    simp [hx, ih hxs]

theorem mapM_eq_none (hx : x ∈ xs) (h : f x = none) : xs.mapM f = none := by
  induction xs with
  | nil => cases hx
  | cons y xs ih =>
    rw [List.mapM_cons]
    rcases List.mem_cons.1 hx with rfl | hx
    · rw [h]
      rfl
    · rw [ih hx]
      cases f y <;> rfl

end Traversals

namespace Json

/-! ## Values -/

theorem asText?_ofText (s : String) : (ofText s).asText? = some s := decodeText_encodeText s

theorem writable_ofText (s : String) : (ofText s).Writable :=
  .text fun _ hn => isCodePoint_of_mem_encodeText hn

/-- The numeral of the number gives it back. -/
def ReadsBack (x : Float) : Prop := (Numeral.ofFloat x).bind Numeral.toFloat? = some x

instance (x : Float) : Decidable (ReadsBack x) :=
  inferInstanceAs (Decidable ((Numeral.ofFloat x).bind Numeral.toFloat? = some x))

theorem asFloat?_ofFloat {x : Float} (h : ReadsBack x) : (ofFloat x).asFloat? = some x := by
  obtain ⟨n, hn, hvalue⟩ := Option.bind_eq_some_iff.1 h
  rw [ofFloat, hn]
  exact hvalue

theorem asFloat?_of_not_isFinite {x : Float} (h : x.isFinite = false) :
    (ofFloat x).asFloat? = none := by
  rw [← Numeral.isSome_ofFloat, Option.isSome_eq_false_iff, Option.isNone_iff_eq_none] at h
  rw [ofFloat, h]
  rfl

theorem writable_ofFloat (x : Float) : (ofFloat x).Writable := by
  rw [ofFloat]
  split
  · rename_i n hn
    exact .number (Numeral.wellFormed_ofFloat hn)
  · exact .null

section Lists

variable {β : Type} {f : Json → Option β} {g : β → Json} {xs : List β} {x : β}

theorem asList?_ofList (h : ∀ x ∈ xs, f (g x) = some x) : (ofList g xs).asList? f = some xs := by
  have hmapM : xs.mapM (f ∘ g) = some (xs.map id) := mapM_eq_some_map h
  rw [ofList, asList?, List.mapM_map, hmapM, List.map_id]

theorem asList?_ofList_eq_none (hx : x ∈ xs) (h : f (g x) = none) :
    (ofList g xs).asList? f = none := by
  rw [ofList, asList?, List.mapM_map]
  exact mapM_eq_none hx h

theorem writable_ofList (h : ∀ x ∈ xs, (g x).Writable) : (ofList g xs).Writable := by
  refine .array fun item hitem => ?_
  obtain ⟨x, hx, rfl⟩ := List.mem_map.1 hitem
  exact h x hx

end Lists

/-! ## Records -/

section Records

variable {fields : List (String × Json)}

theorem filter_name_eq {name : String} {json : Json} (h : (fields.map (·.1)).Nodup)
    (hmem : (name, json) ∈ fields) : fields.filter (·.1 == name) = [(name, json)] := by
  induction fields with
  | nil => cases hmem
  | cons field fields ih =>
    rw [List.map_cons, List.nodup_cons] at h
    obtain ⟨hnew, hrest⟩ := h
    rcases List.mem_cons.1 hmem with rfl | hmem
    · have hnone : fields.filter (·.1 == name) = [] := by
        refine List.filter_eq_nil_iff.2 fun field hfield heq => hnew ?_
        exact List.mem_map.2 ⟨field, hfield, beq_iff_eq.1 heq⟩
      rw [List.filter_cons_of_pos (by simp), hnone]
    · have hne : (field.1 == name) = false := by
        refine beq_eq_false_iff_ne.2 fun heq => hnew ?_
        exact List.mem_map.2 ⟨(name, json), hmem, heq.symm⟩
      rw [List.filter_cons_of_neg (by simp [hne]), ih hrest hmem]

theorem fields?_record (h : (fields.map (·.1)).Nodup) :
    (record fields).fields? (fields.map (·.1)) = some (fields.map fun field => some field.2) := by
  have hdecode : (fields.map fun field => (encodeText field.1, field.2)).mapM
      (fun field => (decodeText field.1).map (·, field.2)) = some fields := by
    rw [List.mapM_map]
    refine (mapM_eq_some_map (g := id) fun field _ => ?_).trans (by rw [List.map_id])
    simp [decodeText_encodeText]
  have hmember : (fields.map (·.1)).mapM (member? fields) =
      some (fields.map fun field => some field.2) := by
    rw [List.mapM_map]
    refine mapM_eq_some_map fun field hfield => ?_
    simp [member?, filter_name_eq h hfield]
  rw [record, fields?]
  simp only [hdecode, Option.bind_eq_bind, Option.bind_some, hmember]

theorem writable_record (h : ∀ field ∈ fields, field.2.Writable) : (record fields).Writable := by
  refine .object (fun member hmember n hn => ?_) fun member hmember => ?_
  · obtain ⟨field, -, rfl⟩ := List.mem_map.1 hmember
    exact isCodePoint_of_mem_encodeText hn
  · obtain ⟨field, hfield, rfl⟩ := List.mem_map.1 hmember
    exact h field hfield

end Records

end Json

end MuonSpin
