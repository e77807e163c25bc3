import RowStream.Json.Plan
import RowStream.Proofs.Json.Text

/-!
# Records and alternatives are read back

What the forms of `RowStream.Json.Fields` write, their readers take apart again: the fields of a
record, the name and the content of an alternative. What they write is spelled as JSON asks for if
the parts are.

* `alternative?_ofAlternative`, `word?_ofText` — alternatives, with and without content.
* `record?_ofFields` — records.
* `wellSpelled_ofFields` — their spelling.
-/

namespace RowStream.Json

/-! ## Alternatives

An alternative is read by its name first, which comes back from its spelling. -/

theorem alternative?_ofText (s : String) : (ofText s).alternative? = some (s, none) := by
  rw [ofText, alternative?, unescape?_escape, Option.map_some]

theorem alternative?_ofAlternative (name : String) (content : Json) :
    (ofAlternative name content).alternative? = some (name, some content) := by
  rw [ofAlternative, alternative?, unescape?_escape, Option.map_some]

theorem text?_ofText (s : String) : (ofText s).text? = some s := unescape?_escape s

/-- The word of an alternative without content is looked up among all words. -/
theorem word?_ofText {α : Type} (word : α → String) (all : List α) (room : Nat) (s : String) :
    word? word all room (ofText s) = all.find? (word · == s) := by
  rw [word?, alternative?_ofText]

/-! ## Records

A reader gathers the members that it knows, in the order of the text, and looks them up by name.
With names that are all different each is found once. -/

/-- Among the members of a record all named fields are found. -/
theorem collect?_ofFields {names : List String} {fields : List (String × Json)}
    (hnames : ∀ f ∈ fields, f.1 ∈ names) (hnodup : (fields.map Prod.fst).Nodup) :
    collect? names (fields.map fun (name, j) => (escape name, j)) = some fields := by
  induction fields with
  | nil => rfl
  | cons f fs ih =>
    obtain ⟨name, j⟩ := f
    obtain ⟨hfresh, hrest⟩ := List.nodup_cons.1 hnodup
    have hname : names.contains name = true := by simpa using hnames (name, j) List.mem_cons_self
    have hcollect := ih (fun f hf => hnames f (List.mem_cons_of_mem _ hf)) hrest
    have hany : fs.any (·.1 == name) = false := by
      rw [List.any_eq_false]
      intro f hf heq
      exact hfresh (List.mem_map.2 ⟨f, hf, beq_iff_eq.1 heq⟩)
    rw [List.map_cons, collect?, unescape?_escape, hcollect]
    simp only [hname, hany, if_true, Bool.false_eq_true, if_false]

/-- The values of fields, looked up by their names in order. -/
theorem map_lookup_fields {fields : List (String × Json)} (hnodup : (fields.map Prod.fst).Nodup) :
    ((fields.map Prod.fst).map fun name => fields.lookup name) = fields.map fun f => some f.2 := by
  induction fields with
  | nil => rfl
  | cons f fs ih =>
    obtain ⟨name, j⟩ := f
    obtain ⟨hfresh, hrest⟩ := List.nodup_cons.1 hnodup
    rw [List.map_cons, List.map_cons, List.map_cons, ← ih hrest]
    refine congrArg₂ List.cons List.lookup_cons_self (List.map_congr_left fun other hother => ?_)
    have hne : (other == name) = false := beq_eq_false_iff_ne.2 fun heq => hfresh (heq ▸ hother)
    rw [List.lookup_cons, hne]

/-- **The fields of a record are read in order.** -/
theorem fields?_ofFields {fields : List (String × Json)} {names : List String}
    (hnames : fields.map Prod.fst = names) (hnodup : names.Nodup) :
    (ofFields fields).fields? names = some (fields.map fun f => some f.2) := by
  subst hnames
  have hcollect := collect?_ofFields (fun f hf => List.mem_map_of_mem hf) hnodup
  rw [ofFields, fields?, hcollect, Option.map_some, map_lookup_fields hnodup]

theorem record?_ofFields {room : Nat} {fields : List (String × Json)} {names : List String}
    (hnames : fields.map Prod.fst = names) (hnodup : names.Nodup) :
    (ofFields fields).record? (room + 1) names = some (room, fields.map fun f => some f.2) := by
  rw [record?, fields?_ofFields hnames hnodup, Option.map_some]

/-! ## Spelling

What the forms add to their parts is spelled well. -/

theorem wellSpelled_ofInt (i : Int) : WellSpelled (ofInt i) := by
  rw [ofInt_eq]
  exact .number (Numeral.wellFormed_ofInteger i)

theorem wellSpelled_ofText (s : String) : WellSpelled (ofText s) := .string s

theorem wellSpelled_ofFields {fields : List (String × Json)} (h : ∀ f ∈ fields, WellSpelled f.2) :
    WellSpelled (ofFields fields) := by
  refine .object (fun m hm => ?_) fun m hm => ?_
  all_goals obtain ⟨f, hf, rfl⟩ := List.mem_map.1 hm
  · exact ⟨f.1, rfl⟩
  · exact h f hf

end RowStream.Json
