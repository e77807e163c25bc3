import RowStream.Proofs.Json.Standard

/-!
# Plans shipped as texts

A plan is shipped by writing its text and reading it somewhere else. Without floating-point literals it
arrives as it was, over every library that does what it documents: reading its text goes through the plan
part by part, one form at a time, and each form is taken apart into the parts that it was written from. What
can go wrong is a number that is no size, and more arrays and objects in each other than a reader enters.

* `Json.Codec.Reads` — a value is read back from what is written of it, wherever there is room for it.
* `Json.Codec.HasVariant.reads` and the like — the forms.
* `Projection.floats`, `Projection.sizes` — the literals and the numbers of a plan.
* `Json.Library.Documented.reads_scalar`, `reads_expr`, `reads_projection` — all values.
* `Json.Library.ofText?_toText` — their texts.
-/

namespace RowStream

namespace Json

/-! ## Trees and their parts

Depth and exactness of a value in terms of its parts, which is how they are used on the way down. -/

namespace Tree

theorem itemsExact_iff {items : List Tree} : ItemsExact items ↔ ∀ t ∈ items, t.Exact := by
  induction items with
  | nil => simp [ItemsExact]
  | cons t ts ih => rw [ItemsExact, ih, List.forall_mem_cons]

theorem membersExact_iff {ms : List (String × Tree)} :
    MembersExact ms ↔ ∀ t ∈ ms.map Prod.snd, t.Exact := by
  induction ms with
  | nil => simp [MembersExact]
  | cons m ms ih => rw [MembersExact, ih, List.map_cons, List.forall_mem_cons]

theorem exact_array_iff {items : List Tree} : (array items).Exact ↔ ∀ t ∈ items, t.Exact := by
  rw [Exact, itemsExact_iff]

theorem exact_object_iff {ms : List (String × Tree)} :
    (object ms).Exact ↔ ∀ t ∈ ms.map Prod.snd, t.Exact := by
  rw [Exact, membersExact_iff]

theorem succ_le_iff_exists {n room : Nat} : n + 1 ≤ room ↔ ∃ r, room = r + 1 ∧ n ≤ r := by
  constructor
  · intro h
    exact ⟨room - 1, by omega, by omega⟩
  · rintro ⟨r, rfl, h⟩
    exact Nat.succ_le_succ h

theorem itemsDepth_le_iff {items : List Tree} {room : Nat} :
    itemsDepth items ≤ room ↔ ∀ t ∈ items, t.depth ≤ room := by
  induction items with
  | nil => simp [itemsDepth]
  | cons t ts ih => rw [itemsDepth, Nat.max_le, ih, List.forall_mem_cons]

theorem membersDepth_le_iff {ms : List (String × Tree)} {room : Nat} :
    membersDepth ms ≤ room ↔ ∀ t ∈ ms.map Prod.snd, t.depth ≤ room := by
  induction ms with
  | nil => simp [membersDepth]
  | cons m ms ih => rw [membersDepth, Nat.max_le, ih, List.map_cons, List.forall_mem_cons]

/-- An array takes one of the levels. -/
theorem depth_array_le_iff {items : List Tree} {room : Nat} :
    (array items).depth ≤ room ↔ ∃ r, room = r + 1 ∧ ∀ t ∈ items, t.depth ≤ r := by
  simp only [depth, succ_le_iff_exists, itemsDepth_le_iff]

theorem depth_object_le_iff {ms : List (String × Tree)} {room : Nat} :
    (object ms).depth ≤ room ↔ ∃ r, room = r + 1 ∧ ∀ t ∈ ms.map Prod.snd, t.depth ≤ r := by
  simp only [depth, succ_le_iff_exists, membersDepth_le_iff]

end Tree

/-! ## Forms that are read back

One lemma for each form: if the parts are read back, so is the whole. What a reader may enter goes
down by one with each array and each object, and the depth of what was written does too. -/

/-- A value is read back from what is written of it, if all arrays and objects in it may be entered. -/
structure Codec.Reads {α : Type} (c : Codec α) (a : α) : Prop where
  exact : (c.write a).Exact
  read {room : Nat} (h : (c.write a).depth ≤ room) : c.read room (c.write a) = some a

/-- The same for the fields of a record. -/
structure Fields.Reads {β : Type} (fields : Fields β) (b : β) : Prop where
  exact : ∀ t ∈ (fields.members b).map Prod.snd, t.Exact
  read {room : Nat} (h : ∀ t ∈ (fields.members b).map Prod.snd, t.depth ≤ room) :
    fields.read room ((fields.members b).map Prod.snd) = some b

section Forms

variable {α β γ : Type} {c : Codec α}

theorem Fields.reads_last {name : String} {c : Codec β} {b : β} (h : c.Reads b) : (last name c).Reads b where
  exact := by simpa [last] using h.exact
  read hroom := h.read (by simpa [last] using hroom)

theorem Fields.reads_field {name : String} {c : Codec β} {rest : Fields γ} {b : β} {g : γ} (h : c.Reads b)
    (hrest : rest.Reads g) : (field name c rest).Reads (b, g) where
  exact := List.forall_mem_cons.2 ⟨h.exact, hrest.exact⟩
  read hroom := by
    obtain ⟨hfirst, hothers⟩ := List.forall_mem_cons.1 hroom
    simp only [field, List.map_cons, h.read hfirst, hrest.read hothers]
    rfl

namespace Codec

theorem HasUnit.reads {name : String} {a : α} (h : c.HasUnit name a) : c.Reads a where
  exact := by rw [h.write]; trivial
  read _ := by rw [h.write, h.read]

theorem HasVariant.reads {name : String} {content : Codec β} {make : β → α}
    (h : c.HasVariant name content make) {b : β} (hb : content.Reads b) : c.Reads (make b) where
  exact := by
    rw [h.write, Tree.exact_object_iff]
    simpa using hb.exact
  read hroom := by
    rw [h.write] at hroom
    obtain ⟨room, rfl, hcontent⟩ := Tree.depth_object_le_iff.1 hroom
    rw [h.write, h.read, hb.read (by simpa using hcontent), Option.map_some]

theorem HasPair.reads {name : String} {content : Codec β} {make : β → β → α}
    (h : c.HasPair name content make) {x y : β} (hx : content.Reads x) (hy : content.Reads y) :
    c.Reads (make x y) where
  exact := by
    rw [h.write, Tree.exact_object_iff]
    simp [Tree.exact_array_iff, hx.exact, hy.exact]
  read hroom := by
    rw [h.write] at hroom
    obtain ⟨room, rfl, hcontent⟩ := Tree.depth_object_le_iff.1 hroom
    obtain ⟨room, rfl, hitems⟩ := Tree.depth_array_le_iff.1 (hcontent _ List.mem_cons_self)
    simp only [List.forall_mem_cons] at hitems
    obtain ⟨hl, hr, -⟩ := hitems
    rw [h.write, h.read, hx.read hl, hy.read hr]
    rfl

theorem HasFields.reads {name : String} {fields : Fields β} {make : β → α}
    (h : c.HasFields name fields make) {b : β} (hb : fields.Reads b) : c.Reads (make b) where
  exact := by
    rw [h.write, Tree.exact_object_iff]
    simpa [Tree.exact_object_iff] using hb.exact
  read hroom := by
    rw [h.write] at hroom
    obtain ⟨room, rfl, hcontent⟩ := Tree.depth_object_le_iff.1 hroom
    obtain ⟨room, rfl, hfields⟩ := Tree.depth_object_le_iff.1 (hcontent _ List.mem_cons_self)
    rw [h.write, h.read room (fields.names_members b), hb.read hfields, Option.map_some]

theorem IsRecord.reads {fields : Fields β} {make : β → α} (h : c.IsRecord fields make) {b : β}
    (hb : fields.Reads b) : c.Reads (make b) where
  exact := by
    rw [h.write, Tree.exact_object_iff]
    exact hb.exact
  read hroom := by
    rw [h.write] at hroom
    obtain ⟨room, rfl, hfields⟩ := Tree.depth_object_le_iff.1 hroom
    rw [h.write, h.read room (fields.names_members b), hb.read hfields, Option.map_some]

theorem IsInteger.reads {toInt : α → Int} {InRange : α → Prop} (h : c.IsInteger toInt InRange) {a : α}
    (ha : InRange a) : c.Reads a where
  exact := by rw [h.write]; trivial
  read _ := by rw [h.write, h.read _ ha]

/-- An optional value is not null if it is there. -/
theorem IsOption.reads {c : Codec (Option α)} {value : Codec α} (h : c.IsOption value) {o : Option α}
    (hvalue : ∀ a ∈ o, value.Reads a ∧ value.write a ≠ .null) : c.Reads o := by
  cases o with
  | none => exact ⟨by rw [h.write_none]; trivial, fun _ => by rw [h.write_none, h.read_null]⟩
  | some a =>
    obtain ⟨ha, hnull⟩ := hvalue a rfl
    refine ⟨by rw [h.write_some]; exact ha.exact, fun hroom => ?_⟩
    rw [h.write_some] at hroom ⊢
    rw [h.read _ hnull, ha.read hroom, Option.map_some]

theorem IsList.reads {c : Codec (List α)} {item : Codec α} (h : c.IsList item) {as : List α}
    (has : ∀ a ∈ as, item.Reads a) : c.Reads as where
  exact := by
    rw [h.write, Tree.exact_array_iff, List.forall_mem_map]
    exact fun a ha => (has a ha).exact
  read {room} hroom := by
    rw [h.write] at hroom ⊢
    obtain ⟨room, rfl, hitems⟩ := Tree.depth_array_le_iff.1 hroom
    rw [h.read]
    clear hroom
    induction as with
    | nil => rfl
    | cons a as ih =>
      obtain ⟨ha, has⟩ := List.forall_mem_cons.1 has
      obtain ⟨hfirst, hothers⟩ := List.forall_mem_cons.1 hitems
      rw [List.map_cons, List.mapM_cons, ha.read hfirst, ih has hothers]
      rfl

end Codec

end Forms

end Json

/-! ## What can go wrong with a plan

Floating-point numbers are left out, since nothing is documented of their texts. Columns, limits and
offsets have to be sizes, which in the program they cannot fail to be. -/

namespace Scalar

mutual

/-- The floating-point numbers in a scalar. -/
def floats : Scalar → List Scalar
  | float32 x => [float32 x]
  | float64 x => [float64 x]
  | array items => itemsFloats items
  | _ => []

def itemsFloats : List Scalar → List Scalar
  | [] => []
  | a :: as => floats a ++ itemsFloats as

end

end Scalar

namespace Expr

mutual

/-- The floating-point numbers in the literals of an expression. -/
def floats : Expr → List Scalar
  | column _ => []
  | literal v => v.floats
  | compare _ l r | and l r | or l r => floats l ++ floats r
  | not e | isNull e => floats e
  | call _ args => listFloats args

def listFloats : List Expr → List Scalar
  | [] => []
  | e :: es => floats e ++ listFloats es

end

mutual

/-- The columns that an expression reads. -/
def columns : Expr → List Nat
  | column i => [i]
  | literal _ => []
  | compare _ l r | and l r | or l r => columns l ++ columns r
  | not e | isNull e => columns e
  | call _ args => listColumns args

def listColumns : List Expr → List Nat
  | [] => []
  | e :: es => columns e ++ listColumns es

end

end Expr

namespace Projection

/-- The floating-point numbers in the literals of a plan. -/
def floats : Projection → List Scalar
  | filter p => p.predicate.floats ++ Expr.listFloats p.outputs
  | topN p => Expr.listFloats p.outputs
  | orderedTopN p => Expr.listFloats p.outputs
  | aggregation _ | group _ => []

/-- The columns, limits and offsets of a plan. -/
def sizes : Projection → List Nat
  | filter p => p.predicate.columns ++ Expr.listColumns p.outputs
  | topN p => p.limit.toList ++ p.offset :: Expr.listColumns p.outputs
  | orderedTopN p => p.limit.toList ++ p.offset :: (Expr.listColumns p.outputs ++ p.orderBy)
  | aggregation p => p.aggregations.flatMap (·.inputs)
  | group p => p.keys ++ p.aggregations.flatMap (·.inputs)

end Projection

/-! ## All values are read back

Joint induction on scalars and lists of them, then on expressions, then the five plans; in each case
the form is named and its parts are those of the induction. -/

namespace Json.Library.Documented

variable {L : Library}

theorem reads_bool (h : L.Documented) (b : Bool) : L.bool.Reads b :=
  ⟨by rw [h.write_bool]; trivial, fun _ => by rw [h.write_bool, h.read_bool]⟩

theorem reads_text (h : L.Documented) (s : String) : L.text.Reads s :=
  ⟨by rw [h.write_text]; trivial, fun _ => by rw [h.write_text, h.read_text]⟩

theorem reads_sizes (h : L.Documented) {ns : List Nat} (hns : ∀ n ∈ ns, n ≤ maxSize) :
    (L.list L.size).Reads ns :=
  (h.list L.size).reads fun n hn => h.size.reads (hns n hn)

theorem reads_limit (h : L.Documented) {o : Option Nat} (ho : ∀ n ∈ o, n ≤ maxSize) :
    (L.option L.size).Reads o :=
  (h.option L.size).reads fun n hn => ⟨h.size.reads (ho n hn), by rw [h.size.write]; nofun⟩

mutual

/-- **Scalars without floating-point numbers are read back.** -/
theorem reads_scalar (h : L.Documented) : (s : Scalar) → s.floats = [] → L.scalar.Reads s
  | .null, _ => h.null.reads
  | .bool b, _ => h.bool.reads (h.reads_bool b)
  | .int32 _, _ => h.scalar_int32.reads (h.int32.reads trivial)
  | .int64 _, _ => h.scalar_int64.reads (h.int64.reads trivial)
  | .float32 _, hfloats => nomatch hfloats
  | .float64 _, hfloats => nomatch hfloats
  | .text s, _ => h.text.reads (h.reads_text s)
  | .bytes _, _ => h.bytes.reads ((h.list L.byte).reads fun _ _ => h.byte.reads trivial)
  | .array items, hfloats => h.array.reads ((h.list L.scalar).reads (reads_items h items hfloats))

theorem reads_items (h : L.Documented) : (items : List Scalar) → Scalar.itemsFloats items = [] →
    ∀ a ∈ items, L.scalar.Reads a
  | [], _ => fun _ ha => nomatch ha
  | a :: as, hfloats => by
    obtain ⟨ha, has⟩ := List.append_eq_nil_iff.1 hfloats
    exact List.forall_mem_cons.2 ⟨reads_scalar h a ha, reads_items h as has⟩

end

mutual

/-- **Expressions without floating-point literals are read back.** -/
theorem reads_expr (h : L.Documented) : (e : Expr) → e.floats = [] →
    (∀ i ∈ e.columns, i ≤ maxSize) → L.expr.Reads e
  | .column i, _, hcolumns => h.column.reads (h.size.reads (hcolumns i List.mem_cons_self))
  | .literal v, hfloats, _ => h.literal.reads (h.reads_scalar v hfloats)
  | .compare op l r, hfloats, hcolumns => by
    obtain ⟨hl, hr⟩ := List.append_eq_nil_iff.1 hfloats
    obtain ⟨hcl, hcr⟩ := List.forall_mem_append.1 hcolumns
    exact h.compare.reads (Fields.reads_field (h.compareOp op).reads
      (Fields.reads_field (reads_expr h l hl hcl) (Fields.reads_last (reads_expr h r hr hcr))))
  | .and l r, hfloats, hcolumns => by
    obtain ⟨hl, hr⟩ := List.append_eq_nil_iff.1 hfloats
    obtain ⟨hcl, hcr⟩ := List.forall_mem_append.1 hcolumns
    exact h.and.reads (reads_expr h l hl hcl) (reads_expr h r hr hcr)
  | .or l r, hfloats, hcolumns => by
    obtain ⟨hl, hr⟩ := List.append_eq_nil_iff.1 hfloats
    obtain ⟨hcl, hcr⟩ := List.forall_mem_append.1 hcolumns
    exact h.or.reads (reads_expr h l hl hcl) (reads_expr h r hr hcr)
  | .not e, hfloats, hcolumns => h.not.reads (reads_expr h e hfloats hcolumns)
  | .isNull e, hfloats, hcolumns => h.isNull.reads (reads_expr h e hfloats hcolumns)
  | .call f args, hfloats, hcolumns =>
    h.call.reads (Fields.reads_field (h.function f).reads
      (Fields.reads_last ((h.list L.expr).reads (reads_args h args hfloats hcolumns))))

theorem reads_args (h : L.Documented) : (es : List Expr) → Expr.listFloats es = [] →
    (∀ i ∈ Expr.listColumns es, i ≤ maxSize) → ∀ e ∈ es, L.expr.Reads e
  | [], _, _ => fun _ he => nomatch he
  | e :: es, hfloats, hcolumns => by
    obtain ⟨he, hes⟩ := List.append_eq_nil_iff.1 hfloats
    obtain ⟨hce, hces⟩ := List.forall_mem_append.1 hcolumns
    exact List.forall_mem_cons.2 ⟨reads_expr h e he hce, reads_args h es hes hces⟩

end

theorem reads_outputs (h : L.Documented) {es : List Expr} (hfloats : Expr.listFloats es = [])
    (hcolumns : ∀ i ∈ Expr.listColumns es, i ≤ maxSize) : (L.list L.expr).Reads es :=
  (h.list L.expr).reads (h.reads_args es hfloats hcolumns)

/-- Aggregates hold no literals. -/
theorem reads_aggregations (h : L.Documented) {as : List Aggregation}
    (hinputs : ∀ a ∈ as, ∀ i ∈ a.inputs, i ≤ maxSize) : (L.list L.aggregation).Reads as :=
  (h.list L.aggregation).reads fun a ha =>
    h.aggregation.reads (Fields.reads_field (h.kind a.kind).reads
      (Fields.reads_last (h.reads_sizes (hinputs a ha))))

/-- **Plans without floating-point literals are read back.** -/
theorem reads_projection (h : L.Documented) {p : Projection} (hfloats : p.floats = [])
    (hsizes : ∀ n ∈ p.sizes, n ≤ maxSize) : L.projection.Reads p := by
  cases p with
  | filter p =>
    obtain ⟨hpredicate, houtputs⟩ := List.append_eq_nil_iff.1 hfloats
    obtain ⟨hcp, hco⟩ := List.forall_mem_append.1 hsizes
    exact h.filter.reads (h.filterPlan.reads (Fields.reads_field (h.reads_expr p.predicate hpredicate hcp)
      (Fields.reads_last (h.reads_outputs houtputs hco))))
  -- the lists of sizes and of literals are taken apart in the order of the fields
  | topN p =>
    obtain ⟨hlimit, hsizes⟩ := List.forall_mem_append.1 hsizes
    obtain ⟨hoffset, hcolumns⟩ := List.forall_mem_cons.1 hsizes
    exact h.topN.reads (h.topNPlan.reads
      (Fields.reads_field (h.reads_limit fun n hn => hlimit n (Option.mem_toList.2 hn))
        (Fields.reads_field (h.size.reads hoffset)
          (Fields.reads_last (h.reads_outputs hfloats hcolumns)))))
  | orderedTopN p =>
    obtain ⟨hlimit, hsizes⟩ := List.forall_mem_append.1 hsizes
    obtain ⟨hoffset, hsizes⟩ := List.forall_mem_cons.1 hsizes
    obtain ⟨hcolumns, horderBy⟩ := List.forall_mem_append.1 hsizes
    have hdescending : (L.list L.bool).Reads p.descending :=
      (h.list L.bool).reads fun b _ => h.reads_bool b
    have hnulls : (L.list (L.option L.bool)).Reads p.nullsFirst :=
      (h.list _).reads fun o _ => (h.option L.bool).reads fun b _ =>
        ⟨h.reads_bool b, by rw [h.write_bool]; nofun⟩
    exact h.orderedTopN.reads (h.orderedTopNPlan.reads
      (Fields.reads_field (h.reads_limit fun n hn => hlimit n (Option.mem_toList.2 hn))
        (Fields.reads_field (h.size.reads hoffset)
          (Fields.reads_field (h.reads_outputs hfloats hcolumns)
            (Fields.reads_field (h.reads_sizes horderBy)
              (Fields.reads_field hdescending (Fields.reads_last hnulls)))))))
  | aggregation p =>
    exact h.projection_aggregation.reads (h.aggregationPlan.reads
      (Fields.reads_field (h.reads_aggregations (List.forall_mem_flatMap.1 hsizes))
        (Fields.reads_field (h.mode p.mode).reads (Fields.reads_last (h.granularity p.granularity).reads))))
  | group p =>
    obtain ⟨hkeys, hinputs⟩ := List.forall_mem_append.1 hsizes
    exact h.group.reads (h.groupPlan.reads
      (Fields.reads_field (h.reads_sizes hkeys)
        (Fields.reads_field (h.reads_aggregations (List.forall_mem_flatMap.1 hinputs))
          (Fields.reads_field (h.mode p.mode).reads
            (Fields.reads_last (h.granularity p.granularity).reads)))))

/-! ## Texts

From values in JSON to texts, and all that can be shipped alone. -/

/-- What is read back from its tree is read back from its text. -/
theorem ofText?_of_reads (h : L.Documented) {α : Type} {c : Codec α} {a : α} (ha : c.Reads a)
    (hdepth : (c.write a).depth ≤ maxDepth) : L.ofText? c (L.toText c a) = some a := by
  rw [toText, ofText?, h.parse_print ha.exact, Option.bind_some, ha.read hdepth]

/-- Aggregates are nested in a list of records with a list each. -/
theorem depth_aggregations_le (h : L.Documented) (as : List Aggregation) :
    ((L.list L.aggregation).write as).depth ≤ 3 := by
  rw [(h.list L.aggregation).write]
  refine Tree.depth_array_le_iff.2 ⟨2, rfl, List.forall_mem_map.2 fun a _ => ?_⟩
  have hinputs : ((L.list L.size).write a.inputs).depth ≤ 1 := by
    rw [(h.list L.size).write]
    refine Tree.depth_array_le_iff.2 ⟨0, rfl, List.forall_mem_map.2 fun n _ => ?_⟩
    rw [h.size.write]
    exact Nat.le_refl 0
  have hkind : (L.kind.write a.kind).depth ≤ 1 := by
    rw [(h.kind a.kind).write]
    exact Nat.zero_le _
  rw [show a = ⟨a.kind, a.inputs⟩ from rfl, h.aggregation.write (a.kind, a.inputs)]
  refine Tree.depth_object_le_iff.2 ⟨1, rfl, ?_⟩
  simp only [Fields.field, Fields.last, List.map_cons, List.map_nil, List.forall_mem_cons]
  exact ⟨hkind, hinputs, List.forall_mem_nil _⟩

end Json.Library.Documented

/-- **What holds no floating-point numbers is read back from its text**, over every library that does what
it documents. -/
theorem Json.Library.ofText?_toText {L : Library} (h : L.Documented) :
    (∀ p : Projection, p.floats = [] → (∀ n ∈ p.sizes, n ≤ maxSize) →
      (L.projection.write p).depth < 128 → L.ofText? L.projection (L.toText L.projection p) = some p) ∧
    (∀ e : Expr, e.floats = [] → (∀ i ∈ e.columns, i ≤ maxSize) → (L.expr.write e).depth < 128 →
      L.ofText? L.expr (L.toText L.expr e) = some e) ∧
    (∀ as : List Aggregation, (∀ a ∈ as, ∀ i ∈ a.inputs, i ≤ maxSize) →
      L.ofText? (L.list L.aggregation) (L.toText (L.list L.aggregation) as) = some as) ∧
    (∀ s : Scalar, s.floats = [] → (L.scalar.write s).depth < 128 →
      L.ofText? L.scalar (L.toText L.scalar s) = some s) := by
  refine ⟨fun p hfloats hsizes hdepth => ?_, fun e hfloats hcolumns hdepth => ?_, fun as hinputs => ?_,
    fun s hfloats hdepth => ?_⟩
  · exact h.ofText?_of_reads (h.reads_projection hfloats hsizes) (Nat.le_of_lt_succ hdepth)
  · exact h.ofText?_of_reads (h.reads_expr e hfloats hcolumns) (Nat.le_of_lt_succ hdepth)
  · exact h.ofText?_of_reads (h.reads_aggregations hinputs)
      (Nat.le_trans (h.depth_aggregations_le as) (by decide))
  · exact h.ofText?_of_reads (h.reads_scalar s hfloats) (Nat.le_of_lt_succ hdepth)

/-- A text with quotes, control characters and a character of two code units, the ends of all ranges,
and values nested in each other, over the reader and the writer. -/
theorem Json.Library.ofText?_toText_mixed :
    let L := standard
    let v : Scalar := .array [.text "\"\\\n\x00é😀", .bytes [0, 255], .int32 .minValue,
      .int64 .maxValue, .bool true, .null, .array []]
    let e : Expr := .compare .notEq (.call .concatWs [.column maxSize, .literal v]) (.not (.isNull (.column 0)))
    let as : List Aggregation := [⟨.countStar, []⟩, ⟨.sum, [maxSize, 0]⟩]
    (∀ p ∈ [.filter ⟨e, [e]⟩, .orderedTopN ⟨some maxSize, 0, [e], [0, maxSize], [true], [none, some false]⟩,
        .group ⟨[1], as, .iterPartial, .node⟩],
      L.ofText? L.projection (L.toText L.projection p) = some p) ∧
    L.ofText? L.expr (L.toText L.expr e) = some e ∧
    L.ofText? (L.list L.aggregation) (L.toText (L.list L.aggregation) as) = some as ∧
    L.ofText? L.scalar (L.toText L.scalar v) = some v := by
  intro L v e as
  obtain ⟨hplan, hexpr, haggregations, hscalar⟩ := ofText?_toText documented_standard
  refine ⟨?_, hexpr e rfl (by decide) (by decide +kernel), haggregations as (by decide),
    hscalar v rfl (by decide +kernel)⟩
  simp only [List.forall_mem_cons]
  exact ⟨hplan _ rfl (by decide) (by decide +kernel), hplan _ rfl (by decide) (by decide +kernel),
    hplan _ rfl (by decide) (by decide +kernel), List.forall_mem_nil _⟩

end RowStream
