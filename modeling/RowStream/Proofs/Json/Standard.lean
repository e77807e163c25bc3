import RowStream.Proofs.Json.Fields
import RowStream.Proofs.Json.Library

/-!
# The reader and the writer as a library

The reader and the writer of `RowStream.Json.Plan` do what is documented of a library. Their trees keep
numbers and strings as they are spelled; a tree with integers alone says the same with its values, and both
ways of looking at it go over into each other.

* `Json.Tree.toJson`, `Json.tree` — a value with its spelling, and what a spelled value means.
* `Json.Tree.tree_toJson`, `Json.Tree.wellSpelled_toJson` — values with integers alone.
* `Json.Library.standard`, `Json.Library.documented_standard` — the library.
-/

namespace RowStream

theorem Scalar.itemsToJson_eq_map (items : List Scalar) : itemsToJson items = items.map toJson := by
  induction items with
  | nil => rfl
  | cons a as ih => rw [itemsToJson, ih, List.map_cons]

theorem Expr.listToJson_eq_map (es : List Expr) : listToJson es = es.map toJson := by
  induction es with
  | nil => rfl
  | cons e es ih => rw [listToJson, ih, List.map_cons]

namespace Json

/-! ## Values and their spelling

A value with integers alone and its spelling determine each other, and the spelling is one that is
read back from its text. -/

namespace Tree

mutual

/-- A value as it is spelled. -/
def toJson : Tree → Json
  | null => .null
  | bool b => .bool b
  | integer n => .ofInt n
  | decimal spelling => .number spelling
  | text s => .ofText s
  | array items => .array (itemsToJson items)
  | object members => .object (membersToJson members)

def itemsToJson : List Tree → List Json
  | [] => []
  | t :: ts => toJson t :: itemsToJson ts

def membersToJson : List (String × Tree) → List (List Char × Json)
  | [] => []
  | (name, t) :: rest => (escape name, toJson t) :: membersToJson rest

end

end Tree

mutual

/-- What a spelled value means. -/
def tree : Json → Tree
  | null => .null
  | bool b => .bool b
  | number spelling =>
    match (Numeral.ofSpelling spelling).integer? with
    | some n => .integer n
    | none => .decimal spelling
  | string spelling => .text ((unescape? spelling).getD "")
  | array items => .array (itemsTree items)
  | object members => .object (membersTree members)

def itemsTree : List Json → List Tree
  | [] => []
  | j :: js => tree j :: itemsTree js

def membersTree : List (List Char × Json) → List (String × Tree)
  | [] => []
  | (key, j) :: rest => ((unescape? key).getD "", tree j) :: membersTree rest

end

theorem itemsTree_eq_map (items : List Json) : itemsTree items = items.map tree := by
  induction items with
  | nil => rfl
  | cons j js ih => rw [itemsTree, ih, List.map_cons]

theorem tree_ofInt (n : Int) : (ofInt n).tree = .integer n := by
  rw [ofInt_eq, tree, Numeral.ofSpelling_spell (Numeral.wellFormed_ofInteger n),
    Numeral.integer?_ofInteger]

theorem tree_ofText (s : String) : (ofText s).tree = .text s := by
  rw [ofText, tree, unescape?_escape, Option.getD_some]

theorem tree_ofAlternative (name : String) (content : Json) :
    (ofAlternative name content).tree = .object [(name, content.tree)] := by
  rw [ofAlternative, tree, membersTree, membersTree, unescape?_escape, Option.getD_some]

theorem tree_ofFields (fields : List (String × Json)) :
    (ofFields fields).tree = .object (fields.map fun (name, j) => (name, j.tree)) := by
  rw [ofFields, tree]
  congr 1
  induction fields with
  | nil => rfl
  | cons f fs ih => simp only [List.map_cons, membersTree, unescape?_escape, Option.getD_some, ih]

theorem tree_ofList {α : Type} (write : α → Json) (xs : List α) :
    (ofList write xs).tree = .array (xs.map fun x => (write x).tree) := by
  rw [ofList, tree, itemsTree_eq_map, List.map_map]
  rfl

namespace Tree

theorem itemsToJson_eq_map (items : List Tree) : itemsToJson items = items.map toJson := by
  induction items with
  | nil => rfl
  | cons t ts ih => rw [itemsToJson, ih, List.map_cons]

theorem membersToJson_eq_map (ms : List (String × Tree)) :
    membersToJson ms = (ms.map fun (name, t) => (name, t.toJson)).map fun (name, j) => (escape name, j) := by
  induction ms with
  | nil => rfl
  | cons m ms ih => rw [membersToJson, ih]; rfl

theorem toJson_object (ms : List (String × Tree)) :
    (object ms).toJson = ofFields (ms.map fun (name, t) => (name, t.toJson)) := by
  rw [toJson, membersToJson_eq_map, ofFields]

mutual

/-- **A spelled value means what was spelled**, if its numbers are integers. -/
theorem tree_toJson : (t : Tree) → t.Exact → t.toJson.tree = t
  | null, _ => rfl
  | bool _, _ => rfl
  | integer n, _ => tree_ofInt n
  | text s, _ => tree_ofText s
  | array items, h => congrArg array (itemsTree_itemsToJson items h)
  | object ms, h => congrArg object (membersTree_membersToJson ms h)

theorem itemsTree_itemsToJson : (ts : List Tree) → ItemsExact ts → itemsTree (itemsToJson ts) = ts
  | [], _ => rfl
  | t :: ts, h => congrArg₂ List.cons (tree_toJson t h.1) (itemsTree_itemsToJson ts h.2)

theorem membersTree_membersToJson : (ms : List (String × Tree)) → MembersExact ms →
    membersTree (membersToJson ms) = ms
  | [], _ => rfl
  | (name, t) :: ms, h => by
    rw [membersToJson, membersTree, unescape?_escape, tree_toJson t h.1,
      membersTree_membersToJson ms h.2, Option.getD_some]

end

mutual

theorem wellSpelled_toJson : (t : Tree) → t.Exact → t.toJson.WellSpelled
  | null, _ => .null
  | bool b, _ => .bool b
  | integer n, _ => wellSpelled_ofInt n
  | text s, _ => wellSpelled_ofText s
  | array items, h => .array (wellSpelled_itemsToJson items h)
  | object ms, h => by
    rw [toJson_object]
    exact wellSpelled_ofFields (wellSpelled_membersToJson ms h)

theorem wellSpelled_itemsToJson : (ts : List Tree) → ItemsExact ts →
    ∀ j ∈ itemsToJson ts, j.WellSpelled
  | [], _ => fun _ hj => nomatch hj
  | t :: ts, h => List.forall_mem_cons.2 ⟨wellSpelled_toJson t h.1, wellSpelled_itemsToJson ts h.2⟩

theorem wellSpelled_membersToJson : (ms : List (String × Tree)) → MembersExact ms →
    ∀ f ∈ ms.map fun (name, t) => (name, t.toJson), f.2.WellSpelled
  | [], _ => fun _ hf => nomatch hf
  | (_, t) :: ms, h =>
    List.forall_mem_cons.2 ⟨wellSpelled_toJson t h.1, wellSpelled_membersToJson ms h.2⟩

end

end Tree

/-! ## Codecs

Readers of spelled values are turned into codecs by spelling what they are to read. Options and
lists of such codecs are such codecs again, which is what makes the forms match. -/

namespace Fields

variable {β γ : Type} {name : String} {ms : List (String × Tree)}

/-- The members of a record, one field after the other. -/
theorem exists_of_names_field {c : Codec β} {rest : Fields γ}
    (h : ms.map Prod.fst = (field name c rest).names) :
    ∃ t others, ms = (name, t) :: others ∧ others.map Prod.fst = rest.names := by
  obtain ⟨⟨_, t⟩, others, rfl, rfl, hothers⟩ := List.map_eq_cons_iff.1 h
  exact ⟨t, others, rfl, hothers⟩

theorem exists_of_names_last {c : Codec β} (h : ms.map Prod.fst = (last name c).names) :
    ∃ t, ms = [(name, t)] := by
  obtain ⟨⟨_, t⟩, others, rfl, rfl, hothers⟩ := List.map_eq_cons_iff.1 h
  exact ⟨t, by rw [List.map_eq_nil_iff.1 hothers]⟩

end Fields

namespace Codec

variable {α β : Type}

/-- A writer and a reader of spelled values. -/
def ofJson (toJson : α → Json) (ofJson? : Nat → Json → Option α) : Codec α where
  write a := (toJson a).tree
  read room t := ofJson? room t.toJson

def option (c : Codec α) : Codec (Option α) where
  write
    | none => .null
    | some a => c.write a
  read room
    | .null => some none
    | t => (c.read room t).map some

def list (c : Codec α) : Codec (List α) where
  write as := .array (as.map c.write)
  read
    | room + 1, .array ts => ts.mapM (c.read room)
    | _, _ => none

theorem isOption_option (c : Codec α) : c.option.IsOption c where
  write_none := rfl
  write_some _ := rfl
  read_null _ := rfl
  read room t h := by cases t <;> first | rfl | exact absurd rfl h

theorem isList_list (c : Codec α) : c.list.IsList c where
  write _ := rfl
  read _ _ := rfl

variable {toJson : α → Json} {ofJson? : Nat → Json → Option α} {name : String}

theorem hasUnit_ofJson {a : α} (hwrite : toJson a = ofText name)
    (hread : ∀ room, ofJson? room (ofText name) = some a) : (ofJson toJson ofJson?).HasUnit name a where
  write := by simp only [ofJson, hwrite, tree_ofText]
  read := hread

theorem hasVariant_ofJson {make : β → α} {contentToJson : β → Json} {contentOfJson? : Nat → Json → Option β}
    (hwrite : ∀ b, toJson (make b) = ofAlternative name (contentToJson b))
    (hread : ∀ room j, ofJson? (room + 1) (ofAlternative name j) = (contentOfJson? room j).map make) :
    (ofJson toJson ofJson?).HasVariant name (ofJson contentToJson contentOfJson?) make where
  write b := by simp only [ofJson, hwrite, tree_ofAlternative]
  read room t := hread room t.toJson

theorem isInteger_ofJson {toInt : α → Int} {InRange : α → Prop} (hwrite : ∀ a, toJson a = ofInt (toInt a))
    (hread : ∀ room a, InRange a → ofJson? room (ofInt (toInt a)) = some a) :
    (ofJson toJson ofJson?).IsInteger toInt InRange where
  write a := by simp only [ofJson, hwrite, tree_ofInt]
  read room a h := hread room a h

theorem hasFields_ofJson {fields : Fields β} {make : β → α} (membersToJson : β → List (String × Json))
    (hmembers : ∀ b, fields.members b = (membersToJson b).map fun (name, j) => (name, j.tree))
    (hwrite : ∀ b, toJson (make b) = ofAlternative name (ofFields (membersToJson b)))
    (hread : ∀ room (ms : List (String × Tree)), ms.map Prod.fst = fields.names →
      ofJson? (room + 2) (ofAlternative name (ofFields (ms.map fun (name, t) => (name, t.toJson)))) =
        (fields.read room (ms.map Prod.snd)).map make) :
    (ofJson toJson ofJson?).HasFields name fields make where
  write b := by simp only [ofJson, hwrite, tree_ofAlternative, tree_ofFields, hmembers]
  read room ms hnames := by
    show ofJson? (room + 2) (ofAlternative name (Tree.object ms).toJson) = _
    rw [Tree.toJson_object, hread room ms hnames]

theorem isRecord_ofJson {fields : Fields β} {make : β → α} (membersToJson : β → List (String × Json))
    (hmembers : ∀ b, fields.members b = (membersToJson b).map fun (name, j) => (name, j.tree))
    (hwrite : ∀ b, toJson (make b) = ofFields (membersToJson b))
    (hread : ∀ room (ms : List (String × Tree)), ms.map Prod.fst = fields.names →
      ofJson? (room + 1) (ofFields (ms.map fun (name, t) => (name, t.toJson))) =
        (fields.read room (ms.map Prod.snd)).map make) :
    (ofJson toJson ofJson?).IsRecord fields make where
  write b := by simp only [ofJson, hwrite, tree_ofFields, hmembers]
  read room ms hnames := by
    show ofJson? (room + 1) (Tree.object ms).toJson = _
    rw [Tree.toJson_object, hread room ms hnames]

theorem each?_itemsToJson {read : Json → Option α} (ts : List Tree) :
    each? read (Tree.itemsToJson ts) = ts.mapM fun t => read t.toJson := by
  induction ts with
  | nil => rfl
  | cons t ts ih =>
    rw [Tree.itemsToJson, each?, ih, List.mapM_cons]
    cases read t.toJson with
    | none => rfl
    | some a => cases ts.mapM fun t => read t.toJson <;> rfl

/-- Lists of spelled values. -/
theorem list_ofJson : (ofJson toJson ofJson?).list =
    ofJson (ofList toJson) fun room j => j.list? room ofJson? := by
  unfold list ofJson
  congr 1
  · funext as
    rw [tree_ofList]
  · funext room t
    cases t with
    | array ts =>
      cases room with
      | zero => rfl
      | succ room => exact (each?_itemsToJson ts).symm
    | _ => cases room <;> rfl

theorem option_ofJson : (ofJson toJson ofJson?).option =
    ofJson (ofOption toJson) fun room j => j.optional? (ofJson? room) := by
  unfold option ofJson
  congr 1
  · funext o
    cases o <;> rfl
  · funext room t
    cases t <;> rfl

end Codec

/-! ## The library

The reader and the writer, with one codec for each declaration. -/

def int32? (j : Json) : Option Int32 :=
  (j.integerWithin? Int32.minValue.toInt Int32.maxValue.toInt).map .ofInt

def int64? (j : Json) : Option Int64 :=
  (j.integerWithin? Int64.minValue.toInt Int64.maxValue.toInt).map .ofInt

def float32? (j : Json) : Option Binary32 := j.numeral?.bind Numeral.binary32?

def float64? (j : Json) : Option Binary64 := j.numeral?.bind Numeral.binary64?

namespace Library

/-- The reader and the writer of this library. -/
def standard : Library where
  print t := t.toJson.toText
  parse text := (Json.ofText? text).map tree
  bool := .ofJson .bool fun _ => bool?
  text := .ofJson ofText fun _ => text?
  byte := .ofJson (fun b => ofNat b.toNat) fun _ => Scalar.byteOfJson?
  int32 := .ofJson (fun n => ofInt n.toInt) fun _ => int32?
  int64 := .ofJson (fun n => ofInt n.toInt) fun _ => int64?
  size := .ofJson ofNat fun _ => size?
  float32 := .ofJson Binary32.toJson fun _ => float32?
  float64 := .ofJson Binary64.toJson fun _ => float64?
  option := .option
  list := .list
  scalar := .ofJson Scalar.toJson Scalar.ofJson?
  compareOp := .ofJson (fun op => ofText op.word) CompareOp.ofJson?
  function := .ofJson (fun f => ofText f.word) ScalarFunction.ofJson?
  expr := .ofJson Expr.toJson Expr.ofJson?
  kind := .ofJson (fun kind => ofText kind.word) AggregateKind.ofJson?
  mode := .ofJson (fun mode => ofText mode.word) AggregateMode.ofJson?
  granularity := .ofJson (fun granularity => ofText granularity.word) Granularity.ofJson?
  aggregation := .ofJson Aggregation.toJson Aggregation.ofJson?
  filterPlan := .ofJson FilterPlan.toJson FilterPlan.ofJson?
  topNPlan := .ofJson TopNPlan.toJson TopNPlan.ofJson?
  orderedTopNPlan := .ofJson OrderedTopNPlan.toJson OrderedTopNPlan.ofJson?
  aggregationPlan := .ofJson AggregationPlan.toJson AggregationPlan.ofJson?
  groupPlan := .ofJson GroupPlan.toJson GroupPlan.ofJson?
  projection := .ofJson Projection.toJson Projection.ofJson?

theorem parse_print {t : Tree} (h : t.Exact) : standard.parse (standard.print t) = some t := by
  show (Json.ofText? t.toJson.toText).map tree = some t
  rw [(t.wellSpelled_toJson h).parsed, Option.map_some, t.tree_toJson h]

/-! ### Scalars

All variants of a scalar but the array have an atom as their content. -/

theorem hasVariant_scalar {β : Type} {name : String} {make : β → Scalar} {contentToJson : β → Json}
    {contentOfJson? : Nat → Json → Option β} (hname : name ≠ "Array")
    (hwrite : ∀ b, (make b).toJson = ofAlternative name (contentToJson b))
    (hread : ∀ room j, Scalar.atomOfJson? room name j = (contentOfJson? room j).map make) :
    standard.scalar.HasVariant name (.ofJson contentToJson contentOfJson?) make := by
  refine Codec.hasVariant_ofJson hwrite fun room j => ?_
  rw [Scalar.ofJson?, alternative?_ofAlternative]
  simp only [hname, if_false, hread]

theorem hasVariant_array : standard.scalar.HasVariant "Array" (standard.list standard.scalar) .array := by
  show (Codec.ofJson Scalar.toJson Scalar.ofJson?).HasVariant "Array"
    (Codec.ofJson Scalar.toJson Scalar.ofJson?).list .array
  rw [Codec.list_ofJson]
  refine Codec.hasVariant_ofJson (fun items => ?_) fun room j => ?_
  · rw [Scalar.toJson, Scalar.itemsToJson_eq_map]
    rfl
  · rw [Scalar.ofJson?, alternative?_ofAlternative]
    cases j <;> cases room <;> rfl

/-! ### Expressions

Operands are read by the reader of expressions itself, one level down. -/

theorem hasFields_compare : standard.expr.HasFields "Compare"
    (.field "op" standard.compareOp (.field "left" standard.expr (.last "right" standard.expr)))
    fun (op, l, r) => .compare op l r := by
  refine Codec.hasFields_ofJson
    (fun (op, l, r) => [("op", ofText op.word), ("left", l.toJson), ("right", r.toJson)])
    (fun _ => rfl) (fun _ => rfl) fun room ms hnames => ?_
  obtain ⟨op, ms, rfl, hleft⟩ := Fields.exists_of_names_field hnames
  obtain ⟨l, ms, rfl, hright⟩ := Fields.exists_of_names_field hleft
  obtain ⟨r, rfl⟩ := Fields.exists_of_names_last hright
  simp [Expr.ofJson?, alternative?_ofAlternative, fields?_ofFields, Fields.field, Fields.last, standard,
    Codec.ofJson, Function.comp_def, Option.bind_assoc]

theorem hasFields_call : standard.expr.HasFields "Call"
    (.field "function" standard.function (.last "args" (standard.list standard.expr)))
    fun (f, args) => .call f args := by
  show standard.expr.HasFields "Call"
    (.field "function" standard.function (.last "args" (Codec.ofJson Expr.toJson Expr.ofJson?).list)) _
  rw [Codec.list_ofJson]
  refine Codec.hasFields_ofJson
    (fun (f, args) => [("function", ofText f.word), ("args", ofList Expr.toJson args)])
    (fun _ => rfl) (fun (f, args) => ?_) fun room ms hnames => ?_
  · rw [Expr.toJson, Expr.listToJson_eq_map]
    rfl
  obtain ⟨f, ms, rfl, hargs⟩ := Fields.exists_of_names_field hnames
  obtain ⟨args, rfl⟩ := Fields.exists_of_names_last hargs
  have hfields : fields? ["function", "args"] (ofFields [("function", f.toJson), ("args", args.toJson)]) =
      some [some f.toJson, some args.toJson] := fields?_ofFields rfl (by decide)
  simp only [Expr.ofJson?, alternative?_ofAlternative, List.map_cons, List.map_nil, Fields.field,
    Fields.last, standard, Codec.ofJson, hfields]
  -- the arguments are read if they are a list, and there is room for it
  cases args with
  | array items => cases room <;> simp [Tree.toJson, list?, Function.comp_def]
  | _ => simp [Tree.toJson, list?, ofInt, ofText]

theorem hasPair_and : standard.expr.HasPair "And" standard.expr .and where
  write l r := by
    show (Expr.toJson (.and l r)).tree = _
    rw [Expr.toJson, tree_ofAlternative]
    rfl
  read room s t := by
    show Expr.ofJson? (room + 2) (ofAlternative "And" (.array [s.toJson, t.toJson])) = _
    simp [Expr.ofJson?, alternative?_ofAlternative, standard, Codec.ofJson]

theorem hasPair_or : standard.expr.HasPair "Or" standard.expr .or where
  write l r := by
    show (Expr.toJson (.or l r)).tree = _
    rw [Expr.toJson, tree_ofAlternative]
    rfl
  read room s t := by
    show Expr.ofJson? (room + 2) (ofAlternative "Or" (.array [s.toJson, t.toJson])) = _
    simp [Expr.ofJson?, alternative?_ofAlternative, standard, Codec.ofJson]

theorem hasVariant_expr {β : Type} {name : String} {make : β → Expr} {contentToJson : β → Json}
    {contentOfJson? : Nat → Json → Option β}
    (hwrite : ∀ b, (make b).toJson = ofAlternative name (contentToJson b))
    (hread : ∀ room j, Expr.ofJson? (room + 1) (ofAlternative name j) = (contentOfJson? room j).map make) :
    standard.expr.HasVariant name (.ofJson contentToJson contentOfJson?) make :=
  Codec.hasVariant_ofJson hwrite hread

/-! ### Plans

Records are read field by field; what is left of a plan is to name its fields. -/

theorem isRecord_aggregation : standard.aggregation.IsRecord
    (.field "kind" standard.kind (.last "inputs" (standard.list standard.size)))
    fun (kind, inputs) => ⟨kind, inputs⟩ := by
  show standard.aggregation.IsRecord
    (.field "kind" standard.kind (.last "inputs" (Codec.ofJson ofNat fun _ => size?).list)) _
  rw [Codec.list_ofJson]
  refine Codec.isRecord_ofJson
    (fun (kind, inputs) => [("kind", ofText kind.word), ("inputs", ofList ofNat inputs)])
    (fun _ => rfl) (fun _ => rfl) fun room ms hnames => ?_
  obtain ⟨kind, ms, rfl, hinputs⟩ := Fields.exists_of_names_field hnames
  obtain ⟨inputs, rfl⟩ := Fields.exists_of_names_last hinputs
  simp [Aggregation.ofJson?, record?_ofFields, Fields.field, Fields.last, standard, Codec.ofJson,
    Function.comp_def]

theorem isRecord_filterPlan : standard.filterPlan.IsRecord
    (.field "predicate" standard.expr (.last "outputs" (standard.list standard.expr)))
    fun (predicate, outputs) => ⟨predicate, outputs⟩ := by
  show standard.filterPlan.IsRecord
    (.field "predicate" standard.expr (.last "outputs" (Codec.ofJson Expr.toJson Expr.ofJson?).list)) _
  rw [Codec.list_ofJson]
  refine Codec.isRecord_ofJson
    (fun (predicate, outputs) => [("predicate", predicate.toJson), ("outputs", ofList Expr.toJson outputs)])
    (fun _ => rfl) (fun (predicate, outputs) => ?_) fun room ms hnames => ?_
  · rw [FilterPlan.toJson, Expr.listToJson_eq_map]
    rfl
  · obtain ⟨predicate, ms, rfl, houtputs⟩ := Fields.exists_of_names_field hnames
    obtain ⟨outputs, rfl⟩ := Fields.exists_of_names_last houtputs
    simp [FilterPlan.ofJson?, Expr.listOfJson?, record?_ofFields, Fields.field, Fields.last, standard,
      Codec.ofJson, Function.comp_def]

theorem isRecord_topNPlan : standard.topNPlan.IsRecord
    (.field "limit" (standard.option standard.size) (.field "offset" standard.size
      (.last "outputs" (standard.list standard.expr))))
    fun (limit, offset, outputs) => ⟨limit, offset, outputs⟩ := by
  show standard.topNPlan.IsRecord
    (.field "limit" (Codec.ofJson ofNat fun _ => size?).option (.field "offset" standard.size
      (.last "outputs" (Codec.ofJson Expr.toJson Expr.ofJson?).list))) _
  rw [Codec.list_ofJson, Codec.option_ofJson]
  refine Codec.isRecord_ofJson
    (fun (limit, offset, outputs) => [("limit", ofOption ofNat limit), ("offset", ofNat offset),
      ("outputs", ofList Expr.toJson outputs)])
    (fun _ => rfl) (fun (limit, offset, outputs) => ?_) fun room ms hnames => ?_
  · rw [TopNPlan.toJson, Expr.listToJson_eq_map]
    rfl
  · obtain ⟨limit, ms, rfl, hoffset⟩ := Fields.exists_of_names_field hnames
    obtain ⟨offset, ms, rfl, houtputs⟩ := Fields.exists_of_names_field hoffset
    obtain ⟨outputs, rfl⟩ := Fields.exists_of_names_last houtputs
    simp [TopNPlan.ofJson?, Expr.listOfJson?, optionalField?, record?_ofFields, Fields.field, Fields.last,
      standard, Codec.ofJson, Function.comp_def, Option.bind_assoc]

theorem isRecord_orderedTopNPlan : standard.orderedTopNPlan.IsRecord
    (.field "limit" (standard.option standard.size) (.field "offset" standard.size
      (.field "outputs" (standard.list standard.expr) (.field "order_by" (standard.list standard.size)
        (.field "reverse_flags" (standard.list standard.bool)
          (.last "nulls_first" (standard.list (standard.option standard.bool))))))))
    fun (limit, offset, outputs, orderBy, descending, nullsFirst) =>
      ⟨limit, offset, outputs, orderBy, descending, nullsFirst⟩ := by
  show standard.orderedTopNPlan.IsRecord
    (.field "limit" (Codec.ofJson ofNat fun _ => size?).option (.field "offset" standard.size
      (.field "outputs" (Codec.ofJson Expr.toJson Expr.ofJson?).list
        (.field "order_by" (Codec.ofJson ofNat fun _ => size?).list
          (.field "reverse_flags" (Codec.ofJson Json.bool fun _ => bool?).list
            (.last "nulls_first" (Codec.ofJson Json.bool fun _ => bool?).option.list)))))) _
  simp only [Codec.option_ofJson, Codec.list_ofJson]
  refine Codec.isRecord_ofJson
    (fun (limit, offset, outputs, orderBy, descending, nullsFirst) => [("limit", ofOption ofNat limit),
      ("offset", ofNat offset), ("outputs", ofList Expr.toJson outputs), ("order_by", ofList ofNat orderBy),
      ("reverse_flags", ofList .bool descending), ("nulls_first", ofList (ofOption .bool) nullsFirst)])
    (fun _ => rfl) (fun (limit, offset, outputs, orderBy, descending, nullsFirst) => ?_)
    fun room ms hnames => ?_
  · rw [OrderedTopNPlan.toJson, Expr.listToJson_eq_map]
    rfl
  · obtain ⟨limit, ms, rfl, hoffset⟩ := Fields.exists_of_names_field hnames
    obtain ⟨offset, ms, rfl, houtputs⟩ := Fields.exists_of_names_field hoffset
    obtain ⟨outputs, ms, rfl, horderBy⟩ := Fields.exists_of_names_field houtputs
    obtain ⟨orderBy, ms, rfl, hdescending⟩ := Fields.exists_of_names_field horderBy
    obtain ⟨descending, ms, rfl, hnulls⟩ := Fields.exists_of_names_field hdescending
    obtain ⟨nullsFirst, rfl⟩ := Fields.exists_of_names_last hnulls
    simp [OrderedTopNPlan.ofJson?, Expr.listOfJson?, optionalField?, record?_ofFields, Fields.field,
      Fields.last, standard, Codec.ofJson, Function.comp_def, Option.bind_assoc]

theorem isRecord_aggregationPlan : standard.aggregationPlan.IsRecord
    (.field "aggregations" (standard.list standard.aggregation) (.field "mode" standard.mode
      (.last "granularity" standard.granularity)))
    fun (aggregations, mode, granularity) => ⟨aggregations, mode, granularity⟩ := by
  show standard.aggregationPlan.IsRecord
    (.field "aggregations" (Codec.ofJson Aggregation.toJson Aggregation.ofJson?).list
      (.field "mode" standard.mode (.last "granularity" standard.granularity))) _
  rw [Codec.list_ofJson]
  refine Codec.isRecord_ofJson
    (fun (aggregations, mode, granularity) => [("aggregations", ofList Aggregation.toJson aggregations),
      ("mode", ofText mode.word), ("granularity", ofText granularity.word)])
    (fun _ => rfl) (fun _ => rfl) fun room ms hnames => ?_
  obtain ⟨aggregations, ms, rfl, hmode⟩ := Fields.exists_of_names_field hnames
  obtain ⟨mode, ms, rfl, hgranularity⟩ := Fields.exists_of_names_field hmode
  obtain ⟨granularity, rfl⟩ := Fields.exists_of_names_last hgranularity
  simp [AggregationPlan.ofJson?, record?_ofFields, Fields.field, Fields.last, standard, Codec.ofJson,
    Function.comp_def, Option.bind_assoc]

theorem isRecord_groupPlan : standard.groupPlan.IsRecord
    (.field "keys" (standard.list standard.size) (.field "aggregations" (standard.list standard.aggregation)
      (.field "mode" standard.mode (.last "granularity" standard.granularity))))
    fun (keys, aggregations, mode, granularity) => ⟨keys, aggregations, mode, granularity⟩ := by
  show standard.groupPlan.IsRecord
    (.field "keys" (Codec.ofJson ofNat fun _ => size?).list
      (.field "aggregations" (Codec.ofJson Aggregation.toJson Aggregation.ofJson?).list
        (.field "mode" standard.mode (.last "granularity" standard.granularity)))) _
  simp only [Codec.list_ofJson]
  refine Codec.isRecord_ofJson
    (fun (keys, aggregations, mode, granularity) => [("keys", ofList ofNat keys),
      ("aggregations", ofList Aggregation.toJson aggregations), ("mode", ofText mode.word),
      ("granularity", ofText granularity.word)])
    (fun _ => rfl) (fun _ => rfl) fun room ms hnames => ?_
  obtain ⟨keys, ms, rfl, haggregations⟩ := Fields.exists_of_names_field hnames
  obtain ⟨aggregations, ms, rfl, hmode⟩ := Fields.exists_of_names_field haggregations
  obtain ⟨mode, ms, rfl, hgranularity⟩ := Fields.exists_of_names_field hmode
  obtain ⟨granularity, rfl⟩ := Fields.exists_of_names_last hgranularity
  simp [GroupPlan.ofJson?, record?_ofFields, Fields.field, Fields.last, standard, Codec.ofJson,
    Function.comp_def, Option.bind_assoc]

/-- **The reader and the writer do what is documented.** -/
theorem documented_standard : standard.Documented where
  parse_print := parse_print
  write_bool _ := rfl
  read_bool _ _ := rfl
  write_text := tree_ofText
  read_text _ := text?_ofText
  byte := Codec.isInteger_ofJson (fun b => ofNat_eq_ofInt b.toNat) fun room b _ => by
    have hlt : b.toNat < 256 := b.toNat_lt
    rw [Scalar.byteOfJson?, integerWithin?_ofInt (by omega) (by omega)]
    simp
  int32 := Codec.isInteger_ofJson (fun _ => rfl) fun room n _ => by
    rw [int32?, integerWithin?_ofInt n.minValue_le_toInt n.toInt_le]
    simp
  int64 := Codec.isInteger_ofJson (fun _ => rfl) fun room n _ => by
    rw [int64?, integerWithin?_ofInt n.minValue_le_toInt n.toInt_le]
    simp
  size := Codec.isInteger_ofJson ofNat_eq_ofInt fun room n hn => by
    rw [← ofNat_eq_ofInt, size?_ofNat hn]
  option := Codec.isOption_option
  list := Codec.isList_list
  null := Codec.hasUnit_ofJson rfl fun room => by
    cases room <;> simp [Scalar.ofJson?, alternative?_ofText]
  bool := hasVariant_scalar (by decide) (fun _ => rfl) fun _ _ => rfl
  scalar_int32 := hasVariant_scalar (by decide) (fun _ => rfl) fun _ j => by
    simp [Scalar.atomOfJson?, int32?, Function.comp_def]
  scalar_int64 := hasVariant_scalar (by decide) (fun _ => rfl) fun _ j => by
    simp [Scalar.atomOfJson?, int64?, Function.comp_def]
  scalar_float32 := hasVariant_scalar (by decide) (fun _ => rfl) fun _ _ => rfl
  scalar_float64 := hasVariant_scalar (by decide) (fun _ => rfl) fun _ _ => rfl
  text := hasVariant_scalar (by decide) (fun _ => rfl) fun _ _ => rfl
  bytes := by
    show standard.scalar.HasVariant "Bin"
      (Codec.ofJson (fun b : UInt8 => ofNat b.toNat) fun _ => Scalar.byteOfJson?).list .bytes
    rw [Codec.list_ofJson]
    exact hasVariant_scalar (by decide) (fun _ => rfl) fun _ _ => rfl
  array := hasVariant_array
  compareOp op := Codec.hasUnit_ofJson rfl fun room => by
    rw [CompareOp.ofJson?, word?_ofText]
    cases op <;> rfl
  function f := Codec.hasUnit_ofJson rfl fun room => by
    rw [ScalarFunction.ofJson?, word?_ofText]
    cases f <;> rfl
  column := hasVariant_expr (fun _ => rfl) fun _ _ => by simp [Expr.ofJson?, alternative?_ofAlternative]
  literal := hasVariant_expr (fun _ => rfl) fun _ _ => by simp [Expr.ofJson?, alternative?_ofAlternative]
  compare := hasFields_compare
  and := hasPair_and
  or := hasPair_or
  not := hasVariant_expr (fun _ => rfl) fun _ _ => by simp [Expr.ofJson?, alternative?_ofAlternative]
  isNull := hasVariant_expr (fun _ => rfl) fun _ _ => by simp [Expr.ofJson?, alternative?_ofAlternative]
  call := hasFields_call
  kind kind := Codec.hasUnit_ofJson rfl fun room => by
    rw [AggregateKind.ofJson?, word?_ofText]
    cases kind <;> rfl
  mode mode := Codec.hasUnit_ofJson rfl fun room => by
    rw [AggregateMode.ofJson?, word?_ofText]
    cases mode <;> rfl
  granularity granularity := Codec.hasUnit_ofJson rfl fun room => by
    rw [Granularity.ofJson?, word?_ofText]
    cases granularity <;> rfl
  aggregation := isRecord_aggregation
  filterPlan := isRecord_filterPlan
  topNPlan := isRecord_topNPlan
  orderedTopNPlan := isRecord_orderedTopNPlan
  aggregationPlan := isRecord_aggregationPlan
  groupPlan := isRecord_groupPlan
  filter := Codec.hasVariant_ofJson (fun _ => rfl) fun _ _ => by
    simp [Projection.ofJson?, alternative?_ofAlternative]
  topN := Codec.hasVariant_ofJson (fun _ => rfl) fun _ _ => by
    simp [Projection.ofJson?, alternative?_ofAlternative]
  orderedTopN := Codec.hasVariant_ofJson (fun _ => rfl) fun _ _ => by
    simp [Projection.ofJson?, alternative?_ofAlternative]
  projection_aggregation := Codec.hasVariant_ofJson (fun _ => rfl) fun _ _ => by
    simp [Projection.ofJson?, alternative?_ofAlternative]
  group := Codec.hasVariant_ofJson (fun _ => rfl) fun _ _ => by
    simp [Projection.ofJson?, alternative?_ofAlternative]

end Library

end Json

end RowStream
