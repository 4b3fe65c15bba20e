import LateBinding.Json.Record
import LateBinding.Proofs.Json.RoundTrip
import LateBinding.Proofs.Keyed
import LateBinding.Proofs.Resolution.Calls

/-!
# Records are read back

What is described in JSON is read back from the text of its description, if its numbers fit the
widths that the reader of the record asks for.  A record does not depend on other members or on
their order; all that is asked of an object is that every field occurs once in it.

* `fields?_object_eq_some_iff` - which objects are records, and with which fields;
  `fields?_ofMembers` - records as they are written.
* `Describes` - a value in JSON that can be read back and stands for something.  There is one lemma
  for each kind of thing, and `describes_items` for lists of it.
* `Describes.read_back` - what is described is read back from the text; `read_back_calls` - so are
  lists of dynamic calls.
* `calls_read_back` - so are the dynamic calls of every resolved program that can be numbered.
-/

namespace LateBinding

namespace Json

/-! ### Fields -/

/-- Either all elements of a list are mapped, or nothing is. -/
theorem mapM_eq_some_iff {α β : Type} {f : α → Option β} {as : List α} {bs : List β} :
    as.mapM f = some bs ↔ as.map f = bs.map some := by
  induction as generalizing bs with
  | nil => cases bs <;> simp
  | cons a as ih =>
      rw [List.mapM_cons]
      cases bs with
      | nil => cases f a <;> cases as.mapM f <;> simp
      | cons b bs =>
          rw [List.map_cons, List.map_cons, List.cons.injEq, ← ih]
          cases f a <;> cases as.mapM f <;> simp

/-- A field is read if it occurs once. -/
theorem single?_eq_some_iff {members : List (Option String × Json)} {name : String} {value : Json} :
    single? members name = some value ↔
      members.filter (·.1 = some name) = [(some name, value)] := by
  constructor
  · intro hSingle
    unfold single? at hSingle
    split at hSingle
    · rename_i title _ hOnly
      cases hSingle
      have hMem : (title, value) ∈ members.filter (·.1 = some name) := by
        rw [hOnly]
        exact List.mem_singleton_self _
      have hTitle : title = some name := by simpa using (List.mem_filter.mp hMem).2
      rw [hOnly, hTitle]
    · cases hSingle
  · intro hOnly
    rw [single?, hOnly]

/-- An object is read as a record if all its names stand for characters and each field occurs once;
other members do not matter. -/
theorem fields?_object_eq_some_iff {members : List (Option String × Json)} {names : List String}
    {values : List Json} : fields? names (object members) = some values ↔
      (∀ m ∈ members, m.1.isSome = true) ∧ names.map (single? members) = values.map some := by
  rw [fields?, ← mapM_eq_some_iff]
  simp

/-- Each member of a record is read as it is written. -/
theorem single?_of_mem {members : List (String × Json)} (hNames : (members.map Prod.fst).Nodup)
    {m : String × Json} (hMem : m ∈ members) :
    single? (members.map fun (name, value) => (some name, value)) m.1 = some m.2 := by
  have hTest : (fun x : Option String × Json => decide (x.1 = some m.1)) ∘
      (fun x : String × Json => (some x.1, x.2)) = fun x => decide (x.1 = m.1) := by
    funext x
    simp
  rw [single?_eq_some_iff, List.filter_map, hTest, Keyed.filter_eq_singleton hNames hMem]
  rfl

/-- A record is read as it is written. -/
theorem fields?_ofMembers {names : List String} {values : List Json} (hNames : names.Nodup)
    (hLength : names.length = values.length) :
    fields? names (ofMembers (names.zip values)) = some values := by
  have hFirst : (names.zip values).map Prod.fst = names := List.map_fst_zip (Nat.le_of_eq hLength)
  have hSecond : (names.zip values).map Prod.snd = values :=
    List.map_snd_zip (Nat.le_of_eq hLength.symm)
  rw [ofMembers, fields?_object_eq_some_iff]
  constructor
  · intro m hMem
    obtain ⟨m, -, rfl⟩ := List.mem_map.mp hMem
    rfl
  · generalize names.zip values = members at hFirst hSecond
    subst hFirst hSecond
    rw [List.map_map, List.map_map]
    exact List.map_congr_left fun m hMem => single?_of_mem hNames hMem

/-! ### Parts of records -/

/-- A number is read if it is below the bound. -/
theorem natBelow?_ofNat (bound n : Nat) :
    natBelow? bound (ofNat n) = if n < bound then some n else none := by
  have hText : (toString n).toList = Nat.toDigits 10 n := by
    rw [Nat.toString_eq_repr, Nat.toList_repr]
  have hDigits : (Nat.toDigits 10 n).all Char.isDigit = true :=
    List.all_eq_true.mpr (isDigits_toDigits n).isDigit
  have hValue : (Nat.toDigits 10 n).foldl (fun n c => 10 * n + (c.toNat - '0'.toNat)) 0 = n := by
    rw [← Nat.ofDigitChars_eq_foldl, Nat.ofDigitChars_ten_toDigits]
  simp only [natBelow?, ofNat, hText, hDigits, hValue, if_true]

/-- A value in JSON that can be read back, and that a reader takes for a given thing. -/
structure Describes {α : Type} (ofJson? : Json → Option α) (j : Json) (a : α) : Prop where
  legible : j.IsLegible
  back : ofJson? j = some a

/-- What is described is read back from the text of its description. -/
theorem Describes.read_back {α : Type} {ofJson? : Json → Option α} {j : Json} {a : α}
    (hDescribes : Describes ofJson? j a) : (read? j.render).bind ofJson? = some a := by
  rw [read?_render hDescribes.legible, Option.bind_some, hDescribes.back]

theorem describes_text (s : String) : Describes text? (ofText s) s where
  legible := isLegible_ofText s
  back := rfl

/-- A list of descriptions describes a list. -/
theorem describes_items {α : Type} {toJson : α → Json} {ofJson? : Json → Option α} {as : List α}
    (hAll : ∀ a ∈ as, Describes ofJson? (toJson a) a) :
    Describes (fun j => j.items?.bind (·.mapM ofJson?)) (array (as.map toJson)) as where
  legible := by
    apply Consists.array
    intro j hMem
    obtain ⟨a, hA, rfl⟩ := List.mem_map.mp hMem
    exact (hAll a hA).legible
  back := by
    show (as.map toJson).mapM ofJson? = some as
    rw [mapM_eq_some_iff, List.map_map]
    exact List.map_congr_left fun a hA => (hAll a hA).back

/-- A choice without contents is described by its name. -/
theorem describes_choice {α : Type} {name : α → String} {ofName? : String → Option α} {a : α}
    (hName : ofName? (name a) = some a) :
    Describes (fun j => j.plainChoice?.bind ofName?) (ofText (name a)) a where
  legible := isLegible_ofText _
  back := hName

/-- A record describes what is made of its fields. -/
theorem describes_record {α : Type} {ofFields? : List Json → Option α} (names : List String)
    (values : List Json) {a : α} (hNames : names.Nodup) (hLength : names.length = values.length)
    (hLegible : ∀ v ∈ values, v.IsLegible) (hBack : ofFields? values = some a) :
    Describes (fun j => (j.fields? names).bind ofFields?) (ofMembers (names.zip values)) a where
  legible := isLegible_ofMembers fun _ hMem => hLegible _ (List.of_mem_zip hMem).2
  back := by rw [fields?_ofMembers hNames hLength, Option.bind_some, hBack]

end Json

open Json

/-! ### Descriptions -/

/-- The numbers of a span fit the widths they are read with. -/
structure Span.InRange (s : Span) : Prop where
  start : s.start < UInt64.size
  stop : s.stop < UInt64.size
  line : s.line < UInt32.size
  column : s.column < UInt32.size

theorem Span.describes {s : Span} (hRange : s.InRange) : Describes Span.ofJson? s.toJson s := by
  refine describes_record ["start", "end", "line", "column"]
    [ofNat s.start, ofNat s.stop, ofNat s.line, ofNat s.column] (by decide) rfl
    (by simp [isLegible_ofNat]) ?_
  simp [nat64?, nat32?, natBelow?_ofNat, hRange.start, hRange.stop, hRange.line, hRange.column]

theorem NodeId.describes {id : NodeId} (hRange : id.index < UInt32.size) :
    Describes NodeId.ofJson? id.toJson id where
  legible := isLegible_ofNat id.index
  back := by
    rw [NodeId.ofJson?, NodeId.toJson, nat32?, natBelow?_ofNat, if_pos hRange, Option.map_some]

theorem Operator.describes (op : Operator) : Describes Operator.ofJson? op.toJson op :=
  describes_choice (Operator.ofName?_name op)

theorem Mutability.describes (m : Mutability) : Describes Mutability.ofJson? m.toJson m :=
  describes_choice (by cases m <;> decide)

theorem Selector.describes (selector : Selector) :
    Describes Selector.ofJson? selector.toJson selector := by
  cases selector with
  | operator op =>
      have hOperator := Operator.describes op
      refine ⟨isLegible_ofMembers (by simp [hOperator.legible]), ?_⟩
      show (Operator.ofJson? op.toJson).map Selector.operator = _
      rw [hOperator.back, Option.map_some]
  | method name =>
      have hContents : (ofMembers [("name", ofText name)]).IsLegible :=
        isLegible_ofMembers (by simp [isLegible_ofText])
      have hFields : (ofMembers [("name", ofText name)]).fields? ["name"] = some [ofText name] :=
        @fields?_ofMembers ["name"] [ofText name] (by decide) rfl
      have hChoice : (Selector.method name).toJson.choice? =
          some ("Method", some (ofMembers [("name", ofText name)])) := rfl
      refine ⟨isLegible_ofMembers (by simp [hContents]), ?_⟩
      simp only [Selector.ofJson?, hChoice, hFields]
      rfl

/-- The numbers of a dynamic call fit the widths they are read with. -/
structure DynamicCall.InRange (c : DynamicCall) : Prop where
  id : c.id < UInt32.size
  node : c.node.index < UInt32.size
  arity : c.arity < UInt64.size
  span : c.span.InRange

theorem DynamicCall.describes {c : DynamicCall} (hRange : c.InRange) :
    Describes DynamicCall.ofJson? c.toJson c := by
  have hNode := NodeId.describes hRange.node
  have hSelector := Selector.describes c.selector
  have hSpan := Span.describes hRange.span
  refine describes_record ["id", "node", "kind", "arity", "span"]
    [ofNat c.id, c.node.toJson, c.selector.toJson, ofNat c.arity, c.span.toJson] (by decide) rfl
    (by simp [isLegible_ofNat, hNode.legible, hSelector.legible, hSpan.legible]) ?_
  simp [nat64?, nat32?, natBelow?_ofNat, hRange.id, hRange.arity, hNode.back, hSelector.back,
    hSpan.back]

example : (DynamicCall.toJson ⟨0, ⟨4⟩, .operator .plus, 2, ⟨10, 15, 2, 3⟩⟩).render =
    "\x7b\"id\":0,\"node\":4,\"kind\":\x7b\"Operator\":\"Plus\"\x7d,\"arity\":2," ++
      "\"span\":\x7b\"start\":10,\"end\":15,\"line\":2,\"column\":3\x7d\x7d" := by
  decide

theorem Resolution.Options.describes (o : Resolution.Options) :
    Describes Resolution.Options.ofJson? o.toJson o := by
  have hGlobals := describes_items fun s (_ : s ∈ o.globals) => describes_text s
  have hBack : (o.globals.map ofText).mapM text? = some o.globals := hGlobals.back
  refine describes_record ["globals"] [array (o.globals.map ofText)] (by decide) rfl
    (by simp [hGlobals.legible]) ?_
  simp only [items?, Option.bind_eq_bind, Option.bind_some, hBack]
  rfl

theorem Dispatch.Policy.describes {p : Dispatch.Policy}
    (hRange : p.polymorphicLimit < UInt64.size) :
    Describes Dispatch.Policy.ofJson? p.toJson p := by
  refine describes_record ["polymorphic_limit"] [ofNat p.polymorphicLimit] (by decide) rfl
    (by simp [isLegible_ofNat]) ?_
  simp [nat64?, natBelow?_ofNat, hRange]

theorem Dispatch.Mode.describes (m : Dispatch.Mode) : Describes Dispatch.Mode.ofJson? m.toJson m :=
  describes_choice (by cases m <;> decide)

/-- The counts of a call site fit the width they are read with. -/
structure Dispatch.Stats.InRange (s : Dispatch.Stats) : Prop where
  entries : s.entries < UInt64.size
  resolutions : s.resolutions < UInt64.size
  invocations : s.invocations < UInt64.size

theorem Dispatch.Stats.describes {s : Dispatch.Stats} (hRange : s.InRange) :
    Describes Dispatch.Stats.ofJson? s.toJson s := by
  have hMode := Dispatch.Mode.describes s.mode
  refine describes_record ["mode", "entries", "resolutions", "invocations"]
    [s.mode.toJson, ofNat s.entries, ofNat s.resolutions, ofNat s.invocations] (by decide) rfl
    (by simp [isLegible_ofNat, hMode.legible]) ?_
  simp [nat64?, natBelow?_ofNat, hMode.back, hRange.entries, hRange.resolutions, hRange.invocations]

/-- Dynamic calls are read back from the text of the list that describes them. -/
theorem read_back_calls {calls : List DynamicCall} (hRange : ∀ c ∈ calls, c.InRange) :
    ((read? (array (calls.map DynamicCall.toJson)).render).bind fun j =>
      j.items?.bind (·.mapM DynamicCall.ofJson?)) = some calls :=
  (describes_items fun c hMem => DynamicCall.describes (hRange c hMem)).read_back

/-! ### Resolved programs -/

namespace Resolution

section Calls

variable {options : Options} {f : Forest} {t : Tree} {r : Outcome} (hLinked : f.Linked)
  (hTree : f.rootTree? = some t) (hShaped : t.IsWellShaped) (hResolved : resolve options f = .ok r)

include hLinked

/-- A node has no more children than there are nodes. -/
theorem length_children_le (id : NodeId) : (f.children id).length ≤ f.size :=
  Forest.length_le_size (hLinked.nodup_children id) fun _ hChild => hLinked.lt_size_of_mem hChild

include hTree hShaped hResolved

/-- A program has no more dynamic calls than nodes. -/
theorem length_calls_le : r.calls.length ≤ f.size := by
  have hNodes := map_node_calls_of_resolve hLinked hTree hShaped hResolved
  have hNodup : (r.calls.map DynamicCall.node).Nodup := by
    rw [hNodes]
    exact (hLinked.nodup_descendants t.id).filter _
  rw [← List.length_map DynamicCall.node]
  apply Forest.length_le_size hNodup
  intro id hMem
  obtain ⟨c, hCall, rfl⟩ := List.mem_map.mp hMem
  obtain ⟨i, hAt⟩ := List.getElem?_of_mem hCall
  obtain ⟨-, n, hNode, -⟩ := node_of_call hLinked hTree hShaped hResolved hAt
  exact Forest.lt_size_of_node? hNode

/-- If all nodes can be numbered, and all spans fit their widths, so do the dynamic calls. -/
theorem inRange_of_mem_calls (hSize : f.size ≤ UInt32.size)
    (hSpans : ∀ id n, f.node? id = some n → n.span.InRange) : ∀ c ∈ r.calls, c.InRange := by
  intro c hCall
  obtain ⟨i, hAt⟩ := List.getElem?_of_mem hCall
  obtain ⟨hId, n, hNode, -, hSpan, hArity, -⟩ := node_of_call hLinked hTree hShaped hResolved hAt
  have hPlace : i < r.calls.length := (List.getElem?_eq_some_iff.mp hAt).1
  have hCalls := length_calls_le hLinked hTree hShaped hResolved
  have hKnown := Forest.lt_size_of_node? hNode
  have hChildren := length_children_le hLinked c.node
  rw [Forest.children_eq_of_node? hNode, ← hArity] at hChildren
  have hWider : UInt32.size < UInt64.size := by decide
  exact {
    id := by omega
    node := by omega
    arity := by omega
    span := by
      rw [hSpan]
      exact hSpans c.node n hNode }

/-- The dynamic calls of a resolved program are read back from the text that describes them. -/
theorem calls_read_back (hSize : f.size ≤ UInt32.size)
    (hSpans : ∀ id n, f.node? id = some n → n.span.InRange) :
    ((read? (array (r.calls.map DynamicCall.toJson)).render).bind fun j =>
      j.items?.bind (·.mapM DynamicCall.ofJson?)) = some r.calls :=
  read_back_calls (inRange_of_mem_calls hLinked hTree hShaped hResolved hSize hSpans)

end Calls

end Resolution

end LateBinding
