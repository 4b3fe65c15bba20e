import Mathlib.Data.List.Induction
import LateBinding.Proofs.Keyed
import LateBinding.Proofs.Lexical.Storage

/-!
# How contexts change what names mean

What declaring, entering a function and passing a tree do to lookups, to what is visible, and to the
counts of a context.

* `lookup?_declare`, `visible_declare`, `find?_visible` - lookups and visible declarations.
* `after_mk_eq`, `after_mk_eq_extend`, `after_of_isFunction`, `after_of_isExpression` - the context
  after a tree.
* `Context.afterAll` - the context after several trees.
* `Context.Nested` - nothing is declared further in than the context stands.
* `Context.Extends` - a context further on; `lookup?_of_extends` - what is found there further out
  was found before.
-/

namespace LateBinding

namespace Lexical

/-- Declarations are overlaid by their names. -/
theorem overlay_eq_keyed : overlay = Keyed.overlay Declaration.name := by
  funext ds d
  induction ds with
  | nil => rfl
  | cons e rest ih => rw [overlay, Keyed.overlay, ih]

/-- After overlaying a declaration, its name has this declaration and any other name the one it
had. -/
theorem find?_overlay (ds : List Declaration) (d : Declaration) (name : String) :
    (overlay ds d).find? (·.name = some name) =
      if d.name = some name then some d else ds.find? (·.name = some name) := by
  rw [overlay_eq_keyed]
  exact Keyed.find?_overlay Declaration.name ds d name

/-- Overlaying adds one declaration only. -/
theorem mem_overlay {ds : List Declaration} {d e : Declaration} (hMem : e ∈ overlay ds d) :
    e ∈ ds ∨ e = d := by
  rw [overlay_eq_keyed] at hMem
  exact Keyed.mem_overlay hMem

namespace Context

/-! ### Declaring -/

section Declaring

variable (c : Context) (node : NodeId) (place : Nat) (name : Option String) (mutability : Mutability)

@[simp] theorem depth_declare : (c.declare node place name mutability).depth = c.depth := rfl

@[simp] theorem inherited_declare :
    (c.declare node place name mutability).inherited = c.inherited := rfl

@[simp] theorem made_declare : (c.declare node place name mutability).made = c.made + 1 := rfl

@[simp] theorem declared_declare : (c.declare node place name mutability).declared =
    c.declared ++ [⟨node, place, name, mutability, c.depth, c.made⟩] := rfl

/-- A declaration is overlaid on what was visible. -/
theorem visible_declare : (c.declare node place name mutability).visible =
    overlay c.visible ⟨node, place, name, mutability, c.depth, c.made⟩ := by
  simp [visible]

/-- A declared name means its declaration, and any other name what it meant before. -/
theorem lookup?_declare (other : String) :
    (c.declare node place name mutability).lookup? other =
      if name = some other then some ⟨node, place, name, mutability, c.depth, c.made⟩
      else c.lookup? other := by
  by_cases hName : name = some other <;> simp [lookup?, hName]

end Declaring

/-- The visible declarations are exactly what lookups find. -/
theorem find?_visible (c : Context) (name : String) :
    c.visible.find? (·.name = some name) = c.lookup? name := by
  have hAll : ∀ ds : List Declaration,
      (ds.foldl overlay []).find? (·.name = some name) = ds.findRev? (·.name = some name) := by
    intro ds
    induction ds using List.reverseRec with
    | nil => rfl
    | append_singleton rest d ih =>
        rw [List.foldl_append, List.foldl_cons, List.foldl_nil, find?_overlay, ih]
        by_cases hName : d.name = some name <;> simp [hName]
  exact hAll c.declared

/-- What is found was declared under the name. -/
theorem mem_declared_of_lookup? {c : Context} {name : String} {d : Declaration}
    (hLookup : c.lookup? name = some d) : d ∈ c.declared ∧ d.name = some name := by
  rw [lookup?, List.findRev?_eq_find?_reverse] at hLookup
  exact ⟨by simpa using List.mem_of_find?_eq_some hLookup, by simpa using List.find?_some hLookup⟩

/-- What is visible was declared. -/
theorem mem_declared_of_mem_visible {c : Context} {d : Declaration} (hMem : d ∈ c.visible) :
    d ∈ c.declared := by
  rw [visible, overlay_eq_keyed] at hMem
  exact (Keyed.mem_foldl_overlay hMem).resolve_left List.not_mem_nil

/-- What is found is visible. -/
theorem mem_visible_of_lookup? {c : Context} {name : String} {d : Declaration}
    (hLookup : c.lookup? name = some d) : d ∈ c.visible := by
  rw [← find?_visible] at hLookup
  exact List.mem_of_find?_eq_some hLookup

/-! ### Counts -/

section Counts

variable (c : Context) (id : NodeId) (construct : Construct) (t : Tree)

@[simp] theorem depth_declareAll (node : NodeId) (place : Nat)
    (bindings : List (Option String × Mutability)) :
    (c.declareAll node place bindings).depth = c.depth := by
  induction bindings generalizing c place with
  | nil => rfl
  | cons b rest ih => simp [declareAll, ih]

@[simp] theorem inherited_declareAll (node : NodeId) (place : Nat)
    (bindings : List (Option String × Mutability)) :
    (c.declareAll node place bindings).inherited = c.inherited := by
  induction bindings generalizing c place with
  | nil => rfl
  | cons b rest ih => simp [declareAll, ih]

@[simp] theorem made_declareAll (node : NodeId) (place : Nat)
    (bindings : List (Option String × Mutability)) :
    (c.declareAll node place bindings).made = c.made + bindings.length := by
  induction bindings generalizing c place with
  | nil => rfl
  | cons b rest ih =>
      rw [declareAll, ih, made_declare, List.length_cons]
      omega

@[simp] theorem depth_extend : (c.extend id construct).depth = c.depth :=
  c.depth_declareAll _ _ _

@[simp] theorem inherited_extend : (c.extend id construct).inherited = c.inherited :=
  c.inherited_declareAll _ _ _

@[simp] theorem made_extend :
    (c.extend id construct).made = c.made + construct.bindings.length :=
  c.made_declareAll _ _ _

@[simp] theorem depth_enter : c.enter.depth = c.depth + 1 := rfl

@[simp] theorem made_enter : c.enter.made = 0 := rfl

@[simp] theorem inherited_enter : c.enter.inherited = c.visible.map Declaration.name := rfl

@[simp] theorem depth_after : (c.after t).depth = c.depth := by
  unfold after
  split <;> simp

@[simp] theorem inherited_after : (c.after t).inherited = c.inherited := by
  unfold after
  split <;> simp

@[simp] theorem made_after : (c.after t).made = c.made + t.declarationCount := rfl

/-- A tree that binds nothing for what follows it only counts its declarations. -/
theorem after_eq (hBinds : t.construct.bindsInBlock = false) :
    c.after t = { c with made := c.made + t.declarationCount } := by
  simp [after, hBinds]

end Counts

/-- The context after several trees. -/
def afterAll (c : Context) (ts : List Tree) : Context :=
  ts.foldl after c

@[simp] theorem afterAll_cons (c : Context) (t : Tree) (rest : List Tree) :
    c.afterAll (t :: rest) = (c.after t).afterAll rest := rfl

@[simp] theorem made_afterAll (c : Context) (ts : List Tree) :
    (c.afterAll ts).made = c.made + Tree.declarationCountAll ts := by
  induction ts generalizing c with
  | nil => rfl
  | cons t rest ih =>
      rw [afterAll_cons, ih, made_after, Tree.declarationCountAll]
      omega

/-- Trees that bind nothing for what follows them only count their declarations. -/
theorem afterAll_eq (c : Context) {ts : List Tree}
    (hBinds : ∀ t ∈ ts, t.construct.bindsInBlock = false) :
    c.afterAll ts = { c with made := c.made + Tree.declarationCountAll ts } := by
  induction ts generalizing c with
  | nil => rfl
  | cons t rest ih =>
      rw [afterAll_cons, ih _ fun s hMem => hBinds s (List.mem_cons_of_mem t hMem),
        after_eq _ _ (hBinds t List.mem_cons_self), Tree.declarationCountAll]
      simp [Nat.add_assoc]

@[simp] theorem depth_afterAll (c : Context) (ts : List Tree) :
    (c.afterAll ts).depth = c.depth := by
  induction ts generalizing c with
  | nil => rfl
  | cons t rest ih => rw [afterAll_cons, ih, depth_after]

@[simp] theorem inherited_afterAll (c : Context) (ts : List Tree) :
    (c.afterAll ts).inherited = c.inherited := by
  induction ts generalizing c with
  | nil => rfl
  | cons t rest ih => rw [afterAll_cons, ih, inherited_after]

section Nodes

variable (c : Context) {id : NodeId} {node : Node} {children : List Tree}

/-- A node counts what it binds and what is declared below it, unless it is a function. -/
theorem declarationCount_mk (hFunction : node.construct.isFunction = false) :
    (Tree.mk id node children).declarationCount =
      node.construct.bindings.length + Tree.declarationCountAll children := by
  rw [Tree.declarationCount]
  split
  · rename_i hConstruct
    rw [hConstruct] at hFunction
    cases hFunction
  · rfl

/-- After a node that binds nothing at all, the declarations below it are counted. -/
theorem after_mk_eq (hFunction : node.construct.isFunction = false)
    (hBinds : node.construct.bindsInBlock = false) :
    c.after (.mk id node children) =
      { c with
        made := c.made + (node.construct.bindings.length + Tree.declarationCountAll children) } := by
  rw [c.after_eq (.mk id node children) hBinds, declarationCount_mk hFunction]

/-- After a statement that binds in its block, its bindings are declared. -/
theorem after_mk_eq_extend (hBinds : node.construct.bindsInBlock = true)
    (hBelow : Tree.declarationCountAll children = 0) :
    c.after (.mk id node children) = c.extend id node.construct := by
  have hCount : (Tree.mk id node children).declarationCount = node.construct.bindings.length := by
    rw [declarationCount_mk (Construct.isFunction_eq_false_of_bindsInBlock hBinds), hBelow,
      Nat.add_zero]
  have hMade : c.made + (Tree.mk id node children).declarationCount =
      (c.extend id node.construct).made := by
    rw [hCount, made_extend]
  unfold after
  rw [if_pos (show (Tree.mk id node children).construct.bindsInBlock = true from hBinds), hMade]
  rfl

end Nodes

/-! ### Contexts further on -/

/-- Nothing is declared further in than the context stands. -/
def Nested (c : Context) : Prop :=
  ∀ d ∈ c.declared, d.depth ≤ c.depth

/-- Outside all functions nothing is declared. -/
theorem nested_outermost : outermost.Nested := by
  intro d hMem
  cases hMem

/-- The context stands further on: at least as far in, with more declared, and nothing of that
further out. -/
structure Extends (c further : Context) : Prop where
  depth_le : c.depth ≤ further.depth
  declared : ∃ added, further.declared = c.declared ++ added ∧ ∀ d ∈ added, c.depth ≤ d.depth

theorem Extends.refl (c : Context) : c.Extends c where
  depth_le := Nat.le_refl _
  declared := ⟨[], by simp, by simp⟩

theorem Extends.trans {a b c : Context} (hAB : a.Extends b) (hBC : b.Extends c) : a.Extends c where
  depth_le := Nat.le_trans hAB.depth_le hBC.depth_le
  declared := by
    obtain ⟨first, hFirst, hFirstDepth⟩ := hAB.declared
    obtain ⟨second, hSecond, hSecondDepth⟩ := hBC.declared
    refine ⟨first ++ second, by rw [hSecond, hFirst, List.append_assoc], ?_⟩
    intro d hMem
    rcases List.mem_append.mp hMem with hMem | hMem
    · exact hFirstDepth d hMem
    · exact Nat.le_trans hAB.depth_le (hSecondDepth d hMem)

/-- Declarations are made where the context stands. -/
theorem exists_declared_declareAll (c : Context) (node : NodeId) (place : Nat)
    (bindings : List (Option String × Mutability)) :
    ∃ added, (c.declareAll node place bindings).declared = c.declared ++ added ∧
      ∀ d ∈ added, d.depth = c.depth := by
  induction bindings generalizing c place with
  | nil => exact ⟨[], by simp [declareAll], by simp⟩
  | cons b rest ih =>
      obtain ⟨added, hAdded, hDepth⟩ := ih (c.declare node place b.1 b.2) (place + 1)
      refine ⟨⟨node, place, b.1, b.2, c.depth, c.made⟩ :: added, ?_, ?_⟩
      · rw [declareAll, hAdded, declared_declare, List.append_assoc, List.singleton_append]
      · intro d hMem
        rcases List.mem_cons.mp hMem with rfl | hMem
        · rfl
        · exact hDepth d hMem

theorem extends_extend (c : Context) (id : NodeId) (construct : Construct) :
    c.Extends (c.extend id construct) where
  depth_le := by simp
  declared := by
    obtain ⟨added, hAdded, hDepth⟩ := c.exists_declared_declareAll id 0 construct.bindings
    exact ⟨added, hAdded, fun d hMem => Nat.le_of_eq (hDepth d hMem).symm⟩

theorem extends_enter (c : Context) : c.Extends c.enter where
  depth_le := Nat.le_succ _
  declared := ⟨[], by simp [enter], by simp⟩

theorem extends_after (c : Context) (t : Tree) : c.Extends (c.after t) where
  depth_le := by simp
  declared := by
    unfold after
    split
    · exact (c.extends_extend t.id t.construct).declared
    · exact (Extends.refl c).declared

/-- What is found further on, but was declared outside, was found before. -/
theorem lookup?_of_extends {c further : Context} (hExtends : c.Extends further) {name : String}
    {d : Declaration} (hLookup : further.lookup? name = some d) (hOutside : d.depth < c.depth) :
    c.lookup? name = some d := by
  obtain ⟨added, hAdded, hDepth⟩ := hExtends.declared
  unfold lookup? at hLookup ⊢
  rw [List.findRev?_eq_find?_reverse] at hLookup ⊢
  rw [hAdded, List.reverse_append, List.find?_append] at hLookup
  -- what was added further in would be found first
  cases hNew : added.reverse.find? (·.name = some name) with
  | none => simpa [hNew] using hLookup
  | some e =>
      rw [hNew, Option.some_or, Option.some.injEq] at hLookup
      subst hLookup
      have hMem : e ∈ added := by simpa using List.mem_of_find?_eq_some hNew
      have := hDepth e hMem
      omega

theorem Nested.extend {c : Context} (hNested : c.Nested) (id : NodeId) (construct : Construct) :
    (c.extend id construct).Nested := by
  obtain ⟨added, hAdded, hDepth⟩ := c.exists_declared_declareAll id 0 construct.bindings
  intro d hMem
  rw [depth_extend]
  rw [Context.extend, hAdded] at hMem
  rcases List.mem_append.mp hMem with hMem | hMem
  · exact hNested d hMem
  · exact Nat.le_of_eq (hDepth d hMem)

theorem Nested.enter {c : Context} (hNested : c.Nested) : c.enter.Nested :=
  fun d hMem => Nat.le_succ_of_le (hNested d hMem)

theorem Nested.after {c : Context} (hNested : c.Nested) (t : Tree) : (c.after t).Nested := by
  intro d hMem
  rw [depth_after]
  unfold Context.after at hMem
  split at hMem
  · simpa using hNested.extend t.id t.construct d hMem
  · exact hNested d hMem

end Context

end Lexical

namespace Tree

open Lexical

/-! ### Counts of trees -/

/-- A function makes no declarations for the function around it. -/
theorem declarationCount_of_isFunction {t : Tree} (hFunction : t.construct.isFunction = true) :
    t.declarationCount = 0 := by
  obtain ⟨id, node, children⟩ := t
  rw [declarationCount]
  split
  · rfl
  · rename_i hNot
    change node.construct.isFunction = true at hFunction
    cases hConstruct : node.construct <;> simp [hConstruct, Construct.isFunction] at hFunction hNot

/-- A function changes nothing for what stands beside it. -/
theorem after_of_isFunction {t : Tree} (hFunction : t.construct.isFunction = true) (c : Context) :
    c.after t = c := by
  have hBinds := Construct.bindsInBlock_eq_false_of_isFunction hFunction
  rw [c.after_eq t hBinds, declarationCount_of_isFunction hFunction]
  rfl

/-- Trees without declarations have none together. -/
theorem declarationCountAll_eq_zero {ts : List Tree} (hZero : ∀ t ∈ ts, t.declarationCount = 0) :
    declarationCountAll ts = 0 := by
  induction ts with
  | nil => rfl
  | cons t rest ih =>
      rw [declarationCountAll, hZero t List.mem_cons_self,
        ih fun s hMem => hZero s (List.mem_cons_of_mem t hMem)]

/-- Expressions make no declarations for the function around them. -/
theorem declarationCount_of_isExpression {t : Tree} (hProper : t.IsProper)
    (hExpression : t.construct.isExpression = true) : t.declarationCount = 0 := by
  induction t using induction_children with
  | mk id node children ih =>
      change node.construct.isExpression = true at hExpression
      have hAdmits := hProper.admits
      have hBelow : ∀ child ∈ children, child.declarationCount = 0 := by
        intro child hMem
        by_cases hOperands : node.construct.hasOperands = true
        · have hChild := Construct.isExpression_of_admits hOperands (Or.inl hExpression) hAdmits _
            (List.mem_map_of_mem hMem)
          exact ih child hMem (hProper.of_mem_children hMem) hChild
        · by_cases hClosure : node.construct = .closure
          · -- the child is a function
            obtain ⟨function, rfl, hFunction⟩ := hProper.exists_of_closure hClosure
            obtain rfl := List.mem_singleton.mp hMem
            exact declarationCount_of_isFunction
              (Construct.isFunction_of_isClosureFunction hFunction)
          · rw [Bool.not_eq_true] at hOperands
            rw [hProper.eq_nil_of_leaf hExpression hOperands hClosure] at hMem
            cases hMem
      have hBindings := Construct.bindings_eq_nil_of_isExpression hExpression
      rw [declarationCount]
      split
      · rfl
      · rw [hBindings, declarationCountAll_eq_zero hBelow]
        rfl

/-- The value of a statement that binds in its block or assigns is an expression. -/
theorem isExpression_of_value {id : NodeId} {node : Node} {children : List Tree}
    (hProper : (mk id node children).IsProper)
    (hKind : node.construct.bindsInBlock = true ∨ ∃ name, node.construct = .assignment name)
    {t : Tree} (hMem : t ∈ children) : t.construct.isExpression = true := by
  have hOperands : node.construct.hasOperands = true := by
    rcases hKind with hBinds | ⟨name, hConstruct⟩
    · exact Construct.hasOperands_of_bindsInBlock hBinds
    · rw [hConstruct]
      rfl
  exact Construct.isExpression_of_admits hOperands (Or.inr hKind) hProper.admits _
    (List.mem_map_of_mem hMem)

/-- Such a value makes no declarations. -/
theorem declarationCountAll_of_value {id : NodeId} {node : Node} {children : List Tree}
    (hProper : (mk id node children).IsProper)
    (hKind : node.construct.bindsInBlock = true ∨ ∃ name, node.construct = .assignment name) :
    declarationCountAll children = 0 := by
  apply declarationCountAll_eq_zero
  intro t hMem
  exact declarationCount_of_isExpression (hProper.of_mem_children hMem)
    (isExpression_of_value hProper hKind hMem)

/-- An expression changes nothing for what stands beside it. -/
theorem after_of_isExpression {t : Tree} (hProper : t.IsProper)
    (hExpression : t.construct.isExpression = true) (c : Context) : c.after t = c := by
  have hBinds := Construct.bindsInBlock_eq_false_of_isExpression hExpression
  rw [c.after_eq t hBinds, declarationCount_of_isExpression hProper hExpression]
  rfl

end Tree

end LateBinding
