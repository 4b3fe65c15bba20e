import LateBinding.Proofs.Lexical.Ownership

/-!
# The functions around a position

Every position that stands in some function has one directly around it.  A module consists of its
functions: they have names, nothing is declared where they stand, and inside them there are no other
functions with names.

* `Tree.exists_own` - the function directly around a position.
* `Tree.IsModule.mem_positions_of_mem_children`, `Tree.IsModule.mem_positions` - the functions of a
  module, and its other positions.
* `Tree.IsModule.declared_of_isNamedFunction`, `Tree.IsModule.exists_own_of_isClosureFunction` -
  where functions with names stand, and where the functions of closures do.
-/

namespace LateBinding.Tree

open Lexical

/-! ### Directly around -/

/-- A position further in than the trees has a function directly around it. -/
theorem exists_own :
    (∀ (c : Context) (t : Tree), ∀ q ∈ t.positions c, c.depth < q.context.depth →
      ∃ G ∈ t.positions c, G.construct.isFunction = true ∧ q ∈ G.own) ∧
    ∀ (c : Context) (ts : List Tree), ∀ q ∈ positionsAll c ts, c.depth < q.context.depth →
      ∃ G ∈ positionsAll c ts, G.construct.isFunction = true ∧ q ∈ G.own := by
  apply positions_induction
    (P := fun c t => ∀ q ∈ t.positions c, c.depth < q.context.depth →
      ∃ G ∈ t.positions c, G.construct.isFunction = true ∧ q ∈ G.own)
    (Q := fun c ts => ∀ q ∈ positionsAll c ts, c.depth < q.context.depth →
      ∃ G ∈ positionsAll c ts, G.construct.isFunction = true ∧ q ∈ G.own)
  · intro c q hMem
    cases hMem
  · intro c t rest hTree hRest q hMem hDepth
    rw [positionsAll] at hMem ⊢
    rcases List.mem_append.mp hMem with hMem | hMem
    · obtain ⟨G, hG, hAround⟩ := hTree q hMem hDepth
      exact ⟨G, List.mem_append_left _ hG, hAround⟩
    · obtain ⟨G, hG, hAround⟩ := hRest q hMem (by rwa [Context.depth_after])
      exact ⟨G, List.mem_append_right _ hG, hAround⟩
  · intro c id node first rest next hSplits hFirst hRest q hMem hDepth
    rw [hSplits.positions] at hMem ⊢
    rw [List.mem_append, List.mem_cons] at hMem
    rcases hMem with hMem | rfl | hMem
    · obtain ⟨G, hG, hAround⟩ := hFirst q hMem hDepth
      exact ⟨G, List.mem_append_left _ hG, hAround⟩
    · exact absurd hDepth (Nat.lt_irrefl _)
    · by_cases hFurther : next.depth < q.context.depth
      · obtain ⟨G, hG, hAround⟩ := hRest q hMem hFurther
        exact ⟨G, List.mem_append_right _ (List.mem_cons_of_mem _ hG), hAround⟩
      · rcases hSplits.next with rfl | ⟨hFunction, rfl, rfl⟩ | ⟨-, rfl⟩
        · exact absurd hDepth hFurther
        · -- the node itself is the function
          rw [Context.depth_extend, Context.depth_enter] at hFurther
          have hOwn : q.context.depth = c.enter.depth := by
            rw [Context.depth_enter]
            omega
          exact ⟨⟨c, mk id node rest⟩, List.mem_cons_self, hFunction,
            List.mem_filter.mpr ⟨hMem, decide_eq_true hOwn⟩⟩
        · rw [Context.depth_extend] at hFurther
          exact absurd hDepth hFurther

/-! ### Modules -/

/-- Functions read one after the other stand in the same context. -/
theorem mem_positionsAll_of_mem {ts : List Tree} {c : Context} {F : Tree}
    (hFunctions : ∀ t ∈ ts, t.construct.isFunction = true) (hF : F ∈ ts) :
    ⟨c, F⟩ ∈ positionsAll c ts := by
  induction ts with
  | nil => cases hF
  | cons t rest ih =>
      rw [positionsAll, after_of_isFunction (hFunctions t List.mem_cons_self)]
      rcases List.mem_cons.mp hF with rfl | hRest
      · exact List.mem_append_left _ (mem_positions_self c F)
      · exact List.mem_append_right _
          (ih (fun s hS => hFunctions s (List.mem_cons_of_mem t hS)) hRest)

/-- Every position of functions read one after the other is one of them or inside one of them. -/
theorem mem_positionsAll_of_functions {ts : List Tree} {c : Context} {q : Position}
    (hFunctions : ∀ t ∈ ts, t.construct.isFunction = true) (hMem : q ∈ positionsAll c ts) :
    ∃ F ∈ ts, q = ⟨c, F⟩ ∨ q ∈ (⟨c, F⟩ : Position).inside := by
  induction ts with
  | nil => cases hMem
  | cons t rest ih =>
      have hFunction := hFunctions t List.mem_cons_self
      have hPositions : t.positions c = ⟨c, t⟩ :: (⟨c, t⟩ : Position).inside :=
        positions_of_isFunction ⟨c, t⟩ hFunction
      rw [positionsAll, after_of_isFunction hFunction, hPositions] at hMem
      rcases List.mem_append.mp hMem with hMem | hMem
      · exact ⟨t, List.mem_cons_self, List.mem_cons.mp hMem⟩
      · obtain ⟨F, hF, hInside⟩ := ih (fun s hS => hFunctions s (List.mem_cons_of_mem t hS)) hMem
        exact ⟨F, List.mem_cons_of_mem t hF, hInside⟩

namespace IsModule

variable {t : Tree} (hModule : t.IsModule)

include hModule

/-- The children of a module are functions. -/
theorem isFunction_of_mem_children {F : Tree} (hF : F ∈ t.children) :
    F.construct.isFunction = true :=
  Construct.isFunction_of_isNamedFunction (hModule.isNamedFunction_of_mem_children hF)

/-- A module is read before its functions. -/
theorem positions_eq :
    t.positions .outermost = ⟨.outermost, t⟩ :: positionsAll .outermost t.children := by
  obtain ⟨name, hConstruct⟩ := hModule.module
  obtain ⟨id, node, children⟩ := t
  change node.construct = _ at hConstruct
  simp only [positions, hConstruct, Tree.children]

/-- The functions of a module stand where nothing is declared. -/
theorem mem_positions_of_mem_children {F : Tree} (hF : F ∈ t.children) :
    ⟨.outermost, F⟩ ∈ t.positions .outermost := by
  rw [hModule.positions_eq]
  exact List.mem_cons_of_mem _
    (mem_positionsAll_of_mem (fun s hS => hModule.isFunction_of_mem_children hS) hF)

/-- A position of a module is the module, one of its functions or inside one of them. -/
theorem mem_positions {q : Position} (hMem : q ∈ t.positions .outermost) :
    q = ⟨.outermost, t⟩ ∨ ∃ F ∈ t.children,
      q = ⟨.outermost, F⟩ ∨ q ∈ (⟨.outermost, F⟩ : Position).inside := by
  rw [hModule.positions_eq] at hMem
  exact (List.mem_cons.mp hMem).imp_right
    (mem_positionsAll_of_functions fun s hS => hModule.isFunction_of_mem_children hS)

/-- Inside the functions of a module stands only what stands inside functions. -/
theorem isLocal_of_mem_inside {c : Context} {F : Tree} (hF : F ∈ t.children) {q : Position}
    (hInside : q ∈ (⟨c, F⟩ : Position).inside) : q.construct.isLocal = true := by
  obtain ⟨id, node, children⟩ := F
  have hNamed : node.construct.isNamedFunction = true := hModule.isNamedFunction_of_mem_children hF
  have hProper : (Tree.mk id node children).IsProper := by
    obtain ⟨_, _, _⟩ := t
    exact hModule.of_mem_children hF
  have hBelow : q.tree ∈ subtreesAll children :=
    (perm_subtreesAll children _).mem_iff.mp (List.mem_map_of_mem hInside)
  rw [subtreesAll_eq_flatMap] at hBelow
  obtain ⟨child, hChild, hQ⟩ := List.mem_flatMap.mp hBelow
  have hNotModule : ∀ name, node.construct ≠ .module name := by
    intro name hConstruct
    rw [hConstruct] at hNamed
    cases hNamed
  exact (hProper.of_mem_children hChild).isLocal_of_mem_subtrees
    (hProper.isLocal_of_mem_children hNotModule hChild) hQ

/-- A function with a name is a child of the module, where nothing is declared. -/
theorem eq_of_isNamedFunction {q : Position} (hMem : q ∈ t.positions .outermost)
    (hNamed : q.construct.isNamedFunction = true) :
    ∃ F ∈ t.children, q = ⟨.outermost, F⟩ := by
  rcases hModule.mem_positions hMem with rfl | ⟨F, hF, hQ | hInside⟩
  · obtain ⟨name, hConstruct⟩ := hModule.module
    change t.construct.isNamedFunction = true at hNamed
    rw [hConstruct] at hNamed
    cases hNamed
  · exact ⟨F, hF, hQ⟩
  · rw [Construct.isNamedFunction_eq_false_of_isLocal
      (hModule.isLocal_of_mem_inside hF hInside)] at hNamed
    cases hNamed

/-- There is one module, on top. -/
theorem eq_of_module {q : Position} (hMem : q ∈ t.positions .outermost) {name : String}
    (hConstruct : q.construct = .module name) : q = ⟨.outermost, t⟩ := by
  rcases hModule.mem_positions hMem with hQ | ⟨F, hF, rfl | hInside⟩
  · exact hQ
  · have hFunction := hModule.isFunction_of_mem_children hF
    change F.construct = _ at hConstruct
    rw [hConstruct] at hFunction
    cases hFunction
  · have hLocal := hModule.isLocal_of_mem_inside hF hInside
    rw [hConstruct] at hLocal
    cases hLocal

/-- Where a function with a name stands in a module, nothing is declared. -/
theorem declared_of_isNamedFunction {q : Position} (hMem : q ∈ t.positions .outermost)
    (hNamed : q.construct.isNamedFunction = true) : q.context.declared = [] := by
  obtain ⟨F, -, rfl⟩ := hModule.eq_of_isNamedFunction hMem hNamed
  rfl

/-- The function of a closure stands in a function of the module. -/
theorem exists_own_of_isClosureFunction {q : Position} (hMem : q ∈ t.positions .outermost)
    (hClosure : q.construct.isClosureFunction = true) :
    ∃ G ∈ t.positions .outermost, G.construct.isFunction = true ∧ q ∈ G.own := by
  apply exists_own.1 .outermost t q hMem
  rcases hModule.mem_positions hMem with rfl | ⟨F, hF, rfl | hInside⟩
  · obtain ⟨name, hConstruct⟩ := hModule.module
    change t.construct.isClosureFunction = true at hClosure
    rw [hConstruct] at hClosure
    cases hClosure
  · have hNamed : (⟨.outermost, F⟩ : Position).construct.isNamedFunction = true :=
      hModule.isNamedFunction_of_mem_children hF
    rw [Construct.isNamedFunction_eq_false_of_isClosureFunction hClosure] at hNamed
    cases hNamed
  · have hFurther := (extends_of_mem_positionsAll hInside).depth_le
    rw [Context.depth_extend, Context.depth_enter] at hFurther
    exact Nat.lt_of_lt_of_le (Nat.succ_pos _) hFurther

end IsModule

end LateBinding.Tree
