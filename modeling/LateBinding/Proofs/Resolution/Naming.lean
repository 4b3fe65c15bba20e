import LateBinding.Proofs.Resolution.Calls
import LateBinding.Proofs.Resolution.Recorded
import LateBinding.Proofs.Scope.Names

/-!
# The names of closures

A closure has no name of its own, so it is given a fresh one.  Fresh names are taken from one supply
during the whole walk, so no other closure has this name, nothing in the program has it, and nothing
is declared under it; and the layout of the closure is found under it.

* `Silent` - a part of the walk that names no function; `silent_steps` - the single steps are silent.
* `Progress.Apart` - the names given so far are different, and not used for anything else.
* `Names`, `closed_names` - the walk through trees names the closures among them, and lays down a
  frame under each of these names.
* `names_are_fresh` - the names of a supply, and of the closures of a resolved module.
-/

namespace LateBinding.Resolution

open Scope (ScopeId Binding)
open FreshName (MadeBefore isReserved)

/-- The name of the function at a node of a resolved program. -/
def Outcome.functionName? (r : Outcome) (node : NodeId) : Option String :=
  (r.forest.node? node).bind (·.construct.functionName?)

/-! ### Parts of the walk that name no function -/

/-- No function was named, and a fresh name is declared only if it was before or is new. -/
structure Silent (p q : Progress) : Prop where
  renamed : q.renamed = p.renamed
  layouts : q.layouts = p.layouts
  made_le : p.names.made ≤ q.names.made
  declared : ∀ name, q.scopes.Declares name → isReserved name = true →
    p.scopes.Declares name ∨ MadeBefore q.names.made name ∧ ¬ MadeBefore p.names.made name

namespace Silent

variable {p q r : Progress}

theorem trans (hFirst : Silent p q) (hSecond : Silent q r) : Silent p r where
  renamed := hSecond.renamed.trans hFirst.renamed
  layouts := hSecond.layouts.trans hFirst.layouts
  made_le := Nat.le_trans hFirst.made_le hSecond.made_le
  declared := by
    intro name hDeclares hReserved
    rcases hSecond.declared name hDeclares hReserved with hBetween | ⟨hMade, hNew⟩
    · exact (hFirst.declared name hBetween hReserved).imp_right
        fun ⟨hMade, hNew⟩ => ⟨hMade.mono hSecond.made_le, hNew⟩
    · exact .inr ⟨hMade, fun hOld => hNew (hOld.mono hFirst.made_le)⟩

/-- A step that brings in no names. -/
theorem of_declares (hRenamed : q.renamed = p.renamed) (hLayouts : q.layouts = p.layouts)
    (hMade : p.names.made ≤ q.names.made)
    (hDeclares : ∀ name, q.scopes.Declares name → p.scopes.Declares name) : Silent p q where
  renamed := hRenamed
  layouts := hLayouts
  made_le := hMade
  declared := fun name hDeclared _ => .inl (hDeclares name hDeclared)

theorem refl (p : Progress) : Silent p p :=
  of_declares rfl rfl (Nat.le_refl _) fun _ hDeclared => hDeclared

theorem recordCall (p : Progress) (node : NodeId) (selector : Selector) (arity : Nat) (span : Span) :
    Silent p (p.recordCall node selector arity span) :=
  of_declares rfl rfl (Nat.le_refl _) fun _ hDeclared => hDeclared

theorem capture (p : Progress) (environment : ScopeId) (b : Binding) :
    Silent p (p.capture environment b) := by
  unfold Progress.capture
  split
  · exact refl p
  · exact of_declares rfl rfl (Nat.le_refl _) fun _ hDeclared => hDeclared.of_setCaptured

theorem openScope {node : NodeId} {outer inner : ScopeId}
    (hOk : p.openScope node outer = .ok (inner, q)) : Silent p q := by
  obtain ⟨⟨scope, scopes⟩, hOpen, hRest⟩ := exists_of_bind_eq_ok hOk
  cases hRest
  refine of_declares rfl rfl (Nat.le_refl _) fun name hDeclared => ?_
  cases hResult : p.scopes.openInside outer with
  | error e => simp [hResult, Progress.ofScope] at hOpen
  | ok opened =>
      simp only [hResult, Progress.ofScope, Except.ok.injEq] at hOpen
      subst hOpen
      exact hDeclared.of_openInside hResult

/-- Only the declared name comes in. -/
theorem declares_of_declare {scope : ScopeId} {name : String} {mutability : Mutability} {slot : Nat}
    (hOk : p.declare scope name mutability = .ok (slot, q)) {other : String}
    (hDeclared : q.scopes.Declares other) : p.scopes.Declares other ∨ other = name := by
  obtain ⟨scopes, hDeclare, hRest⟩ := exists_of_bind_eq_ok hOk
  cases hRest
  cases hResult : p.scopes.declare scope ⟨name, mutability, some p.frame.nextSlot, false⟩ with
  | error e => simp [hResult, Progress.ofScope] at hDeclare
  | ok next =>
      simp only [hResult, Progress.ofScope, Except.ok.injEq] at hDeclare
      subst hDeclare
      exact hDeclared.of_declare hResult

/-- Declaring changes neither the names given nor the layouts. -/
theorem of_declare {scope : ScopeId} {name : String} {mutability : Mutability} {slot : Nat}
    (hOk : p.declare scope name mutability = .ok (slot, q)) :
    q.renamed = p.renamed ∧ q.layouts = p.layouts ∧ q.names = p.names := by
  obtain ⟨scopes, -, hRest⟩ := exists_of_bind_eq_ok hOk
  cases hRest
  exact ⟨rfl, rfl, rfl⟩

theorem declare {scope : ScopeId} {name : String} {mutability : Mutability} {slot : Nat}
    (hPlain : isReserved name = false) (hOk : p.declare scope name mutability = .ok (slot, q)) :
    Silent p q := by
  obtain ⟨hRenamed, hLayouts, hNames⟩ := of_declare hOk
  refine ⟨hRenamed, hLayouts, by rw [hNames], fun other hDeclared hReserved => ?_⟩
  rcases declares_of_declare hOk hDeclared with hOld | rfl
  · exact .inl hOld
  · rw [hPlain] at hReserved
    cases hReserved

theorem declareFresh {tag : String} {scope : ScopeId} {mutability : Mutability} {slot : Nat}
    (hOk : (p.mint tag).2.declare scope (p.mint tag).1 mutability = .ok (slot, q)) : Silent p q := by
  obtain ⟨hRenamed, hLayouts, hNames⟩ := of_declare hOk
  refine ⟨hRenamed, hLayouts, by rw [hNames]; exact Nat.le_succ _, fun other hDeclared _ => ?_⟩
  rcases declares_of_declare hOk hDeclared with hOld | rfl
  · exact .inl hOld
  · right
    rw [hNames]
    exact ⟨FreshName.madeBefore_mint p.names (some tag),
      FreshName.not_madeBefore_mint p.names (some tag)⟩

theorem beginFrame {outer : ScopeId} {isClosure : Bool}
    (hOk : p.beginFrame outer isClosure = .ok q) : Silent p q := by
  cases isClosure with
  | false =>
      cases hOk
      exact of_declares rfl rfl (Nat.le_refl _) fun _ hDeclared => hDeclared
  | true =>
      obtain ⟨⟨environment, scopes⟩, hSnapshot, hRest⟩ := exists_of_bind_eq_ok hOk
      cases hRest
      refine of_declares rfl rfl (Nat.le_refl _) fun name hDeclared => ?_
      cases hResult : p.scopes.snapshot outer false with
      | error e => simp [hResult, Progress.ofScope] at hSnapshot
      | ok taken =>
          simp only [hResult, Progress.ofScope, Except.ok.injEq] at hSnapshot
          subst hSnapshot
          exact hDeclared.of_clearCaptured.of_snapshot hResult

end Silent

/-- The single steps of the walk name no function. -/
theorem silent_steps : Steps (isReserved · = false) fun p _ q => Silent p q where
  refl := Silent.refl
  trans := Silent.trans
  openScope := Silent.openScope
  recordSlot _ _ _ := Silent.of_declares rfl rfl (Nat.le_refl _) fun _ hDeclared => hDeclared
  capture := Silent.capture
  declare := Silent.declare
  declareFresh := Silent.declareFresh

/-- What holds of parts of the walk that name no function, and of one part after another, holds of the
single steps. -/
theorem steps_of_silent {R : Progress → List Tree → Progress → Prop}
    (hSilent : ∀ {p q}, Silent p q → R p [] q)
    (hTrans : ∀ {p q r ts us}, R p ts q → R q us r → R p (ts ++ us) r) :
    Steps (isReserved · = false) R where
  refl p := hSilent (Silent.refl p)
  trans := hTrans
  openScope hOk := hSilent (Silent.openScope hOk)
  recordSlot p node slot := hSilent (silent_steps.recordSlot p node slot)
  capture p environment b := hSilent (Silent.capture p environment b)
  declare hPlain hOk := hSilent (Silent.declare hPlain hOk)
  declareFresh hOk := hSilent (Silent.declareFresh hOk)

/-! ### The names given to closures -/

namespace Progress

/-- The names given so far. -/
def given (p : Progress) : List String :=
  p.renamed.toList.map Prod.snd

/-- The closures whose frames are laid down, with their names. -/
def laidDown (p : Progress) : List (NodeId × String) :=
  (p.layouts.toList.filter Layout.isClosure).map fun l => (l.function, l.name)

/-- The names given so far are different, they are fresh names, nothing is declared under them, and
no other function has one of them. -/
structure Apart (p : Progress) : Prop where
  nodup : p.given.Nodup
  fresh : ∀ name ∈ p.given, isReserved name = true ∧ MadeBefore p.names.made name
  declared : ∀ name, p.scopes.Declares name → isReserved name = true →
    MadeBefore p.names.made name ∧ name ∉ p.given
  plain : ∀ l ∈ p.layouts.toList, l.isClosure = false → isReserved l.name = false

/-- At the beginning no name is given and none declared. -/
theorem apart_atModule (id : NodeId) (name : String) : (atModule id name).Apart where
  nodup := List.nodup_nil
  fresh := fun _ hMem => absurd hMem List.not_mem_nil
  declared := by
    intro other hDeclared
    obtain ⟨scope, t, hTable, hMem⟩ := Scope.Store.declares_iff.mp hDeclared
    -- the only table is that of the module, which is empty
    have hSome : (Scope.Store.empty.openRoot.2.table? scope) = some t := hTable
    rw [Scope.Store.openRoot, Scope.Store.table?_push] at hSome
    split at hSome
    · cases hSome
      cases hMem
    · cases hSome
  plain := fun _ hMem => absurd hMem List.not_mem_nil

end Progress

/-- A part of the walk that names no function keeps the names apart. -/
theorem Silent.apart {p q : Progress} (hSilent : Silent p q) (hApart : p.Apart) : q.Apart := by
  have hGiven : q.given = p.given := by rw [Progress.given, hSilent.renamed, Progress.given]
  refine ⟨hGiven ▸ hApart.nodup, ?_, ?_, hSilent.layouts ▸ hApart.plain⟩
  · rw [hGiven]
    exact fun name hMem => (hApart.fresh name hMem).imp_right (·.mono hSilent.made_le)
  · rw [hGiven]
    intro name hDeclared hReserved
    rcases hSilent.declared name hDeclared hReserved with hOld | ⟨hMade, hNew⟩
    · exact (hApart.declared name hOld hReserved).imp_left (·.mono hSilent.made_le)
    · exact ⟨hMade, fun hMem => hNew (hApart.fresh name hMem).2⟩

/-- The closures among trees, by the nodes of their functions. -/
def closureIds (ts : List Tree) : List NodeId :=
  (ts.filter (·.construct.isClosureFunction)).map Tree.id

/-- The walk through trees gives names to the closures among them, in their order; it keeps the names
apart, and lays down a frame for each closure under its name. -/
def Names (p : Progress) (ts : List Tree) (q : Progress) : Prop :=
  p.Apart → q.Apart ∧ ∃ pairs, q.renamed.toList = p.renamed.toList ++ pairs ∧
    pairs.map Prod.fst = closureIds ts ∧ q.laidDown.Perm (p.laidDown ++ pairs)

/-- A part of the walk that names no function names no closure. -/
theorem Silent.names {p q : Progress} (hSilent : Silent p q) : Names p [] q := by
  intro hApart
  refine ⟨hSilent.apart hApart, [], ?_, rfl, ?_⟩
  · rw [hSilent.renamed, List.append_nil]
  · rw [Progress.laidDown, hSilent.layouts, List.append_nil, Progress.laidDown]

theorem Names.trans {p q r : Progress} {ts us : List Tree} (hFirst : Names p ts q)
    (hSecond : Names q us r) : Names p (ts ++ us) r := by
  intro hApart
  obtain ⟨hMiddle, pairs, hRenamed, hIds, hLaid⟩ := hFirst hApart
  obtain ⟨hLast, more, hMoreRenamed, hMoreIds, hMoreLaid⟩ := hSecond hMiddle
  refine ⟨hLast, pairs ++ more, ?_, ?_, ?_⟩
  · rw [hMoreRenamed, hRenamed, List.append_assoc]
  · rw [List.map_append, hIds, hMoreIds, closureIds, closureIds, closureIds, List.filter_append,
      List.map_append]
  · rw [← List.append_assoc]
    exact hMoreLaid.trans (hLaid.append_right more)

/-! ### Functions -/

/-- What naming a function gives: to the function of a closure its name, and to others none. -/
def givenTo (id : NodeId) (name : String) (isClosure : Bool) : List (NodeId × String) :=
  if isClosure then [(id, name)] else []

/-- Naming a function keeps the names apart, and gives a name to a closure. -/
theorem Progress.Apart.nameFunction {p : Progress} (hApart : p.Apart) (id : NodeId) {name : String}
    {isClosure : Bool} :
    (p.nameFunction id name isClosure).2.Apart ∧
      (p.nameFunction id name isClosure).2.renamed.toList =
        p.renamed.toList ++ givenTo id (p.nameFunction id name isClosure).1 isClosure := by
  cases isClosure with
  | false => exact ⟨hApart, (List.append_nil _).symm⟩
  | true =>
      have hRenamed : (p.nameFunction id name true).2.renamed.toList =
          p.renamed.toList ++ [(id, (p.names.mint (some "closure")).1)] := Array.toList_push
      have hGiven : (p.nameFunction id name true).2.given =
          p.given ++ [(p.names.mint (some "closure")).1] := by
        rw [given, hRenamed, List.map_append]
        rfl
      have hMade : (p.nameFunction id name true).2.names.made = p.names.made + 1 := rfl
      have hNew := FreshName.not_madeBefore_mint p.names (some "closure")
      have hLe : p.names.made ≤ (p.nameFunction id name true).2.names.made := Nat.le_succ _
      refine ⟨⟨?_, ?_, ?_, hApart.plain⟩, hRenamed⟩
      · -- the name is new, and the names given so far were made before
        rw [hGiven, List.nodup_append]
        refine ⟨hApart.nodup, List.nodup_singleton _, ?_⟩
        intro other hMem last hLast hSame
        rw [List.mem_singleton] at hLast
        rw [hSame, hLast] at hMem
        exact hNew (hApart.fresh _ hMem).2
      · rw [hGiven]
        intro other hMem
        rcases List.mem_append.mp hMem with hMem | hMem
        · exact (hApart.fresh other hMem).imp_right (·.mono hLe)
        · rw [List.mem_singleton] at hMem
          subst hMem
          exact ⟨p.names.isReserved_mint _, FreshName.madeBefore_mint p.names _⟩
      · intro other hDeclared hReserved
        obtain ⟨hMade, hNot⟩ := hApart.declared other hDeclared hReserved
        refine ⟨hMade.mono hLe, ?_⟩
        rw [hGiven, List.mem_append, List.mem_singleton, not_or]
        refine ⟨hNot, ?_⟩
        rintro rfl
        exact hNew hMade

/-- A function that is entered is named first, and then nothing is named until its block. -/
theorem silent_enterFunction {p q : Progress} {outer : ScopeId} {id : NodeId} {name : String}
    {params : List String} {isClosure : Bool} {entry : Progress.Entry}
    (hParams : ∀ param ∈ params, isReserved param = false)
    (hOk : p.enterFunction outer id name params isClosure = .ok (entry, q)) :
    entry.name = (p.nameFunction id name isClosure).1 ∧
      Silent (p.nameFunction id name isClosure).2 q := by
  obtain ⟨begun, opened, hBegin, hOpen, hName, hDeclare⟩ := Progress.exists_of_enterFunction hOk
  have hEnter : Silent opened { opened with names := opened.names.enter entry.name } :=
    Silent.of_declares rfl rfl (Nat.le_refl _) fun _ hDeclared => hDeclared
  exact ⟨hName, (Silent.beginFrame hBegin).trans
    ((Silent.openScope hOpen).trans (hEnter.trans (silent_steps.declareAll hParams hDeclare)))⟩

section Leaving

variable (r : Progress) (id : NodeId) (isClosure : Bool) (entry : Progress.Entry) (around : Frame)

/-- A frame is laid down under the name of its function. -/
theorem laidDown_leaveFunction : (r.leaveFunction id isClosure entry around).2.laidDown =
    r.laidDown ++ givenTo id entry.name isClosure := by
  cases isClosure <;> simp [Progress.laidDown, Progress.leaveFunction, givenTo]

variable {r isClosure entry}

/-- Leaving a function keeps the names apart, if the name of one that is no closure is plain. -/
theorem Progress.Apart.leaveFunction (hApart : r.Apart)
    (hPlain : isClosure = false → isReserved entry.name = false) :
    (r.leaveFunction id isClosure entry around).2.Apart := by
  refine ⟨hApart.nodup, hApart.fresh, hApart.declared, ?_⟩
  intro l hMem hKind
  rw [Progress.leaveFunction, Array.toList_push, List.mem_append, List.mem_singleton] at hMem
  rcases hMem with hMem | rfl
  · exact hApart.plain l hMem hKind
  · exact hPlain hKind

end Leaving

/-- The walk through a function names the closures in it, and the function itself if it is that of a
closure. -/
theorem Names.function {p q r : Progress} {outer : ScopeId} {id : NodeId} {node : Node} {body : Tree}
    {name : String} {params : List String} {isClosure : Bool} {entry : Progress.Entry}
    (hConstruct : node.construct = .function name params isClosure)
    (hNames : ∀ other ∈ node.construct.names, isReserved other = false)
    (hOk : p.enterFunction outer id name params isClosure = .ok (entry, q))
    (hBody : Names q body.subtrees r) :
    Names p (Tree.mk id node [body]).subtrees (r.leaveFunction id isClosure entry p.frame).2 := by
  have hParams : ∀ param ∈ params, isReserved param = false := fun param hMem =>
    hNames param (Construct.mem_names_of_mem_params hConstruct hMem)
  obtain ⟨hName, hSilent⟩ := silent_enterFunction hParams hOk
  intro hApart
  obtain ⟨hNamed, hGiven⟩ := hApart.nameFunction id
  obtain ⟨hLast, pairs, hRenamed, hIds, hLaid⟩ := hBody (hSilent.apart hNamed)
  have hBefore : q.laidDown = p.laidDown := by
    rw [Progress.laidDown, hSilent.layouts]
    cases isClosure <;> rfl
  rw [← hName] at hGiven
  refine ⟨hLast.leaveFunction id p.frame ?_, givenTo id entry.name isClosure ++ pairs, ?_, ?_, ?_⟩
  · rintro rfl
    rw [hName]
    exact hNames name (by simp [hConstruct, Construct.names])
  · show r.renamed.toList = _
    rw [hRenamed, hSilent.renamed, hGiven, List.append_assoc]
  · rw [List.map_append, hIds, Tree.subtrees, Tree.subtreesAll_singleton,
      closureIds, closureIds, List.filter_cons]
    simp only [Tree.construct, Tree.node, hConstruct]
    cases isClosure <;> rfl
  · rw [laidDown_leaveFunction, ← hBefore]
    refine (hLaid.append_right _).trans ?_
    rw [List.append_assoc]
    exact List.perm_append_comm.append_left _

/-- A node that is no function names what its children name. -/
theorem Names.of_children {p q : Progress} {id : NodeId} {node : Node} {children : List Tree}
    (hFunction : node.construct.isFunction = false)
    (hBelow : Names p (Tree.subtreesAll children) q) :
    Names p (Tree.mk id node children).subtrees q := by
  have hClosure : node.construct.isClosureFunction = false := by
    cases hConstruct : node.construct <;>
      simp_all [Construct.isFunction, Construct.isClosureFunction]
  have hIds : closureIds (Tree.mk id node children).subtrees =
      closureIds (Tree.subtreesAll children) := by
    rw [Tree.subtrees, closureIds, List.filter_cons, if_neg]
    · rfl
    · simpa [Tree.construct, Tree.node] using hClosure
  unfold Names
  rw [hIds]
  exact hBelow

/-- The walk through a tree names the closures of the tree. -/
theorem closed_names : Closed (isReserved · = false) Names where
  toSteps := steps_of_silent Silent.names Names.trans
  node hFunction _ hBelow := hBelow.of_children hFunction
  call hSelector hBelow := by
    exact ((Silent.recordCall ..).names.trans hBelow).of_children
      (Construct.isFunction_eq_false_of_selector? hSelector)
  function hConstruct hNames hOk hBody := Names.function hConstruct hNames hOk hBody

/-! ### Resolved modules -/

/-- The walk through a module names the closures of the module, and keeps the names apart. -/
theorem apart_moduleTree {options : Options} {t : Tree} (hProper : t.IsProper) {p : Progress}
    (hOk : moduleTree options t = .ok p) :
    p.Apart ∧ p.renamed.toList.map Prod.fst = closureIds t.subtrees ∧
      p.laidDown.Perm p.renamed.toList := by
  obtain ⟨name, hConstruct, hNames⟩ := closed_names.moduleTree hProper.isReadWhole hOk
  have hFunction : t.construct.isFunction = false := by rw [hConstruct]; rfl
  obtain ⟨id, node, children⟩ := t
  have hAll : Names _ (Tree.mk id node children).subtrees p := hNames.of_children hFunction
  obtain ⟨hApart, pairs, hRenamed, hIds, hLaid⟩ := hAll (Progress.apart_atModule _ _)
  have hPairs : p.renamed.toList = pairs := hRenamed
  rw [hPairs]
  exact ⟨hApart, hIds, hLaid⟩

/-- The names of functions in a resolved program are those recorded for them. -/
theorem functionName?_annotate {f : Forest} {slots : List (NodeId × Nat)}
    {names : List (NodeId × String)} (hDistinct : (names.map Prod.fst).Nodup) {id : NodeId}
    {name : String} (hMem : (id, name) ∈ names) {n : Node} (hNode : f.node? id = some n)
    (hFunction : n.construct.isFunction = true) :
    ((annotate f slots names).node? id).bind (·.construct.functionName?) = some name := by
  have hKeeps : ∀ (f : Forest) (other : NodeId) (slot : Nat),
      ((f.modify other fun n => { n with slot := some slot }).node? id).map Node.construct =
        (f.node? id).map Node.construct := by
    intro f other slot
    rw [Forest.node?_modify]
    split
    · cases f.node? id <;> rfl
    · rfl
  have hSlotted :=
    foldl_modify_keeps (fun f : Forest => (f.node? id).map Node.construct) hKeeps slots f
  rw [hNode, Option.map_some] at hSlotted
  obtain ⟨m, hM, hSame⟩ := Option.map_eq_some_iff.mp hSlotted
  rw [annotate, node?_foldl_modify_of_mem
    (fun name n => { n with construct := n.construct.renamed name }) _ hDistinct hMem, hM,
    Option.map_some, Option.bind_some, hSame]
  cases hConstruct : n.construct <;> simp [hConstruct, Construct.isFunction] at hFunction
  rfl

namespace IsResolved

variable {options : Options} {f : Forest} {t : Tree} {r : Outcome}
  (hResolved : IsResolved options f t r)

include hResolved

/-- The names given to the closures of a resolved module: they are different and fresh, the functions
have them, nothing is declared under them, and one frame is laid down under each of them. -/
theorem exists_names : ∃ names : List (NodeId × String), (names.map Prod.snd).Nodup ∧
    (∀ id name, (id, name) ∈ names → isReserved name = true ∧ r.functionName? id = some name ∧
      ∀ scope, name ∉ r.scopes.ownedNames scope) ∧
    ((r.layouts.filter Layout.isClosure).map fun l => (l.function, l.name)).Perm names ∧
    ∀ l ∈ r.layouts, l.isClosure = false → isReserved l.name = false := by
  have hResult := hResolved.resolved
  rw [resolve, hResolved.root] at hResult
  obtain ⟨p, hModule, hOk⟩ := exists_of_bind_eq_ok hResult
  cases hOk
  obtain ⟨hApart, hIds, hLaid⟩ := apart_moduleTree hResolved.module.toIsProper hModule
  have hDistinct : (p.renamed.toList.map Prod.fst).Nodup := by
    rw [hIds]
    exact (List.filter_sublist.map Tree.id).nodup hResolved.distinct
  refine ⟨p.renamed.toList, hApart.nodup, fun id name hMem => ?_, hLaid, hApart.plain⟩
  have hGiven : name ∈ p.given := List.mem_map_of_mem hMem
  have hReserved := (hApart.fresh name hGiven).1
  refine ⟨hReserved, ?_, fun scope hOwned => ?_⟩
  · have hClosure : id ∈ closureIds t.subtrees := hIds ▸ List.mem_map_of_mem hMem
    obtain ⟨s, hS, rfl⟩ := List.mem_map.mp hClosure
    obtain ⟨hSub, hKind⟩ := List.mem_filter.mp hS
    exact functionName?_annotate hDistinct hMem (hResolved.node?_eq hSub)
      (Construct.isFunction_of_isClosureFunction hKind)
  · exact (hApart.declared name ⟨scope, hOwned⟩ hReserved).2 hGiven

end IsResolved

/-- **Fresh names are fresh.**  Whatever contexts are entered and left and whatever tags are given,
the names that a supply gives are all different, and begin with the reserved word.  Hence in every
resolved module each closure has a name of its own: it differs from the names of the other closures,
from every name in the program, and from everything that any scope declares, made up or not; and the
layout found under it is that of the closure. -/
theorem names_are_fresh :
    (∀ (s : FreshName.Supply) (requests : List FreshName.Request),
      (s.run requests).1.Nodup ∧ ∀ name ∈ (s.run requests).1, isReserved name = true) ∧
    ∀ {options : Options} {f : Forest} {t : Tree} {r : Outcome}, IsResolved options f t r →
      (∀ C ∈ t.subtrees, C.construct.isClosureFunction = true →
        ∃ name layout, r.functionName? C.id = some name ∧ isReserved name = true ∧
          (∀ s ∈ t.subtrees, name ∉ s.construct.names) ∧
          (∀ scope, name ∉ r.scopes.ownedNames scope) ∧
          r.layout? name = some layout ∧ r.layoutOf? C.id = some layout ∧ layout.name = name) ∧
      ∀ C ∈ t.subtrees, C.construct.isClosureFunction = true →
        ∀ D ∈ t.subtrees, D.construct.isClosureFunction = true → C.id ≠ D.id →
          r.functionName? C.id ≠ r.functionName? D.id := by
  refine ⟨fun s requests => ?_, fun {options f t r} hResolved => ?_⟩
  · obtain ⟨hNodup, hFresh⟩ := s.run_fresh requests
    exact ⟨hNodup, fun name hMem => (hFresh name hMem).1⟩
  obtain ⟨names, hDistinct, hNames, hLaid, hPlain⟩ := hResolved.exists_names
  have hLaidNames : ((r.layouts.filter Layout.isClosure).map Layout.name).Nodup := by
    have hAll := (hLaid.map Prod.snd).nodup_iff.mpr hDistinct
    rwa [List.map_map] at hAll
  -- the layout of a closure is laid down under the name given to it
  have hNamed : ∀ C ∈ t.subtrees, C.construct.isClosureFunction = true →
      ∃ layout, r.layoutOf? C.id = some layout ∧ layout.isClosure = true ∧
        (C.id, layout.name) ∈ names := by
    intro C hC hClosure
    obtain ⟨q, hQ, rfl⟩ := List.mem_map.mp ((Tree.perm_subtrees t .outermost).mem_iff.mpr hC)
    obtain ⟨name, hLayout⟩ :=
      hResolved.exists_layoutOf? hQ (Construct.isFunction_of_isClosureFunction hClosure)
    refine ⟨q.layout name, hLayout, hClosure, hLaid.mem_iff.mp ?_⟩
    exact List.mem_map.mpr ⟨q.layout name,
      List.mem_filter.mpr ⟨List.mem_of_find?_eq_some hLayout, hClosure⟩, rfl⟩
  refine ⟨fun C hC hClosure => ?_, fun C hC hClosure D hD hOther hNe hSame => ?_⟩
  · obtain ⟨layout, hLayout, hKind, hPair⟩ := hNamed C hC hClosure
    obtain ⟨hReserved, hName, hUndeclared⟩ := hNames _ _ hPair
    refine ⟨layout.name, layout, hName, hReserved, fun s hS hMem => ?_, hUndeclared, ?_, hLayout,
      rfl⟩
    · rw [hResolved.module.names s hS _ hMem] at hReserved
      cases hReserved
    · obtain ⟨found, hFound⟩ : ∃ found, r.layout? layout.name = some found := by
        rw [← Option.isSome_iff_exists, Outcome.layout?, List.find?_isSome]
        exact ⟨layout, List.mem_of_find?_eq_some hLayout, decide_eq_true rfl⟩
      have hSameName : found.name = layout.name := by simpa using List.find?_some hFound
      have hFoundMem := List.mem_of_find?_eq_some hFound
      -- no function with a plain name is found, and no other closure
      have hFoundKind : found.isClosure = true := by
        by_contra hNot
        rw [← hSameName, hPlain found hFoundMem (by simpa using hNot)] at hReserved
        cases hReserved
      rw [hFound, List.inj_on_of_nodup_map hLaidNames (List.mem_filter.mpr ⟨hFoundMem, hFoundKind⟩)
        (List.mem_filter.mpr ⟨List.mem_of_find?_eq_some hLayout, hKind⟩) hSameName]
  · obtain ⟨layout, -, -, hPair⟩ := hNamed C hC hClosure
    obtain ⟨other, -, -, hOtherPair⟩ := hNamed D hD hOther
    rw [(hNames _ _ hPair).2.1, (hNames _ _ hOtherPair).2.1, Option.some.injEq] at hSame
    exact hNe (congrArg Prod.fst (List.inj_on_of_nodup_map hDistinct hPair hOtherPair hSame))

/-- The two closures of the module with closures have different fresh names, and the layout of the
inner one is found under its name. -/
theorem names_are_fresh_nestedOutcome :
    IsResolved ⟨[]⟩ nestedForest nestedTree nestedOutcome ∧
    nestedOutcome.functionName? ⟨7⟩ ≠ nestedOutcome.functionName? ⟨11⟩ ∧
    ∃ name layout, nestedOutcome.functionName? ⟨11⟩ = some name ∧ isReserved name = true ∧
      nestedOutcome.layout? name = some layout ∧ layout.function = ⟨11⟩ := by
  obtain ⟨C, hC, hCClosure, hCId⟩ : ∃ C ∈ nestedTree.subtrees,
      C.construct.isClosureFunction = true ∧ C.id = ⟨7⟩ := by decide +kernel
  obtain ⟨D, hD, hDClosure, hDId⟩ : ∃ D ∈ nestedTree.subtrees,
      D.construct.isClosureFunction = true ∧ D.id = ⟨11⟩ := by decide +kernel
  obtain ⟨hEach, hDifferent⟩ := names_are_fresh.2 nestedOutcome_isResolved
  obtain ⟨name, layout, hName, hReserved, -, -, hFound, hLayout, -⟩ := hEach D hD hDClosure
  have hNames := hDifferent C hC hCClosure D hD hDClosure
  rw [hCId, hDId] at hNames
  rw [hDId] at hName hLayout
  refine ⟨nestedOutcome_isResolved, hNames (by decide), name, layout, hName, hReserved, hFound, ?_⟩
  simpa using List.find?_some hLayout

end LateBinding.Resolution
