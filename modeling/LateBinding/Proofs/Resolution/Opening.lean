import LateBinding.Proofs.Resolution.Induction
import LateBinding.Proofs.Resolution.Telling

/-!
# What a part of the walk opens

A part of the walk within one scope opens scopes for nodes in it, one after the other, and completes
them; the scope itself stays open.  What is said of completed scopes is said of tables that nothing
after them touches, so parts of the walk are put together one after the other.  The names for nodes
that declare something without a name are made as the walk goes on.

* `Opening`, `Opening.Stands` - a scope that was opened for a position, and what it owns when it is
  completed.
* `Account`, `Unfolds` - all scopes that a part of the walk opens, and how they lie in each other;
  `Unfolds.trans` puts parts together, and `unfolds_of_inner` goes from what is done inside a scope
  to the scope around it.
-/

namespace LateBinding.Resolution

open Lexical (Context Declaration Position)
open Scope (Binding ScopeId)
open FreshName (isReserved)

variable {fresh : NodeId → String} {before : Nat} {c next : Context} {p q r : Progress}
  {scope : ScopeId}

/-! ### Scopes that are opened -/

/-- A scope that was opened for a position, and the environment that was made for it if the position
is the function of a closure. -/
structure Opening where
  position : Position
  scope : ScopeId
  environment : Option ScopeId

namespace Opening

/-- The node of the position with its scope. -/
def entry (o : Opening) : NodeId × ScopeId :=
  (o.position.id, o.scope)

/-- The scopes that were opened, in order. -/
def scopes (o : Opening) : List ScopeId :=
  o.environment.toList ++ [o.scope]

theorem scope_mem_scopes (o : Opening) : o.scope ∈ o.scopes :=
  List.mem_append_right _ List.mem_cons_self

theorem environment_mem_scopes {o : Opening} {environment : ScopeId}
    (hEnvironment : o.environment = some environment) : environment ∈ o.scopes := by
  rw [scopes, hEnvironment]
  exact List.mem_append_left _ List.mem_cons_self

/-- The scope is complete: it owns what is declared directly in it, and if it is that of a closure,
it is inside the environment of the closure, which stands on its own. -/
structure Stands (fresh : NodeId → String) (s : Scope.Store) (o : Opening) : Prop where
  locals : s.owned o.scope = o.position.locals fresh
  closure : o.position.construct.isClosureFunction = true → ∃ environment,
    o.environment = some environment ∧ s.parent? o.scope = some environment ∧
      s.parent? environment = none ∧
      s.owned environment = o.position.environment fresh o.position.captures

/-- A scope stays complete while its tables do not change. -/
theorem Stands.congr {s other : Scope.Store} {o : Opening} (hStands : o.Stands fresh s)
    (hTables : ∀ id ∈ o.scopes, other.table? id = s.table? id) : o.Stands fresh other where
  locals := by
    rw [Scope.Store.owned_congr (hTables _ o.scope_mem_scopes)]
    exact hStands.locals
  closure := by
    intro hClosure
    obtain ⟨environment, hEnvironment, hInside, hAlone, hOwned⟩ := hStands.closure hClosure
    have hTable := hTables environment (environment_mem_scopes hEnvironment)
    refine ⟨environment, hEnvironment, ?_, ?_, ?_⟩
    · rw [Scope.Store.parent?_congr
        (Scope.Store.view_congr (hTables _ o.scope_mem_scopes)), hInside]
    · rw [Scope.Store.parent?_congr (Scope.Store.view_congr hTable), hAlone]
    · rw [Scope.Store.owned_congr hTable, hOwned]

end Opening

/-- The positions that have a scope. -/
def withScope (qs : List Position) : List Position :=
  qs.filter (·.construct.hasScope)

/-- The nodes that declare something without a name in the program. -/
def temporaries (qs : List Position) : List NodeId :=
  (qs.filter (·.construct.hasTemporary)).map Position.id

theorem withScope_append (qs rest : List Position) :
    withScope (qs ++ rest) = withScope qs ++ withScope rest :=
  List.filter_append ..

theorem temporaries_append (qs rest : List Position) :
    temporaries (qs ++ rest) = temporaries qs ++ temporaries rest := by
  rw [temporaries, List.filter_append, List.map_append]
  rfl

/-- The scopes that a part of the walk opens within a scope: they are opened for given positions, in
order, and numbered without gaps; they are complete; and the scopes of given nodes lie in those of
the nodes around them. -/
structure Account (fresh : NodeId → String) (around : NodeId) (scope : ScopeId) (p : Progress)
    (positions : List Position) (nodes : List (Tree × NodeId)) (openings : List Opening)
    (q : Progress) : Prop where
  positions : openings.map Opening.position = positions
  opened : q.opened.toList = p.opened.toList ++ openings.map Opening.entry
  scopes : (openings.flatMap Opening.scopes).map ScopeId.index =
    List.range' p.scopes.size (q.scopes.size - p.scopes.size)
  stands : ∀ o ∈ openings, o.Stands fresh q.scopes
  nested : ∀ y ∈ nodes, y.1.construct.isClosureFunction = false →
    ∃ inner outer, (y.1.id, inner) ∈ openings.map Opening.entry ∧
      (y.2, outer) ∈ (around, scope) :: openings.map Opening.entry ∧
      q.scopes.parent? inner = some outer
  parent : q.scopes.parent? scope = p.scopes.parent? scope

section Account

variable {around : NodeId} {positions rest : List Position} {nodes others : List (Tree × NodeId)}
  {openings later : List Opening}

/-- The scopes that were opened are new. -/
theorem Account.bounds (hAccount : Account fresh around scope p positions nodes openings q)
    {o : Opening} (hO : o ∈ openings) {id : ScopeId} (hMem : id ∈ o.scopes) :
    p.scopes.size ≤ id.index ∧ id.index < q.scopes.size := by
  have hIndex : id.index ∈ List.range' p.scopes.size (q.scopes.size - p.scopes.size) := by
    rw [← hAccount.scopes]
    exact List.mem_map_of_mem (List.mem_flatMap.mpr ⟨o, hO, hMem⟩)
  rw [List.mem_range'_1] at hIndex
  omega

/-- A part of the walk after another leaves the scopes alone that the first one has opened. -/
theorem Account.trans (hFirst : Account fresh around scope p positions nodes openings q)
    (hSecond : Account fresh around scope q rest others later r)
    (hSize : p.scopes.size ≤ q.scopes.size) (hSize' : q.scopes.size ≤ r.scopes.size)
    (hTables : ∀ id : ScopeId, p.scopes.size ≤ id.index → id.index < q.scopes.size →
      r.scopes.table? id = q.scopes.table? id) :
    Account fresh around scope p (positions ++ rest) (nodes ++ others) (openings ++ later) r where
  positions := by rw [List.map_append, hFirst.positions, hSecond.positions]
  opened := by rw [hSecond.opened, hFirst.opened, List.map_append, List.append_assoc]
  scopes := by
    have hCount : r.scopes.size - p.scopes.size =
        (q.scopes.size - p.scopes.size) + (r.scopes.size - q.scopes.size) := by omega
    have hStart : p.scopes.size + (q.scopes.size - p.scopes.size) = q.scopes.size := by omega
    rw [List.flatMap_append, List.map_append, hFirst.scopes, hSecond.scopes, hCount,
      ← List.range'_append_1, hStart]
  stands := by
    intro o hO
    rcases List.mem_append.mp hO with hO | hO
    · refine (hFirst.stands o hO).congr fun id hMem => ?_
      have hBounds := hFirst.bounds hO hMem
      exact hTables id hBounds.1 hBounds.2
    · exact hSecond.stands o hO
  nested := by
    intro y hY hClosure
    rw [List.map_append]
    rcases List.mem_append.mp hY with hY | hY
    · obtain ⟨inner, outer, hInner, hOuter, hParent⟩ := hFirst.nested y hY hClosure
      refine ⟨inner, outer, List.mem_append_left _ hInner, ?_, ?_⟩
      · exact List.mem_append_left _ hOuter
      · obtain ⟨o, hO, hEntry⟩ := List.mem_map.mp hInner
        obtain rfl : o.scope = inner := congrArg Prod.snd hEntry
        have hBounds := hFirst.bounds hO o.scope_mem_scopes
        rw [Scope.Store.parent?_congr
          (Scope.Store.view_congr (hTables _ hBounds.1 hBounds.2)), hParent]
    · obtain ⟨inner, outer, hInner, hOuter, hParent⟩ := hSecond.nested y hY hClosure
      refine ⟨inner, outer, List.mem_append_right _ hInner, ?_, hParent⟩
      rcases List.mem_cons.mp hOuter with hOuter | hOuter
      · exact hOuter ▸ List.mem_cons_self
      · exact List.mem_cons_of_mem _ (List.mem_append_right _ hOuter)
  parent := hSecond.parent.trans hFirst.parent

end Account

/-- A part of the walk leads from a state that stands for a context to another one.  With names for
the nodes that declare something without a name, the scope tells what the contexts say, before and
after, and the scopes opened on the way are given an account of. -/
structure Unfolds (c : Context) (around : NodeId) (scope : ScopeId) (p : Progress)
    (positions : List Position) (unnamed : List NodeId) (nodes : List (Tree × NodeId))
    (next : Context) (q : Progress) : Prop where
  reflects : Reflects c p scope
  advances : ∃ slots captures layouts, Advances scope p slots captures layouts next q
  names : ∃ names : List (NodeId × String), names.map Prod.fst = unnamed ∧
    (∀ x ∈ names, isReserved x.2 = true) ∧
    ∀ fresh : NodeId → String, (∀ x ∈ names, fresh x.1 = x.2) →
      ∀ before, Tells fresh before c p scope →
        Tells fresh before next q scope ∧
          ∃ openings, Account fresh around scope p positions nodes openings q

namespace Unfolds

variable {around : NodeId} {positions rest : List Position} {unnamed more : List NodeId}
  {nodes others : List (Tree × NodeId)} {middle : Context}

/-- The state after a part of the walk stands for the context after it. -/
theorem reflects_next (hUnfolds : Unfolds c around scope p positions unnamed nodes next q) :
    Reflects next q scope := by
  obtain ⟨_, _, _, hAdvances⟩ := hUnfolds.advances
  exact hAdvances.reflects

/-- One part of the walk after another. -/
theorem trans (hFirst : Unfolds c around scope p positions unnamed nodes middle q)
    (hSecond : Unfolds middle around scope q rest more others next r) :
    Unfolds c around scope p (positions ++ rest) (unnamed ++ more) (nodes ++ others) next r := by
  obtain ⟨slots, captures, layouts, hBefore⟩ := hFirst.advances
  obtain ⟨slots', captures', layouts', hAfter⟩ := hSecond.advances
  obtain ⟨names, hNames, hReserved, hTells⟩ := hFirst.names
  obtain ⟨names', hNames', hReserved', hTells'⟩ := hSecond.names
  refine ⟨hFirst.reflects, ⟨_, _, _, hBefore.trans hAfter⟩, names ++ names', ?_, ?_, ?_⟩
  · rw [List.map_append, hNames, hNames']
  · intro x hX
    rcases List.mem_append.mp hX with hX | hX
    · exact hReserved x hX
    · exact hReserved' x hX
  · intro fresh hFresh before hStart
    obtain ⟨hMiddle, openings, hAccount⟩ :=
      hTells fresh (fun x hX => hFresh x (List.mem_append_left _ hX)) before hStart
    obtain ⟨hEnd, later, hAccount'⟩ :=
      hTells' fresh (fun x hX => hFresh x (List.mem_append_right _ hX)) before hMiddle
    refine ⟨hEnd, openings ++ later, hAccount.trans hAccount' hBefore.size_le hAfter.size_le ?_⟩
    -- the scope of the walk and the environment were there before the first part
    intro id hNew hKnown
    have hScope := hFirst.reflects.known
    apply hAfter.tables id hKnown
    · rintro rfl
      omega
    · rw [hBefore.environment]
      intro hEnvironment
      have := hFirst.reflects.outside id hEnvironment
      omega

/-- Of the nodes that lie in others, functions of closures need not be listed. -/
theorem of_nodes (hUnfolds : Unfolds c around scope p positions unnamed nodes next q)
    (listed : List (Tree × NodeId))
    (hNodes : ∀ y ∈ listed, y.1.construct.isClosureFunction = false → y ∈ nodes) :
    Unfolds c around scope p positions unnamed listed next q := by
  obtain ⟨names, hNames, hReserved, hTells⟩ := hUnfolds.names
  refine ⟨hUnfolds.reflects, hUnfolds.advances, names, hNames, hReserved, ?_⟩
  intro fresh hFresh before hStart
  obtain ⟨hEnd, openings, hAccount⟩ := hTells fresh hFresh before hStart
  refine ⟨hEnd, openings, { hAccount with nested := ?_ }⟩
  intro y hY hClosure
  exact hAccount.nested y (hNodes y hY hClosure) hClosure

end Unfolds

section Steps

variable (around : NodeId)

/-- Nothing is opened by a step that touches no table but the environment of the function. -/
theorem unfolds_of_rests (hReflects : Reflects c p scope) {slots : List (NodeId × Nat)}
    {captures : List Capture} {layouts : List Layout}
    (hAdvances : Advances scope p slots captures layouts next q) (hRests : Rests p q)
    (hNext : next = { c with made := next.made }) : Unfolds c around scope p [] [] [] next q := by
  have hTable := hRests.tables scope hReflects.inside
  refine ⟨hReflects, ⟨_, _, _, hAdvances⟩, [], rfl, by simp, ?_⟩
  intro fresh hFresh before hTells
  refine ⟨hTells.of_advances hReflects hAdvances hTable hNext, [], rfl, ?_, ?_, by simp, by simp, ?_⟩
  · simp [hRests.opened]
  · simp [hRests.size]
  · exact Scope.Store.parent?_congr (Scope.Store.view_congr hTable)

theorem Reflects.unfolds_refl (hReflects : Reflects c p scope) :
    Unfolds c around scope p [] [] [] c p :=
  unfolds_of_rests around hReflects hReflects.refl (Rests.refl p) rfl

/-- One binding is declared, and nothing is opened. -/
theorem unfolds_of_declares (hReflects : Reflects c p scope) {slots : List (NodeId × Nat)}
    {captures : List Capture} {layouts : List Layout} {b : Binding}
    (hAdvances : Advances scope p slots captures layouts next q) (hDeclares : Declares scope b p q)
    (names : List (NodeId × String)) (hReserved : ∀ x ∈ names, isReserved x.2 = true)
    (hTells : ∀ fresh : NodeId → String, (∀ x ∈ names, fresh x.1 = x.2) →
      ∀ before, Tells fresh before c p scope → Tells fresh before next q scope) :
    Unfolds c around scope p [] (names.map Prod.fst) [] next q := by
  refine ⟨hReflects, ⟨_, _, _, hAdvances⟩, names, rfl, hReserved, ?_⟩
  intro fresh hFresh before hStart
  refine ⟨hTells fresh hFresh before hStart, [], rfl, ?_, ?_, by simp, by simp, hDeclares.parent⟩
  · simp [hDeclares.opened]
  · simp [hDeclares.size]

/-- A plain name is declared. -/
theorem Reflects.unfolds_declareNamed (hReflects : Reflects c p scope) {name : String}
    (hPlain : isReserved name = false) {mutability : Mutability} {slot : Nat}
    (hOk : p.declare scope name mutability = .ok (slot, q)) (node : NodeId) (place : Nat) :
    Unfolds c around scope p [] [] [] (c.declare node place (some name) mutability) q := by
  have hName : name ≠ "" := by
    rintro rfl
    rw [hReflects.declare_empty] at hOk
    cases hOk
  obtain ⟨_, hDeclare, hAdvances⟩ :=
    hReflects.exists_declareNamed hName hPlain mutability node place
  obtain ⟨-, rfl⟩ := Prod.mk.inj (Except.ok.inj (hOk.symm.trans hDeclare))
  have hDeclares := hReflects.declares hOk
  refine unfolds_of_declares around hReflects hAdvances hDeclares [] (by simp) ?_
  intro fresh _ before hTells
  refine hTells.declare hReflects hDeclares ?_ ?_ rfl place
  · rw [hPlain, if_neg Bool.false_ne_true]
  · intro hReserved
    rw [hPlain] at hReserved
    cases hReserved

/-- A fresh name is made and declared. -/
theorem Reflects.unfolds_declareFresh (hReflects : Reflects c p scope) {tag : String}
    {mutability : Mutability} {slot : Nat}
    (hOk : (p.mint tag).2.declare scope (p.mint tag).1 mutability = .ok (slot, q)) (node : NodeId)
    (place : Nat) :
    Unfolds c around scope p [] [node] [] (c.declare node place none mutability) q := by
  have hMint := hReflects.advances_mint tag
  have hReserved : isReserved (p.mint tag).1 = true := p.names.isReserved_mint (some tag)
  obtain ⟨_, hDeclare, hAdvances⟩ := hReflects.exists_declareFresh tag mutability node place
  obtain ⟨-, rfl⟩ := Prod.mk.inj (Except.ok.inj (hOk.symm.trans hDeclare))
  have hDeclares := hMint.reflects.declares hOk
  refine unfolds_of_declares around hReflects hAdvances
    ⟨hDeclares.opened, hDeclares.size, hDeclares.parent, hDeclares.owned, hDeclares.visible⟩
    [(node, (p.mint tag).1)] (by simpa using hReserved) ?_
  intro fresh hFresh before hTells
  have hTitle : fresh node = (p.mint tag).1 := hFresh _ List.mem_cons_self
  refine Tells.declare (p := (p.mint tag).2) ⟨hTells.visible, hTells.owned, hTells.before_le⟩
    hMint.reflects hDeclares (if_pos hReserved).symm ?_ hTitle place
  -- the name was not made before, so no binding has it
  intro _ id a hMem hSame
  rw [← hSame] at hReserved
  have hMade := hReflects.fresh id a hMem hReserved
  rw [hSame] at hMade
  exact FreshName.not_madeBefore_mint p.names (some tag) hMade

/-- Plain names are declared one after the other. -/
theorem Reflects.unfolds_declareAll (hReflects : Reflects c p scope) {mutability : Mutability}
    {names : List String} (hPlain : ∀ name ∈ names, isReserved name = false) {slots : List Nat}
    (hOk : p.declareAll scope mutability names = .ok (slots, q)) (node : NodeId) (place : Nat) :
    Unfolds c around scope p [] [] []
      (c.declareAll node place (names.map fun name => (some name, mutability))) q := by
  induction names generalizing c p slots place with
  | nil =>
      cases hOk
      exact hReflects.unfolds_refl around
  | cons name rest ih =>
      obtain ⟨⟨slot, middle⟩, hDeclare, hOk⟩ := exists_of_bind_eq_ok hOk
      obtain ⟨⟨others, last⟩, hRest, hOk⟩ := exists_of_bind_eq_ok hOk
      cases hOk
      have hFirst := hReflects.unfolds_declareNamed around
        (hPlain name List.mem_cons_self) hDeclare node place
      exact hFirst.trans (ih hFirst.reflects_next
        (fun other hMem => hPlain other (List.mem_cons_of_mem name hMem)) hRest (place + 1))

end Steps

/-! ### Going into a scope -/

/-- A scope was opened for a node inside another one. -/
structure OpensInside (node : NodeId) (outer inner : ScopeId) (p q : Progress) : Prop
    extends Opens p q where
  new : inner = ⟨p.scopes.size⟩
  opened : q.opened.toList = p.opened.toList ++ [(node, inner)]
  owned : q.scopes.owned inner = []
  parent : q.scopes.parent? inner = some outer
  visible : (q.scopes.visible inner).map Binding.plain = (p.scopes.visible outer).map Binding.plain

/-- What opening a scope that succeeded has opened. -/
theorem Mirrors.of_openScope (hMirrors : Mirrors c p scope) {node : NodeId} {inner : ScopeId}
    (hOk : p.openScope node scope = .ok (inner, q)) :
    OpensInside node scope inner p q ∧ Reflects c q inner := by
  obtain ⟨_, hOpen, hOpens, hReflects⟩ := hMirrors.exists_openScope node
  obtain ⟨rfl, rfl⟩ := Prod.mk.inj (Except.ok.inj (hOpen.symm.trans hOk))
  obtain ⟨store, hStore, -, -, -, hOwned, hParent, hVisible, -⟩ :=
    hMirrors.sound.exists_openInside hMirrors.known
  simp only [Progress.openScope, hStore] at hOk
  cases hOk
  exact ⟨⟨hOpens, rfl, by simp, hOwned, hParent, hVisible⟩, hReflects⟩

/-- A scope that was just opened shows the names of the scope around it and owns nothing. -/
theorem OpensInside.tells {node : NodeId} {outer inner : ScopeId}
    (hOpens : OpensInside node outer inner p q)
    (hVisible : List.Forall₂ (Titled fresh) (p.scopes.visible outer) c.visible) :
    Tells fresh c.declared.length c q inner where
  visible := forall₂_congr_plain titled_plain_iff hOpens.visible hVisible
  owned := by
    rw [hOpens.owned, List.drop_length]
    exact List.Forall₂.nil
  before_le := Nat.le_refl _

/-- The walk has gone into a scope that was opened for a position, within the scope it was in, after
the environment if there is one. -/
structure GoesInto (o : Opening) (c : Context) (scope : ScopeId) (p : Progress) (first : Context)
    (q : Progress) : Prop where
  context : o.position.context = c
  opened : q.opened.toList = p.opened.toList ++ [o.entry]
  size_le : p.scopes.size ≤ q.scopes.size
  scopes : o.scopes.map ScopeId.index =
    List.range' p.scopes.size (q.scopes.size - p.scopes.size)
  tables : ∀ id : ScopeId, id.index < p.scopes.size → q.scopes.table? id = p.scopes.table? id
  environment : q.frame.environment ≠ some scope
  parent : o.position.construct.isClosureFunction = false →
    q.scopes.parent? o.scope = some scope
  tells : ∀ {fresh before}, Tells fresh before c p scope →
    Tells fresh c.declared.length first q o.scope

section Inside

variable (around : NodeId) {positions : List Position} {unnamed : List NodeId}
  {nodes : List (Tree × NodeId)}

/-- What is opened within a scope is opened, after the scope, within the scope around it. -/
theorem unfolds_of_inner {o : Opening} {first last : Context} {start finish : Progress}
    (hReflects : Reflects c p scope)
    (hAdvances : ∃ slots captures layouts, Advances scope p slots captures layouts next r)
    (hNext : next = { c with made := next.made }) (hInto : GoesInto o c scope p first start)
    (hInner : Unfolds first o.position.id o.scope start positions unnamed nodes last finish)
    (hEnding : last = { o.position.ending with made := last.made })
    (hScopes : r.scopes = finish.scopes) (hOpened : r.opened = finish.opened)
    (hClosure : o.position.construct.isClosureFunction = true → ∀ {fresh before},
      Tells fresh before c p scope → finish.scopes.parent? o.scope = start.scopes.parent? o.scope →
        ∃ environment, o.environment = some environment ∧
          finish.scopes.parent? o.scope = some environment ∧
          finish.scopes.parent? environment = none ∧
          finish.scopes.owned environment = o.position.environment fresh o.position.captures) :
    Unfolds c around scope p (o.position :: positions) unnamed
      ((o.position.tree, around) :: nodes) next r := by
  obtain ⟨slots, captures, layouts, hMoved⟩ := hAdvances
  obtain ⟨_, _, _, hInside⟩ := hInner.advances
  obtain ⟨names, hNames, hReserved, hTells⟩ := hInner.names
  have hSize := hInto.size_le
  have hTable : r.scopes.table? scope = p.scopes.table? scope := by
    have hKnown := hReflects.known
    have hScope : scope ≠ o.scope := by
      intro hSame
      have hIndex := List.mem_map_of_mem (f := ScopeId.index) o.scope_mem_scopes
      rw [hInto.scopes, ← hSame, List.mem_range'_1] at hIndex
      omega
    rw [hScopes, hInside.tables scope (by omega) hScope hInto.environment,
      hInto.tables scope hKnown]
  refine ⟨hReflects, ⟨_, _, _, hMoved⟩, names, hNames, hReserved, ?_⟩
  intro fresh hFresh before hBefore
  obtain ⟨hEnd, openings, hAccount⟩ := hTells fresh hFresh _ (hInto.tells hBefore)
  refine ⟨hBefore.of_advances hReflects hMoved hTable hNext, o :: openings, ?_⟩
  exact {
    positions := by rw [List.map_cons, hAccount.positions]
    opened := by
      rw [hOpened, hAccount.opened, hInto.opened, List.map_cons, List.append_assoc,
        List.singleton_append]
    scopes := by
      have hGrown := hInside.size_le
      have hCount : r.scopes.size - p.scopes.size =
          (start.scopes.size - p.scopes.size) + (finish.scopes.size - start.scopes.size) := by
        rw [hScopes]
        omega
      have hMiddle : p.scopes.size + (start.scopes.size - p.scopes.size) = start.scopes.size := by
        omega
      rw [List.flatMap_cons, List.map_append, hInto.scopes, hAccount.scopes, hCount,
        ← List.range'_append_1, hMiddle]
    stands := by
      rw [hScopes]
      intro other hOther
      rcases List.mem_cons.mp hOther with rfl | hOther
      · refine ⟨?_, fun hKind => hClosure hKind hBefore hAccount.parent⟩
        rw [hEnd.owned_eq, Position.locals, Position.declaredInside, hInto.context, hEnding]
        rfl
      · exact hAccount.stands other hOther
    nested := by
      rw [hScopes, List.map_cons]
      intro y hY hKind
      rcases List.mem_cons.mp hY with rfl | hY
      · refine ⟨o.scope, scope, List.mem_cons_self, List.mem_cons_self, ?_⟩
        rw [hAccount.parent, hInto.parent hKind]
      · obtain ⟨inner, outer, hMem, hOuter, hAround⟩ := hAccount.nested y hY hKind
        exact ⟨inner, outer, List.mem_cons_of_mem _ hMem, List.mem_cons_of_mem _ hOuter, hAround⟩
    parent := Scope.Store.parent?_congr (Scope.Store.view_congr hTable) }

/-- What is opened within the scope of a node that is no function is opened, after the scope, within
the scope around it. -/
theorem OpensInside.unfolds (position : Position) {inner : ScopeId} {last : Context}
    (hOpens : OpensInside position.id scope inner p q) (hReflects : Reflects c p scope)
    (hContext : position.context = c) (hKind : position.construct.isClosureFunction = false)
    (hInner : Unfolds c position.id inner q positions unnamed nodes last r)
    (hEnding : last = { position.ending with made := last.made })
    (hInherited : last.inherited = c.inherited) :
    Unfolds c around scope p (position :: positions) unnamed
      ((position.tree, around) :: nodes) { c with made := last.made } r := by
  have hSize := hOpens.size
  have hInto : GoesInto ⟨position, inner, none⟩ c scope p c q := {
    context := hContext
    opened := hOpens.opened
    size_le := by omega
    scopes := by
      rw [hSize, Nat.add_sub_cancel_left, hOpens.new]
      rfl
    tables := hOpens.tables
    environment := by
      rw [hOpens.frame]
      exact hReflects.inside
    parent := fun _ => hOpens.parent
    tells := fun hTells => hOpens.tells hTells.visible }
  obtain ⟨_, _, _, hInside⟩ := hInner.advances
  have hAdvances := hReflects.advances_of_opens hOpens.toOpens (hOpens.new ▸ hInside) hInherited
  refine unfolds_of_inner around hReflects ⟨_, _, _, hAdvances⟩ rfl hInto hInner hEnding rfl rfl ?_
  intro hClosure
  rw [hKind] at hClosure
  cases hClosure

end Inside

end LateBinding.Resolution
