import Mathlib.Data.List.Find
import LateBinding.Proofs.Scope.Visibility

/-!
# Snapshots stand on their own

A snapshot copies what is visible from a scope into a new scope that is inside no other.  From then
on the two have nothing to do with each other: a request changes what one scope declares, and an
answer depends only on the scopes that are searched for it.

* `Request.changes?` - the scope whose own bindings a request changes; `perform_cases` says that a
  request changes nothing else.
* `Store.content?` - what a scope is inside of and what it declares; answers depend only on the
  content of the scopes that are searched (`answer_congr`).
* `Store.Spares` - requests in a row that leave what one scope declares as it is; they keep its
  content (`Spares.content?_run`).
* `snapshot_isolated` - a snapshot owns the visible bindings, no later request about another scope
  shows in it, and no request about it shows elsewhere.
-/

namespace LateBinding.Scope

/-- The scope whose own bindings a request changes.  Opening a scope and taking a snapshot change no
scope that is there. -/
def Request.changes? : Request → Option ScopeId
  | openRoot => none
  | openInside _ => none
  | declareAll id _ => some id
  | remove id _ => some id
  | removeKnown id _ => some id
  | setSlot id _ _ => some id
  | setCaptured id _ _ => some id
  | snapshot _ _ => none

/-- The scope from which a question is asked. -/
def Query.scope : Query → ScopeId
  | lookup id _ => id
  | owner id _ => id
  | owned id => id
  | visible id => id
  | parent id => id

namespace Store

/-! ### What answers depend on -/

/-- What is there to a scope: the scope around it and its own bindings in order. -/
def content? (s : Store) (id : ScopeId) : Option (Option ScopeId × List Binding) :=
  (s.table? id).map Table.content

theorem content?_of_known {s : Store} {id : ScopeId} (hKnown : id.index < s.size) :
    s.content? id = some (s.parent? id, s.owned id) := by
  obtain ⟨t, hTable⟩ := exists_table? hKnown
  simp [content?, parent?, owned, hTable, Table.content]

theorem content?_eq_none_iff (s : Store) (id : ScopeId) :
    s.content? id = none ↔ s.size ≤ id.index := by
  rw [content?, Option.map_eq_none_iff, table?_eq_none_iff]

theorem content?_congr {s other : Store} {id : ScopeId} (hTable : other.table? id = s.table? id) :
    other.content? id = s.content? id := by
  rw [content?, content?, hTable]

section Congruence

variable {s other : Store} {id : ScopeId} (hSame : other.content? id = s.content? id)

include hSame

theorem lt_size_iff_of_content? : id.index < other.size ↔ id.index < s.size := by
  rw [← Nat.not_le, ← Nat.not_le, ← content?_eq_none_iff, ← content?_eq_none_iff, hSame]

theorem parent?_eq_of_content? : other.parent? id = s.parent? id := by
  have hParent : ∀ store : Store, store.parent? id = (store.content? id).bind Prod.fst := by
    intro store
    unfold parent? content?
    cases store.table? id <;> rfl
  rw [hParent, hParent, hSame]

theorem owned_eq_of_content? : other.owned id = s.owned id := by
  have hOwned : ∀ store : Store, store.owned id = ((store.content? id).map Prod.snd).getD [] := by
    intro store
    unfold owned content?
    cases store.table? id <;> rfl
  rw [hOwned, hOwned, hSame]

theorem owned?_eq_of_content? (hSound : s.Sound) (hOther : other.Sound) (name : String) :
    other.owned? id name = s.owned? id name := by
  rw [hOther.owned?_eq_find?, hSound.owned?_eq_find?, owned_eq_of_content? hSame]

end Congruence

/-- Where the scopes that are searched have the same for a name, the same is found. -/
theorem findSome?_owned?_congr {s other : Store} {scopes : List ScopeId} {name : String}
    (hSame : ∀ scope ∈ scopes, other.owned? scope name = s.owned? scope name) :
    scopes.findSome? (other.owned? · name) = scopes.findSome? (s.owned? · name) := by
  rw [← List.head?_filterMap, ← List.head?_filterMap]
  exact congrArg List.head? (List.filterMap_congr hSame)

section Answers

variable {s other : Store} (hSound : s.Sound) (hOther : other.Sound)

include hSound hOther

/-- Where the scopes that are searched have the same content, the same scopes are searched. -/
theorem Sound.chain_congr {id : ScopeId}
    (hSame : ∀ scope ∈ id :: s.chain id, other.content? scope = s.content? scope) :
    other.chain id = s.chain id := by
  have hSelf := hSame id List.mem_cons_self
  by_cases hKnown : id.index < s.size
  · have hChain : ∀ scope ∈ s.chain id, other.content? scope = s.content? scope :=
      fun scope hMem => hSame scope (List.mem_cons_of_mem id hMem)
    revert hChain
    refine hSound.climb_induction (motive := fun id =>
      (∀ scope ∈ s.chain id, other.content? scope = s.content? scope) →
        other.chain id = s.chain id) ?_ hKnown
    intro id hKnown ih hChain
    have hCons := hSound.chain_eq_cons hKnown
    rw [hCons] at hChain
    have hSelf := hChain id List.mem_cons_self
    rw [hOther.chain_eq_cons ((lt_size_iff_of_content? hSelf).mpr hKnown), hCons]
    unfold around at hChain ⊢
    rw [parent?_eq_of_content? hSelf]
    cases hParent : s.parent? id with
    | none => rfl
    | some parent =>
        have hLt := hSound.parent?_lt hParent
        rw [hParent] at hChain
        have hOuter := ih parent hParent (by omega) fun scope hMem =>
          hChain scope (List.mem_cons_of_mem id hMem)
        exact congrArg (id :: ·) hOuter
  · have hUnknown := (lt_size_iff_of_content? hSelf).not.mpr hKnown
    rw [chain_of_unknown (Nat.le_of_not_lt hKnown), chain_of_unknown (Nat.le_of_not_lt hUnknown)]

/-- Where the scopes that are searched have the same content, the answer is the same. -/
theorem Sound.answer_congr {q : Query}
    (hSame : ∀ scope ∈ q.scope :: s.chain q.scope, other.content? scope = s.content? scope) :
    other.answer q = s.answer q := by
  have hSelf := hSame q.scope List.mem_cons_self
  have hChain := hSound.chain_congr hOther hSame
  have hOwned? : ∀ name, ∀ scope ∈ s.chain q.scope,
      other.owned? scope name = s.owned? scope name := fun name scope hMem =>
    owned?_eq_of_content? (hSame scope (List.mem_cons_of_mem _ hMem)) hSound hOther name
  cases q with
  | lookup id name =>
      refine congrArg Answer.binding ?_
      show (other.chain id).findSome? (other.owned? · name) =
        (s.chain id).findSome? (s.owned? · name)
      rw [show other.chain id = s.chain id from hChain]
      exact findSome?_owned?_congr (hOwned? name)
  | owner id name =>
      refine congrArg Answer.scope ?_
      show (other.chain id).find? (fun scope => (other.owned? scope name).isSome) =
        (s.chain id).find? fun scope => (s.owned? scope name).isSome
      rw [show other.chain id = s.chain id from hChain]
      exact List.find?_congr fun scope hMem => by rw [hOwned? name scope hMem]
  | owned id => exact congrArg Answer.bindings (owned_eq_of_content? hSelf)
  | visible id =>
      refine congrArg Answer.bindings ?_
      unfold visible
      rw [show other.chain id = s.chain id from hChain]
      refine congrArg (List.foldl overlay []) (List.flatMap_congr ?_)
      intro scope hMem
      exact owned_eq_of_content?
        (hSame scope (List.mem_cons_of_mem _ (List.mem_reverse.mp hMem)))
  | parent id => exact congrArg Answer.scope (parent?_eq_of_content? hSelf)

end Answers

/-! ### What requests change -/

/-- A request changes nothing, or it adds a scope, or it changes what one scope declares. -/
theorem perform_cases (s : Store) (r : Request) :
    (s.perform r).2 = s ∨
      (r.changes? = none ∧ ∃ t, (s.perform r).2 = (s.push t).2) ∨
      ∃ id change, r.changes? = some id ∧ (∀ t, (change t).parent = t.parent) ∧
        (s.perform r).2 = s.modify id change := by
  by_cases hUnknown : ∃ id, r.scope? = some id ∧ s.table? id = none
  · obtain ⟨id, hScope, hTable⟩ := hUnknown
    rw [perform_of_unknown hTable hScope]
    exact Or.inl rfl
  have hKnown : ∀ id, r.scope? = some id → ∃ t, s.table? id = some t := fun id hScope =>
    Option.ne_none_iff_exists'.mp fun hTable => hUnknown ⟨id, hScope, hTable⟩
  right
  cases r with
  | openRoot => exact Or.inl ⟨rfl, _, rfl⟩
  | openInside id =>
      obtain ⟨t, hTable⟩ := hKnown id rfl
      simp only [perform, openInside, hTable]
      exact Or.inl ⟨rfl, _, rfl⟩
  | declareAll id bs =>
      obtain ⟨t, hTable⟩ := hKnown id rfl
      simp only [perform, declareAll_of_known hTable]
      refine Or.inr ⟨id, fun t => (bs.takeWhile (·.name ≠ "")).foldl Table.insert t, rfl,
        fun t => t.parent_foldl_insert _, ?_⟩
      cases bs.all (·.name ≠ "") <;> rfl
  | remove id name =>
      obtain ⟨t, hTable⟩ := hKnown id rfl
      simp only [perform, remove, hTable]
      exact Or.inr ⟨id, _, rfl, fun t => t.parent_erase name, rfl⟩
  | removeKnown id name =>
      obtain ⟨t, hTable⟩ := hKnown id rfl
      simp only [perform, removeKnown, remove, hTable]
      exact Or.inr ⟨id, _, rfl, fun t => t.parent_erase name, rfl⟩
  | setSlot id name slot => exact Or.inr ⟨id, _, rfl, fun t => t.parent_update name _, rfl⟩
  | setCaptured id name captured =>
      exact Or.inr ⟨id, _, rfl, fun t => t.parent_update name _, rfl⟩
  | snapshot id keepsSlots =>
      obtain ⟨t, hTable⟩ := hKnown id rfl
      simp only [perform, snapshot, hTable]
      exact Or.inl ⟨rfl, _, rfl⟩

theorem size_le_perform (s : Store) (r : Request) : s.size ≤ (s.perform r).2.size := by
  obtain hSame | ⟨-, t, hPush⟩ | ⟨id, change, -, -, hModify⟩ := s.perform_cases r
  · rw [hSame]
  · rw [hPush, size_push]
    exact Nat.le_succ _
  · rw [hModify, size_modify]

theorem size_le_run (s : Store) (requests : List Request) : s.size ≤ (s.run requests).2.size := by
  induction requests generalizing s with
  | nil => exact Nat.le_refl _
  | cons r rest ih => exact Nat.le_trans (s.size_le_perform r) (ih _)

/-- The scope around a scope stays the same. -/
theorem parent?_perform {s : Store} {id : ScopeId} (hKnown : id.index < s.size) (r : Request) :
    (s.perform r).2.parent? id = s.parent? id := by
  obtain hSame | ⟨-, t, hPush⟩ | ⟨changed, change, -, hParent, hModify⟩ := s.perform_cases r
  · rw [hSame]
  · rw [hPush, parent?, parent?, table?_push_of_lt s t hKnown]
  · rw [hModify, parent?, parent?, table?_modify]
    split
    · cases s.table? id with
      | none => rfl
      | some t => exact hParent t
    · rfl

/-- A request that is not about the bindings of a known scope keeps its content. -/
theorem content?_perform_of_ne {s : Store} {id : ScopeId} (hKnown : id.index < s.size) {r : Request}
    (hNe : r.changes? ≠ some id) : (s.perform r).2.content? id = s.content? id := by
  obtain hSame | ⟨-, t, hPush⟩ | ⟨changed, change, hChanges, -, hModify⟩ := s.perform_cases r
  · rw [hSame]
  · rw [hPush]
    exact content?_congr (table?_push_of_lt s t hKnown)
  · rw [hModify]
    apply content?_congr
    apply table?_modify_of_ne
    rintro rfl
    exact hNe hChanges

/-- A request about the bindings of one scope keeps the content of the others, known or not. -/
theorem content?_perform_of_changes {s : Store} {c id : ScopeId} {r : Request}
    (hChanges : r.changes? = some c) (hNe : id ≠ c) :
    (s.perform r).2.content? id = s.content? id := by
  obtain hSame | ⟨hNone, -⟩ | ⟨changed, change, hChanged, -, hModify⟩ := s.perform_cases r
  · rw [hSame]
  · rw [hChanges] at hNone
    cases hNone
  · rw [hChanges, Option.some.injEq] at hChanged
    subst hChanged
    rw [hModify]
    exact content?_congr (table?_modify_of_ne s change hNe)

/-- Requests in a row leave what a scope declares as it is: those that are about its bindings have
no effect on them. -/
def Spares (s : Store) (c : ScopeId) : List Request → Prop
  | [] => True
  | r :: rest =>
      (r.changes? = some c → (s.perform r).2.owned c = s.owned c) ∧ (s.perform r).2.Spares c rest

/-- Requests that are not about the bindings of a scope leave them as they are. -/
theorem spares_of_forall_ne {c : ScopeId} {requests : List Request}
    (hOthers : ∀ r ∈ requests, r.changes? ≠ some c) (s : Store) : s.Spares c requests := by
  induction requests generalizing s with
  | nil => trivial
  | cons r rest ih =>
      refine ⟨fun hChanges => absurd hChanges (hOthers r List.mem_cons_self), ih ?_ _⟩
      exact fun r hMem => hOthers r (List.mem_cons_of_mem _ hMem)

/-- One request that leaves what a known scope declares as it is keeps the content of the scope. -/
theorem content?_perform_of_spared {s : Store} {c : ScopeId} (hKnown : c.index < s.size)
    {r : Request} (hSpared : r.changes? = some c → (s.perform r).2.owned c = s.owned c) :
    (s.perform r).2.content? c = s.content? c := by
  by_cases hChanges : r.changes? = some c
  · have hStill := Nat.lt_of_lt_of_le hKnown (s.size_le_perform r)
    rw [content?_of_known hStill, content?_of_known hKnown, hSpared hChanges,
      parent?_perform hKnown]
  · exact content?_perform_of_ne hKnown hChanges

/-- Requests in a row that leave what a known scope declares as it is keep the content of the
scope. -/
theorem Spares.content?_run {s : Store} {c : ScopeId} {requests : List Request}
    (hSpares : s.Spares c requests) (hKnown : c.index < s.size) :
    (s.run requests).2.content? c = s.content? c := by
  induction requests generalizing s with
  | nil => rfl
  | cons r rest ih =>
      obtain ⟨hSpared, hRest⟩ := hSpares
      have hStill := Nat.lt_of_lt_of_le hKnown (s.size_le_perform r)
      exact (ih hRest hStill).trans (content?_perform_of_spared hKnown hSpared)

theorem run_append (s : Store) (first second : List Request) :
    (s.run (first ++ second)).2 = ((s.run first).2.run second).2 := by
  induction first generalizing s with
  | nil => rfl
  | cons r rest ih => exact ih _

theorem after_append (first second : List Request) :
    after (first ++ second) = ((after first).run second).2 :=
  run_append empty first second

/-- A request about the bindings of a scope changes no answer for which that scope is not
searched. -/
theorem Sound.answer_perform_of_not_mem_chain {s : Store} (hSound : s.Sound) {r : Request}
    (hNext : (s.perform r).2.Sound) {c : ScopeId} (hKnown : c.index < s.size)
    (hChanges : r.changes? = some c) {q : Query} (hNot : c ∉ s.chain q.scope) :
    (s.perform r).2.answer q = s.answer q := by
  apply hSound.answer_congr hNext
  intro scope hMem
  apply content?_perform_of_changes hChanges
  rintro rfl
  rcases List.mem_cons.mp hMem with hSelf | hSearched
  · -- a known scope is searched for the questions that are asked from it
    apply hNot
    rw [← hSelf, hSound.chain_eq_cons hKnown]
    exact List.mem_cons_self
  · exact hNot hSearched

/-- Requests that leave the bindings of a scope inside no other as they are change no answer about
it. -/
theorem Sound.answer_run_of_spares {s : Store} (hSound : s.Sound) {requests : List Request}
    (hLater : (s.run requests).2.Sound) {q : Query} (hKnown : q.scope.index < s.size)
    (hAlone : s.parent? q.scope = none) (hSpares : s.Spares q.scope requests) :
    (s.run requests).2.answer q = s.answer q := by
  apply hSound.answer_congr hLater
  -- only the scope itself is searched
  have hChain : s.chain q.scope = [q.scope] := by
    rw [hSound.chain_eq_cons hKnown, around, hAlone]
  rw [hChain]
  intro scope hMem
  obtain rfl : scope = q.scope := by simpa using hMem
  exact hSpares.content?_run hKnown

/-! ### Taking a snapshot -/

/-- A snapshot of a known scope is a new scope that is inside no other and owns what is visible; the
scopes that were there stay as they are. -/
theorem exists_snapshot_of_known {s : Store} {id : ScopeId} (hKnown : id.index < s.size)
    (keepsSlots : Bool) :
    ∃ next, s.snapshot id keepsSlots = .ok (⟨s.size⟩, next) ∧
      (s.perform (.snapshot id keepsSlots)).2 = next ∧ next.size = s.size + 1 ∧
      next.content? ⟨s.size⟩ = some (none, s.snapshotBindings id keepsSlots) ∧
      ∀ other, other ≠ ⟨s.size⟩ → next.table? other = s.table? other := by
  obtain ⟨t, hTable⟩ := exists_table? hKnown
  obtain ⟨-, hBindings, hParent⟩ := indexed_snapshotBindings s id keepsSlots
  generalize hCopy : (s.snapshotBindings id keepsSlots).foldl Table.insert (Table.empty none) =
    copy at hBindings hParent
  refine ⟨(s.push copy).2, by simp only [snapshot, hTable, hCopy]; rfl,
    by simp only [perform, snapshot, hTable, hCopy], size_push s copy, ?_, ?_⟩
  · rw [content?, table?_push, if_pos rfl, Option.map_some, Table.content, hBindings, hParent]
  · intro other hNe
    rw [table?_push, if_neg]
    rintro hIndex
    exact hNe (congrArg ScopeId.mk hIndex)

/-- In a scope that is inside no other, only its own bindings are looked up. -/
theorem Sound.lookup?_of_content? {s : Store} (hSound : s.Sound) {id : ScopeId} {bs : List Binding}
    (hContent : s.content? id = some (none, bs)) (name : String) :
    s.lookup? id name = bs.find? (·.name = name) := by
  have hKnown : id.index < s.size := by
    rw [← Nat.not_le, ← content?_eq_none_iff, hContent]
    simp
  rw [content?_of_known hKnown, Option.some.injEq, Prod.mk.injEq] at hContent
  obtain ⟨hParent, rfl⟩ := hContent
  rw [hSound.lookup?_eq hKnown, hParent, hSound.owned?_eq_find?, Option.bind_none, Option.or_none]

/-- A snapshot of a known scope is a new scope, inside no other, that owns the bindings visible
there in their order, with their own slots or with slots counted from 0; it looks up the same names.
Whatever is requested later, as long as the bindings of the snapshot are left as they are, every
answer about the snapshot stays the same.  And a request about the bindings of the snapshot changes
no answer about scopes that are not the snapshot and not inside it. -/
theorem snapshot_isolated (requests : List Request) (id : ScopeId) (keepsSlots : Bool)
    (hKnown : id.index < (after requests).size) :
    ∃ (c : ScopeId) (next : Store), (after requests).snapshot id keepsSlots = .ok (c, next) ∧
      (after requests).table? c = none ∧ c.index < next.size ∧ next.parent? c = none ∧
      (∀ other, other ≠ c → next.table? other = (after requests).table? other) ∧
      (next.owned c =
        if keepsSlots then (after requests).visible id
        else ((after requests).visible id).mapIdx fun i b => { b with slot := some i }) ∧
      (∀ name, (next.lookup? c name).isSome = ((after requests).lookup? id name).isSome) ∧
      (∀ later, next.Spares c later →
        ∀ q : Query, q.scope = c → (next.run later).2.answer q = next.answer q) ∧
      ∀ later r, r.changes? = some c →
        ∀ q : Query, c ∉ (next.run later).2.chain q.scope →
          ((next.run later).2.perform r).2.answer q = (next.run later).2.answer q := by
  obtain ⟨next, hSnapshot, hPerform, hSize, hContent, hOthers⟩ :=
    exists_snapshot_of_known hKnown keepsSlots
  generalize hC : (⟨(after requests).size⟩ : ScopeId) = c at hSnapshot hContent hOthers
  have hNew : c.index = (after requests).size := by rw [← hC]
  have hNextKnown : c.index < next.size := by omega
  -- every store from here on is one that requests lead to
  have hLater : ∀ later, (next.run later).2 =
      after (requests ++ .snapshot id keepsSlots :: later) := by
    intro later
    rw [after_append, ← hPerform]
    rfl
  have hLaterSound : ∀ later, (next.run later).2.Sound := by
    intro later
    rw [hLater]
    exact sound_after _
  have hNextSound : next.Sound := hLaterSound []
  have hShape := (content?_of_known hNextKnown).symm.trans hContent
  rw [Option.some.injEq, Prod.mk.injEq] at hShape
  obtain ⟨hParent, hOwned⟩ := hShape
  refine ⟨c, next, hSnapshot, ?_, hNextKnown, hParent, hOthers, hOwned, ?_, ?_, ?_⟩
  · exact (table?_eq_none_iff _ c).mpr (Nat.le_of_eq hNew.symm)
  · intro name
    rw [hNextSound.lookup?_of_content? hContent, ← (sound_after requests).find?_visible,
      Bool.eq_iff_iff, isSome_find?_iff, isSome_find?_iff, map_name_snapshotBindings]
  · rintro later hSpares q rfl
    exact hNextSound.answer_run_of_spares (hLaterSound later) hNextKnown hParent hSpares
  · intro later r hChanges q hNot
    have hStill : c.index < (next.run later).2.size :=
      Nat.lt_of_lt_of_le hNextKnown (size_le_run next later)
    apply (hLaterSound later).answer_perform_of_not_mem_chain _ hStill hChanges hNot
    have hOne : ((next.run later).2.perform r).2 = (next.run (later ++ [r])).2 := by
      rw [run_append]
      rfl
    rw [hOne]
    exact hLaterSound _

/-- Two names in an outer scope, one of which an inner scope declares again. -/
def shadowing : List Request :=
  [.openRoot, .declareAll ⟨0⟩ [⟨"total", .mutable, some 3, false⟩, ⟨"count", .mutable, none, false⟩],
    .openInside ⟨0⟩, .declareAll ⟨1⟩ [⟨"total", .constant, some 7, true⟩]]

/-- A snapshot of the inner scope takes the inner binding, in the place of the outer one, and numbers
the slots; setting the outer slots afterwards does not show in it. -/
theorem snapshot_isolated_shadowing :
    ∃ (c : ScopeId) (next : Store), (after shadowing).snapshot ⟨1⟩ false = .ok (c, next) ∧
      next.owned c =
        [⟨"total", .constant, some 0, true⟩, ⟨"count", .mutable, some 1, false⟩] ∧
      ∀ slot, (next.run [.setSlot ⟨0⟩ "count" slot]).2.lookup? c "count" =
        next.lookup? c "count" := by
  obtain ⟨c, next, hSnapshot, hNew, -, -, -, hOwned, -, hSpared, -⟩ :=
    snapshot_isolated shadowing ⟨1⟩ false (by decide +kernel)
  have hVisible : (after shadowing).visible ⟨1⟩ =
      [⟨"total", .constant, some 7, true⟩, ⟨"count", .mutable, none, false⟩] := by decide +kernel
  refine ⟨c, next, hSnapshot, ?_, ?_⟩
  · rw [hOwned, hVisible]
    rfl
  · intro slot
    have hOther : (⟨0⟩ : ScopeId) ≠ c := by
      rintro rfl
      have hKnown : 0 < (after shadowing).size := by decide +kernel
      exact absurd ((table?_eq_none_iff _ _).mp hNew) (Nat.not_le.mpr hKnown)
    have hSpares : next.Spares c [.setSlot ⟨0⟩ "count" slot] :=
      spares_of_forall_ne (by simpa [Request.changes?] using hOther) next
    have hAnswer := hSpared _ hSpares (.lookup c "count") rfl
    simpa only [answer, Answer.binding.injEq] using hAnswer

end Store

end LateBinding.Scope
