import Mathlib.Data.List.TakeWhile
import LateBinding.Proofs.Occurrence
import LateBinding.Proofs.Scope.Table

/-!
# Scopes as plain lists

What the store of scopes is meant to be, written without its index.  A scope is the scope around it
and a list of bindings with names of their own; looking a name up searches lists.  The list and the
store carry the proofs that they are well formed, so the operations here are the ones that keep
names distinct and scopes inside older ones.

* `Request`, `Query` - what a user of a store can ask for, with `Store.run` for the indexed store.
* `Ordered.Bindings` - a list of bindings with distinct, non-empty names.
* `Ordered.Store` - plain scopes, with `perform`, `answer` and `run` for the same requests; a chain
  of scopes ends because each is older than the one before (`pairwise_chain`).
-/

namespace LateBinding.Scope

/-! ### Requests -/

/-- What changes a store. -/
inductive Request where
  | openRoot
  | openInside (id : ScopeId)
  | declareAll (id : ScopeId) (bs : List Binding)
  | remove (id : ScopeId) (name : String)
  | removeKnown (id : ScopeId) (name : String)
  | setSlot (id : ScopeId) (name : String) (slot : Nat)
  | setCaptured (id : ScopeId) (name : String) (captured : Bool)
  | snapshot (id : ScopeId) (keepsSlots : Bool)
deriving DecidableEq, Repr

/-- What a change gives back: a new scope, a binding that was removed or set, or a refusal. -/
inductive Reply where
  | opened (id : ScopeId)
  | declared
  | binding (found : Option Binding)
  | refused (e : ScopeError)
deriving DecidableEq, Repr

/-- What can be asked of a store. -/
inductive Query where
  | lookup (id : ScopeId) (name : String)
  | owner (id : ScopeId) (name : String)
  | owned (id : ScopeId)
  | visible (id : ScopeId)
  | parent (id : ScopeId)
deriving DecidableEq, Repr

/-- What a question gives back. -/
inductive Answer where
  | binding (found : Option Binding)
  | bindings (found : List Binding)
  | scope (found : Option ScopeId)
deriving DecidableEq, Repr

namespace Request

/-- The scope that a request is about. -/
def scope? : Request → Option ScopeId
  | openRoot => none
  | openInside id => some id
  | declareAll id _ => some id
  | remove id _ => some id
  | removeKnown id _ => some id
  | setSlot id _ _ => some id
  | setCaptured id _ _ => some id
  | snapshot id _ => some id

/-- The reply to a request about an unknown scope: no binding, where a binding is asked for, and a
refusal otherwise. -/
def unknownReply (id : ScopeId) : Request → Reply
  | remove _ _ => .binding none
  | setSlot _ _ _ => .binding none
  | setCaptured _ _ _ => .binding none
  | _ => .refused (.unknownScope id)

end Request

namespace Store

/-- Carries a request out.  The bindings that are set are those a scope itself declares, and the
reply shows them as they were before. -/
def perform (s : Store) : Request → Reply × Store
  | .openRoot => (.opened s.openRoot.1, s.openRoot.2)
  | .openInside id =>
      match s.openInside id with
      | .error e => (.refused e, s)
      | .ok (scope, next) => (.opened scope, next)
  | .declareAll id bs =>
      match s.declareAll id bs with
      | (some e, next) => (.refused e, next)
      | (none, next) => (.declared, next)
  | .remove id name => (.binding (s.remove id name).1, (s.remove id name).2)
  | .removeKnown id name =>
      match s.removeKnown id name with
      | .error e => (.refused e, s)
      | .ok (removed, next) => (.binding removed, next)
  | .setSlot id name slot => (.binding (s.owned? id name), s.setSlot id name slot)
  | .setCaptured id name captured =>
      (.binding (s.owned? id name), s.setCaptured id name captured)
  | .snapshot id keepsSlots =>
      match s.snapshot id keepsSlots with
      | .error e => (.refused e, s)
      | .ok (scope, next) => (.opened scope, next)

/-- Answers a question. -/
def answer (s : Store) : Query → Answer
  | .lookup id name => .binding (s.lookup? id name)
  | .owner id name => .scope (s.owner? id name)
  | .owned id => .bindings (s.owned id)
  | .visible id => .bindings (s.visible id)
  | .parent id => .scope (s.parent? id)

/-- Carries requests out one after another. -/
def run (s : Store) : List Request → List Reply × Store
  | [] => ([], s)
  | r :: rest => ((s.perform r).1 :: ((s.perform r).2.run rest).1, ((s.perform r).2.run rest).2)

end Store

namespace Ordered

open Scope.Store (overlay mem_foldl_overlay nodup_foldl_overlay)

/-! ### Lists of bindings -/

/-- Bindings in order, each with a name of its own that is not empty. -/
structure Bindings where
  list : List Binding
  named : ∀ b ∈ list, b.name ≠ ""
  distinct : (list.map Binding.name).Nodup

namespace Bindings

/-- No bindings. -/
def empty : Bindings where
  list := []
  named := nofun
  distinct := List.nodup_nil

/-- The binding of a name. -/
def find? (bs : Bindings) (name : String) : Option Binding :=
  bs.list.find? (·.name = name)

/-- Puts bindings one by one: in the place of the one of that name, or else at the end. -/
def putAll (bs : Bindings) (new : List Binding) (hNamed : ∀ b ∈ new, b.name ≠ "") : Bindings where
  list := new.foldl overlay bs.list
  named b hMem := (mem_foldl_overlay hMem).elim (bs.named b) (hNamed b)
  distinct := nodup_foldl_overlay new bs.distinct

/-- The bindings without the one of a name, in their order. -/
def remove (bs : Bindings) (name : String) : Bindings where
  list := bs.list.filter (·.name ≠ name)
  named b hMem := bs.named b (List.mem_of_mem_filter hMem)
  distinct := (List.filter_sublist.map Binding.name).nodup bs.distinct

/-- The bindings with a change to every one of them that keeps its name. -/
def revise (bs : Bindings) (change : Nat → Binding → Binding)
    (hKeeps : ∀ i b, (change i b).name = b.name) : Bindings where
  list := bs.list.mapIdx change
  named b hMem := by
    obtain ⟨i, hBound, rfl⟩ := List.mem_mapIdx.mp hMem
    rw [hKeeps]
    exact bs.named _ (List.getElem_mem hBound)
  distinct := by
    have hNames : (bs.list.mapIdx change).map Binding.name = bs.list.map Binding.name := by
      apply List.ext_getElem?
      intro i
      simp only [List.getElem?_map, List.getElem?_mapIdx, Option.map_map]
      congr 1
      funext b
      exact hKeeps i b
    rw [hNames]
    exact bs.distinct

/-- The bindings with a change to the one of a name. -/
def update (bs : Bindings) (name : String) (change : Binding → Binding)
    (hKeeps : ∀ b, (change b).name = b.name) : Bindings :=
  bs.revise (fun _ b => if b.name = name then change b else b) fun _ b => by
    split
    · exact hKeeps b
    · rfl

end Bindings

/-! ### Plain scopes -/

/-- The scope around a scope and its own bindings. -/
structure Table where
  parent : Option ScopeId
  bindings : Bindings

/-- Scopes in the order in which they were opened, each inside an older one or on its own. -/
@[ext] structure Store where
  tables : List Table
  parent_lt : ∀ (i : Nat) (t : Table) (outer : ScopeId),
    tables[i]? = some t → t.parent = some outer → outer.index < i

namespace Store

/-- The store without scopes. -/
def empty : Store where
  tables := []
  parent_lt := by simp

/-- The number of the next scope. -/
def next (p : Store) : ScopeId :=
  ⟨p.tables.length⟩

/-- A scope by its number. -/
def table? (p : Store) (id : ScopeId) : Option Table :=
  p.tables[id.index]?

/-- Whether a number has been given out. -/
def Knows (p : Store) (id : ScopeId) : Prop :=
  id.index < p.tables.length

instance (p : Store) (id : ScopeId) : Decidable (p.Knows id) :=
  inferInstanceAs (Decidable (id.index < p.tables.length))

/-- The scope around a scope. -/
def parent? (p : Store) (id : ScopeId) : Option ScopeId :=
  (p.table? id).bind Table.parent

/-- The bindings of a scope; an unknown one has none. -/
def bindings (p : Store) (id : ScopeId) : Bindings :=
  ((p.table? id).map Table.bindings).getD Bindings.empty

/-- The binding that a scope itself declares for a name. -/
def owned? (p : Store) (id : ScopeId) (name : String) : Option Binding :=
  (p.bindings id).find? name

/-- A scope and the scopes around it, the innermost first.  There are finitely many, because each
is older than the one before. -/
def chain (p : Store) (id : ScopeId) : List ScopeId :=
  match _ : p.table? id with
  | none => []
  | some t =>
      id ::
        match _ : t.parent with
        | none => []
        | some outer => p.chain outer
termination_by id.index
decreasing_by exact p.parent_lt id.index _ outer ‹_› ‹_›

/-- The binding that a name has in a scope. -/
def lookup? (p : Store) (id : ScopeId) (name : String) : Option Binding :=
  (p.chain id).findSome? (p.owned? · name)

/-- The innermost scope that declares a name, seen from a scope. -/
def owner? (p : Store) (id : ScopeId) (name : String) : Option ScopeId :=
  (p.chain id).find? fun scope => (p.owned? scope name).isSome

/-- What a lookup finds is a binding of the name, declared in some scope. -/
theorem of_lookup? {p : Store} {id : ScopeId} {name : String} {b : Binding}
    (hFound : p.lookup? id name = some b) :
    b.name = name ∧ ∃ scope, b ∈ (p.bindings scope).list := by
  obtain ⟨scope, -, hOwned⟩ := List.exists_of_findSome?_eq_some hFound
  exact ⟨by simpa using List.find?_some hOwned, scope, List.mem_of_find?_eq_some hOwned⟩

/-- Every name declared in a scope or around it, where the outermost scope that declares it puts
it. -/
def visibleNames (p : Store) (id : ScopeId) : List String :=
  ((p.chain id).reverse.flatMap fun scope => (p.bindings scope).list.map Binding.name).eraseDups

/-- Every binding visible in a scope: for each visible name what a lookup finds. -/
def visible (p : Store) (id : ScopeId) : Bindings where
  list := (p.visibleNames id).filterMap (p.lookup? id)
  named b hMem := by
    obtain ⟨name, -, hFound⟩ := List.mem_filterMap.mp hMem
    obtain ⟨-, scope, hOwned⟩ := of_lookup? hFound
    exact (p.bindings scope).named b hOwned
  distinct := by
    rw [List.map_filterMap]
    refine (Occurrence.nodup_eraseDups _).filterMap ?_
    intro first second found hFirst hSecond
    obtain ⟨b, hB, rfl⟩ := Option.map_eq_some_iff.mp hFirst
    obtain ⟨c, hC, hName⟩ := Option.map_eq_some_iff.mp hSecond
    rw [← (of_lookup? hB).1, ← (of_lookup? hC).1, hName]

/-- Adds a scope inside a known one or on its own. -/
def push (p : Store) (t : Table) (hParent : ∀ outer, t.parent = some outer → p.Knows outer) :
    Store where
  tables := p.tables ++ [t]
  parent_lt i found outer hFound hOuter := by
    rw [List.getElem?_append] at hFound
    split at hFound
    · exact p.parent_lt i found outer hFound hOuter
    · obtain rfl : t = found := by
        have hMem := List.mem_of_getElem? hFound
        exact (List.mem_singleton.mp hMem).symm
      have hKnown : outer.index < p.tables.length := hParent outer hOuter
      omega

/-- The store with the bindings of one scope changed. -/
def modify (p : Store) (id : ScopeId) (change : Bindings → Bindings) : Store where
  tables := p.tables.modify id.index fun t => { t with bindings := change t.bindings }
  parent_lt i found outer hFound hOuter := by
    rw [List.getElem?_modify] at hFound
    obtain ⟨t, hTable, rfl⟩ := Option.map_eq_some_iff.mp hFound
    apply p.parent_lt i t outer hTable
    rw [← hOuter]
    split <;> rfl

/-- The bindings of a snapshot: the visible ones, with their own slots or with slots counted from
0. -/
def snapshot (p : Store) (id : ScopeId) (keepsSlots : Bool) : Bindings :=
  if keepsSlots then p.visible id
  else (p.visible id).revise (fun i b => { b with slot := some i }) fun _ _ => rfl

/-- Carries a request out. -/
def perform (p : Store) : Request → Reply × Store
  | .openRoot => (.opened p.next, p.push ⟨none, Bindings.empty⟩ nofun)
  | .openInside id =>
      if hKnown : p.Knows id then
        (.opened p.next, p.push ⟨some id, Bindings.empty⟩ fun _ h => Option.some.inj h ▸ hKnown)
      else (.refused (.unknownScope id), p)
  | .declareAll id bs =>
      -- the bindings before the first without a name are declared
      if p.Knows id then
        (if bs.all (·.name ≠ "") then .declared else .refused .namelessBinding,
          p.modify id fun own => own.putAll (bs.takeWhile (·.name ≠ "")) fun _ hMem => by
            simpa using List.mem_takeWhile_imp hMem)
      else (.refused (.unknownScope id), p)
  | .remove id name => (.binding (p.owned? id name), p.modify id (·.remove name))
  | .removeKnown id name =>
      if p.Knows id then (.binding (p.owned? id name), p.modify id (·.remove name))
      else (.refused (.unknownScope id), p)
  | .setSlot id name slot =>
      (.binding (p.owned? id name),
        p.modify id (·.update name (fun b => { b with slot := some slot }) fun _ => rfl))
  | .setCaptured id name captured =>
      (.binding (p.owned? id name),
        p.modify id (·.update name (fun b => { b with captured := captured }) fun _ => rfl))
  | .snapshot id keepsSlots =>
      if p.Knows id then (.opened p.next, p.push ⟨none, p.snapshot id keepsSlots⟩ nofun)
      else (.refused (.unknownScope id), p)

/-- Answers a question. -/
def answer (p : Store) : Query → Answer
  | .lookup id name => .binding (p.lookup? id name)
  | .owner id name => .scope (p.owner? id name)
  | .owned id => .bindings (p.bindings id).list
  | .visible id => .bindings (p.visible id).list
  | .parent id => .scope (p.parent? id)

/-- Carries requests out one after another. -/
def run (p : Store) : List Request → List Reply × Store
  | [] => ([], p)
  | r :: rest => ((p.perform r).1 :: ((p.perform r).2.run rest).1, ((p.perform r).2.run rest).2)

theorem table?_push (p : Store) (t : Table)
    (hParent : ∀ outer, t.parent = some outer → p.Knows outer) (id : ScopeId) :
    (p.push t hParent).table? id = if id.index = p.tables.length then some t else p.table? id := by
  show (p.tables ++ [t])[id.index]? = _
  rw [List.getElem?_append]
  split
  · rw [if_neg (by omega)]
    rfl
  · split
    · rename_i hLast
      simp [hLast]
    · have hFirst : p.table? id = none := List.getElem?_eq_none (by omega)
      have hSecond : [t][id.index - p.tables.length]? = none :=
        List.getElem?_eq_none (by rw [List.length_singleton]; omega)
      rw [hFirst, hSecond]

theorem table?_modify (p : Store) (id other : ScopeId) (change : Bindings → Bindings) :
    (p.modify id change).table? other =
      (p.table? other).map fun t =>
        if other = id then { t with bindings := change t.bindings } else t := by
  have key : id.index = other.index ↔ other = id := by
    cases id
    cases other
    simp [eq_comm]
  simp only [table?, modify, List.getElem?_modify, key]
  rfl

theorem knows_iff (p : Store) (id : ScopeId) : p.Knows id ↔ (p.table? id).isSome := by
  simp [Knows, table?]

/-- A known scope comes first in its chain, and the chain of the scope around it follows. -/
theorem chain_eq (p : Store) (id : ScopeId) :
    p.chain id =
      match p.table? id with
      | none => []
      | some t => id :: (t.parent.map p.chain).getD [] := by
  rw [chain]
  split
  · rename_i hTable
    rw [hTable]
  · rename_i t hTable
    rw [hTable]
    split <;> rename_i hParent <;> simp [hParent]

/-- The scopes of a chain are older and older. -/
theorem pairwise_chain (p : Store) (id : ScopeId) :
    (∀ scope ∈ p.chain id, scope.index ≤ id.index) ∧
      (p.chain id).Pairwise fun inner outer => outer.index < inner.index := by
  induction hIndex : id.index using Nat.strongRecOn generalizing id with
  | _ n ih =>
      subst hIndex
      rw [p.chain_eq id]
      cases hTable : p.table? id with
      | none => simp
      | some t =>
          cases hParent : t.parent with
          | none => simp [hParent]
          | some outer =>
              have hLt : outer.index < id.index := p.parent_lt id.index t outer hTable hParent
              obtain ⟨hBound, hOlder⟩ := ih outer.index hLt outer rfl
              simp only [hParent, Option.map_some, Option.getD_some]
              constructor
              · refine List.forall_mem_cons.mpr ⟨Nat.le_refl _, fun scope hMem => ?_⟩
                have := hBound scope hMem
                omega
              · refine List.pairwise_cons.mpr ⟨fun scope hMem => ?_, hOlder⟩
                have := hBound scope hMem
                omega

theorem modify_of_unknown {p : Store} {id : ScopeId} (hUnknown : ¬ p.Knows id)
    (change : Bindings → Bindings) : p.modify id change = p := by
  have hBound : p.tables.length ≤ id.index := Nat.le_of_not_lt hUnknown
  ext1
  exact List.modify_eq_self hBound

/-- A request about an unknown scope changes nothing. -/
theorem perform_of_unknown {p : Store} {id : ScopeId} (hUnknown : ¬ p.Knows id) {r : Request}
    (hScope : r.scope? = some id) : p.perform r = (r.unknownReply id, p) := by
  have hNone : p.table? id = none := by simpa [knows_iff] using hUnknown
  have hOwned : ∀ name, p.owned? id name = none := by
    intro name
    simp [owned?, bindings, hNone, Bindings.find?, Bindings.empty]
  cases r with
  | openRoot => cases hScope
  | openInside outer =>
      cases hScope
      exact dif_neg hUnknown
  | declareAll scope bs =>
      cases hScope
      exact if_neg hUnknown
  | remove scope name =>
      cases hScope
      simp only [perform, Request.unknownReply, hOwned, modify_of_unknown hUnknown]
  | removeKnown scope name =>
      cases hScope
      exact if_neg hUnknown
  | setSlot scope name slot =>
      cases hScope
      simp only [perform, Request.unknownReply, hOwned, modify_of_unknown hUnknown]
  | setCaptured scope name captured =>
      cases hScope
      simp only [perform, Request.unknownReply, hOwned, modify_of_unknown hUnknown]
  | snapshot scope keepsSlots =>
      cases hScope
      exact if_neg hUnknown

end Store

end Ordered

end LateBinding.Scope
