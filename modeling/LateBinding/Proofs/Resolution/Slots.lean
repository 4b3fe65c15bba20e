import LateBinding.Proofs.Resolution.Recorded

/-!
# Slots identify bindings

In the storage of one function every slot stands for one thing: a declaration of the function, or a
name that the function has from outside.  Two nodes of the function have the same slot exactly if
they stand for the same thing, whatever is shadowed, declared again or nested around them, and every
slot lies within the storage of the function.

* `IsResolved.slots_identify_bindings` - for every function of every resolved module.
-/

namespace LateBinding.Resolution

open Lexical (Context Position)

namespace IsResolved

variable {options : Options} {f : Forest} {t : Tree} {r : Outcome}

/-- The slots at the nodes of a function of a resolved module.  They are below the size of its
storage; a use of a name has one exactly if something is declared under the name where it stands;
and two of them are the same exactly if the nodes stand for the same thing - the same declaration of
the function, or the same name from outside. -/
theorem slots_identify_bindings (hResolved : IsResolved options f t r)
    (hUnslotted : ∀ s ∈ t.subtrees, s.node.slot = none) {F : Position}
    (hF : F ∈ t.positions .outermost) (hFunction : F.construct.isFunction = true) :
    ∃ layout, r.layoutOf? F.id = some layout ∧
      (∀ q ∈ F.own, ∀ slot, r.slotOf? q.id = some slot → slot < layout.slotCount) ∧
      (∀ q ∈ F.own, ∀ name, q.use? = some name →
        (r.slotOf? q.id = none ↔ q.context.lookup? name = none)) ∧
      ∀ q ∈ F.own, ∀ x ∈ F.own, ∀ slot other,
        r.slotOf? q.id = some slot → r.slotOf? x.id = some other →
          ∃ meant otherMeant, q.denotes? = some meant ∧ x.denotes? = some otherMeant ∧
            (slot = other ↔ meant = otherMeant) := by
  obtain ⟨name, hLayout⟩ := hResolved.exists_layoutOf? hF hFunction
  have hNested := nested hF
  have hProper := hResolved.isProper hF
  -- the slot at a node is the one of its position
  have hSlots : ∀ q ∈ F.own, r.slotOf? q.id = q.slot? := by
    intro q hQ
    have hInside := (List.mem_filter.mp hQ).1
    exact hResolved.slotOf?_eq hUnslotted (mem_positions_of_mem_inside hF hFunction hInside)
  refine ⟨F.layout name, hLayout, ?_, ?_, ?_⟩
  · intro q hQ slot hSlot
    rw [hSlots q hQ] at hSlot
    exact Position.slot?_lt hNested hQ hProper hSlot name
  · intro q hQ name hUse
    rw [hSlots q hQ, Position.slot?, Option.map_eq_none_iff, Position.binding?_of_use? hUse]
  · intro q hQ x hX slot other hSlot hOther
    rw [hSlots q hQ] at hSlot
    rw [hSlots x hX] at hOther
    obtain ⟨d, hD, rfl⟩ := Option.map_eq_some_iff.mp hSlot
    obtain ⟨e, hE, rfl⟩ := Option.map_eq_some_iff.mp hOther
    refine ⟨q.context.denote d, x.context.denote e, ?_, ?_, ?_⟩
    · rw [Position.denotes?, hD, Option.map_some]
    · rw [Position.denotes?, hE, Option.map_some]
    · exact Position.slot_eq_iff hNested hQ hX hProper hFunction
        (hResolved.nodup_ids_of_mem hF) hD hE

/-- In the inner closure of the module with closures, what it has from outside has its own slots. -/
theorem slots_identify_bindings_nestedClosure :
    IsResolved ⟨[]⟩ nestedForest nestedTree nestedOutcome ∧
    (∀ s ∈ nestedTree.subtrees, s.node.slot = none) ∧
    nestedClosure ∈ nestedTree.positions .outermost ∧ nestedClosure.construct.isFunction = true ∧
    ∃ layout, nestedOutcome.layoutOf? nestedClosure.id = some layout ∧
      ∀ q ∈ nestedClosure.own, ∀ x ∈ nestedClosure.own, ∀ slot other,
        nestedOutcome.slotOf? q.id = some slot → nestedOutcome.slotOf? x.id = some other →
          slot < layout.slotCount ∧ (slot = other ↔ q.denotes? = x.denotes?) := by
  have hUnslotted : ∀ s ∈ nestedTree.subtrees, s.node.slot = none := by decide +kernel
  obtain ⟨layout, hLayout, hBelow, -, hSame⟩ :=
    nestedOutcome_isResolved.slots_identify_bindings hUnslotted nestedClosure_mem
      nestedClosure_isFunction
  refine ⟨nestedOutcome_isResolved, hUnslotted, nestedClosure_mem, nestedClosure_isFunction,
    layout, hLayout, ?_⟩
  intro q hQ x hX slot other hSlot hOther
  obtain ⟨meant, otherMeant, hMeant, hOtherMeant, hIff⟩ := hSame q hQ x hX slot other hSlot hOther
  refine ⟨hBelow q hQ slot hSlot, ?_⟩
  rw [hMeant, hOtherMeant, Option.some.injEq]
  exact hIff

end IsResolved

end LateBinding.Resolution
