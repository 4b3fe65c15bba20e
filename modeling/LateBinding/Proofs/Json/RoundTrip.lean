import LateBinding.Proofs.Json.Numeral
import LateBinding.Proofs.Json.Text

/-!
# JSON is read back

A value is read back from its text if the text says all that the value holds: its numbers have to
be numbers by the grammar, and its texts and names have to stand for characters.  The reader takes a
number of steps that is bounded by the length of the text, and stops at the end of the value.

* `IsLegible` - values that can be read back; `isLegible_ofNat`, `isLegible_ofInt`,
  `isLegible_ofText`, `isLegible_ofMembers` - values as they are made.
* `ReadsBack` - what is proved of a value, with enough steps and any text behind it;
  `readItems?_render`, `readMembers?_render` - the same for lists and objects.
* `read?_render` - legible values are read back.
* `ReadsNumerals`, `read?_render_of_read?` - whatever was read, from whatever text, can be written
  and read again, unless a text in it stands for no characters.
-/

namespace LateBinding.Json

/-! ### Legible values -/

/-- All numbers in a value are of a given kind, and all its texts, names of members among them, of
another. -/
inductive Consists (isNumber : String → Prop) (isText : Option String → Prop) : Json → Prop
  | null : Consists isNumber isText null
  | bool (b : Bool) : Consists isNumber isText (bool b)
  | number (digits : String) (hNumber : isNumber digits) : Consists isNumber isText (number digits)
  | text (s : Option String) (hText : isText s) : Consists isNumber isText (text s)
  | array (items : List Json) (hItems : ∀ v ∈ items, Consists isNumber isText v) :
      Consists isNumber isText (array items)
  | object (members : List (Option String × Json)) (hNames : ∀ m ∈ members, isText m.1)
      (hValues : ∀ m ∈ members, Consists isNumber isText m.2) :
      Consists isNumber isText (object members)

/-- A value that can be read back: its numbers are numbers by the grammar, and its texts and the
names of its members stand for characters. -/
def IsLegible (v : Json) : Prop :=
  v.Consists (fun digits => IsNumeral digits.toList) fun s => s.isSome = true

theorem isLegible_ofNat (n : Nat) : (ofNat n).IsLegible :=
  .number _ (isNumeral_toString n)

theorem isLegible_ofInt (n : Int) : (ofInt n).IsLegible :=
  .number _ (isNumeral_toString_int n)

theorem isLegible_ofText (s : String) : (ofText s).IsLegible :=
  .text (some s) rfl

theorem isLegible_ofMembers {members : List (String × Json)}
    (hValues : ∀ m ∈ members, m.2.IsLegible) : (ofMembers members).IsLegible := by
  apply Consists.object
  · intro m hMem
    obtain ⟨m, -, rfl⟩ := List.mem_map.mp hMem
    rfl
  · intro m hMem
    obtain ⟨m, hOld, rfl⟩ := List.mem_map.mp hMem
    exact hValues m hOld

/-! ### Texts of values -/

theorem toList_render_array (v : Json) (items : List Json) :
    (array (v :: items)).render.toList =
      '[' :: (v.render.toList ++ ((renderItems items).toList ++ [']'])) := by
  simp [render]

theorem toList_renderItems_cons (v : Json) (items : List Json) :
    (renderItems (v :: items)).toList = ',' :: (v.render.toList ++ (renderItems items).toList) := by
  simp [renderItems]

theorem toList_render_object (name : Option String) (v : Json)
    (members : List (Option String × Json)) :
    (object ((name, v) :: members)).render.toList = '\x7b' :: ((writeText name).toList ++
      ':' :: (v.render.toList ++ ((renderMembers members).toList ++ ['\x7d']))) := by
  simp [render]

theorem toList_renderMembers_cons (name : Option String) (v : Json)
    (members : List (Option String × Json)) :
    (renderMembers ((name, v) :: members)).toList = ',' :: ((writeText name).toList ++
      ':' :: (v.render.toList ++ (renderMembers members).toList)) := by
  simp [renderMembers]

/-- No number begins with a blank. -/
theorem isBlank_of_number {c : Char} (hHead : c.isDigit = true ∨ c = '-') : isBlank c = false := by
  rcases hHead with hDigit | rfl
  · cases hBlank : isBlank c with
    | false => rfl
    | true =>
        simp only [isBlank, Bool.or_eq_true, decide_eq_true_eq] at hBlank
        rcases hBlank with ((rfl | rfl) | rfl) | rfl <;> cases hDigit
  · rfl

/-- The text of a value begins with neither a blank nor the end of a list. -/
theorem IsLegible.exists_toList_render {v : Json} (hLegible : v.IsLegible) :
    ∃ c cs, v.render.toList = c :: cs ∧ isBlank c = false ∧ c ≠ ']' := by
  cases hLegible with
  | null => exact ⟨'n', _, rfl, rfl, by decide⟩
  | bool b =>
      cases b with
      | false => exact ⟨'f', _, rfl, rfl, by decide⟩
      | true => exact ⟨'t', _, rfl, rfl, by decide⟩
  | number digits hNumeral =>
      obtain ⟨c, cs, hText, hHead⟩ := hNumeral.exists_eq_cons
      refine ⟨c, cs, hText, isBlank_of_number hHead, ?_⟩
      rintro rfl
      revert hHead
      decide
  | text s hText =>
      obtain ⟨s, rfl⟩ := Option.isSome_iff_exists.mp hText
      exact ⟨'"', _, toList_writeText s, rfl, by decide⟩
  | array items =>
      cases items with
      | nil => exact ⟨'[', _, rfl, rfl, by decide⟩
      | cons v rest => exact ⟨'[', _, toList_render_array v rest, rfl, by decide⟩
  | object members =>
      cases members with
      | nil => exact ⟨'\x7b', _, rfl, rfl, by decide⟩
      | cons m rest => exact ⟨'\x7b', _, toList_render_object m.1 m.2 rest, rfl, by decide⟩

/-! ### Reading values -/

theorem skipBlanks_cons {c : Char} (hBlank : isBlank c = false) (cs : List Char) :
    skipBlanks (c :: cs) = c :: cs := by
  rw [skipBlanks, List.dropWhile_cons_of_neg (by simp [hBlank])]

section Steps

variable {fuel : Nat} {cs next tail : List Char} {name : String} {v : Json} {items : List Json}
  {members : List (Option String × Json)}

/-- The last item of a list. -/
theorem readItems?_last (hRead : readValue? fuel cs = some (v, ']' :: tail)) :
    readItems? (fuel + 1) cs = some ([v], tail) := by
  simp only [readItems?, hRead, Option.bind_eq_bind, Option.bind_some,
    skipBlanks_cons (c := ']') rfl]
  rfl

/-- An item with others behind it. -/
theorem readItems?_more (hRead : readValue? fuel cs = some (v, ',' :: next))
    (hItems : readItems? fuel next = some (items, tail)) :
    readItems? (fuel + 1) cs = some (v :: items, tail) := by
  simp only [readItems?, hRead, Option.bind_eq_bind, Option.bind_some,
    skipBlanks_cons (c := ',') rfl, hItems]
  rfl

/-- The last member of an object. -/
theorem readMembers?_last (hRead : readValue? fuel cs = some (v, '\x7d' :: tail)) :
    readMembers? (fuel + 1) ((writeText (some name)).toList ++ ':' :: cs) =
      some ([(some name, v)], tail) := by
  rw [toList_writeText_append]
  simp only [readMembers?, skipBlanks_cons (c := '"') rfl, readText?_flatMap_written, hRead,
    Option.bind_eq_bind, Option.bind_some, skipBlanks_cons (c := ':') rfl,
    skipBlanks_cons (c := '\x7d') rfl, String.ofList_toList]
  rfl

/-- A member with others behind it. -/
theorem readMembers?_more (hRead : readValue? fuel cs = some (v, ',' :: next))
    (hMembers : readMembers? fuel next = some (members, tail)) :
    readMembers? (fuel + 1) ((writeText (some name)).toList ++ ':' :: cs) =
      some ((some name, v) :: members, tail) := by
  rw [toList_writeText_append]
  simp only [readMembers?, skipBlanks_cons (c := '"') rfl, readText?_flatMap_written, hRead,
    Option.bind_eq_bind, Option.bind_some, skipBlanks_cons (c := ':') rfl,
    skipBlanks_cons (c := ',') rfl, hMembers, String.ofList_toList]
  rfl

/-- A list with items. -/
theorem readValue?_array {c : Char} (hBlank : isBlank c = false) (hItem : c ≠ ']')
    (hItems : readItems? fuel (c :: cs) = some (items, tail)) :
    readValue? (fuel + 1) ('[' :: c :: cs) = some (array items, tail) := by
  rw [readValue?, skipBlanks_cons (c := '[') rfl]
  simp only [skipBlanks_cons hBlank]
  split
  · rename_i hCons
    exact absurd (List.cons.inj hCons).1 hItem
  · rw [hItems]
    rfl

/-- An object with members. -/
theorem readValue?_object
    (hMembers : readMembers? fuel ((writeText (some name)).toList ++ cs) = some (members, tail)) :
    readValue? (fuel + 1) ('\x7b' :: ((writeText (some name)).toList ++ cs)) =
      some (object members, tail) := by
  rw [toList_writeText_append] at hMembers ⊢
  rw [readValue?, skipBlanks_cons (c := '\x7b') rfl]
  simp only [skipBlanks_cons (c := '"') rfl]
  split
  · rename_i hCons
    exact absurd (List.cons.inj hCons).1 (by decide)
  · rw [hMembers]
    rfl

end Steps

/-- What follows a value in a list or an object does not carry a number on. -/
theorem endsNumber_cons {c : Char} (hMark : c ∈ [',', ']', '\x7d']) (cs : List Char) :
    EndsNumber (c :: cs) := by
  simp only [List.mem_cons, List.not_mem_nil, or_false] at hMark
  rintro _ ⟨⟩
  rcases hMark with rfl | rfl | rfl <;> decide

/-- A value is read back from its text, with enough steps and whatever follows that does not carry a
number on. -/
def ReadsBack (v : Json) : Prop :=
  ∀ (fuel : Nat) (rest : List Char), 2 * v.render.toList.length ≤ fuel → EndsNumber rest →
    readValue? (fuel + 1) (v.render.toList ++ rest) = some (v, rest)

theorem readsBack_number {digits : String} (hNumeral : IsNumeral digits.toList) :
    ReadsBack (number digits) := by
  intro fuel rest _ hRest
  have hRead := readNumber?_append hNumeral hRest
  rw [String.ofList_toList] at hRead
  show readValue? (fuel + 1) (digits.toList ++ rest) = _
  obtain ⟨c, cs, hText, hHead⟩ := hNumeral.exists_eq_cons
  rw [hText, List.cons_append] at hRead ⊢
  rw [← hRead, readValue?, skipBlanks_cons (isBlank_of_number hHead)]
  -- nothing but a number begins with such a character
  split <;> rename_i hCons <;> simp_all

theorem readsBack_text (s : String) : ReadsBack (text (some s)) := by
  intro fuel rest _ _
  show readValue? (fuel + 1) ((writeText (some s)).toList ++ rest) = _
  rw [toList_writeText_append, readValue?, skipBlanks_cons (c := '"') rfl]
  simp only [readText?_flatMap_written, Option.map_some, String.ofList_toList]

/-- Items that are read back each are read back as a list. -/
theorem readItems?_render {v : Json} {items : List Json} (hFirst : ReadsBack v)
    (hRest : ∀ w ∈ items, ReadsBack w) {fuel : Nat} (tail : List Char)
    (hFuel : 2 * (v.render.toList.length + (renderItems items).toList.length) ≤ fuel) :
    readItems? (fuel + 2) (v.render.toList ++ ((renderItems items).toList ++ ']' :: tail)) =
      some (v :: items, tail) := by
  induction items generalizing v fuel with
  | nil =>
      exact readItems?_last (hFirst fuel _ (by omega) (endsNumber_cons (by decide) tail))
  | cons w items ih =>
      have hFollowing : ∀ x ∈ items, ReadsBack x := fun x hMem =>
        hRest x (List.mem_cons_of_mem w hMem)
      rw [toList_renderItems_cons] at hFuel ⊢
      simp only [List.length_cons, List.length_append] at hFuel
      rw [List.cons_append, List.append_assoc]
      refine readItems?_more (hFirst fuel _ (by omega) (endsNumber_cons (by decide) _)) ?_
      -- the comma pays for the step to the next item
      obtain ⟨fuel, rfl⟩ : ∃ steps, fuel = steps + 1 := ⟨fuel - 1, by omega⟩
      exact ih (hRest w List.mem_cons_self) hFollowing (by omega)

/-- Members whose values are read back each are read back as an object. -/
theorem readMembers?_render {name : String} {v : Json} {members : List (Option String × Json)}
    (hFirst : ReadsBack v) (hNames : ∀ m ∈ members, m.1.isSome = true)
    (hRest : ∀ m ∈ members, ReadsBack m.2) {fuel : Nat} (tail : List Char)
    (hFuel : 2 * (v.render.toList.length + (renderMembers members).toList.length) ≤ fuel) :
    readMembers? (fuel + 2) ((writeText (some name)).toList ++
        ':' :: (v.render.toList ++ ((renderMembers members).toList ++ '\x7d' :: tail))) =
      some ((some name, v) :: members, tail) := by
  induction members generalizing name v fuel with
  | nil =>
      exact readMembers?_last (hFirst fuel _ (by omega) (endsNumber_cons (by decide) tail))
  | cons m members ih =>
      obtain ⟨other, w⟩ := m
      obtain ⟨other, rfl⟩ := Option.isSome_iff_exists.mp (hNames _ List.mem_cons_self)
      have hNext : ReadsBack w := hRest (some other, w) List.mem_cons_self
      rw [toList_renderMembers_cons] at hFuel ⊢
      simp only [List.length_cons, List.length_append] at hFuel
      rw [List.cons_append, List.append_assoc, List.cons_append, List.append_assoc]
      refine readMembers?_more (hFirst fuel _ (by omega) (endsNumber_cons (by decide) _)) ?_
      -- the comma pays for the step to the next member
      obtain ⟨fuel, rfl⟩ : ∃ steps, fuel = steps + 1 := ⟨fuel - 1, by omega⟩
      exact ih hNext (fun x hMem => hNames x (List.mem_cons_of_mem _ hMem))
        (fun x hMem => hRest x (List.mem_cons_of_mem _ hMem)) (by omega)

/-- A list is read back if its items are. -/
theorem readsBack_array {items : List Json} (hItems : ∀ v ∈ items, v.IsLegible)
    (hBack : ∀ v ∈ items, ReadsBack v) : ReadsBack (array items) := by
  intro fuel rest hFuel _
  cases items with
  | nil => rfl
  | cons v items =>
      rw [toList_render_array] at hFuel ⊢
      simp only [List.length_cons, List.length_append, List.length_nil] at hFuel
      obtain ⟨fuel, rfl⟩ : ∃ steps, fuel = steps + 2 := ⟨fuel - 2, by omega⟩
      have hRead := readItems?_render (hBack v List.mem_cons_self)
        (fun w hMem => hBack w (List.mem_cons_of_mem v hMem)) rest
        (show 2 * (v.render.toList.length + (renderItems items).toList.length) ≤ fuel by omega)
      obtain ⟨c, cs, hText, hBlank, hItem⟩ := (hItems v List.mem_cons_self).exists_toList_render
      rw [List.cons_append, List.append_assoc, List.append_assoc, List.singleton_append]
      rw [hText, List.cons_append] at hRead ⊢
      exact readValue?_array hBlank hItem hRead

/-- An object is read back if its values are. -/
theorem readsBack_object {members : List (Option String × Json)}
    (hNames : ∀ m ∈ members, m.1.isSome = true) (hBack : ∀ m ∈ members, ReadsBack m.2) :
    ReadsBack (object members) := by
  intro fuel rest hFuel _
  cases members with
  | nil => rfl
  | cons m members =>
      obtain ⟨name, v⟩ := m
      obtain ⟨name, rfl⟩ := Option.isSome_iff_exists.mp (hNames _ List.mem_cons_self)
      have hFirst : ReadsBack v := hBack (some name, v) List.mem_cons_self
      rw [toList_render_object] at hFuel ⊢
      simp only [List.length_cons, List.length_append, List.length_nil] at hFuel
      obtain ⟨fuel, rfl⟩ : ∃ steps, fuel = steps + 2 := ⟨fuel - 2, by omega⟩
      rw [List.cons_append, List.append_assoc, List.cons_append, List.append_assoc,
        List.append_assoc, List.singleton_append]
      apply readValue?_object
      exact readMembers?_render hFirst (fun x hMem => hNames x (List.mem_cons_of_mem _ hMem))
        (fun x hMem => hBack x (List.mem_cons_of_mem _ hMem)) rest (by omega)

/-- Every legible value is read back from its text, with enough steps and whatever follows it that
does not carry a number on. -/
theorem IsLegible.readsBack {v : Json} (hLegible : v.IsLegible) : ReadsBack v := by
  induction hLegible with
  | null => exact fun _ _ _ _ => rfl
  | bool b => cases b <;> exact fun _ _ _ _ => rfl
  | number digits hNumeral => exact readsBack_number hNumeral
  | text s hText =>
      obtain ⟨s, rfl⟩ := Option.isSome_iff_exists.mp hText
      exact readsBack_text s
  | array items hItems ih => exact readsBack_array hItems ih
  | object members hNames hValues ih => exact readsBack_object hNames ih

/-- A legible value is read back from its text. -/
theorem read?_render {v : Json} (hLegible : v.IsLegible) : read? v.render = some v := by
  have hEnds : EndsNumber [] := nofun
  have hRead := hLegible.readsBack (2 * v.render.toList.length + 1) [] (by omega) hEnds
  rw [List.append_nil] at hRead
  simp only [read?, hRead]
  rfl

/-! ### Values that were read -/

/-- A value with numbers by the grammar, whatever its texts stand for. -/
def HasNumerals (v : Json) : Prop :=
  v.Consists (fun digits => IsNumeral digits.toList) fun _ => True

/-- A value whose texts, and names of members, stand for characters. -/
def HasCharacters (v : Json) : Prop :=
  v.Consists (fun _ => True) fun s => s.isSome = true

theorem HasNumerals.isLegible {v : Json} (hNumerals : v.HasNumerals) (hTexts : v.HasCharacters) :
    v.IsLegible := by
  induction hNumerals with
  | null => exact .null
  | bool b => exact .bool b
  | number digits hNumeral => exact .number digits hNumeral
  | text s =>
      cases hTexts with
      | text _ hText => exact .text s hText
  | array items hItems ih =>
      cases hTexts with
      | array _ hTexts => exact .array items fun v hMem => ih v hMem (hTexts v hMem)
  | object members hNames hValues ih =>
      cases hTexts with
      | object _ hNames hTexts =>
          exact .object members hNames fun m hMem => ih m hMem (hTexts m hMem)

/-- What is read in a number of steps has numbers by the grammar. -/
structure ReadsNumerals (fuel : Nat) : Prop where
  value : ∀ {cs v rest}, readValue? fuel cs = some (v, rest) → v.HasNumerals
  items : ∀ {cs items rest}, readItems? fuel cs = some (items, rest) → ∀ v ∈ items, v.HasNumerals
  members : ∀ {cs members rest}, readMembers? fuel cs = some (members, rest) →
    ∀ m ∈ members, m.2.HasNumerals

namespace ReadsNumerals

variable {fuel : Nat} {cs rest : List Char}

theorem value_succ (hReads : ReadsNumerals fuel) {v : Json}
    (hRead : readValue? (fuel + 1) cs = some (v, rest)) : v.HasNumerals := by
  unfold readValue? at hRead
  split at hRead
  · obtain ⟨⟨s, tail⟩, -, hSame⟩ := Option.map_eq_some_iff.mp hRead
    cases hSame
    exact .text s trivial
  · split at hRead
    · cases hRead
      exact .array [] nofun
    · obtain ⟨⟨items, tail⟩, hItems, hSame⟩ := Option.map_eq_some_iff.mp hRead
      cases hSame
      exact .array items (hReads.items hItems)
  · split at hRead
    · cases hRead
      exact .object [] nofun nofun
    · obtain ⟨⟨members, tail⟩, hMembers, hSame⟩ := Option.map_eq_some_iff.mp hRead
      cases hSame
      exact .object members (fun _ _ => trivial) (hReads.members hMembers)
  · obtain ⟨tail, -, hSame⟩ := Option.map_eq_some_iff.mp hRead
    cases hSame
    exact .null
  · obtain ⟨tail, -, hSame⟩ := Option.map_eq_some_iff.mp hRead
    cases hSame
    exact .bool true
  · obtain ⟨tail, -, hSame⟩ := Option.map_eq_some_iff.mp hRead
    cases hSame
    exact .bool false
  · obtain ⟨digits, rfl, -, hNumeral⟩ := exists_of_readNumber? hRead
    exact .number digits hNumeral

theorem items_succ (hReads : ReadsNumerals fuel) {items : List Json}
    (hRead : readItems? (fuel + 1) cs = some (items, rest)) : ∀ v ∈ items, v.HasNumerals := by
  unfold readItems? at hRead
  obtain ⟨⟨item, tail⟩, hItem, hRead⟩ := Option.bind_eq_some_iff.mp hRead
  have hFirst := hReads.value hItem
  dsimp only at hRead
  split at hRead
  · cases hRead
    simpa using hFirst
  · obtain ⟨⟨others, tail⟩, hOthers, hRead⟩ := Option.bind_eq_some_iff.mp hRead
    cases hRead
    exact List.forall_mem_cons.mpr ⟨hFirst, hReads.items hOthers⟩
  · cases hRead

theorem members_succ (hReads : ReadsNumerals fuel) {members : List (Option String × Json)}
    (hRead : readMembers? (fuel + 1) cs = some (members, rest)) :
    ∀ m ∈ members, m.2.HasNumerals := by
  unfold readMembers? at hRead
  split at hRead
  · obtain ⟨⟨name, afterName⟩, -, hRead⟩ := Option.bind_eq_some_iff.mp hRead
    dsimp only at hRead
    split at hRead
    · obtain ⟨⟨value, tail⟩, hValue, hRead⟩ := Option.bind_eq_some_iff.mp hRead
      have hFirst := hReads.value hValue
      dsimp only at hRead
      split at hRead
      · cases hRead
        simpa using hFirst
      · obtain ⟨⟨others, tail⟩, hOthers, hRead⟩ := Option.bind_eq_some_iff.mp hRead
        cases hRead
        exact List.forall_mem_cons.mpr ⟨hFirst, hReads.members hOthers⟩
      · cases hRead
    · cases hRead
  · cases hRead

end ReadsNumerals

theorem readsNumerals (fuel : Nat) : ReadsNumerals fuel := by
  induction fuel with
  | zero => exact ⟨nofun, nofun, nofun⟩
  | succ fuel ih => exact ⟨ih.value_succ, ih.items_succ, ih.members_succ⟩

/-- Whatever was read is legible, unless a text in it stands for no characters. -/
theorem isLegible_of_read? {s : String} {v : Json} (hRead : read? s = some v)
    (hTexts : v.HasCharacters) : v.IsLegible := by
  simp only [read?] at hRead
  split at hRead
  · rename_i value rest hValue
    split at hRead
    · cases hRead
      exact ((readsNumerals _).value hValue).isLegible hTexts
    · cases hRead
  · cases hRead

/-- So it can be written and is read again. -/
theorem read?_render_of_read? {s : String} {v : Json} (hRead : read? s = some v)
    (hTexts : v.HasCharacters) : read? v.render = some v :=
  read?_render (isLegible_of_read? hRead hTexts)

end LateBinding.Json
