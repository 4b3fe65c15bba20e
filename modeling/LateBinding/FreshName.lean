/-!
# Fresh names

Names that a program cannot contain, for the bindings and functions that have none of their own.
Every fresh name starts with a reserved word, goes on with the contexts it was made in, and ends in
the number of names made before it.
-/

namespace LateBinding.FreshName

/-- The reserved beginning of every fresh name. -/
def reserved : String := "__$$_"

/-- Whether a name begins as fresh names do. -/
def isReserved (name : String) : Bool :=
  reserved.toList.isPrefixOf name.toList

/-- What fresh names are made from: how many there are by now, and the contexts entered and not yet
left, the innermost first. -/
structure Supply where
  made : Nat
  contexts : List String

namespace Supply

/-- The supply that has made no name and is in no context. -/
def initial : Supply := ⟨0, []⟩

/-- Enters a context. -/
def enter (s : Supply) (context : String) : Supply :=
  { s with contexts := context :: s.contexts }

/-- Leaves the innermost context, if there is one. -/
def exit (s : Supply) : Supply :=
  { s with contexts := s.contexts.tail }

/-- The number of contexts entered and not left. -/
def depth (s : Supply) : Nat :=
  s.contexts.length

/-- The contexts that show in a name, the outermost first and the tag last; empty ones do not. -/
def visibleContexts (s : Supply) (tag : Option String) : List String :=
  (s.contexts.reverse ++ tag.toList).filter (· ≠ "")

/-- The next name, with a tag of its own after the contexts. -/
def mint (s : Supply) (tag : Option String) : String × Supply :=
  (reserved ++ String.join ((s.visibleContexts tag).map (· ++ "_")) ++ toString s.made,
    { s with made := s.made + 1 })

/-- The next name. -/
def next (s : Supply) : String × Supply :=
  s.mint none

/-- The next name, tagged. -/
def nextWith (s : Supply) (tag : String) : String × Supply :=
  s.mint (some tag)

@[simp] theorem made_mint (s : Supply) (tag : Option String) : (s.mint tag).2.made = s.made + 1 := rfl

@[simp] theorem contexts_mint (s : Supply) (tag : Option String) :
    (s.mint tag).2.contexts = s.contexts := rfl

@[simp] theorem exit_enter (s : Supply) (context : String) : (s.enter context).exit = s := rfl

end Supply

end LateBinding.FreshName
