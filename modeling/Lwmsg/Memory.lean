/-
This file is a library of pointers. A memory maps an address to a live cell or to nothing, a null
pointer is `none`, and reading, writing or releasing through a null or dead pointer fails.
-/

import Mathlib.Logic.Function.Basic

namespace Pointers

abbrev Addr := Nat

/-- The live cells. -/
abbrev Memory (Cell : Type) := Addr → Option Cell

variable {Cell : Type}

/-- The cell a pointer points to. -/
def load (memory : Memory Cell) (pointer : Option Addr) : Option Cell := pointer.bind memory

/-- A write to the cell a pointer points to. -/
def store (memory : Memory Cell) (pointer : Option Addr) (change : Cell → Cell) :
    Option (Memory Cell) :=
  match pointer, load memory pointer with
  | some addr, some cell => some (Function.update memory addr (some (change cell)))
  | _, _ => none

/-- `if (p) p->field = value;` -/
def storeUnlessNull (memory : Memory Cell) (pointer : Option Addr) (change : Cell → Cell) :
    Option (Memory Cell) :=
  match pointer with
  | some addr => store memory (some addr) change
  | none => some memory

/-- The release of the cell a pointer points to. -/
def release (memory : Memory Cell) (pointer : Option Addr) : Option (Memory Cell) :=
  match pointer, load memory pointer with
  | some addr, some _ => some (Function.update memory addr none)
  | _, _ => none

@[simp] theorem load_some (memory : Memory Cell) (addr : Addr) :
    load memory (some addr) = memory addr := rfl

theorem store_of_live {memory : Memory Cell} {addr : Addr} {cell : Cell}
    (live : memory addr = some cell) (change : Cell → Cell) :
    store memory (some addr) change = some (Function.update memory addr (some (change cell))) := by
  simp only [store, load_some, live]

/-- A write through a pointer that is null or live changes the cell it points to and no other. -/
theorem storeUnlessNull_of_live {memory : Memory Cell} {pointer : Option Addr}
    (live : ∀ addr, pointer = some addr → ∃ cell, memory addr = some cell)
    (change : Cell → Cell) :
    ∃ other, storeUnlessNull memory pointer change = some other ∧
      ∀ addr, other addr =
        (memory addr).map fun cell => if pointer = some addr then change cell else cell := by
  cases pointer with
  | none => exact ⟨memory, rfl, fun addr => by simp⟩
  | some target =>
    obtain ⟨cell, found⟩ := live target rfl
    refine ⟨_, store_of_live found change, fun addr => ?_⟩
    by_cases same : addr = target
    · subst same
      simp [found]
    · simp [Function.update_of_ne same, Ne.symm same]

/-- A write to one cell changes no other. -/
theorem store_elsewhere {memory next : Memory Cell} {addr other : Addr} {change : Cell → Cell}
    (stored : store memory (some addr) change = some next) (elsewhere : other ≠ addr) :
    next other = memory other := by
  cases live : memory addr with
  | none =>
    simp only [store, load_some, live] at stored
    cases stored
  | some cell =>
    rw [store_of_live live] at stored
    cases stored
    exact Function.update_of_ne elsewhere _ _

theorem release_of_live {memory : Memory Cell} {addr : Addr} {cell : Cell}
    (live : memory addr = some cell) :
    release memory (some addr) = some (Function.update memory addr none) := by
  simp only [release, load_some, live]

theorem release_elsewhere {memory next : Memory Cell} {addr other : Addr}
    (released : release memory (some addr) = some next) (elsewhere : other ≠ addr) :
    next other = memory other := by
  cases live : memory addr with
  | none =>
    simp only [release, load_some, live] at released
    cases released
  | some cell =>
    rw [release_of_live live] at released
    cases released
    exact Function.update_of_ne elsewhere _ _

end Pointers
