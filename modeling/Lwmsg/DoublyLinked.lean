/-
This file is a library of doubly linked chains in a memory of cells. A chain is described by the
list of its addresses and values, front to back: each cell's `next` is the address behind it and its
`prev` the one in front. The three rules say what a push to the front, the removal of any cell and a
change elsewhere do to the list. They ask only what the memory holds afterwards, not in which order
it was written.
-/

import Lwmsg.Memory
import Mathlib.Data.List.Nodup

namespace DoublyLinked

open Pointers

/-- A list node. -/
structure Cell (Value : Type) where
  next : Option Addr
  prev : Option Addr
  val : Value

variable {Value : Type}

/-! ### Chains -/

/-- The address at the front of a list of cells. -/
def front (items : List (Addr × Value)) : Option Addr := items.head?.map Prod.fst

/-- The address at the back of a list of cells. -/
def back (items : List (Addr × Value)) : Option Addr := items.getLast?.map Prod.fst

/-- The addresses of a list of cells. -/
abbrev addresses (items : List (Addr × Value)) : List Addr := items.map Prod.fst

@[simp] theorem front_nil : front ([] : List (Addr × Value)) = none := rfl

@[simp] theorem front_cons (item : Addr × Value) (items : List (Addr × Value)) :
    front (item :: items) = some item.1 := rfl

@[simp] theorem back_nil : back ([] : List (Addr × Value)) = none := rfl

@[simp] theorem back_singleton (item : Addr × Value) : back [item] = some item.1 := rfl

@[simp] theorem back_concat (item : Addr × Value) (items : List (Addr × Value)) :
    back (items ++ [item]) = some item.1 := by
  rw [back, List.getLast?_concat, Option.map_some]

theorem back_append_cons (item : Addr × Value) (items others : List (Addr × Value)) :
    back (others ++ item :: items) = back (item :: items) := by
  rw [back, back, List.getLast?_append_cons]

theorem back_ne_none {items : List (Addr × Value)} (nonempty : items ≠ []) : back items ≠ none := by
  rw [back, List.getLast?_eq_some_getLast nonempty]
  simp

theorem front_append_of_ne_nil {items : List (Addr × Value)} (others : List (Addr × Value))
    (nonempty : items ≠ []) : front (items ++ others) = front items := by
  cases items with
  | nil => exact absurd rfl nonempty
  | cons item items => rfl

theorem front_mem {items : List (Addr × Value)} {addr : Addr} (first : front items = some addr) :
    addr ∈ addresses items := by
  cases items with
  | nil => cases first
  | cons item items =>
    rw [front_cons] at first
    rw [← Option.some.inj first]
    exact List.mem_cons_self

theorem back_mem {items : List (Addr × Value)} {addr : Addr} (last : back items = some addr) :
    addr ∈ addresses items := by
  rw [back, Option.map_eq_some_iff] at last
  obtain ⟨item, found, rfl⟩ := last
  exact List.mem_map_of_mem (List.mem_of_getLast? found)

/-- A memory holds a list of cells as one doubly linked chain. -/
structure Chain (memory : Memory (Cell Value)) (items : List (Addr × Value)) : Prop where
  distinct : (addresses items).Nodup
  linked : ∀ before addr val after, items = before ++ (addr, val) :: after →
    memory addr = some ⟨front after, back before, val⟩

theorem Chain.nil (memory : Memory (Cell Value)) : Chain memory [] where
  distinct := List.nodup_nil
  linked before addr val after equal := by simp at equal

/-- The cells of a chain are live. -/
theorem Chain.live {memory : Memory (Cell Value)} {items : List (Addr × Value)}
    (chain : Chain memory items) {addr : Addr} (member : addr ∈ addresses items) :
    ∃ cell, memory addr = some cell := by
  obtain ⟨item, inside, rfl⟩ := List.mem_map.mp member
  obtain ⟨before, after, split⟩ := List.append_of_mem inside
  exact ⟨_, chain.linked before item.1 item.2 after split⟩

/-- A memory that agrees on the cells of a chain holds the same chain. -/
theorem Chain.frame {memory other : Memory (Cell Value)} {items : List (Addr × Value)}
    (chain : Chain memory items) (agree : ∀ addr ∈ addresses items, other addr = memory addr) :
    Chain other items where
  distinct := chain.distinct
  linked before addr val after split := by
    have member : addr ∈ addresses items := by
      rw [split]
      simp
    rw [agree addr member]
    exact chain.linked before addr val after split

/-- Pushing a cell to the front. The old front cell gets the new one as its `prev`. -/
theorem Chain.push {memory other : Memory (Cell Value)} {items : List (Addr × Value)} {addr : Addr}
    {val : Value} (chain : Chain memory items) (fresh : addr ∉ addresses items)
    (pushed : other addr = some ⟨front items, none, val⟩)
    (agree : ∀ member ∈ addresses items, other member = (memory member).map fun cell =>
      { cell with prev := if front items = some member then some addr else cell.prev }) :
    Chain other ((addr, val) :: items) where
  distinct := List.nodup_cons.mpr ⟨fresh, chain.distinct⟩
  linked before member value after split := by
    cases before with
    | nil =>
      simp only [List.nil_append, List.cons.injEq, Prod.mk.injEq] at split
      obtain ⟨⟨rfl, rfl⟩, rfl⟩ := split
      exact pushed
    | cons item before =>
      rw [List.cons_append, List.cons.injEq] at split
      obtain ⟨rfl, split⟩ := split
      have inside : member ∈ addresses items := by
        rw [split]
        simp
      rw [agree member inside, chain.linked before member value after split, Option.map_some]
      cases before with
      | nil =>
        rw [List.nil_append] at split
        rw [split, front_cons, if_pos rfl]
        rfl
      | cons item before =>
        have different : front items ≠ some member := by
          intro first
          have nodup := chain.distinct
          rw [split, List.cons_append, addresses, List.map_cons, List.nodup_cons] at nodup
          rw [split, List.cons_append, front_cons] at first
          exact nodup.1 (by rw [Option.some.inj first]; simp)
        rw [if_neg different]
        congr 2

/-- Removing a cell, wherever it stands. Its neighbours are linked to each other. -/
theorem Chain.remove {memory other : Memory (Cell Value)} {before after : List (Addr × Value)}
    {addr : Addr} {val : Value} (chain : Chain memory (before ++ (addr, val) :: after))
    (agree : ∀ member ∈ addresses (before ++ after), other member = (memory member).map fun cell =>
      { cell with
        next := if back before = some member then front after else cell.next
        prev := if front after = some member then back before else cell.prev }) :
    Chain other (before ++ after) where
  distinct := by
    have nodup := chain.distinct
    rw [addresses, List.map_append, List.map_cons] at nodup
    rw [addresses, List.map_append]
    exact (List.nodup_cons.mp (List.nodup_middle.mp nodup)).2
  linked first member value last split := by
    have nodup := chain.distinct
    have inside : member ∈ addresses (before ++ after) := by
      rw [split]
      simp
    rw [agree member inside]
    rcases List.append_eq_append_iff.mp split with ⟨middle, rfl, rest⟩ | ⟨middle, rfl, rest⟩
    · -- The cell stands behind the removed one.
      rw [chain.linked (before ++ (addr, val) :: middle) member value last
        (by rw [rest, List.append_assoc, List.cons_append]), Option.map_some]
      rw [rest, addresses, List.map_append, List.map_cons, List.map_append, List.map_cons] at nodup
      have notBack : back before ≠ some member := by
        intro equal
        have common := back_mem equal
        rw [List.nodup_append] at nodup
        exact nodup.2.2 member common member (by simp) rfl
      rw [if_neg notBack]
      cases middle with
      | nil => rw [rest, List.nil_append, front_cons, if_pos rfl, List.append_nil]
      | cons item middle =>
        have notFront : front after ≠ some member := by
          intro equal
          rw [rest, List.cons_append, front_cons] at equal
          rw [List.nodup_append] at nodup
          have tail := (List.nodup_cons.mp nodup.2.1).2
          rw [List.map_cons, List.cons_append, List.nodup_cons] at tail
          exact tail.1 (by rw [Option.some.inj equal]; simp)
        rw [if_neg notFront]
        congr 2
        rw [back_append_cons, back_append_cons, ← List.singleton_append, back_append_cons]
    · cases middle with
      | nil =>
        -- The cell is the front of what follows the removed one.
        rw [List.nil_append] at rest
        rw [List.append_nil] at nodup chain ⊢
        rw [chain.linked (first ++ [(addr, val)]) member value last
          (by rw [← rest, List.append_assoc, List.singleton_append]), Option.map_some]
        have notBack : back first ≠ some member := by
          intro equal
          have common := back_mem equal
          rw [← rest, addresses, List.map_append, List.map_cons, List.map_cons,
            List.nodup_append] at nodup
          exact nodup.2.2 member common member (by simp) rfl
        rw [if_neg notBack, ← rest, front_cons, if_pos rfl]
      | cons item middle =>
        -- The cell stands in front of the removed one.
        rw [List.cons_append, List.cons.injEq] at rest
        obtain ⟨rfl, rfl⟩ := rest
        rw [chain.linked first member value (middle ++ (addr, val) :: after)
          (by rw [List.append_assoc, List.cons_append]), Option.map_some]
        rw [addresses, List.append_assoc, List.map_append, List.cons_append, List.map_cons,
          List.map_append, List.map_cons, List.nodup_append] at nodup
        have tail := List.nodup_cons.mp nodup.2.1
        have notFront : front after ≠ some member := by
          intro equal
          have common := front_mem equal
          exact tail.1 (by simp only [List.mem_append, List.mem_cons]; exact Or.inr (Or.inr common))
        rw [if_neg notFront]
        cases middle with
        | nil =>
          rw [back_concat, if_pos rfl]
          rfl
        | cons item middle =>
          have notBack : back (first ++ (member, value) :: item :: middle) ≠ some member := by
            intro equal
            rw [back_append_cons, ← List.singleton_append, back_append_cons] at equal
            have common := back_mem equal
            exact tail.1 (List.mem_append_left _ common)
          rw [if_neg notBack, List.cons_append, front_cons, List.cons_append, front_cons]

end DoublyLinked
