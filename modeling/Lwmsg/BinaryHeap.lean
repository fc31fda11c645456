/-
This file proves the order of binary heaps that sift by swapping. A heap is a family of keys over
the slots below a count, and slot `i` is a child of slot `(i - 1) / 2`.

Sifting up and sifting down both start from a heap in which one slot may be out of order, and each
swap moves that slot by one level. `UpOrder` and `DownOrder` say what holds on the way.
-/

import Mathlib.Order.Lattice
import Mathlib.Data.Nat.Basic
import Mathlib.Logic.Equiv.Basic
import Mathlib.Order.Nat

namespace Lwmsg.BinaryHeap

variable {Key : Type*}

/-- The slot above a slot. Slot 0 has none. -/
def parent (slot : Nat) : Nat := (slot - 1) / 2

/-- A slot directly below another. -/
def IsChild (child slot : Nat) : Prop := 0 < child ∧ parent child = slot

theorem parent_lt {slot : Nat} (positive : 0 < slot) : parent slot < slot := by
  unfold parent
  omega

theorem isChild_iff {child slot : Nat} :
    IsChild child slot ↔ child = 2 * slot + 1 ∨ child = 2 * slot + 2 := by
  unfold IsChild parent
  omega

theorem IsChild.lt {child slot : Nat} (isChild : IsChild child slot) : slot < child :=
  isChild.2 ▸ parent_lt isChild.1

/-- The keys after two slots were swapped. -/
def swapped (keys : Nat → Key) (first second : Nat) : Nat → Key :=
  fun slot => keys (Equiv.swap first second slot)

@[simp] theorem swapped_left (keys : Nat → Key) (first second : Nat) :
    swapped keys first second first = keys second := by
  rw [swapped, Equiv.swap_apply_left]

@[simp] theorem swapped_right (keys : Nat → Key) (first second : Nat) :
    swapped keys first second second = keys first := by
  rw [swapped, Equiv.swap_apply_right]

theorem swapped_of_ne (keys : Nat → Key) {first second slot : Nat} (notFirst : slot ≠ first)
    (notSecond : slot ≠ second) : swapped keys first second slot = keys slot := by
  rw [swapped, Equiv.swap_apply_of_ne_of_ne notFirst notSecond]

/-! ### Order -/

variable [LinearOrder Key]

/-- No slot comes before the slot above it. -/
def Ordered (keys : Nat → Key) (count : Nat) : Prop :=
  ∀ slot, 0 < slot → slot < count → keys (parent slot) ≤ keys slot

/-- The first slot of an ordered heap holds the least key. -/
theorem Ordered.root_le {keys : Nat → Key} {count : Nat} (ordered : Ordered keys count) (slot : Nat)
    (inside : slot < count) : keys 0 ≤ keys slot := by
  induction slot using Nat.strong_induction_on with
  | h slot inductionHypothesis =>
    rcases Nat.eq_zero_or_pos slot with rfl | positive
    · exact le_rfl
    · have above := parent_lt positive
      exact (inductionHypothesis _ above (above.trans inside)).trans
        (ordered slot positive inside)

/-- Fewer slots of an ordered heap are ordered. -/
theorem Ordered.mono {keys : Nat → Key} {count fewer : Nat} (ordered : Ordered keys count)
    (noMore : fewer ≤ count) : Ordered keys fewer :=
  fun slot positive inside => ordered slot positive (inside.trans_le noMore)

/-- The order depends on the keys below the count only. -/
theorem Ordered.congr {keys others : Nat → Key} {count : Nat} (ordered : Ordered keys count)
    (same : ∀ slot < count, others slot = keys slot) : Ordered others count := by
  intro slot positive inside
  rw [same slot inside, same _ ((parent_lt positive).trans inside)]
  exact ordered slot positive inside

/-- Everything is ordered except that `hole` may come before the slot above it. -/
structure UpOrder (keys : Nat → Key) (count hole : Nat) : Prop where
  except : ∀ slot, 0 < slot → slot < count → slot ≠ hole → keys (parent slot) ≤ keys slot
  around : 0 < hole → ∀ child, IsChild child hole → child < count →
    keys (parent hole) ≤ keys child

/-- Everything is ordered except that `hole` may come after the slots below it. -/
structure DownOrder (keys : Nat → Key) (count hole : Nat) : Prop where
  except : ∀ slot, 0 < slot → slot < count → parent slot ≠ hole → keys (parent slot) ≤ keys slot
  around : 0 < hole → ∀ child, IsChild child hole → child < count →
    keys (parent hole) ≤ keys child

/-! ### Sifting up -/

/-- Swapping the hole with the slot above moves the hole up. -/
theorem UpOrder.move {keys : Nat → Key} {count hole : Nat} (order : UpOrder keys count hole)
    (positive : 0 < hole) (inside : hole < count) (before : keys hole < keys (parent hole)) :
    UpOrder (swapped keys hole (parent hole)) count (parent hole) := by
  have above := parent_lt positive
  constructor
  · intro slot slotPositive slotInside slotNe
    by_cases atHole : slot = hole
    · subst atHole
      rw [swapped_right, swapped_left]
      exact before.le
    · rw [swapped_of_ne keys atHole slotNe]
      by_cases underHole : parent slot = hole
      · rw [underHole, swapped_left]
        exact order.around positive slot ⟨slotPositive, underHole⟩ slotInside
      · have ordered := order.except slot slotPositive slotInside atHole
        by_cases sibling : parent slot = parent hole
        · rw [sibling, swapped_right]
          rw [sibling] at ordered
          exact before.le.trans ordered
        · rwa [swapped_of_ne keys underHole sibling]
  · intro parentPositive child isChild childInside
    have grandparent := parent_lt parentPositive
    have ordered := order.except (parent hole) parentPositive (above.trans inside) above.ne
    rw [swapped_of_ne keys (by omega) grandparent.ne]
    by_cases atHole : child = hole
    · rw [atHole, swapped_left]
      exact ordered
    · rw [swapped_of_ne keys atHole isChild.lt.ne']
      have childOrdered := order.except child isChild.1 childInside atHole
      rw [isChild.2] at childOrdered
      exact ordered.trans childOrdered

/-- Once the hole does not come before the slot above it, everything is ordered. -/
theorem UpOrder.finish {keys : Nat → Key} {count hole : Nat} (order : UpOrder keys count hole)
    (stop : 0 < hole → keys (parent hole) ≤ keys hole) : Ordered keys count := by
  intro slot positive inside
  by_cases atHole : slot = hole
  · subst atHole
    exact stop positive
  · exact order.except slot positive inside atHole

/-! ### Sifting down -/

/-- Swapping the hole with the smaller slot below moves the hole down. -/
theorem DownOrder.move {keys : Nat → Key} {count hole child : Nat}
    (order : DownOrder keys count hole) (isChild : IsChild child hole) (inside : child < count)
    (smaller : ∀ other, IsChild other hole → other < count → keys child ≤ keys other)
    (after : keys child ≤ keys hole) : DownOrder (swapped keys hole child) count child := by
  have below := isChild.lt
  constructor
  · intro slot positive slotInside parentNe
    by_cases atHole : slot = hole
    · subst atHole
      have above := parent_lt positive
      rw [swapped_left, swapped_of_ne keys above.ne (above.trans below).ne]
      exact order.around positive child isChild inside
    · by_cases atChild : slot = child
      · rw [atChild, swapped_right, isChild.2, swapped_left]
        exact after
      · rw [swapped_of_ne keys atHole atChild]
        by_cases underHole : parent slot = hole
        · rw [underHole, swapped_left]
          exact smaller slot ⟨positive, underHole⟩ slotInside
        · rw [swapped_of_ne keys underHole parentNe]
          exact order.except slot positive slotInside underHole
  · intro _ grandchild isGrandchild grandchildInside
    have further := isGrandchild.lt
    rw [isChild.2, swapped_left, swapped_of_ne keys (below.trans further).ne' further.ne']
    have ordered := order.except grandchild isGrandchild.1 grandchildInside (by
      rw [isGrandchild.2]
      exact below.ne')
    rwa [isGrandchild.2] at ordered

/-- Once the hole does not come after the slots below it, everything is ordered. -/
theorem DownOrder.finish {keys : Nat → Key} {count hole : Nat} (order : DownOrder keys count hole)
    (stop : ∀ child, IsChild child hole → child < count → keys hole ≤ keys child) :
    Ordered keys count := by
  intro slot positive inside
  by_cases underHole : parent slot = hole
  · rw [underHole]
    exact stop slot ⟨positive, underHole⟩ inside
  · exact order.except slot positive inside underHole

/-! ### Where a sift starts -/

/-- A new last slot may only come before the slot above it. -/
theorem Ordered.upOrder_last {keys : Nat → Key} {count : Nat} (ordered : Ordered keys count) :
    UpOrder keys (count + 1) count := by
  constructor
  · intro slot positive inside notLast
    exact ordered slot positive (by omega)
  · intro _ child isChild inside
    exact absurd isChild.lt (by omega)

/-- The slots around the one that the last slot was put in are in order. -/
theorem Ordered.around_swapped {keys : Nat → Key} {count hole child : Nat}
    (ordered : Ordered keys (count + 1)) (inside : hole < count) (positive : 0 < hole)
    (isChild : IsChild child hole) (childInside : child < count) :
    swapped keys hole count (parent hole) ≤ swapped keys hole count child := by
  have above := parent_lt positive
  rw [swapped_of_ne keys above.ne (above.trans inside).ne,
    swapped_of_ne keys isChild.lt.ne' childInside.ne]
  have first := ordered hole positive (by omega)
  have second := ordered child isChild.1 (by omega)
  rw [isChild.2] at second
  exact first.trans second

/-- The last slot put in the place of another one, where it comes before the slot above. -/
theorem Ordered.upOrder_swapped {keys : Nat → Key} {count hole : Nat}
    (ordered : Ordered keys (count + 1)) (inside : hole < count)
    (before : swapped keys hole count hole < swapped keys hole count (parent hole)) :
    UpOrder (swapped keys hole count) count hole := by
  have untouched {slot : Nat} (slotInside : slot < count) (different : slot ≠ hole) :
      swapped keys hole count slot = keys slot := swapped_of_ne keys different slotInside.ne
  constructor
  · intro slot positive slotInside different
    rw [untouched slotInside different]
    by_cases underHole : parent slot = hole
    · have isChild : IsChild slot hole := ⟨positive, underHole⟩
      rw [underHole]
      rcases Nat.eq_zero_or_pos hole with rfl | holePositive
      · exact absurd before (lt_irrefl _)
      · have shown := ordered.around_swapped inside holePositive isChild slotInside
        rw [untouched slotInside different] at shown
        exact before.le.trans shown
    · rw [untouched ((parent_lt positive).trans slotInside) underHole]
      exact ordered slot positive (by omega)
  · exact fun positive child isChild childInside =>
      ordered.around_swapped inside positive isChild childInside

/-- The last slot put in the place of another one, where it does not come before the slot above. -/
theorem Ordered.downOrder_swapped {keys : Nat → Key} {count hole : Nat}
    (ordered : Ordered keys (count + 1)) (inside : hole < count)
    (notBefore : 0 < hole → swapped keys hole count (parent hole) ≤ swapped keys hole count hole) :
    DownOrder (swapped keys hole count) count hole := by
  have untouched {slot : Nat} (slotInside : slot < count) (different : slot ≠ hole) :
      swapped keys hole count slot = keys slot := swapped_of_ne keys different slotInside.ne
  constructor
  · intro slot positive slotInside notUnder
    by_cases atHole : slot = hole
    · subst atHole
      exact notBefore positive
    · rw [untouched slotInside atHole, untouched ((parent_lt positive).trans slotInside) notUnder]
      exact ordered slot positive (by omega)
  · exact fun positive child isChild childInside =>
      ordered.around_swapped inside positive isChild childInside

end Lwmsg.BinaryHeap
