/-
This file is about tables of a fixed number of slots, each of which is free or holds a value under a
key. As long as no key is in two slots, such a table is a finite map: changing one slot changes what
is found under one key. A slot is free where all keys are among fewer names than there are slots.
-/

import Mathlib.Data.List.Basic
import Mathlib.Data.List.Perm.Subperm
import Mathlib.Data.List.Nodup
import Mathlib.Tactic.Common

namespace Lwmsg

namespace SlotTable

variable {Key Value : Type} {slots : List (Option (Key × Value))} {key other : Key} {value : Value}
  {index : Nat} {content : Option (Key × Value)}

/-- A slot holds the value under the key. -/
def Holds (slots : List (Option (Key × Value))) (key : Key) (value : Value) : Prop :=
  ∃ index : Nat, slots[index]? = some (some (key, value))

/-- No key is in two slots. -/
def Distinct (slots : List (Option (Key × Value))) : Prop :=
  ∀ (first second : Nat) key value more, slots[first]? = some (some (key, value)) →
    slots[second]? = some (some (key, more)) → first = second

theorem Distinct.unique (distinct : Distinct slots) {more : Value} (holds : Holds slots key value)
    (also : Holds slots key more) : value = more := by
  obtain ⟨first, there⟩ := holds
  obtain ⟨second, elsewhere⟩ := also
  obtain rfl := distinct first second key value more there elsewhere
  rw [there] at elsewhere
  cases elsewhere
  rfl

/-- The slot is the only one that may hold the key, and it holds no other key. -/
structure Owns (slots : List (Option (Key × Value))) (index : Nat) (key : Key) : Prop where
  within : index < slots.length
  only : ∀ (position : Nat) value, slots[position]? = some (some (key, value)) → position = index
  own : ∀ other value, slots[index]? = some (some (other, value)) → other = key

/-- The slot a key is in is the one for it. -/
theorem Distinct.owns_held (distinct : Distinct slots)
    (there : slots[index]? = some (some (key, value))) : Owns slots index key where
  within := (List.getElem?_eq_some_iff.mp there).1
  only := fun position more elsewhere => distinct position index key more value elsewhere there
  own := by
    intro other more also
    rw [there] at also
    cases also
    rfl

/-- A free slot can be the one for a key that is nowhere. -/
theorem owns_free (free : slots[index]? = some none) (missing : ∀ value, ¬ Holds slots key value) :
    Owns slots index key where
  within := (List.getElem?_eq_some_iff.mp free).1
  only := fun position value there => absurd ⟨position, there⟩ (missing value)
  own := by
    intro other value there
    rw [free] at there
    cases there

/-- Changing the slot for a key changes what is held under that key only. -/
theorem Owns.holds_set (owns : Owns slots index key) :
    Holds (slots.set index content) other value ↔
      content = some (other, value) ∨ other ≠ key ∧ Holds slots other value := by
  constructor
  · rintro ⟨position, there⟩
    rw [List.getElem?_set] at there
    split at there
    · rw [if_pos owns.within] at there
      exact .inl (Option.some.inj there)
    · rename_i apart
      refine .inr ⟨?_, position, there⟩
      rintro rfl
      exact apart (owns.only position value there).symm
  · rintro (rfl | ⟨different, position, there⟩)
    · exact ⟨index, List.getElem?_set_self owns.within⟩
    · refine ⟨position, ?_⟩
      rw [List.getElem?_set, if_neg, there]
      rintro rfl
      exact different (owns.own other value there)

theorem Owns.distinct_set (owns : Owns slots index key) (distinct : Distinct slots)
    (named : ∀ other value, content = some (other, value) → other = key) :
    Distinct (slots.set index content) := by
  have place : ∀ (position : Nat) other value,
      (slots.set index content)[position]? = some (some (other, value)) →
      position = index ∧ other = key ∨
        other ≠ key ∧ slots[position]? = some (some (other, value)) := by
    intro position other value there
    rw [List.getElem?_set] at there
    split at there
    · rename_i same
      rw [if_pos owns.within] at there
      exact .inl ⟨same.symm, named other value (Option.some.inj there)⟩
    · rename_i apart
      refine .inr ⟨?_, there⟩
      rintro rfl
      exact apart (owns.only position value there).symm
  intro first second name value more there elsewhere
  rcases place first name value there with ⟨rfl, same⟩ | ⟨different, before⟩
  · rcases place second name more elsewhere with ⟨rfl, _⟩ | ⟨different, _⟩
    · rfl
    · exact absurd same different
  · rcases place second name more elsewhere with ⟨_, same⟩ | ⟨_, after⟩
    · exact absurd same different
    · exact distinct first second name value more before after

/-- A free slot at the end holds nothing. -/
theorem getElem?_append_free {slots : List (Option (Key × Value))} {index : Nat}
    {held : Key × Value} :
    (slots ++ [none])[index]? = some (some held) ↔ slots[index]? = some (some held) := by
  rw [List.getElem?_append]
  split
  · rfl
  · rename_i behind
    rw [List.getElem?_eq_none (Nat.le_of_not_lt behind)]
    cases index - slots.length <;> simp

theorem Distinct.append_free (distinct : Distinct slots) : Distinct (slots ++ [none]) := by
  intro first second key value more there elsewhere
  exact distinct first second key value more (getElem?_append_free.mp there)
    (getElem?_append_free.mp elsewhere)

/-- Two tables are the same map. -/
def Agree (slots others : List (Option (Key × Value))) : Prop :=
  ∀ key value, Holds slots key value ↔ Holds others key value

/-- They are still the same map when the slots for one key are changed in both. -/
theorem Agree.set {others : List (Option (Key × Value))} {place : Nat} (agree : Agree slots others)
    (owns : Owns slots index key) (also : Owns others place key) :
    Agree (slots.set index content) (others.set place content) := by
  intro other value
  rw [owns.holds_set, also.holds_set, agree other value]

theorem Agree.append_free {others : List (Option (Key × Value))} (agree : Agree slots others) :
    Agree slots (others ++ [none]) := by
  intro key value
  rw [agree key value]
  exact exists_congr fun index => getElem?_append_free.symm

/-- The keys in the slots are as many as the slots that are not free. -/
theorem Distinct.nodup_keys (distinct : Distinct slots) :
    (slots.filterMap fun slot => slot.map Prod.fst).Nodup := by
  induction slots with
  | nil => exact List.nodup_nil
  | cons slot slots inductionHypothesis =>
    have rest : Distinct slots := by
      intro first second key value more there elsewhere
      have same := distinct (first + 1) (second + 1) key value more there elsewhere
      omega
    cases slot with
    | none => exact inductionHypothesis rest
    | some held =>
      obtain ⟨key, value⟩ := held
      rw [List.filterMap_cons]
      refine List.nodup_cons.mpr ⟨fun member => ?_, inductionHypothesis rest⟩
      obtain ⟨slot, inside, named⟩ := List.mem_filterMap.mp member
      obtain ⟨⟨name, more⟩, rfl, same⟩ := Option.map_eq_some_iff.mp named
      obtain ⟨position, found⟩ := List.mem_iff_getElem?.mp inside
      simp only at same
      subst same
      have apart := distinct 0 (position + 1) name value more rfl found
      omega

/-- There is a free slot where all keys are among fewer names than there are slots. -/
theorem Distinct.exists_free (distinct : Distinct slots) {names : List Key}
    (named : ∀ key value, Holds slots key value → key ∈ names)
    (short : names.length < slots.length) : ∃ slot ∈ slots, slot = none := by
  by_contra full
  push Not at full
  have count : (slots.filterMap fun slot => slot.map Prod.fst).length = slots.length := by
    rw [List.length_filterMap_eq_countP, List.countP_eq_length]
    intro slot member
    obtain ⟨held, same⟩ := Option.ne_none_iff_exists'.mp (full slot member)
    rw [same]
    rfl
  have inside : (slots.filterMap fun slot => slot.map Prod.fst) ⊆ names := by
    intro key member
    obtain ⟨slot, inside, same⟩ := List.mem_filterMap.mp member
    obtain ⟨⟨name, value⟩, rfl, rfl⟩ := Option.map_eq_some_iff.mp same
    obtain ⟨position, found⟩ := List.mem_iff_getElem?.mp inside
    exact named name value ⟨position, found⟩
  have fits := (distinct.nodup_keys.subperm inside).length_le
  omega

end SlotTable

end Lwmsg
