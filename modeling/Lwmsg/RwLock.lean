/-
This file is a library of reader-writer locks, as `pthread_rwlock_t` is one. A lock knows
who reads and who writes under it, and an acquisition that would have to wait is refused.

A program that takes and releases locks says of each of its threads what it does under a
lock; the lock mirrors that. Each operation keeps the mirror for the thread that calls it,
and the mirror gives the exclusion of writers that the rest of a proof relies on.
-/

import Mathlib.Data.Finset.Basic

/-- A lock with the threads that hold it. -/
structure RwLock (Thread : Type) where
  readers : Finset Thread
  writer : Option Thread
  deriving DecidableEq

namespace RwLock

/-- What a thread holds a lock for. -/
inductive Mode
  | read
  | write
  deriving DecidableEq, Repr

variable {Thread : Type}

/-- `pthread_rwlock_init`. -/
def init : RwLock Thread := ⟨∅, none⟩

section Operations

variable [DecidableEq Thread]

/-- `pthread_rwlock_rdlock`, which waits while somebody writes. -/
def rdlock (lock : RwLock Thread) (thread : Thread) : Option (RwLock Thread) :=
  if lock.writer = none then some { lock with readers := insert thread lock.readers } else none

/-- `pthread_rwlock_wrlock`, which waits while anybody holds the lock. -/
def wrlock (lock : RwLock Thread) (thread : Thread) : Option (RwLock Thread) :=
  if lock.writer = none ∧ lock.readers = ∅ then some { lock with writer := some thread } else none

/-- The lock is taken for one purpose or the other. -/
def acquire (lock : RwLock Thread) (thread : Thread) : Mode → Option (RwLock Thread)
  | .read => lock.rdlock thread
  | .write => lock.wrlock thread

/-- `pthread_rwlock_unlock`. -/
def unlock (lock : RwLock Thread) (thread : Thread) : RwLock Thread :=
  if lock.writer = some thread then { lock with writer := none }
  else { lock with readers := lock.readers.erase thread }

end Operations

/-- A lock is held by exactly the threads that say so, for what they say. -/
structure Mirrors (lock : RwLock Thread) (mode : Thread → Option Mode) : Prop where
  reads : ∀ thread, thread ∈ lock.readers ↔ mode thread = some .read
  writes : ∀ thread, lock.writer = some thread ↔ mode thread = some .write
  alone : lock.writer ≠ none → lock.readers = ∅

variable {lock next : RwLock Thread} {mode : Thread → Option Mode} {thread other : Thread}

theorem mirrors_init : Mirrors (init : RwLock Thread) fun _ => none where
  reads := by simp [init]
  writes := by simp [init]
  alone := fun writer => absurd rfl writer

namespace Mirrors

/-- Who writes is alone. -/
theorem exclusive (mirrors : lock.Mirrors mode) (writes : mode thread = some .write)
    (holds : mode other ≠ none) : other = thread := by
  have writer := (mirrors.writes thread).mpr writes
  cases also : mode other with
  | none => exact absurd also holds
  | some purpose =>
    cases purpose with
    | read =>
      have reader := (mirrors.reads other).mpr also
      rw [mirrors.alone (by rw [writer]; exact Option.some_ne_none _)] at reader
      exact absurd reader (Finset.notMem_empty other)
    | write =>
      have second := (mirrors.writes other).mpr also
      rw [writer] at second
      exact (Option.some.inj second).symm

variable [DecidableEq Thread]

/-- What others do under a lock is not touched by a thread that goes on doing the same. -/
theorem same (mirrors : lock.Mirrors mode) {purpose : Option Mode} (still : mode thread = purpose) :
    lock.Mirrors (Function.update mode thread purpose) := by
  rwa [← still, Function.update_eq_self]

/-- A lock that is free for it is acquired. -/
theorem acquire (mirrors : lock.Mirrors mode) {purpose : Mode} (outside : mode thread = none)
    (taken : lock.acquire thread purpose = some next) :
    next.Mirrors (Function.update mode thread (some purpose)) := by
  have noReader : thread ∉ lock.readers := fun reader => by
    rw [mirrors.reads, outside] at reader
    cases reader
  cases purpose with
  | read =>
    rw [RwLock.acquire, rdlock] at taken
    split at taken
    · rename_i free
      cases taken
      refine ⟨fun other => ?_, fun other => ?_, fun writer => absurd free writer⟩
      · by_cases same : other = thread
        · subst same
          simp
        · simp [same, mirrors.reads other]
      · by_cases same : other = thread
        · subst same
          simp [free]
        · simp only [Function.update_of_ne same]
          exact mirrors.writes other
    · cases taken
  | write =>
    rw [RwLock.acquire, wrlock] at taken
    split at taken
    · rename_i free
      cases taken
      refine ⟨fun other => ?_, fun other => ?_, fun _ => free.2⟩
      · by_cases same : other = thread
        · subst same
          simp [free.2]
        · simp only [Function.update_of_ne same]
          exact mirrors.reads other
      · by_cases same : other = thread
        · subst same
          simp
        · have notWriting : mode other ≠ some .write := fun writing => by
            rw [← mirrors.writes, free.1] at writing
            cases writing
          simp [Ne.symm same, same, notWriting]
    · cases taken

/-- A lock is released. -/
theorem unlock (mirrors : lock.Mirrors mode) (holds : mode thread ≠ none) :
    (lock.unlock thread).Mirrors (Function.update mode thread none) := by
  rw [RwLock.unlock]
  split
  · rename_i writer
    have alone : lock.readers = ∅ := mirrors.alone (by rw [writer]; exact Option.some_ne_none _)
    refine ⟨fun other => ?_, fun other => ?_, fun still => absurd rfl still⟩
    · by_cases same : other = thread
      · subst same
        simp [alone]
      · simp only [Function.update_of_ne same]
        exact mirrors.reads other
    · by_cases same : other = thread
      · subst same
        simp
      · have notWriting : mode other ≠ some .write := fun writing => by
          rw [← mirrors.writes, writer] at writing
          exact same (Option.some.inj writing).symm
        simp [same, notWriting]
  · rename_i noWriter
    refine ⟨fun other => ?_, fun other => ?_, fun writer => ?_⟩
    · by_cases same : other = thread
      · subst same
        simp
      · simp [same, mirrors.reads other]
    · by_cases same : other = thread
      · subst same
        simpa using noWriter
      · simp only [Function.update_of_ne same]
        exact mirrors.writes other
    · rw [mirrors.alone writer]
      rfl

/-- An acquisition that is refused has somebody in its way. -/
theorem blocked (mirrors : lock.Mirrors mode) {purpose : Mode}
    (refused : lock.acquire thread purpose = none) :
    ∃ other, mode other = some .write ∨ purpose = .write ∧ mode other = some .read := by
  have writing (busy : lock.writer ≠ none) : ∃ other, mode other = some .write := by
    obtain ⟨other, writer⟩ := Option.ne_none_iff_exists'.mp busy
    exact ⟨other, (mirrors.writes other).mp writer⟩
  cases purpose with
  | read =>
    rw [RwLock.acquire, rdlock] at refused
    split at refused
    · cases refused
    · rename_i busy
      obtain ⟨other, writes⟩ := writing busy
      exact ⟨other, .inl writes⟩
  | write =>
    rw [RwLock.acquire, wrlock] at refused
    split at refused
    · cases refused
    · rename_i busy
      by_cases writer : lock.writer = none
      · obtain ⟨other, reader⟩ := Finset.nonempty_iff_ne_empty.mpr fun none => busy ⟨writer, none⟩
        exact ⟨other, .inr ⟨rfl, (mirrors.reads other).mp reader⟩⟩
      · obtain ⟨other, writes⟩ := writing writer
        exact ⟨other, .inl writes⟩

end Mirrors

end RwLock
