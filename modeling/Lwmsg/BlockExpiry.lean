/-
This file is about when a block record expires. `std_ipb_rec_create` and
`reg_ipb_rec_create` add the time to live to the timestamp, and `chk_std_block` and
`chk_reg_block` compare the age of that timestamp with the time to live again, so an
automatic record is reported expired only after twice that time.
-/

import Lwmsg.Registration

namespace Lwmsg

/-! ### Time that has passed -/

/-- A moment of the monotonic clock. -/
structure MonotonicTime where
  tvSec : Nat
  tvNsec : Nat
  normal : tvNsec < 10 ^ 9

/-- A moment in nanoseconds. -/
def MonotonicTime.nanoseconds (time : MonotonicTime) : Nat := time.tvSec * 10 ^ 9 + time.tvNsec

/-- So many seconds lie between two moments, or more. -/
def HavePassed (seconds : Nat) (created now : MonotonicTime) : Prop :=
  created.nanoseconds + seconds * 10 ^ 9 ≤ now.nanoseconds

instance (seconds : Nat) (created now : MonotonicTime) :
    Decidable (HavePassed seconds created now) :=
  inferInstanceAs (Decidable (_ ≤ _))

/-! ### What the checks report -/

/-- The record of an address that `std_ipb_rec_create` created at one moment, whatever was counted
since. -/
def agedStdRecord (peerName : Bytes) (isManual : Bool) (failedAuths : UInt8)
    (created : MonotonicTime) : StdIpbRec :=
  { stdIpbRecCreate peerName isManual created.tvSec with failedAuths }

/-- The same for `reg_ipb_rec_create`. -/
def agedRegRecord (peerName : Bytes) (recReason : RecordReason) (succRegs failedRegs : UInt8)
    (created : MonotonicTime) : RegIpbRec :=
  { regIpbRecCreate peerName recReason created.tvSec with succRegs, failedRegs }

/-- A record is reported expired exactly if it is automatic and its time has passed. -/
def StdExpiresInTime (peerName : Bytes) (isManual : Bool) (failedAuths : UInt8)
    (created now : MonotonicTime) : Prop :=
  chkStdBlock (agedStdRecord peerName isManual failedAuths created) now.tvSec = .expired ↔
    isManual = false ∧ HavePassed authblockExpiry created now

def RegExpiresInTime (peerName : Bytes) (recReason : RecordReason) (succRegs failedRegs : UInt8)
    (created now : MonotonicTime) : Prop :=
  chkRegBlock (agedRegRecord peerName recReason succRegs failedRegs created) now.tvSec = .expired ↔
    recReason ≠ .manual ∧ HavePassed regblockExpiry created now

section Reported

variable {peerName : Bytes} {created now : MonotonicTime}

/-- The time to live is counted twice. -/
theorem chkStdBlock_aged (isManual : Bool) (failedAuths : UInt8) :
    chkStdBlock (agedStdRecord peerName isManual failedAuths created) now.tvSec = .expired ↔
      isManual = false ∧ created.tvSec + 2 * authblockExpiry ≤ now.tvSec := by
  unfold chkStdBlock agedStdRecord stdIpbRecCreate
  simp only
  by_cases manual : isManual = true
  · rw [if_pos manual]
    exact iff_of_false (by simp) fun automatic => by simp [manual] at automatic
  · rw [if_neg manual]
    split
    · rename_i old
      exact iff_of_true rfl ⟨(Bool.not_eq_true _).mp manual, by omega⟩
    · rename_i young
      refine iff_of_false ?_ fun expired => young (by omega)
      split <;> simp

theorem chkRegBlock_aged (recReason : RecordReason) (succRegs failedRegs : UInt8) :
    chkRegBlock (agedRegRecord peerName recReason succRegs failedRegs created) now.tvSec =
        .expired ↔
      recReason ≠ .manual ∧ created.tvSec + 2 * regblockExpiry ≤ now.tvSec := by
  unfold chkRegBlock agedRegRecord regIpbRecCreate
  simp only [decide_eq_true_eq]
  by_cases manual : recReason = .manual
  · rw [if_pos manual]
    exact iff_of_false (by simp) fun automatic => automatic.1 manual
  · rw [if_neg manual]
    split
    · rename_i old
      exact iff_of_true rfl ⟨manual, by omega⟩
    · rename_i young
      refine iff_of_false ?_ fun expired => young (by omega)
      split <;> simp

/-- Twice a time that is not zero has passed only if that time has. -/
theorem havePassed_of_twice {seconds : Nat} (positive : 0 < seconds)
    (twice : created.tvSec + 2 * seconds ≤ now.tvSec) : HavePassed seconds created now := by
  have normal := created.normal
  unfold HavePassed MonotonicTime.nanoseconds
  omega

/-- A report by the double time is right where the single time has not passed, or the double one
has. -/
theorem reported_iff {seconds : Nat} {automatic : Prop} (positive : 0 < seconds) :
    ((automatic ∧ created.tvSec + 2 * seconds ≤ now.tvSec) ↔
      (automatic ∧ HavePassed seconds created now)) ↔
    ¬ automatic ∨ ¬ HavePassed seconds created now ∨ created.tvSec + 2 * seconds ≤ now.tvSec := by
  rw [and_congr_right_iff, imp_iff_not_or, ← imp_iff_not_or (a := HavePassed seconds created now)]
  refine or_congr_right ⟨fun same => same.mpr, fun late => ⟨?_, late⟩⟩
  exact havePassed_of_twice positive

end Reported

/-- A record is reported expired when it should be exactly if it is manual, or its time has not
passed, or twice its time has passed by the seconds of the clock. -/
theorem block_expiry_iff (created now : MonotonicTime) :
    (∀ peerName isManual failedAuths,
      StdExpiresInTime peerName isManual failedAuths created now ↔
        isManual = true ∨ ¬ HavePassed authblockExpiry created now ∨
          created.tvSec + 2 * authblockExpiry ≤ now.tvSec) ∧
    ∀ peerName recReason succRegs failedRegs,
      RegExpiresInTime peerName recReason succRegs failedRegs created now ↔
        recReason = .manual ∨ ¬ HavePassed regblockExpiry created now ∨
          created.tvSec + 2 * regblockExpiry ≤ now.tvSec := by
  constructor
  · intro peerName isManual failedAuths
    rw [StdExpiresInTime, chkStdBlock_aged, reported_iff (by decide), Bool.not_eq_false]
  · intro peerName recReason succRegs failedRegs
    rw [RegExpiresInTime, chkRegBlock_aged, reported_iff (by decide), not_not]

/-- The first failed authentication at the start of the clock, checked one hour later. -/
theorem block_expires_late :
    ¬ ((∀ peerName isManual failedAuths created now,
        StdExpiresInTime peerName isManual failedAuths created now) ∧
      ∀ peerName recReason succRegs failedRegs created now,
        RegExpiresInTime peerName recReason succRegs failedRegs created now) := by
  rintro ⟨claim, -⟩
  have hour := claim [127, 0, 0, 1] false 1 ⟨0, 0, by decide⟩ ⟨3600, 0, by decide⟩
  unfold StdExpiresInTime at hour
  exact absurd hour (by decide)

end Lwmsg
