import Mathlib.Data.Int.Notation

/-!
# Error numbers of the kernel

A function of the drivers returns `-enomem` and so on.
-/

namespace RkNand

/-- `EIO`. -/
def eio : ℤ := 5

/-- `ENOMEM`. -/
def enomem : ℤ := 12

/-- `EBUSY`. -/
def ebusy : ℤ := 16

/-- `EINVAL`. -/
def einval : ℤ := 22

/-- `ENOTTY`. -/
def enotty : ℤ := 25

/-- `EBADMSG`: uncorrectable. -/
def ebadmsg : ℤ := 74

/-- `EUCLEAN`: bit flips were corrected, the data is good. -/
def euclean : ℤ := 117

end RkNand
