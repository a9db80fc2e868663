import Mathlib.Data.BitVec

namespace HtcLeo

/-!
# UEFI base types

The `EFI_STATUS` codes the modelled drivers return.  `UINT32`, and `UINTN` on this 32-bit
ARM, are `BitVec 32`.
-/

/-- The `EFI_STATUS` values of the modelled drivers. -/
inductive EfiStatus
  | success
  | invalidParameter
  | unsupported
  | badBufferSize
  | deviceError
  | outOfResources
  | alreadyStarted
  | notReady
  | bufferTooSmall
  | notFound
  deriving DecidableEq, Repr

/-- `EFI_ERROR`: every status but `EFI_SUCCESS` is an error. -/
def EfiStatus.isError (status : EfiStatus) : Bool := status ≠ .success

@[simp] theorem EfiStatus.isError_iff (status : EfiStatus) :
    status.isError = true ↔ status ≠ .success := by
  simp [isError]

/-- A `UINT32` register or variable. -/
abbrev U32 := BitVec 32

end HtcLeo
