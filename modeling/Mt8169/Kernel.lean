/-!
# Kernel conventions

The error codes of the modelled drivers. A fallible function returns `Except Errno` where the source
returns a negative status.
-/

namespace Mt8169

/-- The negative status values of the modelled functions. -/
inductive Errno where
  | ENOMEM
  | EFAULT
  | EBUSY
  | EINVAL
  | ENOSYS
  deriving DecidableEq, Repr

end Mt8169
