import MonkeyOS.Lib.Align

/-!
# MonkeyOS — pages, error numbers and poll flags

The page size all supported targets share, the rounding helpers of
`crates/runtime/src/frame.rs` and `VirtAddr`, the error numbers the modelled system calls
return, the flags of `poll` and the times of files and timeouts. Addresses are natural numbers.
-/

namespace MonkeyOS

open Lib

/-- `PageTable::PAGE_SIZE`. -/
def pageSize : Nat := 0x1000

theorem pageSize_pos : 0 < pageSize := by decide

/-- `alignup(a, b)`. -/
def alignup (a b : Nat) : Nat := divCeil a b * b

/-- `VirtAddr::floor`: the page an address lies in. -/
def floor (vaddr : Nat) : Nat := vaddr / pageSize * pageSize

/-- `syscalls::Errno`. -/
inductive Errno where
  | ENOENT
  | ESRCH
  | EINTR
  | E2BIG
  | EAGAIN
  | ENOMEM
  | EFAULT
  | EINVAL
  | EPERM
  | EBADF
  | ECHILD
  | EEXIST
  | ENOTDIR
  | ENFILE
  | EMFILE
  | ENOSYS
  | ENOMSG
  | ETIMEDOUT
  deriving DecidableEq

/-- The two names of one error number. -/
@[match_pattern] abbrev Errno.EWOULDBLOCK : Errno := .EAGAIN

/-- The flags of `vfscore::PollEvent` that are read or set. -/
structure PollEvent where
  pollin : Bool
  pollout : Bool
  pollerr : Bool
  deriving DecidableEq

def PollEvent.POLLIN : PollEvent := ⟨true, false, false⟩

def PollEvent.POLLOUT : PollEvent := ⟨false, true, false⟩

def PollEvent.POLLERR : PollEvent := ⟨false, false, true⟩

def PollEvent.contains (self other : PollEvent) : Bool :=
  (!other.pollin || self.pollin) && (!other.pollout || self.pollout)
    && (!other.pollerr || self.pollerr)

/-- `vfscore::TimeSpec`. -/
structure TimeSpec where
  sec : Nat
  nsec : Nat
  deriving DecidableEq

end MonkeyOS
