/-
# Constants of the headers (`include/error.h`, `include/page.h`)

A call that fails returns an error number with the sign changed.
-/
import Mathlib.Data.Int.Notation

namespace Yap

def ENOENT : ℤ := 2
def EIO : ℤ := 5
def EBADF : ℤ := 9
def EAGAIN : ℤ := 11
def ENOMEM : ℤ := 12
def EBUSY : ℤ := 16
def ENODEV : ℤ := 19
def ENOTDIR : ℤ := 20
def EINVAL : ℤ := 22
def EMFILE : ℤ := 24
def ENOSPC : ℤ := 28
def ENOTSOCK : ℤ := 88
def ENETUNREACH : ℤ := 101
def ECONNRESET : ℤ := 104
def ETIMEDOUT : ℤ := 110

/-- `PAGE_SIZE`. -/
def pageSize : BitVec 32 := 4096

theorem toNat_pageSize : pageSize.toNat = 4096 := rfl

end Yap
