import Mathlib.Init

/-! Error numbers returned by the modelled system calls. A C return value is an
`Option Errno`: `none` is 0. -/

namespace Svr4

inductive Errno where
  | eperm | enoent | eintr | e2big | ebadf | eagain | eacces | efault | eexist | einval | efbig
  | enospc | erange | enomsg | eidrm | edeadlk | enolck | eoverflow | enomem | enosr
  | eaddrinuse | eaddrnotavail | eafnosupport | emsgsize | enetunreach
  deriving DecidableEq, Repr

end Svr4
