import AuditLibstdcxx.Core.Elf

/-!
# Error Codes and System Calls

What the C library exchanges with the system it runs on: its own error codes,
the calls that acquire and release resources, and what a file descriptor
leads to. A path is the bytes of a C string, without its terminator.

The library never sees a file's bytes without `fstat` and `mmap` succeeding
on it first, so an open file is modelled by how far these two get. An empty
file has no mapping: `mmap` refuses a length of zero.

## Main definitions

* `ErrorCode`: `error_code_t`.
* `Path`: The bytes of a path.
* `SysCall`: The calls that acquire or release a mapping or a descriptor.
* `OpenFile`: What `fstat` and `mmap` make of a descriptor.
-/

namespace AuditLibstdcxx

/-- `error_code_t`, with `ec_fatal_error` below and `ec_non_fatal_error` above
    `ec_success`. -/
inductive ErrorCode where
  | fatalError
  | success
  | nonFatalError
  deriving DecidableEq, Repr

/-- The bytes of a path. -/
abbrev Path : Type := List UInt8

/-- A call that acquires or releases a mapping or a descriptor. Calls that
    fail acquire nothing and leave no entry. -/
inductive SysCall where
  | mmap (addr len : Nat)
  | munmap (addr len : Nat)
  | openFile (path : Path) (fd : Nat)
  | close (fd : Nat)
  deriving DecidableEq, Repr

/-- What `fstat` and `mmap` make of a file descriptor. -/
inductive OpenFile where
  | noStat
  | noMap
  | mapped (m : Image)

end AuditLibstdcxx
