/-
  Prom.Tracer.Ptrace — the tracer's view of a stopped tracee.

  `libtracer/tracer.c` sees a tracee through three things only: the status
  word `waitpid` returns, the register file `PTRACE_GETREGS` copies out, and
  the words `PTRACE_PEEKTEXT` reads from the tracee's memory.  This file
  fixes these data types (x86-64, Linux numbering) and the requests the
  tracer can send back.

  Nothing here is about what the tracer DOES with a stop: the handlers are in
  `Prom.Tracer.Handlers`.
-/
import Mathlib.Algebra.Ring.Nat
import Mathlib.Data.List.Basic
import Mathlib.Tactic.Common

namespace Prom.Tracer

/-! ## §1. Words, bytes and registers. -/

/-- A 64-bit machine word: `unsigned long`, and `long` up to reading. -/
abbrev Word := BitVec 64

/-- A byte of the tracee's memory. -/
abbrev Byte := BitVec 8

/-- A C string without its terminator. -/
abbrev Path := List Byte

/-- Process ids. -/
abbrev Pid := Nat

/-- `struct user_regs_struct` of `<sys/user.h>`. -/
structure UserRegs where
  r15 : Word := 0
  r14 : Word := 0
  r13 : Word := 0
  r12 : Word := 0
  rbp : Word := 0
  rbx : Word := 0
  r11 : Word := 0
  r10 : Word := 0
  r9 : Word := 0
  r8 : Word := 0
  rax : Word := 0
  rcx : Word := 0
  rdx : Word := 0
  rsi : Word := 0
  rdi : Word := 0
  orig_rax : Word := 0
  rip : Word := 0
  cs : Word := 0
  eflags : Word := 0
  rsp : Word := 0
  ss : Word := 0
  fs_base : Word := 0
  gs_base : Word := 0
  ds : Word := 0
  es : Word := 0
  fs : Word := 0
  gs : Word := 0
  deriving Repr, DecidableEq

/-! ## §2. Constants. -/

/-- `SYS_openat` on x86-64. -/
def SYS_openat : Word := 257

/-- `-EPERM` as it is stored in a register (`EPERM` is 1). -/
def negEPERM : Word := -1

/-- `ESRCH`. -/
def ESRCH : Nat := 3

def O_ACCMODE : BitVec 32 := 3
def O_RDONLY : BitVec 32 := 0
def O_WRONLY : BitVec 32 := 1
def O_RDWR : BitVec 32 := 2

def SIGTRAP : Nat := 5
def SIGCHLD : Nat := 17
def SIGCONT : Nat := 18
def SIGSTOP : Nat := 19
def SIGTSTP : Nat := 20
def SIGTTIN : Nat := 21
def SIGTTOU : Nat := 22

def PTRACE_O_TRACESYSGOOD : BitVec 32 := 0x1
def PTRACE_O_TRACEFORK : BitVec 32 := 0x2
def PTRACE_O_TRACEVFORK : BitVec 32 := 0x4
def PTRACE_O_TRACECLONE : BitVec 32 := 0x8
def PTRACE_O_TRACEEXIT : BitVec 32 := 0x40

def PTRACE_EVENT_FORK : Nat := 1
def PTRACE_EVENT_CLONE : Nat := 3
def PTRACE_EVENT_EXIT : Nat := 6
def PTRACE_EVENT_STOP : Nat := 128

/-! ## §3. The status word of `waitpid`. -/

/-- `WIFSTOPPED(status)`. -/
def WIFSTOPPED (status : Nat) : Bool := status % 256 == 0x7f

/-- `WSTOPSIG(status)`. -/
def WSTOPSIG (status : Nat) : Nat := status / 256 % 256

/-- The status word of a stop with signal `sig` and ptrace event `event`
(0 for none), as the kernel builds it. -/
def stopStatus (sig event : Nat) : Nat := event * 65536 + sig * 256 + 0x7f

@[simp] theorem WIFSTOPPED_stopStatus (sig event : Nat) :
    WIFSTOPPED (stopStatus sig event) = true := by
  simp only [WIFSTOPPED, stopStatus, beq_iff_eq]
  omega

@[simp] theorem WSTOPSIG_stopStatus (sig event : Nat) (h : sig < 256) :
    WSTOPSIG (stopStatus sig event) = sig := by
  simp only [WSTOPSIG, stopStatus]
  omega

/-! ## §4. What the kernel answers at one stop, and what it is asked. -/

/-- A tracee's memory: the readable bytes. -/
abbrev TraceeMem := Word → Option Byte

/-- The answers of the kernel while one stop of a tracee is handled. -/
structure Kernel where
  /-- `PTRACE_GETREGS`: the registers, or the errno of the failure. -/
  getregs : Except Nat UserRegs
  /-- `PTRACE_SETREGS` succeeds. -/
  setregsOk : Bool := true
  /-- `PTRACE_SYSCALL` succeeds. -/
  resumeOk : Bool := true
  /-- The memory that `PTRACE_PEEKTEXT` reads. -/
  mem : TraceeMem := fun _ => none
  /-- Whether the `k`-th `malloc`/`realloc` made for this stop succeeds. -/
  allocOk : Nat → Bool := fun _ => true

/-- The requests and callbacks a handler makes, in order. -/
inductive Action where
  /-- `(*_cbs->syscall)(&regs)`. -/
  | syscallCb (regs : UserRegs)
  /-- `syscall_openat` is entered. -/
  | openCheck
  /-- `(*_cbs->file_read)(path)`. -/
  | fileRead (path : Path)
  /-- `(*_cbs->file_write)(path)`. -/
  | fileWrite (path : Path)
  /-- `ptrace(PTRACE_SETREGS, pid, NULL, &regs)`. -/
  | setregs (regs : UserRegs)
  /-- `ptrace(PTRACE_SYSCALL, pid, NULL, sig)`; `sig = 0` injects nothing. -/
  | resume (sig : Nat)
  deriving Repr, DecidableEq

end Prom.Tracer
