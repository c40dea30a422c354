/-
  Prom.Tracer.Handlers — the stop handlers of `libtracer/tracer.c`.

  One `waitpid` result is dispatched by `tracer_loop` to `handle_stopped`,
  which looks at the stop signal alone:

      SIGTRAP          → handle_sigtrap    (resumes, no signal)
      SIGTRAP | 0x80   → handle_syscalls   (the entry/exit toggle)
      SIGCONT          → resumes, no signal
      anything else    → resumes, injecting the signal

  `handle_syscalls` keeps one word between calls, the function-static
  `last_syscall`; it is an argument and a result here.  What a handler asks of
  the kernel and of the callbacks is its `log`.

  Main results:
    * `handleSyscalls_plain` — with no syscall callback and all requests
      succeeding, one call is the toggle plus the open check when the toggle
      says "entry" and the number is `SYS_openat`.
    * `stopLog_resumes_once` — a handled stop is answered with one
      `PTRACE_SYSCALL`, the last thing the handler does.
-/
import Prom.Tracer.ReadString

namespace Prom.Tracer

/-! ## §1. Callbacks and results. -/

/-- `struct tracer_callbacks`; `none` is a `NULL` function pointer. -/
structure TracerCallbacks where
  file_read : Option (Path → Int) := none
  file_write : Option (Path → Int) := none
  syscall : Option (UserRegs → UserRegs) := none

/-- What handling one stop does: the new `last_syscall`, the requests made,
and the value returned. -/
structure Handled where
  last_syscall : Word
  log : List Action
  ret : Int
  deriving Repr, DecidableEq

/-- The return value of `ptrace(PTRACE_SYSCALL, ..)`. -/
def Kernel.resumeRet (k : Kernel) : Int := if k.resumeOk then 0 else -1

/-! ## §2. `syscall_openat`. -/

/-- `acc_flag`: the access mode in the low 32 bits of `rdx`. -/
def accFlag (regs : UserRegs) : BitVec 32 := regs.rdx.setWidth 32 &&& O_ACCMODE

/-- `acc_flag == O_RDONLY || acc_flag == O_RDWR`. -/
def wantsRead (regs : UserRegs) : Bool :=
  accFlag regs == O_RDONLY || accFlag regs == O_RDWR

/-- `acc_flag == O_WRONLY || acc_flag == O_RDWR`. -/
def wantsWrite (regs : UserRegs) : Bool :=
  accFlag regs == O_WRONLY || accFlag regs == O_RDWR

/-- One of the two callback blocks: call `cb` when it is installed and the
access mode selects it; the flag says whether it denied. -/
def consult (cb : Option (Path → Int)) (act : Path → Action) (selected : Bool)
    (path : Path) : List Action × Bool :=
  match cb with
  | some f => if selected then ([act path], f path == -1) else ([], false)
  | none => ([], false)

/-- `syscall_openat(tracer, pid_curr, regs)`: its requests and its verdict. -/
def syscallOpenat (cbs : TracerCallbacks) (k : Kernel) (regs : UserRegs) : List Action × Int :=
  match readString k regs.rsi with
  | .str val _ =>
      let path := cString val
      let read := consult cbs.file_read .fileRead (wantsRead regs) path
      let write := consult cbs.file_write .fileWrite (wantsWrite regs) path
      (.openCheck :: (read.1 ++ write.1), if read.2 || write.2 then -1 else 0)
  | _ => ([.openCheck], 0)

/-! ## §3. `handle_syscalls`. -/

/-- `last_syscall = last_syscall == syscall ? -1 : syscall`. -/
def toggle (last syscall : Word) : Word := if last = syscall then -1 else syscall

/-- The registers after the `perm == -1` block. -/
def denyRegs (perm : Int) (regs : UserRegs) : UserRegs :=
  if perm = -1 then { regs with orig_rax := negEPERM, rax := negEPERM } else regs

/-- The call of the syscall callback: it may overwrite any register. -/
def runSyscallCb (cbs : TracerCallbacks) (last : Word) (regs : UserRegs) :
    List Action × UserRegs :=
  match cbs.syscall with
  | some f => if last ≠ -1 then ([.syscallCb regs], f regs) else ([], regs)
  | none => ([], regs)

/-- The open check, guarded as in the source. -/
def runOpenCheck (cbs : TracerCallbacks) (k : Kernel) (last syscall : Word) (regs : UserRegs) :
    List Action × Int :=
  if syscall = SYS_openat ∧ last ≠ -1 then syscallOpenat cbs k regs else ([], 0)

/-- `handle_syscalls(tracer, pid_curr)`, entered with `last_syscall = last`. -/
def handleSyscalls (cbs : TracerCallbacks) (k : Kernel) (last : Word) : Handled :=
  match k.getregs with
  | .error e =>
      if e = ESRCH then ⟨last, [], -1⟩ else ⟨last, [.resume 0], k.resumeRet⟩
  | .ok regs =>
      let syscall := regs.orig_rax
      let last := toggle last syscall
      let cb := runSyscallCb cbs last regs
      let openat := runOpenCheck cbs k last syscall cb.2
      let regs := denyRegs openat.2 cb.2
      if k.setregsOk then
        ⟨last, cb.1 ++ openat.1 ++ [.setregs regs, .resume 0], k.resumeRet⟩
      else ⟨last, cb.1 ++ openat.1 ++ [.setregs regs], -1⟩

/-! ## §4. The dispatch. -/

/-- `handle_sigtrap(tracer, pid_curr, event)`: every case falls through to the
default. -/
def handleSigtrap (k : Kernel) (event : Nat) (last : Word) : Handled :=
  if event = SIGTRAP + PTRACE_EVENT_FORK * 256 ∨ event = SIGTRAP + PTRACE_EVENT_CLONE * 256
      ∨ event = SIGTRAP + PTRACE_EVENT_STOP * 256 ∨ event = SIGTRAP + PTRACE_EVENT_EXIT * 256
  then ⟨last, [.resume 0], k.resumeRet⟩
  else ⟨last, [.resume 0], k.resumeRet⟩

/-- `handle_stopped(tracer, pid_curr, event, sig)`. -/
def handleStopped (cbs : TracerCallbacks) (k : Kernel) (event sig : Nat) (last : Word) :
    Handled :=
  if sig = SIGTRAP then handleSigtrap k event last
  else if sig = SIGTRAP + 0x80 then handleSyscalls cbs k last
  else if sig = SIGCONT then ⟨last, [.resume 0], k.resumeRet⟩
  else ⟨last, [.resume sig], k.resumeRet⟩

/-- The result of `waitpid(-1, &child_status, WNOHANG)`. -/
inductive WaitResult where
  /-- No child changed state (0). -/
  | idle
  /-- The call failed (-1). -/
  | failed
  /-- A child and its status word. -/
  | child (pid : Pid) (status : Nat)
  deriving Repr, DecidableEq

/-- `tracer_loop(tracer)`: one poll. -/
def tracerLoop (cbs : TracerCallbacks) (k : Kernel) (w : WaitResult) (last : Word) : Handled :=
  match w with
  | .idle => ⟨last, [], 0⟩
  | .failed => ⟨last, [], -1⟩
  | .child _ status =>
      if WIFSTOPPED status then
        handleStopped cbs k (status / 256) (WSTOPSIG status) last
      else ⟨last, [], 0⟩

/-- A signal number. -/
abbrev Signal := { s : Nat // 0 < s ∧ s ≤ 64 }

/-- A stop with a signal other than the syscall mark is answered by its
signal alone. -/
theorem handleStopped_answer (cbs : TracerCallbacks) (k : Kernel) (event : Nat) (s : Signal)
    (last : Word) :
    handleStopped cbs k event s.1 last
      = ⟨last, [.resume (if s.1 = SIGTRAP ∨ s.1 = SIGCONT then 0 else s.1)], k.resumeRet⟩ := by
  have hs := s.2
  have hsys : s.1 ≠ SIGTRAP + 0x80 := by unfold SIGTRAP; omega
  unfold handleStopped
  by_cases htrap : s.1 = SIGTRAP
  · rw [if_pos htrap, if_pos (Or.inl htrap)]
    unfold handleSigtrap
    split <;> rfl
  · rw [if_neg htrap, if_neg hsys]
    by_cases hcont : s.1 = SIGCONT
    · rw [if_pos hcont, if_pos (Or.inr hcont)]
    · rw [if_neg hcont, if_neg (by rintro (h | h) <;> contradiction)]

/-- A stop that is not a syscall stop is answered with one `PTRACE_SYSCALL`
and nothing else. -/
theorem handleStopped_other (cbs : TracerCallbacks) (k : Kernel) (event : Nat) (s : Signal)
    (last : Word) :
    ∃ inject, handleStopped cbs k event s.1 last = ⟨last, [.resume inject], k.resumeRet⟩ :=
  ⟨_, handleStopped_answer cbs k event s last⟩

/-- A status word with the syscall bit goes to `handle_syscalls`. -/
theorem tracerLoop_syscall (cbs : TracerCallbacks) (k : Kernel) (p : Pid) (last : Word) :
    tracerLoop cbs k (.child p (stopStatus (SIGTRAP + 0x80) 0)) last
      = handleSyscalls cbs k last := by
  simp [tracerLoop, handleStopped, SIGTRAP]

/-- Any other stop's status word goes to the other branches. -/
theorem tracerLoop_signal (cbs : TracerCallbacks) (k : Kernel) (p : Pid) (s : Signal)
    (event : Nat) (last : Word) :
    tracerLoop cbs k (.child p (stopStatus s.1 event)) last
      = handleStopped cbs k (stopStatus s.1 event / 256) s.1 last := by
  have hs := s.2
  simp [tracerLoop, WSTOPSIG_stopStatus s.1 event (by omega)]

/-! ## §5. What one call of `handle_syscalls` does. -/

/-- The requests of a call that checks the open: the verdict decides the
registers written back. -/
def checkedLog (cbs : TracerCallbacks) (k : Kernel) (regs : UserRegs) : List Action :=
  (syscallOpenat cbs k regs).1
    ++ [.setregs (denyRegs (syscallOpenat cbs k regs).2 regs), .resume 0]

/-- The requests of a call that lets the stop pass. -/
def passLog (regs : UserRegs) : List Action := [.setregs regs, .resume 0]

/-- The requests of a call, by whether the open is checked. -/
def stopLog (cbs : TracerCallbacks) (k : Kernel) (regs : UserRegs) (check : Bool) : List Action :=
  if check then checkedLog cbs k regs else passLog regs

theorem SYS_openat_ne : SYS_openat ≠ -1 := by decide

theorem toggle_self (n : Word) : toggle n n = -1 := if_pos rfl

theorem toggle_neg_one (last : Word) : toggle last (-1) = -1 := by
  unfold toggle
  split <;> rfl

theorem toggle_ne {last n : Word} (h : last ≠ n) : toggle last n = n := if_neg h

/-- The guard of the open check, in terms of the value `last_syscall` had on
entry. -/
theorem openGuard_iff (last n : Word) :
    (n = SYS_openat ∧ toggle last n ≠ -1) ↔ (n = SYS_openat ∧ last ≠ SYS_openat) := by
  constructor
  · rintro ⟨rfl, h⟩
    refine ⟨rfl, ?_⟩
    rintro rfl
    exact h (toggle_self SYS_openat)
  · rintro ⟨rfl, h⟩
    exact ⟨rfl, by rw [toggle_ne h]; exact SYS_openat_ne⟩

/-- **One call, no syscall callback, all requests succeeding.** -/
theorem handleSyscalls_plain (cbs : TracerCallbacks) (k : Kernel) (last : Word) {regs : UserRegs}
    (hcb : cbs.syscall = none) (hget : k.getregs = .ok regs) (hset : k.setregsOk = true) :
    handleSyscalls cbs k last =
      ⟨toggle last regs.orig_rax,
       stopLog cbs k regs (decide (regs.orig_rax = SYS_openat ∧ last ≠ SYS_openat)),
       k.resumeRet⟩ := by
  have hguard := openGuard_iff last regs.orig_rax
  simp only [handleSyscalls, hget, hset, runSyscallCb, hcb, runOpenCheck, hguard, if_true,
    List.nil_append]
  by_cases hcheck : regs.orig_rax = SYS_openat ∧ last ≠ SYS_openat
  · simp only [if_pos hcheck, decide_eq_true hcheck, stopLog, checkedLog, if_true]
  · simp only [if_neg hcheck, decide_eq_false hcheck, stopLog, passLog]
    rfl

/-! ## §6. What the open check can ask for. -/

theorem consult_log (cb : Option (Path → Int)) (act : Path → Action) (selected : Bool)
    (path : Path) :
    (consult cb act selected path).1 = if cb.isSome && selected then [act path] else [] := by
  cases cb <;> cases selected <;> rfl

/-- `syscall_openat` is entered once and otherwise only consults the file
callbacks: it never touches the tracee. -/
theorem syscallOpenat_log (cbs : TracerCallbacks) (k : Kernel) (regs : UserRegs) :
    ∃ calls, (syscallOpenat cbs k regs).1 = .openCheck :: calls
      ∧ ∀ a ∈ calls, ∃ path, a = .fileRead path ∨ a = .fileWrite path := by
  unfold syscallOpenat
  cases readString k regs.rsi with
  | null live => exact ⟨[], rfl, by simp⟩
  | overrun => exact ⟨[], rfl, by simp⟩
  | str val live =>
      refine ⟨_, rfl, ?_⟩
      intro a ha
      simp only [consult_log, List.mem_append] at ha
      refine ⟨cString val, ?_⟩
      rcases ha with ha | ha <;> split at ha <;> simp at ha
      · exact Or.inl ha
      · exact Or.inr ha

/-- Whether an action is a `PTRACE_SYSCALL`. -/
def Action.isResume : Action → Bool
  | .resume _ => true
  | _ => false

/-- Whether an action enters the open check. -/
def Action.isOpenCheck : Action → Bool
  | .openCheck => true
  | _ => false

theorem syscallOpenat_no_resume (cbs : TracerCallbacks) (k : Kernel) (regs : UserRegs) :
    (syscallOpenat cbs k regs).1.countP Action.isResume = 0 := by
  obtain ⟨calls, hlog, hcalls⟩ := syscallOpenat_log cbs k regs
  rw [hlog, List.countP_eq_zero]
  intro a ha
  rcases List.mem_cons.mp ha with rfl | ha
  · simp [Action.isResume]
  · obtain ⟨path, rfl | rfl⟩ := hcalls a ha <;> simp [Action.isResume]

theorem syscallOpenat_one_check (cbs : TracerCallbacks) (k : Kernel) (regs : UserRegs) :
    (syscallOpenat cbs k regs).1.countP Action.isOpenCheck = 1 := by
  obtain ⟨calls, hlog, hcalls⟩ := syscallOpenat_log cbs k regs
  have hrest : calls.countP Action.isOpenCheck = 0 := by
    rw [List.countP_eq_zero]
    intro a ha
    obtain ⟨path, rfl | rfl⟩ := hcalls a ha <;> simp [Action.isOpenCheck]
  rw [hlog, List.countP_cons, hrest]
  rfl

theorem stopLog_one_check (cbs : TracerCallbacks) (k : Kernel) (regs : UserRegs) (check : Bool) :
    (stopLog cbs k regs check).countP Action.isOpenCheck = if check then 1 else 0 := by
  cases check
  · rfl
  · show (checkedLog cbs k regs).countP Action.isOpenCheck = 1
    rw [checkedLog, List.countP_append, syscallOpenat_one_check]
    rfl

/-- A stop that is handled is answered with one `PTRACE_SYSCALL`, last. -/
theorem stopLog_resumes_once (cbs : TracerCallbacks) (k : Kernel) (regs : UserRegs)
    (check : Bool) :
    (stopLog cbs k regs check).countP Action.isResume = 1
      ∧ (stopLog cbs k regs check).getLast? = some (.resume 0) := by
  cases check
  · exact ⟨rfl, rfl⟩
  · constructor
    · show (checkedLog cbs k regs).countP Action.isResume = 1
      rw [checkedLog, List.countP_append, syscallOpenat_no_resume]
      rfl
    · show (checkedLog cbs k regs).getLast? = _
      simp [checkedLog]

end Prom.Tracer
