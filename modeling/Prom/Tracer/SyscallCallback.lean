/-
  Prom.Tracer.SyscallCallback — how often the syscall callback is called.

  The callback may overwrite any register, the number among them, and the exit
  of a syscall reports the number that was written back at its entry.  The
  handler tells an exit by the number that it read BEFORE the callback: a
  callback that changes it makes the exit look like an entry.

  Here a tracee with an installed callback is run against the tracer loop, with
  an answer of the callbacks of its own at every stop.

  Main results:
    * `observeCall_entry`, `observeCall_exit` — one stop.
    * `callback_once_iff` — the runs in which the callback is called once at
      every entry and at no exit.
-/
import Prom.Tracer.OpenPolicy
import Prom.Tracer.SingleTracee

namespace Prom.Tracer

/-! ## §1. A stop with a callback. -/

/-- A syscall stop, with the memory, the allocations and the answers of the
callbacks of that moment; the syscall callback is installed. -/
structure CallStop where
  regs : UserRegs
  syscall : UserRegs → UserRegs
  file_read : Option (Path → Int) := none
  file_write : Option (Path → Int) := none
  mem : TraceeMem := fun _ => none
  allocOk : Nat → Bool := fun _ => true

/-- The number the tracee asks for. -/
def CallStop.number (s : CallStop) : Word := s.regs.orig_rax

/-- The callbacks at the stop. -/
def CallStop.cbs (s : CallStop) : TracerCallbacks :=
  { file_read := s.file_read, file_write := s.file_write, syscall := some s.syscall }

/-- The kernel at the stop, reporting `regs`; its requests succeed. -/
def CallStop.kernel (s : CallStop) (regs : UserRegs) : Kernel :=
  { getregs := .ok regs, mem := s.mem, allocOk := s.allocOk }

/-- Whether an action calls the syscall callback. -/
def Action.isSyscallCb : Action → Bool
  | .syscallCb _ => true
  | _ => false

/-- One stop, from the wait status to the state after it. -/
def observeCall (p : Pid) (t : Tracking) (s : CallStop) : Obs :=
  let reported := t.phase.report s.regs
  let h := tracerLoop s.cbs (s.kernel reported) (.child p (stopStatus (SIGTRAP + 0x80) 0)) t.last
  ⟨some t.phase, reported, h.log, h.ret, ⟨h.last_syscall, t.phase.advance reported h.log⟩⟩

/-- A run: one observation per stop. -/
def runCalls (p : Pid) : Tracking → List CallStop → List Obs
  | _, [] => []
  | t, s :: rest => observeCall p t s :: runCalls p (observeCall p t s).after rest

/-! ## §2. What one stop does. -/

section Step

variable {cbs : TracerCallbacks} {k : Kernel} {last : Word} {regs : UserRegs}

/-- The open check calls no syscall callback and writes nothing back. -/
theorem runOpenCheck_log {syscall : Word} {a : Action}
    (ha : a ∈ (runOpenCheck cbs k last syscall regs).1) :
    a.isSyscallCb = false ∧ a.isSetregs = false := by
  rw [runOpenCheck] at ha
  split at ha
  · obtain ⟨calls, hlog, hcalls⟩ := syscallOpenat_log cbs k regs
    rw [hlog] at ha
    rcases List.mem_cons.mp ha with rfl | ha
    · exact ⟨rfl, rfl⟩
    · obtain ⟨path, rfl | rfl⟩ := hcalls a ha
      · exact ⟨rfl, rfl⟩
      · exact ⟨rfl, rfl⟩
  · cases ha

/-- What is written back is the last thing but one. -/
theorem writtenBack_append {before rest : List Action}
    (h : ∀ a ∈ before, a.isSetregs = false) : writtenBack (before ++ rest) = writtenBack rest := by
  induction before with
  | nil => rfl
  | cons a before ih =>
    have hrest := ih fun b hb => h b (List.mem_cons_of_mem _ hb)
    have ha := h a List.mem_cons_self
    cases a with
    | setregs regs => cases ha
    | syscallCb _ => exact hrest
    | openCheck => exact hrest
    | fileRead _ => exact hrest
    | fileWrite _ => exact hrest
    | resume _ => exact hrest

/-- **One call**: the callback, the open check, the registers written back. -/
theorem handleSyscalls_eq (hget : k.getregs = .ok regs) (hset : k.setregsOk = true) :
    handleSyscalls cbs k last =
      ⟨toggle last regs.orig_rax,
       (runSyscallCb cbs (toggle last regs.orig_rax) regs).1 ++
         ((runOpenCheck cbs k (toggle last regs.orig_rax) regs.orig_rax
            (regsAfterCb cbs last regs)).1 ++
          [.setregs (denyRegs (runOpenCheck cbs k (toggle last regs.orig_rax) regs.orig_rax
            (regsAfterCb cbs last regs)).2 (regsAfterCb cbs last regs)), .resume 0]),
       k.resumeRet⟩ := by
  rw [← runSyscallCb_regs]
  simp only [handleSyscalls, hget, hset, if_true, List.append_assoc]

/-- The callback is called when the stop is taken for an entry. -/
theorem count_syscallCb {f : UserRegs → UserRegs} (hcb : cbs.syscall = some f)
    (hget : k.getregs = .ok regs) (hset : k.setregsOk = true) :
    (handleSyscalls cbs k last).log.countP Action.isSyscallCb =
      if last ≠ regs.orig_rax ∧ regs.orig_rax ≠ -1 then 1 else 0 := by
  have hcheck : (runOpenCheck cbs k (toggle last regs.orig_rax) regs.orig_rax
      (regsAfterCb cbs last regs)).1.countP Action.isSyscallCb = 0 := by
    refine List.countP_eq_zero.mpr fun a ha => ?_
    rw [(runOpenCheck_log ha).1]
    exact Bool.false_ne_true
  rw [handleSyscalls_eq hget hset]
  simp only [List.countP_append, hcheck, runSyscallCb, hcb, toggle_ne_neg_one]
  split <;> rfl

theorem handleSyscalls_written (hget : k.getregs = .ok regs) (hset : k.setregsOk = true) :
    writtenBack (handleSyscalls cbs k last).log =
      some (denyRegs (runOpenCheck cbs k (toggle last regs.orig_rax) regs.orig_rax
        (regsAfterCb cbs last regs)).2 (regsAfterCb cbs last regs)) := by
  rw [handleSyscalls_eq hget hset, writtenBack_append, writtenBack_append]
  · rfl
  · exact fun a ha => (runOpenCheck_log ha).2
  · intro a ha
    rw [runSyscallCb_log ha]
    rfl

theorem runOpenCheck_verdict {n : Word} (hn : n ≠ -1) :
    (runOpenCheck cbs k n n regs).2 = if n = SYS_openat then (syscallOpenat cbs k regs).2 else 0 := by
  rw [runOpenCheck]
  by_cases hopen : n = SYS_openat
  · rw [if_pos ⟨hopen, hn⟩, if_pos hopen]
  · rw [if_neg fun h => hopen h.1, if_neg hopen]

end Step

/-- The number left by an entry: `-1` after a denial, else what the callback
made of it. -/
def CallStop.left (s : CallStop) : Word :=
  (denyRegs (if s.number = SYS_openat
      then (syscallOpenat s.cbs (s.kernel s.regs) (s.syscall s.regs)).2 else 0)
    (s.syscall s.regs)).orig_rax

section Stop

variable {p : Pid} {last left : Word} {s : CallStop}

/-- An entry, the memory being reset, of a syscall that is not `-1`. -/
theorem observeCall_entry (hn : s.number ≠ -1) :
    (observeCall p ⟨-1, .outside⟩ s).log.countP Action.isSyscallCb = 1 ∧
      (observeCall p ⟨-1, .outside⟩ s).phase = some .outside ∧
      (observeCall p ⟨-1, .outside⟩ s).after = ⟨s.number, .inside s.left⟩ := by
  have hget : (s.kernel s.regs).getregs = .ok s.regs := rfl
  have hne : (-1 : Word) ≠ s.regs.orig_rax := Ne.symm hn
  have hcalled : (-1 : Word) ≠ s.regs.orig_rax ∧ s.regs.orig_rax ≠ -1 := ⟨hne, hn⟩
  have hafter : regsAfterCb s.cbs (-1) s.regs = s.syscall s.regs := if_pos hcalled
  have hwritten : writtenBack (handleSyscalls s.cbs (s.kernel s.regs) (-1)).log = _ :=
    handleSyscalls_written hget rfl
  rw [toggle_ne hne, hafter, runOpenCheck_verdict (show s.regs.orig_rax ≠ -1 from hn)] at hwritten
  refine ⟨?_, rfl, ?_⟩
  · show (tracerLoop s.cbs (s.kernel s.regs) _ (-1)).log.countP _ = 1
    rw [tracerLoop_syscall, count_syscallCb rfl hget rfl, if_pos hcalled]
  · show Tracking.mk (tracerLoop s.cbs (s.kernel s.regs) _ (-1)).last_syscall
      (Phase.advance .outside s.regs (tracerLoop s.cbs (s.kernel s.regs) _ (-1)).log) = _
    rw [tracerLoop_syscall, Phase.advance, hwritten, handleSyscalls_eq hget rfl, toggle_ne hne,
      Option.getD_some]
    rfl

/-- An exit. -/
theorem observeCall_exit :
    (observeCall p ⟨last, .inside left⟩ s).log.countP Action.isSyscallCb =
        (if last ≠ left ∧ left ≠ -1 then 1 else 0) ∧
      (observeCall p ⟨last, .inside left⟩ s).phase = some (.inside left) ∧
      (observeCall p ⟨last, .inside left⟩ s).after = ⟨toggle last left, .outside⟩ := by
  have hget : (s.kernel { s.regs with orig_rax := left }).getregs =
      .ok { s.regs with orig_rax := left } := rfl
  refine ⟨?_, rfl, ?_⟩
  · show (tracerLoop s.cbs (s.kernel { s.regs with orig_rax := left }) _ last).log.countP _ = _
    rw [tracerLoop_syscall, count_syscallCb rfl hget rfl]
  · show Tracking.mk
      (tracerLoop s.cbs (s.kernel { s.regs with orig_rax := left }) _ last).last_syscall _ = _
    rw [tracerLoop_syscall, handleSyscalls_eq hget rfl]
    rfl

end Stop

/-! ## §3. The runs. -/

/-- The callback keeps the number of the syscall, or makes it `-1`; a denied
open is `-1` in any case. -/
def CallStop.KeepsNumber (s : CallStop) : Prop :=
  (s.syscall s.regs).orig_rax = s.number ∨ (s.syscall s.regs).orig_rax = -1 ∨
    s.number = SYS_openat ∧ (syscallOpenat s.cbs (s.kernel s.regs) (s.syscall s.regs)).2 = -1

/-- What the stops of a run have to be, one entry and one exit after the other:
no entry has the number `-1`, and none that has an exit changes its number. -/
def NumbersKept : List CallStop → Prop
  | [] => True
  | [entry] => entry.number ≠ -1
  | entry :: _ :: rest => entry.number ≠ -1 ∧ entry.KeepsNumber ∧ NumbersKept rest

/-- Called once at an entry, and not at an exit. -/
def Obs.CalledOnce (o : Obs) : Prop :=
  o.log.countP Action.isSyscallCb = if o.isEntry then 1 else 0

section Runs

variable {p : Pid} {left : Word} {s : CallStop}

theorem keepsNumber_iff : s.KeepsNumber ↔ s.left = s.number ∨ s.left = -1 := by
  rw [CallStop.KeepsNumber, CallStop.left]
  by_cases hdeny : s.number = SYS_openat ∧
      (syscallOpenat s.cbs (s.kernel s.regs) (s.syscall s.regs)).2 = -1
  · rw [denyRegs, if_pos (by rw [if_pos hdeny.1]; exact hdeny.2)]
    exact ⟨fun _ => .inr rfl, fun _ => .inr (.inr hdeny)⟩
  · have hperm : (if s.number = SYS_openat
        then (syscallOpenat s.cbs (s.kernel s.regs) (s.syscall s.regs)).2 else 0) ≠ -1 := by
      split
      · rename_i hopen
        exact fun hv => hdeny ⟨hopen, hv⟩
      · decide
    rw [denyRegs, if_neg hperm]
    simp only [hdeny, or_false]

/-- An entry with the number `-1` is taken for an exit. -/
theorem entry_uncalled (hn : s.number = -1) : ¬ (observeCall p ⟨-1, .outside⟩ s).CalledOnce := by
  have hcount : (observeCall p ⟨-1, .outside⟩ s).log.countP Action.isSyscallCb = 0 := by
    show (tracerLoop s.cbs (s.kernel s.regs) _ (-1)).log.countP _ = 0
    have hget : (s.kernel s.regs).getregs = .ok s.regs := rfl
    rw [tracerLoop_syscall, count_syscallCb rfl hget rfl, if_neg fun h => h.1 hn.symm]
  intro h
  rw [Obs.CalledOnce, hcount] at h
  cases h

/-- An entry with another number is called. -/
theorem entry_called (hn : s.number ≠ -1) : (observeCall p ⟨-1, .outside⟩ s).CalledOnce :=
  (observeCall_entry hn).1

/-- An exit is called unless it reports what was stored, or `-1`. -/
theorem exit_called {last : Word} :
    (observeCall p ⟨last, .inside left⟩ s).CalledOnce ↔ left = last ∨ left = -1 := by
  show (observeCall p ⟨last, .inside left⟩ s).log.countP _ = 0 ↔ _
  rw [observeCall_exit.1]
  split
  · rename_i hcalled
    exact ⟨fun h => (by cases h), fun h => h.elim (absurd ·.symm hcalled.1) (absurd · hcalled.2)⟩
  · rename_i hno
    refine ⟨fun _ => ?_, fun _ => rfl⟩
    by_contra hor
    obtain ⟨hne, hneg⟩ := not_or.mp hor
    exact hno ⟨Ne.symm hne, hneg⟩

/-- And then the memory is reset. -/
theorem exit_resets {last : Word} (h : left = last ∨ left = -1) :
    (observeCall p ⟨last, .inside left⟩ s).after = ⟨-1, .outside⟩ := by
  rw [observeCall_exit.2.2]
  rcases h with rfl | rfl
  · rw [toggle_self]
  · rw [toggle_neg_one]

end Runs

/-- **In which runs the syscall callback is called once per syscall, before it.** -/
theorem callback_once_iff (p : Pid) (stops : List CallStop) :
    (∀ o ∈ runCalls p ⟨-1, .outside⟩ stops, o.CalledOnce) ↔ NumbersKept stops := by
  -- two stops at a time: the memory is reset before every entry
  induction stops using NumbersKept.induct with
  | case1 => exact ⟨fun _ => trivial, fun _ o ho => absurd ho List.not_mem_nil⟩
  | case2 entry =>
    constructor
    · intro h hn
      exact entry_uncalled hn (h _ List.mem_cons_self)
    · intro hn o ho
      rw [List.mem_singleton.mp ho]
      exact entry_called hn
  | case3 entry exit rest ih =>
    by_cases hn : entry.number = -1
    · refine ⟨fun h => absurd (h _ List.mem_cons_self) (entry_uncalled hn), fun h => absurd hn h.1⟩
    · have hafter := (observeCall_entry (p := p) hn).2.2
      rw [runCalls, hafter, runCalls, List.forall_mem_cons, List.forall_mem_cons, exit_called,
        NumbersKept, keepsNumber_iff]
      constructor
      · rintro ⟨-, hkept, hrest⟩
        rw [exit_resets hkept] at hrest
        exact ⟨hn, hkept, ih.mp hrest⟩
      · rintro ⟨-, hkept, hrest⟩
        refine ⟨entry_called hn, hkept, ?_⟩
        rw [exit_resets hkept]
        exact ih.mpr hrest

/-- A `getpid` that the callback makes a `getuid`. -/
def renumbered : CallStop where
  regs := { orig_rax := 39 }
  syscall regs := { regs with orig_rax := 102 }

/-- The callback is called at the exit, too. -/
theorem callback_at_exit :
    ¬ ∀ (p : Pid) (stops : List CallStop),
      ∀ o ∈ runCalls p ⟨-1, .outside⟩ stops, o.CalledOnce := by
  intro h
  have hexit := h 1 [renumbered, renumbered] _ (List.mem_cons_of_mem _ List.mem_cons_self)
  rw [(observeCall_entry (p := 1) (s := renumbered) (by decide)).2.2, exit_called] at hexit
  revert hexit
  decide

end Prom.Tracer
