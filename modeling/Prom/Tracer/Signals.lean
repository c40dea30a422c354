/-
  Prom.Tracer.Signals — which signal a stopped tracee is resumed with.

  Under PTRACE_SEIZE and PTRACE_O_TRACESYSGOOD the kernel reports four kinds
  of stops.  They differ in the signal and the event bits of the status word;
  `handle_stopped` switches on the signal alone:

      kind of stop               status word               resumed with
      delivery of s              s                         s, but 0 for SIGTRAP
                                                           and SIGCONT
      syscall                    SIGTRAP | 0x80            0
      event e (FORK, EXIT, ..)   SIGTRAP, e << 16          0
      group stop by s            s, PTRACE_EVENT_STOP      at once, with s

  Main results:
    * `tracerLoop_resumes` — the table above, for one poll.
    * `run_resumes` — the table above, along any run.
    * `signals_not_transparent` — what transparency would ask for, and does
      not get: a delivered SIGTRAP, a delivered SIGCONT, a group stop.
-/
import Prom.Tracer.SingleTracee

namespace Prom.Tracer

/-! ## §1. The kinds of stops. -/

/-- The signals that start a group stop. -/
def stopping (s : Nat) : Bool := s == SIGSTOP || s == SIGTSTP || s == SIGTTIN || s == SIGTTOU

/-- What the kernel reports about a stopped tracee. -/
inductive StopKind where
  /-- A signal is about to be delivered: no event bits. -/
  | delivery (s : Signal)
  /-- A syscall entry or exit. -/
  | syscall
  /-- A ptrace event; PTRACE_EVENT_STOP outside a group stop is one of them. -/
  | event (number : { e : Nat // 0 < e })
  /-- A group stop: PTRACE_EVENT_STOP with a stopping signal. -/
  | group (s : { s : Nat // stopping s = true })

/-- The status word `waitpid` stores. -/
def StopKind.status : StopKind → Nat
  | .delivery s => stopStatus s.1 0
  | .syscall => stopStatus (SIGTRAP + 0x80) 0
  | .event number => stopStatus SIGTRAP number.1
  | .group s => stopStatus s.1 PTRACE_EVENT_STOP

/-- A stop of one of the tracees, with what the kernel answers meanwhile. -/
structure Report where
  pid : Pid
  kind : StopKind
  regs : UserRegs
  mem : TraceeMem

/-- The kernel's answers: all requests succeed. -/
def Report.kernel (r : Report) : Kernel := obliging r.regs r.mem

/-! ## §2. Runs. -/

/-- The handler's requests at each stop of a run. -/
def runReports (cbs : TracerCallbacks) : Word → List Report → List (Report × List Action)
  | _, [] => []
  | last, r :: rest =>
      let h := tracerLoop cbs r.kernel (.child r.pid r.kind.status) last
      (r, h.log) :: runReports cbs h.last_syscall rest

/-- The signals a handler resumed the tracee with. -/
def resumedWith (log : List Action) : List Nat :=
  log.filterMap fun
    | .resume s => some s
    | _ => none

/-- A signal-delivery stop is resumed with exactly the signal. -/
def DeliveredAsIs (r : Report) (log : List Action) : Prop :=
  ∀ s, r.kind = .delivery s → resumedWith log = [s.1]

/-- A syscall stop or an event stop is resumed with no signal. -/
def ResumedPlain (r : Report) (log : List Action) : Prop :=
  (r.kind = .syscall ∨ ∃ e, r.kind = .event e) → resumedWith log = [0]

/-- A tracee in a group stop is left stopped. -/
def LeftStopped (r : Report) (log : List Action) : Prop :=
  ∀ s, r.kind = .group s → resumedWith log = []

/-- Signals and job control as without a tracer. -/
def Transparent (out : List (Report × List Action)) : Prop :=
  ∀ o ∈ out, DeliveredAsIs o.1 o.2 ∧ ResumedPlain o.1 o.2 ∧ LeftStopped o.1 o.2

/-! ## §3. One poll. -/

/-- The signal the tracee is resumed with. -/
def StopKind.answer : StopKind → Nat
  | .delivery s => if s.1 = SIGTRAP ∨ s.1 = SIGCONT then 0 else s.1
  | .syscall => 0
  | .event _ => 0
  | .group s => s.1

/-- The stopping signals are signals, and none of those the dispatch treats
apart. -/
theorem stopping_signal {s : Nat} (h : stopping s = true) :
    (0 < s ∧ s ≤ 64) ∧ ¬(s = SIGTRAP ∨ s = SIGCONT) := by
  simp only [stopping, Bool.or_eq_true, beq_iff_eq] at h
  rcases h with ((rfl | rfl) | rfl) | rfl <;> decide

/-- `handle_syscalls` resumes once, with no signal, whatever is installed. -/
theorem handleSyscalls_resumes (cbs : TracerCallbacks) {k : Kernel} {regs : UserRegs}
    (hget : k.getregs = .ok regs) (hset : k.setregsOk = true) (last : Word) :
    resumedWith (handleSyscalls cbs k last).log = [0] := by
  simp only [handleSyscalls, hget, hset, if_true]
  -- the callbacks do not resume the tracee
  have hcb : ∀ tail, resumedWith ((runSyscallCb cbs (toggle last regs.orig_rax) regs).1 ++ tail)
      = resumedWith tail := by
    intro tail
    unfold runSyscallCb
    cases cbs.syscall with
    | none => rfl
    | some f =>
        by_cases ht : toggle last regs.orig_rax ≠ -1
        · simp only [if_pos ht]; rfl
        · simp only [if_neg ht]; rfl
  rw [List.append_assoc, hcb]
  unfold runOpenCheck
  split
  · obtain ⟨calls, hlog, hcalls⟩ := syscallOpenat_log cbs k
      (runSyscallCb cbs (toggle last regs.orig_rax) regs).2
    rw [hlog, List.cons_append]
    show (calls ++ _).filterMap _ = _
    rw [List.filterMap_append,
      List.filterMap_eq_nil_iff.mpr (fileCalls_unseen (fun _ => ⟨rfl, rfl⟩) hcalls)]
    rfl
  · rfl

/-- **One poll.**  A stopped tracee is resumed once, with the signal of the
table. -/
theorem tracerLoop_resumes (cbs : TracerCallbacks) {k : Kernel} {regs : UserRegs}
    (hget : k.getregs = .ok regs) (hset : k.setregsOk = true) (p : Pid) (kind : StopKind)
    (last : Word) :
    resumedWith (tracerLoop cbs k (.child p kind.status) last).log = [kind.answer] := by
  cases kind with
  | delivery s =>
      show resumedWith (tracerLoop cbs _ (.child p (stopStatus s.1 0)) last).log = _
      rw [tracerLoop_signal, handleStopped_answer]
      rfl
  | syscall =>
      show resumedWith (tracerLoop cbs _ (.child p (stopStatus (SIGTRAP + 0x80) 0)) last).log = _
      rw [tracerLoop_syscall]
      exact handleSyscalls_resumes cbs hget hset last
  | event number =>
      have htrap : 0 < SIGTRAP ∧ SIGTRAP ≤ 64 := by decide
      show resumedWith (tracerLoop cbs _
        (.child p (stopStatus (⟨SIGTRAP, htrap⟩ : Signal).1 number.1)) last).log = _
      rw [tracerLoop_signal, handleStopped_answer]
      rfl
  | group s =>
      obtain ⟨hsig, hplain⟩ := stopping_signal s.2
      show resumedWith (tracerLoop cbs _
        (.child p (stopStatus (⟨s.1, hsig⟩ : Signal).1 PTRACE_EVENT_STOP)) last).log = _
      rw [tracerLoop_signal, handleStopped_answer, if_neg hplain]
      rfl

/-! ## §4. Runs. -/

/-- **Run lemma.**  Every stop of a run is answered by the table. -/
theorem run_resumes (cbs : TracerCallbacks) :
    ∀ (rs : List Report) (last : Word), ∀ o ∈ runReports cbs last rs,
      resumedWith o.2 = [o.1.kind.answer]
  | [], _, o, ho => absurd ho (by simp [runReports])
  | r :: rest, last, o, ho => by
      rcases List.mem_cons.mp ho with rfl | ho
      · exact tracerLoop_resumes cbs rfl rfl r.pid r.kind last
      · exact run_resumes cbs rest _ o ho

/-- **SIGNALS, AS THE TRACER PASSES THEM ON.**  Along every run of any number
of tracees and for every callback table, at every signal-delivery stop with a
signal other than SIGTRAP and SIGCONT the tracee is resumed with exactly that
signal, and with none when it is SIGTRAP or SIGCONT; at every syscall stop and
event stop it is resumed with no signal; in a group stop it is resumed at
once. -/
theorem signals_passed_on (cbs : TracerCallbacks) (last : Word) (rs : List Report) :
    ∀ o ∈ runReports cbs last rs,
      (∀ s, o.1.kind = .delivery s → s.1 ≠ SIGTRAP → s.1 ≠ SIGCONT → resumedWith o.2 = [s.1])
        ∧ (∀ s, o.1.kind = .delivery s → s.1 = SIGTRAP ∨ s.1 = SIGCONT → resumedWith o.2 = [0])
        ∧ ResumedPlain o.1 o.2
        ∧ (∀ s, o.1.kind = .group s → resumedWith o.2 = [s.1]) := by
  intro o ho
  rw [ResumedPlain, run_resumes cbs rs last o ho]
  refine ⟨?_, ?_, ?_, ?_⟩
  · intro s hs htrap hcont
    rw [hs, StopKind.answer, if_neg (by rintro (h | h) <;> contradiction)]
  · intro s hs hspecial
    rw [hs, StopKind.answer, if_pos hspecial]
  · rintro (hs | ⟨e, hs⟩) <;> rw [hs] <;> rfl
  · intro s hs
    rw [hs]
    rfl

/-- The run of one tracee through one stop. -/
def oneStop (kind : StopKind) : List (Report × List Action) :=
  runReports {} (-1) [⟨7, kind, {}, fun _ => none⟩]

/-- A delivered SIGUSR1 (10) is passed on. -/
theorem sigusr1_passed_on :
    ∃ o ∈ oneStop (.delivery ⟨10, by decide⟩), resumedWith o.2 = [10] :=
  ⟨_, List.mem_cons_self, (signals_passed_on {} (-1)
    [⟨7, .delivery ⟨10, by decide⟩, {}, fun _ => none⟩] _ List.mem_cons_self).1 ⟨10, by decide⟩ rfl
      (by decide) (by decide)⟩

/-- A one-stop run is transparent only if its stop is answered as a
transparent tracer would. -/
theorem oneStop_transparent {kind : StopKind} (h : Transparent (oneStop kind)) :
    (∀ s, kind = .delivery s → kind.answer = s.1) ∧ (∀ s, kind ≠ .group s) := by
  have hrun := run_resumes {} [⟨7, kind, {}, fun _ => none⟩] (-1)
  obtain ⟨o, ho, hkind⟩ : ∃ o ∈ oneStop kind, o.1.kind = kind := ⟨_, List.mem_cons_self, rfl⟩
  obtain ⟨hdeliver, -, hgroup⟩ := h o ho
  have hlog := hrun o ho
  rw [hkind] at hlog
  constructor
  · intro s hs
    have hs' := hdeliver s (hkind.trans hs)
    rw [hlog] at hs'
    exact (List.cons.inj hs').1
  · intro s hs
    have hs' := hgroup s (hkind.trans hs)
    rw [hlog] at hs'
    exact absurd hs' (by simp)

/-- **Not transparent**: a delivered SIGTRAP and a delivered SIGCONT are
swallowed, and a tracee in a group stop is made to run at once. -/
theorem signals_not_transparent :
    ((oneStop (.delivery ⟨SIGTRAP, by decide⟩)).map Prod.snd = [[.resume 0]]
        ∧ ¬ Transparent (oneStop (.delivery ⟨SIGTRAP, by decide⟩)))
      ∧ ((oneStop (.delivery ⟨SIGCONT, by decide⟩)).map Prod.snd = [[.resume 0]]
        ∧ ¬ Transparent (oneStop (.delivery ⟨SIGCONT, by decide⟩)))
      ∧ ((oneStop (.group ⟨SIGTSTP, by decide⟩)).map Prod.snd = [[.resume SIGTSTP]]
        ∧ ¬ Transparent (oneStop (.group ⟨SIGTSTP, by decide⟩))) := by
  refine ⟨⟨by decide, fun h => ?_⟩, ⟨by decide, fun h => ?_⟩, ⟨by decide, fun h => ?_⟩⟩
  · exact absurd ((oneStop_transparent h).1 _ rfl) (by decide)
  · exact absurd ((oneStop_transparent h).1 _ rfl) (by decide)
  · exact (oneStop_transparent h).2 _ rfl

end Prom.Tracer
