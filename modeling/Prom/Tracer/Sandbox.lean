/-
  Prom.Tracer.Sandbox — what tracing does to the traced programs.

  `tracer.h` promises that a callback which returns 0 lets the program go on
  and that one which returns -1 makes the call fail with "permission denied".
  Here the traced programs run: their code, the system calls the kernel does
  for them and everything they share are a `Guest`, the stops they report wait
  until the loop polls them, and what the loop writes back and resumes them
  with is what they go on with.  Each poll has answers of its own: any ptrace
  request and any allocation of the tracer may be refused.

  Three machines move the same guest:

      watched   the loop of `tracer.c`, with its one `last_syscall`
      boxed     what `tracer.h` promises: every `openat` is answered by the
                callbacks, on the path it names; signals as the loop passes
                them on
      native    no tracer: every signal is delivered, a group stop lasts

  Main results:
    * `watched_is_boxed` — the loop keeps the promise on every run in which no
      tracee is disturbed inside an `openat`, nothing is refused to the tracer
      and the paths can be read.
    * `watched_is_native` — callbacks that deny nothing leave no trace on the
      programs, as long as no SIGTRAP, no SIGCONT and no group stop is polled
      and no ptrace request fails.
    * `opens_vetted` — what the promise is worth: an `openat` that reaches the
      kernel was shown to every selected callback, and none denied.
-/
import Prom.C.Machine
import Prom.Tracer.OpenPolicy
import Prom.Tracer.Interleaving
import Prom.Tracer.Signals

namespace Prom.Tracer

open Prom.C

/-! ## §1. The traced programs. -/

/-- Why a tracee stops in user mode. -/
inductive UserHalt where
  /-- A signal is about to be delivered. -/
  | delivery (s : Signal)
  /-- A group stop. -/
  | group (s : { s : Nat // stopping s = true })
  /-- A ptrace event, such as the first stop of a new child. -/
  | event (number : { e : Nat // 0 < e })
  /-- It enters a syscall. -/
  | entry

/-- Why a tracee stops inside a syscall. -/
inductive KernelHalt where
  /-- A ptrace event: a child was created, the process exits. -/
  | event (number : { e : Nat // 0 < e })
  /-- The syscall is done. -/
  | exit

/-- What the kernel reports of the stop. -/
def UserHalt.kind : UserHalt → StopKind
  | .delivery s => .delivery s
  | .group s => .group s
  | .event number => .event number
  | .entry => .syscall

def KernelHalt.kind : KernelHalt → StopKind
  | .event number => .event number
  | .exit => .syscall

/-- A tracee.  Its registers are its own; `none` is a tracee that has not run
yet.  Inside a syscall, `asked` is the number it was entered with. -/
inductive Task where
  | user (regs : Option UserRegs)
  | kernel (asked : Word) (regs : UserRegs)
  | userStop (why : UserHalt) (regs : UserRegs)
  | kernelStop (asked : Word) (why : KernelHalt) (regs : UserRegs)
  /-- Stopped, its status taken, and not resumed: no status will come again. -/
  | stuck
  | dead

/-- The stop a tracee waits in, with the registers it reports. -/
def Task.stop? : Task → Option (StopKind × UserRegs)
  | .userStop why regs => some (why.kind, regs)
  | .kernelStop _ why regs => some (why.kind, regs)
  | _ => none

/-- The programs and the kernel behind them.  `Γ` is all they share: memories,
files, pipes, the processes' relations. -/
structure Guest (Γ : Type) where
  /-- User code, up to its next stop; `none` when it cannot run now. -/
  user : Pid → Option UserRegs → Γ → Option (UserHalt × UserRegs × Γ)
  /-- A syscall, up to its next stop; `none` while it blocks. -/
  kernel : Pid → UserRegs → Γ → Option (KernelHalt × UserRegs × Γ)
  /-- Resuming with a signal. -/
  inject : Pid → Nat → UserRegs → Γ → UserRegs × Γ
  /-- The memory of a tracee. -/
  mem : Pid → Γ → TraceeMem
  /-- The kernel keeps the number of a syscall, or stores the -1 of a
  `sigreturn`. -/
  kernel_number : ∀ p regs g why regs' g', kernel p regs g = some (why, regs', g') →
    regs'.orig_rax = regs.orig_rax ∨ regs'.orig_rax = -1

/-- What the tracer is answered while it handles one stop. -/
structure Answers where
  /-- `PTRACE_GETREGS`: the errno of a failure. -/
  getregsErr : Option Nat := none
  /-- `PTRACE_SETREGS` succeeds. -/
  setregsOk : Bool := true
  /-- `PTRACE_SYSCALL` succeeds. -/
  resumeOk : Bool := true
  /-- Whether the `k`-th `malloc`/`realloc` succeeds. -/
  allocOk : Nat → Bool := fun _ => true

/-- The kernel while a tracee with these registers and this memory is stopped. -/
def Answers.kernel (a : Answers) (regs : UserRegs) (mem : TraceeMem) : Kernel where
  getregs := match a.getregsErr with
    | none => .ok regs
    | some e => .error e
  setregsOk := a.setregsOk
  resumeOk := a.resumeOk
  mem := mem
  allocOk := a.allocOk

/-- What can happen next. -/
inductive Move where
  /-- A tracee runs up to its next stop. -/
  | run (p : Pid)
  /-- The loop gets the status of this tracee. -/
  | poll (p : Pid) (answers : Answers)
  /-- A tracee is killed.  Its status is not a stop. -/
  | death (p : Pid)

/-- What is seen of a run. -/
inductive Seen where
  /-- A file callback is called. -/
  | call (p : Pid) (a : Action)
  /-- The kernel gets a syscall to execute. -/
  | enter (p : Pid) (regs : UserRegs)
  deriving Repr, DecidableEq

section Guests

variable {Γ : Type} (G : Guest Γ)

/-- A tracee runs. -/
def runTask (p : Pid) (task : Task) (g : Γ) : Task × Γ :=
  match task with
  | .user regs =>
      match G.user p regs g with
      | some (why, regs, g) => (.userStop why regs, g)
      | none => (task, g)
  | .kernel asked regs =>
      match G.kernel p regs g with
      | some (why, regs, g) => (.kernelStop asked why regs, g)
      | none => (task, g)
  | _ => (task, g)

/-- A stopped tracee is resumed with these registers and this signal.  A
syscall whose number is -1 by then is skipped. -/
def resumeTask (p : Pid) (task : Task) (sig : Nat) (regs : UserRegs) (g : Γ) :
    Task × Γ × List Seen :=
  match task with
  | .userStop .entry asked =>
      match enterSyscall regs with
      | .skipped _ => (.kernelStop asked.orig_rax .exit regs, g, [])
      | .executed regs => (.kernel asked.orig_rax regs, g, [.enter p regs])
  | .userStop _ _ =>
      if sig = 0 then (.user (some regs), g, [])
      else (.user (some (G.inject p sig regs g).1), (G.inject p sig regs g).2, [])
  | .kernelStop asked (.event _) _ => (.kernel asked regs, g, [])
  | .kernelStop _ .exit _ => (.user (some regs), g, [])
  | task => (task, g, [])

/-! ## §2. The loop. -/

/-- The tracer's memory, the tracees and what they share. -/
structure Watch (Γ : Type) where
  last : Word
  tasks : Pid → Task
  world : Γ

/-- An action is the call of a file callback. -/
def Action.isCall (a : Action) : Bool := a.isFileRead || a.isFileWrite

/-- One move, the loop being that of `tracer.c`. -/
def watchStep (cbs : TracerCallbacks) (s : Watch Γ) : Move → Watch Γ × List Seen
  | .run p =>
      let r := runTask G p (s.tasks p) s.world
      ({ s with tasks := Function.update s.tasks p r.1, world := r.2 }, [])
  | .death p => ({ s with tasks := Function.update s.tasks p .dead }, [])
  | .poll p answers =>
      match (s.tasks p).stop? with
      | none => (s, [])
      | some (kind, regs) =>
          let k := answers.kernel regs (G.mem p s.world)
          let h := tracerLoop cbs k (.child p kind.status) s.last
          let calls := (h.log.filter Action.isCall).map (Seen.call p)
          match resumedWith h.log, answers.resumeOk with
          | sig :: _, true =>
              let r := resumeTask G p (s.tasks p) sig ((writtenBack h.log).getD regs) s.world
              (⟨h.last_syscall, Function.update s.tasks p r.1, r.2.1⟩, calls ++ r.2.2)
          -- the handler returned before it, or the request failed
          | _, _ => (⟨h.last_syscall, Function.update s.tasks p .stuck, s.world⟩, calls)

/-- The traced programs under the loop. -/
def watched (cbs : TracerCallbacks) : Machine (Watch Γ) Move Seen := ⟨watchStep G cbs⟩

end Guests

/-! ## §3. What the loop is meant to do. -/

open Classical in
/-- The path an `openat` names: the string in the tracee's memory that `rsi`
points at. -/
noncomputable def pathNamed (mem : TraceeMem) (regs : UserRegs) : Option Path :=
  if h : ∃ path, StringAt mem regs.rsi path then some h.choose else none

/-- The registers of a call that is refused: no syscall, and "operation not
permitted" for its result. -/
def refused (regs : UserRegs) : UserRegs := { regs with orig_rax := negEPERM, rax := negEPERM }

instance (cbs : TracerCallbacks) (regs : UserRegs) (path : Path) :
    Decidable (Denies cbs regs path) :=
  inferInstanceAs (Decidable (∃ c ∈ selectedCallbacks cbs regs, c.1 path = -1))

/-- An open is shown to the callbacks that its flags select; it is refused when
one of them returns -1. -/
noncomputable def answerOpen (cbs : TracerCallbacks) (mem : TraceeMem) (regs : UserRegs) :
    List Action × UserRegs :=
  match pathNamed mem regs with
  | some path =>
      ((selectedCallbacks cbs regs).map (fun c => c.2 path),
        if Denies cbs regs path then refused regs else regs)
  | none => ([], regs)

/-- A tracee is entering `openat`. -/
def Task.opens : Task → Bool
  | .userStop .entry regs => regs.orig_rax == SYS_openat
  | _ => false

/-- The tracees and what they share. -/
structure Box (Γ : Type) where
  tasks : Pid → Task
  world : Γ

/-- What a stop is answered with, by a policy: the callbacks called, and the
registers the tracee goes on with. -/
abbrev Policy := TraceeMem → Task → UserRegs → List Action × UserRegs

/-- The promise of `tracer.h`. -/
noncomputable def vetOpens (cbs : TracerCallbacks) : Policy := fun mem task regs =>
  if task.opens then answerOpen cbs mem regs else ([], regs)

section Guests

variable {Γ : Type} (G : Guest Γ)

/-- One move under a policy: no memory but the tracees' own, and nothing is
refused. -/
def policyStep (policy : Policy) (s : Box Γ) : Move → Box Γ × List Seen
  | .run p =>
      let r := runTask G p (s.tasks p) s.world
      (⟨Function.update s.tasks p r.1, r.2⟩, [])
  | .death p => ({ s with tasks := Function.update s.tasks p .dead }, [])
  | .poll p _ =>
      match (s.tasks p).stop? with
      | none => (s, [])
      | some (kind, regs) =>
          let v := policy (G.mem p s.world) (s.tasks p) regs
          let r := resumeTask G p (s.tasks p) kind.answer v.2 s.world
          (⟨Function.update s.tasks p r.1, r.2.1⟩, v.1.map (Seen.call p) ++ r.2.2)

/-- The programs as `tracer.h` promises them to run. -/
noncomputable def boxed (cbs : TracerCallbacks) : Machine (Box Γ) Move Seen :=
  ⟨policyStep G (vetOpens cbs)⟩

/-- The signal that is due when a tracee goes on. -/
def StopKind.due : StopKind → Nat
  | .delivery s => s.1
  | _ => 0

/-- One move without a tracer.  Nobody waits for a poll then: it is the moment
at which the program goes on, its signal delivered, its syscall begun or done.
A program that was stopped stays so. -/
def nativeStep (s : Box Γ) : Move → Box Γ × List Seen
  | .run p =>
      let r := runTask G p (s.tasks p) s.world
      (⟨Function.update s.tasks p r.1, r.2⟩, [])
  | .death p => ({ s with tasks := Function.update s.tasks p .dead }, [])
  | .poll p _ =>
      match (s.tasks p).stop? with
      | none => (s, [])
      | some (.group _, _) => (s, [])
      | some (kind, regs) =>
          let r := resumeTask G p (s.tasks p) kind.due regs s.world
          (⟨Function.update s.tasks p r.1, r.2.1⟩, r.2.2)

/-- The programs without a tracer. -/
def native : Machine (Box Γ) Move Seen := ⟨nativeStep G⟩

end Guests

/-! ### What is refused to the tracer. -/

/-- Every ptrace request of the poll succeeds. -/
structure Answers.Granted (a : Answers) : Prop where
  getregs : a.getregsErr = none
  setregs : a.setregsOk = true
  resume : a.resumeOk = true

/-- The path of an open can be read: it is a string whose last word is readable
to the end, and no memory for it is refused. -/
structure Answers.Reads (a : Answers) (mem : TraceeMem) (regs : UserRegs) : Prop where
  path : ∃ path, StringAt mem regs.rsi path ∧ LastWordReadable mem regs.rsi path
  memory : (readEvents (a.kernel regs mem) regs.rsi).any ReadEvent.isRefused = false

/-- A poll that is refused nothing, and reads the path when it is of an open. -/
def Served {Γ : Type} (G : Guest Γ) (s : Box Γ) : Move → Prop
  | .poll p a => a.Granted ∧ ∀ regs, s.tasks p = .userStop .entry regs →
      regs.orig_rax = SYS_openat → a.Reads (G.mem p s.world) regs
  | _ => True

/-- A stop that the loop answers as it would go on without a tracer. -/
def StopKind.passedOn : StopKind → Bool
  | .delivery s => s.1 != SIGTRAP && s.1 != SIGCONT
  | .group _ => false
  | _ => true

/-- A poll of such a stop, with every ptrace request granted. -/
def PassedOn {Γ : Type} (s : Box Γ) : Move → Prop
  | .poll p a => a.Granted ∧
      ∀ kind regs, (s.tasks p).stop? = some (kind, regs) → kind.passedOn = true
  | _ => True

/-! ## §4. One poll. -/

/-- The stop is one of a syscall. -/
def StopKind.isSyscall : StopKind → Bool
  | .syscall => true
  | _ => false

/-- What the loop remembers after a stop. -/
def remembers (last : Word) (kind : StopKind) (regs : UserRegs) : Word :=
  if kind.isSyscall then toggle last regs.orig_rax else last

/-- Whether the loop takes a stop for the entry of an `openat`. -/
def takesForOpen (last : Word) (kind : StopKind) (regs : UserRegs) : Bool :=
  kind.isSyscall && guardOpen last regs.orig_rax

/-- What the loop answers a stop with. -/
def answerStop (cbs : TracerCallbacks) (k : Kernel) (regs : UserRegs) (check : Bool) :
    List Action × UserRegs :=
  if check then
    ((syscallOpenat cbs k regs).1.filter Action.isCall,
      denyRegs (syscallOpenat cbs k regs).2 regs)
  else ([], regs)

/-- There is one string at an address. -/
theorem StringAt.unique {mem : TraceeMem} {addr : Word} {s t : Path} (hs : StringAt mem addr s)
    (ht : StringAt mem addr t) : s = t := by
  have hpre : t = s.take t.length :=
    @StringAt.prefix_of ⟨.ok {}, true, true, mem, fun _ => true⟩ addr s t hs ht.bytes
  have hpre' : s = t.take s.length :=
    @StringAt.prefix_of ⟨.ok {}, true, true, mem, fun _ => true⟩ addr t s ht hs.bytes
  have hlen := congrArg List.length hpre
  have hlen' := congrArg List.length hpre'
  rw [List.length_take] at hlen hlen'
  rw [hpre', List.take_of_length_le (by omega)]

theorem pathNamed_eq {mem : TraceeMem} {regs : UserRegs} {path : Path}
    (h : StringAt mem regs.rsi path) : pathNamed mem regs = some path := by
  have hex : ∃ path, StringAt mem regs.rsi path := ⟨path, h⟩
  rw [pathNamed, dif_pos hex, hex.choose_spec.unique h]

section Polls

variable {cbs : TracerCallbacks} {regs : UserRegs} {mem : TraceeMem} {k : Kernel} {a : Answers}

theorem Answers.Granted.kernel_getregs (h : a.Granted) : (a.kernel regs mem).getregs = .ok regs := by
  rw [Answers.kernel, h.getregs]

/-- A selected callback makes a call. -/
theorem selected_isCall {c : (Path → Int) × (Path → Action)} (hc : c ∈ selectedCallbacks cbs regs)
    (path : Path) : (c.2 path).isCall = true := by
  rcases selected_action hc with h | h <;> rw [h] <;> rfl

/-- An open whose path can be read is answered on that path. -/
theorem answerStop_reads (h : a.Reads mem regs) :
    answerStop cbs (a.kernel regs mem) regs true = answerOpen cbs mem regs := by
  obtain ⟨path, hpath, hlast⟩ := h.path
  obtain ⟨val, hread, hwhole, -⟩ :=
    @readString_at (a.kernel regs mem) regs.rsi path hpath h.memory
  obtain rfl := hwhole hlast
  have hopenat : (syscallOpenat cbs (a.kernel regs mem) regs).1 = _ ∧ _ := syscallOpenat_eq hread
  obtain ⟨hcalls, hdeny⟩ := hopenat
  rw [answerStop, if_pos rfl, answerOpen, pathNamed_eq hpath, hcalls, denyRegs]
  refine Prod.ext ?_ ?_
  · rw [List.filter_cons_of_neg (by decide), List.filter_eq_self]
    intro b hb
    obtain ⟨c, hc, rfl⟩ := List.mem_map.mp hb
    exact selected_isCall hc _
  · simp only [hdeny]
    rfl

theorem calls_stopLog (check : Bool) :
    (stopLog cbs k regs check).filter Action.isCall = (answerStop cbs k regs check).1 := by
  cases check with
  | false => rfl
  | true =>
      show (checkedLog cbs k regs).filter Action.isCall = _
      rw [checkedLog, List.filter_append]
      exact List.append_nil _

theorem written_stopLog (check : Bool) :
    (writtenBack (stopLog cbs k regs check)).getD regs = (answerStop cbs k regs check).2 := by
  rw [writtenBack_stopLog]
  cases check <;> rfl

/-- **One poll.**  The loop's memory, the calls it makes and the registers it
leaves. -/
theorem tracerLoop_answers (hcb : Plain cbs) (hget : k.getregs = .ok regs)
    (hset : k.setregsOk = true) (p : Pid) (last : Word) (kind : StopKind) :
    (tracerLoop cbs k (.child p kind.status) last).last_syscall = remembers last kind regs
      ∧ (tracerLoop cbs k (.child p kind.status) last).log.filter Action.isCall
        = (answerStop cbs k regs (takesForOpen last kind regs)).1
      ∧ (writtenBack (tracerLoop cbs k (.child p kind.status) last).log).getD regs
        = (answerStop cbs k regs (takesForOpen last kind regs)).2 := by
  cases kind with
  | syscall =>
      have hplain := handleSyscalls_plain cbs k last hcb hget hset
      simp only [StopKind.status, tracerLoop_syscall, hplain]
      exact ⟨rfl, calls_stopLog _, written_stopLog _⟩
  | delivery s =>
      simp only [StopKind.status, tracerLoop_signal, handleStopped_answer]
      exact ⟨rfl, rfl, rfl⟩
  | event number =>
      have htrap : 0 < SIGTRAP ∧ SIGTRAP ≤ 64 := by decide
      rw [show StopKind.status (.event number)
        = stopStatus (⟨SIGTRAP, htrap⟩ : Signal).1 number.1 from rfl, tracerLoop_signal,
        handleStopped_answer]
      exact ⟨rfl, rfl, rfl⟩
  | group s =>
      obtain ⟨hsig, -⟩ := stopping_signal s.2
      rw [show StopKind.status (.group s)
        = stopStatus (⟨s.1, hsig⟩ : Signal).1 PTRACE_EVENT_STOP from rfl, tracerLoop_signal,
        handleStopped_answer]
      exact ⟨rfl, rfl, rfl⟩

variable {Γ : Type} (G : Guest Γ)

/-- A granted poll of the watched programs, by what the loop takes the stop
for. -/
theorem watchStep_poll (hcb : Plain cbs) {s : Watch Γ} {p : Pid} {kind : StopKind}
    (hgranted : a.Granted) (hstop : (s.tasks p).stop? = some (kind, regs)) :
    watchStep G cbs s (.poll p a) =
      (let v := answerStop cbs (a.kernel regs (G.mem p s.world)) regs
         (takesForOpen s.last kind regs)
       let r := resumeTask G p (s.tasks p) kind.answer v.2 s.world
       (⟨remembers s.last kind regs, Function.update s.tasks p r.1, r.2.1⟩,
        v.1.map (Seen.call p) ++ r.2.2)) := by
  have hget : (a.kernel regs (G.mem p s.world)).getregs = .ok regs := hgranted.kernel_getregs
  have hset : (a.kernel regs (G.mem p s.world)).setregsOk = true := hgranted.setregs
  obtain ⟨hlast, hcalls, hwritten⟩ := tracerLoop_answers hcb hget hset p s.last kind
  have hresume := tracerLoop_resumes cbs hget hset p kind s.last
  simp only [watchStep, hstop, hresume, hgranted.resume, hlast, hcalls, hwritten]

/-- A task that is not stopped is not polled. -/
theorem watchStep_poll_none {s : Watch Γ} {p : Pid} (hstop : (s.tasks p).stop? = none) :
    watchStep G cbs s (.poll p a) = (s, []) := by
  simp only [watchStep, hstop]

end Polls

/-! ## §5. The promise is kept while no `openat` is disturbed. -/

/-- The tracee is inside an `openat` that the loop has seen entered. -/
def Task.insideOpen : Task → Bool
  | .kernel asked _ => asked == SYS_openat
  | .kernelStop asked _ _ => asked == SYS_openat
  | _ => false

/-- A move that disturbs no `openat`: while a tracee is inside one, the loop
sees no syscall stop of another, and the tracee is not killed with others left
behind. -/
def Undisturbing {Γ : Type} (s : Box Γ) : Move → Prop
  | .run _ => True
  | .poll p _ => ∀ regs, (s.tasks p).stop? = some (.syscall, regs) →
      ∀ q, (s.tasks q).insideOpen = true → q = p
  | .death p => (s.tasks p).insideOpen = true → ∀ q, q ≠ p → s.tasks q = .dead

/-- A move that disturbs no `openat` and is refused nothing. -/
structure Smooth {Γ : Type} (G : Guest Γ) (s : Box Γ) (m : Move) : Prop where
  undisturbed : Undisturbing s m
  served : Served G s m

/-- The number a tracee inside a syscall reports: the one it asked for, or the
-1 of a refusal. -/
def Task.Numbered : Task → Prop
  | .kernel asked regs => regs.orig_rax = asked ∨ regs.orig_rax = -1
  | .kernelStop asked _ regs => regs.orig_rax = asked ∨ regs.orig_rax = -1
  | _ => True

/-- The one word tells whether some tracee is inside an `openat`, and there is
one at most. -/
structure InTune (last : Word) (tasks : Pid → Task) : Prop where
  numbered : ∀ p, (tasks p).Numbered
  alone : ∀ p q, (tasks p).insideOpen = true → (tasks q).insideOpen = true → p = q
  tells : last = SYS_openat ↔ ∃ p, (tasks p).insideOpen = true

section Tune

variable {last last' : Word} {tasks : Pid → Task} {p : Pid} {t : Task}

theorem numbered_update (h : InTune last tasks) (ht : t.Numbered) (q : Pid) :
    (Function.update tasks p t q).Numbered := by
  by_cases hq : q = p
  · subst hq
    rw [Function.update_self]
    exact ht
  · rw [Function.update_of_ne hq]
    exact h.numbered q

/-- A task that stays inside, or outside, as it was. -/
theorem InTune.update_same (h : InTune last tasks) (hsame : t.insideOpen = (tasks p).insideOpen)
    (ht : t.Numbered) : InTune last (Function.update tasks p t) := by
  have hinside : ∀ q, (Function.update tasks p t q).insideOpen = (tasks q).insideOpen := by
    intro q
    by_cases hq : q = p
    · subst hq
      rw [Function.update_self, hsame]
    · rw [Function.update_of_ne hq]
  refine ⟨numbered_update h ht, fun q q' => ?_, ?_⟩
  · rw [hinside, hinside]
    exact h.alone q q'
  · simp only [hinside]
    exact h.tells

/-- A task that enters or leaves while no other is inside. -/
theorem InTune.update_alone (h : InTune last tasks)
    (hothers : ∀ q, (tasks q).insideOpen = true → q = p) (ht : t.Numbered)
    (hlast : last' = SYS_openat ↔ t.insideOpen = true) :
    InTune last' (Function.update tasks p t) := by
  have hinside : ∀ q, (Function.update tasks p t q).insideOpen = true ↔
      q = p ∧ t.insideOpen = true := by
    intro q
    by_cases hq : q = p
    · subst hq
      rw [Function.update_self]
      exact ⟨fun hi => ⟨rfl, hi⟩, And.right⟩
    · rw [Function.update_of_ne hq]
      exact ⟨fun hi => absurd (hothers q hi) hq, fun hi => absurd hi.1 hq⟩
  refine ⟨numbered_update h ht, fun q q' hq hq' => ?_, ?_⟩
  · rw [((hinside q).mp hq).1, ((hinside q').mp hq').1]
  · rw [hlast]
    exact ⟨fun hi => ⟨p, (hinside p).mpr ⟨rfl, hi⟩⟩, fun ⟨q, hq⟩ => ((hinside q).mp hq).2⟩

/-- While no other tracee is inside, the word tells about this one. -/
theorem InTune.tells_alone (h : InTune last tasks)
    (hothers : ∀ q, (tasks q).insideOpen = true → q = p) :
    last = SYS_openat ↔ (tasks p).insideOpen = true :=
  h.tells.trans ⟨fun ⟨q, hq⟩ => hothers q hq ▸ hq, fun hp => ⟨p, hp⟩⟩

/-- A refusal writes the number -1; else the number stays. -/
theorem answerOpen_number (cbs : TracerCallbacks) (mem : TraceeMem) (regs : UserRegs) :
    (answerOpen cbs mem regs).2.orig_rax = regs.orig_rax
      ∨ (answerOpen cbs mem regs).2.orig_rax = -1 := by
  unfold answerOpen
  cases pathNamed mem regs with
  | none => exact .inl rfl
  | some path =>
      show (if Denies cbs regs path then refused regs else regs).orig_rax = _
        ∨ (if Denies cbs regs path then refused regs else regs).orig_rax = _
      split
      · exact .inr rfl
      · exact .inl rfl

end Tune

section Runs

variable {Γ : Type} (G : Guest Γ)

/-- Running does not enter or leave a syscall as the loop sees it. -/
theorem runTask_inside (p : Pid) (task : Task) (g : Γ) :
    (runTask G p task g).1.insideOpen = task.insideOpen := by
  cases task with
  | user regs => simp only [runTask]; split <;> rfl
  | kernel asked regs => simp only [runTask]; split <;> rfl
  | userStop why regs => rfl
  | kernelStop asked why regs => rfl
  | stuck => rfl
  | dead => rfl

theorem runTask_numbered (p : Pid) {task : Task} (g : Γ) (h : task.Numbered) :
    (runTask G p task g).1.Numbered := by
  cases task with
  | user regs => simp only [runTask]; split <;> exact True.intro
  | userStop why regs => exact h
  | kernelStop asked why regs => exact h
  | stuck => exact h
  | dead => exact h
  | kernel asked regs =>
      simp only [runTask]
      cases hk : G.kernel p regs g with
      | none => exact h
      | some r =>
          obtain ⟨why, regs', g'⟩ := r
          -- the kernel keeps the number or stores -1
          rcases G.kernel_number _ _ _ _ _ _ hk with hn | hn
          · exact h.imp hn.trans hn.trans
          · exact .inr hn

/-- What an entry leaves: inside the syscall asked for. -/
theorem resumeTask_entry (p : Pid) (asked : UserRegs) (sig : Nat) {regs : UserRegs} (g : Γ)
    (hn : regs.orig_rax = asked.orig_rax ∨ regs.orig_rax = -1) :
    (resumeTask G p (.userStop .entry asked) sig regs g).1.Numbered
      ∧ (resumeTask G p (.userStop .entry asked) sig regs g).1.insideOpen
        = (asked.orig_rax == SYS_openat) := by
  simp only [resumeTask, enterSyscall]
  by_cases hskip : regs.orig_rax = -1
  · rw [if_pos hskip]
    exact ⟨hn, rfl⟩
  · rw [if_neg hskip]
    exact ⟨hn, rfl⟩

/-- From a stop in user mode that is no entry the tracee goes on in user mode,
whatever it is resumed with. -/
theorem resumeTask_user (p : Pid) {why : UserHalt} {asked regs : UserRegs} (sig : Nat) (g : Γ)
    (hwhy : why.kind.isSyscall = false) :
    ∃ regs', (resumeTask G p (.userStop why asked) sig regs g).1 = .user regs' := by
  by_cases hsig : sig = 0
  · refine ⟨some regs, ?_⟩
    cases why with
    | entry => cases hwhy
    | delivery s => simp only [resumeTask, if_pos hsig]
    | group s => simp only [resumeTask, if_pos hsig]
    | event number => simp only [resumeTask, if_pos hsig]
  · refine ⟨some (G.inject p sig regs g).1, ?_⟩
    cases why with
    | entry => cases hwhy
    | delivery s => simp only [resumeTask, if_neg hsig]
    | group s => simp only [resumeTask, if_neg hsig]
    | event number => simp only [resumeTask, if_neg hsig]

/-- Resuming from a stop that is not a syscall's. -/
theorem resumeTask_other (p : Pid) {task : Task} {kind : StopKind} {regs : UserRegs} (sig : Nat)
    (g : Γ) (hstop : task.stop? = some (kind, regs)) (hkind : kind.isSyscall = false)
    (hn : task.Numbered) :
    (resumeTask G p task sig regs g).1.Numbered
      ∧ (resumeTask G p task sig regs g).1.insideOpen = task.insideOpen := by
  cases task with
  | user regs => cases hstop
  | kernel asked regs => cases hstop
  | stuck => cases hstop
  | dead => cases hstop
  | kernelStop asked why regs' =>
      cases hstop
      cases why with
      | exit => cases hkind
      | event number => exact ⟨hn, rfl⟩
  | userStop why regs' =>
      cases hstop
      obtain ⟨regs', h⟩ := @resumeTask_user Γ G p why regs regs sig g hkind
      rw [h]
      exact ⟨True.intro, rfl⟩

/-- The memory of the toggle, as far as `openat` goes: it holds the number after
the stops that are taken for an entry. -/
theorem toggle_openat {last n : Word} :
    toggle last n = SYS_openat ↔ n = SYS_openat ∧ last ≠ SYS_openat := by
  unfold toggle
  by_cases h : last = n
  · subst h
    rw [if_pos rfl]
    exact ⟨fun hneg => absurd hneg.symm SYS_openat_ne, fun hc => absurd hc.1 hc.2⟩
  · rw [if_neg h]
    exact ⟨fun hn => ⟨hn, fun hl => h (hl.trans hn.symm)⟩, And.left⟩

variable (cbs : TracerCallbacks)

theorem vetOpens_number (mem : TraceeMem) (task : Task) (regs : UserRegs) :
    (vetOpens cbs mem task regs).2.orig_rax = regs.orig_rax
      ∨ (vetOpens cbs mem task regs).2.orig_rax = -1 := by
  unfold vetOpens
  split
  · exact answerOpen_number cbs mem regs
  · exact .inl rfl

theorem vetOpens_closed (mem : TraceeMem) {task : Task} (h : task.opens = false)
    (regs : UserRegs) : vetOpens cbs mem task regs = ([], regs) := by
  rw [vetOpens, h]
  rfl

/-- A tracee that enters an `openat` stops at its entry. -/
theorem opens_entry {task : Task} {kind : StopKind} {regs : UserRegs}
    (hstop : task.stop? = some (kind, regs)) (h : task.opens = true) :
    task = .userStop .entry regs ∧ regs.orig_rax = SYS_openat := by
  cases task with
  | userStop why regs' =>
      cases why with
      | entry =>
          cases hstop
          exact ⟨rfl, beq_iff_eq.mp h⟩
      | delivery s => cases h
      | group s => cases h
      | event number => cases h
  | user regs => cases h
  | kernel asked regs => cases h
  | kernelStop asked why regs => cases h
  | stuck => cases h
  | dead => cases h

/-- **Step lemma.**  In tune, the loop takes a stop for the entry of an `openat`
exactly when it is one, and stays in tune. -/
theorem poll_inTune {s : Box Γ} {last : Word} {p : Pid} {a : Answers} {kind : StopKind}
    {regs : UserRegs} (h : InTune last s.tasks) (hstop : (s.tasks p).stop? = some (kind, regs))
    (hquiet : Undisturbing s (.poll p a)) :
    takesForOpen last kind regs = (s.tasks p).opens
      ∧ InTune (remembers last kind regs) (Function.update s.tasks p
          (resumeTask G p (s.tasks p) kind.answer
            (vetOpens cbs (G.mem p s.world) (s.tasks p) regs).2 s.world).1) := by
  have hnum := h.numbered p
  cases hkind : kind.isSyscall with
  | false =>
      have hopens : (s.tasks p).opens = false := by
        by_contra ho
        obtain ⟨htask, -⟩ := opens_entry hstop (Bool.not_eq_false _ ▸ ho)
        rw [htask] at hstop
        cases hstop
        cases hkind
      obtain ⟨hn, hsame⟩ := resumeTask_other G p kind.answer s.world hstop hkind hnum
      rw [takesForOpen, hkind, hopens, vetOpens_closed cbs _ hopens, remembers, hkind]
      exact ⟨rfl, h.update_same hsame hn⟩
  | true =>
      obtain rfl : kind = .syscall := by
        cases kind with
        | syscall => rfl
        | delivery s => cases hkind
        | event number => cases hkind
        | group s => cases hkind
      have hothers := hquiet regs hstop
      have htells := h.tells_alone hothers
      have hremembers : remembers last .syscall regs = SYS_openat ↔ _ :=
        @toggle_openat last regs.orig_rax
      have htakes : takesForOpen last .syscall regs
          = decide (regs.orig_rax = SYS_openat ∧ last ≠ SYS_openat) := rfl
      cases htask : s.tasks p with
      | user regs => rw [htask] at hstop; cases hstop
      | kernel asked regs => rw [htask] at hstop; cases hstop
      | stuck => rw [htask] at hstop; cases hstop
      | dead => rw [htask] at hstop; cases hstop
      | userStop why asked =>
          rw [htask] at hstop htells hnum
          cases why with
          | delivery s => cases hstop
          | group s => cases hstop
          | event number => cases hstop
          | entry =>
              cases hstop
              -- nobody is inside: the word is not `SYS_openat`
              have hlast : last ≠ SYS_openat := fun hl => Bool.false_ne_true (htells.mp hl)
              obtain ⟨hn, hinside⟩ := resumeTask_entry G p regs (StopKind.answer .syscall) s.world
                (vetOpens_number cbs (G.mem p s.world) (.userStop .entry regs) regs)
              refine ⟨?_, h.update_alone hothers hn ?_⟩
              · rw [htakes]
                simp only [hlast, ne_eq, not_false_eq_true, and_true, Task.opens]
                exact (beq_eq_decide _ _).symm
              · rw [hremembers, hinside, beq_iff_eq]
                exact ⟨And.left, fun hnum => ⟨hnum, hlast⟩⟩
      | kernelStop asked why regs' =>
          rw [htask] at hstop htells hnum
          cases why with
          | event number => cases hstop
          | exit =>
              cases hstop
              -- the exit of an `openat` finds the word set, any other finds it clear
              have hno : ¬ (regs.orig_rax = SYS_openat ∧ last ≠ SYS_openat) := by
                rintro ⟨hopenat, hlast⟩
                rcases hnum with hnum | hnum
                · exact hlast (htells.mpr (beq_iff_eq.mpr (hnum.symm.trans hopenat)))
                · exact SYS_openat_ne (hopenat.symm.trans hnum)
              refine ⟨?_, h.update_alone hothers True.intro ?_⟩
              · rw [htakes, decide_eq_false hno]
                rfl
              · rw [hremembers]
                exact ⟨fun hyes => absurd hyes hno, fun hf => absurd hf Bool.false_ne_true⟩

/-- The tracees are those of the box, and the word tells about them; or there is
nobody left to tell about. -/
structure Boxes (w : Watch Γ) (s : Box Γ) : Prop where
  tasks : w.tasks = s.tasks
  world : w.world = s.world
  tells : InTune w.last s.tasks ∨ ∀ p, s.tasks p = .dead

/-- What the loop answers an open with is what the box does, if the path can be
read. -/
theorem answerStop_opens {cbs : TracerCallbacks} {a : Answers} {mem : TraceeMem} {task : Task}
    {kind : StopKind} {regs : UserRegs} (hstop : task.stop? = some (kind, regs))
    (hreads : ∀ regs, task = .userStop .entry regs → regs.orig_rax = SYS_openat →
      a.Reads mem regs) :
    answerStop cbs (a.kernel regs mem) regs task.opens = vetOpens cbs mem task regs := by
  cases hopens : task.opens with
  | false =>
      rw [vetOpens_closed cbs mem hopens]
      rfl
  | true =>
      obtain ⟨rfl, hopen⟩ := opens_entry hstop hopens
      rw [vetOpens, if_pos hopens, answerStop_reads (hreads regs rfl hopen)]

/-- **One move.**  A smooth move is the box's. -/
theorem watchStep_boxes {cbs : TracerCallbacks} (hcb : Plain cbs) {w : Watch Γ} {s : Box Γ}
    {m : Move} (h : Boxes w s) (hsmooth : Smooth G s m) :
    Boxes (watchStep G cbs w m).1 (policyStep G (vetOpens cbs) s m).1
      ∧ (watchStep G cbs w m).2 = (policyStep G (vetOpens cbs) s m).2 := by
  obtain ⟨last, tasks, world⟩ := w
  obtain ⟨rfl, rfl, htells⟩ := h
  have hdead : ∀ {p : Pid} {t : Task}, (∀ q, s.tasks q = .dead) → t = .dead →
      ∀ q, Function.update s.tasks p t q = .dead := by
    rintro p t hall rfl q
    by_cases hq : q = p
    · subst hq
      exact Function.update_self _ _ _
    · exact (Function.update_of_ne hq _ _).trans (hall q)
  cases m with
  | run p =>
      refine ⟨⟨rfl, rfl, htells.imp (fun ht => ?_) fun hall => hdead hall ?_⟩, rfl⟩
      · exact ht.update_same (runTask_inside G p _ _) (runTask_numbered G p _ (ht.numbered p))
      · rw [hall p]
        rfl
  | death p =>
      refine ⟨⟨rfl, rfl, ?_⟩, rfl⟩
      by_cases hin : (s.tasks p).insideOpen = true
      · -- killed inside an `openat`: nobody is left
        have hquiet := hsmooth.undisturbed
        refine .inr fun q => ?_
        by_cases hq : q = p
        · subst hq
          exact Function.update_self _ _ _
        · exact (Function.update_of_ne hq _ _).trans (hquiet hin q hq)
      · exact htells.imp (fun ht => ht.update_same (Bool.eq_false_iff.mpr hin).symm True.intro)
          fun hall => hdead hall rfl
  | poll p a =>
      obtain ⟨hquiet, hgranted, hreads⟩ := hsmooth
      cases hstop : (s.tasks p).stop? with
      | none =>
          rw [watchStep_poll_none G hstop]
          simp only [policyStep, hstop]
          exact ⟨⟨rfl, rfl, htells⟩, trivial⟩
      | some stop =>
          obtain ⟨kind, regs⟩ := stop
          have ht : InTune last s.tasks := by
            refine htells.resolve_right fun hall => ?_
            rw [hall p] at hstop
            cases hstop
          obtain ⟨htakes, hnext⟩ := poll_inTune G cbs ht hstop hquiet
          rw [watchStep_poll G hcb hgranted hstop]
          simp only [policyStep, hstop, htakes, answerStop_opens hstop hreads]
          exact ⟨⟨rfl, rfl, .inl hnext⟩, trivial⟩

/-- Before anything ran the word is in tune. -/
theorem inTune_start {tasks : Pid → Task} (h : ∀ p, tasks p = .user none ∨ tasks p = .dead) :
    InTune (-1) tasks := by
  have hout : ∀ p, (tasks p).insideOpen = false := by
    intro p
    rcases h p with hp | hp <;> rw [hp] <;> rfl
  refine ⟨fun p => ?_, fun p q hp => ?_, fun hl => absurd hl.symm SYS_openat_ne, ?_⟩
  · rcases h p with hp | hp <;> rw [hp] <;> exact True.intro
  · rw [hout p] at hp
    cases hp
  · rintro ⟨p, hp⟩
    rw [hout p] at hp
    cases hp

/-- **Run lemma.**  From the start on, a smooth run is the box's. -/
theorem watched_boxes {cbs : TracerCallbacks} (hcb : Plain cbs) {tasks : Pid → Task} {world : Γ}
    {ms : List Move} (hstart : ∀ p, tasks p = .user none ∨ tasks p = .dead)
    (hsmooth : (boxed G cbs).Along (Smooth G) ⟨tasks, world⟩ ms) :
    Boxes ((watched G cbs).after ⟨-1, tasks, world⟩ ms) ((boxed G cbs).after ⟨tasks, world⟩ ms)
      ∧ (watched G cbs).out ⟨-1, tasks, world⟩ ms = (boxed G cbs).out ⟨tasks, world⟩ ms := by
  have hboxes : Boxes ⟨-1, tasks, world⟩ (⟨tasks, world⟩ : Box Γ) :=
    ⟨rfl, rfl, .inl (inTune_start hstart)⟩
  exact Machine.mirror (R := Boxes) (fun w s m hR hm => watchStep_boxes G hcb hR hm) hboxes hsmooth

/-- **THE LOOP KEEPS THE PROMISE OF `tracer.h`.**  For every guest, any number
of tracees and every order in which they run, are polled and die: as long as
no tracee is disturbed inside an `openat` — no other's syscall stop is polled
meanwhile, and it is not killed leaving others behind —, the tracer's ptrace
requests succeed and it can read the path of every `openat` that is entered,
the tracees, what they share, the callbacks called and the syscalls that reach
the kernel are those of the box, in which an `openat` is answered by the
callbacks its flags select, on the path it names, and every stop is resumed
with the signal the loop has for it. -/
theorem watched_is_boxed (cbs : TracerCallbacks) (hcb : cbs.syscall = none) (tasks : Pid → Task)
    (world : Γ) (ms : List Move) (hstart : ∀ p, tasks p = .user none ∨ tasks p = .dead)
    (hsmooth : (boxed G cbs).Along (Smooth G) ⟨tasks, world⟩ ms) :
    (watched G cbs).out ⟨-1, tasks, world⟩ ms = (boxed G cbs).out ⟨tasks, world⟩ ms
      ∧ ((watched G cbs).after ⟨-1, tasks, world⟩ ms).tasks
        = ((boxed G cbs).after ⟨tasks, world⟩ ms).tasks
      ∧ ((watched G cbs).after ⟨-1, tasks, world⟩ ms).world
        = ((boxed G cbs).after ⟨tasks, world⟩ ms).world := by
  obtain ⟨⟨htasks, hworld, -⟩, hout⟩ := watched_boxes G hcb hstart hsmooth
  exact ⟨hout, htasks, hworld⟩

/-! ## §6. What the promise is worth. -/

/-- The kernel gets a syscall at a poll of its entry only. -/
theorem resumeTask_enter {p q : Pid} {task : Task} {sig : Nat} {regs regs' : UserRegs} {g : Γ}
    (h : Seen.enter q regs' ∈ (resumeTask G p task sig regs g).2.2) :
    q = p ∧ regs' = regs ∧ regs.orig_rax ≠ -1 ∧ ∃ asked, task = .userStop .entry asked := by
  cases task with
  | user r => cases h
  | kernel asked r => cases h
  | stuck => cases h
  | dead => cases h
  | kernelStop asked why r =>
      cases why with
      | event number => cases h
      | exit => cases h
  | userStop why asked =>
      cases why with
      | entry =>
          simp only [resumeTask, enterSyscall] at h
          by_cases hskip : regs.orig_rax = -1
          · rw [if_pos hskip] at h
            cases h
          · rw [if_neg hskip] at h
            cases List.mem_singleton.mp h
            exact ⟨rfl, rfl, hskip, asked, rfl⟩
      | delivery s => simp only [resumeTask] at h; split at h <;> cases h
      | group s => simp only [resumeTask] at h; split at h <;> cases h
      | event number => simp only [resumeTask] at h; split at h <;> cases h

/-- What a resumed entry puts out. -/
theorem resumeTask_out (p : Pid) {asked regs : UserRegs} (sig : Nat) (g : Γ)
    (hn : regs.orig_rax ≠ -1) :
    (resumeTask G p (.userStop .entry asked) sig regs g).2.2 = [.enter p regs] := by
  simp only [resumeTask, enterSyscall, if_neg hn]

/-- What a policy's poll puts out. -/
theorem policyStep_out {policy : Policy} {s : Box Γ} {m : Move} {o : Seen}
    (h : o ∈ (policyStep G policy s m).2) :
    ∃ p a kind regs, m = .poll p a ∧ (s.tasks p).stop? = some (kind, regs) ∧
      (policyStep G policy s m).2 = (policy (G.mem p s.world) (s.tasks p) regs).1.map (Seen.call p)
        ++ (resumeTask G p (s.tasks p) kind.answer
          (policy (G.mem p s.world) (s.tasks p) regs).2 s.world).2.2 := by
  cases m with
  | run p => cases h
  | death p => cases h
  | poll p a =>
      cases hstop : (s.tasks p).stop? with
      | none =>
          simp only [policyStep, hstop] at h
          cases h
      | some stop =>
          refine ⟨p, a, stop.1, stop.2, rfl, hstop, ?_⟩
          simp only [policyStep, hstop]

/-- An entry that still is an `openat` after the callbacks: they were all shown
the path, and none denied it. -/
theorem vetOpens_granted {cbs : TracerCallbacks} {mem : TraceeMem} {asked regs : UserRegs}
    (h : regs = (vetOpens cbs mem (.userStop .entry asked) asked).2)
    (hopen : regs.orig_rax = SYS_openat) :
    regs = asked ∧ ∀ path, StringAt mem asked.rsi path →
      ¬ Denies cbs asked path ∧
        (vetOpens cbs mem (.userStop .entry asked) asked).1
          = (selectedCallbacks cbs asked).map fun c => c.2 path := by
  cases hopens : Task.opens (.userStop .entry asked) with
  | false =>
      -- the callbacks make no `openat` of anything
      rw [vetOpens_closed cbs mem hopens] at h
      rw [h] at hopen
      exact absurd (beq_iff_eq.mpr hopen) (Bool.eq_false_iff.mp hopens)
  | true =>
      rw [vetOpens, if_pos hopens] at h ⊢
      unfold answerOpen at h ⊢
      cases hread : pathNamed mem asked with
      | none =>
          rw [hread] at h
          refine ⟨h, fun path hpath => ?_⟩
          rw [pathNamed_eq hpath] at hread
          cases hread
      | some path =>
          rw [hread] at h
          have hgranted : ¬ Denies cbs asked path := by
            intro hdeny
            simp only [if_pos hdeny] at h
            rw [h] at hopen
            exact SYS_openat_ne hopen.symm
          simp only [if_neg hgranted] at h
          refine ⟨h, fun path' hpath => ?_⟩
          rw [pathNamed_eq hpath] at hread
          obtain rfl := Option.some.inj hread
          exact ⟨hgranted, rfl⟩

/-- **An `openat` that the box hands to the kernel.**  The poll before it showed
the path to every selected callback, and none denied. -/
theorem boxed_enter {cbs : TracerCallbacks} {s : Box Γ} {m : Move} {p : Pid} {regs : UserRegs}
    {said unsaid : List Seen}
    (h : (policyStep G (vetOpens cbs) s m).2 = said ++ .enter p regs :: unsaid)
    (hopen : regs.orig_rax = SYS_openat) :
    ∃ a, m = .poll p a ∧ s.tasks p = .userStop .entry regs ∧ unsaid = [] ∧
      ∀ path, StringAt (G.mem p s.world) regs.rsi path →
        ¬ Denies cbs regs path ∧
          said = (selectedCallbacks cbs regs).map fun c => .call p (c.2 path) := by
  obtain ⟨q, answers, kind, reported, rfl, hstop, hout⟩ := policyStep_out G (o := .enter p regs)
    (h ▸ List.mem_append_right _ List.mem_cons_self)
  set v := vetOpens cbs (G.mem q s.world) (s.tasks q) reported with hv
  have hmem : Seen.enter p regs ∈ (resumeTask G q (s.tasks q) kind.answer v.2 s.world).2.2 := by
    have hin : Seen.enter p regs ∈ (policyStep G (vetOpens cbs) s (.poll q answers)).2 :=
      h ▸ List.mem_append_right _ List.mem_cons_self
    rw [hout] at hin
    refine (List.mem_append.mp hin).resolve_left fun hcall => ?_
    obtain ⟨a, -, ha⟩ := List.mem_map.mp hcall
    cases ha
  obtain ⟨rfl, hregs, hn, asked, htask⟩ := resumeTask_enter G hmem
  rw [htask] at hstop hout hv
  cases hstop
  rw [resumeTask_out G p _ _ hn, ← hregs] at hout
  -- the calls come first, the syscall last
  rw [hout] at h
  have hcalls : Seen.enter p regs ∉ v.1.map (Seen.call p) := by
    intro hin
    obtain ⟨a, -, ha⟩ := List.mem_map.mp hin
    cases ha
  obtain ⟨hsaid, -, hunsaid⟩ :=
    (List.append_cons_inj_of_notMem hcalls List.not_mem_nil).mp h
  obtain ⟨hgranted, hshown⟩ := @vetOpens_granted cbs _ _ _ (hv ▸ hregs) hopen
  subst hgranted
  refine ⟨answers, rfl, htask, hunsaid.symm, fun path hpath => ?_⟩
  obtain ⟨hfree, hcalled⟩ := hshown path hpath
  refine ⟨hfree, ?_⟩
  rw [← hsaid, hv, hcalled, List.map_map]
  rfl

/-- A call of which a callback said -1 is at its exit at once. -/
theorem boxed_refuses {cbs : TracerCallbacks} {s : Box Γ} {p : Pid} (a : Answers)
    {regs : UserRegs} {path : Path} (htask : s.tasks p = .userStop .entry regs)
    (hopen : regs.orig_rax = SYS_openat) (hpath : StringAt (G.mem p s.world) regs.rsi path)
    (hdeny : Denies cbs regs path) :
    (policyStep G (vetOpens cbs) s (.poll p a)).1.tasks p
      = .kernelStop SYS_openat .exit (refused regs) := by
  have hopens : Task.opens (.userStop .entry regs) = true := beq_iff_eq.mpr hopen
  have hanswer : (vetOpens cbs (G.mem p s.world) (.userStop .entry regs) regs).2
      = refused regs := by
    rw [vetOpens, if_pos hopens, answerOpen, pathNamed_eq hpath]
    exact if_pos hdeny
  have hstop : (s.tasks p).stop? = some (.syscall, regs) := by
    rw [htask]
    rfl
  simp only [policyStep, hstop, Function.update_self]
  rw [htask, hanswer, ← hopen]
  rfl

/-- A call that no callback denies goes to the kernel as it is. -/
theorem boxed_grants {cbs : TracerCallbacks} {s : Box Γ} {p : Pid} (a : Answers)
    {regs : UserRegs} {path : Path} (htask : s.tasks p = .userStop .entry regs)
    (hopen : regs.orig_rax = SYS_openat) (hpath : StringAt (G.mem p s.world) regs.rsi path)
    (hfree : ¬ Denies cbs regs path) :
    (policyStep G (vetOpens cbs) s (.poll p a)).1.tasks p = .kernel SYS_openat regs := by
  have hopens : Task.opens (.userStop .entry regs) = true := beq_iff_eq.mpr hopen
  have hanswer : (vetOpens cbs (G.mem p s.world) (.userStop .entry regs) regs).2 = regs := by
    rw [vetOpens, if_pos hopens, answerOpen, pathNamed_eq hpath]
    exact if_neg hfree
  have hstop : (s.tasks p).stop? = some (.syscall, regs) := by
    rw [htask]
    rfl
  simp only [policyStep, hstop, Function.update_self]
  rw [htask, hanswer, resumeTask, enterSyscall, hopen, if_neg SYS_openat_ne]

/-- **AN `openat` THAT REACHES THE KERNEL WAS VETTED.**  In every smooth run,
whenever the kernel gets an `openat` to execute, the last thing the loop did
was to poll its entry: right before, every callback that its flags select was
called with the string that `rsi` points at, none of them returned -1, and the
registers are those the tracee entered with.  A call of which a callback said
-1 is at its exit at once, with "operation not permitted" for its result. -/
theorem opens_vetted (cbs : TracerCallbacks) (hcb : cbs.syscall = none) (tasks : Pid → Task)
    (world : Γ) (ms : List Move) (hstart : ∀ p, tasks p = .user none ∨ tasks p = .dead)
    (hsmooth : (boxed G cbs).Along (Smooth G) ⟨tasks, world⟩ ms) :
    (∀ before p regs rest,
      (watched G cbs).out ⟨-1, tasks, world⟩ ms = before ++ .enter p regs :: rest →
      regs.orig_rax = SYS_openat →
      ∃ earlier a later path, ms = earlier ++ .poll p a :: later ∧
        ((watched G cbs).after ⟨-1, tasks, world⟩ earlier).tasks p = .userStop .entry regs ∧
        StringAt (G.mem p ((watched G cbs).after ⟨-1, tasks, world⟩ earlier).world) regs.rsi path ∧
        ¬ Denies cbs regs path ∧
        before = (watched G cbs).out ⟨-1, tasks, world⟩ earlier
          ++ (selectedCallbacks cbs regs).map fun c => .call p (c.2 path))
    ∧ ∀ earlier p a later regs path, ms = earlier ++ .poll p a :: later →
      ((watched G cbs).after ⟨-1, tasks, world⟩ earlier).tasks p = .userStop .entry regs →
      regs.orig_rax = SYS_openat →
      StringAt (G.mem p ((watched G cbs).after ⟨-1, tasks, world⟩ earlier).world) regs.rsi path →
      Denies cbs regs path →
      ((watched G cbs).after ⟨-1, tasks, world⟩ (earlier ++ [.poll p a])).tasks p
        = .kernelStop SYS_openat .exit (refused regs) := by
  obtain ⟨-, hout⟩ := watched_boxes G hcb hstart hsmooth
  -- what holds of the run holds of the moves before any of its polls
  have hbefore : ∀ earlier {later}, ms = earlier ++ later →
      Boxes ((watched G cbs).after ⟨-1, tasks, world⟩ earlier)
          ((boxed G cbs).after ⟨tasks, world⟩ earlier)
        ∧ (watched G cbs).out ⟨-1, tasks, world⟩ earlier
          = (boxed G cbs).out ⟨tasks, world⟩ earlier := by
    rintro earlier later rfl
    exact watched_boxes G hcb hstart (((boxed G cbs).along_append earlier later _).mp hsmooth).1
  constructor
  · intro before p regs rest hsplit hopen
    rw [hout] at hsplit
    obtain ⟨earlier, m, later, said, unsaid, rfl, hstep, rfl⟩ := Machine.out_split hsplit
    obtain ⟨⟨htasks, hworld, -⟩, houts⟩ := hbefore _ rfl
    obtain ⟨a, rfl, htask, -, hvetted⟩ := boxed_enter G hstep hopen
    obtain ⟨-, -, hreads⟩ := (((boxed G cbs).along_append earlier _ _).mp hsmooth).2.1
    obtain ⟨path, hpath, -⟩ := (hreads regs htask hopen).path
    obtain ⟨hfree, hsaid⟩ := hvetted path hpath
    exact ⟨earlier, a, later, path, rfl, by rw [htasks, htask], by rw [hworld]; exact hpath,
      hfree, by rw [houts, hsaid]⟩
  · intro earlier p a later regs path hms htask hopen hpath hdeny
    obtain ⟨⟨htasks, hworld, -⟩, -⟩ := hbefore _ hms
    obtain ⟨⟨hnext, -, -⟩, -⟩ := hbefore (earlier ++ [.poll p a])
      (hms.trans (List.append_cons _ _ _))
    rw [hnext, Machine.after_append, Machine.after_cons, Machine.after_nil]
    rw [htasks] at htask
    rw [hworld] at hpath
    exact boxed_refuses G a htask hopen hpath hdeny

/-! ## §7. Callbacks that deny nothing. -/

/-- An output that the programs take part in. -/
def Seen.isEnter : Seen → Bool
  | .enter _ _ => true
  | .call _ _ => false

/-- No file callback ever answers -1. -/
def DeniesNothing (cbs : TracerCallbacks) : Prop :=
  (∀ f, cbs.file_read = some f → ∀ path, f path ≠ -1) ∧
    ∀ f, cbs.file_write = some f → ∀ path, f path ≠ -1

theorem DeniesNothing.grants {cbs : TracerCallbacks} (h : DeniesNothing cbs) (regs : UserRegs)
    (path : Path) : ¬ Denies cbs regs path := by
  rintro ⟨c, hc, hdeny⟩
  rcases List.mem_append.mp hc with hc | hc
  · obtain ⟨-, f, hf, rfl⟩ := mem_offered.mp hc
    exact h.1 f hf path hdeny
  · obtain ⟨-, f, hf, rfl⟩ := mem_offered.mp hc
    exact h.2 f hf path hdeny

/-- Whether it checks or not, and whatever it reads, the loop then leaves the
registers alone. -/
theorem DeniesNothing.answerStop {cbs : TracerCallbacks} (h : DeniesNothing cbs) (k : Kernel)
    (regs : UserRegs) (check : Bool) : (answerStop cbs k regs check).2 = regs := by
  cases check with
  | false => rfl
  | true =>
      show denyRegs (syscallOpenat cbs k regs).2 regs = regs
      refine if_neg fun hdeny => ?_
      cases hread : readString k regs.rsi with
      | str val live =>
          have hopenat : (syscallOpenat cbs k regs).1 = _ ∧ _ := syscallOpenat_eq hread
          exact h.grants regs _ (hopenat.2.mp hdeny)
      | null live =>
          simp only [syscallOpenat, hread] at hdeny
          exact absurd hdeny (by decide)
      | overrun =>
          simp only [syscallOpenat, hread] at hdeny
          exact absurd hdeny (by decide)

/-- What a resumed tracee puts out are syscalls. -/
theorem resumeTask_isEnter {p : Pid} {task : Task} {sig : Nat} {regs : UserRegs} {g : Γ} {o : Seen}
    (ho : o ∈ (resumeTask G p task sig regs g).2.2) : o.isEnter = true := by
  cases o with
  | enter q r => rfl
  | call q a =>
      exfalso
      cases task with
      | user r => cases ho
      | kernel asked r => cases ho
      | stuck => cases ho
      | dead => cases ho
      | kernelStop asked why r => cases why <;> cases ho
      | userStop why asked =>
          cases why <;> simp only [resumeTask] at ho <;> split at ho <;> simp at ho

/-- Calls are not. -/
theorem filter_isEnter (calls : List Action) (p : Pid) (task : Task) (sig : Nat) (regs : UserRegs)
    (g : Γ) :
    (calls.map (Seen.call p) ++ (resumeTask G p task sig regs g).2.2).filter Seen.isEnter
      = (resumeTask G p task sig regs g).2.2 := by
  have hcalls : (calls.map (Seen.call p)).filter Seen.isEnter = [] := by
    rw [List.filter_eq_nil_iff]
    intro o ho
    obtain ⟨a, -, rfl⟩ := List.mem_map.mp ho
    exact Bool.false_ne_true
  rw [List.filter_append, hcalls, List.nil_append, List.filter_eq_self]
  exact fun o ho => resumeTask_isEnter G ho

/-- The loop's signal is the one that is due. -/
theorem StopKind.passedOn_answer {kind : StopKind} (h : kind.passedOn = true) :
    kind.answer = kind.due := by
  cases kind with
  | delivery s =>
      obtain ⟨htrap, hcont⟩ := Bool.and_eq_true_iff.mp h
      exact if_neg fun hs => hs.elim (bne_iff_ne.mp htrap) (bne_iff_ne.mp hcont)
  | syscall => rfl
  | event number => rfl
  | group s => cases h

/-- A stop that is passed on, without a tracer. -/
theorem nativeStep_poll {s : Box Γ} {p : Pid} (a : Answers) {kind : StopKind} {regs : UserRegs}
    (hstop : (s.tasks p).stop? = some (kind, regs)) (hpassed : kind.passedOn = true) :
    nativeStep G s (.poll p a) =
      (let r := resumeTask G p (s.tasks p) kind.answer regs s.world
       (⟨Function.update s.tasks p r.1, r.2.1⟩, r.2.2)) := by
  rw [StopKind.passedOn_answer hpassed]
  cases kind with
  | group s => cases hpassed
  | delivery s => simp only [nativeStep, hstop]
  | syscall => simp only [nativeStep, hstop]
  | event number => simp only [nativeStep, hstop]

/-- **Run lemma.**  Under callbacks that deny nothing. -/
theorem watched_natives {cbs : TracerCallbacks} (hcb : Plain cbs) (hgrant : DeniesNothing cbs)
    (w : Watch Γ) (ms : List Move) (hpassed : (native G).Along PassedOn ⟨w.tasks, w.world⟩ ms) :
    ((watched G cbs).out w ms).filter Seen.isEnter = (native G).out ⟨w.tasks, w.world⟩ ms
      ∧ ((watched G cbs).after w ms).tasks = ((native G).after ⟨w.tasks, w.world⟩ ms).tasks
      ∧ ((watched G cbs).after w ms).world = ((native G).after ⟨w.tasks, w.world⟩ ms).world := by
  have hstep : ∀ (w : Watch Γ) (s : Box Γ) (m : Move), s = ⟨w.tasks, w.world⟩ → PassedOn s m →
      (nativeStep G s m).1 = ⟨(watchStep G cbs w m).1.tasks, (watchStep G cbs w m).1.world⟩
        ∧ (watchStep G cbs w m).2.filter Seen.isEnter = (nativeStep G s m).2 := by
    rintro w s m rfl hm
    cases m with
    | run p => exact ⟨rfl, rfl⟩
    | death p => exact ⟨rfl, rfl⟩
    | poll p a =>
        obtain ⟨hgranted, hkind⟩ := hm
        cases hstop : (w.tasks p).stop? with
        | none =>
            rw [watchStep_poll_none G hstop]
            simp only [nativeStep, hstop]
            exact ⟨trivial, rfl⟩
        | some stop =>
            obtain ⟨kind, regs⟩ := stop
            rw [watchStep_poll G hcb hgranted hstop,
              nativeStep_poll G a hstop (hkind kind regs hstop)]
            simp only [hgrant.answerStop, filter_isEnter]
            exact ⟨trivial, trivial⟩
  obtain ⟨hend, hout⟩ := Machine.shadow (M := watched G cbs) (N := native G)
    (R := fun w s => s = ⟨w.tasks, w.world⟩) Seen.isEnter hstep rfl hpassed
  exact ⟨hout, congrArg Box.tasks hend.symm, congrArg Box.world hend.symm⟩

/-- **CALLBACKS THAT DENY NOTHING LEAVE NO TRACE.**  For every guest, any number
of tracees, every interleaving, deaths included, whatever `last_syscall` held
and whatever memory is refused: when no installed file callback ever returns -1
and no syscall callback is installed, the tracees, what they share and the
syscalls that the kernel gets are those of the programs without a tracer —
although the one word is shared and the loop may take exits for entries —, as
long as the ptrace requests succeed and no stop is polled that the loop does
not pass on: a SIGTRAP, a SIGCONT, a group stop. -/
theorem watched_is_native (cbs : TracerCallbacks) (hcb : cbs.syscall = none)
    (hgrant : DeniesNothing cbs) (w : Watch Γ) (ms : List Move)
    (hpassed : (native G).Along PassedOn ⟨w.tasks, w.world⟩ ms) :
    ((watched G cbs).out w ms).filter Seen.isEnter = (native G).out ⟨w.tasks, w.world⟩ ms
      ∧ ((watched G cbs).after w ms).tasks = ((native G).after ⟨w.tasks, w.world⟩ ms).tasks
      ∧ ((watched G cbs).after w ms).world = ((native G).after ⟨w.tasks, w.world⟩ ms).world := by
  exact watched_natives G hcb hgrant w ms hpassed

/-! ## §8. One tracee. -/

/-- Every process but `p` is dead. -/
def LeftAlone (p : Pid) (s : Box Γ) : Prop := ∀ q, q ≠ p → s.tasks q = .dead

/-- The dead stay dead under every policy. -/
theorem policyStep_leftAlone (policy : Policy) (p : Pid) (s : Box Γ) (m : Move)
    (h : LeftAlone p s) : LeftAlone p (policyStep G policy s m).1 := by
  intro q hq
  have hdead := h q hq
  have hupdate : ∀ {r : Pid} {t : Task}, (r = q → t = .dead) →
      Function.update s.tasks r t q = .dead := by
    intro r t ht
    by_cases hr : q = r
    · subst hr
      rw [Function.update_self, ht rfl]
    · rw [Function.update_of_ne hr, hdead]
  cases m with
  | run r =>
      refine hupdate fun hr => ?_
      rw [hr, hdead]
      rfl
  | death r => exact hupdate fun _ => rfl
  | poll r a =>
      cases hstop : (s.tasks r).stop? with
      | none =>
          simp only [policyStep, hstop]
          exact hdead
      | some stop =>
          simp only [policyStep, hstop]
          refine hupdate fun hr => ?_
          rw [hr, hdead] at hstop
          cases hstop

/-- A lone tracee is disturbed by nobody. -/
theorem lone_undisturbed (cbs : TracerCallbacks) {p : Pid} {s : Box Γ} (h : LeftAlone p s)
    (ms : List Move) : (boxed G cbs).Along Undisturbing s ms := by
  refine Machine.along_of_invariant (policyStep_leftAlone G (vetOpens cbs) p) ?_ h
  intro s m hs
  -- whoever is not dead is `p`
  have halive : ∀ {q}, s.tasks q ≠ .dead → q = p := fun hq => by_contra fun hne => hq (hs _ hne)
  have hinside : ∀ {q}, (s.tasks q).insideOpen = true → q = p := by
    intro q hq
    refine halive fun hdead => ?_
    rw [hdead] at hq
    cases hq
  cases m with
  | run q => exact True.intro
  | death q =>
      intro hq r hr
      exact hs r (hinside hq ▸ hr)
  | poll q a =>
      intro regs hstop r hr
      have hq : q = p := by
        refine halive fun hdead => ?_
        rw [hdead] at hstop
        cases hstop
      rw [hinside hr, hq]

end Runs

/-! ### A program that opens one file. -/

/-- It opens the path at the end of a page for reading, whatever comes back. -/
def opener : Guest Unit where
  user _ regs _ := if regs = none then some (.entry, openRegs, ()) else none
  kernel _ regs _ := some (.exit, { regs with rax := 3 }, ())
  inject _ _ regs _ := (regs, ())
  mem _ _ := pageWords.mem
  kernel_number := by
    intro p regs g why regs' g' h
    obtain ⟨-, h⟩ := Prod.mk.inj (Option.some.inj h)
    obtain ⟨rfl, -⟩ := Prod.mk.inj h
    exact .inl rfl

/-- Process 1, created. -/
def soleTask : Pid → Task := fun p => if p = 1 then .user none else .dead

theorem soleTask_start (p : Pid) : soleTask p = .user none ∨ soleTask p = .dead := by
  unfold soleTask
  split
  · exact .inl rfl
  · exact .inr rfl

theorem soleTask_alone : LeftAlone 1 (⟨soleTask, ()⟩ : Box Unit) := fun _ hq => if_neg hq

/-- It enters the call and returns from it; nothing is refused to the tracer. -/
def openerMoves : List Move := [.run 1, .poll 1 {}, .run 1, .poll 1 {}]

theorem opener_reads : Answers.Reads {} pageWords.mem openRegs where
  path := ⟨_, pageWords_string, .inl rfl⟩
  memory := by rfl

theorem opener_smooth (cbs : TracerCallbacks) :
    (boxed opener cbs).Along (Smooth opener) ⟨soleTask, ()⟩ openerMoves := by
  obtain ⟨hrun, hentry, hrun', hexit, -⟩ := lone_undisturbed opener cbs soleTask_alone openerMoves
  refine ⟨⟨hrun, trivial⟩, ⟨hentry, ⟨rfl, rfl, rfl⟩, ?_⟩, ⟨hrun', trivial⟩,
    ⟨hexit, ⟨rfl, rfl, rfl⟩, ?_⟩, trivial⟩
  · intro regs htask _
    obtain ⟨-, rfl⟩ := Task.userStop.inj htask
    exact opener_reads
  · -- whatever it was answered, it is inside the call now, or at its exit
    intro regs htask
    have hinside : ∀ answered, (runTask opener 1
        (resumeTask opener 1 (.userStop .entry openRegs) 0 answered ()).1 ()).1
          ≠ .userStop .entry regs := by
      intro answered
      simp only [resumeTask, enterSyscall]
      split <;> intro h <;> cases h
    exact absurd htask (hinside _)

theorem opener_is_boxed :
    (watched opener denyReads).out ⟨-1, soleTask, ()⟩ openerMoves
        = (boxed opener denyReads).out ⟨soleTask, ()⟩ openerMoves
      ∧ ((watched opener denyReads).after ⟨-1, soleTask, ()⟩ openerMoves).tasks
        = ((boxed opener denyReads).after ⟨soleTask, ()⟩ openerMoves).tasks := by
  obtain ⟨hout, htasks, -⟩ := watched_is_boxed opener denyReads rfl soleTask () openerMoves
    soleTask_start (opener_smooth denyReads)
  exact ⟨hout, htasks⟩

theorem opener_is_refused :
    ((watched opener denyReads).after ⟨-1, soleTask, ()⟩ [.run 1, .poll 1 {}]).tasks 1
      = .kernelStop SYS_openat .exit (refused openRegs) := by
  obtain ⟨-, hrefused⟩ := opens_vetted opener denyReads rfl soleTask () openerMoves soleTask_start
    (opener_smooth denyReads)
  refine hrefused [.run 1] 1 {} [.run 1, .poll 1 {}] openRegs _ rfl rfl rfl pageWords_string ?_
  exact ⟨_, List.mem_singleton.mpr rfl, rfl⟩

/-- A table that denies nothing. -/
def allowReads : TracerCallbacks := { file_read := some fun _ => 0 }

theorem allowReads_denies_nothing : DeniesNothing allowReads := by
  refine ⟨fun f hf path => ?_, fun f hf => by cases hf⟩
  obtain rfl := Option.some.inj hf
  exact (by decide : (0 : Int) ≠ -1)

theorem opener_passedOn : (native opener).Along PassedOn ⟨soleTask, ()⟩ openerMoves := by
  refine ⟨trivial, ⟨⟨rfl, rfl, rfl⟩, ?_⟩, trivial, ⟨⟨rfl, rfl, rfl⟩, ?_⟩, trivial⟩
  all_goals
    intro kind regs hstop
    obtain ⟨rfl, -⟩ := Prod.mk.inj (Option.some.inj hstop)
    rfl

/-- It opens the file and returns, as if nobody had looked. -/
theorem opener_is_native :
    ((watched opener allowReads).out ⟨-1, soleTask, ()⟩ openerMoves).filter Seen.isEnter
        = [.enter 1 openRegs]
      ∧ ((watched opener allowReads).after ⟨-1, soleTask, ()⟩ openerMoves).tasks 1
        = .user (some { openRegs with rax := 3 }) := by
  obtain ⟨hout, htasks, -⟩ := watched_is_native opener allowReads rfl allowReads_denies_nothing
    ⟨-1, soleTask, ()⟩ openerMoves opener_passedOn
  exact ⟨hout, congrFun htasks 1⟩

end Prom.Tracer
