/-
  Prom.Tracer.SingleTracee — the entry/exit toggle over the stops of one tracee.

  The kernel reports a syscall twice, on entry and on exit, with the same
  status word; `handle_syscalls` tells the two apart by comparing `orig_rax`
  with the number it remembered.  Here one tracee is run against the tracer
  loop: the kernel's side is a `Phase` (between two syscalls, or inside one
  whose exit will report the `orig_rax` left at the entry), the tracer's side
  is `last_syscall`.

  Two invariants cover every run that starts with `last_syscall = v`:

      Synced   — outside: last = -1;  inside: the exit will reset it to -1.
      Shifted  — every entry so far had the number v ≠ -1, and the tracer
                 takes entries for exits and exits for entries.

  A run starts Synced (v = -1) or Shifted (otherwise), stays Synced for ever,
  and leaves Shifted at the first entry with another number.

  Main results:
    * `syscallStop_synced`, `syscallStop_shifted` — the step lemmas.
    * `runTracee_synced`, `runTracee_shifted` — what every stop of a run
      satisfies.
    * `tracking_self_stabilises` — the toggle is exact and self-stabilising.
-/
import Prom.Tracer.Handlers

namespace Prom.Tracer

/-! ## §1. The kernel's side of one tracee. -/

/-- Where a tracee is with respect to its syscalls. -/
inductive Phase where
  /-- Between two syscalls: the next syscall stop is an entry. -/
  | outside
  /-- Inside a syscall: the next syscall stop is its exit, which reports the
  `orig_rax` left at the entry. -/
  | inside (left : Word)
  deriving Repr, DecidableEq

/-- The registers reported at a syscall stop.  At an entry they are the
tracee's; at an exit `orig_rax` is what the entry left there. -/
def Phase.report : Phase → UserRegs → UserRegs
  | .outside, regs => regs
  | .inside left, regs => { regs with orig_rax := left }

/-- The registers a handler wrote back. -/
def writtenBack (log : List Action) : Option UserRegs :=
  log.findSome? fun
    | .setregs regs => some regs
    | _ => none

/-- The phase after a syscall stop that was handled with requests `log`; the
entry leaves the `orig_rax` written back, or the reported one when nothing was
written. -/
def Phase.advance : Phase → UserRegs → List Action → Phase
  | .outside, reported, log => .inside ((writtenBack log).getD reported).orig_rax
  | .inside _, _, _ => .outside

/-- The kernel's answers at a stop where every request and allocation
succeeds. -/
def obliging (regs : UserRegs) (mem : TraceeMem) : Kernel := { getregs := .ok regs, mem := mem }

/-- The callback table with no syscall callback. -/
def fileCallbacks (file_read file_write : Option (Path → Int)) : TracerCallbacks :=
  { file_read := file_read, file_write := file_write }

/-! ### What a handled stop writes back. -/

/-- Calls of the file callbacks are not seen by what looks for other requests. -/
theorem fileCalls_unseen {α : Type} {f : Action → Option α}
    (hf : ∀ path, f (.fileRead path) = none ∧ f (.fileWrite path) = none) {calls : List Action}
    (h : ∀ a ∈ calls, ∃ path, a = .fileRead path ∨ a = .fileWrite path) :
    ∀ a ∈ calls, f a = none := by
  intro a ha
  obtain ⟨path, rfl | rfl⟩ := h a ha
  · exact (hf path).1
  · exact (hf path).2

theorem writtenBack_stopLog (cbs : TracerCallbacks) (k : Kernel) (regs : UserRegs) (check : Bool) :
    writtenBack (stopLog cbs k regs check)
      = some (if check then denyRegs (syscallOpenat cbs k regs).2 regs else regs) := by
  cases check
  · rfl
  · obtain ⟨calls, hlog, hcalls⟩ := syscallOpenat_log cbs k regs
    show writtenBack (checkedLog cbs k regs) = _
    rw [checkedLog, hlog, List.cons_append]
    show (calls ++ _).findSome? _ = _
    rw [List.findSome?_append,
      List.findSome?_eq_none_iff.mpr (fileCalls_unseen (fun _ => ⟨rfl, rfl⟩) hcalls)]
    rfl

/-- A denial writes the number `-1`; nothing else changes `orig_rax`. -/
theorem denyRegs_orig_rax (perm : Int) (regs : UserRegs) :
    (denyRegs perm regs).orig_rax = regs.orig_rax ∨ (denyRegs perm regs).orig_rax = -1 := by
  unfold denyRegs
  split
  · exact Or.inr rfl
  · exact Or.inl rfl

/-! ## §2. Runs of one tracee. -/

/-- A stop of the tracee, with the memory and the callback verdicts of that
moment. -/
inductive Stop where
  /-- A syscall stop. -/
  | syscall (regs : UserRegs) (mem : TraceeMem) (file_read file_write : Option (Path → Int))
  /-- A signal-delivery stop. -/
  | signal (s : Signal)
  /-- A ptrace event stop; the signal is SIGTRAP, or a stopping one. -/
  | event (number : Nat) (s : Signal)

/-- The tracer's memory and the kernel's, between two stops. -/
structure Tracking where
  last : Word
  phase : Phase
  deriving Repr, DecidableEq

/-- One stop of a run and what was done about it. -/
structure Obs where
  /-- The phase before the stop, for a syscall stop. -/
  phase : Option Phase
  /-- The registers reported at the stop. -/
  reported : UserRegs
  /-- The requests of the handler. -/
  log : List Action
  /-- The value `tracer_loop` returned. -/
  ret : Int
  /-- The state after the stop. -/
  after : Tracking

/-- The stop was the entry of a syscall. -/
def Obs.isEntry (o : Obs) : Bool := o.phase == some .outside

/-- The stop was the exit of a syscall. -/
def Obs.isExit (o : Obs) : Bool :=
  match o.phase with
  | some (.inside _) => true
  | _ => false

/-- The syscall number reported. -/
def Obs.number (o : Obs) : Word := o.reported.orig_rax

/-- One stop, from the wait status to the state after it. -/
def observe (p : Pid) (t : Tracking) : Stop → Obs
  | .syscall regs mem fr fw =>
      let reported := t.phase.report regs
      let h := tracerLoop (fileCallbacks fr fw) (obliging reported mem)
        (.child p (stopStatus (SIGTRAP + 0x80) 0)) t.last
      ⟨some t.phase, reported, h.log, h.ret,
        ⟨h.last_syscall, t.phase.advance reported h.log⟩⟩
  | .signal s =>
      let h := tracerLoop {} (obliging {} fun _ => none) (.child p (stopStatus s.1 0)) t.last
      ⟨none, {}, h.log, h.ret, ⟨h.last_syscall, t.phase⟩⟩
  | .event number s =>
      let h := tracerLoop {} (obliging {} fun _ => none)
        (.child p (stopStatus s.1 number)) t.last
      ⟨none, {}, h.log, h.ret, ⟨h.last_syscall, t.phase⟩⟩

/-- A run: one observation per stop. -/
def runTracee (p : Pid) : Tracking → List Stop → List Obs
  | _, [] => []
  | t, st :: rest => observe p t st :: runTracee p (observe p t st).after rest

/-! ## §3. One stop. -/

/-- The number an entry leaves in `orig_rax`. -/
def leftNumber (cbs : TracerCallbacks) (k : Kernel) (regs : UserRegs) (check : Bool) : Word :=
  (if check then denyRegs (syscallOpenat cbs k regs).2 regs else regs).orig_rax

/-- It is the number reported, or the `-1` of a denial. -/
theorem leftNumber_cases (cbs : TracerCallbacks) (k : Kernel) (regs : UserRegs) (check : Bool) :
    leftNumber cbs k regs check = regs.orig_rax ∨ leftNumber cbs k regs check = -1 := by
  cases check
  · exact Or.inl rfl
  · exact denyRegs_orig_rax _ _

/-- The toggle's guard of the open check. -/
def guardOpen (last number : Word) : Bool := decide (number = SYS_openat ∧ last ≠ SYS_openat)

theorem guardOpen_other {last number : Word} (h : number ≠ SYS_openat) :
    guardOpen last number = false := decide_eq_false fun hc => h hc.1

theorem guardOpen_self (n : Word) : guardOpen n n = false :=
  decide_eq_false fun hc => hc.2 hc.1

theorem guardOpen_of_ne {last number : Word} (h : last ≠ number) :
    guardOpen last number = decide (number = SYS_openat) := by
  unfold guardOpen
  by_cases hn : number = SYS_openat
  · subst hn; simp [h]
  · simp [hn]

/-- An entry stop. -/
theorem observe_entry (p : Pid) (last : Word) (regs : UserRegs) (mem : TraceeMem)
    (fr fw : Option (Path → Int)) :
    observe p ⟨last, .outside⟩ (.syscall regs mem fr fw) =
      ⟨some .outside, regs,
        stopLog (fileCallbacks fr fw) (obliging regs mem) regs (guardOpen last regs.orig_rax), 0,
        ⟨toggle last regs.orig_rax,
         .inside (leftNumber (fileCallbacks fr fw) (obliging regs mem) regs
           (guardOpen last regs.orig_rax))⟩⟩ := by
  have hplain := handleSyscalls_plain (fileCallbacks fr fw) (obliging regs mem) last
    rfl rfl rfl
  simp only [observe, tracerLoop_syscall, Phase.report, hplain, Phase.advance,
    writtenBack_stopLog, Option.getD_some]
  rfl

/-- An exit stop. -/
theorem observe_exit (p : Pid) (last left : Word) (regs : UserRegs) (mem : TraceeMem)
    (fr fw : Option (Path → Int)) :
    observe p ⟨last, .inside left⟩ (.syscall regs mem fr fw) =
      ⟨some (.inside left), { regs with orig_rax := left },
        stopLog (fileCallbacks fr fw) (obliging { regs with orig_rax := left } mem)
          { regs with orig_rax := left } (guardOpen last left), 0,
        ⟨toggle last left, .outside⟩⟩ := by
  have hplain := handleSyscalls_plain (fileCallbacks fr fw)
    (obliging { regs with orig_rax := left } mem) last rfl rfl rfl
  simp only [observe, tracerLoop_syscall, Phase.report, hplain, Phase.advance]
  rfl

/-- A stop that is not a syscall stop leaves the tracking alone. -/
theorem observe_other (p : Pid) (t : Tracking) (st : Stop)
    (hst : ∀ regs mem fr fw, st ≠ .syscall regs mem fr fw) :
    ∃ inject, observe p t st = ⟨none, {}, [.resume inject], 0, t⟩ := by
  cases st with
  | syscall regs mem fr fw => exact absurd rfl (hst regs mem fr fw)
  | signal s =>
      obtain ⟨inject, h⟩ := handleStopped_other {} (obliging {} fun _ => none)
        (stopStatus s.1 0 / 256) s t.last
      refine ⟨inject, ?_⟩
      simp only [observe, tracerLoop_signal, h]
      rfl
  | event number s =>
      obtain ⟨inject, h⟩ := handleStopped_other {} (obliging {} fun _ => none)
        (stopStatus s.1 number / 256) s t.last
      refine ⟨inject, ?_⟩
      simp only [observe, tracerLoop_signal, h]
      rfl

/-! ## §4. The two invariants. -/

/-- The tracer and the kernel agree on entries and exits. -/
def Synced (t : Tracking) : Prop :=
  match t.phase with
  | .outside => t.last = -1
  | .inside left => t.last = left ∨ left = -1

/-- The tracer takes entries for exits: every number so far was `v`. -/
def Shifted (v : Word) (t : Tracking) : Prop :=
  match t.phase with
  | .outside => t.last = v
  | .inside left => t.last = -1 ∧ left = v

/-- What a stop satisfies once the tracking is synced. -/
structure Obs.Exact (o : Obs) : Prop where
  /-- Between two syscalls the memory is reset. -/
  reset : o.after.phase = .outside → o.after.last = -1
  /-- The open check runs once at an `openat` entry, and nowhere else. -/
  checked : o.log.countP Action.isOpenCheck
    = if o.isEntry && decide (o.number = SYS_openat) then 1 else 0
  /-- An exit is written back unchanged. -/
  exitKept : o.isExit = true → writtenBack o.log = some o.reported

/-- Entering with a memory other than the number reported is handled
exactly. -/
theorem entry_exact (p : Pid) {last : Word} {regs : UserRegs} (h : last ≠ regs.orig_rax)
    (mem : TraceeMem) (fr fw : Option (Path → Int)) :
    Synced (observe p ⟨last, .outside⟩ (.syscall regs mem fr fw)).after
      ∧ (observe p ⟨last, .outside⟩ (.syscall regs mem fr fw)).Exact := by
  rw [observe_entry, toggle_ne h, guardOpen_of_ne h]
  refine ⟨?_, fun hout => absurd hout (by simp), ?_, fun hexit => absurd hexit (by simp [Obs.isExit])⟩
  · rcases leftNumber_cases (fileCallbacks fr fw) (obliging regs mem) regs
        (decide (regs.orig_rax = SYS_openat)) with hl | hl
    · exact Or.inl hl.symm
    · exact Or.inr hl
  · rw [stopLog_one_check]
    rfl

/-- Entering with the number `-1` resets the memory, whatever it was. -/
theorem entry_neg_one_exact (p : Pid) (last : Word) {regs : UserRegs} (h : regs.orig_rax = -1)
    (mem : TraceeMem) (fr fw : Option (Path → Int)) :
    Synced (observe p ⟨last, .outside⟩ (.syscall regs mem fr fw)).after
      ∧ (observe p ⟨last, .outside⟩ (.syscall regs mem fr fw)).Exact := by
  have hne : (-1 : Word) ≠ SYS_openat := SYS_openat_ne.symm
  rw [observe_entry, h, toggle_neg_one, guardOpen_other hne]
  refine ⟨Or.inl h.symm, fun hout => absurd hout (by simp), ?_,
    fun hexit => absurd hexit (by simp [Obs.isExit])⟩
  rw [stopLog_one_check]
  show 0 = if (true && decide (regs.orig_rax = SYS_openat)) = true then 1 else 0
  rw [h, decide_eq_false hne]
  rfl

/-- **Step lemma, synced.**  A syscall stop keeps the tracking synced and is
handled exactly. -/
theorem syscallStop_synced (p : Pid) {t : Tracking} (h : Synced t) (regs : UserRegs)
    (mem : TraceeMem) (fr fw : Option (Path → Int)) :
    Synced (observe p t (.syscall regs mem fr fw)).after
      ∧ (observe p t (.syscall regs mem fr fw)).Exact := by
  obtain ⟨last, phase⟩ := t
  cases phase with
  | outside =>
      have hlast : last = -1 := h
      by_cases hn : regs.orig_rax = -1
      · exact entry_neg_one_exact p last hn mem fr fw
      · exact entry_exact p (fun he => hn (he.symm.trans hlast)) mem fr fw
  | inside left =>
      have hin : last = left ∨ left = -1 := h
      -- either way the exit resets the tracker
      have htog : toggle last left = -1 := by
        rcases hin with rfl | rfl
        · exact toggle_self last
        · exact toggle_neg_one last
      have hguard : guardOpen last left = false := by
        rcases hin with rfl | rfl
        · exact guardOpen_self last
        · exact guardOpen_other SYS_openat_ne.symm
      rw [observe_exit, htog, hguard]
      exact ⟨rfl, fun _ => rfl, rfl, fun _ => rfl⟩

/-- **Step lemma, shifted.**  While every number is `v` the tracking stays
shifted; the first entry with another number syncs it, and is itself handled
exactly. -/
theorem syscallStop_shifted (p : Pid) {v : Word} {t : Tracking} (h : Shifted v t)
    (regs : UserRegs) (mem : TraceeMem) (fr fw : Option (Path → Int)) :
    (Shifted v (observe p t (.syscall regs mem fr fw)).after
        ∧ ¬((observe p t (.syscall regs mem fr fw)).isEntry = true
            ∧ (observe p t (.syscall regs mem fr fw)).number ≠ v))
      ∨ (Synced (observe p t (.syscall regs mem fr fw)).after
        ∧ (observe p t (.syscall regs mem fr fw)).Exact) := by
  obtain ⟨last, phase⟩ := t
  cases phase with
  | outside =>
      have hlast : last = v := h
      subst hlast
      by_cases hv : last = regs.orig_rax
      · -- the number is `v` again: the toggle resets, nothing is checked
        left
        rw [observe_entry, ← hv, toggle_self, guardOpen_self]
        exact ⟨⟨rfl, hv.symm⟩, fun hc => hc.2 hv.symm⟩
      · exact Or.inr (entry_exact p hv mem fr fw)
  | inside left =>
      -- at the exit the tracker takes the number up again
      obtain ⟨hlast, hleft⟩ : last = -1 ∧ left = v := h
      subst hlast
      subst hleft
      left
      rw [observe_exit]
      refine ⟨?_, fun hc => absurd hc.1 (by simp [Obs.isEntry])⟩
      show toggle (-1) left = left
      unfold toggle
      split
      next he => exact he
      next => rfl

/-- Every stop, synced. -/
theorem observe_synced (p : Pid) {t : Tracking} (h : Synced t) (st : Stop) :
    Synced (observe p t st).after ∧ (observe p t st).Exact := by
  by_cases hst : ∃ regs mem fr fw, st = .syscall regs mem fr fw
  · obtain ⟨regs, mem, fr, fw, rfl⟩ := hst
    exact syscallStop_synced p h regs mem fr fw
  · obtain ⟨inject, ho⟩ := observe_other p t st
      (fun regs mem fr fw he => hst ⟨regs, mem, fr, fw, he⟩)
    rw [ho]
    refine ⟨h, ?_, rfl, fun hexit => absurd hexit (by simp [Obs.isExit])⟩
    intro hout
    unfold Synced at h
    rw [show t.phase = .outside from hout] at h
    exact h

/-- Every stop, shifted. -/
theorem observe_shifted (p : Pid) {v : Word} {t : Tracking} (h : Shifted v t) (st : Stop) :
    (Shifted v (observe p t st).after
        ∧ ¬((observe p t st).isEntry = true ∧ (observe p t st).number ≠ v))
      ∨ (Synced (observe p t st).after ∧ (observe p t st).Exact) := by
  by_cases hst : ∃ regs mem fr fw, st = .syscall regs mem fr fw
  · obtain ⟨regs, mem, fr, fw, rfl⟩ := hst
    exact syscallStop_shifted p h regs mem fr fw
  · obtain ⟨inject, ho⟩ := observe_other p t st
      (fun regs mem fr fw he => hst ⟨regs, mem, fr, fw, he⟩)
    rw [ho]
    exact Or.inl ⟨h, fun hc => absurd hc.1 (by simp [Obs.isEntry])⟩

/-! ## §5. Runs. -/

/-- Between two syscalls the memory is `-1` or the value it started with. -/
theorem memory_of_inv {v : Word} {t : Tracking} (h : Synced t ∨ Shifted v t)
    (hout : t.phase = .outside) : t.last = -1 ∨ t.last = v := by
  obtain ⟨last, phase⟩ := t
  subst hout
  exact h

/-- The starting state satisfies one of the invariants. -/
theorem start_inv (v : Word) : Shifted v ⟨v, .outside⟩ := rfl

/-- A run keeps "synced or shifted". -/
theorem runTracee_inv (p : Pid) (v : Word) :
    ∀ (stops : List Stop) (t : Tracking), (Synced t ∨ Shifted v t) →
      ∀ o ∈ runTracee p t stops, Synced o.after ∨ Shifted v o.after
  | [], _, _, o, ho => absurd ho (by simp [runTracee])
  | st :: rest, t, h, o, ho => by
      have hstep : Synced (observe p t st).after ∨ Shifted v (observe p t st).after := by
        rcases h with h | h
        · exact Or.inl (observe_synced p h st).1
        · exact (observe_shifted p h st).elim (fun hs => Or.inr hs.1) fun hs => Or.inl hs.1
      rcases List.mem_cons.mp ho with rfl | ho
      · exact hstep
      · exact runTracee_inv p v rest _ hstep o ho

/-- A synced run is exact at every stop. -/
theorem runTracee_synced (p : Pid) :
    ∀ (stops : List Stop) (t : Tracking), Synced t → ∀ o ∈ runTracee p t stops, o.Exact
  | [], _, _, o, ho => absurd ho (by simp [runTracee])
  | st :: rest, t, h, o, ho => by
      obtain ⟨hsync, hexact⟩ := observe_synced p h st
      rcases List.mem_cons.mp ho with rfl | ho
      · exact hexact
      · exact runTracee_synced p rest _ hsync o ho

/-- At stop `i` an entry with a number other than `v` has been seen. -/
def SeenOther (v : Word) (obs : List Obs) (i : Nat) : Prop :=
  ∃ j ≤ i, ∃ o, obs[j]? = some o ∧ o.isEntry = true ∧ o.number ≠ v

/-- A shifted run is exact from the first entry with another number on. -/
theorem runTracee_shifted (p : Pid) (v : Word) :
    ∀ (stops : List Stop) (t : Tracking), Shifted v t →
      ∀ i o, (runTracee p t stops)[i]? = some o → SeenOther v (runTracee p t stops) i → o.Exact
  | [], _, _, i, o, ho, _ => absurd ho (by simp [runTracee])
  | st :: rest, t, h, i, o, ho, hseen => by
      obtain ⟨j, hji, o', ho', hentry, hne⟩ := hseen
      rcases observe_shifted p h st with ⟨hshift, hquiet⟩ | ⟨hsync, hexact⟩
      · -- still shifted: the entry lies further on
        cases j with
        | zero =>
            have heq : observe p t st = o' := by simpa [runTracee] using ho'
            subst heq
            exact absurd ⟨hentry, hne⟩ hquiet
        | succ j =>
            obtain ⟨i, rfl⟩ : ∃ i', i = i' + 1 := ⟨i - 1, by omega⟩
            exact runTracee_shifted p v rest _ hshift i o (by simpa [runTracee] using ho)
              ⟨j, by omega, o', by simpa [runTracee] using ho', hentry, hne⟩
      · -- synced by this very stop
        cases i with
        | zero =>
            have heq : observe p t st = o := by simpa [runTracee] using ho
            exact heq ▸ hexact
        | succ i =>
            have hmem : o ∈ runTracee p (observe p t st).after rest :=
              List.mem_of_getElem? (by simpa [runTracee] using ho)
            exact runTracee_synced p rest _ hsync o hmem

/-- Every stop of a run is answered with one `PTRACE_SYSCALL`, last. -/
theorem observe_resumes_once (p : Pid) (t : Tracking) (st : Stop) :
    (observe p t st).log.countP Action.isResume = 1
      ∧ (∃ inject, (observe p t st).log.getLast? = some (.resume inject))
      ∧ (observe p t st).ret = 0 := by
  by_cases hst : ∃ regs mem fr fw, st = .syscall regs mem fr fw
  · obtain ⟨regs, mem, fr, fw, rfl⟩ := hst
    obtain ⟨last, phase⟩ := t
    cases phase with
    | outside =>
        rw [observe_entry]
        obtain ⟨hone, hlast⟩ := stopLog_resumes_once (fileCallbacks fr fw) (obliging regs mem)
          regs (guardOpen last regs.orig_rax)
        exact ⟨hone, ⟨0, hlast⟩, rfl⟩
    | inside left =>
        rw [observe_exit]
        obtain ⟨hone, hlast⟩ := stopLog_resumes_once (fileCallbacks fr fw)
          (obliging { regs with orig_rax := left } mem) { regs with orig_rax := left }
          (guardOpen last left)
        exact ⟨hone, ⟨0, hlast⟩, rfl⟩
  · -- any other stop is answered by one resume
    obtain ⟨inject, ho⟩ := observe_other p t st
      (fun regs mem fr fw he => hst ⟨regs, mem, fr, fw, he⟩)
    rw [ho]
    exact ⟨rfl, ⟨inject, rfl⟩, rfl⟩

theorem runTracee_resumes_once (p : Pid) :
    ∀ (stops : List Stop) (t : Tracking), ∀ o ∈ runTracee p t stops,
      o.log.countP Action.isResume = 1
        ∧ (∃ inject, o.log.getLast? = some (.resume inject)) ∧ o.ret = 0
  | [], _, o, ho => absurd ho (by simp [runTracee])
  | st :: rest, t, o, ho => by
      rcases List.mem_cons.mp ho with rfl | ho
      · exact observe_resumes_once p t st
      · exact runTracee_resumes_once p rest _ o ho

/-- **ENTRY/EXIT TRACKING OF ONE TRACEE IS EXACT AND SELF-STABILISING.**  For
every start value `v` of `last_syscall` and every run of stops:
(a) between two syscalls the memory is `-1` or `v`;
(b) from the first entry with a number other than `v` on — from the very start
for `v = -1` — it is `-1` between two syscalls, the open check runs exactly
once at every `openat` entry and at no other stop, and every exit is written
back unchanged;
(c) every stop is answered with one `PTRACE_SYSCALL`, which comes last, and
`tracer_loop` returns 0. -/
theorem tracking_self_stabilises (p : Pid) (v : Word) (stops : List Stop) :
    (∀ o ∈ runTracee p ⟨v, .outside⟩ stops,
        o.after.phase = .outside → o.after.last = -1 ∨ o.after.last = v)
      ∧ (∀ i o, (runTracee p ⟨v, .outside⟩ stops)[i]? = some o →
          (v = -1 ∨ SeenOther v (runTracee p ⟨v, .outside⟩ stops) i) →
            (o.after.phase = .outside → o.after.last = -1)
            ∧ (o.log.countP Action.isOpenCheck
                = if o.isEntry && decide (o.number = SYS_openat) then 1 else 0)
            ∧ (o.isExit = true → writtenBack o.log = some o.reported))
      ∧ (∀ o ∈ runTracee p ⟨v, .outside⟩ stops,
          o.log.countP Action.isResume = 1
            ∧ (∃ inject, o.log.getLast? = some (.resume inject)) ∧ o.ret = 0) := by
  refine ⟨?_, ?_, runTracee_resumes_once p stops _⟩
  · intro o ho hout
    exact memory_of_inv (runTracee_inv p v stops _ (Or.inr (start_inv v)) o ho) hout
  · intro i o ho hseen
    have hexact : o.Exact := by
      rcases hseen with rfl | hseen
      · exact runTracee_synced p stops ⟨-1, .outside⟩ rfl o (List.mem_of_getElem? ho)
      · exact runTracee_shifted p v stops _ (start_inv v) i o ho hseen
    exact ⟨hexact.reset, hexact.checked, hexact.exitKept⟩

end Prom.Tracer
