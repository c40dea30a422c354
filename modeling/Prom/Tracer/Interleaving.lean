/-
  Prom.Tracer.Interleaving — several tracees, one `last_syscall`.

  `tracer_init` asks for PTRACE_O_TRACEFORK and PTRACE_O_TRACECLONE, so the
  loop serves the stops of a whole process tree, in the order the kernel
  reports them.  The memory that tells entries from exits is one static word
  for all of them.  This file runs any number of tracees against the loop and
  compares the run with the one that each tracee would have had alone.

  The comparison goes through an ideal tracker, which keeps one phase per
  tracee instead of the shared word:

      idealRun projects on every tracee         (it has no shared state)
      alone, the loop is the ideal tracker      (`Synced`, one tracee)
      together, it is the ideal tracker exactly when every openat stop that
      would reach a callback finds the shared word in step (`InStep`)

  Main results:
    * `no_interference_iff` — tracees do not interfere iff the run is in step.
    * `overlapping_openats_interfere` — two processes entering openat one
      after the other: the second one reaches no callback.
-/
import Prom.Tracer.SingleTracee

namespace Prom.Tracer

/-! ## §1. The system. -/

/-- What the kernel reports, one wait status at a time. -/
inductive Event where
  /-- A syscall stop of `p`. -/
  | stop (p : Pid) (regs : UserRegs) (mem : TraceeMem)
  /-- `p` exited or was killed: its status is not a stop. -/
  | death (p : Pid)

/-- The tracee an event is about. -/
def Event.pid : Event → Pid
  | .stop p _ _ => p
  | .death p => p

/-- The tracer's word and every tracee's phase (`none` once it is dead). -/
structure System where
  last : Word
  tracees : Pid → Option Phase

/-- The system `tracer_init` leaves: no syscall seen yet. -/
def System.start : System := ⟨-1, fun _ => some .outside⟩

/-- The part of a handler's requests that the tracee, its registers and the
callbacks see. -/
def visible (log : List Action) : List Action := log.filter fun a => !a.isOpenCheck

/-- One event.  A dead process has no stops. -/
def stepSystem (cbs : TracerCallbacks) (s : System) :
    Event → Option (Pid × List Action) × System
  | .death p => (none, { s with tracees := Function.update s.tracees p none })
  | .stop p regs mem =>
      match s.tracees p with
      | none => (none, s)
      | some ph =>
          let reported := ph.report regs
          let h := tracerLoop cbs (obliging reported mem)
            (.child p (stopStatus (SIGTRAP + 0x80) 0)) s.last
          (some (p, visible h.log),
            ⟨h.last_syscall, Function.update s.tracees p (some (ph.advance reported h.log))⟩)

/-- What the handler does at each stop of a run, in order. -/
def runSystem (cbs : TracerCallbacks) : System → List Event → List (Pid × List Action)
  | _, [] => []
  | s, e :: es => (stepSystem cbs s e).1.toList ++ runSystem cbs (stepSystem cbs s e).2 es

/-- The events of one tracee. -/
def eventsOf (p : Pid) (es : List Event) : List Event := es.filter fun e => e.pid == p

/-- What was done at the stops of one tracee. -/
def stopsOf (p : Pid) (out : List (Pid × List Action)) : List (Pid × List Action) :=
  out.filter fun o => o.1 == p

/-- Every tracee is handled as if it were alone. -/
def NoInterference (cbs : TracerCallbacks) (es : List Event) : Prop :=
  ∀ p, stopsOf p (runSystem cbs .start es) = runSystem cbs .start (eventsOf p es)

/-! ## §2. The ideal tracker. -/

/-- A stop handled with the given answer to "is this open checked?". -/
def stopWith (cbs : TracerCallbacks) (ph : Phase) (regs : UserRegs) (mem : TraceeMem)
    (check : Bool) : List Action × Phase :=
  let reported := ph.report regs
  let log := stopLog cbs (obliging reported mem) reported check
  (visible log, ph.advance reported log)

/-- The check is due at the entry of an `openat`. -/
def checkDue (ph : Phase) (regs : UserRegs) : Bool :=
  decide (ph = .outside) && decide (regs.orig_rax = SYS_openat)

/-- One event, tracked by phase. -/
def idealStep (cbs : TracerCallbacks) (tracees : Pid → Option Phase) :
    Event → Option (Pid × List Action) × (Pid → Option Phase)
  | .death p => (none, Function.update tracees p none)
  | .stop p regs mem =>
      match tracees p with
      | none => (none, tracees)
      | some ph =>
          let r := stopWith cbs ph regs mem (checkDue ph (ph.report regs))
          (some (p, r.1), Function.update tracees p (some r.2))

/-- A run of the ideal tracker. -/
def idealRun (cbs : TracerCallbacks) : (Pid → Option Phase) → List Event →
    List (Pid × List Action)
  | _, [] => []
  | ts, e :: es => (idealStep cbs ts e).1.toList ++ idealRun cbs (idealStep cbs ts e).2 es

/-- A dead process has no stops. -/
theorem idealStep_dead (cbs : TracerCallbacks) {ts : Pid → Option Phase} {p : Pid}
    (h : ts p = none) (regs : UserRegs) (mem : TraceeMem) :
    idealStep cbs ts (.stop p regs mem) = (none, ts) := by
  simp only [idealStep, h]

theorem idealStep_live (cbs : TracerCallbacks) {ts : Pid → Option Phase} {p : Pid} {ph : Phase}
    (h : ts p = some ph) (regs : UserRegs) (mem : TraceeMem) :
    idealStep cbs ts (.stop p regs mem)
      = (some (p, (stopWith cbs ph regs mem (checkDue ph (ph.report regs))).1),
         Function.update ts p (some (stopWith cbs ph regs mem (checkDue ph (ph.report regs))).2)) := by
  simp only [idealStep, h]

/-- The ideal tracker touches no phase but the event's own. -/
theorem idealStep_frame (cbs : TracerCallbacks) (ts : Pid → Option Phase) (e : Event) {p : Pid}
    (h : p ≠ e.pid) : (idealStep cbs ts e).2 p = ts p := by
  cases e with
  | death q => exact Function.update_of_ne h _ _
  | stop q regs mem =>
      cases hq : ts q with
      | none => rw [idealStep_dead cbs hq]
      | some ph =>
          rw [idealStep_live cbs hq]
          exact Function.update_of_ne h _ _

/-- What it does depends on the event's own phase alone. -/
theorem idealStep_congr (cbs : TracerCallbacks) {ts ts' : Pid → Option Phase} (e : Event)
    (h : ts e.pid = ts' e.pid) :
    (idealStep cbs ts e).1 = (idealStep cbs ts' e).1
      ∧ (idealStep cbs ts e).2 e.pid = (idealStep cbs ts' e).2 e.pid := by
  cases e with
  | death q => exact ⟨rfl, by simp [idealStep, Event.pid]⟩
  | stop q regs mem =>
      have hq : ts q = ts' q := h
      cases hq' : ts' q with
      | none =>
          rw [idealStep_dead cbs (hq.trans hq'), idealStep_dead cbs hq']
          exact ⟨rfl, h⟩
      | some ph =>
          rw [idealStep_live cbs (hq.trans hq'), idealStep_live cbs hq']
          exact ⟨rfl, by simp [Event.pid]⟩

/-- An output belongs to its event. -/
theorem idealStep_pid (cbs : TracerCallbacks) (ts : Pid → Option Phase) (e : Event) :
    ∀ o ∈ (idealStep cbs ts e).1, o.1 = e.pid := by
  intro o ho
  cases e with
  | death q => exact absurd ho (by simp [idealStep])
  | stop q regs mem =>
      cases hq : ts q with
      | none =>
          rw [idealStep_dead cbs hq] at ho
          exact absurd ho (by simp)
      | some ph =>
          rw [idealStep_live cbs hq] at ho
          simp only [Option.mem_def, Option.some.injEq] at ho
          rw [← ho]
          rfl

/-- **The ideal tracker projects**: the stops of `p` are handled as in the run
of `p`'s events alone, from any state that agrees on `p`. -/
theorem idealRun_project (cbs : TracerCallbacks) (p : Pid) :
    ∀ (es : List Event) (ts ts' : Pid → Option Phase), ts p = ts' p →
      stopsOf p (idealRun cbs ts es) = idealRun cbs ts' (eventsOf p es)
  | [], _, _, _ => rfl
  | e :: es, ts, ts', h => by
      simp only [idealRun, stopsOf, List.filter_append]
      by_cases hp : e.pid = p
      · subst hp
        -- an event of `p`: both runs take the step
        obtain ⟨hout, hnext⟩ := idealStep_congr cbs e h
        have ih := idealRun_project cbs e.pid es _ _ hnext
        rw [show eventsOf e.pid (e :: es) = e :: eventsOf e.pid es by simp [eventsOf], idealRun,
            ← hout, ← ih]
        congr 1
        rw [List.filter_eq_self]
        intro o ho
        simpa using idealStep_pid cbs ts e o (by simpa using ho)
      · have hnext : (idealStep cbs ts e).2 p = ts' p := by
          rw [idealStep_frame cbs ts e (Ne.symm hp), h]
        have ih := idealRun_project cbs p es _ _ hnext
        rw [show eventsOf p (e :: es) = eventsOf p es by simp [eventsOf, hp], ← ih]
        -- an event of another tracee is in neither
        have hnone : (idealStep cbs ts e).1.toList.filter (fun o => o.1 == p) = [] := by
          rw [List.filter_eq_nil_iff]
          intro o ho
          have hpid := idealStep_pid cbs ts e o (by simpa using ho)
          simp [hpid, hp]
        rw [hnone, List.nil_append]
        rfl

/-! ## §3. The loop as a tracker with a guessed check. -/

/-- The table has no syscall callback. -/
abbrev Plain (cbs : TracerCallbacks) : Prop := cbs.syscall = none

theorem stepSystem_dead (cbs : TracerCallbacks) {s : System} {p : Pid}
    (h : s.tracees p = none) (regs : UserRegs) (mem : TraceeMem) :
    stepSystem cbs s (.stop p regs mem) = (none, s) := by
  simp only [stepSystem, h]

/-- A stop is handled like the ideal tracker's, with the toggle's guard for
the check. -/
theorem stepSystem_live {cbs : TracerCallbacks} (hcb : Plain cbs) {s : System} {p : Pid}
    {ph : Phase} (h : s.tracees p = some ph) (regs : UserRegs) (mem : TraceeMem) :
    stepSystem cbs s (.stop p regs mem)
      = (some (p, (stopWith cbs ph regs mem (guardOpen s.last (ph.report regs).orig_rax)).1),
         ⟨toggle s.last (ph.report regs).orig_rax,
          Function.update s.tracees p
            (some (stopWith cbs ph regs mem (guardOpen s.last (ph.report regs).orig_rax)).2)⟩) := by
  have hplain := handleSyscalls_plain cbs (obliging (ph.report regs) mem) s.last hcb rfl rfl
  simp only [stepSystem, h, tracerLoop_syscall, hplain]
  rfl

/-- Whether `syscall_openat` reaches a callback on these registers and this
memory: the path can be read and an installed callback is selected. -/
def consults (cbs : TracerCallbacks) (k : Kernel) (regs : UserRegs) : Bool :=
  match readString k regs.rsi with
  | .str _ _ => (cbs.file_read.isSome && wantsRead regs) || (cbs.file_write.isSome && wantsWrite regs)
  | _ => false

/-- Without a callback reached, `syscall_openat` neither calls nor denies. -/
theorem syscallOpenat_of_not_consults {cbs : TracerCallbacks} {k : Kernel} {regs : UserRegs}
    (h : consults cbs k regs = false) : syscallOpenat cbs k regs = ([.openCheck], 0) := by
  unfold consults at h
  unfold syscallOpenat
  cases hr : readString k regs.rsi with
  | null live => rfl
  | overrun => rfl
  | str val live =>
      simp only [hr, Bool.or_eq_false_iff] at h
      obtain ⟨h1, h2⟩ := h
      cases hfr : cbs.file_read <;> cases hfw : cbs.file_write <;>
        simp_all [consult]

/-- With a callback reached, the requests are more than those of a stop that
passes. -/
theorem syscallOpenat_of_consults {cbs : TracerCallbacks} {k : Kernel} {regs : UserRegs}
    (h : consults cbs k regs = true) : visible (syscallOpenat cbs k regs).1 ≠ [] := by
  unfold consults at h
  unfold syscallOpenat
  cases hr : readString k regs.rsi with
  | null live => simp [hr] at h
  | overrun => simp [hr] at h
  | str val live =>
      simp only [hr, Bool.or_eq_true, Bool.and_eq_true] at h
      simp only [consult_log, visible, List.filter_cons, List.filter_append, ne_eq]
      rcases h with ⟨h1, h2⟩ | ⟨h1, h2⟩
      · simp [h1, h2, Action.isOpenCheck]
      · simp [h1, h2, Action.isOpenCheck]

/-- When no callback is reached, checking and passing are one and the same. -/
theorem checkedLog_of_not_consults {cbs : TracerCallbacks} {k : Kernel} {regs : UserRegs}
    (h : consults cbs k regs = false) :
    visible (checkedLog cbs k regs) = passLog regs
      ∧ writtenBack (checkedLog cbs k regs) = writtenBack (passLog regs) := by
  rw [checkedLog, syscallOpenat_of_not_consults h]
  exact ⟨rfl, rfl⟩

/-- When one is reached, they differ. -/
theorem checkedLog_of_consults {cbs : TracerCallbacks} {k : Kernel} {regs : UserRegs}
    (h : consults cbs k regs = true) :
    visible (checkedLog cbs k regs) ≠ visible (passLog regs) := by
  intro heq
  have hlen := congrArg List.length heq
  rw [checkedLog, visible, List.filter_append, List.length_append] at hlen
  have hpos : 0 < (visible (syscallOpenat cbs k regs).1).length :=
    List.length_pos_iff.mpr (syscallOpenat_of_consults h)
  have hpass : (visible (passLog regs)).length = 2 := rfl
  have hrest : (List.filter (fun a => !a.isOpenCheck)
      [Action.setregs (denyRegs (syscallOpenat cbs k regs).2 regs), .resume 0]).length = 2 := rfl
  unfold visible at hpos
  omega

/-- The answer to "is this open checked?" is seen only through a callback. -/
theorem stopWith_congr (cbs : TracerCallbacks) (ph : Phase) (regs : UserRegs) (mem : TraceeMem)
    {c d : Bool}
    (h : consults cbs (obliging (ph.report regs) mem) (ph.report regs) = true → c = d) :
    stopWith cbs ph regs mem c = stopWith cbs ph regs mem d := by
  by_cases hcons : consults cbs (obliging (ph.report regs) mem) (ph.report regs) = true
  · rw [h hcons]
  · have hno := Bool.eq_false_iff.mpr hcons
    obtain ⟨hvis, hwritten⟩ := checkedLog_of_not_consults hno
    have hall : ∀ e, stopWith cbs ph regs mem e = stopWith cbs ph regs mem false := by
      intro e
      cases e
      · rfl
      · refine Prod.ext hvis ?_
        cases ph with
        | inside left => rfl
        | outside =>
            show Phase.inside ((writtenBack (checkedLog cbs (obliging regs mem) regs)).getD
              regs).orig_rax = _
            rw [show writtenBack (checkedLog cbs (obliging regs mem) regs) = _ from hwritten]
            rfl
    rw [hall c, hall d]

/-- Through a callback it is seen. -/
theorem stopWith_inj {cbs : TracerCallbacks} {ph : Phase} {regs : UserRegs} {mem : TraceeMem}
    {c d : Bool} (h : (stopWith cbs ph regs mem c).1 = (stopWith cbs ph regs mem d).1)
    (hcons : consults cbs (obliging (ph.report regs) mem) (ph.report regs) = true) : c = d := by
  have hne := checkedLog_of_consults hcons
  cases c <;> cases d
  · rfl
  · exact absurd h.symm hne
  · exact absurd h hne
  · rfl

/-! ## §4. In step. -/

/-- The shared word tells the truth about this stop, or nobody can tell: if it
reports `SYS_openat` and a callback would be reached, then the word differs
from `SYS_openat` exactly at an entry. -/
def InStep (cbs : TracerCallbacks) (s : System) : Event → Prop
  | .death _ => True
  | .stop p regs mem => ∀ ph, s.tracees p = some ph →
      (ph.report regs).orig_rax = SYS_openat →
      consults cbs (obliging (ph.report regs) mem) (ph.report regs) = true →
        (s.last ≠ SYS_openat ↔ ph = .outside)

/-- Every stop of the run is in step. -/
def AlwaysInStep (cbs : TracerCallbacks) : System → List Event → Prop
  | _, [] => True
  | s, e :: es => InStep cbs s e ∧ AlwaysInStep cbs (stepSystem cbs s e).2 es

/-- Under the toggle's guard and under the phase, an openat stop is checked
alike iff the word is in step. -/
theorem guard_eq_due_iff (last : Word) (ph : Phase) (regs : UserRegs) :
    guardOpen last (ph.report regs).orig_rax = checkDue ph (ph.report regs) ↔
      ((ph.report regs).orig_rax = SYS_openat → (last ≠ SYS_openat ↔ ph = .outside)) := by
  unfold guardOpen checkDue
  by_cases hn : (ph.report regs).orig_rax = SYS_openat <;>
    by_cases hl : last = SYS_openat <;>
      by_cases hp : ph = .outside <;> simp [hn, hl, hp]

/-- A stop in step is the ideal tracker's. -/
theorem stepSystem_inStep {cbs : TracerCallbacks} (hcb : Plain cbs) {s : System} {e : Event}
    (h : InStep cbs s e) :
    (stepSystem cbs s e).1 = (idealStep cbs s.tracees e).1
      ∧ (stepSystem cbs s e).2.tracees = (idealStep cbs s.tracees e).2 := by
  cases e with
  | death p => exact ⟨rfl, rfl⟩
  | stop p regs mem =>
      cases hp : s.tracees p with
      | none =>
          rw [stepSystem_dead cbs hp, idealStep_dead cbs hp]
          exact ⟨rfl, rfl⟩
      | some ph =>
          have hstop := stopWith_congr cbs ph regs mem (fun hcons =>
            (guard_eq_due_iff s.last ph regs).mpr fun hopen => h ph hp hopen hcons)
          rw [stepSystem_live hcb hp, idealStep_live cbs hp, hstop]
          exact ⟨rfl, rfl⟩

/-- A stop that is handled like the ideal tracker's is in step. -/
theorem inStep_of_eq {cbs : TracerCallbacks} (hcb : Plain cbs) {s : System} {e : Event}
    (h : (stepSystem cbs s e).1 = (idealStep cbs s.tracees e).1) : InStep cbs s e := by
  cases e with
  | death p => exact True.intro
  | stop p regs mem =>
      intro ph hp hopen hcons
      rw [stepSystem_live hcb hp, idealStep_live cbs hp] at h
      have hlogs := congrArg Prod.snd (Option.some.inj h)
      exact (guard_eq_due_iff s.last ph regs).mp (stopWith_inj hlogs hcons) hopen

/-- **The loop is the ideal tracker on a run that stays in step.** -/
theorem runSystem_eq_ideal {cbs : TracerCallbacks} (hcb : Plain cbs) :
    ∀ (es : List Event) (s : System), AlwaysInStep cbs s es →
      runSystem cbs s es = idealRun cbs s.tracees es
  | [], _, _ => rfl
  | e :: es, s, h => by
      obtain ⟨hout, hnext⟩ := stepSystem_inStep hcb h.1
      rw [runSystem, idealRun, hout, runSystem_eq_ideal hcb es _ h.2, hnext]

/-- Conversely, a run that equals the ideal tracker's stays in step. -/
theorem alwaysInStep_of_eq {cbs : TracerCallbacks} (hcb : Plain cbs) :
    ∀ (es : List Event) (s : System), runSystem cbs s es = idealRun cbs s.tracees es →
      AlwaysInStep cbs s es
  | [], _, _ => True.intro
  | e :: es, s, h => by
      have hsame : (stepSystem cbs s e).1.isSome = (idealStep cbs s.tracees e).1.isSome := by
        cases e with
        | death p => rfl
        | stop p regs mem =>
            cases hp : s.tracees p with
            | none => rw [stepSystem_dead cbs hp, idealStep_dead cbs hp]
            | some ph => rw [stepSystem_live hcb hp, idealStep_live cbs hp]; rfl
      rw [runSystem, idealRun] at h
      have hsplit : (stepSystem cbs s e).1 = (idealStep cbs s.tracees e).1
          ∧ runSystem cbs (stepSystem cbs s e).2 es
            = idealRun cbs (idealStep cbs s.tracees e).2 es := by
        revert h hsame
        cases (stepSystem cbs s e).1 <;> cases (idealStep cbs s.tracees e).1 <;> simp
      have hstep := inStep_of_eq hcb hsplit.1
      refine ⟨hstep, alwaysInStep_of_eq hcb es _ ?_⟩
      rw [hsplit.2, (stepSystem_inStep hcb hstep).2]

/-! ## §5. Alone, a tracee is in step. -/

/-- The tracking of one tracee inside the system. -/
def SyncedAt (s : System) (p : Pid) : Prop :=
  ∀ ph, s.tracees p = some ph → Synced ⟨s.last, ph⟩

/-- A stop inside the system moves its tracee as a stop of a lone tracee. -/
theorem stepSystem_observe (fr fw : Option (Path → Int)) {s : System} {p : Pid} {ph : Phase}
    (h : s.tracees p = some ph) (regs : UserRegs) (mem : TraceeMem) :
    (stepSystem (fileCallbacks fr fw) s (.stop p regs mem)).2
      = ⟨(observe p ⟨s.last, ph⟩ (.syscall regs mem fr fw)).after.last,
         Function.update s.tracees p
           (some (observe p ⟨s.last, ph⟩ (.syscall regs mem fr fw)).after.phase)⟩ := by
  simp only [stepSystem, h]
  rfl

/-- The stop of a synced tracee is in step. -/
theorem inStep_of_synced (cbs : TracerCallbacks) {s : System} {e : Event}
    (h : SyncedAt s e.pid) : InStep cbs s e := by
  cases e with
  | death p => exact True.intro
  | stop p regs mem =>
      intro ph hp hopen _
      have hsync : Synced ⟨s.last, ph⟩ := h ph hp
      cases ph with
      | outside =>
          have hlast : s.last = -1 := hsync
          rw [hlast]
          exact ⟨fun _ => rfl, fun _ => SYS_openat_ne.symm⟩
      | inside left =>
          have hleft : left = SYS_openat := hopen
          have hin : s.last = left ∨ left = -1 := hsync
          rcases hin with hl | hl
          · exact ⟨fun hne => absurd (hl.trans hleft) hne, fun hf => absurd hf (by simp)⟩
          · exact absurd (hleft.symm.trans hl) SYS_openat_ne

/-- An event of a synced tracee leaves it synced. -/
theorem stepSystem_synced (fr fw : Option (Path → Int)) {s : System} {e : Event}
    (h : SyncedAt s e.pid) : SyncedAt (stepSystem (fileCallbacks fr fw) s e).2 e.pid := by
  cases e with
  | death p =>
      intro ph hph
      exact absurd hph (by simp [stepSystem, Event.pid])
  | stop p regs mem =>
      cases hp : s.tracees p with
      | none =>
          rw [stepSystem_dead _ hp]
          exact h
      | some ph =>
          have hafter := (syscallStop_synced p (h ph hp) regs mem fr fw).1
          rw [stepSystem_observe fr fw hp]
          intro ph' hph'
          obtain rfl : _ = ph' := by simpa [Event.pid] using hph'
          exact hafter

/-- Alone, a tracee stays in step. -/
theorem alwaysInStep_alone (fr fw : Option (Path → Int)) (p : Pid) :
    ∀ (es : List Event) (s : System), (∀ e ∈ es, e.pid = p) → SyncedAt s p →
      AlwaysInStep (fileCallbacks fr fw) s es
  | [], _, _, _ => True.intro
  | e :: es, s, hes, h => by
      obtain rfl := hes e List.mem_cons_self
      exact ⟨inStep_of_synced _ h, alwaysInStep_alone fr fw e.pid es _
        (fun e' he' => hes e' (List.mem_cons_of_mem _ he')) (stepSystem_synced fr fw h)⟩

/-- **Alone, the loop is the ideal tracker.** -/
theorem runSystem_alone (fr fw : Option (Path → Int)) (p : Pid) (es : List Event) :
    runSystem (fileCallbacks fr fw) .start (eventsOf p es)
      = idealRun (fileCallbacks fr fw) System.start.tracees (eventsOf p es) := by
  refine runSystem_eq_ideal rfl _ _ (alwaysInStep_alone fr fw p _ _ ?_ ?_)
  · intro e he
    simpa using (List.mem_filter.mp he).2
  · intro ph hph
    obtain rfl : Phase.outside = ph := Option.some.inj hph
    rfl

/-! ## §6. No interference, exactly when in step. -/

/-- The tracee of each output of a run does not depend on how it is
tracked. -/
theorem runSystem_pids {cbs : TracerCallbacks} (hcb : Plain cbs) :
    ∀ (es : List Event) (s : System) (ts : Pid → Option Phase),
      (∀ p, (s.tracees p).isSome = (ts p).isSome) →
      (runSystem cbs s es).map Prod.fst = (idealRun cbs ts es).map Prod.fst
  | [], _, _, _ => rfl
  | e :: es, s, ts, h => by
      simp only [runSystem, idealRun, List.map_append]
      cases e with
      | death p =>
          refine congrArg₂ _ rfl (runSystem_pids hcb es _ _ fun q => ?_)
          by_cases hq : q = p <;> simp [stepSystem, idealStep, hq, h]
      | stop p regs mem =>
          have hp := h p
          cases hs : s.tracees p with
          | none =>
              -- who is alive does not depend on the tracer
              have hts : ts p = none := by simpa [hs] using hp.symm
              rw [stepSystem_dead cbs hs, idealStep_dead cbs hts]
              exact congrArg₂ _ rfl (runSystem_pids hcb es _ _ h)
          | some ph =>
              obtain ⟨ph', hts⟩ : ∃ ph', ts p = some ph' := by
                rw [hs] at hp
                exact Option.isSome_iff_exists.mp hp.symm
              rw [stepSystem_live hcb hs, idealStep_live cbs hts]
              refine congrArg₂ _ rfl (runSystem_pids hcb es _ _ fun q => ?_)
              by_cases hq : q = p
              · subst hq; simp
              · simp [hq, h]

/-- Two lists that agree key by key, and on the order of the keys, agree. -/
theorem eq_of_stopsOf_eq :
    ∀ (l m : List (Pid × List Action)), l.map Prod.fst = m.map Prod.fst →
      (∀ p, stopsOf p l = stopsOf p m) → l = m
  | [], [], _, _ => rfl
  | [], _ :: _, h, _ => absurd h (by simp)
  | _ :: _, [], h, _ => absurd h (by simp)
  | a :: l, b :: m, hkeys, h => by
      obtain ⟨hab, hlm⟩ := List.cons.inj hkeys
      have hhead : a = b := by
        have hp := h a.1
        have hb : b.1 == a.1 := by simpa using hab.symm
        simp only [stopsOf, List.filter_cons, beq_self_eq_true, hb, if_true] at hp
        exact (List.cons.inj hp).1
      subst hhead
      refine congrArg _ (eq_of_stopsOf_eq l m hlm fun p => ?_)
      have hp := h p
      simp only [stopsOf, List.filter_cons] at hp
      split at hp
      · exact (List.cons.inj hp).2
      · exact hp

/-- **NO INTERFERENCE, EXACTLY.**  For any file callbacks and any interleaving
of the stops and deaths of any number of tracees, every tracee is handled as
if it were alone if and only if, at every stop that reports `SYS_openat` and
would reach a callback, the shared `last_syscall` differs from `SYS_openat` at
an entry and equals it at an exit. -/
theorem no_interference_iff (fr fw : Option (Path → Int)) (es : List Event) :
    NoInterference (fileCallbacks fr fw) es
      ↔ AlwaysInStep (fileCallbacks fr fw) .start es := by
  have hproject : ∀ p, runSystem (fileCallbacks fr fw) .start (eventsOf p es)
      = stopsOf p (idealRun (fileCallbacks fr fw) System.start.tracees es) := fun p => by
    rw [runSystem_alone, idealRun_project (fileCallbacks fr fw) p es _ _ rfl]
  constructor
  · intro h
    refine alwaysInStep_of_eq rfl es _ (eq_of_stopsOf_eq _ _ ?_ fun p => ?_)
    · exact runSystem_pids rfl es _ _ fun _ => rfl
    · rw [h p, hproject p]
  · intro h p
    rw [hproject p, runSystem_eq_ideal rfl es _ h]

/-! ## §7. Two overlapping opens. -/

/-- The registers of `openat(AT_FDCWD, 0x1000, O_RDONLY)` at its entry. -/
def openatRegs : UserRegs := { orig_rax := SYS_openat, rsi := 0x1000 }

/-- A memory that holds the string "s" at 0x1000. -/
def secretMem : TraceeMem := fun a =>
  if a = 0x1000 then some 0x73 else if 0x1000 ≤ a.toNat ∧ a.toNat < 0x2000 then some 0 else none

/-- Processes 1 and 2 enter openat, one after the other. -/
def overlappingOpens : List Event :=
  [.stop 1 openatRegs secretMem, .stop 2 openatRegs secretMem]

/-- **Overlapping opens interfere**: with a callback that denies every read,
process 1 is denied, and the openat of process 2 goes through unseen, while
alone it is denied too. -/
theorem overlapping_openats_interfere :
    runSystem (fileCallbacks (some fun _ => -1) none) .start overlappingOpens
        = [(1, [.fileRead [0x73], .setregs { openatRegs with orig_rax := -1, rax := -1 },
              .resume 0]),
           (2, [.setregs openatRegs, .resume 0])]
      ∧ runSystem (fileCallbacks (some fun _ => -1) none) .start (eventsOf 2 overlappingOpens)
        = [(2, [.fileRead [0x73], .setregs { openatRegs with orig_rax := -1, rax := -1 },
              .resume 0])]
      ∧ ¬ NoInterference (fileCallbacks (some fun _ => -1) none) overlappingOpens := by
  have htogether : runSystem (fileCallbacks (some fun _ => -1) none) .start overlappingOpens
        = [(1, [.fileRead [0x73], .setregs { openatRegs with orig_rax := -1, rax := -1 },
              .resume 0]),
           (2, [.setregs openatRegs, .resume 0])] := by decide
  have halone : runSystem (fileCallbacks (some fun _ => -1) none) .start
        (eventsOf 2 overlappingOpens)
        = [(2, [.fileRead [0x73], .setregs { openatRegs with orig_rax := -1, rax := -1 },
              .resume 0])] := by decide
  refine ⟨htogether, halone, fun h => ?_⟩
  have h2 := h 2
  rw [htogether, halone] at h2
  exact absurd h2 (by decide)

end Prom.Tracer
