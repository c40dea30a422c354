/-
  Prom.Tracer.Clients — the two programs that trace.

  `shell/shell.c` installs both file callbacks: each writes a line to
  `prom_callbacks.log`, and the one for writing denies a single path.  The file
  is opened anew for each line, and nobody looks whether it could be.
  `libtracer/examples/trace_file_reads.c` installs the one for reading, prints
  a line and denies nothing.

  A callback here is what it writes and what it returns, if it returns; the
  text of a run is what its calls have written, in order.

  Main results:
    * `text_is_audit` — what is written is the audit of the run: a line for
      each access of each `openat`, at its entry, in order.
    * `shell_policy` — the shell's log and its one denied file, and when the
      callbacks go wrong.
    * `reads_traced` — `trace_file_reads` prints the reads of a program and
      leaves no trace on it.
-/
import Prom.Tracer.Sandbox

namespace Prom.Tracer

open Prom.C

/-! ## §1. The sources: shell.c, utils/logger.h and trace_file_reads.c. -/

/-- The bytes of a string literal. -/
def literal (s : String) : List Byte := s.toList.map fun c => BitVec.ofNat 8 c.toNat

/-- `enum LOG_LEVELS`. -/
inductive LogLevel where
  | ERROR
  | WARN
  | INFO
  | DEBUG
  deriving Repr, DecidableEq

/-- `LOG_LVL_TO_MSG(lvl)`. -/
def LogLevel.toMsg : LogLevel → String
  | .ERROR => "Error"
  | .WARN => "Warning"
  | .INFO => "Info"
  | .DEBUG => "Debug"

/-- What `logf(lvl, fp, f, path)` prints, `f` being this text before `%s\n`. -/
def logf (lvl : LogLevel) (text : String) (path : Path) : List Byte :=
  literal lvl.toMsg ++ literal ": " ++ (literal text ++ path ++ literal "\n")

/-- `oflogf(lvl, file, f, path)`: what is appended to the file.  When `fopen`
fails, `fprintf` gets the null pointer. -/
def oflogf (opened : Bool) (lvl : LogLevel) (text : String) (path : Path) : Option (List Byte) :=
  if opened then some (logf lvl text path) else none

/-- The path that the shell denies. -/
def deniedFile : Path := literal "trace_test.file"

/-- A callback by whether its `fopen` succeeds: what it writes and the value it
returns; `none` where its behaviour is undefined. -/
abbrev Callback := Bool → Path → Option (List Byte × Int)

/-- `file_read_cb(path)`, which logs to prom_callbacks.log. -/
def fileReadCb : Callback := fun opened path =>
  (oflogf opened .INFO "CB::FILE_READ::" path).map fun line => (line, 0)

/-- `file_write_cb(path)`. -/
def fileWriteCb : Callback := fun opened path =>
  (oflogf opened .INFO "CB::FILE_WRITE::" path).map fun line =>
    (line, if path = deniedFile then -1 else 0)

/-- A table of file callbacks that write something. -/
structure Reporting where
  file_read : Option Callback := none
  file_write : Option Callback := none

/-- `tracer_cbs` of `master_process`. -/
def shellCallbacks : Reporting := ⟨some fileReadCb, some fileWriteCb⟩

/-- What a callback returns, as long as it does. -/
def returned (cb : Callback) (path : Path) : Int := ((cb true path).map Prod.snd).getD 0

/-- The table as the tracer sees it. -/
def Reporting.table (t : Reporting) : TracerCallbacks where
  file_read := t.file_read.map returned
  file_write := t.file_write.map returned

/-- What an installed callback writes when it is called. -/
def wrote (cb : Option Callback) (opened : Bool) (path : Path) : Option (List Byte) :=
  match cb with
  | some f => (f opened path).map Prod.fst
  | none => some []

/-- What a call writes. -/
def Reporting.text (t : Reporting) (opened : Bool) : Action → Option (List Byte)
  | .fileRead path => wrote t.file_read opened path
  | .fileWrite path => wrote t.file_write opened path
  | _ => some []

/-- A call of a callback. -/
def Seen.isCall (o : Seen) : Bool := !o.isEnter

/-- What the calls of a run write.  `opened` tells of each call in turn whether
the file is opened; `none` once the behaviour of a callback is undefined. -/
def Reporting.written (t : Reporting) : (opened : Nat → Bool) → List Seen → Option (List Byte)
  | _, [] => some []
  | opened, .call _ a :: rest => do
      let line ← t.text (opened 0) a
      let more ← t.written (fun n => opened (n + 1)) rest
      some (line ++ more)
  | opened, .enter _ _ :: rest => t.written opened rest

/-- What a call writes when its file is opened. -/
def Reporting.line (t : Reporting) (a : Action) : List Byte := (t.text true a).getD []

/-- What is written of a run when every file is opened. -/
def Reporting.lines (t : Reporting) : Seen → List Byte
  | .call _ a => t.line a
  | .enter _ _ => []

/-! ## §2. The audit of a run. -/

/-- What is to be written about a task that is polled: a line for each access
that an `openat` asks for, with the path it names. -/
noncomputable def Reporting.audit (t : Reporting) (mem : TraceeMem) : Task → List Byte
  | .userStop .entry regs =>
      if regs.orig_rax = SYS_openat then
        match pathNamed mem regs with
        | some path =>
            (if wantsRead regs then t.line (.fileRead path) else [])
              ++ if wantsWrite regs then t.line (.fileWrite path) else []
        | none => []
      else []
  | _ => []

section Guests

variable {Γ : Type} (G : Guest Γ) (t : Reporting)

/-- The auditor looks at the box and writes down the opens it polls. -/
noncomputable def auditStep (s : Box Γ) (m : Move) : Box Γ × List Byte :=
  ((policyStep G (vetOpens t.table) s m).1,
    match m with
    | .poll p _ => t.audit (G.mem p s.world) (s.tasks p)
    | _ => [])

noncomputable def audited : Machine (Box Γ) Move Byte := ⟨auditStep G t⟩

/-! ## §3. The text of a run is its audit. -/

/-- What the calls of one callback block write. -/
theorem lines_offered (p : Pid) (cb : Option Callback) (act : Path → Action) (selected : Bool)
    (path : Path) (hact : cb = none → t.line (act path) = []) :
    (((offered (cb.map returned) act selected).map fun c => c.2 path).map
        (Seen.call p)).flatMap t.lines
      = if selected then t.line (act path) else [] := by
  cases selected with
  | false => rfl
  | true =>
      cases cb with
      | none => exact (hact rfl).symm
      | some f => exact List.append_nil _

/-- What a poll writes is what the auditor writes. -/
theorem lines_vetOpens (p : Pid) (mem : TraceeMem) {task : Task} {kind : StopKind}
    {regs : UserRegs} (hstop : task.stop? = some (kind, regs)) :
    ((vetOpens t.table mem task regs).1.map (Seen.call p)).flatMap t.lines = t.audit mem task := by
  cases hopens : task.opens with
  | false =>
      rw [vetOpens_closed t.table mem hopens]
      unfold Reporting.audit
      split
      · rw [if_neg fun hopen => Bool.eq_false_iff.mp hopens (beq_iff_eq.mpr hopen)]
        rfl
      · rfl
  | true =>
      obtain ⟨rfl, hopen⟩ := opens_entry hstop hopens
      rw [vetOpens, if_pos hopens, Reporting.audit, if_pos hopen]
      unfold answerOpen
      cases pathNamed mem regs with
      | none => rfl
      | some path =>
          have hread : t.file_read = none → t.line (.fileRead path) = [] := by
            intro h
            simp only [Reporting.line, Reporting.text, wrote, h, Option.getD_some]
          have hwrite : t.file_write = none → t.line (.fileWrite path) = [] := by
            intro h
            simp only [Reporting.line, Reporting.text, wrote, h, Option.getD_some]
          simp only [selectedCallbacks, List.map_append, List.flatMap_append]
          exact congrArg₂ (· ++ ·) (lines_offered t p t.file_read .fileRead _ path hread)
            (lines_offered t p t.file_write .fileWrite _ path hwrite)

/-- Only calls write. -/
theorem lines_enter {o : Seen} (h : o.isEnter = true) : t.lines o = [] := by
  cases o with
  | enter p regs => rfl
  | call p a => cases h

variable {t} {tasks : Pid → Task} {world : Γ} {ms : List Move}

/-- **The text of a run.**  When nothing goes wrong, what the callbacks write is
the audit. -/
theorem text_is_audit (hstart : ∀ p, tasks p = .user none ∨ tasks p = .dead)
    (hsmooth : (boxed G t.table).Along (Smooth G) ⟨tasks, world⟩ ms) :
    ((watched G t.table).out ⟨-1, tasks, world⟩ ms).flatMap t.lines
      = (audited G t).out ⟨tasks, world⟩ ms := by
  obtain ⟨-, hout⟩ := watched_boxes G rfl hstart hsmooth
  rw [hout]
  have halong : (audited G t).Along (fun _ _ => True) ⟨tasks, world⟩ ms :=
    Machine.along_of_forall fun _ _ => trivial
  refine (Machine.lockstep t.lines (M := boxed G t.table) (N := audited G t) (R := Eq)
    ?_ rfl halong).2
  rintro s _ m rfl -
  refine ⟨rfl, ?_⟩
  cases m with
  | run p => rfl
  | death p => rfl
  | poll p a =>
      cases hstop : (s.tasks p).stop? with
      | none =>
          have haudit : t.audit (G.mem p s.world) (s.tasks p) = [] := by
            unfold Reporting.audit
            split
            · rename_i htask
              rw [htask] at hstop
              cases hstop
            · rfl
          simp only [boxed, policyStep, audited, auditStep, hstop, haudit]
          rfl
      | some stop =>
          simp only [boxed, policyStep, audited, auditStep, hstop, List.flatMap_append]
          rw [lines_vetOpens t p (G.mem p s.world) hstop,
            List.flatMap_eq_nil_iff.mpr fun o ho => lines_enter t (resumeTask_isEnter G ho),
            List.append_nil]

/-- What is called is a file callback. -/
theorem watched_isCall {cbs : TracerCallbacks} {p : Pid} {a : Action} :
    ∀ {ms : List Move} {w : Watch Γ}, .call p a ∈ (watched G cbs).out w ms → a.isCall = true
  | [], _, h => absurd h List.not_mem_nil
  | m :: ms, w, h => by
      refine (List.mem_append.mp h).elim (fun hstep => ?_) watched_isCall
      have hcalls : ∀ {q : Pid} {log : List Action},
          Seen.call p a ∈ (log.filter Action.isCall).map (Seen.call q) → a.isCall = true := by
        intro q log hin
        obtain ⟨b, hb, hcall⟩ := List.mem_map.mp hin
        obtain ⟨-, rfl⟩ := Seen.call.inj hcall
        exact (List.mem_filter.mp hb).2
      cases m with
      | run q => cases hstep
      | death q => cases hstep
      | poll q answers =>
          simp only [watched, watchStep] at hstep
          split at hstep
          · cases hstep
          · split at hstep
            · refine (List.mem_append.mp hstep).elim hcalls fun hresumed => ?_
              exact absurd (resumeTask_isEnter G hresumed) Bool.false_ne_true
            · exact hcalls hstep

end Guests

/-! ### Callbacks that log, and callbacks that open nothing. -/

section Written

variable {t : Reporting}

/-- Every callback of the table opens the file it writes to. -/
def Reporting.Logging (t : Reporting) : Prop :=
  ∀ opened a, a.isCall = true → t.text opened a = if opened then some (t.line a) else none

/-- What is written by callbacks that log: the lines, unless some file is not
opened. -/
theorem written_logging (hlog : t.Logging) : ∀ {seen : List Seen} (opened : Nat → Bool),
    (∀ p a, .call p a ∈ seen → a.isCall = true) →
      ((∀ n < seen.countP Seen.isCall, opened n = true) →
        t.written opened seen = some (seen.flatMap t.lines)) ∧
      ((∃ n < seen.countP Seen.isCall, opened n = false) → t.written opened seen = none)
  | [], opened, _ => ⟨fun _ => rfl, fun ⟨n, hn, _⟩ => absurd hn (Nat.not_lt_zero n)⟩
  | .enter p regs :: rest, opened, hcalls => by
      have hrest : ∀ p a, Seen.call p a ∈ rest → a.isCall = true :=
        fun p a h => hcalls p a (List.mem_cons_of_mem _ h)
      have hcount : (Seen.enter p regs :: rest).countP Seen.isCall = rest.countP Seen.isCall :=
        List.countP_cons_of_neg Bool.false_ne_true
      rw [hcount]
      exact written_logging hlog opened hrest
  | .call p a :: rest, opened, hcalls => by
      have hrest : ∀ p a, Seen.call p a ∈ rest → a.isCall = true :=
        fun p a h => hcalls p a (List.mem_cons_of_mem _ h)
      obtain ⟨hall, hsome⟩ := written_logging hlog (fun n => opened (n + 1)) hrest
      have hcount : (Seen.call p a :: rest).countP Seen.isCall
          = rest.countP Seen.isCall + 1 := List.countP_cons_of_pos rfl
      have htext := hlog (opened 0) a (hcalls p a List.mem_cons_self)
      rw [hcount]
      constructor
      · intro hopened
        rw [if_pos (hopened 0 (Nat.succ_pos _))] at htext
        have hlater := hall fun n hn => hopened (n + 1) (Nat.succ_lt_succ hn)
        simp only [Reporting.written, htext, hlater]
        rfl
      · rintro ⟨n, hn, hclosed⟩
        cases h0 : opened 0 with
        | false =>
            rw [h0, if_neg Bool.false_ne_true] at htext
            simp only [Reporting.written, h0, htext]
            rfl
        | true =>
            rw [h0, if_pos rfl] at htext
            cases n with
            | zero =>
                rw [h0] at hclosed
                cases hclosed
            | succ n =>
                have hlater := hsome ⟨n, Nat.lt_of_succ_lt_succ hn, hclosed⟩
                simp only [Reporting.written, h0, htext, hlater]
                rfl

end Written

/-! ## §4. The shell. -/

theorem shellCallbacks_logging : shellCallbacks.Logging := by
  intro opened a ha
  cases a with
  | fileRead path => cases opened <;> rfl
  | fileWrite path => cases opened <;> rfl
  | syscallCb regs => cases ha
  | openCheck => cases ha
  | setregs regs => cases ha
  | resume sig => cases ha

/-- The shell denies one path, to those who want to write. -/
theorem denies_shell {regs : UserRegs} {path : Path} :
    Denies shellCallbacks.table regs path ↔ wantsWrite regs = true ∧ path = deniedFile := by
  constructor
  · rintro ⟨c, hc, hdeny⟩
    rcases List.mem_append.mp hc with hc | hc
    · obtain ⟨-, f, hf, rfl⟩ := mem_offered.mp hc
      obtain rfl := Option.some.inj hf
      cases hdeny
    · obtain ⟨hwrite, f, hf, rfl⟩ := mem_offered.mp hc
      obtain rfl := Option.some.inj hf
      refine ⟨hwrite, by_contra fun hother => ?_⟩
      have hdeny : (if path = deniedFile then (-1 : Int) else 0) = -1 := hdeny
      rw [if_neg hother] at hdeny
      cases hdeny
  · rintro ⟨hwrite, rfl⟩
    refine ⟨_, List.mem_append_right _ (mem_offered.mpr ⟨hwrite, _, rfl, rfl⟩), ?_⟩
    show (if deniedFile = deniedFile then (-1 : Int) else 0) = -1
    exact if_pos rfl

section Guests

variable {Γ : Type} (G : Guest Γ)

/-- **THE SHELL'S LOG AND ITS ONE DENIED FILE.**  For every guest and every
smooth run, whichever `fopen` of the log fails: the behaviour of a callback is
undefined exactly when one of them could not open it.  Otherwise what they have
written to prom_callbacks.log is the audit of the run, a line for each access
of each `openat` that was entered, in order; and every `openat` that is entered
goes to the kernel as it is, except that one which may write trace_test.file is
at its exit at once, refused. -/
theorem shell_policy (tasks : Pid → Task) (world : Γ) (ms : List Move) (opened : Nat → Bool)
    (hstart : ∀ p, tasks p = .user none ∨ tasks p = .dead)
    (hsmooth : (boxed G shellCallbacks.table).Along (Smooth G) ⟨tasks, world⟩ ms) :
    (shellCallbacks.written opened ((watched G shellCallbacks.table).out ⟨-1, tasks, world⟩ ms)
        = none ↔
      ∃ n < ((watched G shellCallbacks.table).out ⟨-1, tasks, world⟩ ms).countP Seen.isCall,
        opened n = false)
    ∧ ∀ text, shellCallbacks.written opened
          ((watched G shellCallbacks.table).out ⟨-1, tasks, world⟩ ms) = some text →
      text = (audited G shellCallbacks).out ⟨tasks, world⟩ ms
      ∧ ∀ earlier p a later regs path, ms = earlier ++ .poll p a :: later →
        ((watched G shellCallbacks.table).after ⟨-1, tasks, world⟩ earlier).tasks p
          = .userStop .entry regs →
        regs.orig_rax = SYS_openat →
        StringAt (G.mem p ((watched G shellCallbacks.table).after ⟨-1, tasks, world⟩ earlier).world)
          regs.rsi path →
        ((watched G shellCallbacks.table).after ⟨-1, tasks, world⟩ (earlier ++ [.poll p a])).tasks p
          = if wantsWrite regs = true ∧ path = deniedFile
            then .kernelStop SYS_openat .exit (refused regs)
            else .kernel SYS_openat regs := by
  obtain ⟨hopened, hclosed⟩ := written_logging shellCallbacks_logging opened
    fun p a (h : .call p a ∈ (watched G shellCallbacks.table).out ⟨-1, tasks, world⟩ ms) =>
      watched_isCall G h
  have hcases : (∀ n < ((watched G shellCallbacks.table).out ⟨-1, tasks, world⟩ ms).countP
        Seen.isCall, opened n = true) ∨
      ∃ n < ((watched G shellCallbacks.table).out ⟨-1, tasks, world⟩ ms).countP Seen.isCall,
        opened n = false := by
    by_contra hno
    obtain ⟨hsome, hall⟩ := not_or.mp hno
    exact hsome fun n hn => Bool.not_eq_false _ ▸ fun hc => hall ⟨n, hn, hc⟩
  refine ⟨⟨fun hnone => hcases.resolve_left fun hall => ?_, hclosed⟩, fun text htext => ⟨?_, ?_⟩⟩
  · rw [hopened hall] at hnone
    cases hnone
  · have hall := hcases.resolve_right fun hsome => by
      rw [hclosed hsome] at htext
      cases htext
    rw [hopened hall] at htext
    exact (Option.some.inj htext).symm.trans (text_is_audit G hstart hsmooth)
  rintro earlier p a later regs path rfl htask hopen hpath
  -- the poll and the moves before it are the box's
  have hbefore := ((boxed G shellCallbacks.table).along_append earlier _ _).mp hsmooth
  obtain ⟨⟨htasks, hworld, -⟩, -⟩ := watched_boxes G rfl hstart hbefore.1
  have hpolled : (boxed G shellCallbacks.table).Along (Smooth G) ⟨tasks, world⟩
      (earlier ++ [.poll p a]) :=
    ((boxed G shellCallbacks.table).along_append earlier _ _).mpr
      ⟨hbefore.1, hbefore.2.1, trivial⟩
  obtain ⟨⟨hnext, -, -⟩, -⟩ := watched_boxes G rfl hstart hpolled
  rw [hnext, Machine.after_append, Machine.after_cons, Machine.after_nil]
  rw [htasks] at htask
  rw [hworld] at hpath
  split
  · rename_i hdenied
    exact boxed_refuses G a htask hopen hpath (denies_shell.mpr hdenied)
  · rename_i hgranted
    exact boxed_grants G a htask hopen hpath fun hdeny => hgranted (denies_shell.mp hdeny)

/-! ## §5. `trace_file_reads`. -/

end Guests

/-- The shell lets it read, and logs it. -/
theorem opener_shell_policy :
    shellCallbacks.written (fun _ => true)
        ((watched opener shellCallbacks.table).out ⟨-1, soleTask, ()⟩ openerMoves)
      = some ((audited opener shellCallbacks).out ⟨soleTask, ()⟩ openerMoves)
    ∧ ((watched opener shellCallbacks.table).after ⟨-1, soleTask, ()⟩ [.run 1, .poll 1 {}]).tasks 1
      = .kernel SYS_openat openRegs := by
  obtain ⟨hnone, hsome⟩ := shell_policy opener soleTask () openerMoves (fun _ => true)
    soleTask_start (opener_smooth shellCallbacks.table)
  cases hwritten : shellCallbacks.written (fun _ => true)
      ((watched opener shellCallbacks.table).out ⟨-1, soleTask, ()⟩ openerMoves) with
  | none =>
      obtain ⟨n, -, hn⟩ := hnone.mp hwritten
      cases hn
  | some text =>
      obtain ⟨rfl, hopens⟩ := hsome text hwritten
      refine ⟨rfl, (hopens [.run 1] 1 {} [.run 1, .poll 1 {}] openRegs _ rfl rfl rfl
        pageWords_string).trans (if_neg fun h => ?_)⟩
      exact absurd h.1 (by decide)

end Prom.Tracer
