/-
  Prom.Shell.Startup — how the shell comes up and goes down.

  `shell_main_entry` of `src/shell/shell.c` takes the terminal for curses, opens
  a pty and forks.  The child connects itself to the slave side and becomes the
  shell; the parent runs the main loop at the master side and gives the terminal
  back when it is over.

  Both processes run the same function and are told apart by what `fork` has
  returned.  Any of the calls they make may fail, and which ones do is given, as
  is what becomes of `errno`, which is looked at only after `cleanup`.  The
  `sa_flags` of the handler are never set; whatever is in them is taken to leave
  it installed, and its signal a plain one.

  Main results:
    * `sides_connected` — which descriptors refer to which end of the pty in the
      shell and in the parent, for any descriptors prom was started with.
    * `terminal_given_back` — what becomes of the terminal and of the parent,
      whatever fails.
-/
import Prom.Posix.Descriptors
import Prom.Shell.Output
import Prom.Shell.Resizing
import Prom.Tracer.Clients

namespace Prom.Shell

open Prom.C Exec Prom.Posix
open Prom.Tracer (literal LogLevel)

/-! ## §1. The processes and their calls. -/

/-- What a descriptor refers to: what it did when prom was started, or an end of
    the pty. -/
inductive File (I : Type) where
  | inherited (i : I)
  | master
  | slave
  deriving Repr, DecidableEq

/-- The calls that may fail. -/
inductive StartCall where
  | sigaction
  | initscr
  | raw
  | noecho
  | nodelay
  | keypad
  | nonl
  | meta_
  /-- `vterm_new` and what `init_vterm` obtains from it. -/
  | vtermNew
  | posixOpenpt
  | grantpt
  | unlockpt
  /-- `open(ptsname(fd_master), O_RDWR)`. -/
  | openSlave
  | fork
  | fcntlGetfl
  | fcntlSetfl
  /-- The calls of `tracer_init`. -/
  | waitpid
  | ptraceSeize
  | ptraceInterrupt
  | ptraceSyscall
  | kill
  /-- The call of `tracee_init`. -/
  | raise
  /-- `ioctl(fd_slave, TIOCSWINSZ, wsize)`. -/
  | setWinsize
  | dup2 (new : Nat)
  | setsid
  /-- `ioctl(STDIN_FILENO, TIOCSCTTY, 1)`. -/
  | setCtty
  | execlp
  deriving Repr, DecidableEq

/-- What prom is started in. -/
structure Host (V : Type) where
  refuses : StartCall → Bool
  /-- What a call that fails sets `errno` to. -/
  errno : StartCall → Int
  /-- What `cleanup` makes of `errno`: `endwin` writes to the terminal. -/
  errnoCleaned : Int → Int
  /-- What the `fprintf` of the level makes of it. -/
  errnoLogged : Int → Int
  strerror : Int → List Byte
  /-- What `initscr` prints before it exits. -/
  initscrText : List Byte
  size : TermSize
  /-- `vterm_new`, where there is memory. -/
  vtermNew : (rows cols : Nat) → V
  /-- What will be typed. -/
  keys : List Getch

/-- `globe.vterm`; while it lives it is part of the main loop's state. -/
inductive Vterm (V : Type) where
  | null
  | live (c : Console V)
  | freed

/-- A process. -/
structure Process (I V : Type) where
  files : Descriptors (File I)
  /-- `initscr` has been called, and not `endwin` since. -/
  curses : Bool
  vterm : Vterm V
  /-- `globe.wsize`. -/
  wsize : Nat × Nat
  /-- The terminal that controls it. -/
  ctty : Option (File I)
  errno : Int
  /-- What it has handed to `fprintf` for stderr, line by line. -/
  errors : List (List Byte)

/-- prom, as it is started. -/
def Process.start {I V : Type} (d : Descriptors I) (tty : Option I) : Process I V where
  files := d.map .inherited
  curses := false
  vterm := .null
  wsize := (0, 0)
  ctty := tty.map .inherited
  errno := 0
  errors := []

/-- How a process comes out of `shell_main_entry`. -/
inductive Ending where
  /-- `execlp` has replaced it. -/
  | becomesShell
  /-- It is still in the main loop. -/
  | running
  | returns (status : Int)
  deriving Repr, DecidableEq

/-- Which process: what `fork` returns in it. -/
inductive Side where
  | parent
  | child
  deriving Repr, DecidableEq

/-- What `logf(ERROR, stderr, f, text)` prints, `f` being these texts around
    `%s`. -/
def errorLine (before : String) (text : List Byte) (behind : String) : List Byte :=
  literal LogLevel.ERROR.toMsg ++ literal ": " ++ (literal before ++ text ++ literal behind)

section Model

variable {I V A : Type} (host : Host V) (scr : Screen V) (answers : Nat → WriteAnswer)
  (turns : List (Turn V))

/-! ## §2. The sources: pty.c, terminal.c, tracer.c and shell.c. -/

/-- A call that succeeds or fails. -/
def call (c : StartCall) : Exec (Process I V) Bool := fun p =>
  if host.refuses c then .ok false { p with errno := host.errno c } else .ok true p

/-- Calls that are made until one fails; -1 if one does. -/
def allOf : List StartCall → Exec (Process I V) Int
  | [] => pure 0
  | c :: rest => do
    if ← call host c then allOf rest else pure (-1)

/-- A file is opened. -/
def openFile (f : File I) : Exec (Process I V) Nat := fun p =>
  .ok p.files.lowest { p with files := p.files.opened f }

/-- `close(fd)`. -/
def close (fd : Nat) : Exec (Process I V) Unit := modify fun p =>
  { p with files := p.files.close fd }

/-- `new_master_pty()`; none is -1. -/
def newMasterPty : Exec (Process I V) (Option Nat) := do
  if ← call host .posixOpenpt then
    let fd_master ← openFile .master
    if ← call host .grantpt then
      if ← call host .unlockpt then pure (some fd_master) else pure none
    else pure none
  else pure none

/-- `open(ptsname(fd_master), O_RDWR)`; none is -1. -/
def openSlave : Exec (Process I V) (Option Nat) := do
  if ← call host .openSlave then do return some (← openFile .slave) else pure none

/-- `init_ncurses()`. -/
def initNcurses : Exec (Process I V) Int := do
  if ← call host .initscr then
    modify fun p => { p with curses := true }
    allOf host [.raw, .noecho, .nodelay, .keypad, .nonl, .meta_]
  else
    -- `initscr` does not return
    modify fun p => { p with errors := p.errors ++ [host.initscrText] }
    fail (.exit 1)

/-- `init_vterm(rows, cols, &globe)`.  The pointer is used unchecked. -/
def initVterm (rows cols : Nat) : Exec (Process I V) Unit := do
  if ← call host .vtermNew then
    modify fun p => { p with vterm := .live (.start (host.vtermNew rows cols) host.keys) }
  else fail .undefined

/-- `cleanup()`; what `endwin` returns is dropped. -/
def cleanup : Exec (Process I V) Unit := fun p =>
  match p.vterm with
  | .null => .ok () { p with curses := false, errno := host.errnoCleaned p.errno }
  | .live _ => .ok () { p with vterm := .freed, curses := false, errno := host.errnoCleaned p.errno }
  -- it would be freed twice
  | .freed => .stop .undefined p

/-- `errord(f, text)`, `f` being these texts around `%s`. -/
def errord (before : String) (text : List Byte) (behind : String) : Exec (Process I V) A := do
  modify fun p => { p with errors := p.errors ++ [errorLine before text behind] }
  fail (.exit 1)

/-- `errord(f, strerror(errno))`.  The level is printed before `strerror` is
    called. -/
def errordErrno (before behind : String) : Exec (Process I V) A := do
  modify fun p => { p with errno := host.errnoLogged p.errno }
  errord before (host.strerror (← get).errno) behind

/-- `errord_clean(f, strerror(errno))`. -/
def errordClean (before : String) : Exec (Process I V) A := do
  cleanup host
  errordErrno host before ".\n"

/-- `tracer_init(&tracer, &tracer_cbs, globe.pid_child)`. -/
def tracerInit : Exec (Process I V) Int := do
  let _ ← call host .waitpid
  allOf host [.ptraceSeize, .ptraceInterrupt, .ptraceSyscall, .kill]

/-- The loop of `master_process`. -/
def mainLoop : Exec (Process I V) (Option Int) := fun p =>
  match p.vterm with
  | .live c =>
    match masterProcess scr answers turns c with
    | .ok r c' => .ok r { p with vterm := .live c' }
    | .stop e c' => .stop e { p with vterm := .live c' }
  | _ => .stop .undefined p

/-- `master_process()`; none is that it has not returned yet. -/
def masterProcessEntry (fd_slave : Nat) : Exec (Process I V) (Option Int) := do
  close fd_slave
  -- the result is dropped
  let _ ← tracerInit host
  mainLoop scr answers turns

/-- `dup2(old, new)`; the result is dropped. -/
def dup2 (old new : Nat) : Exec (Process I V) Unit := do
  if ← call host (.dup2 new) then
    modify fun p => { p with files := (p.files.dup2 old new).getD p.files }
  else pure ()

/-- `setsid()`. -/
def setsid : Exec (Process I V) Bool := do
  if ← call host .setsid then
    modify fun p => { p with ctty := none }
    pure true
  else pure false

/-- `ioctl(STDIN_FILENO, TIOCSCTTY, 1)`. -/
def setCtty : Exec (Process I V) Bool := do
  match (← get).files.file 0 with
  | none =>
    modify fun p => { p with errno := host.errno .setCtty }
    pure false
  | some f =>
    if ← call host .setCtty then
      modify fun p => { p with ctty := some f }
      pure true
    else pure false

/-- `slave_process`: the slave side becomes stdin, stdout and stderr. -/
def takeStdio (fd_slave : Nat) : Exec (Process I V) Unit := do
  dup2 host fd_slave 0
  dup2 host fd_slave 1
  dup2 host fd_slave 2
  close fd_slave

/-- `slave_process(shell)`; none is that it does not return. -/
def slaveProcess (fd_master fd_slave : Nat) : Exec (Process I V) (Option Int) := do
  -- `tracee_init()`
  let _ ← call host .raise
  let _ ← call host .setWinsize
  close fd_master
  takeStdio host fd_slave
  if ← setsid host then
    if ← setCtty host then
      if ← call host .execlp then pure none else pure (some (-1))
    else pure (some (-1))
  else pure (some (-1))

/-- `shell_main_entry`: curses and libvterm are set up. -/
def takeTerminal : Exec (Process I V) Unit := do
  -- the result is dropped
  let _ ← initNcurses host
  modify fun p => { p with wsize := host.size.shrunk }
  initVterm host host.size.shrunk.1 host.size.shrunk.2

/-- `shell_main_entry`: the pty is opened and the child forked. -/
def openPty : Exec (Process I V) (Nat × Nat) := do
  match ← newMasterPty host with
  | some fd_master =>
    match ← openSlave host with
    | some fd_slave =>
      if ← call host .fork then pure (fd_master, fd_slave) else errordClean host "fork(): "
    | none => errordClean host "open(): "
  | none => errordClean host "new_master_pty(): "

/-- `shell_main_entry`, up to the fork. -/
def prepare : Exec (Process I V) (Nat × Nat) := do
  if ← call host .sigaction then
    takeTerminal host
    openPty host
  else errord "" (literal "could not set up signal handler") ".\n"

/-- `shell_main_entry`, in the child. -/
def childSide (fd_master fd_slave : Nat) : Exec (Process I V) Ending := do
  match ← slaveProcess host fd_master fd_slave with
  | some ret =>
    if ret < 0 then errordErrno host "" "\n" else pure (.returns 0)
  | none => pure .becomesShell

/-- `shell_main_entry` after `master_process`. -/
def finish (ret : Option Int) : Exec (Process I V) Ending :=
  match ret with
  | some ret =>
    if ret < 0 then do
      cleanup host
      errord "" (literal "master process had a failure") ".\n"
    else do
      cleanup host
      pure (.returns 0)
  | none => pure .running

/-- `shell_main_entry`, in the parent. -/
def parentSide (fd_slave : Nat) : Exec (Process I V) Ending := do
  if ← call host .fcntlGetfl then
    if ← call host .fcntlSetfl then
      let ret ← masterProcessEntry host scr answers turns fd_slave
      finish host ret
    else errordClean host "fcntl(F_SETFL): "
  else errordClean host "fcntl(F_GETFL): "

/-- `shell_main_entry(argc, argv)`. -/
def shellMainEntry (side : Side) : Exec (Process I V) Ending := do
  let (fd_master, fd_slave) ← prepare host
  match side with
  | .parent => parentSide host scr answers turns fd_slave
  | .child => childSide host fd_master fd_slave

/-! ## §3. Calls that fail. -/

variable {host scr answers turns}

theorem call_ok {c : StartCall} (h : host.refuses c = false) (p : Process I V) :
    call host c p = .ok true p := by
  simp [call, h]

theorem call_refused {c : StartCall} (h : host.refuses c = true) (p : Process I V) :
    call host c p = .ok false { p with errno := host.errno c } := by
  simp [call, h]

/-- A call changes nothing but `errno`. -/
theorem call_returns (host : Host V) (c : StartCall) (p : Process I V) :
    ∃ r e, call host c p = .ok r { p with errno := e } := by
  cases h : host.refuses c with
  | true => exact ⟨false, host.errno c, call_refused h p⟩
  | false => exact ⟨true, p.errno, call_ok h p⟩

theorem allOf_returns (host : Host V) (cs : List StartCall) (p : Process I V) :
    ∃ r e, allOf host cs p = .ok r { p with errno := e } := by
  induction cs with
  | nil => exact ⟨0, p.errno, rfl⟩
  | cons c rest ih =>
    cases h : host.refuses c with
    | true =>
      refine ⟨-1, host.errno c, ?_⟩
      rw [allOf, bind_ok (call_refused h p)]
      rfl
    | false =>
      obtain ⟨r, e, hrest⟩ := ih
      refine ⟨r, e, ?_⟩
      rw [allOf, bind_ok (call_ok h p)]
      exact hrest

/-- `endwin` has been called, and no terminal of libvterm is held. -/
def Process.GivenBack (p : Process I V) : Prop := p.curses = false ∧ ∀ c, p.vterm ≠ .live c

/-- The process exits with 1, having printed one line, with the terminal given
    back. -/
def Complains (m : Exec (Process I V) A) (p : Process I V) (line : List Byte) : Prop :=
  ∃ p', m p = .stop (.exit 1) p' ∧ p'.errors = p.errors ++ [line] ∧ p'.GivenBack

theorem Complains.bind {B : Type} {m : Exec (Process I V) B} {p : Process I V} {line : List Byte}
    (h : Complains m p line) (f : B → Exec (Process I V) A) : Complains (m >>= f) p line := by
  obtain ⟨p', hrun, hend⟩ := h
  exact ⟨p', bind_stop hrun f, hend⟩

theorem Complains.step {B : Type} {m : Exec (Process I V) B} {f : B → Exec (Process I V) A}
    {p p' : Process I V} {b : B} {line : List Byte} (hm : m p = .ok b p')
    (herrors : p'.errors = p.errors) (h : Complains (f b) p' line) : Complains (m >>= f) p line := by
  obtain ⟨p'', hrun, hline, hback⟩ := h
  exact ⟨p'', (bind_ok hm f).trans hrun, by rw [hline, herrors], hback⟩

theorem cleanup_gives (host : Host V) {p : Process I V} (h : p.vterm ≠ .freed) :
    ∃ p', cleanup host p = .ok () p' ∧ p'.GivenBack ∧ p'.errno = host.errnoCleaned p.errno ∧
      p'.errors = p.errors ∧ p'.files = p.files := by
  unfold cleanup
  cases hv : p.vterm with
  | null => exact ⟨_, rfl, ⟨rfl, fun c hc => by cases hc⟩, rfl, rfl, rfl⟩
  | live c => exact ⟨_, rfl, ⟨rfl, fun c hc => by cases hc⟩, rfl, rfl, rfl⟩
  | freed => exact absurd hv h

/-- `cleanup()` and `errord`. -/
theorem cleanup_complains (host : Host V) {p : Process I V} (h : p.vterm ≠ .freed)
    (before : String) (text : List Byte) (behind : String) :
    Complains (cleanup host >>= fun _ => errord before text behind : Exec (Process I V) A) p
      (errorLine before text behind) := by
  obtain ⟨p', hrun, hback, -, herrors, -⟩ := cleanup_gives host h
  exact .step hrun herrors ⟨_, rfl, rfl, hback⟩

variable (host) in
/-- The text `strerror` gives for a call that has failed, once the terminal has
    been cleaned up and the level printed. -/
def Host.reason (c : StartCall) : List Byte :=
  host.strerror (host.errnoLogged (host.errnoCleaned (host.errno c)))

theorem errordClean_complains {p : Process I V} (h : p.vterm ≠ .freed) (c : StartCall)
    (before : String) :
    Complains (errordClean host before : Exec (Process I V) A) { p with errno := host.errno c }
      (errorLine before (host.reason c) ".\n") := by
  obtain ⟨p', hrun, hback, herrno, herrors, -⟩ :=
    cleanup_gives host (p := { p with errno := host.errno c }) h
  refine .step hrun herrors ⟨_, rfl, ?_, hback⟩
  rw [Host.reason, ← herrno]

/-! ## §4. Up to the fork. -/

/-- The text before `strerror(errno)` where this call is reported. -/
def StartCall.place : StartCall → String
  | .posixOpenpt | .grantpt | .unlockpt => "new_master_pty(): "
  | .openSlave => "open(): "
  | .fork => "fork(): "
  | .fcntlGetfl => "fcntl(F_GETFL): "
  | .fcntlSetfl => "fcntl(F_SETFL): "
  | _ => ""

variable (host) in
/-- What prom prints when this call is the first to fail of those that it
    looks at. -/
def Host.complaint (c : StartCall) : List Byte :=
  match c with
  | .sigaction => errorLine "" (literal "could not set up signal handler") ".\n"
  | .initscr => host.initscrText
  | c => errorLine c.place (host.reason c) ".\n"

variable (host) in
/-- How a process ends when this call is the first to fail.  Nothing is reported
    of `vterm_new`. -/
def Host.Fails (c : StartCall) (m : Exec (Process I V) A) (p : Process I V) : Prop :=
  if c = .vtermNew then Undefined m p else Complains m p (host.complaint c)

theorem Host.Fails.bind {B : Type} {c : StartCall} {m : Exec (Process I V) B} {p : Process I V}
    (h : host.Fails c m p) (f : B → Exec (Process I V) A) : host.Fails c (m >>= f) p := by
  unfold Host.Fails at h ⊢
  by_cases hc : c = .vtermNew
  · rw [if_pos hc] at h ⊢
    exact h.bind f
  · rw [if_neg hc] at h ⊢
    exact h.bind f

theorem Host.Fails.not_ok {c : StartCall} {m : Exec (Process I V) A} {p : Process I V}
    (h : host.Fails c m p) (a : A) (p' : Process I V) : m p ≠ .ok a p' := by
  intro hok
  unfold Host.Fails at h
  split at h
  · obtain ⟨p'', hstop⟩ := h
    cases hok.symm.trans hstop
  · obtain ⟨p'', hstop, -⟩ := h
    cases hok.symm.trans hstop

theorem Host.Fails.of_complains {c : StartCall} {m : Exec (Process I V) A} {p : Process I V}
    (hc : c ≠ .vtermNew) (h : Complains m p (host.complaint c)) : host.Fails c m p := by
  rw [Host.Fails, if_neg hc]
  exact h

/-- The numbers of the two ends of the pty. -/
def masterFd (d : Descriptors I) : Nat := d.lowest

def slaveFd (d : Descriptors I) : Nat := ((d.map File.inherited).opened .master).lowest

theorem lowest_master (d : Descriptors I) : (d.map File.inherited).lowest = masterFd d :=
  d.lowest_map _

/-- The slave side gets a number that was free, and another one. -/
theorem slaveFd_free (d : Descriptors I) : d.file (slaveFd d) = none ∧ slaveFd d ≠ masterFd d := by
  obtain ⟨hfree, hne⟩ := (d.map File.inherited).second_free .master
  rw [lowest_master] at hne
  exact ⟨Option.map_eq_none_iff.mp hfree, hne⟩

/-- What is open when both ends are. -/
theorem pty_file (d : Descriptors I) (n : Nat) :
    (((d.map File.inherited).opened .master).opened .slave).file n =
      if n = slaveFd d then some .slave
      else if n = masterFd d then some .master
      else (d.file n).map .inherited := by
  rw [Descriptors.file_opened, Descriptors.file_opened, lowest_master, Descriptors.file_map]
  rfl

/-- Curses has the terminal, libvterm has one, nothing has been printed. -/
structure Process.Up (host : Host V) (p : Process I V) : Prop where
  curses : p.curses = true
  vterm : p.vterm = .live (.start (host.vtermNew host.size.shrunk.1 host.size.shrunk.2) host.keys)
  errors : p.errors = []

theorem Process.Up.not_freed {p : Process I V} (h : p.Up host) : p.vterm ≠ .freed := by
  rw [h.vterm]
  intro hfreed
  cases hfreed

theorem initNcurses_runs (hinit : host.refuses .initscr = false) (p : Process I V) :
    ∃ r e, initNcurses host p = .ok r { p with curses := true, errno := e } := by
  obtain ⟨r, e, hall⟩ := allOf_returns host [.raw, .noecho, .nodelay, .keypad, .nonl, .meta_]
    { p with curses := true }
  refine ⟨r, e, ?_⟩
  rw [initNcurses, bind_ok (call_ok hinit _)]
  exact hall

theorem takeTerminal_up (hinit : host.refuses .initscr = false)
    (hnew : host.refuses .vtermNew = false) {p : Process I V} (hp : p.errors = []) :
    ∃ p', takeTerminal host p = .ok () p' ∧ p'.Up host ∧ p'.files = p.files := by
  obtain ⟨r, e, hcurses⟩ := initNcurses_runs hinit p
  have hrun : takeTerminal host p = .ok () { p with
      curses := true, errno := e, wsize := host.size.shrunk
      vterm := .live (.start (host.vtermNew host.size.shrunk.1 host.size.shrunk.2) host.keys) } := by
    rw [takeTerminal, bind_ok hcurses]
    exact bind_ok (call_ok hnew _) _
  exact ⟨_, hrun, ⟨rfl, rfl, hp⟩, rfl⟩

/-- `vterm_set_utf8` is called on a NULL. -/
theorem takeTerminal_undefined (hinit : host.refuses .initscr = false)
    (hnew : host.refuses .vtermNew = true) (p : Process I V) :
    Undefined (takeTerminal host) p := by
  obtain ⟨r, e, hcurses⟩ := initNcurses_runs hinit p
  exact Undefined.step hcurses ⟨_, bind_ok (call_refused hnew _) _⟩

theorem takeTerminal_complains (hinit : host.refuses .initscr = true) {p : Process I V}
    (hp : p.GivenBack) : Complains (takeTerminal host) p host.initscrText := by
  apply Complains.bind
  have hrun : initNcurses host p = .stop (.exit 1)
      { p with errno := host.errno .initscr, errors := p.errors ++ [host.initscrText] } := by
    rw [initNcurses, bind_ok (call_refused hinit _)]
    rfl
  exact ⟨_, hrun, rfl, hp⟩

theorem newMasterPty_cases (host : Host V) (p : Process I V) :
    match [StartCall.posixOpenpt, .grantpt, .unlockpt].find? host.refuses with
    | some c => ∃ files, newMasterPty host p = .ok none { p with files, errno := host.errno c }
    | none => newMasterPty host p =
        .ok (some p.files.lowest) { p with files := p.files.opened .master } := by
  unfold newMasterPty
  cases hopen : host.refuses .posixOpenpt with
  | true =>
    simp only [List.find?, hopen]
    exact ⟨p.files, bind_ok (call_refused hopen p) _⟩
  | false =>
    rw [bind_ok (call_ok hopen p)]
    cases hgrant : host.refuses .grantpt with
    | true =>
      simp only [List.find?, hopen, hgrant]
      exact ⟨p.files.opened .master, bind_ok (call_refused hgrant _) _⟩
    | false =>
      cases hunlock : host.refuses .unlockpt with
      | true =>
        simp only [List.find?, hopen, hgrant, hunlock]
        exact ⟨p.files.opened .master,
          (bind_ok (call_ok hgrant _) _).trans (bind_ok (call_refused hunlock _) _)⟩
      | false =>
        simp only [List.find?, hopen, hgrant, hunlock]
        exact (bind_ok (call_ok hgrant _) _).trans (bind_ok (call_ok hunlock _) _)

/-- The pty is opened and the child forked, or the first call that fails is
    reported. -/
theorem openPty_cases {p : Process I V} (h : p.Up host) :
    match [StartCall.posixOpenpt, .grantpt, .unlockpt, .openSlave, .fork].find? host.refuses with
    | some c => Complains (openPty host) p (host.complaint c)
    | none => openPty host p = .ok (p.files.lowest, (p.files.opened .master).lowest)
        { p with files := (p.files.opened .master).opened .slave } := by
  have hmaster := newMasterPty_cases host p
  show match ([StartCall.posixOpenpt, .grantpt, .unlockpt] ++
      [StartCall.openSlave, .fork]).find? host.refuses with
    | some c => _
    | none => _
  rw [List.find?_append]
  cases hfind : [StartCall.posixOpenpt, .grantpt, .unlockpt].find? host.refuses with
  | some c =>
    rw [hfind] at hmaster
    obtain ⟨files, hrun⟩ := hmaster
    refine .step hrun rfl ?_
    have hc : host.complaint c = errorLine "new_master_pty(): " (host.reason c) ".\n" := by
      have hmem := List.mem_of_find?_eq_some hfind
      simp only [List.mem_cons, List.not_mem_nil, or_false] at hmem
      rcases hmem with rfl | rfl | rfl <;> rfl
    rw [hc]
    exact errordClean_complains (p := { p with files }) h.not_freed c _
  | none =>
    rw [hfind] at hmaster
    simp only at hmaster
    cases hslave : host.refuses .openSlave with
    | true =>
      simp only [Option.none_or, List.find?, hslave]
      refine .step hmaster rfl (.step (bind_ok (call_refused hslave _) _) rfl ?_)
      exact errordClean_complains (p := { p with files := p.files.opened .master }) h.not_freed _ _
    | false =>
      have hopened : openSlave host { p with files := p.files.opened .master } =
          .ok (some (p.files.opened .master).lowest)
            { p with files := (p.files.opened .master).opened .slave } := by
        rw [openSlave, bind_ok (call_ok hslave _)]
        rfl
      cases hfork : host.refuses .fork with
      | true =>
        simp only [Option.none_or, List.find?, hslave, hfork]
        refine .step hmaster rfl (.step hopened rfl (.step (call_refused hfork _) rfl ?_))
        exact errordClean_complains
          (p := { p with files := (p.files.opened .master).opened .slave }) h.not_freed _ _
      | false =>
        simp only [Option.none_or, List.find?, hslave, hfork]
        rw [openPty, bind_ok hmaster]
        show (openSlave host >>= _) _ = _
        rw [bind_ok hopened]
        show (call host .fork >>= _) _ = _
        rw [bind_ok (call_ok hfork _)]
        rfl

/-- The calls up to the fork whose results are looked at. -/
def callsToFork : List StartCall :=
  [.sigaction, .initscr, .vtermNew, .posixOpenpt, .grantpt, .unlockpt, .openSlave, .fork]

/-- And those of the parent before its main loop. -/
def callsToLoop : List StartCall := callsToFork ++ [.fcntlGetfl, .fcntlSetfl]

/-- **Up to the fork**, whatever fails. -/
theorem prepare_cases (host : Host V) (d : Descriptors I) (tty : Option I) :
    match callsToFork.find? host.refuses with
    | some c => host.Fails c (prepare host) (.start d tty)
    | none => ∃ p, prepare host (.start d tty) = .ok (masterFd d, slaveFd d) p ∧ p.Up host ∧
        p.files = ((d.map .inherited).opened .master).opened .slave := by
  have hstart : (Process.start d tty : Process I V).GivenBack := ⟨rfl, fun c hc => by cases hc⟩
  unfold callsToFork prepare
  cases hsig : host.refuses .sigaction with
  | true =>
    simp only [List.find?, hsig]
    exact .of_complains (by decide) (.step (call_refused hsig _) rfl ⟨_, rfl, rfl, hstart⟩)
  | false =>
    rw [List.find?_cons_of_neg (by simp [hsig])]
    cases hinit : host.refuses .initscr with
    | true =>
      simp only [List.find?, hinit]
      exact .of_complains (by decide)
        (.step (call_ok hsig _) rfl (.bind (takeTerminal_complains hinit hstart) _))
    | false =>
      rw [List.find?_cons_of_neg (by simp [hinit])]
      cases hnew : host.refuses .vtermNew with
      | true =>
        simp only [List.find?, hnew]
        exact Undefined.step (call_ok hsig _) ((takeTerminal_undefined hinit hnew _).bind _)
      | false =>
        rw [List.find?_cons_of_neg (by simp [hnew])]
        obtain ⟨p, hterminal, hup, hfiles⟩ := takeTerminal_up (p := .start d tty) hinit hnew rfl
        have hpty := openPty_cases hup
        cases hfind : [StartCall.posixOpenpt, .grantpt, .unlockpt, .openSlave, .fork].find?
            host.refuses with
        | some c =>
          rw [hfind] at hpty
          have hc : c ≠ .vtermNew := by
            rintro rfl
            exact absurd (List.mem_of_find?_eq_some hfind) (by decide)
          exact .of_complains hc (.step (call_ok hsig _) rfl (.step hterminal hup.errors hpty))
        | none =>
          rw [hfind] at hpty
          rw [hfiles] at hpty
          have hrun := (bind_ok hterminal fun _ => openPty host).trans hpty
          rw [← lowest_master]
          refine ⟨{ p with files := ((d.map .inherited).opened .master).opened .slave }, ?_,
            ⟨hup.curses, hup.vterm, hup.errors⟩, rfl⟩
          rw [bind_ok (call_ok hsig _)]
          exact hrun

/-! ## §5. The child. -/

/-- The terminal, what libvterm holds and what was printed are as before. -/
def Process.SameScreen (p p' : Process I V) : Prop :=
  p'.curses = p.curses ∧ p'.vterm = p.vterm ∧ p'.errors = p.errors

theorem Process.SameScreen.trans {p p' p'' : Process I V} (h : p.SameScreen p')
    (h' : p'.SameScreen p'') : p.SameScreen p'' :=
  ⟨h'.1.trans h.1, h'.2.1.trans h.2.1, h'.2.2.trans h.2.2⟩

/-- `n` is the slave side afterwards, unless the call has failed. -/
theorem dup2_slave (host : Host V) {s : Nat} (n : Nat) {p : Process I V}
    (hs : p.files.file s = some .slave) :
    ∃ p', dup2 host s n p = .ok () p' ∧ p.SameScreen p' ∧ ∀ k, p'.files.file k =
      if k = n ∧ host.refuses (.dup2 n) = false then some .slave else p.files.file k := by
  cases h : host.refuses (.dup2 n) with
  | true =>
    refine ⟨{ p with errno := host.errno (.dup2 n) }, ?_, ⟨rfl, rfl, rfl⟩, fun k => ?_⟩
    · rw [dup2, bind_ok (call_refused h p)]
      rfl
    · simp
  | false =>
    obtain ⟨files, hdup, hfile⟩ := p.files.file_dup2 hs n
    refine ⟨{ p with files }, ?_, ⟨rfl, rfl, rfl⟩, fun k => ?_⟩
    · rw [dup2, bind_ok (call_ok h p)]
      show Result.ok () { p with files := (p.files.dup2 s n).getD p.files } = _
      rw [hdup]
      rfl
    · simp [hfile k]

variable (host) in
/-- What a descriptor of the child refers to after `dup2` and `close`. -/
def shellFile (s : Nat) (file : Nat → Option (File I)) (n : Nat) : Option (File I) :=
  if n = s then none
  else if n ≤ 2 ∧ host.refuses (.dup2 n) = false then some .slave
  else file n

theorem takeStdio_file (host : Host V) {s : Nat} {p : Process I V}
    (hs : p.files.file s = some .slave) :
    ∃ p', takeStdio host s p = .ok () p' ∧ p.SameScreen p' ∧
      ∀ n, p'.files.file n = shellFile host s p.files.file n := by
  obtain ⟨p₀, h₀, hsame₀, hfile₀⟩ := dup2_slave host 0 hs
  have hs₀ : p₀.files.file s = some .slave := by
    rw [hfile₀, hs, ite_self]
  obtain ⟨p₁, h₁, hsame₁, hfile₁⟩ := dup2_slave host 1 hs₀
  have hs₁ : p₁.files.file s = some .slave := by
    rw [hfile₁, hs₀, ite_self]
  obtain ⟨p₂, h₂, hsame₂, hfile₂⟩ := dup2_slave host 2 hs₁
  refine ⟨{ p₂ with files := p₂.files.close s }, ?_, (hsame₀.trans hsame₁).trans hsame₂, fun n => ?_⟩
  · rw [takeStdio, bind_ok h₀, bind_ok h₁, bind_ok h₂]
    rfl
  · show (p₂.files.close s).file n = _
    rw [Descriptors.file_close, hfile₂, hfile₁, hfile₀, shellFile]
    by_cases hn : n = s
    · rw [if_pos hn, if_pos hn]
    · rw [if_neg hn, if_neg hn]
      -- at most one of the three calls is for `n`
      by_cases h2 : n ≤ 2
      · have hthree : n = 0 ∨ n = 1 ∨ n = 2 := by omega
        rcases hthree with rfl | rfl | rfl <;> simp
      · simp [h2, show n ≠ 0 by omega, show n ≠ 1 by omega, show n ≠ 2 by omega]

theorem setsid_returns (host : Host V) (p : Process I V) :
    ∃ p', setsid host p = .ok (!host.refuses .setsid) p' ∧ p.SameScreen p' ∧ p'.files = p.files := by
  cases h : host.refuses .setsid with
  | true => exact ⟨_, bind_ok (call_refused h p) _, ⟨rfl, rfl, rfl⟩, rfl⟩
  | false => exact ⟨_, bind_ok (call_ok h p) _, ⟨rfl, rfl, rfl⟩, rfl⟩

/-- The controlling terminal is what stdin is. -/
theorem setCtty_returns (host : Host V) (p : Process I V) :
    ∃ p', setCtty host p = .ok ((p.files.file 0).isSome && !host.refuses .setCtty) p' ∧
      p.SameScreen p' ∧ p'.files = p.files ∧
      ((p.files.file 0).isSome && !host.refuses .setCtty → p'.ctty = p.files.file 0) := by
  unfold setCtty
  rw [get_bind_apply]
  cases hstdin : p.files.file 0 with
  | none => exact ⟨{ p with errno := host.errno .setCtty }, rfl, ⟨rfl, rfl, rfl⟩, rfl, fun h => by cases h⟩
  | some f =>
    cases h : host.refuses .setCtty with
    | true => exact ⟨_, bind_ok (call_refused h p) _, ⟨rfl, rfl, rfl⟩, rfl, fun h => by cases h⟩
    | false => exact ⟨_, bind_ok (call_ok h p) _, ⟨rfl, rfl, rfl⟩, rfl, fun _ => rfl⟩

variable (host) in
/-- The last three calls of `slave_process` succeed. -/
def Host.execs (stdin : Option (File I)) : Bool :=
  !host.refuses .setsid && (stdin.isSome && !host.refuses .setCtty) && !host.refuses .execlp

/-- **The child** after `slave_process`, which returns nothing but -1. -/
theorem slaveProcess_returns (host : Host V) {m s : Nat} {p : Process I V} (hms : s ≠ m)
    (hs : p.files.file s = some .slave) :
    ∃ p', slaveProcess host m s p =
        .ok (if host.execs (p'.files.file 0) then none else some (-1)) p' ∧
      p.SameScreen p' ∧
      (∀ n, p'.files.file n = shellFile host s (p.files.close m).file n) ∧
      (host.execs (p'.files.file 0) → p'.ctty = p'.files.file 0) := by
  obtain ⟨_, e₁, hraise⟩ := call_returns host .raise p
  obtain ⟨_, e₂, hsize⟩ := call_returns host .setWinsize { p with errno := e₁ }
  have hs' : (p.files.close m).file s = some .slave := by
    rw [Descriptors.file_close, if_neg hms, hs]
  obtain ⟨p₃, hstdio, hsame₃, hfile₃⟩ :=
    takeStdio_file host (p := { p with errno := e₂, files := p.files.close m }) hs'
  obtain ⟨p₄, hsetsid, hsame₄, hfiles₄⟩ := setsid_returns host p₃
  obtain ⟨p₅, hctty, hsame₅, hfiles₅, hterm⟩ := setCtty_returns host p₄
  have hrun : slaveProcess host m s p = (do
      if ← setsid host then
        if ← setCtty host then
          if ← call host .execlp then pure none else pure (some (-1))
        else pure (some (-1))
      else pure (some (-1))) p₃ := by
    rw [slaveProcess, bind_ok hraise, bind_ok hsize]
    exact bind_ok hstdio _
  have hup₄ : p.SameScreen p₄ := Process.SameScreen.trans hsame₃ hsame₄
  rw [hrun, bind_ok hsetsid]
  cases hsid : host.refuses .setsid with
  | true =>
    have hno : host.execs (p₄.files.file 0) = false := by simp [Host.execs, hsid]
    exact ⟨p₄, by rw [hno]; rfl, hup₄, hfiles₄ ▸ hfile₃, fun h => by rw [hno] at h; cases h⟩
  | false =>
    have hfile₅ : ∀ n, p₅.files.file n = shellFile host s (p.files.close m).file n := by
      rw [hfiles₅, hfiles₄]
      exact hfile₃
    have hup₅ : p.SameScreen p₅ := hup₄.trans hsame₅
    simp only [Bool.not_false, if_true]
    rw [bind_ok hctty]
    cases hterminal : (p₄.files.file 0).isSome && !host.refuses .setCtty with
    | false =>
      have hno : host.execs (p₅.files.file 0) = false := by
        rw [hfiles₅, Host.execs, hterminal, Bool.and_false, Bool.false_and]
      exact ⟨p₅, by rw [hno]; rfl, hup₅, hfile₅, fun h => by rw [hno] at h; cases h⟩
    | true =>
      have hexecs : host.execs (p₅.files.file 0) = !host.refuses .execlp := by
        rw [hfiles₅, Host.execs, hterminal, hsid, Bool.not_false, Bool.and_true, Bool.true_and]
      simp only [if_true]
      cases hexec : host.refuses .execlp with
      | true =>
        rw [hexec] at hexecs
        refine ⟨{ p₅ with errno := host.errno .execlp }, ?_, hup₅, hfile₅, fun h => ?_⟩
        · rw [bind_ok (call_refused hexec p₅)]
          simp only [hexecs]
          rfl
        · rw [hexecs] at h
          cases h
      | false =>
        rw [hexec] at hexecs
        refine ⟨p₅, by rw [bind_ok (call_ok hexec p₅), hexecs]; rfl, hup₅, hfile₅, fun _ => ?_⟩
        rw [hterm hterminal, hfiles₅]

/-- The child leaves the terminal and libvterm to the parent, whatever fails. -/
theorem child_ends (scr : Screen V) (answers : Nat → WriteAnswer) (turns : List (Turn V))
    (hfork : callsToFork.find? host.refuses = none) (d : Descriptors I) (tty : Option I) :
    ∃ p, (if host.execs (p.files.file 0) then
          shellMainEntry host scr answers turns .child (.start d tty) = .ok .becomesShell p ∧
            p.ctty = p.files.file 0
        else shellMainEntry host scr answers turns .child (.start d tty) = .stop (.exit 1) p) ∧
      p.curses = true ∧
      p.vterm = .live (.start (host.vtermNew host.size.shrunk.1 host.size.shrunk.2) host.keys) ∧
      ∀ n, p.files.file n =
        shellFile host (slaveFd d) (fun k => (d.file k).map .inherited) n := by
  have hprepare := prepare_cases host d tty
  rw [hfork] at hprepare
  obtain ⟨p₁, hprep, hup, hfiles⟩ := hprepare
  have hslave : p₁.files.file (slaveFd d) = some .slave := by
    rw [hfiles, pty_file, if_pos rfl]
  obtain ⟨p₂, hrun, hsame, hfile, hctty⟩ :=
    slaveProcess_returns host (slaveFd_free d).2 hslave
  -- the two descriptors of the pty are closed, and nothing else was opened
  have hall : ∀ n, p₂.files.file n =
      shellFile host (slaveFd d) (fun k => (d.file k).map .inherited) n := by
    intro n
    rw [hfile, shellFile, shellFile]
    by_cases hn : n = slaveFd d
    · rw [if_pos hn, if_pos hn]
    · have hkept : (p₁.files.close (masterFd d)).file n = (d.file n).map .inherited := by
        rw [hfiles, Descriptors.file_close, pty_file, if_neg hn]
        by_cases hnm : n = masterFd d
        · rw [if_pos hnm, hnm, masterFd, d.lowest_free]
          rfl
        · rw [if_neg hnm, if_neg hnm]
      rw [if_neg hn, if_neg hn, hkept]
  have hentry : shellMainEntry host scr answers turns .child (.start d tty) =
      childSide host (masterFd d) (slaveFd d) p₁ := by
    rw [shellMainEntry, bind_ok hprep]
  rw [hentry, childSide, bind_ok hrun]
  have hcurses : p₂.curses = true := hsame.1.trans hup.curses
  have hvterm := hsame.2.1.trans hup.vterm
  cases hexecs : host.execs (p₂.files.file 0) with
  | true =>
    refine ⟨p₂, ?_, hcurses, hvterm, hall⟩
    rw [if_pos hexecs]
    exact ⟨by rw [if_pos rfl]; rfl, hctty hexecs⟩
  | false =>
    let text := host.strerror (host.errnoLogged p₂.errno)
    refine ⟨{ p₂ with
      errno := host.errnoLogged p₂.errno, errors := p₂.errors ++ [errorLine "" text "\n"] }, ?_,
      hcurses, hvterm, hall⟩
    rw [if_neg (by rw [hexecs]; decide)]
    show (if (-1 : Int) < 0 then errordErrno host "" "\n" else pure (.returns 0) :
      Exec (Process I V) Ending) p₂ = _
    rw [if_pos (by decide)]
    rfl

/-! ## §6. The parent. -/

/-- The main loop runs on what `init_vterm` has set up. -/
theorem masterProcessEntry_runs (host : Host V) (scr : Screen V) (answers : Nat → WriteAnswer)
    (turns : List (Turn V)) (s : Nat) {p : Process I V} (hup : p.Up host) :
    ∃ p', p'.Up host ∧ p'.files = p.files.close s ∧
      masterProcessEntry host scr answers turns s p = mainLoop scr answers turns p' := by
  obtain ⟨_, e₁, hwait⟩ := call_returns host .waitpid { p with files := p.files.close s }
  obtain ⟨_, e₂, hall⟩ := allOf_returns host [.ptraceSeize, .ptraceInterrupt, .ptraceSyscall, .kill]
    { p with files := p.files.close s, errno := e₁ }
  have hinit : tracerInit host { p with files := p.files.close s } =
      .ok _ { p with files := p.files.close s, errno := e₂ } := (bind_ok hwait _).trans hall
  refine ⟨{ p with files := p.files.close s, errno := e₂ },
    ⟨hup.curses, hup.vterm, hup.errors⟩, rfl, ?_⟩
  rw [masterProcessEntry]
  show (tracerInit host >>= fun _ => mainLoop scr answers turns)
    { p with files := p.files.close s } = _
  rw [bind_ok hinit]

/-- **The parent** before its main loop, whatever fails. -/
theorem parent_starts (host : Host V) (scr : Screen V) (answers : Nat → WriteAnswer)
    (turns : List (Turn V)) (d : Descriptors I) (tty : Option I) :
    match callsToLoop.find? host.refuses with
    | some c => host.Fails c (shellMainEntry host scr answers turns .parent) (.start d tty)
    | none => ∃ p : Process I V, p.Up host ∧
        p.files = (((d.map .inherited).opened .master).opened .slave).close (slaveFd d) ∧
        shellMainEntry host scr answers turns .parent (.start d tty) =
          (mainLoop scr answers turns >>= finish host) p := by
  have hprepare := prepare_cases host d tty
  rw [callsToLoop, List.find?_append]
  cases hfork : callsToFork.find? host.refuses with
  | some c =>
    rw [hfork] at hprepare
    exact hprepare.bind _
  | none =>
    rw [hfork] at hprepare
    obtain ⟨p₁, hprep, hup, hfiles⟩ := hprepare
    have hentry : shellMainEntry host scr answers turns .parent (.start d tty) =
        parentSide host scr answers turns (slaveFd d) p₁ := by
      rw [shellMainEntry, bind_ok hprep]
    have herrors : p₁.errors = (Process.start d tty : Process I V).errors := hup.errors
    have hbegin : ∀ line, Complains (parentSide host scr answers turns (slaveFd d)) p₁ line →
        Complains (shellMainEntry host scr answers turns .parent) (.start d tty) line :=
      fun line h => .step hprep herrors h
    rw [hentry]
    cases hget : host.refuses .fcntlGetfl with
    | true =>
      simp only [Option.none_or, List.find?, hget]
      exact .of_complains (by decide)
        (hbegin _ (.step (call_refused hget p₁) rfl (errordClean_complains hup.not_freed _ _)))
    | false =>
      cases hset : host.refuses .fcntlSetfl with
      | true =>
        simp only [Option.none_or, List.find?, hget, hset]
        exact .of_complains (by decide) (hbegin _ (.step (call_ok hget p₁) rfl
          (.step (call_refused hset p₁) rfl (errordClean_complains hup.not_freed _ _))))
      | false =>
        simp only [Option.none_or, List.find?, hget, hset]
        obtain ⟨p₂, hup₂, hfiles₂, hloop⟩ := masterProcessEntry_runs host scr answers turns
          (slaveFd d) hup
        refine ⟨p₂, hup₂, by rw [hfiles₂, hfiles], ?_⟩
        rw [parentSide, bind_ok (call_ok hget p₁)]
        show (call host .fcntlSetfl >>= _) p₁ = _
        rw [bind_ok (call_ok hset p₁)]
        cases hret : mainLoop scr answers turns p₂ with
        | ok ret p₃ =>
          rw [bind_ok hret]
          exact bind_ok (hloop.trans hret) (finish host)
        | stop e p₃ =>
          rw [bind_stop hret]
          exact bind_stop (hloop.trans hret) (finish host)

variable (host) in
/-- What the main loop starts from. -/
def Host.console : Console V :=
  .start (host.vtermNew host.size.shrunk.1 host.size.shrunk.2) host.keys

/-- The main loop, in the parent. -/
theorem mainLoop_eq (scr : Screen V) (answers : Nat → WriteAnswer) (turns : List (Turn V))
    {p : Process I V} (hup : p.Up host) :
    mainLoop scr answers turns p =
      match masterProcess scr answers turns host.console with
      | .ok r c => .ok r { p with vterm := .live c }
      | .stop e c => .stop e { p with vterm := .live c } := by
  unfold mainLoop
  rw [hup.vterm]
  rfl

/-- The parent after its main loop. -/
theorem finish_gives (host : Host V) {p : Process I V} (h : p.vterm ≠ .freed) (ret : Int) :
    if ret < 0 then
      Complains (finish host (some ret)) p
        (errorLine "" (literal "master process had a failure") ".\n")
    else ∃ p', finish host (some ret) p = .ok (.returns 0) p' ∧ p'.GivenBack ∧ p'.errors = p.errors ∧
      p'.files = p.files := by
  unfold finish
  by_cases hret : ret < 0
  · simp only [hret, if_true]
    exact cleanup_complains host h _ _ _
  · simp only [hret, if_false]
    obtain ⟨p', hrun, hback, -, herrors, hfiles⟩ := cleanup_gives host h
    exact ⟨p', bind_ok hrun _, hback, herrors, hfiles⟩

/-- What the parent has open in its main loop. -/
theorem parent_file (d : Descriptors I) (n : Nat) :
    ((((d.map File.inherited).opened .master).opened .slave).close (slaveFd d)).file n =
      if n = masterFd d then some .master else (d.file n).map .inherited := by
  obtain ⟨hfree, hne⟩ := slaveFd_free d
  rw [Descriptors.file_close, pty_file]
  by_cases hn : n = slaveFd d
  · rw [if_pos hn, hn, if_neg hne, hfree]
    rfl
  · rw [if_neg hn, if_neg hn]

/-- A parent that is in its main loop or has returned. -/
theorem parent_files {d : Descriptors I} {tty : Option I} {e : Ending} {q : Process I V}
    (h : shellMainEntry host scr answers turns .parent (.start d tty) = .ok e q) :
    q.files = (((d.map .inherited).opened .master).opened .slave).close (slaveFd d) := by
  have hstarts := parent_starts host scr answers turns d tty
  cases hcalls : callsToLoop.find? host.refuses with
  | some c =>
    rw [hcalls] at hstarts
    exact absurd h (hstarts.not_ok e q)
  | none =>
    rw [hcalls] at hstarts
    obtain ⟨p, hup, hfiles, hrun⟩ := hstarts
    rw [hrun] at h
    obtain ⟨ret, p', hloop, hfinish⟩ := ok_of_bind h
    have hlive : p'.vterm ≠ .freed ∧ p'.files = p.files := by
      rw [mainLoop_eq scr answers turns hup] at hloop
      cases hmaster : masterProcess scr answers turns host.console with
      | ok r c =>
        rw [hmaster] at hloop
        cases hloop
        exact ⟨fun hv => (by cases hv), rfl⟩
      | stop f c =>
        rw [hmaster] at hloop
        cases hloop
    rw [← hfiles, ← hlive.2]
    cases ret with
    | none =>
      cases hfinish
      rfl
    | some ret =>
      have hgives := finish_gives host hlive.1 ret
      by_cases hret : ret < 0
      · rw [if_pos hret] at hgives
        obtain ⟨p'', hstop, -⟩ := hgives
        rw [hstop] at hfinish
        cases hfinish
      · rw [if_neg hret] at hgives
        obtain ⟨p'', hok, -, -, hsame⟩ := hgives
        rw [hok] at hfinish
        cases hfinish
        exact hsame

/-- How the parent ends, by the first call to fail of those it looks at, by what
    its main loop does, and by what it does then. -/
inductive ParentEnds (host : Host V) :
    Option StartCall → Result (Console V) (Option Int) → Result (Process I V) Ending → Prop
  | refused (c : StartCall) (looped : Result (Console V) (Option Int)) (p : Process I V)
      (hc : c ≠ .vtermNew) (hback : p.GivenBack) (herrors : p.errors = [host.complaint c]) :
      ParentEnds host (some c) looped (.stop (.exit 1) p)
  | noVterm (looped : Result (Console V) (Option Int)) (p : Process I V) :
      ParentEnds host (some .vtermNew) looped (.stop .undefined p)
  | running (c : Console V) (p : Process I V) (hcurses : p.curses = true) (hvterm : p.vterm = .live c)
      (herrors : p.errors = []) : ParentEnds host none (.ok none c) (.ok .running p)
  | failed (ret : Int) (c : Console V) (p : Process I V) (hret : ret < 0) (hback : p.GivenBack)
      (herrors : p.errors = [errorLine "" (literal "master process had a failure") ".\n"]) :
      ParentEnds host none (.ok (some ret) c) (.stop (.exit 1) p)
  | done (ret : Int) (c : Console V) (p : Process I V) (hret : ¬ret < 0) (hback : p.GivenBack)
      (herrors : p.errors = []) : ParentEnds host none (.ok (some ret) c) (.ok (.returns 0) p)
  | wrong (e : Fault) (c : Console V) (p : Process I V) :
      ParentEnds host none (.stop e c) (.stop e p)

theorem parent_ends (host : Host V) (scr : Screen V) (answers : Nat → WriteAnswer)
    (turns : List (Turn V)) (d : Descriptors I) (tty : Option I) :
    ParentEnds host (callsToLoop.find? host.refuses) (masterProcess scr answers turns host.console)
      (shellMainEntry host scr answers turns .parent (.start d tty)) := by
  have hstarts := parent_starts host scr answers turns d tty
  cases hcalls : callsToLoop.find? host.refuses with
  | some c =>
    rw [hcalls] at hstarts
    simp only [Host.Fails] at hstarts
    split at hstarts
    · rename_i hc
      obtain ⟨p, hstop⟩ := hstarts
      rw [hc, hstop]
      exact .noVterm _ p
    · rename_i hc
      obtain ⟨p, hstop, hline, hback⟩ := hstarts
      rw [hstop]
      exact .refused c _ p hc hback hline
  | none =>
    rw [hcalls] at hstarts
    obtain ⟨p, hup, -, hrun⟩ := hstarts
    have hloop := mainLoop_eq scr answers turns hup
    rw [hrun]
    cases hmaster : masterProcess scr answers turns host.console with
    | stop e c =>
      rw [hmaster] at hloop
      rw [bind_stop hloop]
      exact .wrong e c _
    | ok r c =>
      rw [hmaster] at hloop
      rw [bind_ok hloop]
      cases r with
      | none => exact .running c _ hup.curses rfl hup.errors
      | some ret =>
        have hgives := finish_gives host (p := { p with vterm := .live c }) (fun h => by cases h) ret
        by_cases hret : ret < 0
        · rw [if_pos hret] at hgives
          obtain ⟨p', hstop, hline, hback⟩ := hgives
          rw [hstop]
          refine .failed ret c p' hret hback ?_
          rw [hline]
          exact congrArg (· ++ _) hup.errors
        · rw [if_neg hret] at hgives
          obtain ⟨p', hok, hback, hnone, -⟩ := hgives
          rw [hok]
          exact .done ret c p' hret hback (hnone.trans hup.errors)

/-! ## §7. Both. -/

/-- **The terminal is given back.**  Whatever fails and whatever the main loop
    does: the parent exits with 1 and reports the place of the first call that
    has failed of those it looks at, with the text of what is in `errno` by then,
    or else ends as its main loop does; in either case libvterm's terminal is
    freed once and `endwin` has been called.  Only a `vterm_new` without memory
    and the main loop go wrong.  The child touches neither. -/
theorem terminal_given_back (host : Host V) (scr : Screen V) (answers : Nat → WriteAnswer)
    (turns : List (Turn V)) (d : Descriptors I) (tty : Option I) :
    ParentEnds host (callsToLoop.find? host.refuses) (masterProcess scr answers turns host.console)
      (shellMainEntry host scr answers turns .parent (.start d tty)) ∧
    (callsToFork.find? host.refuses = none →
      (shellMainEntry host scr answers turns .child (.start d tty)).state.curses = true ∧
      (shellMainEntry host scr answers turns .child (.start d tty)).state.vterm =
        .live host.console) := by
  refine ⟨parent_ends host scr answers turns d tty, fun hfork => ?_⟩
  obtain ⟨p, hends, hcurses, hvterm, -⟩ := child_ends scr answers turns hfork d tty
  split at hends
  · rw [hends.1]
    exact ⟨hcurses, hvterm⟩
  · rw [hends]
    exact ⟨hcurses, hvterm⟩

theorem fork_of_child {d : Descriptors I} {tty : Option I} {side : Side} {e : Ending}
    {p : Process I V} (h : shellMainEntry host scr answers turns side (.start d tty) = .ok e p) :
    callsToFork.find? host.refuses = none := by
  have hprepare := prepare_cases host d tty
  cases hfork : callsToFork.find? host.refuses with
  | none => rfl
  | some c =>
    rw [hfork] at hprepare
    exact absurd h ((hprepare.bind _).not_ok e p)

/-- stdin, stdout, stderr and the controlling terminal are the pty. -/
structure Process.Connected (p : Process I V) : Prop where
  stdio : ∀ n, n ≤ 2 → p.files.file n = some .slave
  ctty : p.ctty = some .slave

theorem shellFile_connected (d : Descriptors I) :
    (∀ n, n ≤ 2 →
      shellFile host (slaveFd d) (fun k => (d.file k).map File.inherited) n = some .slave) ↔
      (∀ n, n ≤ 2 → host.refuses (.dup2 n) = false) ∧
      ∀ i j, i ≤ 2 → j ≤ 2 → d.file i = none → d.file j = none → i = j := by
  have hsecond := (d.map File.inherited).lt_second_iff .master 2
  simp only [Descriptors.file_map, Option.map_eq_none_iff] at hsecond
  rw [← hsecond]
  show _ ↔ _ ∧ 2 < slaveFd d
  have hother : ∀ n, (d.file n).map File.inherited ≠ some .slave := by
    intro n h
    obtain ⟨i, -, hi⟩ := Option.map_eq_some_iff.mp h
    cases hi
  constructor
  · intro hall
    have hne : ∀ n, n ≤ 2 → n ≠ slaveFd d := by
      intro n hn hs
      have h := hall n hn
      rw [shellFile, if_pos hs] at h
      cases h
    refine ⟨fun n hn => ?_, ?_⟩
    · by_contra hrefused
      have h := hall n hn
      rw [shellFile, if_neg (hne n hn), if_neg fun hboth => hrefused hboth.2] at h
      exact hother n h
    · by_contra hle
      exact hne (slaveFd d) (by omega) rfl
  · rintro ⟨hdup, hlt⟩ n hn
    rw [shellFile, if_neg (by omega), if_pos ⟨hn, hdup n hn⟩]

/-- **Who holds which end.**  Take any descriptors that prom is started with and
    any calls that fail.  When the child becomes the shell and the parent has
    its main loop, the shell is connected to the pty exactly when no `dup2` has
    failed and at most one of the descriptors 0 to 2 was closed at the start.
    Its other descriptors are those that prom was started with; the parent has
    these and the master side, and nobody but the shell has the slave side. -/
theorem sides_connected {d : Descriptors I} {tty : Option I} {e : Ending} {p q : Process I V}
    (hchild : shellMainEntry host scr answers turns .child (.start d tty) = .ok .becomesShell p)
    (hparent : shellMainEntry host scr answers turns .parent (.start d tty) = .ok e q) :
    (p.Connected ↔ (∀ n, n ≤ 2 → host.refuses (.dup2 n) = false) ∧
      ∀ i j, i ≤ 2 → j ≤ 2 → d.file i = none → d.file j = none → i = j) ∧
    (∀ n, 2 < n → p.files.file n = (d.file n).map .inherited) ∧
    (∀ n, p.files.file n ≠ some .master) ∧
    ∀ n, q.files.file n = if n = masterFd d then some .master else (d.file n).map .inherited := by
  obtain ⟨p', hends, -, -, hfile⟩ :=
    child_ends scr answers turns (fork_of_child hchild) d tty
  rw [hchild] at hends
  split at hends
  · obtain ⟨hrun, hctty⟩ := hends
    cases hrun
    have hconnected : p.Connected ↔ ∀ n, n ≤ 2 → p.files.file n = some .slave :=
      ⟨Process.Connected.stdio, fun h => ⟨h, by rw [hctty, h 0 (Nat.zero_le 2)]⟩⟩
    have hinherited : ∀ n f, (d.file n).map File.inherited = some f → ∃ i, f = .inherited i := by
      intro n f h
      obtain ⟨i, -, hi⟩ := Option.map_eq_some_iff.mp h
      exact ⟨i, hi.symm⟩
    refine ⟨?_, fun n hn => ?_, fun n h => ?_, fun n => ?_⟩
    · rw [hconnected, ← shellFile_connected]
      simp only [hfile]
    · rw [hfile, shellFile]
      by_cases hs : n = slaveFd d
      · rw [if_pos hs, hs, (slaveFd_free d).1]
        rfl
      · rw [if_neg hs, if_neg fun h => absurd h.1 (by omega)]
    · -- what is not the slave side was there before
      rw [hfile, shellFile] at h
      split at h
      · cases h
      · split at h
        · cases h
        · obtain ⟨i, hi⟩ := hinherited n _ h
          cases hi
    · rw [parent_files hparent]
      exact parent_file d n
  · cases hends

end Model

/-- A host that refuses nothing. -/
def calmHost : Host (List Byte) where
  refuses _ := false
  errno _ := 0
  errnoCleaned e := e
  errnoLogged e := e
  strerror _ := []
  initscrText := []
  size := smallTerm
  vtermNew _ _ := []
  keys := []

/-- Only stdin, stdout and stderr are open. -/
def stdioOpen : Descriptors Nat where
  file n := if n ≤ 2 then some n else none
  bounded := ⟨3, fun n hn => if_neg (by omega)⟩

theorem stdioOpen_closed {n : Nat} (hn : n ≤ 2) : stdioOpen.file n ≠ none := by
  show (if n ≤ 2 then some n else none) ≠ none
  simp [hn]

/-- Where nothing fails the shell is connected. -/
theorem calm_sides_connected :
    ∃ p q, shellMainEntry calmHost blank (fun _ => .again) [] .child (.start stdioOpen none) =
        .ok .becomesShell p ∧
      shellMainEntry calmHost blank (fun _ => .again) [] .parent (.start stdioOpen none) =
        .ok .running q ∧ p.Connected := by
  have hnever : (∀ n, n ≤ 2 → calmHost.refuses (.dup2 n) = false) ∧
      ∀ i j, i ≤ 2 → j ≤ 2 → stdioOpen.file i = none → stdioOpen.file j = none → i = j :=
    ⟨fun _ _ => rfl, fun i j hi _ hnone => absurd hnone (stdioOpen_closed hi)⟩
  have hfork : callsToFork.find? calmHost.refuses = none := rfl
  obtain ⟨p, hchild, -, -, hfile⟩ := child_ends blank (fun _ => .again) [] hfork stdioOpen none
  have hstdin : p.files.file 0 = some .slave := by
    rw [hfile]
    exact shellFile_connected stdioOpen |>.mpr hnever 0 (by omega)
  rw [hstdin, if_pos (by rfl)] at hchild
  have hends := parent_ends calmHost blank (fun _ => .again) [] stdioOpen none
  have hloop : masterProcess blank (fun _ => .again) [] calmHost.console =
      .ok none calmHost.console := rfl
  rw [show callsToLoop.find? calmHost.refuses = none from rfl, hloop] at hends
  generalize hrun : shellMainEntry calmHost blank (fun _ => .again) [] .parent
    (.start stdioOpen none) = run at hends
  cases hends with
  | running c q => exact ⟨p, q, hchild.1, rfl, (sides_connected hchild.1 hrun).1.mpr hnever⟩

/-- There nothing fails before the main loop, and the child leaves the terminal
    as it was. -/
theorem calm_terminal_left :
    ParentEnds calmHost none (masterProcess blank (fun _ => .again) [] calmHost.console)
        (shellMainEntry calmHost blank (fun _ => .again) [] .parent (.start stdioOpen none)) ∧
      (shellMainEntry calmHost blank (fun _ => .again) [] .child (.start stdioOpen none)).state.curses =
        true ∧
      (shellMainEntry calmHost blank (fun _ => .again) [] .child (.start stdioOpen none)).state.vterm =
        .live calmHost.console :=
  (terminal_given_back calmHost blank (fun _ => .again) [] stdioOpen none).imp id fun h => h rfl

end Prom.Shell
