/-
  Prom.Shell.Output — the main loop of src/shell/shell.c and its screen side.

  A pass of the loop of `master_process` lets the tracer, the window and the
  status bar do their work, asks `poll` about the master side of the pty and
  the keyboard, and calls `handle_output` and `handle_input`.
  `handle_output` reads once, at most 8192 bytes, and passes what it has read
  to the terminal.  A pass that is told of the hang-up is the last one.

  What the shell side does to its end of the pty, and what `poll` and `read`
  answer, is given pass by pass.  The pty remembers all that was ever written
  to it, and the loop what it has passed to `vterm_input_write`.

  Main results:
    * `masterPass_accounted` — after any pass what was written is what was
      shown and what is still unread.
    * `masterPass_hangUp` — what the last pass does.
    * `output_shown_iff` — everything has been shown exactly when the one read
      of the last pass took all that was pending.
-/
import Prom.Shell.Input

namespace Prom.Shell

open Prom.C Exec

/-! ## §1. The pty and the system. -/

/-- `errno`, as far as the loop tells its values apart. -/
inductive Errno where
  | EINTR
  | EAGAIN
  | other
  deriving Repr, DecidableEq

/-- libvterm with the side that output is written to. -/
structure Screen (V : Type) extends Libvterm V where
  /-- `vterm_input_write`. -/
  inputWrite : V → List Byte → V

/-- What the shell side does for a while: it writes, and may then close its
    side. -/
structure SlaveActs where
  bytes : List Byte
  closes : Bool

/-- The pty. -/
structure Pty where
  /-- All that has been written to the slave side. -/
  written : List Byte
  /-- What has not been read from the master side yet. -/
  unread : List Byte
  /-- The slave side is closed. -/
  closed : Bool

/-- Nothing is written to a closed pty. -/
def Pty.after (p : Pty) (a : SlaveActs) : Pty :=
  if p.closed then p else ⟨p.written ++ a.bytes, p.unread ++ a.bytes, a.closes⟩

/-- `revents`. -/
structure Revents where
  pollin : Bool
  pollhup : Bool
  /-- Any other bit. -/
  other : Bool
  deriving Repr, DecidableEq

/-- 1 if any bit is set. -/
def Revents.count (r : Revents) : Nat := if r.pollin || r.pollhup || r.other then 1 else 0

/-- What `poll` answers. -/
inductive PollAnswer where
  | fails (e : Errno)
  | ready (master stdin : Revents)
  deriving Repr, DecidableEq

/-- What `read` answers: it returns at most this many bytes, or fails. -/
inductive ReadAnswer where
  | fails (e : Errno)
  | gives (n : Nat)
  deriving Repr, DecidableEq

/-- How many bytes `read` returns if there are that many. -/
def ReadAnswer.limit : ReadAnswer → Nat
  | .fails _ => 0
  | .gives n => min n bufSize

/-- What happens around the loop during one pass. -/
structure Turn (V : Type) where
  /-- What `tracer_loop`, `window_resize` and the status bar do to the
      terminal. -/
  others : V → V
  /-- What is left in `errno` when `poll` is called. -/
  errno : Errno
  /-- What the shell side does until `poll` looks. -/
  before : SlaveActs
  poll : PollAnswer
  /-- What the shell side does until `read` is called. -/
  between : SlaveActs
  read : ReadAnswer

/-- The state of the loop. -/
structure Console (V : Type) where
  /-- The keyboard side, with `globe.vterm`. -/
  input : State V
  pty : Pty
  errno : Errno
  /-- The chunks passed to `vterm_input_write`. -/
  shown : List (List Byte)

/-- Before anything is written or typed. -/
def Console.start {V : Type} (v : V) (pending : List Getch) : Console V :=
  ⟨.start v pending, ⟨[], [], false⟩, .other, []⟩

def consoleInput {V : Type} : Lens (Console V) (State V) where
  get := Console.input
  set s t := { s with input := t }
  get_set _ _ := rfl
  set_get _ := rfl
  set_set _ _ _ := rfl

section Model

variable {V : Type}

/-! ## §2. The source: shell.c. -/

/-- The first `n` bytes are unread no more. -/
def Console.consumed (s : Console V) (n : Nat) : Console V :=
  { s with pty := { s.pty with unread := s.pty.unread.drop n } }

/-- `read(globe.fd_master, buf, sizeof(buf))`; no chunk is -1. -/
def read (answer : ReadAnswer) : Exec (Console V) (Option (List Byte)) := fun s =>
  match answer with
  | .fails e => .ok none { s with errno := e }
  | .gives n => .ok (some (s.pty.unread.take (min n bufSize))) (s.consumed (min n bufSize))

/-- `vterm_input_write(globe.vterm, buf, bytes_read)`. -/
def vtermInputWrite (scr : Screen V) (chunk : List Byte) : Exec (Console V) Unit := modify fun s =>
  { s with
    input := { s.input with vterm := scr.inputWrite s.input.vterm chunk }
    shown := s.shown ++ [chunk] }

/-- `handle_output()`. -/
def handleOutput (scr : Screen V) (answer : ReadAnswer) : Exec (Console V) Int := do
  match ← read answer with
  | some (b :: chunk) =>
    vtermInputWrite scr (b :: chunk)
    -- nothing is done about '\r'
    pure 0
  | _ =>
    -- `bytes_read <= 0`; at the end of the file `errno` is an old one
    if (← get).errno = .EAGAIN then pure 0 else pure (-1)

/-- The state in which `poll` looks: the tracer, the window, the status bar and
    the shell side have done their work. -/
def Turn.polled (turn : Turn V) (s : Console V) : Console V :=
  { s with
    input := { s.input with vterm := turn.others s.input.vterm }
    pty := s.pty.after turn.before
    errno := turn.errno }

/-- `if (revents & POLLIN)`; 0 is no failure. -/
def ifPollin (r : Revents) (m : Exec (Console V) Int) : Exec (Console V) Int :=
  if r.pollin then m else pure 0

/-- The rest of a pass in which `poll` has found something. -/
def masterReady (scr : Screen V) (answers : Nat → WriteAnswer) (answer : ReadAnswer)
    (master stdin : Revents) : Exec (Console V) (Unit ⊕ Int) := do
  if (← ifPollin master (handleOutput scr answer)) < 0 then pure (.inr 0)
  else if master.pollhup then pure (.inr 0)
  else if (← ifPollin stdin (zoom consoleInput (handleInput scr.toLibvterm answers))) < 0 then
    pure (.inr 0)
  else pure (.inl ())

/-- One pass of the loop of `master_process`. -/
def masterPass (scr : Screen V) (answers : Nat → WriteAnswer) (turn : Turn V) :
    Exec (Console V) (Unit ⊕ Int) := do
  modify turn.polled
  match turn.poll with
  | .fails e => do
    modify fun s => { s with errno := e }
    if e = .EINTR then pure (.inl ()) else pure (.inr (-1))
  | .ready master stdin =>
    if master.count + stdin.count = 0 then pure (.inl ())
    else do
      modify fun s => { s with pty := s.pty.after turn.between }
      masterReady scr answers turn.read master stdin

/-- The loop of `master_process`, for as many passes as are given; none is
    what it returns when they are over and it is not. -/
def masterProcess (scr : Screen V) (answers : Nat → WriteAnswer) :
    List (Turn V) → Exec (Console V) (Option Int)
  | [] => pure none
  | turn :: rest => do
    match ← masterPass scr answers turn with
    | .inl () => masterProcess scr answers rest
    | .inr r => pure (some r)

/-! ## §3. What is shown and what is unread. -/

/-- What has been written is what has been shown and what is unread. -/
def Accounted (s : Console V) : Prop := s.shown.flatten ++ s.pty.unread = s.pty.written

theorem Accounted.after {s : Console V} (h : Accounted s) (a : SlaveActs) :
    Accounted { s with pty := s.pty.after a } := by
  unfold Accounted Pty.after
  split
  · exact h
  · show s.shown.flatten ++ (s.pty.unread ++ a.bytes) = s.pty.written ++ a.bytes
    rw [← List.append_assoc, h]

/-- One read, and what it returns is shown. -/
theorem handleOutput_reads (scr : Screen V) (answer : ReadAnswer) (s : Console V) :
    ∃ r s', handleOutput scr answer s = .ok r s' ∧
      s'.pty = (s.consumed answer.limit).pty ∧
      s'.shown.flatten = s.shown.flatten ++ s.pty.unread.take answer.limit := by
  -- nothing is shown when nothing was read
  have hnothing : ∀ s₁ : Console V, ∃ r,
      (do if (← get).errno = .EAGAIN then pure 0 else pure (-1) : Exec (Console V) Int) s₁ = .ok r s₁ := by
    intro s₁
    rw [get_bind_apply]
    split
    · exact ⟨0, rfl⟩
    · exact ⟨-1, rfl⟩
  cases answer with
  | fails e =>
    obtain ⟨r, hr⟩ := hnothing { s with errno := e }
    exact ⟨r, { s with errno := e }, hr, rfl, (List.append_nil _).symm⟩
  | gives n =>
    have hread : read (.gives n) s =
        .ok (some (s.pty.unread.take (min n bufSize))) (s.consumed (min n bufSize)) := rfl
    show ∃ r, ∃ s' : Console V, _ ∧ _ ∧ s'.shown.flatten = _ ++ s.pty.unread.take (min n bufSize)
    rw [handleOutput, bind_ok hread]
    cases s.pty.unread.take (min n bufSize) with
    | nil =>
      obtain ⟨r, hr⟩ := hnothing (s.consumed (min n bufSize))
      exact ⟨r, s.consumed (min n bufSize), hr, rfl, (List.append_nil _).symm⟩
    | cons b chunk =>
      have hwrite : ∃ s', vtermInputWrite scr (b :: chunk) (s.consumed (min n bufSize)) = .ok () s' ∧
          s'.pty = (s.consumed (min n bufSize)).pty ∧ s'.shown = s.shown ++ [b :: chunk] :=
        ⟨_, rfl, rfl, rfl⟩
      obtain ⟨s', hrun, hpty, hshown⟩ := hwrite
      refine ⟨0, s', bind_ok hrun _, hpty, ?_⟩
      rw [hshown, List.flatten_append, List.flatten_singleton]

theorem handleOutput_accounted (scr : Screen V) (answer : ReadAnswer) {s : Console V}
    (h : Accounted s) : Returns (handleOutput scr answer) s fun _ s' => Accounted s' := by
  obtain ⟨r, s', hrun, hpty, hshown⟩ := handleOutput_reads scr answer s
  refine .of_eq hrun ?_
  have hparts : s.pty.unread.take answer.limit ++ s'.pty.unread = s.pty.unread := by
    rw [hpty]
    exact List.take_append_drop _ _
  rw [Accounted, hshown, List.append_assoc, hparts, hpty]
  exact h

theorem ifPollin_accounted (r : Revents) {m : Exec (Console V) Int} {s : Console V}
    (h : Accounted s) (hm : Returns m s fun _ s' => Accounted s') :
    Returns (ifPollin r m) s fun _ s' => Accounted s' := by
  unfold ifPollin
  split
  · exact hm
  · exact .pure h

theorem masterReady_accounted (scr : Screen V) (answers : Nat → WriteAnswer) (answer : ReadAnswer)
    (master stdin : Revents) {s : Console V} (h : Accounted s) :
    Returns (masterReady scr answers answer master stdin) s fun _ s' => Accounted s' := by
  unfold masterReady
  refine Returns.bind (ifPollin_accounted master h (handleOutput_accounted scr answer h))
    fun out s₁ h₁ => ?_
  by_cases hout : out < 0
  · rw [if_pos hout]
    exact .pure h₁
  · rw [if_neg hout]
    by_cases hhup : master.pollhup = true
    · rw [if_pos hhup]
      exact .pure h₁
    · rw [if_neg hhup]
      -- the keyboard side has no part in it
      have hinput : Returns (zoom consoleInput (handleInput scr.toLibvterm answers)) s₁
          fun _ s' => Accounted s' := Returns.zoom fun _ _ _ => h₁
      refine Returns.bind (ifPollin_accounted stdin h₁ hinput) fun inp s₂ h₂ => ?_
      split
      · exact .pure h₂
      · exact .pure h₂

/-- **After any pass** what was written is what was shown and what is
    unread. -/
theorem masterPass_accounted (scr : Screen V) (answers : Nat → WriteAnswer) (turn : Turn V)
    {s : Console V} (h : Accounted s) :
    Returns (masterPass scr answers turn) s fun _ s' => Accounted s' := by
  unfold masterPass
  refine Returns.step (modify_apply _ s) ?_
  have hpolled : Accounted (turn.polled s) := h.after turn.before
  cases turn.poll with
  | fails e =>
    refine Returns.step (modify_apply _ _) ?_
    by_cases he : e = .EINTR
    · rw [if_pos he]
      exact .pure hpolled
    · rw [if_neg he]
      exact .pure hpolled
  | ready master stdin =>
    by_cases hcount : master.count + stdin.count = 0
    · simp only [hcount, if_true]
      exact .pure hpolled
    · simp only [hcount, if_false]
      refine Returns.step (modify_apply _ _) ?_
      apply masterReady_accounted
      exact hpolled.after turn.between

theorem masterProcess_accounted (scr : Screen V) (answers : Nat → WriteAnswer)
    (turns : List (Turn V)) {s : Console V} (h : Accounted s) :
    Returns (masterProcess scr answers turns) s fun _ s' => Accounted s' := by
  induction turns generalizing s with
  | nil => exact .pure h
  | cons turn rest ih =>
    refine Returns.bind (masterPass_accounted scr answers turn h) fun r s₁ h₁ => ?_
    cases r with
    | inl u => exact ih h₁
    | inr r => exact .pure h₁

/-- The passes after which the loop is not over come before the others. -/
theorem masterProcess_append {scr : Screen V} {answers : Nat → WriteAnswer}
    {turns : List (Turn V)} {s s₁ : Console V}
    (h : masterProcess scr answers turns s = .ok none s₁) (rest : List (Turn V)) :
    masterProcess scr answers (turns ++ rest) s = masterProcess scr answers rest s₁ := by
  induction turns generalizing s with
  | nil =>
    cases h
    rfl
  | cons turn turns ih =>
    obtain ⟨r, s₂, hpass, hturns⟩ := ok_of_bind h
    rw [List.cons_append, masterProcess, bind_ok hpass]
    cases r with
    | inl u => exact ih hturns
    | inr r => cases hturns

/-! ## §4. The hang-up. -/

/-- What is pending when `poll` looks. -/
def Turn.pending (turn : Turn V) (s : Console V) : List Byte := (turn.polled s).pty.unread

/-- `poll` reports the hang-up as the kernel does: the slave side is closed,
    and POLLIN comes with POLLHUP as long as data is pending. -/
structure Turn.HangsUp (turn : Turn V) (s : Console V) : Prop where
  closed : (turn.polled s).pty.closed = true
  reports : ∃ master stdin, turn.poll = .ready master stdin ∧ master.pollhup = true ∧
    (turn.pending s ≠ [] → master.pollin = true)

/-- **The pass that is told of the hang-up** is the last one, and reads
    once. -/
theorem masterPass_hangUp (scr : Screen V) (answers : Nat → WriteAnswer) {turn : Turn V}
    {s : Console V} (h : turn.HangsUp s) :
    ∃ s', masterPass scr answers turn s = .ok (.inr 0) s' ∧
      s'.pty.written = (turn.polled s).pty.written ∧
      s'.pty.unread = (turn.pending s).drop turn.read.limit := by
  obtain ⟨master, stdin, hpoll, hhup, hin⟩ := h.reports
  have hcount : ¬master.count + stdin.count = 0 := by
    rw [Revents.count, hhup, Bool.or_true, Bool.true_or, if_pos rfl]
    omega
  -- nothing comes after the close
  have hclosed : (turn.polled s).pty.after turn.between = (turn.polled s).pty := if_pos h.closed
  have hpass : masterPass scr answers turn s =
      masterReady scr answers turn.read master stdin (turn.polled s) := by
    rw [masterPass, modify_bind_apply, hpoll]
    simp only [hcount, if_false]
    rw [modify_bind_apply, hclosed]
  -- what is pending is read if there is anything, and the loop is left either way
  have hread : ∃ out s', ifPollin master (handleOutput scr turn.read) (turn.polled s) = .ok out s' ∧
      s'.pty.written = (turn.polled s).pty.written ∧
      s'.pty.unread = (turn.pending s).drop turn.read.limit := by
    by_cases hpollin : master.pollin = true
    · obtain ⟨r, s', hrun, hpty, -⟩ := handleOutput_reads scr turn.read (turn.polled s)
      refine ⟨r, s', ?_, ?_, congrArg Pty.unread hpty⟩
      · rw [ifPollin, if_pos hpollin, hrun]
      · rw [hpty]
        rfl
    · have hnone : turn.pending s = [] := by
        by_contra hne
        exact hpollin (hin hne)
      refine ⟨0, turn.polled s, ?_, rfl, ?_⟩
      · rw [ifPollin, if_neg hpollin, pure_apply]
      · rw [hnone, List.drop_nil]
        exact hnone
  obtain ⟨out, s', hrun, hpty⟩ := hread
  refine ⟨s', ?_, hpty⟩
  rw [hpass, masterReady, bind_ok hrun]
  by_cases hout : out < 0
  · rw [if_pos hout, pure_apply]
  · rw [if_neg hout, if_pos hhup, pure_apply]

/-- **When all output is shown.**  Take any terminal, any answers of `poll`,
    `read` and `write`, anything the shell side writes and types, and any
    passes after which the loop goes on.  In a pass that is told of the
    hang-up the loop is left, and all that was ever written to the slave side
    has been passed to `vterm_input_write`, in order and once, if and only if
    the one read of this pass takes all that is pending. -/
theorem output_shown_iff (scr : Screen V) (answers : Nat → WriteAnswer) (v : V)
    (keys : List Getch) (turns : List (Turn V)) (last : Turn V) (rest : List (Turn V))
    (s : Console V) (hturns : masterProcess scr answers turns (.start v keys) = .ok none s)
    (hhup : last.HangsUp s) :
    ∃ s', masterProcess scr answers (turns ++ last :: rest) (.start v keys) = .ok (some 0) s' ∧
      (s'.shown.flatten = s'.pty.written ↔ (last.pending s).length ≤ last.read.limit) := by
  have hstart : Accounted (Console.start v keys) := rfl
  have hs := masterProcess_accounted scr answers turns hstart none s hturns
  obtain ⟨s', hpass, -, hunread⟩ := masterPass_hangUp scr answers hhup
  have hs' : Accounted s' := masterPass_accounted scr answers last hs (.inr 0) s' hpass
  refine ⟨s', ?_, ?_⟩
  · rw [masterProcess_append hturns, masterProcess, bind_ok hpass]
    rfl
  · rw [← hs', List.self_eq_append_right, hunread, List.drop_eq_nil_iff]

end Model

/-- A terminal that shows nothing. -/
def blank : Screen (List Byte) := { queue 4096 with inputWrite := fun v _ => v }

/-- A pass in which the shell side writes, and closes its side or does not. -/
def output (bytes : List Byte) (closes : Bool) : Turn (List Byte) where
  others := id
  errno := .other
  before := ⟨bytes, closes⟩
  poll := .ready ⟨true, closes, false⟩ ⟨false, false, false⟩
  between := ⟨[], closes⟩
  read := .gives 8192

theorem output_hangsUp (bytes : List Byte) {s : Console (List Byte)} (h : s.pty.closed = false) :
    (output bytes true).HangsUp s := by
  refine ⟨?_, _, _, rfl, rfl, fun _ => rfl⟩
  show (s.pty.after ⟨bytes, true⟩).closed = true
  rw [Pty.after, h]
  rfl

/-- What is written before the close and at it is shown. -/
theorem two_writes_shown :
    ∃ s', masterProcess blank (fun _ => .again) [output [0x6C] false, output [0x73] true] (.start [] []) =
        .ok (some 0) s' ∧ s'.shown.flatten = s'.pty.written := by
  obtain ⟨s', hrun, hiff⟩ := output_shown_iff blank (fun _ => .again) [] []
    [output [0x6C] false] (output [0x73] true) [] _ rfl (output_hangsUp [0x73] rfl)
  exact ⟨s', hrun, hiff.mpr (by decide)⟩

/-- **A byte is lost**: 8193 bytes are pending when the slave side closes, and
    one of them is never read. -/
theorem last_byte_lost :
    ∃ bytes : List Byte, bytes.length = 8193 ∧ (output bytes true).HangsUp (.start [] []) ∧
      ∃ s', masterProcess blank (fun _ => .again) [output bytes true] (.start [] []) = .ok (some 0) s' ∧
        s'.pty.written = bytes ∧ s'.shown.flatten ≠ bytes := by
  obtain ⟨bytes, hlength⟩ : ∃ bytes : List Byte, bytes.length = 8193 :=
    ⟨List.replicate 8193 0, List.length_replicate⟩
  have hhup := output_hangsUp bytes (s := .start [] []) rfl
  obtain ⟨s', hpass, hwritten, hunread⟩ := masterPass_hangUp blank (fun _ => .again) hhup
  have hstart : Accounted (Console.start ([] : List Byte) []) := rfl
  have hs' : Accounted s' := masterPass_accounted blank _ _ hstart (.inr 0) s' hpass
  have hwritten' : s'.pty.written = bytes := hwritten.trans (List.nil_append bytes)
  have hunread' : s'.pty.unread = bytes.drop 8192 := hunread
  refine ⟨bytes, hlength, hhup, s', bind_ok hpass _, hwritten', ?_⟩
  -- one byte is still unread
  rw [Accounted, hwritten', hunread'] at hs'
  intro hshown
  have hlengths := congrArg List.length hs'
  rw [hshown, List.length_append, List.length_drop, hlength] at hlengths
  omega

end Prom.Shell
