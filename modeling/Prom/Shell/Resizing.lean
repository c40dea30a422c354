/-
  Prom.Shell.Resizing — the sizes the shell keeps, and who changes them when.

  A resize of the terminal is reported by SIGWINCH, whose handler sets
  `globe.got_sigwinch`.  The main loop of `src/shell/shell.c` looks at the flag
  once a pass, runs `window_resize` of `src/shell/terminal.c`, and clears the
  flag after it.  Meanwhile the child of the fork tells the pty the size that
  `globe.wsize` had when it was forked.

  The terminal, the signal, the main loop and the child take steps in any
  order:

      resize   the terminal gets another size, the signal is pending
      signal   the handler runs
      step     the next statement of the main loop that another can see
      child    the `ioctl` of `slave_process`

  Three things are taken for granted of what is not in the source.  `refresh`
  after `endwin` asks the terminal for its size, as it does when LINES and
  COLUMNS are not exported; `vterm_set_size` takes the size it is given, as it
  does from one row on, so that a terminal has two; and the `sa_flags` of the
  handler, which are never set, leave it installed.

  Main results:
    * `resize_lost_iff` — at rest the terminal library has the size of the
      terminal, unless the flag has been cleared for a resize that came after
      `refresh` had looked.
    * `pty_size_iff` — at rest the pty has the size of the terminal library,
      unless the child spoke last, of another size.
-/
import Prom.C.Machine
import Prom.Shell.Painting
import Mathlib.Data.List.Induction

namespace Prom.Shell

open Prom.C

/-! ## §1. The sources: shell.c and terminal.c. -/

/-- Where the main loop is. -/
inductive LoopAt where
  /-- Outside the block of `if (globe.got_sigwinch)`. -/
  | rest
  /-- In `window_resize`, before `refresh` looks at the terminal. -/
  | entered
  /-- Before `maxyx`. -/
  | refreshed
  /-- Before `ioctl(fd_term, TIOCSWINSZ, wsize)`. -/
  | sized
  /-- Before `globe.got_sigwinch = false`. -/
  | told
  deriving Repr, DecidableEq

/-- The size as `maxyx` and `ws_row -= 1` leave it: the fields are `unsigned
    short`. -/
def TermSize.shrunk (size : TermSize) : Nat × Nat :=
  ((size.rows % 65536 + 65535) % 65536, size.cols % 65536)

/-- The sizes, the flag and the places of the two processes. -/
structure Sizes where
  term : TermSize
  /-- SIGWINCH is pending. -/
  pending : Bool
  /-- `globe.got_sigwinch`. -/
  got_sigwinch : Bool
  /-- The size of `stdscr`. -/
  curses : TermSize
  /-- `globe.wsize`. -/
  wsize : Nat × Nat
  /-- The size of `globe.vterm`. -/
  vterm : Nat × Nat
  pty : Nat × Nat
  at_ : LoopAt
  /-- The copy of `globe.wsize` that the child has still to tell. -/
  child : Option (Nat × Nat)

/-- What can happen next. -/
inductive SizeMove where
  | resize (size : TermSize)
  | signal
  | step
  | child

/-- A process that tells the pty a size. -/
inductive Teller where
  | parent
  | child
  deriving Repr, DecidableEq

/-- The next statement of the main loop.  That `refresh` finds the size of the
    terminal and that `vterm_set_size` takes its arguments is assumed. -/
def Sizes.loopStep (s : Sizes) : Sizes × List (Teller × (Nat × Nat)) :=
  match s.at_ with
  | .rest => (if s.got_sigwinch then { s with at_ := .entered } else s, [])
  | .entered => ({ s with curses := s.term, at_ := .refreshed }, [])
  | .refreshed => ({ s with wsize := s.curses.shrunk, vterm := s.curses.shrunk, at_ := .sized }, [])
  | .sized => ({ s with pty := s.wsize, at_ := .told }, [(.parent, s.wsize)])
  | .told => ({ s with got_sigwinch := false, at_ := .rest }, [])

/-- One move. -/
def Sizes.step (s : Sizes) : SizeMove → Sizes × List (Teller × (Nat × Nat))
  | .resize size => ({ s with term := size, pending := true }, [])
  | .signal => (if s.pending then { s with pending := false, got_sigwinch := true } else s, [])
  | .step => s.loopStep
  | .child =>
      match s.child with
      | some size => ({ s with pty := size, child := none }, [(.child, size)])
      | none => (s, [])

/-- The machine; it puts out what the pty is told. -/
def sizes : Machine Sizes SizeMove (Teller × (Nat × Nat)) := ⟨Sizes.step⟩

/-- After the fork: the size has been taken once, the pty has none yet. -/
def Sizes.start (size : TermSize) : Sizes where
  term := size
  pending := false
  got_sigwinch := false
  curses := size
  wsize := size.shrunk
  vterm := size.shrunk
  pty := (0, 0)
  at_ := .rest
  child := some size.shrunk

/-- No signal is under way and the main loop is not resizing. -/
def Sizes.Quiet (s : Sizes) : Prop :=
  s.pending = false ∧ s.got_sigwinch = false ∧ s.at_ = .rest

/-! ## §2. A resize that is lost. -/

/-- The flag is cleared though the terminal is not as `refresh` has found it,
    and no signal is left to tell. -/
def Sizes.Forgets (s : Sizes) : SizeMove → Prop
  | .step => s.at_ = .told ∧ s.pending = false ∧ s.curses ≠ s.term
  | _ => False

/-- The last resize of a run has been forgotten. -/
def Lost (size : TermSize) (ms : List SizeMove) : Prop :=
  ∃ earlier m later, ms = earlier ++ m :: later ∧ (sizes.after (.start size) earlier).Forgets m ∧
    ∀ size', .resize size' ∉ later

/-- What is true of the flag, the window and `globe.wsize` in every state. -/
structure Sizes.Sound (s : Sizes) : Prop where
  busy : s.at_ ≠ .rest → s.got_sigwinch = true
  same : s.vterm = s.wsize
  taken : s.at_ ≠ .refreshed → s.wsize = s.curses.shrunk

theorem step_sound (s : Sizes) (m : SizeMove) (h : s.Sound) : (s.step m).1.Sound := by
  obtain ⟨hbusy, hsame, htaken⟩ := h
  cases m with
  | resize size => exact ⟨hbusy, hsame, htaken⟩
  | signal =>
      simp only [Sizes.step]
      split
      · exact ⟨fun _ => rfl, hsame, htaken⟩
      · exact ⟨hbusy, hsame, htaken⟩
  | child =>
      simp only [Sizes.step]
      split <;> exact ⟨hbusy, hsame, htaken⟩
  | step =>
      simp only [Sizes.step, Sizes.loopStep]
      cases hat : s.at_ with
      | rest =>
          by_cases hflag : s.got_sigwinch = true
          · simp only [if_pos hflag]
            exact ⟨fun _ => hflag, hsame, fun _ => htaken (by rw [hat]; decide)⟩
          · simp only [if_neg hflag]
            exact ⟨hbusy, hsame, htaken⟩
      | entered => exact ⟨fun _ => hbusy (by rw [hat]; decide), hsame, fun h => absurd rfl h⟩
      | refreshed => exact ⟨fun _ => hbusy (by rw [hat]; decide), rfl, fun _ => rfl⟩
      | sized =>
          exact ⟨fun _ => hbusy (by rw [hat]; decide), hsame,
            fun _ => htaken (by rw [hat]; decide)⟩
      | told => exact ⟨fun h => absurd rfl h, hsame, fun _ => htaken (by rw [hat]; decide)⟩

/-- Nothing is under way, and nobody will look: the window has not the size of
    the terminal. -/
def Sizes.Stale (s : Sizes) : Prop := s.Quiet ∧ s.curses ≠ s.term

/-- Without another resize it stays so. -/
theorem step_stale {s : Sizes} {m : SizeMove} (h : s.Stale) (hm : ∀ size, m ≠ .resize size) :
    (s.step m).1.Stale := by
  obtain ⟨⟨hpending, hflag, hat⟩, hsize⟩ := h
  cases m with
  | resize size => exact absurd rfl (hm size)
  | signal =>
      have hstep : s.step .signal = (s, []) := by
        simp only [Sizes.step, hpending, Bool.false_eq_true, if_false]
      rw [hstep]
      exact ⟨⟨hpending, hflag, hat⟩, hsize⟩
  | child =>
      simp only [Sizes.step]
      split <;> exact ⟨⟨hpending, hflag, hat⟩, hsize⟩
  | step =>
      have hstep : s.step .step = (s, []) := by
        simp only [Sizes.step, Sizes.loopStep, hat, hflag, Bool.false_eq_true, if_false]
      rw [hstep]
      exact ⟨⟨hpending, hflag, hat⟩, hsize⟩

/-- A clearing that forgets leaves it so. -/
theorem forgets_stale {s : Sizes} {m : SizeMove} (h : s.Forgets m) : (s.step m).1.Stale := by
  cases m with
  | resize size => exact absurd h id
  | signal => exact absurd h id
  | child => exact absurd h id
  | step =>
      obtain ⟨hat, hpending, hsize⟩ := h
      simp only [Sizes.step, Sizes.loopStep, hat]
      exact ⟨⟨hpending, rfl, rfl⟩, hsize⟩

/-- Where the window is behind the terminal, the signal is pending, or the flag
    is set. -/
theorem step_behind {s : Sizes} {m : SizeMove} (hno : ¬ s.Forgets m)
    (h : s.curses ≠ s.term → s.pending = true ∨ s.got_sigwinch = true)
    (hbehind : (s.step m).1.curses ≠ (s.step m).1.term) :
    (s.step m).1.pending = true ∨ (s.step m).1.got_sigwinch = true := by
  cases m with
  | resize size => exact .inl rfl
  | signal =>
      simp only [Sizes.step] at hbehind ⊢
      split
      · exact .inr rfl
      · rename_i hp
        rw [if_neg hp] at hbehind
        exact h hbehind
  | child =>
      simp only [Sizes.step] at hbehind ⊢
      cases hc : s.child <;> simp only [hc] at hbehind ⊢ <;> exact h hbehind
  | step =>
      simp only [Sizes.step, Sizes.loopStep] at hbehind ⊢
      cases hat : s.at_ with
      | rest =>
          simp only [hat] at hbehind ⊢
          by_cases hflag : s.got_sigwinch = true
          · simp only [if_pos hflag]
            exact .inr hflag
          · simp only [if_neg hflag] at hbehind ⊢
            exact h hbehind
      | entered =>
          simp only [hat] at hbehind
          exact absurd rfl hbehind
      | refreshed => simp only [hat] at hbehind ⊢; exact h hbehind
      | sized => simp only [hat] at hbehind ⊢; exact h hbehind
      | told =>
          simp only [hat] at hbehind ⊢
          -- the clearing does not forget: a signal is still to come
          refine .inl (by_contra fun hp => hno ⟨hat, Bool.eq_false_iff.mpr hp, hbehind⟩)

section Runs

variable {size : TermSize} {ms : List SizeMove} {m : SizeMove}

theorem after_snoc : sizes.after (.start size) (ms ++ [m])
    = ((sizes.after (.start size) ms).step m).1 := by
  rw [Machine.after_append]
  rfl

/-- A run is lost by its last move, or was lost before it. -/
theorem lost_snoc : Lost size (ms ++ [m]) ↔
    (sizes.after (.start size) ms).Forgets m ∨ Lost size ms ∧ ∀ size', m ≠ .resize size' := by
  constructor
  · rintro ⟨earlier, m', later, hms, hforgets, hlater⟩
    rcases List.eq_nil_or_concat later with rfl | ⟨later, last, rfl⟩
    · obtain ⟨rfl, hm⟩ := List.append_inj' hms rfl
      cases hm
      exact .inl hforgets
    · rw [List.concat_eq_append, ← List.cons_append, ← List.append_assoc] at hms
      obtain ⟨rfl, hm⟩ := List.append_inj' hms rfl
      cases hm
      refine .inr ⟨⟨earlier, m', later, rfl, hforgets, fun size' hmem => ?_⟩, ?_⟩
      · exact hlater size' (by rw [List.concat_eq_append]; exact List.mem_append_left _ hmem)
      · rintro size' rfl
        exact hlater size' (by simp)
  · rintro (hforgets | ⟨⟨earlier, m', later, rfl, hforgets, hlater⟩, hm⟩)
    · exact ⟨ms, m, [], rfl, hforgets, fun _ => List.not_mem_nil⟩
    · refine ⟨earlier, m', later ++ [m], by simp, hforgets, fun size' hmem => ?_⟩
      rcases List.mem_append.mp hmem with hmem | hmem
      · exact hlater size' hmem
      · exact hm size' (List.mem_singleton.mp hmem).symm

/-- **Run lemma.**  A run that is lost is stale; in any other the window is
    behind the terminal only while a signal or the flag tells so. -/
theorem after_tracked : ∀ ms : List SizeMove,
    (sizes.after (.start size) ms).Sound ∧
      (Lost size ms → (sizes.after (.start size) ms).Stale) ∧
      (¬ Lost size ms →
        (sizes.after (.start size) ms).curses ≠ (sizes.after (.start size) ms).term →
          (sizes.after (.start size) ms).pending = true ∨
            (sizes.after (.start size) ms).got_sigwinch = true) := by
  intro ms
  induction ms using List.reverseRecOn with
  | nil =>
      refine ⟨⟨fun h => absurd rfl h, rfl, fun _ => rfl⟩, ?_, fun _ h => absurd rfl h⟩
      rintro ⟨earlier, m, later, hms, -⟩
      exact absurd hms.symm (List.append_ne_nil_of_right_ne_nil _ (List.cons_ne_nil _ _))
  | append_singleton ms m ih =>
      obtain ⟨hsound, hlost, hkept⟩ := ih
      rw [after_snoc, lost_snoc]
      refine ⟨step_sound _ m hsound, ?_, fun hno => ?_⟩
      · rintro (hforgets | ⟨hbefore, hm⟩)
        · exact forgets_stale hforgets
        · exact step_stale (hlost hbefore) hm
      · by_cases hbefore : Lost size ms
        · -- another resize has come
          obtain ⟨size', rfl⟩ : ∃ size', m = .resize size' :=
            by_contra fun hm => hno (.inr ⟨hbefore, fun size' h => hm ⟨size', h⟩⟩)
          exact fun _ => .inl rfl
        · exact step_behind (fun h => hno (.inl h)) (hkept hbefore)

end Runs

/-- The fields of `wsize` are wide enough to tell two sizes apart. -/
theorem shrunk_inj {a b : TermSize} : a.shrunk = b.shrunk ↔ a = b := by
  constructor
  · intro h
    obtain ⟨rows, cols, hrows, hcols⟩ := a
    obtain ⟨rows', cols', hrows', hcols'⟩ := b
    obtain ⟨h1, h2⟩ := Prod.mk.inj h
    simp only at h1 h2
    obtain rfl : rows = rows' := by omega
    obtain rfl : cols = cols' := by omega
    rfl
  · rintro rfl
    rfl

/-- **WHEN A RESIZE IS LOST.**  For every order of resizes, signals and steps of
the two processes: whenever the main loop is at rest and no signal is under
way, the terminal library has the size of the terminal (one row less) if and
only if the last resize has not been forgotten, that is, the flag has not been
cleared for a resize that came after `refresh` had looked. -/
theorem resize_lost_iff (size : TermSize) (ms : List SizeMove)
    (hquiet : (sizes.after (.start size) ms).Quiet) :
    (sizes.after (.start size) ms).vterm = (sizes.after (.start size) ms).term.shrunk ↔
      ¬ Lost size ms := by
  obtain ⟨hsound, hlost, hkept⟩ := @after_tracked size ms
  obtain ⟨hpending, hflag, hat⟩ := hquiet
  have hvterm : (sizes.after (.start size) ms).vterm
      = (sizes.after (.start size) ms).curses.shrunk :=
    hsound.same.trans (hsound.taken (by rw [hat]; decide))
  rw [hvterm, shrunk_inj]
  constructor
  · exact fun hsame hl => (hlost hl).2 hsame
  · intro hno
    refine by_contra fun hsize => ?_
    rcases hkept hno hsize with h | h
    · rw [hpending] at h
      cases h
    · rw [hflag] at h
      cases h

/-! ## §3. What the pty is told. -/

/-- What the pty has been told, the state after it. -/
structure Told (size : TermSize) (past : List (Teller × (Nat × Nat))) (s : Sizes) : Prop where
  sound : s.Sound
  pty : s.pty = (past.getLast?.map Prod.snd).getD (0, 0)
  mine : s.at_ ≠ .sized → ∀ sz, past.getLast? = some (.parent, sz) → sz = s.wsize
  theirs : ∀ sz, past.getLast? = some (.child, sz) → sz = size.shrunk
  waits : ∀ sz, s.child = some sz → sz = size.shrunk
  spoke : s.child = none → past ≠ []

/-- A move that tells nothing. -/
theorem Told.silent {size : TermSize} {past : List (Teller × (Nat × Nat))} {s s' : Sizes}
    (h : Told size past s) (hsound : s'.Sound) (hpty : s'.pty = s.pty) (hchild : s'.child = s.child)
    (hwsize : s'.at_ ≠ .sized → s.at_ ≠ .sized ∧ s'.wsize = s.wsize) : Told size (past ++ []) s' := by
  rw [List.append_nil]
  refine ⟨hsound, hpty.trans h.pty, fun hat sz hlast => ?_, h.theirs, ?_, ?_⟩
  · obtain ⟨hat', hsame⟩ := hwsize hat
    exact (h.mine hat' sz hlast).trans hsame.symm
  · rw [hchild]
    exact h.waits
  · rw [hchild]
    exact h.spoke

theorem step_told {size : TermSize} {past : List (Teller × (Nat × Nat))} {s : Sizes} {m : SizeMove}
    (h : Told size past s) : Told size (past ++ (s.step m).2) (s.step m).1 := by
  have hsound := step_sound s m h.sound
  cases m with
  | resize size' => exact h.silent hsound rfl rfl fun hat => ⟨hat, rfl⟩
  | signal =>
      simp only [Sizes.step] at hsound ⊢
      split at hsound <;> rename_i hp
      · rw [if_pos hp]
        exact h.silent hsound rfl rfl fun hat => ⟨hat, rfl⟩
      · rw [if_neg hp]
        exact h.silent hsound rfl rfl fun hat => ⟨hat, rfl⟩
  | child =>
      cases hc : s.child with
      | none =>
          simp only [Sizes.step, hc] at hsound ⊢
          exact h.silent hsound rfl rfl fun hat => ⟨hat, rfl⟩
      | some sz =>
          simp only [Sizes.step, hc] at hsound ⊢
          refine ⟨hsound, ?_, fun _ sz' hlast => ?_, fun sz' hlast => ?_, fun sz' hw => ?_,
            fun _ => List.append_ne_nil_of_right_ne_nil _ (List.cons_ne_nil _ _)⟩
          · rw [List.getLast?_concat]
            rfl
          · rw [List.getLast?_concat] at hlast
            cases hlast
          · rw [List.getLast?_concat] at hlast
            cases hlast
            exact h.waits sz hc
          · cases hw
  | step =>
      simp only [Sizes.step, Sizes.loopStep] at hsound ⊢
      cases hat : s.at_ with
      | rest =>
          simp only [hat] at hsound ⊢
          have hrest : s.at_ ≠ .sized := by rw [hat]; decide
          split at hsound <;> rename_i hflag
          · rw [if_pos hflag]
            exact h.silent hsound rfl rfl fun _ => ⟨hrest, rfl⟩
          · rw [if_neg hflag]
            exact h.silent hsound rfl rfl fun _ => ⟨hrest, rfl⟩
      | entered =>
          simp only [hat] at hsound ⊢
          exact h.silent hsound rfl rfl fun _ => ⟨by rw [hat]; decide, rfl⟩
      | refreshed =>
          simp only [hat] at hsound ⊢
          exact h.silent hsound rfl rfl fun hno => absurd rfl hno
      | told =>
          simp only [hat] at hsound ⊢
          exact h.silent hsound rfl rfl fun _ => ⟨by rw [hat]; decide, rfl⟩
      | sized =>
          simp only [hat] at hsound ⊢
          refine ⟨hsound, ?_, fun _ sz' hlast => ?_, fun sz' hlast => ?_, h.waits,
            fun _ => List.append_ne_nil_of_right_ne_nil _ (List.cons_ne_nil _ _)⟩
          · rw [List.getLast?_concat]
            rfl
          · rw [List.getLast?_concat] at hlast
            cases hlast
            rfl
          · rw [List.getLast?_concat] at hlast
            cases hlast

/-- **Run lemma.** -/
theorem after_told (size : TermSize) (ms : List SizeMove) :
    Told size (sizes.out (.start size) ms) (sizes.after (.start size) ms) := by
  have hstart : Told size [] (.start size) := by
    refine ⟨⟨fun h => absurd rfl h, rfl, fun _ => rfl⟩, rfl, ?_, ?_, ?_, ?_⟩
    · rintro - sz ⟨⟩
    · rintro sz ⟨⟩
    · exact fun sz h => (Option.some.inj h).symm
    · rintro ⟨⟩
  have halong : sizes.Along (fun _ _ => True) (.start size) ms :=
    Machine.along_of_forall fun _ _ => trivial
  exact Machine.history (Told size) (fun past s m hs _ => step_told hs) hstart halong

/-- **WHOSE SIZE THE PTY HAS.**  For every order of resizes, signals and steps of
the two processes: whenever the main loop is at rest, no signal is under way
and the child has told its size, the pty has the size of the terminal library
if and only if the child has not spoken last, or the size is still the one the
child was forked with. -/
theorem pty_size_iff (size : TermSize) (ms : List SizeMove)
    (hquiet : (sizes.after (.start size) ms).Quiet)
    (hchild : (sizes.after (.start size) ms).child = none) :
    (sizes.after (.start size) ms).pty = (sizes.after (.start size) ms).vterm ↔
      (∀ sz, (sizes.out (.start size) ms).getLast? ≠ some (.child, sz)) ∨
        (sizes.after (.start size) ms).vterm = size.shrunk := by
  obtain ⟨hsound, hpty, hmine, htheirs, -, hspoke⟩ := after_told size ms
  obtain ⟨-, -, hat⟩ := hquiet
  obtain ⟨⟨who, sz⟩, hlast⟩ : ∃ o, (sizes.out (.start size) ms).getLast? = some o :=
    ⟨_, List.getLast?_eq_some_getLast (hspoke hchild)⟩
  rw [hlast] at hpty
  have hpty : (sizes.after (.start size) ms).pty = sz := hpty
  cases who with
  | parent =>
      have hsz : sz = (sizes.after (.start size) ms).vterm :=
        (hmine (by rw [hat]; decide) sz hlast).trans hsound.same.symm
      refine ⟨fun _ => .inl fun sz' h => ?_, fun _ => hpty.trans hsz⟩
      rw [hlast] at h
      cases h
  | child =>
      rw [hpty, htheirs sz hlast]
      exact ⟨fun h => .inr h.symm, fun h => (h.resolve_left fun hno => hno sz hlast).symm⟩

/-! ### A resize in the middle of a resize. -/

def smallTerm : TermSize := ⟨24, 80, by decide, by decide⟩

def wideTerm : TermSize := ⟨24, 132, by decide, by decide⟩

def tallTerm : TermSize := ⟨50, 132, by decide, by decide⟩

/-- The second resize comes after `refresh` has looked. -/
def twoResizes : List SizeMove :=
  [.child, .resize wideTerm, .signal, .step, .step, .resize tallTerm, .signal, .step, .step, .step]

theorem twoResizes_lost : Lost smallTerm twoResizes := by
  have hquiet : (sizes.after (.start smallTerm) twoResizes).Quiet := ⟨rfl, rfl, rfl⟩
  by_contra hno
  have hsame := (resize_lost_iff smallTerm twoResizes hquiet).mpr hno
  exact absurd hsame (by decide)

theorem twoResizes_pty :
    (sizes.after (.start smallTerm) twoResizes).pty
      = (sizes.after (.start smallTerm) twoResizes).vterm :=
  (pty_size_iff smallTerm twoResizes ⟨rfl, rfl, rfl⟩ rfl).mpr
    (.inl fun sz h => by cases h)

end Prom.Shell
