/-
  Prom.Shell.Input — the keyboard side of src/shell/shell.c.

  `handle_input` first moves what was typed into the virtual terminal, which
  turns it into bytes in its output buffer, and then moves the buffer to the
  master side of the pty.  `getch` returns a character, KEY_RESIZE when the
  window has changed, or ERR when nothing is pending (the screen is in
  non-blocking mode, and keypad mode, in which other keys have codes of their
  own, is switched off).

  The virtual terminal is libvterm, which is not part of the repository: it
  is a parameter, and all that is known of it is that its output buffer is a
  queue of bytes.  What `write` will answer is a parameter too.

  The state remembers what no variable of the program does: the results of
  `getch`, the events passed to the terminal, the contents of the output
  buffer each time it was about to be drained, and what was passed to `write`.

  Main results:
    * `handleArrows_took`, `inputPass_took` — what one pass takes and what it
      passes on.
    * `inputLoop_took` — the first loop ends, after whole passes.
    * `drainLoop_sameKeys` — the second loop leaves the keyboard alone.
    * `calls_handled` — what any calls take and pass on.
-/
import Prom.C.Cell
import Prom.C.Exec

namespace Prom.Shell

open Prom.C Exec

/-! ## §1. The terminal and the system. -/

/-- A result of `getch()`. -/
inductive Getch where
  | char (c : Byte)
  | resize
  | err
  deriving Repr, DecidableEq

/-- `KEY_RESIZE`. -/
def KEY_RESIZE : Int := 0o632
/-- `ERR`. -/
def ERR : Int := -1
/-- `033`. -/
def ESC : Byte := 0o33

/-- The `int` that `getch()` returns. -/
def Getch.code : Getch → Int
  | .char c => c.toNat
  | .resize => KEY_RESIZE
  | .err => ERR

/-- The keys of `VTermKey` that the shell uses. -/
inductive VTermKey where
  | VTERM_KEY_UP
  | VTERM_KEY_DOWN
  | VTERM_KEY_LEFT
  | VTERM_KEY_RIGHT
  deriving Repr, DecidableEq

/-- A call of `vterm_keyboard_unichar` or `vterm_keyboard_key`, without
    modifiers. -/
inductive Event where
  | unichar (c : BitVec 32)
  | key (k : VTermKey)
  deriving Repr, DecidableEq

/-- libvterm, with terminals of type `V`. -/
structure Libvterm (V : Type) where
  /-- The bytes in the output buffer, first one first. -/
  outputBuffer : V → List Byte
  /-- `vterm_output_get_buffer_remaining`. -/
  outputGetBufferRemaining : V → Nat
  /-- The terminal after `vterm_output_read` of at most `n` bytes. -/
  outputRead : V → (n : Nat) → V
  /-- The bytes that are read are removed. -/
  outputBuffer_outputRead : ∀ v n, outputBuffer (outputRead v n) = (outputBuffer v).drop n
  /-- `vterm_keyboard_unichar`, `vterm_keyboard_key`. -/
  keyboard : V → Event → V

/-- What `write` does: it takes at most this many bytes, or fails with
    `EAGAIN`. -/
inductive WriteAnswer where
  | accepts (n : Nat)
  | again
  deriving Repr, DecidableEq

/-- The bytes of a chunk that `write` takes. -/
def WriteAnswer.takes : WriteAnswer → List Byte → List Byte
  | .accepts n, chunk => chunk.take n
  | .again, _ => []

/-- The state of the shell, with the log. -/
structure State (V : Type) where
  /-- `globe.vterm`. -/
  vterm : V
  /-- What `getch` will return before it finds nothing pending. -/
  pending : List Getch
  /-- The results of `getch` so far. -/
  taken : List Getch
  /-- The events passed to the terminal. -/
  forwarded : List Event
  /-- The contents of the output buffer at each start of the drain loop. -/
  found : List (List Byte)
  /-- The chunks passed to `write`, with its answers. -/
  sent : List (List Byte × WriteAnswer)

/-- Before anything is typed. -/
def State.start {V : Type} (v : V) (pending : List Getch) : State V := ⟨v, pending, [], [], [], []⟩

/-- The bytes that have reached `fd_master`. -/
def State.written {V : Type} (s : State V) : List Byte := s.sent.flatMap fun e => e.2.takes e.1

/-- The bytes of a character in UTF-8. -/
def fillUtf8 (c : BitVec 32) : List Byte :=
  let n := if c < 0x80 then 1 else if c < 0x800 then 2 else if c < 0x10000 then 3
    else if c < 0x200000 then 4 else if c < 0x4000000 then 5 else 6
  let mark : Nat := [0x00, 0xC0, 0xE0, 0xF0, 0xF8, 0xFC].getD (n - 1) 0
  let tail := (List.range (n - 1)).reverse.map fun k => 0x80 + c.toNat / 64 ^ k % 64
  ((mark + c.toNat / 64 ^ (n - 1) % (if n = 1 then 128 else 2 ^ (7 - n))) :: tail).map (BitVec.ofNat 8)

/-- The last character of an arrow key. -/
def VTermKey.letter : VTermKey → Byte
  | .VTERM_KEY_UP => 0x41
  | .VTERM_KEY_DOWN => 0x42
  | .VTERM_KEY_RIGHT => 0x43
  | .VTERM_KEY_LEFT => 0x44

/-- A terminal that is no more than an output buffer of `size` bytes, which
    drops what does not fit. -/
def queue (size : Nat) : Libvterm (List Byte) where
  outputBuffer := id
  outputGetBufferRemaining buf := size - buf.length
  outputRead buf n := buf.drop n
  outputBuffer_outputRead _ _ := rfl
  keyboard buf e :=
    let bytes := match e with
      | .unichar c => fillUtf8 c
      | .key k => [ESC, 0x5B, k.letter]
    if buf.length + bytes.length ≤ size then buf ++ bytes else buf

section Model

variable {V : Type}

/-! ## §2. The source: shell.c. -/

/-- `minimum(a, b)`. -/
def minimum (a b : Nat) : Nat := if a > b then a else b

/-- `sizeof(buf)`. -/
def bufSize : Nat := 8192

/-- The next result of `getch`: nothing is pending, or the first result that
    is. -/
def State.next (s : State V) : Getch := s.pending.headD .err

/-- `getch()`. -/
def getch : Exec (State V) Int := fun s =>
  .ok s.next.code { s with pending := s.pending.tail, taken := s.taken ++ [s.next] }

/-- An event for `globe.vterm`. -/
def passOn (lib : Libvterm V) (e : Event) : Exec (State V) Unit := modify fun s =>
  { s with vterm := lib.keyboard s.vterm e, forwarded := s.forwarded ++ [e] }

/-- `vterm_keyboard_unichar(globe.vterm, (uint32_t)c, VTERM_MOD_NONE)`. -/
def unichar (lib : Libvterm V) (c : Int) : Exec (State V) Unit :=
  passOn lib (.unichar (BitVec.ofInt 32 c))

/-- The loop at the end of `handle_arrows`. -/
def unichars (lib : Libvterm V) : List Int → Exec (State V) Unit
  | [] => pure ()
  | c :: chars => do
    unichar lib c
    unichars lib chars

/-- The `switch` of `handle_arrows`. -/
def arrow? (c : Int) : Option VTermKey :=
  if c = 'A'.toNat then some .VTERM_KEY_UP
  else if c = 'B'.toNat then some .VTERM_KEY_DOWN
  else if c = 'C'.toNat then some .VTERM_KEY_RIGHT
  else if c = 'D'.toNat then some .VTERM_KEY_LEFT
  else none

/-- `handle_arrows()`. -/
def handleArrows (lib : Libvterm V) : Exec (State V) Unit := do
  -- neither result is compared with `ERR` or `KEY_RESIZE`
  let c₁ ← getch
  if c₁ = '['.toNat then do
    let c₂ ← getch
    match arrow? c₂ with
    | some k => passOn lib (.key k)
    | none => unichars lib [ESC.toNat, c₁, c₂]
  else unichars lib [ESC.toNat, c₁]

/-- `while (ch == KEY_RESIZE) ch = getch();`; every pass but the first takes a
    pending result or is the last one. -/
def skipResizes (ch : Int) : Exec (State V) Int := fun s =>
  loop (s.pending.length + 2)
    (fun ch => if ch = KEY_RESIZE then do return .inl (← getch) else pure (.inr ch)) ch s

/-- One pass of the first loop of `handle_input`. -/
def inputPass (lib : Libvterm V) (_ : Unit) : Exec (State V) (Unit ⊕ Unit) := do
  if lib.outputGetBufferRemaining (← get).vterm > 0 then do
    let ch ← getch
    let ch ← skipResizes ch
    if ch = ERR then pure (.inr ())
    -- nothing is done about '\r'
    else if ch = ESC.toNat then do
      handleArrows lib
      pure (.inl ())
    else do
      unichar lib ch
      pure (.inl ())
  else pure (.inr ())

/-- The first loop of `handle_input`; every pass takes a pending result or is
    the last one. -/
def inputLoop (lib : Libvterm V) : Exec (State V) Unit := fun s =>
  loop (s.pending.length + 1) (inputPass lib) () s

/-- `write(globe.fd_master, buf, buflen)`; the answer is not looked at. -/
def write (answers : Nat → WriteAnswer) (chunk : List Byte) : Exec (State V) Unit := modify fun s =>
  { s with sent := s.sent ++ [(chunk, answers s.sent.length)] }

/-- `vterm_output_read(globe.vterm, buf, n)`. -/
def vtermOutputRead (lib : Libvterm V) (n : Nat) : Exec (State V) (List Byte) := fun s =>
  if ((lib.outputBuffer s.vterm).take n).length ≤ bufSize then
    .ok ((lib.outputBuffer s.vterm).take n) { s with vterm := lib.outputRead s.vterm n }
  -- written behind the end of `buf`
  else .stop .undefined s

/-- One pass of the second loop of `handle_input`. -/
def drainPass (lib : Libvterm V) (answers : Nat → WriteAnswer) (_ : Unit) :
    Exec (State V) (Unit ⊕ Unit) := do
  let buflen := (lib.outputBuffer (← get).vterm).length
  if buflen > 0 then do
    -- the bytes are gone from the terminal before they are written
    let chunk ← vtermOutputRead lib (minimum buflen bufSize)
    write answers chunk
    pure (.inl ())
  else pure (.inr ())

/-- The second loop of `handle_input`; every pass but the last reads a byte. -/
def drainLoop (lib : Libvterm V) (answers : Nat → WriteAnswer) : Exec (State V) Unit := fun s =>
  loop ((lib.outputBuffer s.vterm).length + 1) (drainPass lib answers) () s

/-- `handle_input()`. -/
def handleInput (lib : Libvterm V) (answers : Nat → WriteAnswer) : Exec (State V) Int := do
  inputLoop lib
  modify fun s => { s with found := s.found ++ [lib.outputBuffer s.vterm] }
  drainLoop lib answers
  pure 0

/-- Calls of `handle_input`, before each of which the rest of the program
    changes the terminal in some way. -/
def calls (lib : Libvterm V) (answers : Nat → WriteAnswer) : List (V → V) → Exec (State V) Unit
  | [] => pure ()
  | change :: rest => do
    modify fun s => { s with vterm := change s.vterm }
    let _ ← handleInput lib answers
    calls lib answers rest

/-! ## §3. What is taken and what is passed on. -/

/-- The results `rs` have been taken and the events `evs` passed on. -/
structure Took (rs : List Getch) (evs : List Event) (s s' : State V) : Prop where
  taken : s'.taken = s.taken ++ rs
  forwarded : s'.forwarded = s.forwarded ++ evs
  pending : s'.pending = s.pending.drop rs.length
  found : s'.found = s.found
  sent : s'.sent = s.sent

theorem Took.nil (s : State V) : Took [] [] s s :=
  ⟨(List.append_nil _).symm, (List.append_nil _).symm, rfl, rfl, rfl⟩

theorem Took.trans {rs rs' : List Getch} {evs evs' : List Event} {s s' s'' : State V}
    (h : Took rs evs s s') (h' : Took rs' evs' s' s'') : Took (rs ++ rs') (evs ++ evs') s s'' := by
  refine ⟨?_, ?_, ?_, h'.found.trans h.found, h'.sent.trans h.sent⟩
  · rw [h'.taken, h.taken, List.append_assoc]
  · rw [h'.forwarded, h.forwarded, List.append_assoc]
  · rw [h'.pending, h.pending, List.drop_drop, List.length_append]

theorem getch_took (s : State V) :
    ∃ s', getch s = .ok s.next.code s' ∧ Took [s.next] [] s s' :=
  ⟨_, rfl, rfl, (List.append_nil _).symm, List.drop_one.symm, rfl, rfl⟩

theorem passOn_took (lib : Libvterm V) (e : Event) (s : State V) :
    ∃ s', passOn lib e s = .ok () s' ∧ Took [] [e] s s' :=
  ⟨_, rfl, (List.append_nil _).symm, rfl, rfl, rfl, rfl⟩

theorem unichars_took (lib : Libvterm V) (chars : List Int) (s : State V) :
    ∃ s', unichars lib chars s = .ok () s' ∧
      Took [] (chars.map fun c => .unichar (BitVec.ofInt 32 c)) s s' := by
  induction chars generalizing s with
  | nil => exact ⟨s, rfl, .nil s⟩
  | cons c chars ih =>
    obtain ⟨s₁, hone, htook⟩ := passOn_took lib (.unichar (BitVec.ofInt 32 c)) s
    obtain ⟨s₂, hrest, htook'⟩ := ih s₁
    exact ⟨s₂, (bind_ok hone _).trans hrest, htook.trans htook'⟩

/-- What `handle_arrows` takes after an ESC, and what it passes on. -/
inductive Sequence : List Getch → List Event → Prop
  | lone (r : Getch) (hr : r.code ≠ '['.toNat) :
      Sequence [r] ([(ESC.toNat : Int), r.code].map fun c => .unichar (BitVec.ofInt 32 c))
  | arrow (r r' : Getch) (hr : r.code = '['.toNat) (k : VTermKey) (hk : arrow? r'.code = some k) :
      Sequence [r, r'] [.key k]
  | other (r r' : Getch) (hr : r.code = '['.toNat) (hk : arrow? r'.code = none) :
      Sequence [r, r'] ([(ESC.toNat : Int), r.code, r'.code].map fun c => .unichar (BitVec.ofInt 32 c))

theorem handleArrows_took (lib : Libvterm V) (s : State V) :
    ∃ rs evs s', handleArrows lib s = .ok () s' ∧ Took rs evs s s' ∧ Sequence rs evs := by
  obtain ⟨s₁, hfirst, htook₁⟩ := getch_took s
  by_cases hbracket : s.next.code = '['.toNat
  · obtain ⟨s₂, hsecond, htook₂⟩ := getch_took s₁
    have htook := htook₁.trans htook₂
    cases harrow : arrow? s₁.next.code with
    | some k =>
      obtain ⟨s₃, hkey, htook₃⟩ := passOn_took lib (.key k) s₂
      refine ⟨_, _, s₃, ?_, htook.trans htook₃, .arrow s.next s₁.next hbracket k harrow⟩
      rw [handleArrows, bind_ok hfirst, if_pos hbracket, bind_ok hsecond, harrow]
      exact hkey
    | none =>
      obtain ⟨s₃, hchars, htook₃⟩ := unichars_took lib [ESC.toNat, s.next.code, s₁.next.code] s₂
      refine ⟨_, _, s₃, ?_, htook.trans htook₃, .other s.next s₁.next hbracket harrow⟩
      rw [handleArrows, bind_ok hfirst, if_pos hbracket, bind_ok hsecond, harrow]
      exact hchars
  · obtain ⟨s₂, hchars, htook₂⟩ := unichars_took lib [ESC.toNat, s.next.code] s₁
    refine ⟨_, _, s₂, ?_, htook₁.trans htook₂, .lone s.next hbracket⟩
    rw [handleArrows, bind_ok hfirst, if_neg hbracket, hchars]

/-- Results that are skipped, and the first one that is not. -/
def Skipped (rs : List Getch) (r : Getch) : Prop := ∃ k, rs = List.replicate k .resize ++ [r] ∧ r ≠ .resize

theorem code_resize {r : Getch} : r.code = KEY_RESIZE ↔ r = .resize := by
  cases r with
  | char c =>
    have := c.isLt
    simp only [Getch.code, KEY_RESIZE, reduceCtorEq, iff_false]
    omega
  | resize => exact ⟨fun _ => rfl, fun _ => rfl⟩
  | err => simp only [Getch.code, ERR, KEY_RESIZE, reduceCtorEq]

/-- A result other than `ERR` was pending. -/
theorem Took.shorter {s s' : State V} {rs : List Getch} {evs : List Event}
    (h : Took (s.next :: rs) evs s s') (hnext : s.next ≠ .err) : s'.pending.length < s.pending.length := by
  have hne : s.pending ≠ [] := by
    intro hnil
    rw [State.next, hnil] at hnext
    exact hnext rfl
  have hpos := List.length_pos_iff.mpr hne
  rw [h.pending, List.length_drop, List.length_cons]
  omega

theorem skipResizes_took (r : Getch) (s : State V) :
    ∃ rs r' s', skipResizes r.code s = .ok r'.code s' ∧ Took rs [] s s' ∧ Skipped (r :: rs) r' := by
  -- as long as resizes come, a pass is left for each pending result and one for `ERR`
  have hloop : Yields (skipResizes r.code) s fun ch s' =>
      ∃ rs r', ch = r'.code ∧ Took rs [] s s' ∧ Skipped (r :: rs) r' := by
    refine Yields.loop
      (I := fun n ch s' => ∃ k rs r', ch = r'.code ∧ Took rs [] s s' ∧
        r :: rs = List.replicate k .resize ++ [r'] ∧ (r' = .resize → n = s'.pending.length + 1))
      (n := s.pending.length + 1) ?_ (Nat.lt_succ_self _) ⟨0, [], r, rfl, .nil s, rfl, fun _ => rfl⟩
    rintro n ch s₁ ⟨k, rs, r', rfl, htook, hrs, hn⟩
    by_cases hr' : r' = .resize
    · subst hr'
      obtain ⟨s₂, hget, htook₂⟩ := getch_took s₁
      rw [if_pos (code_resize.mpr rfl)]
      refine Yields.step hget (.pure ⟨if s₁.next = .resize then s₂.pending.length + 1 else 0, ?_,
        k + 1, rs ++ [s₁.next], s₁.next, rfl, htook.trans htook₂, ?_, fun hresize => if_pos hresize⟩)
      · rw [hn rfl]
        split
        · rename_i hresize
          have := htook₂.shorter (by rw [hresize]; rintro ⟨⟩)
          omega
        · omega
      · rw [← List.cons_append, hrs, List.replicate_succ']
    · rw [if_neg (mt code_resize.mp hr')]
      exact .pure ⟨rs, r', rfl, htook, k, hrs, hr'⟩
  obtain ⟨ch, s', hrun, rs, r', rfl, htook, hskipped⟩ := hloop
  exact ⟨rs, r', s', hrun, htook, hskipped⟩

/-- What one pass of the first loop takes and passes on; false after the last
    pass. -/
inductive Pass : List Getch → List Event → Bool → Prop
  /-- There is no room in the output buffer. -/
  | full : Pass [] [] false
  | idle (rs : List Getch) (hrs : Skipped rs .err) : Pass rs [] false
  | typed (rs : List Getch) (c : Byte) (hrs : Skipped rs (.char c)) (hc : c ≠ ESC) :
      Pass rs [.unichar (BitVec.ofInt 32 c.toNat)] true
  | escape (rs rs' : List Getch) (evs : List Event) (hrs : Skipped rs (.char ESC))
      (hevs : Sequence rs' evs) : Pass (rs ++ rs') evs true

theorem code_err {r : Getch} : r.code = ERR ↔ r = .err := by
  cases r with
  | char c => simp only [Getch.code, ERR, reduceCtorEq]
  | resize => simp only [Getch.code, ERR, KEY_RESIZE, reduceCtorEq]
  | err => exact ⟨fun _ => rfl, fun _ => rfl⟩

theorem code_char {r : Getch} {c : Byte} : r.code = c.toNat ↔ r = .char c := by
  cases r with
  | char c' =>
    simp only [Getch.code, Getch.char.injEq, Int.natCast_inj]
    exact ⟨BitVec.eq_of_toNat_eq, fun h => congrArg _ h⟩
  | resize =>
    have := c.isLt
    simp only [Getch.code, KEY_RESIZE, reduceCtorEq, iff_false]
    omega
  | err => simp only [Getch.code, ERR, reduceCtorEq]

theorem Skipped.head_ne_err {r r' : Getch} {rs : List Getch} (h : Skipped (r :: rs) r')
    (hr' : r' ≠ .err) : r ≠ .err := by
  obtain ⟨k, hrs, -⟩ := h
  have hmem : r ∈ List.replicate k Getch.resize ++ [r'] := hrs ▸ List.mem_cons_self
  rintro rfl
  rcases List.mem_append.mp hmem with hmem | hmem
  · cases List.eq_of_mem_replicate hmem
  · exact hr' (List.mem_singleton.mp hmem).symm

theorem inputPass_took (lib : Libvterm V) (s : State V) :
    ∃ rs evs more s', inputPass lib () s = .ok (if more then .inl () else .inr ()) s' ∧
      Took rs evs s s' ∧ Pass rs evs more ∧ (more = true → s'.pending.length < s.pending.length) := by
  by_cases hroom : lib.outputGetBufferRemaining s.vterm > 0
  · obtain ⟨s₁, hget, htook₁⟩ := getch_took s
    obtain ⟨rs, r, s₂, hskip, htook₂, hskipped⟩ := skipResizes_took s.next s₁
    have htook := htook₁.trans htook₂
    have hrun : inputPass lib () s =
        (if r.code = ERR then pure (.inr ())
          else if r.code = ESC.toNat then do
            handleArrows lib
            pure (.inl ())
          else do
            unichar lib r.code
            pure (.inl ()) : Exec (State V) (Unit ⊕ Unit)) s₂ := by
      rw [inputPass, get_bind_apply, if_pos hroom, bind_ok hget, bind_ok hskip]
    -- `r` is the first result that is no resize
    cases r with
    | err => exact ⟨_, _, false, s₂, hrun, htook, .idle _ hskipped, fun h => by cases h⟩
    | resize => exact absurd rfl hskipped.choose_spec.2
    | char c =>
      have hnext : s.next ≠ .err := hskipped.head_ne_err (by rintro ⟨⟩)
      rw [if_neg (mt code_err.mp (by rintro ⟨⟩))] at hrun
      by_cases hc : c = ESC
      · subst hc
        obtain ⟨rs', evs, s₃, harrows, htook₃, hevs⟩ := handleArrows_took lib s₂
        have hall := htook.trans htook₃
        refine ⟨_, _, true, s₃, ?_, hall, .escape _ rs' evs hskipped hevs, fun _ => hall.shorter hnext⟩
        rw [hrun, if_pos (code_char.mpr rfl), bind_ok harrows]
        rfl
      · obtain ⟨s₃, hchar, htook₃⟩ := passOn_took lib (.unichar (BitVec.ofInt 32 c.toNat)) s₂
        have hall := htook.trans htook₃
        rw [List.append_nil] at hall
        refine ⟨_, _, true, s₃, ?_, hall, .typed _ c hskipped hc, fun _ => hall.shorter hnext⟩
        have hne : ¬(Getch.char c).code = ESC.toNat := fun h => hc (Getch.char.inj (code_char.mp h))
        rw [hrun, if_neg hne]
        exact bind_ok hchar _
  · refine ⟨[], [], false, s, ?_, .nil s, .full, fun h => by cases h⟩
    rw [inputPass, get_bind_apply, if_neg hroom]
    rfl

/-- What the first loop takes and passes on: pass after pass. -/
inductive Passes : List Getch → List Event → Prop
  | last (rs : List Getch) (evs : List Event) (h : Pass rs evs false) : Passes rs evs
  | next (rs rs' : List Getch) (evs evs' : List Event) (h : Pass rs evs true) (hrest : Passes rs' evs') :
      Passes (rs ++ rs') (evs ++ evs')

/-- **The first loop** ends, having taken whole passes. -/
theorem inputLoop_took (lib : Libvterm V) (s : State V) :
    ∃ rs evs s', inputLoop lib s = .ok () s' ∧ Took rs evs s s' ∧ Passes rs evs := by
  have hloop : ∀ fuel (s : State V), s.pending.length < fuel →
      ∃ rs evs s', loop fuel (inputPass lib) () s = .ok () s' ∧ Took rs evs s s' ∧ Passes rs evs := by
    intro fuel
    induction fuel with
    | zero => exact fun s h => absurd h (Nat.not_lt_zero _)
    | succ fuel ih =>
      intro s hfuel
      obtain ⟨rs, evs, more, s₁, hrun, htook, hpass, hshorter⟩ := inputPass_took lib s
      cases more with
      | false => exact ⟨rs, evs, s₁, loop_exit hrun, htook, .last rs evs hpass⟩
      | true =>
        have := hshorter rfl
        obtain ⟨rs', evs', s₂, hrest, htook', hpasses⟩ := ih s₁ (by omega)
        exact ⟨_, _, s₂, (loop_next hrun).trans hrest, htook.trans htook', .next _ _ _ _ hpass hpasses⟩
  exact hloop _ s (Nat.lt_succ_self _)

/-! ## §4. Whole calls. -/

/-- The keyboard has been left alone. -/
def SameKeys (s s' : State V) : Prop :=
  s'.pending = s.pending ∧ s'.taken = s.taken ∧ s'.forwarded = s.forwarded ∧ s'.found = s.found

theorem SameKeys.refl (s : State V) : SameKeys s s := ⟨rfl, rfl, rfl, rfl⟩

theorem SameKeys.trans (s s' s'' : State V) (h : SameKeys s s') (h' : SameKeys s' s'') :
    SameKeys s s'' :=
  ⟨h'.1.trans h.1, h'.2.1.trans h.2.1, h'.2.2.1.trans h.2.2.1, h'.2.2.2.trans h.2.2.2⟩

theorem drainPass_sameKeys (lib : Libvterm V) (answers : Nat → WriteAnswer) (u : Unit) :
    Within SameKeys (drainPass lib answers u) := by
  have hread : ∀ n, Within SameKeys (vtermOutputRead lib n) := by
    intro n s
    unfold vtermOutputRead
    split <;> exact .refl s
  intro s
  unfold drainPass
  rw [get_bind_apply]
  by_cases hfull : (lib.outputBuffer s.vterm).length > 0
  · simp only [hfull, if_true]
    refine Within.bind SameKeys.trans (hread _) (fun chunk => ?_) s
    exact fun s => .refl s
  · simp only [hfull, if_false]
    exact .refl s

/-- Draining leaves the keyboard alone, however it ends. -/
theorem drainLoop_sameKeys (lib : Libvterm V) (answers : Nat → WriteAnswer) :
    Within SameKeys (drainLoop lib answers) :=
  fun s => Within.loop SameKeys.refl SameKeys.trans (drainPass_sameKeys lib answers) _ () s

/-- What whole calls take and pass on. -/
inductive Handled : List Getch → List Event → Prop
  | nil : Handled [] []
  | cons (rs rs' : List Getch) (evs evs' : List Event) (h : Passes rs evs) (hrest : Handled rs' evs') :
      Handled (rs ++ rs') (evs ++ evs')

/-- A call of `handle_input`, up to the drain loop. -/
theorem handleInput_eq (lib : Libvterm V) (answers : Nat → WriteAnswer) (s : State V) :
    ∃ rs evs s₁, Took rs evs s s₁ ∧ Passes rs evs ∧
      handleInput lib answers s = (do
        drainLoop lib answers
        pure 0) { s₁ with found := s₁.found ++ [lib.outputBuffer s₁.vterm] } := by
  obtain ⟨rs, evs, s₁, hrun, htook, hpasses⟩ := inputLoop_took lib s
  exact ⟨rs, evs, s₁, htook, hpasses, by rw [handleInput, bind_ok hrun, modify_bind_apply]⟩

/-- **What calls that return have taken and passed on.** -/
theorem calls_handled (lib : Libvterm V) (answers : Nat → WriteAnswer) (changes : List (V → V))
    (s : State V) :
    Returns (calls lib answers changes) s fun _ s' =>
      ∃ rs evs, s'.taken = s.taken ++ rs ∧ s'.forwarded = s.forwarded ++ evs ∧ Handled rs evs := by
  induction changes generalizing s with
  | nil => exact .pure ⟨[], [], (List.append_nil _).symm, (List.append_nil _).symm, .nil⟩
  | cons change rest ih =>
    obtain ⟨rs, evs, s₁, htook, hpasses, heq⟩ := handleInput_eq lib answers { s with vterm := change s.vterm }
    refine Returns.step (modify_apply _ s) (Returns.bind (P := fun _ s' =>
      s'.taken = s.taken ++ rs ∧ s'.forwarded = s.forwarded ++ evs) ?_ fun _ s₂ hs₂ => ?_)
    · intro r s₂ hrun
      rw [heq] at hrun
      obtain ⟨u, s₃, hdrain, hend⟩ := ok_of_bind hrun
      cases hend
      -- draining neither takes nor forwards a key
      have hsame := drainLoop_sameKeys lib answers
        { s₁ with found := s₁.found ++ [lib.outputBuffer s₁.vterm] }
      rw [hdrain] at hsame
      exact ⟨hsame.2.1.trans htook.taken, hsame.2.2.1.trans htook.forwarded⟩
    · refine (ih s₂).mono fun _ s' hs' => ?_
      obtain ⟨rs', evs', htaken, hforwarded, hhandled⟩ := hs'
      refine ⟨rs ++ rs', evs ++ evs', ?_, ?_, .cons rs rs' evs evs' hpasses hhandled⟩
      · rw [htaken, hs₂.1, List.append_assoc]
      · rw [hforwarded, hs₂.2, List.append_assoc]

end Model

end Prom.Shell
