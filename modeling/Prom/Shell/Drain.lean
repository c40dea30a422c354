/-
  Prom.Shell.Drain — whether what is in the output buffer reaches the shell.

  The second loop of `handle_input` reads the output buffer into `buf` and
  writes what it has read to `fd_master`, a descriptor in non-blocking mode.
  `minimum` returns the larger of its arguments, so one read takes everything
  there is, into an array of 8192 bytes; and what `write` does not take is in
  the terminal no more.

  Main results:
    * `drainLoop_cases` — the loop does nothing, or one read and one write, or
      overruns `buf`.
    * `calls_drained` — what any calls find, and what they send.
    * `written_iff` — what is sent arrives exactly when every write takes all
      it is given.
    * `typed_bytes_complete_iff` — the bytes reach the shell completely exactly
      when they fit into `buf` each time, and every write takes them all.
    * `drain_in_bounds_iff` — the lengths asked for stay within `buf` exactly
      when the buffer does.
-/
import Prom.Shell.Input

namespace Prom.Shell

open Prom.C Exec

section Drain

variable {V : Type}

/-! ## §1. One drain. -/

theorem minimum_bufSize {n : Nat} (h : n ≤ bufSize) : minimum n bufSize = bufSize :=
  if_neg (Nat.not_lt.mpr h)

theorem minimum_more {n : Nat} (h : bufSize < n) : minimum n bufSize = n := if_pos h

/-- An empty buffer ends the loop. -/
theorem drainPass_empty (lib : Libvterm V) (answers : Nat → WriteAnswer) {s : State V}
    (h : lib.outputBuffer s.vterm = []) : drainPass lib answers () s = .ok (.inr ()) s := by
  rw [drainPass, get_bind_apply, h]
  rfl

/-- What fits into `buf` is read and sent at once. -/
theorem drainPass_fits (lib : Libvterm V) (answers : Nat → WriteAnswer) {s : State V}
    (hne : lib.outputBuffer s.vterm ≠ []) (hfits : (lib.outputBuffer s.vterm).length ≤ bufSize) :
    drainPass lib answers () s = .ok (.inl ())
      { s with
        vterm := lib.outputRead s.vterm bufSize
        sent := s.sent ++ [(lib.outputBuffer s.vterm, answers s.sent.length)] } := by
  have hread : vtermOutputRead lib (minimum (lib.outputBuffer s.vterm).length bufSize) s =
      .ok (lib.outputBuffer s.vterm) { s with vterm := lib.outputRead s.vterm bufSize } := by
    rw [vtermOutputRead, minimum_bufSize hfits, List.take_of_length_le hfits, if_pos hfits]
  rw [drainPass, get_bind_apply]
  simp only [List.length_pos_iff.mpr hne, if_true]
  rw [bind_ok hread]
  rfl

/-- What does not fit is read all the same. -/
theorem drainPass_overruns (lib : Libvterm V) (answers : Nat → WriteAnswer) {s : State V}
    (hmore : bufSize < (lib.outputBuffer s.vterm).length) :
    drainPass lib answers () s = .stop .undefined s := by
  have hread : vtermOutputRead lib (minimum (lib.outputBuffer s.vterm).length bufSize) s =
      .stop .undefined s := by
    rw [vtermOutputRead, minimum_more hmore, List.take_length, if_neg (Nat.not_le.mpr hmore)]
  have hpos : (lib.outputBuffer s.vterm).length > 0 := Nat.lt_of_le_of_lt (Nat.zero_le _) hmore
  rw [drainPass, get_bind_apply]
  simp only [hpos, if_true]
  rw [bind_stop hread]

/-- What is sent of a buffer. -/
def chunks (buf : List Byte) (answer : WriteAnswer) : List (List Byte × WriteAnswer) :=
  if buf = [] then [] else [(buf, answer)]

/-- **The drain loop** sends the buffer in one chunk and leaves it empty, or
    overruns `buf`. -/
theorem drainLoop_cases (lib : Libvterm V) (answers : Nat → WriteAnswer) (s : State V) :
    ((lib.outputBuffer s.vterm).length ≤ bufSize ∧
      ∃ s', drainLoop lib answers s = .ok () s' ∧ lib.outputBuffer s'.vterm = [] ∧
        s'.found = s.found ∧
        s'.sent = s.sent ++ chunks (lib.outputBuffer s.vterm) (answers s.sent.length)) ∨
    (bufSize < (lib.outputBuffer s.vterm).length ∧ drainLoop lib answers s = .stop .undefined s) := by
  rcases Nat.lt_or_ge bufSize (lib.outputBuffer s.vterm).length with hmore | hfits
  · exact .inr ⟨hmore, loop_stop (Nat.succ_pos _) (drainPass_overruns lib answers hmore)⟩
  · refine .inl ⟨hfits, ?_⟩
    by_cases hempty : lib.outputBuffer s.vterm = []
    · refine ⟨s, loop_zero (Nat.succ_pos _) (drainPass_empty lib answers hempty), hempty, rfl, ?_⟩
      rw [chunks, if_pos hempty, List.append_nil]
    · have hdrained : lib.outputBuffer (lib.outputRead s.vterm bufSize) = [] := by
        rw [lib.outputBuffer_outputRead]
        exact List.drop_eq_nil_of_le hfits
      refine ⟨_, loop_one (Nat.succ_lt_succ (List.length_pos_iff.mpr hempty))
        (drainPass_fits lib answers hempty hfits) (drainPass_empty lib answers hdrained), hdrained,
        rfl, ?_⟩
      rw [chunks, if_neg hempty]

theorem chunks_bytes (buf : List Byte) (answer : WriteAnswer) :
    (chunks buf answer).flatMap Prod.fst = buf := by
  unfold chunks
  split
  · rename_i hempty
    exact hempty.symm
  · exact List.append_nil buf

/-! ## §2. Any calls. -/

/-- **What calls find and send.**  They return exactly when what they find
    fits into `buf` each time, and then they have sent what they found. -/
theorem calls_drained (lib : Libvterm V) (answers : Nat → WriteAnswer) (changes : List (V → V))
    (s : State V) :
    ∃ bufs es, (calls lib answers changes s).state.found = s.found ++ bufs ∧
      (calls lib answers changes s).state.sent = s.sent ++ es ∧
      ((∃ s', calls lib answers changes s = .ok () s') ↔ ∀ b ∈ bufs, b.length ≤ bufSize) ∧
      ((∃ s', calls lib answers changes s = .ok () s') → es.flatMap Prod.fst = bufs.flatten) := by
  induction changes generalizing s with
  | nil =>
    refine ⟨[], [], (List.append_nil _).symm, (List.append_nil _).symm, ⟨?_, fun _ => ⟨s, rfl⟩⟩,
      fun _ => rfl⟩
    exact fun _ b hb => absurd hb List.not_mem_nil
  | cons change rest ih =>
    -- a call first takes the keys, then drains what is in the buffer
    obtain ⟨rs, evs, s₁, htook, -, heq⟩ := handleInput_eq lib answers { s with vterm := change s.vterm }
    have hfound : s₁.found = s.found := htook.found
    have hsent : s₁.sent = s.sent := htook.sent
    rcases drainLoop_cases lib answers { s₁ with found := s₁.found ++ [lib.outputBuffer s₁.vterm] } with
      ⟨hfits, s₂, hdrain, -, hfound₂, hsent₂⟩ | ⟨hmore, hdrain⟩
    · have hrun : calls lib answers (change :: rest) s = calls lib answers rest s₂ := by
        rw [calls, modify_bind_apply, bind_ok (heq.trans (bind_ok hdrain _))]
      obtain ⟨bufs, es, hfound', hsent', hreturns, hbytes⟩ := ih s₂
      rw [hrun]
      refine ⟨lib.outputBuffer s₁.vterm :: bufs,
        chunks (lib.outputBuffer s₁.vterm) (answers s₁.sent.length) ++ es, ?_, ?_, ?_, ?_⟩
      · rw [hfound', hfound₂, hfound, List.append_assoc, List.singleton_append]
      · rw [hsent', hsent₂, hsent, List.append_assoc]
      · rw [hreturns, List.forall_mem_cons]
        exact ⟨fun hall => ⟨hfits, hall⟩, fun hall => hall.2⟩
      · intro hok
        rw [List.flatMap_append, chunks_bytes, hbytes hok, List.flatten_cons]
    · -- more than the buffer holds: no later call is made
      have hrun : calls lib answers (change :: rest) s = .stop .undefined
          { s₁ with found := s₁.found ++ [lib.outputBuffer s₁.vterm] } := by
        rw [calls, modify_bind_apply, bind_stop (heq.trans (bind_stop hdrain _))]
      rw [hrun]
      refine ⟨[lib.outputBuffer s₁.vterm], [], ?_, ?_, ⟨?_, fun hall => ?_⟩, ?_⟩
      · exact congrArg (· ++ _) hfound
      · exact hsent.trans (List.append_nil _).symm
      · rintro ⟨s', ⟨⟩⟩
      · exact absurd (hall _ List.mem_cons_self) (Nat.not_le.mpr hmore)
      · rintro ⟨s', ⟨⟩⟩

/-! ## §3. What arrives. -/

theorem takes_isPrefix (answer : WriteAnswer) (chunk : List Byte) : answer.takes chunk <+: chunk := by
  cases answer with
  | accepts n => exact List.take_prefix n chunk
  | again => exact List.nil_prefix

theorem written_length_le (es : List (List Byte × WriteAnswer)) :
    (es.flatMap fun e => e.2.takes e.1).length ≤ (es.flatMap Prod.fst).length := by
  induction es with
  | nil => exact Nat.le_refl _
  | cons e es ih =>
    rw [List.flatMap_cons, List.flatMap_cons, List.length_append, List.length_append]
    exact Nat.add_le_add (takes_isPrefix e.2 e.1).length_le ih

/-- **What is sent arrives** exactly when every write takes all it is given:
    what one write leaves, no later one makes up for. -/
theorem written_iff (es : List (List Byte × WriteAnswer)) :
    (es.flatMap fun e => e.2.takes e.1) = es.flatMap Prod.fst ↔ ∀ e ∈ es, e.2.takes e.1 = e.1 := by
  induction es with
  | nil => exact ⟨fun _ e he => absurd he List.not_mem_nil, fun _ => rfl⟩
  | cons e es ih =>
    rw [List.flatMap_cons, List.flatMap_cons, List.forall_mem_cons]
    refine ⟨fun heq => ?_, fun ⟨hhead, htail⟩ => ?_⟩
    · have hlength := congrArg List.length heq
      rw [List.length_append, List.length_append] at hlength
      have hhead_le := (takes_isPrefix e.2 e.1).length_le
      have htail_le := written_length_le es
      have hhead : e.2.takes e.1 = e.1 := (takes_isPrefix e.2 e.1).eq_of_length (by omega)
      rw [hhead] at heq
      exact ⟨hhead, ih.mp (List.append_cancel_left heq)⟩
    · rw [hhead, ih.mpr htail]

/-- **When typed bytes reach the shell completely.**  Take any terminal, any
    answers of `write`, any results of `getch`, any number of calls of
    `handle_input` and anything done to the terminal between them.  The calls
    return and what has reached `fd_master` is what the drain loops found in
    the output buffer, in order and each byte once, if and only if at most
    8192 bytes were found each time and every write took all it was given. -/
theorem typed_bytes_complete_iff (lib : Libvterm V) (answers : Nat → WriteAnswer)
    (changes : List (V → V)) (v : V) (pending : List Getch) :
    (∃ s', calls lib answers changes (.start v pending) = .ok () s' ∧ s'.written = s'.found.flatten) ↔
      (∀ b ∈ (calls lib answers changes (.start v pending)).state.found, b.length ≤ 8192) ∧
        ∀ e ∈ (calls lib answers changes (.start v pending)).state.sent, e.2.takes e.1 = e.1 := by
  obtain ⟨bufs, es, hfound, hsent, hreturns, hbytes⟩ :=
    calls_drained lib answers changes (.start v pending)
  rw [hfound, hsent]
  constructor
  · rintro ⟨s', hrun, hwritten⟩
    rw [hrun] at hfound hsent
    -- all that was found was sent, so all of it was taken
    have hall : es.flatMap (fun e => e.2.takes e.1) = es.flatMap Prod.fst := by
      rw [hbytes ⟨s', hrun⟩, ← show s'.found = bufs from hfound, ← hwritten, State.written,
        show s'.sent = es from hsent]
    exact ⟨hreturns.mp ⟨s', hrun⟩, (written_iff es).mp hall⟩
  · rintro ⟨hfits, htaken⟩
    obtain ⟨s', hrun⟩ := hreturns.mpr hfits
    rw [hrun] at hfound hsent
    refine ⟨s', hrun, ?_⟩
    rw [State.written, show s'.sent = es from hsent, show s'.found = bufs from hfound,
      (written_iff es).mpr htaken, hbytes ⟨s', hrun⟩]

/-- **A short write**: of `ls` and a newline the first byte is taken, and the
    other two are in no later chunk. -/
theorem short_write_drops :
    ∃ s', calls (queue 4096) (fun n => .accepts (if n = 0 then 1 else 8192)) [id, id]
        (.start [] [.char 0x6C, .char 0x73, .char 0x0A]) = .ok () s' ∧
      s'.found = [[0x6C, 0x73, 0x0A], []] ∧ s'.written = [0x6C] := by
  obtain ⟨_, s', hrun, htest⟩ := Yields.of_check
    (m := calls (queue 4096) (fun n => .accepts (if n = 0 then 1 else 8192)) [id, id])
    (s := .start [] [.char 0x6C, .char 0x73, .char 0x0A])
    (p := fun _ s' => s'.found = [[0x6C, 0x73, 0x0A], []] ∧ s'.written = [0x6C]) (by decide +kernel)
  exact ⟨s', hrun, of_decide_eq_true htest⟩

/-! ## §4. The lengths that are asked for. -/

/-- The length that a pass of the drain loop passes to `vterm_output_read`, if
    it gets that far. -/
def readLength (lib : Libvterm V) (s : State V) : Option Nat :=
  let buflen := (lib.outputBuffer s.vterm).length
  if buflen > 0 then some (minimum buflen bufSize) else none

/-- A pass reads that length and writes what it has read. -/
theorem drainPass_eq (lib : Libvterm V) (answers : Nat → WriteAnswer) (s : State V) :
    drainPass lib answers () s =
      match readLength lib s with
      | some n => (do
          let chunk ← vtermOutputRead lib n
          write answers chunk
          pure (.inl ()) : Exec (State V) (Unit ⊕ Unit)) s
      | none => .ok (.inr ()) s := by
  rw [drainPass, get_bind_apply, readLength]
  by_cases hpos : (lib.outputBuffer s.vterm).length > 0
  · simp only [hpos, if_true]
  · simp only [hpos, if_false]
    rfl

/-- The lengths passed to `vterm_output_read` by the passes of the drain
    loop. -/
def readLengths (lib : Libvterm V) (answers : Nat → WriteAnswer) (s : State V) : List Nat :=
  (passes ((lib.outputBuffer s.vterm).length + 1) (drainPass lib answers) () s).filterMap
    fun x => readLength lib x.2

theorem readLength_empty (lib : Libvterm V) {s : State V} (h : lib.outputBuffer s.vterm = []) :
    readLength lib s = none := by
  rw [readLength, h]
  rfl

theorem readLength_some (lib : Libvterm V) {s : State V} (hne : lib.outputBuffer s.vterm ≠ []) :
    readLength lib s = some (minimum (lib.outputBuffer s.vterm).length bufSize) :=
  if_pos (List.length_pos_iff.mpr hne)

theorem readLengths_empty (lib : Libvterm V) (answers : Nat → WriteAnswer) {s : State V}
    (h : lib.outputBuffer s.vterm = []) : readLengths lib answers s = [] := by
  rw [readLengths, passes_exit (drainPass_empty lib answers h), List.filterMap_cons,
    readLength_empty lib h]
  rfl

/-- What fits into `buf` takes one read, of the whole of `buf`. -/
theorem readLengths_fits (lib : Libvterm V) (answers : Nat → WriteAnswer) {s : State V}
    (hne : lib.outputBuffer s.vterm ≠ []) (hfits : (lib.outputBuffer s.vterm).length ≤ bufSize) :
    readLengths lib answers s = [bufSize] := by
  have hdrained : lib.outputBuffer (lib.outputRead s.vterm bufSize) = [] := by
    rw [lib.outputBuffer_outputRead]
    exact List.drop_eq_nil_of_le hfits
  obtain ⟨n, hn⟩ := Nat.exists_eq_succ_of_ne_zero (List.length_eq_zero_iff.not.mpr hne)
  rw [readLengths, passes_next (drainPass_fits lib answers hne hfits), hn,
    passes_exit (drainPass_empty lib answers hdrained), List.filterMap_cons,
    readLength_some lib hne, minimum_bufSize hfits, List.filterMap_cons,
    readLength_empty lib hdrained]
  rfl

/-- What does not fit is asked for as a whole. -/
theorem readLengths_overruns (lib : Libvterm V) (answers : Nat → WriteAnswer) {s : State V}
    (hmore : bufSize < (lib.outputBuffer s.vterm).length) :
    readLengths lib answers s = [(lib.outputBuffer s.vterm).length] := by
  have hne : lib.outputBuffer s.vterm ≠ [] := List.length_pos_iff.mp (Nat.zero_lt_of_lt hmore)
  rw [readLengths, passes_stop (drainPass_overruns lib answers hmore), List.filterMap_cons,
    readLength_some lib hne, minimum_more hmore]
  rfl

/-- **When the drain buffer is not overrun.**  Take any terminal, any answers
    of `write` and any amount of data in the output buffer.  Every length
    passed to `vterm_output_read` is at most 8192, and the loop ends with an
    empty buffer after as many reads as it takes to read it in parts of 8192
    bytes, if and only if there are at most 8192 bytes. -/
theorem drain_in_bounds_iff (lib : Libvterm V) (answers : Nat → WriteAnswer) (s : State V) :
    ((∀ n ∈ readLengths lib answers s, n ≤ 8192) ∧
      (∃ s', drainLoop lib answers s = .ok () s' ∧ lib.outputBuffer s'.vterm = []) ∧
      (readLengths lib answers s).length = ((lib.outputBuffer s.vterm).length + 8192 - 1) / 8192) ↔
    (lib.outputBuffer s.vterm).length ≤ 8192 := by
  constructor
  · rintro ⟨hbounds, -, -⟩
    by_contra hmore
    -- the one length asked for is that of the whole buffer
    rw [readLengths_overruns lib answers (Nat.lt_of_not_le hmore)] at hbounds
    exact hmore (hbounds _ List.mem_cons_self)
  · intro hfits
    rcases drainLoop_cases lib answers s with ⟨-, s', hdrain, hempty', -⟩ | ⟨hmore, -⟩
    · by_cases hempty : lib.outputBuffer s.vterm = []
      · rw [readLengths_empty lib answers hempty, hempty]
        exact ⟨fun n hn => absurd hn List.not_mem_nil, ⟨s', hdrain, hempty'⟩, rfl⟩
      · have hpos := List.length_pos_iff.mpr hempty
        rw [readLengths_fits lib answers hempty hfits]
        refine ⟨fun n hn => ?_, ⟨s', hdrain, hempty'⟩, ?_⟩
        · rw [List.mem_singleton.mp hn]
          exact Nat.le_refl _
        · show 1 = _
          omega
    · exact absurd hmore (Nat.not_lt.mpr hfits)

/-- **One byte more than `buf` holds** is asked for with one read, which
    overruns it. -/
theorem full_buffer_overrun :
    ∃ buf : List Byte, buf.length = 8193 ∧
      readLengths (queue 8193) (fun _ => .accepts 8192) (.start buf []) = [8193] ∧
      drainLoop (queue 8193) (fun _ => .accepts 8192) (.start buf []) =
        .stop .undefined (.start buf []) := by
  obtain ⟨buf, hlength⟩ : ∃ buf : List Byte, buf.length = 8193 :=
    ⟨List.replicate 8193 0, List.length_replicate⟩
  have hmore : bufSize < buf.length := by
    rw [hlength]
    decide
  refine ⟨buf, hlength, ?_, ?_⟩
  · rw [readLengths_overruns (queue 8193) _ (s := .start buf []) hmore]
    exact congrArg (fun n => [n]) hlength
  · exact loop_stop (Nat.succ_pos _) (drainPass_overruns (queue 8193) _ hmore)

end Drain

end Prom.Shell
