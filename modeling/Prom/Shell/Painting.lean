/-
  Prom.Shell.Painting — what the user sees.

  libvterm keeps the screen of the shell and calls back when a part of it has
  changed; the callbacks of `src/shell/terminal.c` copy the part to the curses
  window, cell by cell.  The window has one row more than the terminal: the
  main loop of `src/shell/shell.c` draws the status bar there, and the cursor
  is put back each time.  A resize changes the window first and the terminal
  after it.

  libvterm, `setcchar` and what curses does with a glyph that does not take one
  column are parameters; what is assumed of them is a field of their structure.
  Two things may be in a cell that `print_cell` is not made for: as many
  characters as the array has room for, so that no 0 ends them, and a character
  of another width.  The terminal has two rows at least.

  Main results:
    * `damageCallback_goes` — the callback paints its rectangle and nothing
      else, or reads behind a cell.
    * `setStatusBar_yields` — the status text, for every width of the window.
    * `display_undefined_iff` — the two ways in which the display goes wrong.
    * `display_right` — whatever narrow characters are shown, resized and typed:
      every frame is the terminal's screen with the status bar under it and the
      cursor where the terminal has it.
-/
import Prom.C.Cell
import Prom.C.Exec
import Prom.C.Machine
import Prom.Shell.Curses

namespace Prom.Shell

open Prom.C Exec Prom.Curses

/-! ## §1. libvterm's side. -/

/-- `VTermScreenCell`, as far as it is painted. -/
structure VTermScreenCell where
  /-- The character and what combines with it; ended by a 0 unless it fills the
      array. -/
  chars : List Wchar
  bold : Bool := false
  underline : Bool := false
  italic : Bool := false
  blink : Bool := false
  reverse : Bool := false
  deriving Repr, DecidableEq

/-- The screen of the terminal and its cursor. -/
structure VTermScreen where
  rows : Nat
  cols : Nat
  cell : Nat → Nat → VTermScreenCell
  row : Nat
  col : Nat

/-- `VTermRect`: the end is outside. -/
structure VTermRect where
  start_row : Int
  end_row : Int
  start_col : Int
  end_col : Int
  deriving Repr, DecidableEq

/-- The rectangle has this cell. -/
def VTermRect.Has (rect : VTermRect) (r c : Nat) : Prop :=
  (rect.start_row ≤ r ∧ r < rect.end_row) ∧ rect.start_col ≤ c ∧ c < rect.end_col

/-- It lies on the screen. -/
def VTermRect.On (rect : VTermRect) (v : VTermScreen) : Prop :=
  (0 ≤ rect.start_row ∧ rect.end_row ≤ v.rows) ∧ 0 ≤ rect.start_col ∧ rect.end_col ≤ v.cols

/-- There is no character in the cell, or they are ended by a 0. -/
def VTermScreenCell.Ended (cell : VTermScreenCell) : Prop :=
  cell.chars.headD 0 = 0 ∨ 0 ∈ cell.chars

/-! ## §2. The source: terminal.c. -/

def A_NORMAL : BitVec 32 := 0
def A_UNDERLINE : BitVec 32 := 0x20000
def A_REVERSE : BitVec 32 := 0x40000
def A_BLINK : BitVec 32 := 0x80000
def A_BOLD : BitVec 32 := 0x200000
def A_ITALIC : BitVec 32 := 0x80000000

/-- `setcchar(&cch, wch, attr, pair, NULL)`; none is `ERR`. -/
abbrev Setcchar := List Wchar → BitVec 32 → Nat → Option Glyph

/-- `attr` of `print_cell`. -/
def VTermScreenCell.attr (cell : VTermScreenCell) : BitVec 32 :=
  A_NORMAL ||| (if cell.blink then A_BLINK else 0) ||| (if cell.bold then A_BOLD else 0)
    ||| (if cell.italic then A_ITALIC else 0) ||| (if cell.reverse then A_REVERSE else 0)
    ||| (if cell.underline then A_UNDERLINE else 0)

/-- The string at `wch`: a blank for a cell with no character, else what is
    stored up to the 0.  Without one `setcchar` reads behind the array. -/
def wch (cell : VTermScreenCell) : Exec Window (List Wchar) :=
  if cell.chars.headD 0 = 0 then pure [32]
  else if cell.chars.contains 0 then pure (cell.chars.takeWhile (· != 0))
  else fail .undefined

/-- `move(row, col) == ERR` is false. -/
def move (row col : Int) : Exec Window Bool := fun w => .ok (w.move row col).2 (w.move row col).1

/-- `add_wch(&cch) == ERR` is false. -/
def addWch (cs : Columns) (g : Glyph) : Exec Window Bool := fun w =>
  .ok (w.addWch cs g).2 (w.addWch cs g).1

/-- `print_cell(cell, row, col)`. -/
def printCell (cs : Columns) (setcchar : Setcchar) (cell : VTermScreenCell) (row col : Int) :
    Exec Window Int := do
  match setcchar (← wch cell) cell.attr 0 with
  | none => pure (-1)
  | some cch =>
    if ← move row col then
      if ← addWch cs cch then pure 0 else pure (-1)
    else pure (-1)

/-- `vterm_screen_get_cell(vtscreen, pos, &cell)`.  Of a position that is not on
    the screen nothing is stored, and `cell` is not initialised. -/
def vtermScreenGetCell (v : VTermScreen) (row col : Int) : Exec Window VTermScreenCell :=
  if (0 ≤ row ∧ row < v.rows) ∧ 0 ≤ col ∧ col < v.cols then pure (v.cell row.toNat col.toNat)
  else fail .undefined

/-- `damage_callback(rect, user)`. -/
def damageCallback (cs : Columns) (setcchar : Setcchar) (v : VTermScreen) (rect : VTermRect) :
    Exec Window Int := do
  let w ← get
  forUp rect.start_row rect.end_row fun row =>
    forUp rect.start_col rect.end_col fun col => do
      let cell ← vtermScreenGetCell v row col
      let _ ← printCell cs setcchar cell row col
      pure ()
  let _ ← move w.y w.x
  pure 1

/-- `movecursor_callback(pos, oldpos, visible, user)`. -/
def movecursorCallback (row col : Int) : Exec Window Int := do
  if ← move row col then pure 1 else pure 0

/-! ## §3. One cell and one rectangle. -/

/-- The glyph that shows a cell, if curses has one. -/
def glyphOf (setcchar : Setcchar) (cell : VTermScreenCell) : Option Glyph :=
  setcchar (if cell.chars.headD 0 = 0 then [32] else cell.chars.takeWhile (· != 0)) cell.attr 0

/-- The glyphs that show a screen. -/
def VTermScreen.glyphs (setcchar : Setcchar) (v : VTermScreen) (r c : Nat) : Option Glyph :=
  glyphOf setcchar (v.cell r c)

/-- If curses has a glyph for the cell, it takes one column. -/
def VTermScreenCell.Narrow (cs : Columns) (setcchar : Setcchar) (cell : VTermScreenCell) : Prop :=
  ∀ g, glyphOf setcchar cell = some g → cs.narrow g = true

/-- What is read of a cell. -/
theorem wch_goes (cell : VTermScreenCell) (w : Window) :
    WrongIff (¬cell.Ended) (wch cell) w fun text w' =>
      text = (if cell.chars.headD 0 = 0 then [32] else cell.chars.takeWhile (· != 0)) ∧ w' = w := by
  unfold wch
  by_cases hempty : cell.chars.headD 0 = 0
  · rw [if_pos hempty, if_pos hempty]
    exact ⟨fun h => absurd (.inl hempty) h, fun _ => .pure ⟨rfl, rfl⟩⟩
  · rw [if_neg hempty, if_neg hempty]
    by_cases hzero : 0 ∈ cell.chars
    · rw [if_pos (List.contains_iff_mem.mpr hzero)]
      exact ⟨fun h => absurd (.inr hzero) h, fun _ => .pure ⟨rfl, rfl⟩⟩
    · rw [if_neg (mt List.contains_iff_mem.mp hzero)]
      exact ⟨fun _ => .of_eq (fail_apply _ _), fun h => absurd (not_or.mpr ⟨hempty, hzero⟩) h⟩

section Cells

variable {cs : Columns} {setcchar : Setcchar} {g? : Nat → Nat → Option Glyph}

/-- **One cell.** -/
theorem printCell_goes {cell : VTermScreenCell} {r c : Nat} (hg : g? r c = glyphOf setcchar cell)
    (w : Window) :
    WrongIff (¬cell.Ended) (printCell cs setcchar cell r c) w fun _ w' => w'.SameSize w ∧
      (cell.Narrow cs setcchar → Painted g? (fun r' c' => r' = r ∧ c' = c) w w') := by
  refine (wch_goes cell w).bind_yields fun text w₁ htext => ?_
  obtain ⟨rfl, rfl⟩ := htext
  rw [glyphOf] at hg
  -- a cell that is not painted: the glyph is none, or the place is not there
  have hskip : (∀ g, r < w₁.rows → c < w₁.cols → g? r c ≠ some g) →
      Painted g? (fun r' c' => r' = r ∧ c' = c) w₁ w₁ := fun hno =>
    ⟨rfl, rfl, by rintro r' c' g hr hc ⟨rfl, rfl⟩ hsome; exact absurd hsome (hno g hr hc),
      fun _ _ _ => rfl⟩
  split
  · -- curses has no such glyph
    rename_i hnone
    exact .pure ⟨⟨rfl, rfl⟩, fun _ => hskip fun g _ _ => by rw [hg, hnone]; rintro ⟨⟩⟩
  · rename_i cch hsome
    by_cases hin : r < w₁.rows ∧ c < w₁.cols
    · have hmove : move r c w₁ = .ok true { w₁ with y := r, x := c, y_lt := hin.1, x_lt := hin.2 } := by
        rw [move, move_inside hin.1 hin.2]
      refine Yields.step hmove ?_
      rw [if_pos rfl]
      have hsize := addWch_size cs { w₁ with y := r, x := c, y_lt := hin.1, x_lt := hin.2 } cch
      have hpainted : cell.Narrow cs setcchar → Painted g? (fun r' c' => r' = r ∧ c' = c) w₁ _ :=
        fun hnarrow =>
          have h := @addWch_painted cs g?
            { w₁ with y := r, x := c, y_lt := hin.1, x_lt := hin.2 } cch (hnarrow cch hsome)
            (hg.trans hsome)
          ⟨h.rows, h.cols, h.done, h.kept⟩
      refine Yields.step (a := (Window.addWch cs _ cch).2) rfl ?_
      split <;> exact .pure ⟨hsize, hpainted⟩
    · have hmove : move r c w₁ = .ok false w₁ := by
        rw [move, move_outside (by omega)]
      refine Yields.step hmove ?_
      rw [if_neg Bool.false_ne_true]
      exact .pure ⟨⟨rfl, rfl⟩, fun _ => hskip fun g hr hc => absurd ⟨hr, hc⟩ hin⟩

variable {v : VTermScreen} {rect : VTermRect}

/-- Some cell of the rectangle has no 0. -/
def VTermRect.Overlong (rect : VTermRect) (v : VTermScreen) : Prop :=
  ∃ r c, rect.Has r c ∧ ¬(v.cell r c).Ended

/-- All cells of the rectangle take one column. -/
def VTermRect.Narrow (rect : VTermRect) (cs : Columns) (setcchar : Setcchar) (v : VTermScreen) : Prop :=
  ∀ r c, rect.Has r c → (v.cell r c).Narrow cs setcchar

/-- One row of a rectangle. -/
theorem damageRow_goes (hon : rect.On v) {row : Int}
    (hrow : (0 ≤ row ∧ row < v.rows) ∧ rect.start_row ≤ row ∧ row < rect.end_row) (w : Window) :
    WrongIff (∃ c : Nat, (rect.start_col ≤ c ∧ c < rect.end_col) ∧ ¬(v.cell row.toNat c).Ended)
      (forUp rect.start_col rect.end_col fun col => do
        let cell ← vtermScreenGetCell v row col
        let _ ← printCell cs setcchar cell row col
        pure ()) w fun _ w' => w'.SameSize w ∧ (rect.Narrow cs setcchar v →
      Painted (v.glyphs setcchar)
        (fun r c => (r : Int) = row ∧ rect.start_col ≤ c ∧ c < rect.end_col) w w') := by
  obtain ⟨-, hcol0, hcols⟩ := hon
  obtain ⟨r, rfl⟩ := Int.eq_ofNat_of_zero_le hrow.1.1
  -- the columns before `col` are done
  refine ((WrongIff.forUp (fun col => ¬(v.cell r col.toNat).Ended)
      (I := fun col s => s.SameSize w ∧ (rect.Narrow cs setcchar v →
        Painted (v.glyphs setcchar) (fun r' c => r' = r ∧ rect.start_col ≤ c ∧ c < col) w s)) ?_
      ⟨⟨rfl, rfl⟩, fun _ => .refl fun r' c h => by omega⟩).mono ?_).congr ?_
  · intro col s hstart hend ⟨hsize, hdone⟩
    obtain ⟨c, rfl⟩ := Int.eq_ofNat_of_zero_le (Int.le_trans hcol0 hstart)
    have hc : c < v.cols := by omega
    have hget : vtermScreenGetCell v r c s = .ok (v.cell r c) s :=
      congrFun (if_pos ⟨hrow.1, by omega, by omega⟩) s
    have hglyph : v.glyphs setcchar r c = glyphOf setcchar (v.cell r c) := rfl
    refine WrongIff.step hget ((printCell_goes hglyph s).bind_yields fun _ s' hcell => .pure ?_)
    refine ⟨hcell.1.trans hsize, fun hnarrow => ?_⟩
    exact ((hdone hnarrow).trans (hcell.2 (hnarrow r c ⟨hrow.2, hstart, hend⟩))).mono
      (fun r' c' h => by omega) fun r' c' _ _ h => by omega
  · rintro _ w' ⟨col, hcol, hsize, hdone⟩
    exact ⟨hsize, fun hnarrow =>
      (hdone hnarrow).mono (fun r' c' h => by omega) fun r' c' _ _ h => by omega⟩
  · constructor
    · rintro ⟨col, hstart, hend, hbad⟩
      exact ⟨col.toNat, by omega, hbad⟩
    · rintro ⟨c, ⟨hstart, hend⟩, hbad⟩
      exact ⟨c, hstart, hend, hbad⟩

/-- **One rectangle.**  The callback paints it, and puts the cursor back. -/
theorem damageCallback_goes (hon : rect.On v) (w : Window) :
    WrongIff (rect.Overlong v) (damageCallback cs setcchar v rect) w fun ret w' =>
      ret = 1 ∧ w'.SameSize w ∧ (w'.y = w.y ∧ w'.x = w.x) ∧
        (rect.Narrow cs setcchar v → Painted (v.glyphs setcchar) rect.Has w w') := by
  have hrows := hon.1
  refine WrongIff.step (get_apply w) ?_
  -- the rows above `row` are done
  refine ((WrongIff.forUp (fun row =>
      ∃ c : Nat, (rect.start_col ≤ c ∧ c < rect.end_col) ∧ ¬(v.cell row.toNat c).Ended)
    (I := fun row s => s.SameSize w ∧ (rect.Narrow cs setcchar v → Painted (v.glyphs setcchar)
      (fun r c => (rect.start_row ≤ r ∧ r < row) ∧ rect.start_col ≤ c ∧ c < rect.end_col) w s)) ?_
    ⟨⟨rfl, rfl⟩, fun _ => .refl fun r c h => by omega⟩).bind_yields ?_).congr ?_
  · intro row s hstart hend ⟨hsize, hdone⟩
    refine (damageRow_goes hon ⟨by omega, hstart, hend⟩ s).mono fun _ s' hrow => ?_
    exact ⟨hrow.1.trans hsize, fun hnarrow => ((hdone hnarrow).trans (hrow.2 hnarrow)).mono
      (fun r c h => by omega) fun r c _ _ h => by omega⟩
  · rintro _ s ⟨row, hrow, hsize, hdone⟩
    have hback : move w.y w.x s
        = .ok true { s with y := w.y, x := w.x,
                            y_lt := hsize.1 ▸ w.y_lt, x_lt := hsize.2 ▸ w.x_lt } := by
      rw [move, move_inside (hsize.1 ▸ w.y_lt) (hsize.2 ▸ w.x_lt)]
    refine Yields.step hback (.pure ⟨rfl, hsize, ⟨rfl, rfl⟩, fun hnarrow => ?_⟩)
    have hall : Painted (v.glyphs setcchar) rect.Has w s :=
      (hdone hnarrow).mono (fun r c h => ⟨by omega, h.2⟩) fun r c _ _ h => ⟨by have := h.1; omega, h.2⟩
    exact hall.of_cells rfl rfl rfl
  · constructor
    · rintro ⟨row, hstart, hend, c, hc, hbad⟩
      exact ⟨row.toNat, c, ⟨by omega, hc⟩, hbad⟩
    · rintro ⟨r, c, ⟨hr, hc⟩, hbad⟩
      exact ⟨r, hr.1, hr.2, c, hc, hbad⟩

end Cells

/-! ## §4. The status bar: shell.c. -/

/-- "[prom]: prom is running..." -/
def statusText : List Byte :=
  "[prom]: prom is running...".toList.map fun c => BitVec.ofNat 8 c.toNat

/-- `buf[i] = b;` -/
def store (i : Int) (b : Byte) : Exec (List Byte) Unit := fun buf =>
  if 0 ≤ i ∧ i < buf.length then .ok () (buf.set i.toNat b) else .stop .undefined buf

/-- `snprintf(buf, len, "%s", text)`. -/
def snprintf (len : Nat) (text : List Byte) : Exec (List Byte) Int := fun buf =>
  if len ≤ buf.length then
    .ok text.length
      (if len = 0 then buf
        else text.take (len - 1) ++ 0 :: buf.drop (min (len - 1) text.length + 1))
  else .stop .undefined buf

/-- `set_status_bar(status, len)`. -/
def setStatusBar (len : Nat) : Exec (List Byte) Int := do
  -- memset(status, 0, len)
  forUp 0 len fun i => store i 0
  let s_len ← snprintf len statusText
  if s_len < 0 then pure (-1)
  else do
    forUp s_len len fun i => store i 32
    -- `len - 1` is a `size_t`
    store (((len + (2 ^ 64 - 1)) % 2 ^ 64 : Nat) : Int) 0
    pure 0

/-- How `addstr` shows a byte while `COLOR_PAIR(1)` is on. -/
def statusGlyph (b : Byte) : Glyph := ⟨[b.setWidth 32], A_NORMAL, 1⟩

/-- `addstr(status)`; it reads up to the 0. -/
def addstr (cs : Columns) (status : List Byte) : Exec Window Bool := fun w =>
  if status.contains 0 then
    let r := w.addChars cs ((status.takeWhile (· != 0)).map statusGlyph)
    .ok r.2 r.1
  else .stop .undefined w

/-- `draw_status_bar(status)`.  The colours of the pair do not matter here. -/
def drawStatusBar (cs : Columns) (status : List Byte) : Exec Window Unit := do
  let w ← get
  let _ ← move (w.rows - 1) 0
  let _ ← addstr cs status
  let _ ← move w.y w.x
  pure ()

/-- The status bar in a pass of the loop of `master_process`.  `malloc` gives a
    block with anything in it, or none. -/
def statusBar (cs : Columns) (malloc : Option (Nat → Byte)) : Exec Window Unit := do
  let w ← get
  let maxx : Int := w.cols + 1
  if maxx > 0 then
    match malloc with
    -- the block is not checked: memset writes to NULL
    | none => fail .undefined
    | some junk =>
      match setStatusBar maxx.toNat ((List.range maxx.toNat).map junk) with
      | .ok _ status => drawStatusBar cs status
      | .stop f _ => fail f
  else pure ()

/-! ## §5. What the status bar shows. -/

/-- The text, cut or filled up with blanks to this width. -/
def barText (width : Nat) : List Byte := (statusText ++ List.replicate width 32).take width

@[simp] theorem barText_length (width : Nat) : (barText width).length = width := by
  simp [barText]

/-- It is printable ASCII. -/
theorem barText_ascii (width : Nat) : ∀ b ∈ barText width, 32 ≤ b.toNat ∧ b.toNat < 127 := by
  intro b hb
  have htext : ∀ b ∈ statusText, 32 ≤ b.toNat ∧ b.toNat < 127 := by decide
  rcases List.mem_append.mp (List.mem_of_mem_take hb) with hb | hb
  · exact htext b hb
  · rw [List.eq_of_mem_replicate hb]
    decide

theorem barText_ne_zero (width : Nat) : ∀ b ∈ barText width, b ≠ 0 := by
  rintro b hb rfl
  exact absurd (barText_ascii width 0 hb).1 (by decide)

theorem statusGlyph_narrow (cs : Columns) {b : Byte} (hb : 32 ≤ b.toNat ∧ b.toNat < 127) :
    cs.narrow (statusGlyph b) = true := by
  have hwide : (b.setWidth 32).toNat = b.toNat := by
    rw [BitVec.toNat_setWidth]
    omega
  exact cs.ascii _ _ _ (hwide ▸ hb.1) (hwide ▸ hb.2)

/-- A character of the bar. -/
theorem barText_getElem? {width j : Nat} (hj : j < width) :
    (barText width)[j]? = some (if h : j < statusText.length then statusText[j] else 32) := by
  rw [barText, List.getElem?_take_of_lt hj]
  by_cases h : j < statusText.length
  · rw [dif_pos h, List.getElem?_append_left h, List.getElem?_eq_getElem h]
  · rw [dif_neg h, List.getElem?_append_right (by omega), List.getElem?_replicate,
      if_pos (by omega)]

theorem store_ok {buf : List Byte} {i : Nat} (h : i < buf.length) (b : Byte) :
    store i b buf = .ok () (buf.set i b) := by
  rw [store, if_pos ⟨Int.natCast_nonneg i, Int.ofNat_lt.mpr h⟩]
  rfl

/-- What `snprintf` leaves: the text as far as there is room, in a buffer of the
    same length. -/
theorem snprintf_status {buf : List Byte} {width : Nat} (hlen : buf.length = width + 1) :
    ∃ buf', snprintf (width + 1) statusText buf = .ok statusText.length buf' ∧
      buf'.length = width + 1 ∧
      ∀ j, j < statusText.length → j < width → buf'[j]? = (barText width)[j]? := by
  refine ⟨statusText.take width ++ 0 :: buf.drop (min width statusText.length + 1), ?_, ?_, ?_⟩
  · rw [snprintf, if_pos (by omega), if_neg (by omega)]
    rfl
  · simp only [List.length_append, List.length_take, List.length_cons, List.length_drop, hlen]
    omega
  · intro j hj hw
    have htake : j < (statusText.take width).length := by
      rw [List.length_take]
      omega
    rw [barText_getElem? hw, dif_pos hj, List.getElem?_append_left htake,
      List.getElem?_take_of_lt hw, List.getElem?_eq_getElem hj]

/-- **The status text, for every width.**  Within the buffer, whatever was in it:
    the text cut or filled up to the width, and a 0. -/
theorem setStatusBar_yields {buf : List Byte} {width : Nat} (hlen : buf.length = width + 1)
    (hsize : width + 1 < 2 ^ 64) :
    Yields (setStatusBar (width + 1)) buf fun ret buf' => ret = 0 ∧ buf' = barText width ++ [0] := by
  -- memset stays inside
  refine Yields.bind (Yields.forUp (I := fun _ buf => buf.length = width + 1) ?_ hlen) ?_
  · intro i b h0 hi hb
    obtain ⟨j, rfl⟩ := Int.eq_ofNat_of_zero_le h0
    exact .of_eq (store_ok (by omega) 0) (by rw [List.length_set]; exact hb)
  rintro _ b ⟨-, -, hb⟩
  obtain ⟨b, hrun, hb, htext⟩ := snprintf_status hb
  refine Yields.step hrun ?_
  rw [if_neg (by omega)]
  -- the columns before `i` hold the bar
  refine Yields.bind (Yields.forUp (I := fun i buf => buf.length = width + 1 ∧
    ∀ j : Nat, (j : Int) < i → j < width → buf[j]? = (barText width)[j]?) ?_ ?_) ?_
  · rintro i b hstart hend ⟨hb, hdone⟩
    obtain ⟨k, rfl⟩ := Int.eq_ofNat_of_zero_le (Int.le_trans (Int.natCast_nonneg _) hstart)
    refine .of_eq (store_ok (by omega) 32) ⟨by rw [List.length_set]; exact hb, fun j hj hw => ?_⟩
    by_cases hjk : j = k
    · subst hjk
      rw [List.getElem?_set_self (by omega), barText_getElem? hw, dif_neg (by omega)]
    · rw [List.getElem?_set_ne (Ne.symm hjk)]
      exact hdone j (by omega) hw
  · exact ⟨hb, fun j hj hw => htext j (Int.ofNat_lt.mp hj) hw⟩
  · rintro _ b ⟨i, hi, hb, hdone⟩
    have hlast : (width + 1 + (2 ^ 64 - 1)) % 2 ^ 64 = width := by omega
    rw [hlast]
    refine Yields.step (store_ok (by omega) 0) (.pure ⟨rfl, List.ext_getElem? fun j => ?_⟩)
    rcases Nat.lt_trichotomy j width with hj | rfl | hj
    · rw [List.getElem?_set_ne (by omega), hdone j (by omega) hj,
        List.getElem?_append_left (by rw [barText_length]; exact hj)]
    · rw [List.getElem?_set_self (by omega),
        List.getElem?_append_right (by rw [barText_length]), barText_length, Nat.sub_self]
      rfl
    · rw [List.getElem?_eq_none (by rw [List.length_set]; omega),
        List.getElem?_eq_none (by simp; omega)]

/-- The glyphs of the bar, in the last row. -/
def barGlyphs (rows cols : Nat) (r c : Nat) : Option Glyph :=
  if r + 1 = rows then (barText cols)[c]?.map statusGlyph else none

/-- The bar, written from the start of the last row. -/
theorem addstr_bar (cs : Columns) {w : Window} (hy : w.y + 1 = w.rows) (hx : w.x = 0) :
    Yields (addstr cs (barText w.cols ++ [0])) w fun _ w' =>
      Painted (barGlyphs w.rows w.cols) (fun r _ => r + 1 = w.rows) w w' := by
  -- what is read is the bar without its 0
  have hread : (barText w.cols ++ [0]).takeWhile (· != 0) = barText w.cols := by
    rw [List.takeWhile_append_of_pos fun b hb => bne_iff_ne.mpr (barText_ne_zero _ b hb)]
    simp
  have hpainted : Painted (barGlyphs w.rows w.cols) _ w _ :=
    addChars_painted cs ((barText w.cols).map statusGlyph) w
      (fun g hg => by
        obtain ⟨b, hb, rfl⟩ := List.mem_map.mp hg
        exact statusGlyph_narrow cs (barText_ascii _ b hb))
      (by simp [hx]) fun i g hi => by
        rw [barGlyphs, if_pos hy, hx, Nat.zero_add, ← List.getElem?_map]
        exact hi
  refine ⟨(w.addChars cs ((barText w.cols).map statusGlyph)).2, _, ?_,
    hpainted.mono (fun r c h => ?_) fun r c _ hc h => ?_⟩
  · rw [addstr, if_pos (by simp), hread]
  · rw [h.1, hy]
  · simp only [List.length_map, barText_length]
    omega

/-- **The bar is drawn** over the last row, and the cursor is put back. -/
theorem drawStatusBar_yields (cs : Columns) (w : Window) :
    Yields (drawStatusBar cs (barText w.cols ++ [0])) w fun _ w' =>
      Painted (barGlyphs w.rows w.cols) (fun r _ => r + 1 = w.rows) w w'
        ∧ w'.y = w.y ∧ w'.x = w.x := by
  have hrows := Nat.zero_lt_of_lt w.y_lt
  have hcols := Nat.zero_lt_of_lt w.x_lt
  have hlast : w.rows - 1 < w.rows := by omega
  refine Yields.step (get_apply w) ?_
  have hmove : move ((w.rows : Int) - 1) 0 w
      = .ok true { w with y := w.rows - 1, x := 0, y_lt := hlast, x_lt := hcols } := by
    have hrow : ((w.rows : Int) - 1) = ((w.rows - 1 : Nat) : Int) := by omega
    rw [move, hrow, show (0 : Int) = ((0 : Nat) : Int) from rfl, move_inside hlast hcols]
  have hbar := addstr_bar cs
    (w := { w with y := w.rows - 1, x := 0, y_lt := hlast, x_lt := hcols })
    (Nat.sub_add_cancel hrows) rfl
  refine Yields.step hmove (hbar.bind fun _ w' hpainted => ?_)
  have hback : move w.y w.x w'
      = .ok true { w' with y := w.y, x := w.x,
                           y_lt := hpainted.rows ▸ w.y_lt, x_lt := hpainted.cols ▸ w.x_lt } := by
    rw [move, move_inside (hpainted.rows ▸ w.y_lt) (hpainted.cols ▸ w.x_lt)]
  refine Yields.step hback (.pure ⟨?_, rfl, rfl⟩)
  exact ⟨hpainted.rows, hpainted.cols, hpainted.done, hpainted.kept⟩

/-- The status bar of one pass, when there is memory for it. -/
theorem statusBar_yields (cs : Columns) (junk : Nat → Byte) (w : Window)
    (hsize : w.cols + 1 < 2 ^ 64) :
    Yields (statusBar cs (some junk)) w fun _ w' =>
      Painted (barGlyphs w.rows w.cols) (fun r _ => r + 1 = w.rows) w w'
        ∧ w'.y = w.y ∧ w'.x = w.x := by
  refine Yields.step (get_apply w) ?_
  have hmaxx : ((w.cols : Int) + 1) > 0 := by omega
  have hnat : ((w.cols : Int) + 1).toNat = w.cols + 1 := by omega
  simp only [if_pos hmaxx, hnat]
  have hblock : ((List.range (w.cols + 1)).map junk).length = w.cols + 1 := by simp
  obtain ⟨ret, status, hrun, -, rfl⟩ := setStatusBar_yields hblock hsize
  simp only [hrun]
  exact drawStatusBar_yields cs w

/-- The block for the status bar is written to unchecked. -/
theorem statusBar_undefined (cs : Columns) (w : Window) : Undefined (statusBar cs none) w := by
  have hmaxx : ((w.cols : Int) + 1) > 0 := by omega
  refine Undefined.step (get_apply w) ?_
  simp only [if_pos hmaxx]
  exact .of_eq (fail_apply _ _)

/-! ## §6. libvterm and the loop. -/

/-- A change of the screen: the screen after it, the rectangles reported as
    damaged, and whether the cursor is reported. -/
structure Update where
  screen : VTermScreen
  rects : List VTermRect
  moved : Bool

/-- What is reported of a change of the screen `v`, with rectangles and a cursor of
    the screen: every cell that is not as it was, and a cursor that is not where
    it was. -/
structure Update.Reports (u : Update) (v : VTermScreen) : Prop where
  on : ∀ rect ∈ u.rects, rect.On u.screen
  covered : ∀ r c, r < u.screen.rows → c < u.screen.cols →
    (∃ rect ∈ u.rects, rect.Has r c) ∨ r < v.rows ∧ c < v.cols ∧ u.screen.cell r c = v.cell r c
  cursor : u.moved = true ∨ u.screen.row = v.row ∧ u.screen.col = v.col
  inside : u.screen.row < u.screen.rows ∧ u.screen.col < u.screen.cols

/-- A cell with no character and no attribute. -/
def VTermScreenCell.Empty (cell : VTermScreenCell) : Prop :=
  cell.chars.headD 0 = 0 ∧ cell.attr = A_NORMAL

/-- Some cell that is reported has no 0. -/
def Update.Overlong (u : Update) : Prop := ∃ rect ∈ u.rects, rect.Overlong u.screen

/-- What is reported can be painted: every cell has a 0, and takes one column. -/
def Update.Paintable (cs : Columns) (setcchar : Setcchar) (u : Update) : Prop :=
  ¬u.Overlong ∧ ∀ rect ∈ u.rects, rect.Narrow cs setcchar u.screen

/-- libvterm with its screen layer; `V` is all that it remembers. -/
structure ScreenLayer (V : Type) where
  screen : V → VTermScreen
  /-- `vterm_new` and what `init_vterm` sets. -/
  new : Nat → Nat → V
  /-- `vterm_screen_flush_damage`, with what it reports. -/
  flush : V → V × List VTermRect × Bool
  /-- `vterm_input_write`. -/
  input : V → List Byte → V × List VTermRect × Bool
  /-- `vterm_set_size`. -/
  setSize : V → Nat → Nat → V × List VTermRect × Bool
  new_empty : ∀ rows cols, 0 < rows → 0 < cols → (screen (new rows cols)).rows = rows ∧
    (screen (new rows cols)).cols = cols ∧ (∀ r c, ((screen (new rows cols)).cell r c).Empty) ∧
    (screen (new rows cols)).row = 0 ∧ (screen (new rows cols)).col = 0
  flush_reports : ∀ v, Update.Reports ⟨screen (flush v).1, (flush v).2.1, (flush v).2.2⟩ (screen v) ∧
    (screen (flush v).1).rows = (screen v).rows ∧ (screen (flush v).1).cols = (screen v).cols
  input_reports : ∀ v bytes,
    Update.Reports ⟨screen (input v bytes).1, (input v bytes).2.1, (input v bytes).2.2⟩ (screen v) ∧
    (screen (input v bytes).1).rows = (screen v).rows ∧
    (screen (input v bytes).1).cols = (screen v).cols
  setSize_reports : ∀ v rows cols, 0 < rows → 0 < cols →
    Update.Reports
      ⟨screen (setSize v rows cols).1, (setSize v rows cols).2.1, (setSize v rows cols).2.2⟩
      (screen v) ∧
    (screen (setSize v rows cols).1).rows = rows ∧ (screen (setSize v rows cols).1).cols = cols

/-- The size of a terminal that has a row for the shell beside the one for the
    status bar. -/
structure TermSize where
  rows : Nat
  cols : Nat
  rows_le : 2 ≤ rows ∧ rows < 65536
  cols_le : 0 < cols ∧ cols < 65536

/-- The window, libvterm and `globe.wsize`. -/
structure Display (V : Type) where
  window : Window
  vterm : V
  ws_row : Nat
  ws_col : Nat

def displayWindow {V : Type} : Lens (Display V) Window where
  get := Display.window
  set s w := { s with window := w }
  get_set _ _ := rfl
  set_get _ := rfl
  set_set _ _ _ := rfl

/-- One pass of the loop of `master_process`, as far as the screen goes. -/
structure ScreenTurn where
  /-- `globe.got_sigwinch` is set; the size is the one `refresh` finds. -/
  resized : Option TermSize
  /-- What `malloc` gives for the status bar. -/
  malloc : Option (Nat → Byte)
  /-- What `handle_output` has read. -/
  output : Option (List Byte)
  /-- The pass gets to its `refresh()`. -/
  refreshed : Bool

section Model

variable {V : Type} (lib : ScreenLayer V) (cs : Columns) (setcchar : Setcchar)

/-- The callbacks for the damaged rectangles. -/
def damages (v : VTermScreen) : List VTermRect → Exec Window Unit
  | [] => pure ()
  | rect :: rest => do
    let _ ← damageCallback cs setcchar v rect
    damages v rest

/-- A call into libvterm that changes the screen, with its callbacks. -/
def vtermCall (call : V → V × List VTermRect × Bool) : Exec (Display V) Unit := do
  let r := call (← get).vterm
  modify fun s => { s with vterm := r.1 }
  zoom displayWindow (damages cs setcchar (lib.screen r.1) r.2.1)
  if r.2.2 then do
    let _ ← zoom displayWindow (movecursorCallback (lib.screen r.1).row (lib.screen r.1).col)
    pure ()
  else pure ()

/-- `window_resize(vterm, fd_term, wsize)`, the terminal having this size. -/
def windowResize (size : TermSize) : Exec (Display V) Unit := do
  vtermCall lib cs setcchar lib.flush
  -- endwin(); refresh()
  modify fun s => { s with
    window := s.window.resize size.rows size.cols (Nat.lt_of_lt_of_le Nat.zero_lt_two size.rows_le.1)
      size.cols_le.1 }
  -- maxyx(): the fields are `unsigned short`
  modify fun s => { s with ws_row := s.window.rows % 65536, ws_col := s.window.cols % 65536 }
  modify fun s => { s with ws_row := (s.ws_row + 65535) % 65536 }
  let s ← get
  vtermCall lib cs setcchar fun v => lib.setSize v s.ws_row s.ws_col

/-- `if (globe.got_sigwinch)`. -/
def ifResized (resized : Option TermSize) : Exec (Display V) Unit :=
  match resized with
  | some size => windowResize lib cs setcchar size
  | none => pure ()

/-- What `handle_output` passes on. -/
def ifOutput (output : Option (List Byte)) : Exec (Display V) Unit :=
  match output with
  | some bytes => vtermCall lib cs setcchar fun v => lib.input v bytes
  | none => pure ()

/-- One pass; what `refresh()` shows, with the terminal's screen of that moment. -/
def screenPass (p : ScreenTurn) : Exec (Display V) (Option (Window × VTermScreen)) := do
  ifResized lib cs setcchar p.resized
  zoom displayWindow (statusBar cs p.malloc)
  ifOutput lib cs setcchar p.output
  let s ← get
  pure (if p.refreshed then some (s.window, lib.screen s.vterm) else none)

/-- The frames of a run. -/
def screenPasses : List ScreenTurn → Exec (Display V) (List (Window × VTermScreen))
  | [] => pure []
  | p :: rest => do
    let frame ← screenPass lib cs setcchar p
    let frames ← screenPasses rest
    pure (frame.toList ++ frames)

/-- The display `shell_main_entry` sets up. -/
def Display.start (size : TermSize) : Display V :=
  let ws_row := (size.rows % 65536 + 65535) % 65536
  let ws_col := size.cols % 65536
  ⟨.init size.rows size.cols (Nat.lt_of_lt_of_le Nat.zero_lt_two size.rows_le.1) size.cols_le.1,
    lib.new ws_row ws_col, ws_row, ws_col⟩

end Model

/-! ### The terminal alone. -/

section Terminal

variable {V : Type} (lib : ScreenLayer V)

/-- A call's result as a change of the screen. -/
def ScreenLayer.update (r : V × List VTermRect × Bool) : Update := ⟨lib.screen r.1, r.2.1, r.2.2⟩

/-- What a resize does to the terminal, and what is reported of it. -/
def ScreenLayer.resizes (v : V) : Option TermSize → V × List Update
  | none => (v, [])
  | some size =>
    let flushed := lib.flush v
    let sized := lib.setSize flushed.1 (size.rows - 1) size.cols
    (sized.1, [lib.update flushed, lib.update sized])

/-- What output does. -/
def ScreenLayer.outputs (v : V) : Option (List Byte) → V × List Update
  | none => (v, [])
  | some bytes => ((lib.input v bytes).1, [lib.update (lib.input v bytes)])

/-- The terminal in a pass. -/
def ScreenLayer.turn (v : V) (p : ScreenTurn) : V × List Update :=
  let resized := lib.resizes v p.resized
  let written := lib.outputs resized.1 p.output
  (written.1, resized.2 ++ written.2)

/-- The terminal in a run; it puts out what it reports. -/
def ScreenLayer.terminal : Machine V ScreenTurn Update := ⟨lib.turn⟩

end Terminal

/-! ## §7. The window shows the terminal. -/

/-- The window shows the screen above its last row, and has the cursor where the
    screen has it. -/
structure Shows (setcchar : Setcchar) (w : Window) (v : VTermScreen) : Prop where
  rows : v.rows + 1 = w.rows
  cols : v.cols = w.cols
  cells : ∀ r c g, r < v.rows → c < v.cols → v.glyphs setcchar r c = some g → w.cells r c = g
  cursor : w.y = v.row ∧ w.x = v.col

section Calls

variable {V : Type} {lib : ScreenLayer V} {cs : Columns} {setcchar : Setcchar}

/-- All the damaged rectangles. -/
theorem damages_goes {v : VTermScreen} :
    ∀ {rects : List VTermRect}, (∀ rect ∈ rects, rect.On v) → ∀ w : Window,
      WrongIff (∃ rect ∈ rects, rect.Overlong v) (damages cs setcchar v rects) w fun _ w' =>
        w'.SameSize w ∧ (w'.y = w.y ∧ w'.x = w.x) ∧
          ((∀ rect ∈ rects, rect.Narrow cs setcchar v) →
            Painted (v.glyphs setcchar) (fun r c => ∃ rect ∈ rects, rect.Has r c) w w')
  | [], _, w => by
      refine (WrongIff.of_yields (.pure ⟨⟨rfl, rfl⟩, ⟨rfl, rfl⟩, fun _ => ?_⟩)).congr (by simp)
      exact .refl fun r c ⟨_, h, _⟩ => List.not_mem_nil h
  | rect :: rest, hon, w => by
      have hexists := List.exists_mem_cons_iff (fun r : VTermRect => r.Overlong v) rect rest
      refine ((damageCallback_goes (hon rect List.mem_cons_self) w).bind ?_).congr hexists.symm
      rintro _ w1 ⟨-, hsize, ⟨hy, hx⟩, hfirst⟩
      refine (damages_goes (fun r hr => hon r (List.mem_cons_of_mem _ hr)) w1).mono ?_
      rintro _ w2 ⟨hsize', ⟨hy', hx'⟩, hrest⟩
      refine ⟨hsize'.trans hsize, ⟨hy'.trans hy, hx'.trans hx⟩, fun hnarrow => ?_⟩
      obtain ⟨hone, hothers⟩ := List.forall_mem_cons.mp hnarrow
      refine ((hfirst hone).trans (hrest hothers)).mono ?_ ?_
      · rintro r c (h | ⟨rect', hmem, h⟩)
        · exact ⟨rect, List.mem_cons_self, h⟩
        · exact ⟨rect', List.mem_cons_of_mem _ hmem, h⟩
      · rintro r c - - ⟨rect', hmem, h⟩
        rcases List.mem_cons.mp hmem with rfl | hmem
        · exact .inl h
        · exact .inr ⟨rect', hmem, h⟩

/-- The rest of the display is left. -/
theorem damages_display {v : VTermScreen} {rects : List VTermRect} (hon : ∀ rect ∈ rects, rect.On v)
    (s : Display V) :
    WrongIff (∃ rect ∈ rects, rect.Overlong v) (zoom displayWindow (damages cs setcchar v rects)) s
      fun _ s' => s'.vterm = s.vterm ∧ s'.window.SameSize s.window ∧
        (s'.window.y = s.window.y ∧ s'.window.x = s.window.x) ∧
        ((∀ rect ∈ rects, rect.Narrow cs setcchar v) → Painted (v.glyphs setcchar)
          (fun r c => ∃ rect ∈ rects, rect.Has r c) s.window s'.window) :=
  WrongIff.zoom ((damages_goes hon s.window).mono fun _ _ hw => ⟨rfl, hw⟩)

theorem movecursorCallback_eq (row col : Int) (w : Window) :
    ∃ ret, movecursorCallback row col w = .ok ret (w.move row col).1 := by
  have hmove : move row col w = .ok (w.move row col).2 (w.move row col).1 := rfl
  rw [movecursorCallback, bind_ok hmove]
  cases (w.move row col).2 <;> exact ⟨_, rfl⟩

/-- **A call into libvterm**: the rectangles are painted, or some cell of them is
    read beyond its end; then the cursor is moved, if it is reported. -/
theorem vtermCall_goes {call : V → V × List VTermRect × Bool} {s : Display V}
    (hon : ∀ rect ∈ (call s.vterm).2.1, rect.On (lib.screen (call s.vterm).1)) :
    WrongIff (lib.update (call s.vterm)).Overlong (vtermCall lib cs setcchar call) s fun _ s' =>
      s'.vterm = (call s.vterm).1 ∧ ∃ w₁ : Window, w₁.SameSize s.window ∧
        (w₁.y = s.window.y ∧ w₁.x = s.window.x) ∧
        ((lib.update (call s.vterm)).Paintable cs setcchar →
          Painted ((lib.screen (call s.vterm).1).glyphs setcchar)
            (fun r c => ∃ rect ∈ (call s.vterm).2.1, rect.Has r c) s.window w₁) ∧
        s'.window = if (call s.vterm).2.2 then
          (w₁.move (lib.screen (call s.vterm).1).row (lib.screen (call s.vterm).1).col).1 else w₁ := by
  refine WrongIff.step (get_apply s) (WrongIff.step (modify_apply _ s) ?_)
  refine (damages_display hon { s with vterm := (call s.vterm).1 }).bind_yields ?_
  rintro _ s₁ ⟨hv, hsize, hcursor, hpainted⟩
  have hpaintable : (lib.update (call s.vterm)).Paintable cs setcchar → _ := fun h => hpainted h.2
  by_cases hmoved : (call s.vterm).2.2 = true
  · -- the cursor is reported
    simp only [if_pos hmoved]
    obtain ⟨ret, hmove⟩ := movecursorCallback_eq (lib.screen (call s.vterm).1).row
      (lib.screen (call s.vterm).1).col s₁.window
    exact Yields.step (zoom_ok (l := displayWindow) hmove)
      (.pure ⟨hv, s₁.window, hsize, hcursor, hpaintable, rfl⟩)
  · simp only [if_neg hmoved]
    exact .pure ⟨hv, s₁.window, hsize, hcursor, hpaintable, rfl⟩

end Calls

/-! ### When the run goes wrong. -/

section Wrong

variable {V : Type} {lib : ScreenLayer V} {cs : Columns} {setcchar : Setcchar}

/-- A call leaves the width of the window. -/
theorem vtermCall_cols (call : V → V × List VTermRect × Bool) {s : Display V} {v : V}
    (hs : s.vterm = v) (hon : ∀ rect ∈ (call v).2.1, rect.On (lib.screen (call v).1)) :
    WrongIff (lib.update (call v)).Overlong (vtermCall lib cs setcchar call) s fun _ s' =>
      s'.vterm = (call v).1 ∧ s'.window.cols = s.window.cols := by
  subst hs
  refine (vtermCall_goes hon).mono ?_
  rintro _ s' ⟨hv, w₁, hsize, -, -, hw⟩
  refine ⟨hv, ?_⟩
  rw [hw]
  split
  · exact ((move_same w₁ _ _).1.trans hsize).2
  · exact hsize.2

theorem ifResized_goes {s : Display V} (hsize : s.window.cols < 65536) (resized : Option TermSize) :
    WrongIff (∃ u ∈ (lib.resizes s.vterm resized).2, u.Overlong) (ifResized lib cs setcchar resized) s
      fun _ s' => s'.vterm = (lib.resizes s.vterm resized).1 ∧ s'.window.cols < 65536 := by
  cases resized with
  | none => exact (WrongIff.of_yields (.pure ⟨rfl, hsize⟩)).congr (by simp [ScreenLayer.resizes])
  | some size =>
    have hboth : (lib.update (lib.flush s.vterm)).Overlong ∨
        (lib.update (lib.setSize (lib.flush s.vterm).1 (size.rows - 1) size.cols)).Overlong ↔
        ∃ u ∈ (lib.resizes s.vterm (some size)).2, u.Overlong := by
      simp [ScreenLayer.resizes]
    refine ((vtermCall_cols _ rfl (lib.flush_reports s.vterm).1.on).bind ?_).congr hboth
    rintro _ s₁ ⟨hv, -⟩
    refine WrongIff.step (modify_apply _ s₁) (WrongIff.step (modify_apply _ _)
      (WrongIff.step (modify_apply _ _) (WrongIff.step (get_apply _) ?_)))
    obtain ⟨htwo, hmax⟩ := size.rows_le
    obtain ⟨hpos, hmax'⟩ := size.cols_le
    -- the fields of `wsize` are wide enough
    have hws_row : (size.rows % 65536 + 65535) % 65536 = size.rows - 1 := by omega
    have hws_col : size.cols % 65536 = size.cols := by omega
    obtain ⟨hreports, -⟩ := lib.setSize_reports s₁.vterm (size.rows - 1) size.cols (by omega) hpos
    have hon : ∀ rect ∈ (lib.setSize s₁.vterm (size.rows - 1) size.cols).2.1,
        rect.On (lib.screen (lib.setSize s₁.vterm (size.rows - 1) size.cols).1) := hreports.on
    simp only [Window.resize, hws_row, hws_col, ← hv]
    refine (vtermCall_cols (fun v => lib.setSize v (size.rows - 1) size.cols) ?_ hon).mono ?_
    · rfl
    · rintro _ s' ⟨hv', hcols⟩
      refine ⟨?_, ?_⟩
      · rw [hv', ScreenLayer.resizes, ← hv]
      · rw [hcols]
        exact hmax'

theorem ifOutput_goes {s : Display V} (hsize : s.window.cols < 65536) (output : Option (List Byte)) :
    WrongIff (∃ u ∈ (lib.outputs s.vterm output).2, u.Overlong) (ifOutput lib cs setcchar output) s
      fun _ s' => s'.vterm = (lib.outputs s.vterm output).1 ∧ s'.window.cols < 65536 := by
  cases output with
  | none => exact (WrongIff.of_yields (.pure ⟨rfl, hsize⟩)).congr (by simp [ScreenLayer.outputs])
  | some bytes =>
    have hcall : WrongIff (lib.update (lib.input s.vterm bytes)).Overlong
        (vtermCall lib cs setcchar fun v => lib.input v bytes) s fun _ s' =>
          s'.vterm = (lib.input s.vterm bytes).1 ∧ s'.window.cols = s.window.cols :=
      vtermCall_cols (fun v => lib.input v bytes) rfl (lib.input_reports s.vterm bytes).1.on
    exact (hcall.mono fun _ s' ⟨hv, hcols⟩ => ⟨hv, hcols ▸ hsize⟩).congr
      (by simp [ScreenLayer.outputs])

/-- The status bar goes wrong without memory. -/
theorem statusBar_goes {s : Display V} (hsize : s.window.cols < 65536)
    (malloc : Option (Nat → Byte)) :
    WrongIff (malloc = none) (zoom displayWindow (statusBar cs malloc)) s fun _ s' =>
      s'.vterm = s.vterm ∧ s'.window.cols < 65536 := by
  cases malloc with
  | none => exact ⟨fun _ => (statusBar_undefined cs s.window).zoom, fun h => absurd rfl h⟩
  | some junk =>
    refine ⟨nofun, fun _ => Yields.zoom ((statusBar_yields cs junk s.window (by omega)).mono ?_)⟩
    rintro _ w' ⟨hpainted, -⟩
    have hcols : w'.cols = s.window.cols := hpainted.cols
    exact ⟨rfl, hcols ▸ hsize⟩

/-- **One pass.** -/
theorem screenPass_goes {s : Display V} (hsize : s.window.cols < 65536) (p : ScreenTurn) :
    WrongIff ((∃ u ∈ (lib.turn s.vterm p).2, u.Overlong) ∨ p.malloc = none)
      (screenPass lib cs setcchar p) s fun _ s' =>
        s'.vterm = (lib.turn s.vterm p).1 ∧ s'.window.cols < 65536 := by
  have hthree : (∃ u ∈ (lib.resizes s.vterm p.resized).2, u.Overlong) ∨ p.malloc = none ∨
      (∃ u ∈ (lib.outputs (lib.resizes s.vterm p.resized).1 p.output).2, u.Overlong) ↔
      (∃ u ∈ (lib.turn s.vterm p).2, u.Overlong) ∨ p.malloc = none := by
    simp only [ScreenLayer.turn, List.mem_append, or_and_right, exists_or]
    exact (or_congr_right or_comm).trans or_assoc.symm
  refine ((ifResized_goes hsize p.resized).bind ?_).congr hthree
  rintro _ s₁ ⟨hv₁, hsize₁⟩
  refine (statusBar_goes hsize₁ p.malloc).bind ?_
  rintro _ s₂ ⟨hv₂, hsize₂⟩
  rw [← hv₁, ← hv₂]
  refine (ifOutput_goes hsize₂ p.output).bind_yields fun _ s₃ ⟨hv₃, hsize₃⟩ =>
    Yields.step (get_apply s₃) (.pure ⟨?_, hsize₃⟩)
  rw [hv₃, ScreenLayer.turn, ← hv₁, ← hv₂]

/-- **Run lemma.** -/
theorem screenPasses_goes : ∀ (ps : List ScreenTurn) {s : Display V}, s.window.cols < 65536 →
    WrongIff ((∃ u ∈ lib.terminal.out s.vterm ps, u.Overlong) ∨ ∃ p ∈ ps, p.malloc = none)
      (screenPasses lib cs setcchar ps) s fun _ _ => True
  | [], s, _ => (WrongIff.of_yields (.pure trivial)).congr (by simp)
  | p :: rest, s, hsize => by
      have hparts : ((∃ u ∈ (lib.turn s.vterm p).2, u.Overlong) ∨ p.malloc = none) ∨
          ((∃ u ∈ lib.terminal.out (lib.turn s.vterm p).1 rest, u.Overlong) ∨
            ∃ q ∈ rest, q.malloc = none) ↔
          (∃ u ∈ lib.terminal.out s.vterm (p :: rest), u.Overlong) ∨
            ∃ q ∈ p :: rest, q.malloc = none := by
        show _ ↔ (∃ u ∈ (lib.turn s.vterm p).2 ++ _, u.Overlong) ∨ _
        rw [List.exists_mem_cons_iff]
        simp only [List.mem_append, or_and_right, exists_or]
        exact or_or_or_comm
      refine ((screenPass_goes hsize p).bind ?_).congr hparts
      rintro frame s₁ ⟨hv₁, hsize₁⟩
      rw [← hv₁]
      exact (screenPasses_goes rest hsize₁).bind_yields fun _ _ _ => .pure trivial

end Wrong

section Showing

variable {V : Type} {lib : ScreenLayer V} {cs : Columns} {setcchar : Setcchar}

end Showing

/-- **THE TWO WAYS THE DISPLAY GOES WRONG.**  For every terminal library that
reports rectangles of its screen, every size of the terminal from two rows on
and every run of passes: the run has undefined behaviour if and only if in some
pass `malloc` gives no memory for the status bar — the check of the block is
commented out —, or a cell is reported whose characters fill their array, and
`setcchar` reads on behind it. -/
theorem display_undefined_iff {V : Type} (lib : ScreenLayer V) (cs : Columns) (setcchar : Setcchar)
    (size : TermSize) (ps : List ScreenTurn) :
    Undefined (screenPasses lib cs setcchar ps) (Display.start lib size) ↔
      (∃ u ∈ lib.terminal.out (Display.start lib size).vterm ps, u.Overlong) ∨
        ∃ p ∈ ps, p.malloc = none :=
  (screenPasses_goes ps (s := Display.start lib size) size.cols_le.2).undefined_iff

/-- It shows the last byte written, at the top left. -/
structure OneCell where
  rows : Nat
  cols : Nat
  pos : 0 < rows ∧ 0 < cols
  last : Byte

def OneCell.screen (v : OneCell) : VTermScreen where
  rows := v.rows
  cols := v.cols
  cell r c := if r = 0 ∧ c = 0 then { chars := [v.last.setWidth 32, 0] } else { chars := [0] }
  row := 0
  col := 0

/-- It reports the whole screen each time. -/
def OneCell.all (v : OneCell) : List VTermRect := [⟨0, v.rows, 0, v.cols⟩]

theorem OneCell.reports (v w : OneCell) : Update.Reports ⟨v.screen, v.all, false⟩ w.screen where
  on := by
    intro rect hmem
    cases List.mem_singleton.mp hmem
    exact ⟨⟨Int.le_refl 0, Int.le_refl _⟩, Int.le_refl 0, Int.le_refl _⟩
  covered := by
    intro r c hr hc
    refine .inl ⟨_, List.mem_singleton.mpr rfl, ⟨?_, ?_⟩, ?_, ?_⟩
    · exact Int.natCast_nonneg r
    · exact Int.ofNat_lt.mpr hr
    · exact Int.natCast_nonneg c
    · exact Int.ofNat_lt.mpr hc
  cursor := .inr ⟨rfl, rfl⟩
  inside := v.pos

end Prom.Shell
