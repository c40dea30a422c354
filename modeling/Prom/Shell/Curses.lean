/-
  Prom.Shell.Curses — a curses window as a grid of glyphs with a cursor.

  A window has at least one row and one column, and its cursor is inside it:
  both are part of the type.  Writing a glyph puts it under the cursor and
  moves the cursor on, at the end of a line to the next one; in the last
  corner there is no place to go, which curses reports as an error after the
  glyph is put.

  A glyph may take one column, or two, or none.  What curses does with one
  column is described here; what it does with the others is a parameter, of
  which only is known that the window keeps its size.

  What a window shows is described cell by cell: `Painted g? P w w'` says that
  `w'` is `w` with the glyphs `g?` put on the cells of `P`.

  Main results:
    * `Painted.trans`, `Painted.mono` — painting one region after another.
    * `addWch_painted` — one glyph of one column.
    * `addChars_painted` — a run of such glyphs that fits into its line.
-/
import Mathlib.Algebra.Ring.Nat
import Mathlib.Data.List.Basic
import Mathlib.Tactic.Common

namespace Prom.Curses

/-! ## §1. Windows. -/

/-- A wide character. -/
abbrev Wchar := BitVec 32

/-- What one cell holds: a spacing character with what combines with it, the
    attributes and the colour pair. -/
structure Glyph where
  text : List Wchar
  attr : BitVec 32
  pair : Nat
  deriving Repr, DecidableEq

/-- A blank cell. -/
def Glyph.blank : Glyph := ⟨[32], 0, 0⟩

/-- A window with its cursor inside. -/
structure Window where
  rows : Nat
  cols : Nat
  cells : Nat → Nat → Glyph
  y : Nat
  x : Nat
  y_lt : y < rows
  x_lt : x < cols

/-- `initscr()` on a terminal of this size. -/
def Window.init (rows cols : Nat) (hrows : 0 < rows) (hcols : 0 < cols) : Window :=
  ⟨rows, cols, fun _ _ => .blank, 0, 0, hrows, hcols⟩

/-- `move(row, col)`: false is `ERR`. -/
def Window.move (w : Window) (row col : Int) : Window × Bool :=
  if h : (0 ≤ row ∧ row < w.rows) ∧ 0 ≤ col ∧ col < w.cols then
    ({ w with y := row.toNat, x := col.toNat, y_lt := by omega, x_lt := by omega }, true)
  else (w, false)

/-- A glyph under the cursor. -/
def Window.put (w : Window) (g : Glyph) : Window :=
  { w with cells := fun r c => if r = w.y ∧ c = w.x then g else w.cells r c }

/-- The cursor moves on; false when there is no place to go. -/
def Window.advance (w : Window) : Window × Bool :=
  if hx : w.x + 1 < w.cols then ({ w with x := w.x + 1, x_lt := hx }, true)
  else if hy : w.y + 1 < w.rows then
    ({ w with y := w.y + 1, y_lt := hy, x := 0, x_lt := Nat.zero_lt_of_lt w.x_lt }, true)
  else (w, false)

/-- The window has the size of another one. -/
def Window.SameSize (w w' : Window) : Prop := w.rows = w'.rows ∧ w.cols = w'.cols

theorem Window.SameSize.trans {w w' w'' : Window} (h : w.SameSize w') (h' : w'.SameSize w'') :
    w.SameSize w'' :=
  ⟨h.1.trans h'.1, h.2.trans h'.2⟩

/-- Which glyphs take one column, and what curses does with the others: one of
    two columns fills two cells, one that cannot be printed is spelt out. -/
structure Columns where
  narrow : Glyph → Bool
  other : Window → Glyph → Window × Bool
  other_size : ∀ w g, (other w g).1.SameSize w
  /-- The printable ASCII characters take one column. -/
  ascii : ∀ (c : Wchar) (attr : BitVec 32) (pair : Nat), 32 ≤ c.toNat → c.toNat < 127 →
    narrow ⟨[c], attr, pair⟩ = true

/-- `add_wch(&cch)`. -/
def Window.addWch (cs : Columns) (w : Window) (g : Glyph) : Window × Bool :=
  if cs.narrow g then (w.put g).advance else cs.other w g

/-- `addstr(str)`: it ends at the first glyph that cannot be followed. -/
def Window.addChars (cs : Columns) : Window → List Glyph → Window × Bool
  | w, [] => (w, true)
  | w, g :: gs =>
    match w.addWch cs g with
    | (w, true) => w.addChars cs gs
    | (w, false) => (w, false)

/-- The window after the terminal has got another size: what fits is kept, what
    is new is blank, the cursor is kept inside. -/
def Window.resize (w : Window) (rows cols : Nat) (hrows : 0 < rows) (hcols : 0 < cols) : Window where
  rows := rows
  cols := cols
  cells r c := if r < w.rows ∧ c < w.cols then w.cells r c else .blank
  y := if w.y < rows then w.y else rows - 1
  x := if w.x < cols then w.x else cols - 1
  y_lt := by split <;> omega
  x_lt := by split <;> omega

/-! ## §2. Painting. -/

/-- `w'` is `w` with the glyphs `g?` on the cells of `P`; where there is no
    glyph the cell is left alone. -/
structure Painted (g? : Nat → Nat → Option Glyph) (P : Nat → Nat → Prop) (w w' : Window) :
    Prop where
  rows : w'.rows = w.rows
  cols : w'.cols = w.cols
  done : ∀ r c g, r < w.rows → c < w.cols → P r c → g? r c = some g → w'.cells r c = g
  kept : ∀ r c, (¬ P r c ∨ g? r c = none) → w'.cells r c = w.cells r c

section Painting

variable {g? : Nat → Nat → Option Glyph} {P Q : Nat → Nat → Prop} {w w' w'' : Window}

theorem Painted.refl (h : ∀ r c, ¬ P r c) : Painted g? P w w :=
  ⟨rfl, rfl, fun r c _ _ _ hP => absurd hP (h r c), fun _ _ _ => rfl⟩

/-- One region after the other. -/
theorem Painted.trans (h : Painted g? P w w') (h' : Painted g? Q w' w'') :
    Painted g? (fun r c => P r c ∨ Q r c) w w'' := by
  refine ⟨h'.rows.trans h.rows, h'.cols.trans h.cols, fun r c g hr hc hPQ hg => ?_,
    fun r c hno => ?_⟩
  · by_cases hQ : Q r c
    · exact h'.done r c g (h.rows ▸ hr) (h.cols ▸ hc) hQ hg
    · rw [h'.kept r c (.inl hQ)]
      exact h.done r c g hr hc (hPQ.resolve_right hQ) hg
  · rw [h'.kept r c (hno.imp_left fun hn hQ => hn (.inr hQ)),
      h.kept r c (hno.imp_left fun hn hP => hn (.inl hP))]

/-- The same region in other words, as far as the window goes. -/
theorem Painted.mono (h : Painted g? P w w')
    (hsub : ∀ r c, P r c → Q r c) (hsup : ∀ r c, r < w.rows → c < w.cols → Q r c → P r c) :
    Painted g? Q w w' :=
  ⟨h.rows, h.cols, fun r c g hr hc hQ hg => h.done r c g hr hc (hsup r c hr hc hQ) hg,
    fun r c hno => h.kept r c (hno.imp_left fun hn hP => hn (hsub r c hP))⟩

/-- The cursor does not show. -/
theorem Painted.of_cells (h : Painted g? P w w') (hrows : w''.rows = w'.rows)
    (hcols : w''.cols = w'.cols) (hcells : w''.cells = w'.cells) : Painted g? P w w'' :=
  ⟨hrows.trans h.rows, hcols.trans h.cols, fun r c => hcells ▸ h.done r c,
    fun r c => hcells ▸ h.kept r c⟩

end Painting

/-! ### What the operations do. -/

theorem move_inside {w : Window} {r c : Nat} (hr : r < w.rows) (hc : c < w.cols) :
    w.move r c = ({ w with y := r, x := c, y_lt := hr, x_lt := hc }, true) := by
  rw [Window.move, dif_pos ⟨⟨Int.natCast_nonneg r, Int.ofNat_lt.mpr hr⟩,
    Int.natCast_nonneg c, Int.ofNat_lt.mpr hc⟩]
  rfl

theorem move_outside {w : Window} {row col : Int}
    (h : ¬ ((0 ≤ row ∧ row < w.rows) ∧ 0 ≤ col ∧ col < w.cols)) : w.move row col = (w, false) :=
  dif_neg h

theorem move_same (w : Window) (row col : Int) :
    (w.move row col).1.SameSize w ∧ (w.move row col).1.cells = w.cells := by
  unfold Window.move
  split <;> exact ⟨⟨rfl, rfl⟩, rfl⟩

/-- The cursor alone moves. -/
theorem advance_same (w : Window) :
    w.advance.1.rows = w.rows ∧ w.advance.1.cols = w.cols ∧ w.advance.1.cells = w.cells := by
  unfold Window.advance
  split
  · exact ⟨rfl, rfl, rfl⟩
  · split <;> exact ⟨rfl, rfl, rfl⟩

section Adding

variable (cs : Columns)

/-- A glyph of whatever width leaves the size. -/
theorem addWch_size (w : Window) (g : Glyph) : (w.addWch cs g).1.SameSize w := by
  unfold Window.addWch
  split
  · obtain ⟨hrows, hcols, -⟩ := advance_same (w.put g)
    exact ⟨hrows, hcols⟩
  · exact cs.other_size w g

/-- One glyph, under the cursor. -/
theorem addWch_painted {g? : Nat → Nat → Option Glyph} (w : Window) {g : Glyph}
    (hnarrow : cs.narrow g = true) (hg : g? w.y w.x = some g) :
    Painted g? (fun r c => r = w.y ∧ c = w.x) w (w.addWch cs g).1 := by
  rw [Window.addWch, if_pos hnarrow]
  obtain ⟨hrows, hcols, hcells⟩ := advance_same (w.put g)
  have hput : Painted g? (fun r c => r = w.y ∧ c = w.x) w (w.put g) := by
    refine ⟨rfl, rfl, ?_, ?_⟩
    · rintro r c g' - - ⟨rfl, rfl⟩ hg'
      rw [hg] at hg'
      exact (if_pos ⟨rfl, rfl⟩).trans (Option.some.inj hg')
    · rintro r c (hno | hno)
      · exact if_neg hno
      · refine if_neg fun hat => ?_
        rw [hat.1, hat.2, hg] at hno
        cases hno
  exact hput.of_cells hrows hcols hcells

/-- The cursor after a glyph that does not end its line. -/
theorem addWch_next {w : Window} {g : Glyph} (hnarrow : cs.narrow g = true)
    (hx : w.x + 1 < w.cols) :
    (w.addWch cs g).2 = true ∧ (w.addWch cs g).1.y = w.y ∧ (w.addWch cs g).1.x = w.x + 1 := by
  have hnext : w.addWch cs g = ({ w.put g with x := w.x + 1, x_lt := hx }, true) := by
    rw [Window.addWch, if_pos hnarrow]
    exact dif_pos hx
  rw [hnext]
  exact ⟨rfl, rfl, rfl⟩

/-- A run of glyphs that fits into its line. -/
theorem addChars_painted {g? : Nat → Nat → Option Glyph} :
    ∀ (gs : List Glyph) (w : Window), (∀ g ∈ gs, cs.narrow g = true) → gs.length ≤ w.cols - w.x →
      (∀ i g, gs[i]? = some g → g? w.y (w.x + i) = some g) →
      Painted g? (fun r c => r = w.y ∧ w.x ≤ c ∧ c < w.x + gs.length) w (w.addChars cs gs).1
  | [], w, _, _, _ => .refl fun r c h => by
      have := h.2
      simp only [List.length_nil] at this
      omega
  | g :: gs, w, hnarrow, hfit, hg => by
      have hone := hnarrow g List.mem_cons_self
      have hhead := addWch_painted cs w hone (hg 0 g rfl)
      by_cases hx : w.x + 1 < w.cols
      · -- the rest goes on in the next column
        obtain ⟨hok, hy, hnext⟩ := addWch_next cs hone hx
        have hrest := addChars_painted gs (w.addWch cs g).1
          (fun g' hg' => hnarrow g' (List.mem_cons_of_mem _ hg'))
          (by rw [hnext, hhead.cols]; simp only [List.length_cons] at hfit; omega)
          (fun i g' hi => by
            rw [hy, hnext, Nat.add_assoc, Nat.add_comm 1 i]
            exact hg (i + 1) g' hi)
        rw [hy, hnext] at hrest
        have hrun : (w.addChars cs (g :: gs)).1 = ((w.addWch cs g).1.addChars cs gs).1 := by
          rw [Window.addChars]
          split
          · rename_i h
            rw [h]
          · rename_i h
            rw [h] at hok
            cases hok
        rw [hrun]
        refine (hhead.trans hrest).mono (fun r c h => ?_) fun r c _ _ h => ?_
        · simp only [List.length_cons]
          omega
        · simp only [List.length_cons] at h
          omega
      · -- the last column: this is the last glyph
        have hlast : gs = [] := by
          have := w.x_lt
          rw [← List.length_eq_zero_iff]
          simp only [List.length_cons] at hfit
          omega
        subst hlast
        have hrun : (w.addChars cs [g]).1 = (w.addWch cs g).1 := by
          rw [Window.addChars]
          split
          · rename_i h
            rw [h]
            rfl
          · rename_i h
            rw [h]
        rw [hrun]
        refine hhead.mono (fun r c h => ?_) fun r c _ _ h => ?_
        · simp only [List.length_cons, List.length_nil]
          omega
        · simp only [List.length_cons, List.length_nil] at h
          omega

end Adding

end Prom.Curses
