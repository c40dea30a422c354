/-
  Prom.C.Cell — what a byte of memory can hold.

  A cell of memory is indeterminate, a byte, or one of the eight fragments of
  a stored pointer.  A `size_t` is stored as its eight bytes, least
  significant first; a pointer as its eight fragments; a string as its bytes
  and a NUL.

  `slice` and `splice` are what reading and writing do to the cells of one
  block.

  Main results:
    * `decodeSize_encodeSize`, `decodePtr_encodePtr`, `cstr_strCells` — what
      was stored is what is read back.
    * `slice_middle`, `splice_middle` — reading and overwriting one part of a
      block made of parts.
-/
import Mathlib.Algebra.Ring.Nat
import Mathlib.Data.List.Basic
import Mathlib.Tactic.Common

namespace Prom.C

/-! ## §1. Values. -/

/-- A byte. -/
abbrev Byte := BitVec 8

/-- `size_t` of a 64-bit machine. -/
abbrev Size := BitVec 64

/-- What a pointer points into. -/
inductive Base where
  | null
  /-- A block of the heap. -/
  | heap (block : Nat)
  /-- A static object. -/
  | static (object : Nat)
  /-- Something only the system can look into: a directory stream, a loaded
      object, a function. -/
  | handle (id : Nat)
  deriving Repr, DecidableEq

/-- A pointer: a base and a distance in bytes from its start. -/
structure Ptr where
  base : Base
  off : Nat
  deriving Repr, DecidableEq

/-- `NULL`. -/
def Ptr.null : Ptr := ⟨.null, 0⟩

/-- `(char *)p + n`. -/
def Ptr.add (p : Ptr) (n : Nat) : Ptr := ⟨p.base, p.off + n⟩

@[simp] theorem Ptr.add_zero (p : Ptr) : p.add 0 = p := rfl

/-- A cell of memory. -/
inductive Cell where
  /-- Indeterminate. -/
  | undef
  | byte (b : Byte)
  /-- The `k`-th byte of a stored pointer. -/
  | frag (p : Ptr) (k : Nat)
  deriving Repr, DecidableEq

/-- The byte in a cell, when it holds one. -/
def Cell.byte? : Cell → Option Byte
  | .byte b => some b
  | _ => none

/-! ## §2. Numbers. -/

/-- The low `width` bytes of `n`, least significant first. -/
def toBytes : (width : Nat) → Nat → List Byte
  | 0, _ => []
  | width + 1, n => BitVec.ofNat 8 n :: toBytes width (n / 256)

/-- The number with these bytes, least significant first. -/
def ofBytes (bs : List Byte) : Nat := bs.foldr (fun b high => b.toNat + 256 * high) 0

@[simp] theorem length_toBytes (width n : Nat) : (toBytes width n).length = width := by
  induction width generalizing n with
  | zero => rfl
  | succ width ih => simp only [toBytes, List.length_cons, ih]

theorem ofBytes_toBytes {width n : Nat} (h : n < 256 ^ width) : ofBytes (toBytes width n) = n := by
  induction width generalizing n with
  | zero => exact (Nat.lt_one_iff.mp h).symm
  | succ width ih =>
    have hhigh : n / 256 < 256 ^ width := Nat.div_lt_of_lt_mul (by rwa [Nat.pow_succ'] at h)
    have hrest : ofBytes (toBytes width (n / 256)) = n / 256 := ih hhigh
    show (BitVec.ofNat 8 n).toNat + 256 * ofBytes (toBytes width (n / 256)) = n
    rw [hrest, BitVec.toNat_ofNat]
    omega

/-- The cells of a `size_t`. -/
def encodeSize (n : Size) : List Cell := (toBytes 8 n.toNat).map .byte

/-- Read a `size_t`. -/
def decodeSize (cells : List Cell) : Option Size :=
  if cells.length = 8 then (cells.mapM Cell.byte?).map fun bs => BitVec.ofNat 64 (ofBytes bs)
  else none

@[simp] theorem length_encodeSize (n : Size) : (encodeSize n).length = 8 := by
  simp only [encodeSize, List.length_map, length_toBytes]

theorem mapM_byte? (bs : List Byte) : (bs.map Cell.byte).mapM Cell.byte? = some bs := by
  induction bs with
  | nil => rfl
  | cons b bs ih => simp only [List.map_cons, List.mapM_cons, Cell.byte?, ih]; rfl

@[simp] theorem decodeSize_encodeSize (n : Size) : decodeSize (encodeSize n) = some n := by
  rw [decodeSize, if_pos (length_encodeSize n), encodeSize, mapM_byte?, Option.map_some,
    ofBytes_toBytes (show n.toNat < 256 ^ 8 from n.isLt), BitVec.ofNat_toNat, BitVec.setWidth_eq]

/-! ## §3. Pointers. -/

/-- The cells of a pointer. -/
def encodePtr (p : Ptr) : List Cell := (List.range 8).map (.frag p)

/-- Read a pointer: its eight fragments, in order. -/
def decodePtr : List Cell → Option Ptr
  | .frag p 0 :: rest => if .frag p 0 :: rest = encodePtr p then some p else none
  | _ => none

@[simp] theorem length_encodePtr (p : Ptr) : (encodePtr p).length = 8 := by
  simp only [encodePtr, List.length_map, List.length_range]

@[simp] theorem decodePtr_encodePtr (p : Ptr) : decodePtr (encodePtr p) = some p :=
  if_pos rfl

/-! ## §4. Strings. -/

/-- A C string: bytes other than NUL. -/
structure CStr where
  bytes : List Byte
  noNul : 0 ∉ bytes
  deriving DecidableEq

theorem CStr.ext {s t : CStr} (h : s.bytes = t.bytes) : s = t := by
  cases s
  cases t
  cases h
  rfl

/-- `strlen`. -/
def CStr.length (s : CStr) : Nat := s.bytes.length

/-- Concatenation. -/
def CStr.append (s t : CStr) : CStr :=
  ⟨s.bytes ++ t.bytes, fun h => (List.mem_append.mp h).elim s.noNul t.noNul⟩

@[simp] theorem CStr.bytes_append (s t : CStr) : (s.append t).bytes = s.bytes ++ t.bytes := rfl

@[simp] theorem CStr.length_append (s t : CStr) : (s.append t).length = s.length + t.length :=
  List.length_append

/-- The cells of a string, its NUL included. -/
def strCells (s : CStr) : List Cell := s.bytes.map .byte ++ [.byte 0]

@[simp] theorem length_strCells (s : CStr) : (strCells s).length = s.length + 1 := by
  simp only [strCells, CStr.length, List.length_append, List.length_map, List.length_singleton]

/-- Read the bytes up to the first NUL. -/
def cstrBytes : List Cell → Option (List Byte)
  | .byte b :: rest => if b = 0 then some [] else (cstrBytes rest).map (b :: ·)
  | _ => none

theorem cstrBytes_noNul {cells : List Cell} {bs : List Byte} (h : cstrBytes cells = some bs) :
    0 ∉ bs := by
  induction cells generalizing bs with
  | nil => simp only [cstrBytes, reduceCtorEq] at h
  | cons c cells ih =>
    cases c with
    | undef => simp only [cstrBytes, reduceCtorEq] at h
    | frag p k => simp only [cstrBytes, reduceCtorEq] at h
    | byte b =>
      simp only [cstrBytes] at h
      split at h
      · cases h
        exact List.not_mem_nil
      · rename_i hb
        obtain ⟨rest, hrest, rfl⟩ := Option.map_eq_some_iff.mp h
        exact fun hmem => (List.mem_cons.mp hmem).elim (fun h0 => hb h0.symm) (ih hrest)

/-- Read a string. -/
def cstr (cells : List Cell) : Option CStr :=
  match h : cstrBytes cells with
  | some bs => some ⟨bs, cstrBytes_noNul h⟩
  | none => none

theorem cstrBytes_strCells (s : CStr) (rest : List Cell) :
    cstrBytes (strCells s ++ rest) = some s.bytes := by
  obtain ⟨bs, hbs⟩ := s
  simp only [strCells]
  induction bs with
  | nil => rfl
  | cons b bs ih =>
    have hb : b ≠ 0 := fun h => hbs (h ▸ List.mem_cons_self)
    have hrest : 0 ∉ bs := fun h => hbs (List.mem_cons_of_mem b h)
    simp only [List.map_cons, List.cons_append, cstrBytes, if_neg hb]
    rw [ih hrest, Option.map_some]

@[simp] theorem cstr_strCells (s : CStr) (rest : List Cell) :
    cstr (strCells s ++ rest) = some s := by
  have h := cstrBytes_strCells s rest
  unfold cstr
  split
  · rename_i bs hbs
    rw [h] at hbs
    cases hbs
    rfl
  · rename_i hnone
    rw [h] at hnone
    cases hnone

/-! ## §5. Parts of a block. -/

/-- `n` cells from offset `off` on. -/
def slice (cells : List Cell) (off n : Nat) : List Cell := (cells.drop off).take n

/-- The cells with `new` written at offset `off`. -/
def splice (cells : List Cell) (off : Nat) (new : List Cell) : List Cell :=
  cells.take off ++ new ++ cells.drop (off + new.length)

theorem length_splice {cells : List Cell} {off : Nat} {new : List Cell}
    (h : off + new.length ≤ cells.length) : (splice cells off new).length = cells.length := by
  simp only [splice, List.length_append, List.length_take, List.length_drop]
  omega

/-- A write leaves what lies below it. -/
theorem slice_splice_below {cells new : List Cell} {off lo n : Nat}
    (h : off + new.length ≤ cells.length) (hlo : lo + n ≤ off) :
    slice (splice cells off new) lo n = slice cells lo n := by
  have hdrop : (splice cells off new).drop lo =
      (cells.take off).drop lo ++ (new ++ cells.drop (off + new.length)) := by
    rw [splice, List.append_assoc, List.drop_append_of_le_length (by rw [List.length_take]; omega)]
  have htake : ((cells.take off).drop lo).length = off - lo := by
    rw [List.length_drop, List.length_take]
    omega
  rw [slice, hdrop, List.take_append_of_le_length (by omega), slice, List.drop_take, List.take_take,
    Nat.min_eq_left (by omega)]

/-- A write leaves what lies above it. -/
theorem slice_splice_above {cells new : List Cell} {off lo n : Nat}
    (h : off + new.length ≤ cells.length) (hlo : off + new.length ≤ lo) :
    slice (splice cells off new) lo n = slice cells lo n := by
  have hfront : (cells.take off ++ new).length = off + new.length := by
    rw [List.length_append, List.length_take]
    omega
  have hdrop : (splice cells off new).drop lo = cells.drop lo := by
    rw [splice, List.drop_append, List.drop_eq_nil_of_le (by omega), List.nil_append, hfront,
      List.drop_drop]
    congr 1
    omega
  rw [slice, hdrop, slice]

/-- Reading a part at its own place. -/
theorem slice_middle (front mid back : List Cell) {cells : List Cell} {off n : Nat}
    (h : cells = front ++ mid ++ back) (hoff : front.length = off) (hn : mid.length = n) :
    slice cells off n = mid := by
  subst h hoff hn
  rw [slice, List.append_assoc, List.drop_left, List.take_left]

/-- Overwriting a part with one of the same length. -/
theorem splice_middle (front mid back : List Cell) {cells new : List Cell} {off : Nat}
    (h : cells = front ++ mid ++ back) (hoff : front.length = off) (hn : mid.length = new.length) :
    splice cells off new = front ++ new ++ back := by
  subst h hoff
  rw [splice, ← hn, ← List.drop_drop, List.append_assoc front mid, List.take_left, List.drop_left,
    List.drop_left]

/-- A write shows at its own place. -/
theorem slice_splice_same {cells new : List Cell} {off : Nat}
    (h : off + new.length ≤ cells.length) : slice (splice cells off new) off new.length = new := by
  have hfront : (cells.take off).length = off := by
    rw [List.length_take]
    omega
  exact slice_middle (cells.take off) new (cells.drop (off + new.length)) rfl hfront rfl

/-- Reading a part of a part. -/
theorem slice_slice (cells : List Cell) (off : Nat) {n k m : Nat} (h : k + m ≤ n) :
    slice (slice cells off n) k m = slice cells (off + k) m := by
  rw [slice, slice, slice, List.drop_take, List.take_take, List.drop_drop, Nat.min_eq_left (by omega)]

/-- Reading behind a front part. -/
theorem slice_append_right (front back : List Cell) (off n : Nat) :
    slice (front ++ back) (front.length + off) n = slice back off n := by
  rw [slice, slice, ← List.drop_drop, List.drop_left]

/-- Writing behind a front part. -/
theorem splice_append_right (front back : List Cell) (off : Nat) (new : List Cell) :
    splice (front ++ back) (front.length + off) new = front ++ splice back off new := by
  rw [splice, splice, List.take_length_add_append, Nat.add_assoc, ← List.drop_drop, List.drop_left]
  simp only [List.append_assoc]

/-! ## §6. Arrays of equally wide elements. -/

/-- `n` cells nobody has written to. -/
def fresh (n : Nat) : List Cell := List.replicate n .undef

@[simp] theorem length_fresh (n : Nat) : (fresh n).length = n := List.length_replicate

/-- A part cut to `n` cells, or filled up to `n` with indeterminate ones. -/
def resized (cells : List Cell) (n : Nat) : List Cell := cells.take n ++ fresh (n - cells.length)

@[simp] theorem length_resized (cells : List Cell) (n : Nat) : (resized cells n).length = n := by
  simp only [resized, List.length_append, List.length_take, length_fresh]
  omega

section Elements

variable {w : Nat} {elems : List (List Cell)}

theorem length_elements (hw : ∀ e ∈ elems, e.length = w) :
    elems.flatten.length = w * elems.length := by
  induction elems with
  | nil => rfl
  | cons e es ih =>
    rw [List.flatten_cons, List.length_append, ih fun e' he' => hw e' (List.mem_cons_of_mem e he'),
      hw e List.mem_cons_self, List.length_cons, Nat.mul_succ, Nat.add_comm]

/-- An array cut before and behind one element. -/
theorem elements_split (hw : ∀ e ∈ elems, e.length = w) {i : Nat} {e : List Cell}
    (hi : elems[i]? = some e) :
    elems.flatten = (elems.take i).flatten ++ e ++ (elems.drop (i + 1)).flatten ∧
      (elems.take i).flatten.length = w * i := by
  obtain ⟨hlt, rfl⟩ := List.getElem?_eq_some_iff.mp hi
  constructor
  · rw [List.append_assoc, ← List.flatten_cons, ← List.drop_eq_getElem_cons hlt,
      ← List.flatten_append, List.take_append_drop]
  · rw [length_elements fun e he => hw e (List.mem_of_mem_take he), List.length_take,
      Nat.min_eq_left (Nat.le_of_lt hlt)]

theorem slice_elements (hw : ∀ e ∈ elems, e.length = w) {i : Nat} {e : List Cell}
    (hi : elems[i]? = some e) : slice elems.flatten (w * i) w = e := by
  obtain ⟨hsplit, hlen⟩ := elements_split hw hi
  exact slice_middle _ e _ hsplit hlen (hw e (List.mem_of_getElem? hi))

theorem splice_elements (hw : ∀ e ∈ elems, e.length = w) {i : Nat} {e new : List Cell}
    (hi : elems[i]? = some e) (hnew : new.length = w) :
    splice elems.flatten (w * i) new = (elems.set i new).flatten := by
  obtain ⟨hsplit, hlen⟩ := elements_split hw hi
  have hlt : i < elems.length := (List.getElem?_eq_some_iff.mp hi).1
  rw [splice_middle _ e _ hsplit hlen ((hw e (List.mem_of_getElem? hi)).trans hnew.symm),
    List.set_eq_take_append_cons_drop, if_pos hlt, List.flatten_append, List.flatten_cons,
    List.append_assoc]

theorem resized_elements (hw : ∀ e ∈ elems, e.length = w) (m : Nat) :
    resized elems.flatten (w * m) =
      (elems.take m ++ List.replicate (m - elems.length) (fresh w)).flatten := by
  have hfresh : ∀ k, (List.replicate k (fresh w)).flatten = fresh (w * k) := by
    intro k
    rw [fresh, fresh, List.flatten_replicate_replicate, Nat.mul_comm]
  -- the elements are cut element by element, so this needs its own induction
  have htake : ∀ es : List (List Cell), (∀ e ∈ es, e.length = w) → ∀ k,
      es.flatten.take (w * k) = (es.take k).flatten := by
    intro es
    induction es with
    | nil => intro _ k; simp only [List.flatten_nil, List.take_nil]
    | cons e es ih =>
      intro hes k
      have he : e.length = w := hes e List.mem_cons_self
      cases k with
      | zero => rfl
      | succ k =>
        rw [List.take_succ_cons, List.flatten_cons, List.flatten_cons, Nat.mul_succ, Nat.add_comm,
          ← he, List.take_length_add_append, he, ih (fun e' he' => hes e' (List.mem_cons_of_mem e he'))]
  rw [resized, htake elems hw m, length_elements hw, ← Nat.mul_sub, List.flatten_append, hfresh]

end Elements

end Prom.C
