/-
  Prom.Dga.Array — the functions of src/dga/dga.c on the heap.

  A dga array is a block that starts with a header of three `size_t`

      offset   0     8     16    24
               len   cap   szt   elements ...

  and the pointer the caller holds points behind the header.  `cap` is never
  written.  All sizes are computed modulo 2^64.

  Each function has an equation for a granted request, and `_dga_new` and
  `_dga_resize` have one for a refused one; nothing later unfolds the functions
  themselves.

  Main results:
    * `dgaNew_granted`, `dgaResize_granted`, `dgaDup_granted`, `dgaFree_eq`
    * `dgaNew_denied`, `dgaResize_denied`
    * `dgaNew_overrun` — a request that wrapped below the header's size makes
      `_dga_new` write outside its block.
-/
import Prom.C.Heap

namespace Prom.Dga

open Prom.C Exec Heap

/-! ## §1. The source. -/

/-- `sizeof(struct dga_header)`. -/
def headerSize : Nat := 24

/-- `_dga_header(arr)`. -/
def dgaHeader (arr : Ptr) : Exec Heap Ptr := ptrSub arr headerSize

/-- `h->len`. -/
def lenField (h : Ptr) : Ptr := h

/-- `h->szt`. -/
def sztField (h : Ptr) : Ptr := h.add 16

/-- `sizeof(struct dga_header) + szt * len`, modulo 2^64. -/
def allocBytes (szt len : Size) : Size := 24 + szt * len

/-- `_dga_new(n, obj_size)`.  The pointer behind the header is returned also
    when there is no header. -/
def dgaNew (n objSize : Size) : Exec Heap Ptr := do
  let allocSize := allocBytes objSize n
  let h ← malloc allocSize.toNat
  if h ≠ .null then
    storeSize (lenField h) n
    storeSize (sztField h) objSize
  pure (h.add headerSize)

/-- `dga_len(arr)`. -/
def dgaLen (arr : Ptr) : Exec Heap Size := do
  let h ← dgaHeader arr
  loadSize (lenField h)

/-- `dga_resize(arr, new_size)`.  The length is written before the block is
    resized. -/
def dgaResize (arr : Ptr) (newSize : Size) : Exec Heap Ptr := do
  let h ← dgaHeader arr
  storeSize (lenField h) newSize
  let szt ← loadSize (sztField h)
  let len ← loadSize (lenField h)
  let allocSize := allocBytes szt len
  -- if this fails the header keeps the new length
  let tmp ← realloc h allocSize.toNat
  if tmp ≠ .null then pure (tmp.add headerSize) else pure tmp

/-- `dga_grow(arr, n)`. -/
def dgaGrow (arr : Ptr) (n : Size) : Exec Heap Ptr := do
  dgaResize arr ((← dgaLen arr) + n)

/-- `dga_shrink(arr, n)`. -/
def dgaShrink (arr : Ptr) (n : Size) : Exec Heap Ptr := do
  dgaResize arr ((← dgaLen arr) - n)

/-- `dga_free(arr)`. -/
def dgaFree (arr : Ptr) : Exec Heap Unit := do
  let h ← dgaHeader arr
  free h

/-- `dga_dup(arr)`. -/
def dgaDup (arr : Ptr) : Exec Heap Ptr := do
  let h ← dgaHeader arr
  let szt ← loadSize (sztField h)
  let len ← loadSize (lenField h)
  let size := allocBytes szt len
  let tmp ← malloc size.toNat
  if tmp ≠ .null then
    store tmp (← load h size.toNat)
    pure (tmp.add headerSize)
  else pure .null

/-! ## §2. Blocks with a header. -/

/-- The cells of a block with a header. -/
def blockCells (len : Size) (cap : List Cell) (szt : Size) (data : List Cell) : List Cell :=
  encodeSize len ++ cap ++ encodeSize szt ++ data

/-- Block `b` starts with a header. -/
structure Headed (h : Heap) (b : Nat) (len szt : Size) (cap data : List Cell) : Prop where
  at_ : h.At b (blockCells len cap szt data)
  cap8 : cap.length = 8

/-- The pointer a caller holds to the array in block `b`. -/
def arrayPtr (b : Nat) : Ptr := ⟨.heap b, headerSize⟩

theorem arrayPtr_ne_null (b : Nat) : arrayPtr b ≠ .null := heap_ne_null b headerSize

theorem length_blockCells {len szt : Size} {cap data : List Cell} (hcap : cap.length = 8) :
    (blockCells len cap szt data).length = headerSize + data.length := by
  simp only [blockCells, List.length_append, length_encodeSize, hcap, headerSize]

variable {h : Heap} {b : Nat} {len szt : Size} {cap data : List Cell}

theorem dgaHeader_eq (h : Heap) (b : Nat) : dgaHeader (arrayPtr b) h = .ok ⟨.heap b, 0⟩ h :=
  ptrSub_eq (Nat.le_refl headerSize) h

theorem loadSize_len (hb : Headed h b len szt cap data) :
    loadSize (lenField ⟨.heap b, 0⟩) h = .ok len h := by
  have hlen : (0 : Nat) + 8 ≤ (blockCells len cap szt data).length := by
    rw [length_blockCells hb.cap8, headerSize]
    omega
  have hslice : slice (blockCells len cap szt data) 0 8 = encodeSize len :=
    slice_middle [] (encodeSize len) (cap ++ encodeSize szt ++ data)
      (by simp only [blockCells, List.nil_append, List.append_assoc]) List.length_nil
      (length_encodeSize len)
  exact loadAs_eq hb.at_ hlen (by rw [hslice, decodeSize_encodeSize])

theorem loadSize_szt (hb : Headed h b len szt cap data) :
    loadSize (sztField ⟨.heap b, 0⟩) h = .ok szt h := by
  have hlen : (0 + 16 : Nat) + 8 ≤ (blockCells len cap szt data).length := by
    rw [length_blockCells hb.cap8, headerSize]
    omega
  have hslice : slice (blockCells len cap szt data) (0 + 16) 8 = encodeSize szt :=
    slice_middle (encodeSize len ++ cap) (encodeSize szt) data rfl
      (by simp only [List.length_append, length_encodeSize, hb.cap8])
      (length_encodeSize szt)
  exact loadAs_eq hb.at_ hlen (by rw [hslice, decodeSize_encodeSize])

/-- Writing the length changes nothing else of the block. -/
theorem storeSize_len (hb : Headed h b len szt cap data) (m : Size) :
    storeSize (lenField ⟨.heap b, 0⟩) m h = .ok () (h.put b (blockCells m cap szt data)) := by
  have hlen : (0 : Nat) + (encodeSize m).length ≤ (blockCells len cap szt data).length := by
    rw [length_blockCells hb.cap8, length_encodeSize, headerSize]
    omega
  have hsplice : splice (blockCells len cap szt data) 0 (encodeSize m) = blockCells m cap szt data := by
    rw [splice_middle [] (encodeSize len) (cap ++ encodeSize szt ++ data)
      (by simp only [blockCells, List.nil_append, List.append_assoc]) List.length_nil
      (by rw [length_encodeSize, length_encodeSize])]
    simp only [blockCells, List.nil_append, List.append_assoc]
  rw [storeSize, lenField, store_eq hb.at_ hlen, hsplice]

/-! ## §3. What each function does. -/

theorem dgaLen_eq (hb : Headed h b len szt cap data) : dgaLen (arrayPtr b) h = .ok len h := by
  rw [dgaLen, bind_ok (dgaHeader_eq h b)]
  exact loadSize_len hb

theorem dgaFree_eq (hb : Headed h b len szt cap data) :
    dgaFree (arrayPtr b) h = .ok () (h.release b) := by
  rw [dgaFree, bind_ok (dgaHeader_eq h b)]
  exact free_eq hb.at_

/-- The cells of a resized array: the new length, and the elements cut off or
    followed by indeterminate cells. -/
theorem resized_blockCells {len szt : Size} {cap data : List Cell} (hcap : cap.length = 8)
    (k : Nat) :
    resized (blockCells len cap szt data) (headerSize + k) =
      blockCells len cap szt (resized data k) := by
  have hfront : (encodeSize len ++ cap ++ encodeSize szt).length = headerSize := by
    simp only [List.length_append, length_encodeSize, hcap, headerSize]
  rw [resized, length_blockCells hcap, Nat.add_sub_add_left, blockCells, List.take_append, hfront,
    Nat.add_sub_cancel_left, List.take_of_length_le (by omega)]
  simp only [blockCells, resized, List.append_assoc]

/-- The state in which `dga_resize` asks for memory, and its answer. -/
theorem dgaResize_eq (hb : Headed h b len szt cap data) (m : Size) :
    dgaResize (arrayPtr b) m h =
      (do
        let tmp ← realloc ⟨.heap b, 0⟩ (allocBytes szt m).toNat
        if tmp ≠ .null then pure (tmp.add headerSize) else pure tmp : Exec Heap Ptr)
      (h.put b (blockCells m cap szt data)) := by
  have hb' : Headed (h.put b (blockCells m cap szt data)) b m szt cap data :=
    ⟨At_put_same hb.at_, hb.cap8⟩
  rw [dgaResize, bind_ok (dgaHeader_eq h b), bind_ok (storeSize_len hb m),
    bind_ok (loadSize_szt hb'), bind_ok (loadSize_len hb')]

/-- A granted `dga_resize` moves the array to a new block. -/
theorem dgaResize_granted (hb : Headed h b len szt cap data) (hg : h.Grants) (m : Size) :
    dgaResize (arrayPtr b) m h =
      .ok (arrayPtr h.blocks.length)
        ((h.release b).alloc (resized (blockCells m cap szt data) (allocBytes szt m).toNat)) := by
  have hput : (h.put b (blockCells m cap szt data)).At b (blockCells m cap szt data) :=
    At_put_same hb.at_
  rw [dgaResize_eq hb m, bind_ok (realloc_eq hput ((grants_put h b _).mpr hg) (allocBytes szt m).toNat),
    release_put, length_put, if_pos (heap_ne_null _ _)]
  rfl

/-- A refused `dga_resize` returns `NULL`; the length is written all the
    same. -/
theorem dgaResize_denied (hb : Headed h b len szt cap data) (hg : ¬h.Grants) (m : Size) :
    dgaResize (arrayPtr b) m h = .ok .null (h.put b (blockCells m cap szt data)).deny := by
  have hput : (h.put b (blockCells m cap szt data)).At b (blockCells m cap szt data) :=
    At_put_same hb.at_
  have hg' : ¬(h.put b (blockCells m cap szt data)).Grants := hg
  rw [dgaResize_eq hb m, bind_ok (realloc_denied hput hg' (allocBytes szt m).toNat)]
  rfl

theorem dgaGrow_eq (hb : Headed h b len szt cap data) (n : Size) :
    dgaGrow (arrayPtr b) n h = dgaResize (arrayPtr b) (len + n) h := by
  rw [dgaGrow, bind_ok (dgaLen_eq hb)]

theorem dgaShrink_eq (hb : Headed h b len szt cap data) (n : Size) :
    dgaShrink (arrayPtr b) n h = dgaResize (arrayPtr b) (len - n) h := by
  rw [dgaShrink, bind_ok (dgaLen_eq hb)]

/-- A new array whose request holds a header. -/
theorem dgaNew_granted {h : Heap} (hg : h.Grants) (n szt : Size) {k : Nat}
    (hk : (allocBytes szt n).toNat = headerSize + k) :
    dgaNew n szt h =
      .ok (arrayPtr h.blocks.length) (h.alloc (blockCells n (fresh 8) szt (fresh k))) := by
  -- the block as `malloc` leaves it, cut where the header's fields lie
  have hfresh : fresh (allocBytes szt n).toNat = [] ++ fresh 8 ++ (fresh 8 ++ fresh 8 ++ fresh k) := by
    simp only [hk, fresh, headerSize, List.nil_append, ← List.replicate_add]
    congr 1
    omega
  have hin : 0 + (encodeSize n).length ≤ (fresh (allocBytes szt n).toNat).length := by
    rw [length_fresh, hk, length_encodeSize, headerSize]
    omega
  have hsplice := splice_middle [] (fresh 8) (fresh 8 ++ fresh 8 ++ fresh k) hfresh List.length_nil
    (show (fresh 8).length = (encodeSize n).length by rw [length_fresh, length_encodeSize])
  -- the length goes into the first eight bytes, the element size into the third
  have hin' : 0 + 16 + (encodeSize szt).length ≤
      ([] ++ encodeSize n ++ (fresh 8 ++ fresh 8 ++ fresh k)).length := by
    simp only [List.length_append, List.length_nil, length_encodeSize, length_fresh]
    omega
  have hsplice' := splice_middle (encodeSize n ++ fresh 8) (fresh 8) (fresh k)
    (show [] ++ encodeSize n ++ (fresh 8 ++ fresh 8 ++ fresh k) = _ by
      simp only [List.nil_append, List.append_assoc])
    (show (encodeSize n ++ fresh 8).length = 0 + 16 by
      simp only [List.length_append, length_encodeSize, length_fresh])
    (show (fresh 8).length = (encodeSize szt).length by rw [length_fresh, length_encodeSize])
  have hlen : storeSize (lenField ⟨.heap h.blocks.length, 0⟩) n
      (h.alloc (fresh (allocBytes szt n).toNat)) = .ok () _ := store_alloc hin
  have hszt : storeSize (sztField ⟨.heap h.blocks.length, 0⟩) szt _ = .ok () _ := store_alloc hin'
  rw [dgaNew, bind_ok (malloc_eq hg (allocBytes szt n).toNat), if_pos (heap_ne_null _ _), bind_ok hlen,
    hsplice, bind_ok hszt, hsplice']
  rfl

/-- A new array whose request wrapped to less than a header. -/
theorem dgaNew_overrun {h : Heap} (hg : h.Grants) (n szt : Size)
    (hk : (allocBytes szt n).toNat < headerSize) : ∃ h', dgaNew n szt h = .stop .undefined h' := by
  have hat := At_alloc_new h (fresh (allocBytes szt n).toNat)
  rw [dgaNew, bind_ok (malloc_eq hg (allocBytes szt n).toNat), if_pos (heap_ne_null _ _)]
  by_cases hin : 0 + (encodeSize n).length ≤ (fresh (allocBytes szt n).toNat).length
  · -- the length still fits, the element size does not
    have hout : (splice (fresh (allocBytes szt n).toNat) 0 (encodeSize n)).length <
        0 + 16 + (encodeSize szt).length := by
      rw [length_splice hin, length_fresh, length_encodeSize]
      rw [headerSize] at hk
      omega
    have hlen : storeSize (lenField ⟨.heap h.blocks.length, 0⟩) n
        (h.alloc (fresh (allocBytes szt n).toNat)) = .ok () _ := store_alloc hin
    rw [bind_ok hlen]
    exact ⟨_, bind_stop (store_outside (At_alloc_new h _) hout) _⟩
  · exact ⟨_, bind_stop (store_outside hat (Nat.not_le.mp hin)) _⟩

/-- A refused `_dga_new` returns the address behind a header at `NULL`. -/
theorem dgaNew_denied {h : Heap} (hg : ¬h.Grants) (n szt : Size) :
    dgaNew n szt h = .ok (Ptr.null.add headerSize) h.deny := by
  rw [dgaNew, bind_ok (malloc_denied hg (allocBytes szt n).toNat)]
  rfl

/-- A granted `dga_dup` of an array whose block has the size of its header's
    account. -/
theorem dgaDup_granted (hb : Headed h b len szt cap data) (hg : h.Grants)
    (hsize : (allocBytes szt len).toNat = headerSize + data.length) :
    dgaDup (arrayPtr b) h =
      .ok (arrayPtr h.blocks.length) (h.alloc (blockCells len cap szt data)) := by
  have hlen : (blockCells len cap szt data).length = (allocBytes szt len).toNat := by
    rw [length_blockCells hb.cap8, hsize]
  -- the old block is still there, and all of it is copied
  have hold : (h.alloc (fresh (allocBytes szt len).toNat)).At b (blockCells len cap szt data) :=
    At_alloc_old hb.at_
  have hload : load ⟨.heap b, 0⟩ (allocBytes szt len).toNat
      (h.alloc (fresh (allocBytes szt len).toNat)) =
        .ok (blockCells len cap szt data) (h.alloc (fresh (allocBytes szt len).toNat)) := by
    rw [load_eq hold (by omega), slice, List.drop_zero, List.take_of_length_le (Nat.le_of_eq hlen)]
  have hin : 0 + (blockCells len cap szt data).length ≤ (fresh (allocBytes szt len).toNat).length := by
    rw [length_fresh, hlen]
    omega
  have hsplice : splice (fresh (allocBytes szt len).toNat) 0 (blockCells len cap szt data) =
      blockCells len cap szt data := by
    rw [splice_middle [] (fresh (allocBytes szt len).toNat) [] (by simp) List.length_nil
      (by rw [length_fresh, hlen]), List.nil_append, List.append_nil]
  rw [dgaDup, bind_ok (dgaHeader_eq h b), bind_ok (loadSize_szt hb), bind_ok (loadSize_len hb),
    bind_ok (malloc_eq hg (allocBytes szt len).toNat), if_pos (heap_ne_null _ _), bind_ok hload,
    bind_ok (store_alloc hin), hsplice]
  rfl

end Prom.Dga
