/-
  Prom.Dga.Lists — a dga array as a list of elements.

  `Arr` is an array as its user sees it: an element size and a list of
  elements of that size, few enough that a `size_t` holds their number and
  their bytes.  `Holds h b a` says that block `b` of the heap is such an array
  behind its header.  Each function of the library then has one rule: on a
  block that holds a list it leaves a block that holds the list its caller
  expects.

  Main results:
    * `dgaNew_holds`, `dgaResize_holds`, `dgaDup_holds`, `dgaFree_holds`
    * `dgaLen_holds`, `load_holds`, `store_holds` — length and elements.
-/
import Prom.Dga.Array

namespace Prom.Dga

open Prom.C Exec Heap

/-! ## §1. Arrays. -/

/-- An array of `n` elements of `szt` bytes has a length and a byte size that
    a `size_t` holds. -/
def Fits (szt : Size) (n : Nat) : Prop := n < 2 ^ 64 ∧ headerSize + szt.toNat * n < 2 ^ 64

instance (szt : Size) (n : Nat) : Decidable (Fits szt n) := inferInstanceAs (Decidable (_ ∧ _))

/-- An array of the list model: elements of one width, few enough to fit. -/
structure Arr where
  szt : Size
  elems : List (List Cell)
  width : ∀ e ∈ elems, e.length = szt.toNat
  fits : Fits szt elems.length

/-- `dga_len`. -/
def Arr.len (a : Arr) : Nat := a.elems.length

/-- `n` elements nobody has written to. -/
def Arr.new? (szt : Size) (n : Nat) : Option Arr :=
  if h : Fits szt n then
    some
      { szt
        elems := List.replicate n (fresh szt.toNat)
        width := fun e he => by rw [List.eq_of_mem_replicate he, length_fresh]
        fits := by rwa [List.length_replicate] }
  else none

/-- Replace an element. -/
def Arr.write? (a : Arr) (i : Nat) (v : List Cell) : Option Arr :=
  if h : i < a.len ∧ v.length = a.szt.toNat then
    some
      { szt := a.szt
        elems := a.elems.set i v
        width := fun e he => (List.mem_or_eq_of_mem_set he).elim (a.width e) fun hv => hv ▸ h.2
        fits := by rw [List.length_set]; exact a.fits }
  else none

/-- Keep the first `min (len, m)` elements and set the length to `m`. -/
def Arr.resize? (a : Arr) (m : Nat) : Option Arr :=
  if h : Fits a.szt m then
    some
      { szt := a.szt
        elems := a.elems.take m ++ List.replicate (m - a.len) (fresh a.szt.toNat)
        width := fun e he => (List.mem_append.mp he).elim (fun ht => a.width e (List.mem_of_mem_take ht))
          fun hr => by rw [List.eq_of_mem_replicate hr, length_fresh]
        fits := by
          have hlen : (a.elems.take m ++ List.replicate (m - a.len) (fresh a.szt.toNat)).length = m := by
            simp only [List.length_append, List.length_take, List.length_replicate, Arr.len]
            omega
          rwa [hlen] }
  else none

/-- Add to the length. -/
def Arr.grow? (a : Arr) (n : Nat) : Option Arr := a.resize? (a.len + n)

/-- Subtract from the length. -/
def Arr.shrink? (a : Arr) (n : Nat) : Option Arr :=
  if n ≤ a.len then a.resize? (a.len - n) else none

/-! ## §2. Arrays on the heap. -/

/-- Block `b` holds the array `a` behind a header. -/
def Holds (h : Heap) (b : Nat) (a : Arr) : Prop :=
  ∃ cap, Headed h b (BitVec.ofNat 64 a.len) a.szt cap a.elems.flatten

theorem toNat_ofNat_lt {n : Nat} (h : n < 2 ^ 64) : (BitVec.ofNat 64 n).toNat = n := by
  rw [BitVec.toNat_ofNat]
  exact Nat.mod_eq_of_lt h

theorem toNat_ofNat_len (a : Arr) : (BitVec.ofNat 64 a.len).toNat = a.len :=
  toNat_ofNat_lt a.fits.1

/-- The index of the last element. -/
theorem toNat_sub_one {n : Size} {k : Nat} (h : n.toNat = k + 1) : (n - 1).toNat = k := by
  rw [BitVec.toNat_sub_of_le (by rw [BitVec.le_def, h]; exact Nat.succ_le_succ (Nat.zero_le _)), h]
  rfl

/-- A size that fits is computed without wrapping. -/
theorem allocBytes_toNat {szt n : Size} (h : Fits szt n.toNat) :
    (allocBytes szt n).toNat = headerSize + szt.toNat * n.toNat := by
  have hsize : headerSize + szt.toNat * n.toNat < 2 ^ 64 := h.2
  have hmul : szt.toNat * n.toNat < 2 ^ 64 := by omega
  rw [allocBytes, BitVec.toNat_add, BitVec.toNat_mul, Nat.mod_eq_of_lt hmul]
  exact Nat.mod_eq_of_lt hsize

theorem arrayPtr_inj {b b' : Nat} (h : arrayPtr b = arrayPtr b') : b = b' := by
  cases h
  rfl

theorem Holds.lt {h : Heap} {b : Nat} {a : Arr} (hh : Holds h b a) : b < h.blocks.length :=
  hh.elim fun _ hb => hb.at_.lt

theorem Holds.alloc {h : Heap} {b : Nat} {a : Arr} (hh : Holds h b a) (cells : List Cell) :
    Holds (h.alloc cells) b a :=
  hh.elim fun cap hb => ⟨cap, At_alloc_old hb.at_, hb.cap8⟩

theorem Holds.release {h : Heap} {b b' : Nat} {a : Arr} (hh : Holds h b a) (hne : b' ≠ b) :
    Holds (h.release b') b a :=
  hh.elim fun cap hb => ⟨cap, (At_release_ne hne).mpr hb.at_, hb.cap8⟩

theorem Holds.put {h : Heap} {b b' : Nat} {a : Arr} (hh : Holds h b a) (hne : b' ≠ b)
    (cells : List Cell) : Holds (h.put b' cells) b a :=
  hh.elim fun cap hb => ⟨cap, (At_put_ne hne).mpr hb.at_, hb.cap8⟩

/-! ## §3. The functions of the library. -/

variable {h : Heap} {b : Nat} {a a' : Arr}

theorem dgaLen_holds (hh : Holds h b a) : dgaLen (arrayPtr b) h = .ok (BitVec.ofNat 64 a.len) h :=
  hh.elim fun _ hb => dgaLen_eq hb

theorem dgaFree_holds (hh : Holds h b a) : dgaFree (arrayPtr b) h = .ok () (h.release b) :=
  hh.elim fun _ hb => dgaFree_eq hb

theorem dgaNew_holds (hg : h.Grants) {n szt : Size} (ha : Arr.new? szt n.toNat = some a) :
    ∃ cells, dgaNew n szt h = .ok (arrayPtr h.blocks.length) (h.alloc cells) ∧
      Holds (h.alloc cells) h.blocks.length a := by
  unfold Arr.new? at ha
  split at ha
  · rename_i hfits
    cases ha
    have hlen : BitVec.ofNat 64 (List.replicate n.toNat (fresh szt.toNat)).length = n := by
      rw [List.length_replicate, BitVec.ofNat_toNat, BitVec.setWidth_eq]
    have hflat : (List.replicate n.toNat (fresh szt.toNat)).flatten = fresh (szt.toNat * n.toNat) := by
      rw [fresh, fresh, List.flatten_replicate_replicate, Nat.mul_comm]
    refine ⟨_, dgaNew_granted hg n szt (allocBytes_toNat hfits), fresh 8, ?_, length_fresh 8⟩
    show (h.alloc _).At h.blocks.length (blockCells (BitVec.ofNat 64 _) _ szt _)
    rw [Arr.len, hlen, hflat]
    exact At_alloc_new _ _
  · cases ha

/-- `dga_resize` cuts or fills up the list. -/
theorem dgaResize_holds (hh : Holds h b a) (hg : h.Grants) {m : Size}
    (ha : a.resize? m.toNat = some a') :
    ∃ cells, dgaResize (arrayPtr b) m h =
        .ok (arrayPtr h.blocks.length) ((h.release b).alloc cells) ∧
      Holds ((h.release b).alloc cells) h.blocks.length a' := by
  obtain ⟨cap, hb⟩ := hh
  unfold Arr.resize? at ha
  split at ha
  · rename_i hfits
    cases ha
    refine ⟨_, dgaResize_granted hb hg m, cap, ?_, hb.cap8⟩
    -- cut or filled up, the list has as many elements as the header says
    have hlen : (a.elems.take m.toNat ++
        List.replicate (m.toNat - a.len) (fresh a.szt.toNat)).length = m.toNat := by
      simp only [List.length_append, List.length_take, List.length_replicate, Arr.len]
      omega
    have hm : BitVec.ofNat 64 (a.elems.take m.toNat ++
        List.replicate (m.toNat - a.len) (fresh a.szt.toNat)).length = m := by
      rw [hlen, BitVec.ofNat_toNat, BitVec.setWidth_eq]
    rw [allocBytes_toNat hfits, resized_blockCells hb.cap8, resized_elements a.width]
    show Heap.At _ _ (blockCells (BitVec.ofNat 64 _) _ _ _)
    rw [Arr.len, hm, ← length_release h b]
    exact At_alloc_new _ _
  · cases ha

/-- The number of elements after adding, as the code computes it. -/
theorem toNat_len_add {n : Size} (ha : a.grow? n.toNat = some a') :
    (BitVec.ofNat 64 a.len + n).toNat = a.len + n.toNat := by
  unfold Arr.grow? Arr.resize? at ha
  split at ha
  · rename_i hfits
    rw [BitVec.toNat_add, toNat_ofNat_len, Nat.mod_eq_of_lt hfits.1]
  · cases ha

theorem dgaGrow_holds (hh : Holds h b a) (hg : h.Grants) {n : Size}
    (ha : a.grow? n.toNat = some a') :
    ∃ cells, dgaGrow (arrayPtr b) n h =
        .ok (arrayPtr h.blocks.length) ((h.release b).alloc cells) ∧
      Holds ((h.release b).alloc cells) h.blocks.length a' := by
  obtain ⟨cap, hb⟩ := id hh
  rw [dgaGrow_eq hb]
  exact dgaResize_holds hh hg (by rw [toNat_len_add ha]; exact ha)

theorem dgaShrink_holds (hh : Holds h b a) (hg : h.Grants) {n : Size}
    (ha : a.shrink? n.toNat = some a') :
    ∃ cells, dgaShrink (arrayPtr b) n h =
        .ok (arrayPtr h.blocks.length) ((h.release b).alloc cells) ∧
      Holds ((h.release b).alloc cells) h.blocks.length a' := by
  obtain ⟨cap, hb⟩ := id hh
  unfold Arr.shrink? at ha
  split at ha
  · rename_i hle
    have hlt := a.fits.1
    have hsub : (BitVec.ofNat 64 a.len - n).toNat = a.len - n.toNat := by
      rw [BitVec.toNat_sub_of_le (by rw [BitVec.le_def, toNat_ofNat_len]; exact hle), toNat_ofNat_len]
    rw [dgaShrink_eq hb]
    exact dgaResize_holds hh hg (by rw [hsub]; exact ha)
  · cases ha

theorem dgaDup_holds (hh : Holds h b a) (hg : h.Grants) :
    ∃ cells, dgaDup (arrayPtr b) h = .ok (arrayPtr h.blocks.length) (h.alloc cells) ∧
      Holds (h.alloc cells) h.blocks.length a := by
  obtain ⟨cap, hb⟩ := hh
  have hfits : Fits a.szt (BitVec.ofNat 64 a.len).toNat := by
    rw [toNat_ofNat_len]
    exact a.fits
  have hsize : (allocBytes a.szt (BitVec.ofNat 64 a.len)).toNat = headerSize + a.elems.flatten.length := by
    rw [allocBytes_toNat hfits, toNat_ofNat_len, length_elements a.width, Arr.len]
  exact ⟨_, dgaDup_granted hb hg hsize, cap, At_alloc_new _ _, hb.cap8⟩

/-- The place of an element: behind the header and the elements before it. -/
theorem element_inside {len szt : Size} {es : List (List Cell)} {i : Nat} {e cap : List Cell}
    (hcap : cap.length = 8) (hwidth : ∀ e ∈ es, e.length = szt.toNat) (hi : es[i]? = some e) :
    headerSize + szt.toNat * i + szt.toNat ≤ (blockCells len cap szt es.flatten).length := by
  have hlt : i < es.length := (List.getElem?_eq_some_iff.mp hi).1
  have hmul : szt.toNat * (i + 1) ≤ szt.toNat * es.length := Nat.mul_le_mul_left _ hlt
  rw [length_blockCells hcap, length_elements hwidth]
  rw [Nat.mul_succ] at hmul
  omega

theorem elements_front {len szt : Size} {cap : List Cell} (hcap : cap.length = 8) :
    (encodeSize len ++ cap ++ encodeSize szt).length = headerSize := by
  simp only [List.length_append, length_encodeSize, hcap, headerSize]

/-- Reading an element, whatever length the header gives. -/
theorem load_headed {len szt : Size} {cap : List Cell} {es : List (List Cell)}
    (hb : Headed h b len szt cap es.flatten) (hwidth : ∀ e ∈ es, e.length = szt.toNat) {i : Nat}
    {e : List Cell} (hi : es[i]? = some e) :
    load ((arrayPtr b).add (szt.toNat * i)) szt.toNat h = .ok e h := by
  have hslice := slice_append_right (encodeSize len ++ cap ++ encodeSize szt) es.flatten
    (szt.toNat * i) szt.toNat
  rw [elements_front hb.cap8, slice_elements hwidth hi] at hslice
  rw [Ptr.add, arrayPtr, load_eq hb.at_ (element_inside hb.cap8 hwidth hi), blockCells, hslice]

/-- Reading behind the last element. -/
theorem load_past {len szt : Size} {cap : List Cell} {es : List (List Cell)}
    (hb : Headed h b len szt cap es.flatten) (hwidth : ∀ e ∈ es, e.length = szt.toNat)
    (hszt : 0 < szt.toNat) : Undefined (load ((arrayPtr b).add (szt.toNat * es.length)) szt.toNat) h := by
  have hout : (blockCells len cap szt es.flatten).length <
      headerSize + szt.toNat * es.length + szt.toNat := by
    rw [length_blockCells hb.cap8, length_elements hwidth]
    omega
  exact .of_eq (load_outside hb.at_ hout)

theorem load_holds (hh : Holds h b a) {i : Nat} {e : List Cell} (hi : a.elems[i]? = some e) :
    load ((arrayPtr b).add (a.szt.toNat * i)) a.szt.toNat h = .ok e h :=
  hh.elim fun _ hb => load_headed hb a.width hi

/-- Writing an element. -/
theorem store_holds (hh : Holds h b a) {i : Nat} {v : List Cell} (ha : a.write? i v = some a') :
    ∃ cells, store ((arrayPtr b).add (v.length * i)) v h = .ok () (h.put b cells) ∧
      Holds (h.put b cells) b a' := by
  obtain ⟨cap, hb⟩ := hh
  unfold Arr.write? at ha
  split at ha
  · rename_i hcond
    cases ha
    obtain ⟨hlt, hv⟩ := hcond
    have hi : a.elems[i]? = some (a.elems.get ⟨i, hlt⟩) := List.getElem?_eq_getElem hlt
    -- the element is at its place behind the header
    have hsplice := splice_append_right
      (encodeSize (BitVec.ofNat 64 a.len) ++ cap ++ encodeSize a.szt) a.elems.flatten
      (a.szt.toNat * i) v
    rw [elements_front hb.cap8, splice_elements a.width hi hv] at hsplice
    have hstore : store ((arrayPtr b).add (v.length * i)) v h = .ok ()
        (h.put b (blockCells (BitVec.ofNat 64 a.len) cap a.szt (a.elems.set i v).flatten)) := by
      rw [Ptr.add, arrayPtr, hv, store_eq hb.at_ (by rw [hv]; exact element_inside hb.cap8 a.width hi),
        blockCells, hsplice, blockCells]
    refine ⟨_, hstore, cap, ?_, hb.cap8⟩
    show Heap.At _ _ (blockCells (BitVec.ofNat 64 (a.elems.set i v).length) _ _ _)
    rw [List.length_set]
    exact At_put_same hb.at_
  · cases ha

/-! ## §4. One more element. -/

/-- Growing by one leaves room behind the elements. -/
theorem dgaGrow_one (hh : Holds h b a) (hg : h.Grants) (hfits : Fits a.szt (a.len + 1)) :
    ∃ cells a', dgaGrow (arrayPtr b) 1 h =
        .ok (arrayPtr h.blocks.length) ((h.release b).alloc cells) ∧
      Holds ((h.release b).alloc cells) h.blocks.length a' ∧ a'.szt = a.szt ∧
      a'.elems = a.elems ++ [fresh a.szt.toNat] := by
  have hgrow : a.grow? (1 : Size).toNat = a.resize? (a.len + 1) := rfl
  unfold Arr.resize? at hgrow
  rw [dif_pos hfits] at hgrow
  obtain ⟨cells, hrun, hh'⟩ := dgaGrow_holds hh hg hgrow
  refine ⟨cells, _, hrun, hh', rfl, ?_⟩
  show a.elems.take (a.len + 1) ++ List.replicate (a.len + 1 - a.len) (fresh a.szt.toNat) = _
  rw [List.take_of_length_le (by rw [Arr.len]; omega), Nat.add_sub_cancel_left]
  rfl

/-- Filling the room. -/
theorem store_last (hh : Holds h b a) {es : List (List Cell)} {e v : List Cell}
    (helems : a.elems = es ++ [e]) (hv : v.length = a.szt.toNat) :
    ∃ cells a', store ((arrayPtr b).add (v.length * es.length)) v h = .ok () (h.put b cells) ∧
      Holds (h.put b cells) b a' ∧ a'.szt = a.szt ∧ a'.elems = es ++ [v] := by
  have hlt : es.length < a.len := by
    rw [Arr.len, helems, List.length_append, List.length_singleton]
    omega
  obtain ⟨a', ha'⟩ : ∃ a', a.write? es.length v = some a' := by
    rw [Arr.write?, dif_pos ⟨hlt, hv⟩]
    exact ⟨_, rfl⟩
  obtain ⟨cells, hrun, hh'⟩ := store_holds hh ha'
  rw [Arr.write?, dif_pos ⟨hlt, hv⟩] at ha'
  cases ha'
  refine ⟨cells, _, hrun, hh', rfl, ?_⟩
  show a.elems.set es.length v = _
  rw [helems, List.set_append_right _ _ (Nat.le_refl _), Nat.sub_self, List.set_cons_zero]

end Prom.Dga
