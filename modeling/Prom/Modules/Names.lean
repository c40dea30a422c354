/-
  Prom.Modules.Names — dga arrays of names.

  `dir_content` and `clean_ul_mod_names` return an array of pointers, each to
  an array of characters of its own.  `HoldsNames own h p names room` says so:
  the blocks are different from each other and satisfy `own`, and behind the
  pointers the array has the elements `room`, not yet written.  `NamesAt` says
  which blocks they are.  `Spares own` is what an operation on them leaves
  alone: every block that is not `own`.  `Owned` is the whole account: of what
  came after a heap, the blocks of the array are live and no others.

  Main results:
    * `dgaNew_named`, `storePtr_namesAt` — making a name and adding it.
    * `Owned.grow`, `Owned.store`, `Owned.copy`, `Owned.frees` — the same with the
      account.
    * `HoldsNames.read` — what the array's user reads.
    * `freeDirContent_frees`, `freeUlModNames_frees` — giving it back.
    * `freeDirContent_overruns` — when the header counts too many.
-/
import Prom.Modules.Paths

namespace Prom.Modules

open Prom.C Exec Heap Dga Errm Posix

/-! ## §1. Blocks left alone. -/

/-- No block but those of `own` was written to or freed. -/
structure Spares (own : Nat → Prop) (h h' : Heap) : Prop where
  at_ : ∀ b cells, ¬own b → h.At b cells → h'.At b cells
  length : h.blocks.length ≤ h'.blocks.length
  statics : h'.statics = h.statics
  grants : h'.grants = h.grants
  requests : h.requests ≤ h'.requests

section Spares

variable {own : Nat → Prop} {h h' h'' : Heap}

theorem Spares.refl (own : Nat → Prop) (h : Heap) : Spares own h h :=
  ⟨fun _ _ _ hat => hat, Nat.le_refl _, rfl, rfl, Nat.le_refl _⟩

theorem Spares.alloc (hs : Spares own h h') (cells : List Cell) : Spares own h (h'.alloc cells) :=
  ⟨fun b cs hb hat => At_alloc_old (hs.at_ b cs hb hat),
    by rw [length_alloc]; exact Nat.le_succ_of_le hs.length, hs.statics, hs.grants,
    Nat.le_succ_of_le hs.requests⟩

theorem Spares.put (hs : Spares own h h') {b : Nat} (hb : own b) (cells : List Cell) :
    Spares own h (h'.put b cells) :=
  ⟨fun b' cs hb' hat => (At_put_ne (by rintro rfl; exact hb' hb)).mpr (hs.at_ b' cs hb' hat),
    by rw [length_put]; exact hs.length, hs.statics, hs.grants, hs.requests⟩

theorem Spares.release (hs : Spares own h h') {b : Nat} (hb : own b) :
    Spares own h (h'.release b) :=
  ⟨fun b' cs hb' hat => (At_release_ne (by rintro rfl; exact hb' hb)).mpr (hs.at_ b' cs hb' hat),
    by rw [length_release]; exact hs.length, hs.statics, hs.grants, hs.requests⟩

theorem Spares.releaseAll (hs : Spares own h h') {bs : List Nat} (hbs : ∀ b ∈ bs, own b) :
    Spares own h (h'.releaseAll bs) := by
  induction bs generalizing h' with
  | nil => exact hs
  | cons b bs ih =>
    exact ih (hs.release (hbs b List.mem_cons_self)) fun c hc => hbs c (List.mem_cons_of_mem b hc)

theorem Spares.deny (hs : Spares own h h') : Spares own h h'.deny :=
  ⟨hs.at_, hs.length, hs.statics, hs.grants, Nat.le_succ_of_le hs.requests⟩

/-- What came after `h` was not there to be kept. -/
theorem Spares.keeps (hk : Keeps h h') (hs : Spares own h' h'')
    (hown : ∀ b, own b → h.blocks.length ≤ b) : Keeps h h'' := by
  refine ⟨?_, Nat.le_trans hk.length hs.length, hs.statics.trans hk.statics,
    hs.grants.trans hk.grants, Nat.le_trans hk.requests hs.requests⟩
  intro b cells hat
  refine hs.at_ b cells ?_ (hk.at_ b cells hat)
  intro hb
  have hle := hown b hb
  have hlt := hat.lt
  omega

theorem spares_of_keeps (hk : Keeps h h') (own : Nat → Prop) : Spares own h h' :=
  ⟨fun b cells _ hat => hk.at_ b cells hat, hk.length, hk.statics, hk.grants, hk.requests⟩

end Spares

/-! ## §2. Names in memory. -/

/-- Block `c` is an array of characters that starts with the string `s`. -/
def NameBlock (h : Heap) (c : Nat) (s : CStr) : Prop :=
  ∃ len szt cap rest, Headed h c len szt cap (strCells s ++ rest)

/-- The element that points to block `c`. -/
def nameElem (c : Nat) : List Cell := encodePtr (arrayPtr c)

/-- `p` is an array of pointers to `names`, followed by the elements `room`. -/
def HoldsNames (own : Nat → Prop) (h : Heap) (p : Ptr) (names : List CStr)
    (room : List (List Cell)) : Prop :=
  ∃ b cs a, p = arrayPtr b ∧ Holds h b a ∧ a.szt = 8 ∧ a.elems = cs.map nameElem ++ room ∧
    (b :: cs).Nodup ∧ (∀ c ∈ b :: cs, own c) ∧ cs.length = names.length ∧
    ∀ (k c : Nat) (s : CStr), cs[k]? = some c → names[k]? = some s → NameBlock h c s

/-- The array is block `b` and the names are in the blocks `cs`. -/
structure NamesAt (h : Heap) (b : Nat) (cs : List Nat) (names : List CStr)
    (room : List (List Cell)) : Prop where
  array : ∃ a, Holds h b a ∧ a.szt = 8 ∧ a.elems = cs.map nameElem ++ room
  nodup : (b :: cs).Nodup
  length : cs.length = names.length
  names : ∀ (k c : Nat) (s : CStr), cs[k]? = some c → names[k]? = some s → NameBlock h c s

theorem NameBlock.at_ {h : Heap} {c : Nat} {s : CStr} (hn : NameBlock h c s) :
    ∃ cells, h.At c cells := by
  obtain ⟨len, szt, cap, rest, hb⟩ := hn
  exact ⟨_, hb.at_⟩

theorem NameBlock.mono {h h' : Heap} {c : Nat} {s : CStr} (hn : NameBlock h c s)
    (hat : ∀ cells, h.At c cells → h'.At c cells) : NameBlock h' c s := by
  obtain ⟨len, szt, cap, rest, hb⟩ := hn
  exact ⟨len, szt, cap, rest, hat _ hb.at_, hb.cap8⟩

/-- The name is read behind the header. -/
theorem NameBlock.load {h : Heap} {c : Nat} {s : CStr} (hn : NameBlock h c s) :
    loadStr (arrayPtr c) h = .ok s h := by
  obtain ⟨len, szt, cap, rest, hb⟩ := hn
  have hdrop : (blockCells len cap szt (strCells s ++ rest)).drop headerSize = strCells s ++ rest := by
    apply List.drop_left'
    simp only [List.length_append, length_encodeSize, hb.cap8, headerSize]
  exact loadStr_eq hb.at_.object (by
    show cstr ((blockCells len cap szt (strCells s ++ rest)).drop headerSize) = some s
    rw [hdrop, cstr_strCells])

theorem holds_mono {h h' : Heap} {b : Nat} {a : Arr} (hh : Holds h b a)
    (hat : ∀ cells, h.At b cells → h'.At b cells) : Holds h' b a :=
  hh.elim fun cap hb => ⟨cap, hat _ hb.at_, hb.cap8⟩

/-- The pointers to names have the size of a pointer. -/
theorem nameElem_width (cs : List Nat) : ∀ e ∈ cs.map nameElem, e.length = (8 : Size).toNat := by
  intro e he
  obtain ⟨c, -, rfl⟩ := List.mem_map.mp he
  exact length_encodePtr _

/-- The pointer to a name. -/
theorem loadPtr_elem {h : Heap} {c : Nat} {p : Ptr} (hload : load p 8 h = .ok (nameElem c) h) :
    loadPtr p h = .ok (arrayPtr c) h := by
  rw [loadPtr, loadAs, bind_ok hload, nameElem, decodePtr_encodePtr]
  rfl

section NamesAt

variable {h h' : Heap} {b : Nat} {cs : List Nat} {names : List CStr} {room : List (List Cell)}

/-- The blocks are live. -/
theorem NamesAt.live (hn : NamesAt h b cs names room) {c : Nat} (hc : c ∈ b :: cs) :
    ∃ cells, h.At c cells := by
  rcases List.mem_cons.mp hc with rfl | hc
  · obtain ⟨a, ⟨cap, hb⟩, -⟩ := hn.array
    exact ⟨_, hb.at_⟩
  · obtain ⟨k, hk⟩ := List.getElem?_of_mem hc
    obtain ⟨s, hs⟩ : ∃ s, names[k]? = some s :=
      ⟨_, List.getElem?_eq_getElem (hn.length ▸ (List.getElem?_eq_some_iff.mp hk).1)⟩
    exact (hn.names k c s hk hs).at_

theorem NamesAt.lt (hn : NamesAt h b cs names room) {c : Nat} (hc : c ∈ b :: cs) :
    c < h.blocks.length :=
  (hn.live hc).elim fun _ hat => hat.lt

/-- Giving the names back leaves what is newer. -/
theorem NamesAt.newer (hn : NamesAt h b cs names room) {c : Nat} (hc : h.blocks.length ≤ c)
    {cells : List Cell} (hat : h'.At c cells) : (h'.releaseAll (cs ++ [b])).At c cells := by
  refine At_releaseAll.mpr ⟨hat, fun hmem => ?_⟩
  rw [List.mem_append, List.mem_singleton, or_comm, ← List.mem_cons] at hmem
  exact Nat.not_le.mpr (hn.lt hmem) hc

/-- What keeps the blocks keeps the array. -/
theorem NamesAt.mono (hn : NamesAt h b cs names room)
    (hat : ∀ c ∈ b :: cs, ∀ cells, h.At c cells → h'.At c cells) : NamesAt h' b cs names room := by
  obtain ⟨⟨a, hh, hszt, helems⟩, hnodup, hlen, hnames⟩ := hn
  refine ⟨⟨a, holds_mono hh (hat b List.mem_cons_self), hszt, helems⟩, hnodup, hlen, ?_⟩
  intro k c s hc hs
  exact (hnames k c s hc hs).mono (hat c (List.mem_cons_of_mem b (List.mem_of_getElem? hc)))

theorem NamesAt.alloc (hn : NamesAt h b cs names room) (cells : List Cell) :
    NamesAt (h.alloc cells) b cs names room :=
  hn.mono fun _ _ _ hat => At_alloc_old hat

theorem NamesAt.keeps (hn : NamesAt h b cs names room) (hk : Keeps h h') : NamesAt h' b cs names room :=
  hn.mono fun c _ => hk.at_ c

/-- There are not more names than a `size_t` can count. -/
theorem NamesAt.toNat_length (hn : NamesAt h b cs names room) :
    (BitVec.ofNat 64 names.length).toNat = names.length := by
  obtain ⟨a, -, -, helems⟩ := hn.array
  have hfits := a.fits.1
  rw [helems, List.length_append, List.length_map, hn.length] at hfits
  exact toNat_ofNat_lt (by omega)

theorem NamesAt.len (hn : NamesAt h b cs names room) :
    dgaLen (arrayPtr b) h = .ok (BitVec.ofNat 64 (names.length + room.length)) h := by
  obtain ⟨a, hh, -, helems⟩ := hn.array
  have ha : a.len = names.length + room.length := by
    rw [Arr.len, helems, List.length_append, List.length_map, hn.length]
  rw [← ha]
  exact dgaLen_holds hh

/-- The pointer to the `k`-th name. -/
theorem NamesAt.elem (hn : NamesAt h b cs names room) {k c : Nat} (hc : cs[k]? = some c) :
    loadPtr ((arrayPtr b).add (8 * k)) h = .ok (arrayPtr c) h := by
  obtain ⟨a, hh, hszt, helems⟩ := hn.array
  have hlt : k < cs.length := (List.getElem?_eq_some_iff.mp hc).1
  have helem : a.elems[k]? = some (nameElem c) := by
    rw [helems, List.getElem?_append_left (by rwa [List.length_map]), List.getElem?_map, hc]
    rfl
  have hload := load_holds hh helem
  rw [hszt] at hload
  exact loadPtr_elem hload

end NamesAt

section Names

variable {own own' : Nat → Prop} {h h' : Heap} {p : Ptr} {names : List CStr} {s : CStr}
  {room : List (List Cell)}

/-- The array and its names, in blocks that satisfy `own`. -/
theorem holdsNames_iff : HoldsNames own h p names room ↔
    ∃ b cs, p = arrayPtr b ∧ (∀ c ∈ b :: cs, own c) ∧ NamesAt h b cs names room := by
  constructor
  · rintro ⟨b, cs, a, hp, hh, hszt, helems, hnodup, hown, hlen, hnames⟩
    exact ⟨b, cs, hp, hown, ⟨a, hh, hszt, helems⟩, hnodup, hlen, hnames⟩
  · rintro ⟨b, cs, hp, hown, ⟨a, hh, hszt, helems⟩, hnodup, hlen, hnames⟩
    exact ⟨b, cs, a, hp, hh, hszt, helems, hnodup, hown, hlen, hnames⟩

theorem NamesAt.holds {b : Nat} {cs : List Nat} (hn : NamesAt h b cs names room)
    (hown : ∀ c ∈ b :: cs, own c) : HoldsNames own h (arrayPtr b) names room :=
  holdsNames_iff.mpr ⟨b, cs, rfl, hown, hn⟩

/-- Names that are left alone stay. -/
theorem HoldsNames.spared (hn : HoldsNames own h p names room) (hs : Spares own' h h')
    (hdisj : ∀ c, own c → ¬own' c) : HoldsNames own h' p names room := by
  obtain ⟨b, cs, rfl, hown, hat⟩ := holdsNames_iff.mp hn
  exact (hat.mono fun c hc cells => hs.at_ c cells (hdisj c (hown c hc))).holds hown

theorem HoldsNames.ne_null (hn : HoldsNames own h p names room) : p ≠ .null := by
  obtain ⟨b, cs, a, rfl, -⟩ := hn
  exact arrayPtr_ne_null b

theorem HoldsNames.toNat_length (hn : HoldsNames own h p names room) :
    (BitVec.ofNat 64 names.length).toNat = names.length := by
  obtain ⟨b, cs, -, -, hat⟩ := holdsNames_iff.mp hn
  exact hat.toNat_length

/-- A name is read through its pointer. -/
theorem HoldsNames.block (hn : HoldsNames own h p names room) {k : Nat} (hk : names[k]? = some s) :
    ∃ c, own c ∧ loadPtr (p.add (8 * k)) h = .ok (arrayPtr c) h ∧ NameBlock h c s := by
  obtain ⟨b, cs, rfl, hall, hat⟩ := holdsNames_iff.mp hn
  have hlt : k < cs.length := by
    rw [hat.length]
    exact (List.getElem?_eq_some_iff.mp hk).1
  obtain ⟨c, hc⟩ : ∃ c, cs[k]? = some c := ⟨_, List.getElem?_eq_getElem hlt⟩
  exact ⟨c, hall c (List.mem_cons_of_mem b (List.mem_of_getElem? hc)), hat.elem hc,
    hat.names k c s hc hk⟩

/-- **What the user of an array of names reads.** -/
theorem HoldsNames.read (hn : HoldsNames own h p names room) {k : Nat} (hk : names[k]? = some s) :
    ∃ q, loadPtr (p.add (8 * k)) h = .ok q h ∧ loadStr q h = .ok s h := by
  obtain ⟨c, -, hptr, hblock⟩ := hn.block hk
  exact ⟨arrayPtr c, hptr, hblock.load⟩

/-- The blocks are there already. -/
theorem HoldsNames.below (hn : HoldsNames own h p names room) :
    HoldsNames (fun c => own c ∧ c < h.blocks.length) h p names room := by
  obtain ⟨b, cs, rfl, hall, hat⟩ := holdsNames_iff.mp hn
  exact hat.holds fun c hc => ⟨hall c hc, hat.lt hc⟩

end Names

/-! ## §3. Adding a name. -/

section Adding

variable {own : Nat → Prop} {h : Heap} {p : Ptr} {names : List CStr} {s : CStr} {b : Nat}
  {cs : List Nat}

/-- An empty array of names. -/
theorem dgaNew_namesAt (hg : h.Grants) :
    ∃ cells, dgaNew 0 8 h = .ok (arrayPtr h.blocks.length) (h.alloc cells) ∧
      NamesAt (h.alloc cells) h.blocks.length [] [] [] := by
  have hnew : Arr.new? 8 (0 : Size).toNat = some ⟨8, [], by simp, by decide⟩ := by
    rw [Arr.new?, dif_pos (by decide)]
    rfl
  obtain ⟨cells, hrun, hh⟩ := dgaNew_holds hg hnew
  refine ⟨cells, hrun, ⟨_, hh, rfl, rfl⟩, List.nodup_singleton _, rfl, ?_⟩
  intro k c s hc
  cases hc

theorem dgaNew_names (hg : h.Grants) (own : Nat → Prop) (hown : own h.blocks.length) :
    ∃ cells, dgaNew 0 8 h = .ok (arrayPtr h.blocks.length) (h.alloc cells) ∧
      HoldsNames own (h.alloc cells) (arrayPtr h.blocks.length) [] [] := by
  obtain ⟨cells, hrun, hat⟩ := dgaNew_namesAt hg
  refine ⟨cells, hrun, hat.holds ?_⟩
  intro c hc
  rwa [List.mem_singleton.mp hc]

/-- A name in an array of its own: `n` elements of `szt` bytes hold it. -/
theorem dgaNew_named (hg : h.Grants) (n szt : Size) (s : CStr) (hfits : Fits szt n.toNat)
    (hroom : s.length + 1 ≤ szt.toNat * n.toNat) :
    ∃ cells cells', dgaNew n szt h = .ok (arrayPtr h.blocks.length) (h.alloc cells) ∧
      store (arrayPtr h.blocks.length) (strCells s) (h.alloc cells) = .ok () (h.alloc cells') ∧
      NameBlock (h.alloc cells') h.blocks.length s := by
  have hrun := dgaNew_granted hg n szt (allocBytes_toNat hfits)
  have hback : (fresh (szt.toNat * n.toNat)).length = szt.toNat * n.toNat := length_fresh _
  have hfront : (encodeSize n ++ fresh 8 ++ encodeSize szt).length = headerSize := by
    simp only [List.length_append, length_encodeSize, length_fresh, headerSize]
  have hin : headerSize + (strCells s).length ≤
      (blockCells n (fresh 8) szt (fresh (szt.toNat * n.toNat))).length := by
    rw [length_blockCells (length_fresh 8), hback, length_strCells]
    omega
  -- the string goes over the front of the fresh bytes
  have hsplice := splice_append_right (encodeSize n ++ fresh 8 ++ encodeSize szt)
    (fresh (szt.toNat * n.toNat)) 0 (strCells s)
  rw [hfront, Nat.add_zero] at hsplice
  refine ⟨_, _, hrun, store_alloc hin, n, szt, fresh 8, ?_⟩
  refine ⟨(fresh (szt.toNat * n.toNat)).drop (0 + (strCells s).length), ?_, length_fresh 8⟩
  have hcells : splice (blockCells n (fresh 8) szt (fresh (szt.toNat * n.toNat))) headerSize
      (strCells s) = blockCells n (fresh 8) szt
        (strCells s ++ (fresh (szt.toNat * n.toNat)).drop (0 + (strCells s).length)) := by
    rw [blockCells, hsplice, splice, List.take_zero, List.nil_append, blockCells]
  rw [hcells]
  exact At_alloc_new _ _

/-- What `dga_new` returns when it is refused is not `NULL`, and not an array
    either. -/
theorem headless_ne_null : Ptr.null.add headerSize ≠ .null := by
  intro h
  cases h

theorem headless_len (h : Heap) : dgaLen (Ptr.null.add headerSize) h = .stop .undefined h := rfl

theorem headless_grow (h : Heap) : Undefined (dgaGrow (Ptr.null.add headerSize) 1) h := ⟨h, rfl⟩

/-- Nothing can be written to it. -/
theorem headless_store (s : CStr) (h : Heap) : Undefined (store (Ptr.null.add headerSize) (strCells s)) h :=
  ⟨h, rfl⟩

/-- A short name in an array of `n` elements, one for each character at least. -/
theorem dgaNew_short (hg : h.Grants) {s : CStr} (hshort : s.length ≤ NAME_MAX) (n : Nat) (szt : Size)
    (hn : s.length < n) (hmax : n ≤ s.length + 4) (hszt : 0 < szt.toNat) (hsmall : szt.toNat ≤ 4) :
    ∃ cells cells', dgaNew (BitVec.ofNat 64 n) szt h = .ok (arrayPtr h.blocks.length) (h.alloc cells) ∧
      store (arrayPtr h.blocks.length) (strCells s) (h.alloc cells) = .ok () (h.alloc cells') ∧
      NameBlock (h.alloc cells') h.blocks.length s := by
  have hnmax : NAME_MAX = 255 := rfl
  have hcount : (BitVec.ofNat 64 n).toNat = n := toNat_ofNat_lt (by omega)
  have hbytes : szt.toNat * n ≤ 4 * n := Nat.mul_le_mul_right n hsmall
  refine dgaNew_named hg (BitVec.ofNat 64 n) szt s ?_ ?_
  · rw [hcount]
    exact ⟨by omega, by rw [headerSize]; omega⟩
  · rw [hcount]
    exact Nat.le_trans hn (Nat.le_mul_of_pos_left n hszt)

/-- Room for one more name.  The array moves. -/
theorem dgaGrow_namesAt (hn : NamesAt h b cs names []) (hg : h.Grants)
    (hfits : Fits 8 (names.length + 1)) :
    ∃ cells, dgaGrow (arrayPtr b) 1 h =
        .ok (arrayPtr h.blocks.length) ((h.release b).alloc cells) ∧
      NamesAt ((h.release b).alloc cells) h.blocks.length cs names [fresh 8] := by
  obtain ⟨a, hh, hszt, helems⟩ := hn.array
  rw [List.append_nil] at helems
  have hlena : a.len = names.length := by rw [Arr.len, helems, List.length_map, hn.length]
  obtain ⟨cells, a', hrun, hh', hszt', helems'⟩ := dgaGrow_one hh hg (by rw [hszt, hlena]; exact hfits)
  refine ⟨cells, hrun, ⟨a', hh', hszt'.trans hszt, by rw [helems', helems, hszt]; rfl⟩, ?_, hn.length, ?_⟩
  · -- the new block is newer than every name
    refine List.nodup_cons.mpr ⟨?_, (List.nodup_cons.mp hn.nodup).2⟩
    intro hmem
    exact Nat.lt_irrefl _ (hn.lt (List.mem_cons_of_mem b hmem))
  · intro k c s hc hs
    -- the names stay where they are when the array moves
    refine (hn.names k c s hc hs).mono ?_
    intro cs' hat
    have hne : b ≠ c := by
      rintro rfl
      exact (List.nodup_cons.mp hn.nodup).1 (List.mem_of_getElem? hc)
    exact At_alloc_old ((At_release_ne hne).mpr hat)

theorem dgaGrow_names (hn : HoldsNames own h p names []) (hg : h.Grants) (hown : own h.blocks.length)
    (hfits : Fits 8 (names.length + 1)) :
    ∃ h', dgaGrow p 1 h = .ok (arrayPtr h.blocks.length) h' ∧ Spares own h h' ∧
      h'.requests = h.requests + 1 ∧
      HoldsNames own h' (arrayPtr h.blocks.length) names [fresh 8] := by
  obtain ⟨b, cs, rfl, hall, hat⟩ := holdsNames_iff.mp hn
  obtain ⟨cells, hrun, hat'⟩ := dgaGrow_namesAt hat hg hfits
  refine ⟨_, hrun, ((Spares.refl own h).release (hall b List.mem_cons_self)).alloc cells, rfl,
    hat'.holds ?_⟩
  intro c hc
  rcases List.mem_cons.mp hc with rfl | hc
  · exact hown
  · exact hall c (List.mem_cons_of_mem b hc)

/-- The new name's pointer goes to the room. -/
theorem storePtr_namesAt {c : Nat} (hn : NamesAt h b cs names [fresh 8]) (hc : NameBlock h c s)
    (hnew : c ∉ b :: cs) :
    ∃ cells, storePtr ((arrayPtr b).add (8 * names.length)) (arrayPtr c) h = .ok () (h.put b cells) ∧
      NamesAt (h.put b cells) b (cs ++ [c]) (names ++ [s]) [] := by
  obtain ⟨⟨a, hh, hszt, helems⟩, hnodup, hlen, hnames⟩ := hn
  have hwidth : (nameElem c).length = a.szt.toNat := by
    rw [hszt, nameElem, length_encodePtr]
    rfl
  obtain ⟨cells, a', hrun, hh', hszt', helems'⟩ := store_last hh helems hwidth
  rw [show (nameElem c).length = 8 from length_encodePtr _, List.length_map, hlen] at hrun
  refine ⟨cells, hrun, ⟨a', hh', hszt'.trans hszt, ?_⟩, ?_, ?_, ?_⟩
  · rw [helems', List.append_nil, List.map_append, List.map_singleton]
  · -- the name's block is none of the others
    rw [← List.cons_append]
    apply List.nodup_append.mpr
    refine ⟨hnodup, List.nodup_singleton c, ?_⟩
    intro x hx y hy
    rw [List.mem_singleton.mp hy]
    rintro rfl
    exact hnew hx
  · rw [List.length_append, List.length_append, hlen, List.length_singleton, List.length_singleton]
  · intro k x s' hx hs'
    have hne : b ≠ x := by
      rintro rfl
      rcases List.mem_append.mp (List.mem_of_getElem? hx) with hmem | hmem
      · exact (List.nodup_cons.mp hnodup).1 hmem
      · exact hnew (List.mem_singleton.mp hmem ▸ List.mem_cons_self)
    refine NameBlock.mono (h := h) ?_ fun cs' hat => (At_put_ne hne).mpr hat
    -- an old name, or the new one
    by_cases hk : k < cs.length
    · rw [List.getElem?_append_left hk] at hx
      rw [List.getElem?_append_left (hlen ▸ hk)] at hs'
      exact hnames k x s' hx hs'
    · have hk' : k = cs.length := by
        have := (List.getElem?_eq_some_iff.mp hx).1
        rw [List.length_append, List.length_singleton] at this
        omega
      subst hk'
      rw [List.getElem?_append_right (Nat.le_refl _), Nat.sub_self] at hx
      rw [List.getElem?_append_right (Nat.le_of_eq hlen.symm), hlen, Nat.sub_self] at hs'
      cases hx
      cases hs'
      exact hc

end Adding

/-! ## §4. Giving the names back. -/

section Freeing

variable {own : Nat → Prop} {h : Heap} {p : Ptr} {names : List CStr}

/-- The heap while the names are freed: the array, whose header gives the length
    `n`, and the names from `k` on are still there. -/
structure Freeing (own : Nat → Prop) (h₀ : Heap) (b : Nat) (n : Size) (cs : List Nat) (k : Nat)
    (h : Heap) : Prop where
  array : ∃ cap, Headed h b n 8 cap (cs.map nameElem).flatten
  live : ∀ j c, k ≤ j → cs[j]? = some c → ∃ s, NameBlock h c s
  spares : Spares own h₀ h

theorem NamesAt.freeing {b : Nat} {cs : List Nat} (hn : NamesAt h b cs names []) (own : Nat → Prop) :
    (BitVec.ofNat 64 cs.length).toNat = cs.length ∧ Freeing own h b (BitVec.ofNat 64 cs.length) cs 0 h := by
  have hcount := hn.toNat_length
  obtain ⟨⟨a, ⟨cap, hhead⟩, hszt, helems⟩, -, hlen, hnames⟩ := hn
  rw [List.append_nil] at helems
  rw [Arr.len, helems, hszt, List.length_map] at hhead
  refine ⟨by rw [hlen]; exact hcount, ⟨cap, hhead⟩, ?_, Spares.refl own h⟩
  intro j c _ hc
  obtain ⟨s, hs⟩ : ∃ s, names[j]? = some s :=
    ⟨_, List.getElem?_eq_getElem (hlen ▸ (List.getElem?_eq_some_iff.mp hc).1)⟩
  exact ⟨s, hnames j c s hc hs⟩

variable {h₀ : Heap} {b k : Nat} {n : Size} {cs : List Nat}

theorem Freeing.len (hf : Freeing own h₀ b n cs k h) : dgaLen (arrayPtr b) h = .ok n h :=
  hf.array.elim fun _ hhead => dgaLen_eq hhead

/-- Freeing one name. -/
theorem Freeing.next {c : Nat} (hf : Freeing own h₀ b n cs k h) (hnodup : (b :: cs).Nodup)
    (hall : ∀ c ∈ b :: cs, own c) (hc : cs[k]? = some c) :
    loadPtr ((arrayPtr b).add (8 * k)) h = .ok (arrayPtr c) h ∧
      dgaFree (arrayPtr c) h = .ok () (h.release c) ∧
      Freeing own h₀ b n cs (k + 1) (h.release c) := by
  obtain ⟨⟨cap, harr⟩, hlive, hspares⟩ := hf
  obtain ⟨s, len, szt, cap', rest, hhead⟩ := hlive k c (Nat.le_refl k) hc
  have hmem : c ∈ cs := List.mem_of_getElem? hc
  have hcb : c ≠ b := by
    rintro rfl
    exact (List.nodup_cons.mp hnodup).1 hmem
  have helem : (cs.map nameElem)[k]? = some (nameElem c) := by
    rw [List.getElem?_map, hc]
    rfl
  refine ⟨loadPtr_elem (load_headed harr (nameElem_width cs) helem), dgaFree_eq hhead,
    ⟨cap, (At_release_ne hcb).mpr harr.at_, harr.cap8⟩, ?_,
    hspares.release (hall c (List.mem_cons_of_mem b hmem))⟩
  intro j x hj hx
  obtain ⟨s', hs'⟩ := hlive j x (by omega) hx
  refine ⟨s', hs'.mono fun cells hat => (At_release_ne ?_).mpr hat⟩
  -- a name is not listed twice
  rintro rfl
  have hk := (List.getElem?_eq_some_iff.mp hc).1
  have hidx : k = j := (List.getElem?_inj hk (List.nodup_cons.mp hnodup).2).mp (hc.trans hx.symm)
  omega

/-- Behind the names there is nothing to read. -/
theorem Freeing.past (hf : Freeing own h₀ b n cs k h) :
    Undefined (loadPtr ((arrayPtr b).add (8 * cs.length))) h := by
  obtain ⟨⟨cap, harr⟩, -, -⟩ := hf
  have hpast := load_past harr (nameElem_width cs) (by decide)
  rw [List.length_map] at hpast
  exact Undefined.bind hpast _

/-- Freeing the array last. -/
theorem Freeing.last (hf : Freeing own h₀ b n cs k h) :
    dgaFree (arrayPtr b) h = .ok () (h.release b) :=
  hf.array.elim fun _ harr => dgaFree_eq harr

/-- **A header that counts too many**: `free_dir_content` frees the names and
    reads on. -/
theorem freeDirContent_overruns (hf : Freeing own h₀ b n cs 0 h) (hnodup : (b :: cs).Nodup)
    (hall : ∀ c ∈ b :: cs, own c) (hmore : cs.length < n.toNat) (hfuel : cs.length < maxPasses) :
    Undefined (freeDirContent (arrayPtr b)) h := by
  refine Undefined.bind (Undefined.loop
    (I := fun m k h' => m = cs.length - k ∧ k ≤ cs.length ∧ Freeing own h₀ b n cs k h')
    ?_ (n := cs.length) hfuel ⟨rfl, Nat.zero_le _, hf⟩) _
  intro m k h' ⟨hm, hle, hf'⟩
  by_cases hk : k < cs.length
  · right
    obtain ⟨hload, hfree, hnext⟩ := hf'.next hnodup hall (List.getElem?_eq_getElem hk)
    refine ⟨cs.length - (k + 1), k + 1, _, ?_, by omega, rfl, hk, hnext⟩
    rw [freeContentPass, bind_ok hf'.len, if_pos (by omega), bind_ok hload, bind_ok hfree]
    rfl
  · left
    have heq : k = cs.length := by omega
    rw [freeContentPass]
    refine Undefined.step hf'.len ?_
    rw [if_pos (by omega), heq]
    exact hf'.past.bind _

/-- So does `free_ul_mod_names`. -/
theorem freeUlModNames_overruns (hf : Freeing own h₀ b n cs 0 h) (hnodup : (b :: cs).Nodup)
    (hall : ∀ c ∈ b :: cs, own c) (hmore : cs.length < n.toNat) (hfuel : cs.length < maxPasses) :
    Undefined (freeUlModNames (arrayPtr b)) h := by
  refine Undefined.bind (Undefined.loop
    (I := fun m q h' => ∃ k, q = (arrayPtr b).add (8 * k) ∧ m = cs.length - k ∧ k ≤ cs.length ∧
      Freeing own h₀ b n cs k h')
    ?_ (n := cs.length) hfuel ⟨0, rfl, rfl, Nat.zero_le _, hf⟩) _
  rintro m q h' ⟨k, rfl, hm, hle, hf'⟩
  -- the end it looks for is behind the last name
  have hne : (arrayPtr b).add (8 * k) ≠ (arrayPtr b).add (8 * n.toNat) := by
    intro heq
    have hoff := congrArg Ptr.off heq
    simp only [Ptr.add] at hoff
    omega
  by_cases hk : k < cs.length
  · right
    obtain ⟨hload, hfree, hnext⟩ := hf'.next hnodup hall (List.getElem?_eq_getElem hk)
    refine ⟨cs.length - (k + 1), (arrayPtr b).add (8 * (k + 1)), _, ?_, by omega, k + 1, rfl, rfl, hk, hnext⟩
    rw [freeUlPass, bind_ok hf'.len, if_pos hne, bind_ok hload, bind_ok hfree]
    rfl
  · left
    have heq : k = cs.length := by omega
    rw [freeUlPass]
    refine Undefined.step hf'.len ?_
    rw [if_pos hne, heq]
    exact hf'.past.bind _

/-- **A refused `dga_grow(names, 1)`** leaves an array that cannot be freed. -/
theorem NamesAt.grow_denied (hn : NamesAt h b cs names []) (hg : ¬h.Grants)
    (hfew : names.length + 1 < 2 ^ 64) :
    ∃ h', dgaGrow (arrayPtr b) 1 h = .ok .null h' ∧ Undefined (freeDirContent (arrayPtr b)) h' ∧
      Undefined (freeUlModNames (arrayPtr b)) h' := by
  obtain ⟨hcount, ⟨cap, harr⟩, hlive, -⟩ := hn.freeing fun _ => True
  have hlen := hn.length
  have hnodup := hn.nodup
  have hgrow : dgaGrow (arrayPtr b) 1 h = .ok .null _ :=
    (dgaGrow_eq harr 1).trans (dgaResize_denied harr hg _)
  have hcut : Freeing (fun _ => True) h b (BitVec.ofNat 64 cs.length + 1) cs 0
      (h.put b (blockCells (BitVec.ofNat 64 cs.length + 1) cap 8 (cs.map nameElem).flatten)).deny := by
    refine ⟨⟨cap, At_put_same harr.at_, harr.cap8⟩, ?_, ?_⟩
    · intro j c hj hc
      obtain ⟨s, hs⟩ := hlive j c hj hc
      have hne : b ≠ c := by
        rintro rfl
        exact (List.nodup_cons.mp hnodup).1 (List.mem_of_getElem? hc)
      exact ⟨s, hs.mono fun cells hat => (At_put_ne hne).mpr hat⟩
    · exact ((Spares.refl _ h).put trivial _).deny
  -- the header counts one name more
  have hmore : cs.length < (BitVec.ofNat 64 cs.length + 1).toNat := by
    rw [BitVec.toNat_add, hcount, show (1 : Size).toNat = 1 from rfl, Nat.mod_eq_of_lt (by omega)]
    omega
  have hfuel : cs.length < maxPasses := by
    have hmax : maxPasses = 2 ^ 64 := rfl
    omega
  exact ⟨_, hgrow, freeDirContent_overruns hcut hnodup (fun _ _ => trivial) hmore hfuel,
    freeUlModNames_overruns hcut hnodup (fun _ _ => trivial) hmore hfuel⟩

theorem HoldsNames.grow_denied (hn : HoldsNames own h p names []) (hg : ¬h.Grants)
    (hfew : names.length + 1 < 2 ^ 64) :
    ∃ h', dgaGrow p 1 h = .ok .null h' ∧ Undefined (freeDirContent p) h' := by
  obtain ⟨b, cs, rfl, -, hat⟩ := holdsNames_iff.mp hn
  obtain ⟨h', hgrow, hfree, -⟩ := hat.grow_denied hg hfew
  exact ⟨h', hgrow, hfree⟩

/-- `k` of the names have been freed, in their order. -/
structure Freed (h₀ : Heap) (b : Nat) (cs : List Nat) (k : Nat) (h : Heap) : Prop where
  freeing : Freeing (fun _ => True) h₀ b (BitVec.ofNat 64 cs.length) cs k h
  heap : h = h₀.releaseAll (cs.take k)
  le : k ≤ cs.length

theorem NamesAt.freed (hn : NamesAt h b cs names []) : Freed h b cs 0 h :=
  ⟨(hn.freeing fun _ => True).2, rfl, Nat.zero_le _⟩

theorem Freed.next (hf : Freed h₀ b cs k h) (hnodup : (b :: cs).Nodup) (hk : k < cs.length) :
    ∃ c, loadPtr ((arrayPtr b).add (8 * k)) h = .ok (arrayPtr c) h ∧
      dgaFree (arrayPtr c) h = .ok () (h.release c) ∧ Freed h₀ b cs (k + 1) (h.release c) := by
  have hc : cs[k]? = some cs[k] := List.getElem?_eq_getElem hk
  obtain ⟨hload, hfree, hnext⟩ := hf.freeing.next hnodup (fun _ _ => trivial) hc
  refine ⟨cs[k], hload, hfree, hnext, ?_, hk⟩
  rw [List.take_add_one, hc, Option.toList_some, releaseAll_concat, hf.heap]

/-- The array is freed behind the names. -/
theorem Freed.last (hf : Freed h₀ b cs k h) (hk : ¬k < cs.length) :
    dgaFree (arrayPtr b) h = .ok () (h₀.releaseAll (cs ++ [b])) := by
  have heq : k = cs.length := Nat.le_antisymm hf.le (Nat.le_of_not_lt hk)
  have hheap := hf.heap
  rw [heq, List.take_length] at hheap
  rw [hf.freeing.last, releaseAll_concat, hheap]

/-- **`free_dir_content`** frees every name once, and the array last. -/
theorem freeDirContent_frees (hn : NamesAt h b cs names []) :
    freeDirContent (arrayPtr b) h = .ok () (h.releaseAll (cs ++ [b])) := by
  have hlen : (BitVec.ofNat 64 cs.length).toNat = cs.length := (hn.freeing fun _ => True).1
  have hfuel : cs.length < maxPasses := by
    rw [← hlen]
    exact BitVec.isLt _
  obtain ⟨u, h', hrun, k, hf, hk⟩ : Yields (loop maxPasses (freeContentPass (arrayPtr b)) 0) h
      fun _ h' => ∃ k, Freed h b cs k h' ∧ ¬k < cs.length := by
    refine Yields.loop (I := fun n k h' => Freed h b cs k h' ∧ n = cs.length - k) ?_ hfuel
      ⟨hn.freed, rfl⟩
    intro n k h' ⟨hf, hn'⟩
    refine Yields.step hf.freeing.len ?_
    rw [hlen]
    by_cases hk : k < cs.length
    · rw [if_pos hk]
      obtain ⟨c, hload, hfree, hnext⟩ := hf.next hn.nodup hk
      exact Yields.step hload (Yields.step hfree (Yields.pure ⟨cs.length - (k + 1), by omega, hnext, rfl⟩))
    · rw [if_neg hk]
      exact Yields.pure ⟨k, hf, hk⟩
  rw [freeDirContent, bind_ok hrun, hf.last hk]

/-- What is no array cannot be freed. -/
theorem headless_free (h : Heap) : freeDirContent (Ptr.null.add headerSize) h = .stop .undefined h := by
  have hpass : freeContentPass (Ptr.null.add headerSize) 0 h = .stop .undefined h :=
    bind_stop (headless_len h) _
  exact bind_stop (loop_stop maxPasses_pos hpass) _

/-- **`free_ul_mod_names`** does the same with a pointer that runs over the
    array. -/
theorem freeUlModNames_frees (hn : NamesAt h b cs names []) :
    freeUlModNames (arrayPtr b) h = .ok () (h.releaseAll (cs ++ [b])) := by
  have hlen : (BitVec.ofNat 64 cs.length).toNat = cs.length := (hn.freeing fun _ => True).1
  have hfuel : cs.length < maxPasses := by
    rw [← hlen]
    exact BitVec.isLt _
  obtain ⟨u, h', hrun, k, hf, hk⟩ : Yields (loop maxPasses (freeUlPass (arrayPtr b)) (arrayPtr b)) h
      fun _ h' => ∃ k, Freed h b cs k h' ∧ ¬k < cs.length := by
    -- the pointer has passed the names that are freed
    refine Yields.loop (I := fun n q h' => ∃ k, q = (arrayPtr b).add (8 * k) ∧ Freed h b cs k h' ∧
      n = cs.length - k) ?_ hfuel ⟨0, rfl, hn.freed, rfl⟩
    rintro n q h' ⟨k, rfl, hf, hn'⟩
    refine Yields.step hf.freeing.len ?_
    rw [hlen]
    by_cases hk : k < cs.length
    · have hne : (arrayPtr b).add (8 * k) ≠ (arrayPtr b).add (8 * cs.length) := by
        intro heq
        have hoff := congrArg Ptr.off heq
        simp only [Ptr.add] at hoff
        omega
      rw [if_pos hne]
      obtain ⟨c, hload, hfree, hnext⟩ := hf.next hn.nodup hk
      refine Yields.step hload (Yields.step hfree (Yields.pure
        ⟨cs.length - (k + 1), by omega, k + 1, ?_, hnext, rfl⟩))
      rw [Ptr.add, Ptr.add, Nat.add_assoc, Ptr.add, Nat.mul_succ]
    · have heq : k = cs.length := Nat.le_antisymm hf.le (Nat.le_of_not_lt hk)
      rw [if_neg (by rw [heq]; exact fun hne => hne rfl)]
      exact Yields.pure ⟨k, hf, hk⟩
  rw [freeUlModNames, bind_ok hrun, hf.last hk]

end Freeing

/-! ## §5. The account of an array of names. -/

/-- Of what came after `h₀`, the array and its names are live, and besides them
    only blocks of `spare`. -/
structure Owned (spare : Nat → Prop) (h₀ h : Heap) (b : Nat) (cs : List Nat) (names : List CStr)
    (room : List (List Cell)) : Prop where
  at_ : NamesAt h b cs names room
  leaves : Leaves (fun c => c ∈ b :: cs ∨ spare c) h₀ h
  later : ∀ c ∈ b :: cs, h₀.blocks.length ≤ c

section Owned

variable {spare own : Nat → Prop} {h₀ h h' : Heap} {b : Nat} {cs : List Nat} {names : List CStr}
  {room : List (List Cell)} {s : CStr}

theorem Owned.new (hg : h.Grants) (hl : Leaves spare h₀ h) :
    ∃ cells, dgaNew 0 8 h = .ok (arrayPtr h.blocks.length) (h.alloc cells) ∧
      Owned spare h₀ (h.alloc cells) h.blocks.length [] [] [] := by
  obtain ⟨cells, hrun, hat⟩ := dgaNew_namesAt hg
  refine ⟨cells, hrun, hat, (hl.alloc cells).weaken ?_, ?_⟩
  · rintro c (hc | rfl)
    · exact .inr hc
    · exact .inl (List.mem_singleton_self _)
  · intro c hc
    rw [List.mem_singleton.mp hc]
    exact hl.keeps.length

theorem Owned.holds (ho : Owned spare h₀ h b cs names room) :
    HoldsNames (h₀.blocks.length ≤ ·) h (arrayPtr b) names room :=
  ho.at_.holds ho.later

/-- Work that does not touch the array. -/
theorem Owned.after (ho : Owned spare h₀ h b cs names room) (hl : Leaves own h h') :
    Owned (fun c => spare c ∨ own c) h₀ h' b cs names room := by
  refine ⟨ho.at_.keeps hl.keeps, (ho.leaves.trans hl).weaken ?_, ho.later⟩
  rintro c ((hc | hc) | hc)
  · exact .inl hc
  · exact .inr (.inl hc)
  · exact .inr (.inr hc)

/-- Work done before the array was made. -/
theorem Owned.base {hb : Heap} (ho : Owned (fun _ => False) h₀ h b cs names room)
    (hl : Leaves spare hb h₀) : Owned spare hb h b cs names room := by
  refine ⟨ho.at_, (hl.trans ho.leaves).weaken ?_, fun c hc => Nat.le_trans hl.keeps.length (ho.later c hc)⟩
  rintro c (hc | hc | hc)
  · exact .inr hc
  · exact .inl hc
  · exact hc.elim

theorem Owned.weaken (ho : Owned spare h₀ h b cs names room) (hspare : ∀ c, spare c → own c) :
    Owned own h₀ h b cs names room :=
  ⟨ho.at_, ho.leaves.weaken fun c hc => hc.imp id (hspare c), ho.later⟩

/-- The array has moved. -/
theorem Owned.grow (ho : Owned spare h₀ h b cs names []) (hg : h.Grants)
    (hfits : Fits 8 (names.length + 1)) :
    ∃ cells, dgaGrow (arrayPtr b) 1 h =
        .ok (arrayPtr h.blocks.length) ((h.release b).alloc cells) ∧
      Owned spare h₀ ((h.release b).alloc cells) h.blocks.length cs names [fresh 8] := by
  obtain ⟨cells, hrun, hat⟩ := dgaGrow_namesAt ho.at_ hg hfits
  refine ⟨cells, hrun, hat, ?_, ?_⟩
  · refine ((ho.leaves.release (ho.later b List.mem_cons_self)).alloc cells).weaken ?_
    rintro c (⟨hc | hc, hne⟩ | rfl)
    · exact .inl (List.mem_cons_of_mem _ (List.mem_of_ne_of_mem hne hc))
    · exact .inr hc
    · rw [length_release]
      exact .inl List.mem_cons_self
  · intro c hc
    rcases List.mem_cons.mp hc with rfl | hc
    · exact ho.leaves.keeps.length
    · exact ho.later c (List.mem_cons_of_mem b hc)

/-- The spare block becomes a name. -/
theorem Owned.store {c : Nat} (ho : Owned (fun x => spare x ∨ x = c) h₀ h b cs names [fresh 8])
    (hc : NameBlock h c s) (hnew : c ∉ b :: cs) (hlater : h₀.blocks.length ≤ c) :
    ∃ cells, storePtr ((arrayPtr b).add (8 * names.length)) (arrayPtr c) h = .ok () (h.put b cells) ∧
      Owned spare h₀ (h.put b cells) b (cs ++ [c]) (names ++ [s]) [] := by
  obtain ⟨cells, hrun, hat⟩ := storePtr_namesAt ho.at_ hc hnew
  refine ⟨cells, hrun, hat, ?_, ?_⟩
  · refine (ho.leaves.put (ho.later b List.mem_cons_self) (.inl List.mem_cons_self) cells).weaken ?_
    rintro x (hx | hx | rfl)
    · rw [← List.cons_append]
      exact .inl (List.mem_append_left _ hx)
    · exact .inr hx
    · exact .inl (List.mem_cons_of_mem b (List.mem_append_right cs (List.mem_singleton_self x)))
  · intro x hx
    rw [← List.cons_append] at hx
    rcases List.mem_append.mp hx with hx | hx
    · exact ho.later x hx
    · rw [List.mem_singleton.mp hx]
      exact hlater

/-- The copy of a name that was refused, and room for it. -/
theorem Owned.copy (ho : Owned spare h₀ h b cs names []) (hg : h.Grants)
    (hg' : h.grants (h.requests + 1) = true) (hshort : s.length ≤ NAME_MAX)
    (hfew : names.length ≤ DIR_MAX + 2) :
    ∃ cells cells' h₂ h₃, dgaNew (BitVec.ofNat 64 (s.length + 1)) 4 h =
        .ok (arrayPtr h.blocks.length) (h.alloc cells) ∧
      Heap.store (arrayPtr h.blocks.length) (strCells s) (h.alloc cells) = .ok () (h.alloc cells') ∧
      dgaGrow (arrayPtr b) 1 (h.alloc cells') = .ok (arrayPtr (h.blocks.length + 1)) h₂ ∧
      dgaLen (arrayPtr (h.blocks.length + 1)) h₂ = .ok (BitVec.ofNat 64 (names.length + 1)) h₂ ∧
      storePtr ((arrayPtr (h.blocks.length + 1)).add (8 * names.length)) (arrayPtr h.blocks.length) h₂ =
        .ok () h₃ ∧
      Owned spare h₀ h₃ (h.blocks.length + 1) (cs ++ [h.blocks.length]) (names ++ [s]) [] ∧
      h₃.requests = h.requests + 2 := by
  have hmax : DIR_MAX + 2 < 2 ^ 50 := by decide
  obtain ⟨cells, cells', hnew, hcopy, hnamed⟩ := dgaNew_short hg hshort (s.length + 1) 4
    (by omega) (by omega) (by decide) (by decide)
  have hout : h.blocks.length ∉ b :: cs := fun hmem => Nat.lt_irrefl _ (ho.at_.lt hmem)
  have hfits : Fits 8 (names.length + 1) :=
    ⟨by omega, by rw [headerSize, show (8 : Size).toNat = 8 from rfl]; omega⟩
  -- the copy is a block to spare until its pointer is in the array
  have ho₁ : Owned (fun x => spare x ∨ x = h.blocks.length) h₀ (h.alloc cells') b cs names [] :=
    (ho.after ((Leaves.refl h).alloc cells')).weaken fun c hc => hc.imp id fun hc => hc.resolve_left id
  obtain ⟨cells₂, hgrow, ho₂⟩ := ho₁.grow hg' hfits
  have hne : b ≠ h.blocks.length := fun heq => hout (heq ▸ List.mem_cons_self)
  have hnamed₂ : NameBlock (((h.alloc cells').release b).alloc cells₂) h.blocks.length s :=
    hnamed.mono fun _ hat => At_alloc_old ((At_release_ne hne).mpr hat)
  rw [length_alloc] at hgrow ho₂
  have hout₂ : h.blocks.length ∉ (h.blocks.length + 1) :: cs := by
    intro hmem
    rcases List.mem_cons.mp hmem with heq | hmem
    · omega
    · exact hout (List.mem_cons_of_mem b hmem)
  obtain ⟨cells₃, hstore, ho₃⟩ := ho₂.store hnamed₂ hout₂ ho.leaves.keeps.length
  have hn := ho₂.at_.len
  rw [List.length_singleton] at hn
  exact ⟨cells, cells', _, _, hnew, hcopy, hgrow, hn, hstore, ho₃, rfl⟩

/-- The blocks of an array are all freed, and nothing else. -/
theorem Owned.frees (ho : Owned spare h₀ h b cs names []) :
    (freeDirContent (arrayPtr b) h = .ok () (h.releaseAll (cs ++ [b])) ∧
      freeUlModNames (arrayPtr b) h = .ok () (h.releaseAll (cs ++ [b]))) ∧
      Leaves spare h₀ (h.releaseAll (cs ++ [b])) := by
  have hmem : ∀ c, c ∈ cs ++ [b] ↔ c ∈ b :: cs := by
    intro c
    rw [List.mem_append, List.mem_singleton, List.mem_cons, or_comm]
  refine ⟨⟨freeDirContent_frees ho.at_, freeUlModNames_frees ho.at_⟩, ?_⟩
  refine (ho.leaves.releaseAll fun c hc => ho.later c ((hmem c).mp hc)).weaken ?_
  intro c ⟨hc, hout⟩
  exact hc.resolve_left fun hin => hout ((hmem c).mpr hin)

end Owned

end Prom.Modules
