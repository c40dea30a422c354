/-
  Prom.Tracer.ReadTrace — what `read_string` asks for, and what it returns.

  `readEvents` lists the allocation requests, peeks and writes of a call in
  order.  The results are about every memory, every start address and every
  pattern of granted requests.

  Main results:
    * `readString_safe_sound` — the writes stay inside the buffer, `NULL` is
      returned iff a request was refused, and what is returned otherwise is a
      beginning of the tracee's string.
    * `readString_exact_iff` — when it is the whole string.
-/
import Mathlib.Algebra.Ring.Int.Defs
import Prom.Tracer.ReadString

namespace Prom.Tracer

/-! ## §1. The peek, byte by byte. -/

theorem mapM_some_iff {α β : Type} {f : α → Option β} {l : List α} {ys : List β} :
    l.mapM f = some ys ↔ l.map f = ys.map some := by
  induction l generalizing ys with
  | nil =>
    cases ys with
    | nil => exact ⟨fun _ => rfl, fun _ => rfl⟩
    | cons y ys => exact ⟨fun h => (by cases h), fun h => (by cases h)⟩
  | cons x l ih =>
    rw [List.mapM_cons, List.map_cons]
    cases hx : f x with
    | none =>
      refine ⟨fun h => (by cases h), fun h => ?_⟩
      cases ys with
      | nil => cases h
      | cons y ys => cases h
    | some z =>
      cases ys with
      | nil =>
        refine ⟨fun h => ?_, fun h => (by cases h)⟩
        cases hl : l.mapM f with
        | none =>
          rw [hl] at h
          cases h
        | some zs =>
          rw [hl] at h
          cases h
      | cons y ys =>
        rw [List.map_cons, List.cons_eq_cons, ← ih]
        cases hl : l.mapM f with
        | none => exact ⟨fun h => (by cases h), fun h => (by cases h.2)⟩
        | some zs =>
          constructor
          · intro h
            cases h
            exact ⟨rfl, rfl⟩
          · rintro ⟨hz, hzs⟩
            cases hz
            cases hzs
            rfl

/-- What a peek returns is what is in the memory. -/
theorem peektext_get {mem : TraceeMem} {a : Word} {tmp : List Byte} (h : peektext mem a = some tmp)
    {i : Nat} {c : Byte} (hc : tmp[i]? = some c) : mem (a + BitVec.ofNat 64 i) = some c := by
  have hlen := peektext_length h
  have hi := (List.getElem?_eq_some_iff.mp hc).1
  have hmap := congrArg (fun l => l[i]?) (mapM_some_iff.mp h)
  simp only [List.getElem?_map, hc, Option.map_some] at hmap
  rw [List.getElem?_range (by omega), Option.map_some] at hmap
  exact Option.some.inj hmap

/-- A peek succeeds iff all eight bytes are readable. -/
theorem peektext_isSome_iff {mem : TraceeMem} {a : Word} :
    (peektext mem a).isSome ↔ ∀ i < 8, (mem (a + BitVec.ofNat 64 i)).isSome := by
  constructor
  · intro h i hi
    obtain ⟨tmp, htmp⟩ := Option.isSome_iff_exists.mp h
    have hlen := peektext_length htmp
    rw [peektext_get htmp (List.getElem?_eq_getElem (by omega))]
    rfl
  · intro h
    obtain ⟨ys, hys⟩ : ∃ ys : List Byte, (List.range 8).map (fun i => mem (a + BitVec.ofNat 64 i)) =
        ys.map some := by
      refine ⟨(List.range 8).map fun i => (mem (a + BitVec.ofNat 64 i)).getD 0, ?_⟩
      rw [List.map_map]
      refine List.map_congr_left fun i hi => ?_
      obtain ⟨c, hc⟩ := Option.isSome_iff_exists.mp (h i (List.mem_range.mp hi))
      rw [Function.comp_apply, hc, Option.getD_some]
    rw [peektext, mapM_some_iff.mpr hys]
    rfl

/-! ## §2. The events of a call. -/

/-- What `read_string` asks for, and what it writes. -/
inductive ReadEvent where
  /-- `malloc(size)`. -/
  | malloc (size : Nat) (granted : Bool)
  /-- `realloc(val, size)`. -/
  | realloc (size : Nat) (granted : Bool)
  /-- `free(val)`. -/
  | free
  /-- `PTRACE_PEEKTEXT` at `addr + offset`. -/
  | peek (offset : Nat) (word : Option (List Byte))
  /-- `len` bytes are written at `val + offset`, `allocated` bytes being there. -/
  | write (offset len allocated : Nat)
  deriving Repr, DecidableEq

/-- Whether an event is a peek. -/
def ReadEvent.isPeek : ReadEvent → Bool
  | .peek _ _ => true
  | _ => false

/-- Whether an event is a peek that fails. -/
def ReadEvent.isFailedPeek : ReadEvent → Bool
  | .peek _ none => true
  | _ => false

/-- Whether an event is a request that is refused. -/
def ReadEvent.isRefused : ReadEvent → Bool
  | .malloc _ granted => !granted
  | .realloc _ granted => !granted
  | _ => false

/-- The blocks an event adds; a `realloc` leaves one block for the one it gets. -/
def ReadEvent.blocks : ReadEvent → Int
  | .malloc _ granted => if granted then 1 else 0
  | .free => -1
  | _ => 0

/-- The blocks left allocated by a run. -/
def blocksLeft (events : List ReadEvent) : Int := (events.map ReadEvent.blocks).sum

/-- The events of `growBuffer`. -/
def growEvents (k : Kernel) (b : ReadState) : List ReadEvent :=
  if b.val.length + peekSize > b.allocated then
    let allocated := b.allocated * 2 % 2 ^ 64
    if k.grants b.requests allocated then [.realloc allocated true]
    else [.realloc allocated false, .free]
  else []

/-- The events of `copyWord`. -/
def copyEvents (k : Kernel) (addr : Word) (b : ReadState) : List ReadEvent :=
  match peektext k.mem (addr + BitVec.ofNat 64 b.val.length) with
  | none => [.peek b.val.length none, .write b.val.length 1 b.allocated]
  | some tmp => [.peek b.val.length (some tmp), .write b.val.length tmp.length b.allocated]

/-- The events of `readStringLoop`. -/
def loopEvents (k : Kernel) (addr : Word) : Nat → ReadState → List ReadEvent
  | 0, _ => []
  | fuel + 1, b =>
      growEvents k b ++
        match growBuffer k b with
        | none => []
        | some b =>
            copyEvents k addr b ++
              match copyWord k addr b with
              | .inl _ => []
              | .inr b => loopEvents k addr fuel b

/-- The events of `readString`. -/
def readEvents (k : Kernel) (addr : Word) : List ReadEvent :=
  .malloc readStart.allocated (k.grants 0 readStart.allocated) ::
    if k.grants 0 readStart.allocated then loopEvents k addr (2 ^ 60) readStart else []

/-! ## §3. One turn. -/

/-- The state at the start of a turn: whole words were copied, none with a NUL. -/
structure Copied (k : Kernel) (addr : Word) (b : ReadState) : Prop where
  ok : b.Ok
  words : 8 ∣ b.val.length
  bytes : ∀ (i : Nat) (c : Byte), b.val[i]? = some c →
    k.mem (addr + BitVec.ofNat 64 i) = some c ∧ c ≠ 0

section Turn

variable {k : Kernel} {addr : Word} {b b' : ReadState} {tmp : List Byte}

theorem copied_start (k : Kernel) (addr : Word) : Copied k addr readStart :=
  ⟨readStart_ok, Nat.dvd_zero 8, fun _ _ h => by cases h⟩

/-- The growth, by its outcome. -/
theorem grow_cases (hc : Copied k addr b) :
    (growBuffer k b = none ∧ ∃ size, growEvents k b = [.realloc size false, .free]) ∨
    ∃ b', growBuffer k b = some b' ∧ Copied k addr b' ∧ b'.val = b.val ∧
      b.val.length + peekSize ≤ b'.allocated ∧
      (growEvents k b = [] ∨ ∃ size, growEvents k b = [.realloc size true]) := by
  cases hg : growBuffer k b with
  | none =>
    refine .inl ⟨rfl, ?_⟩
    simp only [growBuffer] at hg
    split at hg
    · rename_i hfull
      split at hg
      · cases hg
      · rename_i hno
        exact ⟨b.allocated * 2 % 2 ^ 64, by rw [growEvents, if_pos hfull]; exact if_neg hno⟩
    · cases hg
  | some b' =>
    obtain ⟨hok, hval, hroom⟩ := growBuffer_ok hc.ok hg
    refine .inr ⟨b', rfl, ⟨hok, by rw [hval]; exact hc.words, by rw [hval]; exact hc.bytes⟩, hval,
      hroom, ?_⟩
    simp only [growBuffer] at hg
    rw [growEvents]
    split at hg
    · rename_i hfull
      rw [if_pos hfull]
      split at hg
      · rename_i hyes
        exact .inr ⟨b.allocated * 2 % 2 ^ 64, if_pos hyes⟩
      · cases hg
    · rename_i hnot
      exact .inl (if_neg hnot)

/-- The bytes of a word lie behind those copied before. -/
theorem Copied.append_bytes (hc : Copied k addr b)
    (hp : peektext k.mem (addr + BitVec.ofNat 64 b.val.length) = some tmp) {i : Nat} {c : Byte}
    (hi : (b.val ++ tmp)[i]? = some c) : k.mem (addr + BitVec.ofNat 64 i) = some c := by
  rcases Nat.lt_or_ge i b.val.length with hlt | hge
  · rw [List.getElem?_append_left hlt] at hi
    exact (hc.bytes i c hi).1
  · rw [List.getElem?_append_right hge] at hi
    have hmem := peektext_get hp hi
    rw [BitVec.add_assoc, ← BitVec.ofNat_add, Nat.add_sub_cancel' hge] at hmem
    exact hmem

/-- The copy of one word, by what the peek returned. -/
theorem copy_cases (hc : Copied k addr b) (hroom : b.val.length + peekSize ≤ b.allocated) :
    (peektext k.mem (addr + BitVec.ofNat 64 b.val.length) = none ∧
      copyWord k addr b = .inl (.str (b.val ++ [0]) 1)) ∨
    ∃ tmp, peektext k.mem (addr + BitVec.ofNat 64 b.val.length) = some tmp ∧ tmp.length = 8 ∧
      (tmp.contains 0 = true ∧ copyWord k addr b = .inl (.str (b.val ++ tmp) 1) ∨
        tmp.contains 0 = false ∧ copyWord k addr b = .inr { b with val := b.val ++ tmp } ∧
          Copied k addr { b with val := b.val ++ tmp }) := by
  have hsize : peekSize = 8 := rfl
  unfold copyWord
  cases hp : peektext k.mem (addr + BitVec.ofNat 64 b.val.length) with
  | none =>
    refine .inl ⟨rfl, ?_⟩
    simp only
    rw [if_pos (by omega)]
  | some tmp =>
    have hlen := peektext_length hp
    refine .inr ⟨tmp, rfl, hlen, ?_⟩
    simp only
    rw [if_pos (by omega)]
    cases hnul : tmp.contains 0 with
    | true => exact .inl ⟨rfl, rfl⟩
    | false =>
      refine .inr ⟨rfl, rfl, ⟨?_, hc.ok.granted, hc.ok.room⟩, ?_, ?_⟩
      · show (b.val ++ tmp).length ≤ b.allocated
        rw [List.length_append]
        omega
      · show 8 ∣ (b.val ++ tmp).length
        rw [List.length_append, hlen]
        exact Nat.dvd_add hc.words (Nat.dvd_refl 8)
      · intro i c hi
        refine ⟨hc.append_bytes hp hi, ?_⟩
        -- neither the old bytes nor the word have a NUL
        rintro rfl
        rcases List.mem_append.mp (List.mem_of_getElem? hi) with hold | hnew
        · obtain ⟨j, hj⟩ := List.getElem?_of_mem hold
          exact (hc.bytes j 0 hj).2 rfl
        · rw [List.contains_iff_mem.mpr hnew] at hnul
          cases hnul

/-- A NUL in the memory lies behind what was copied. -/
theorem Copied.le_nul (hc : Copied k addr b) {n : Nat}
    (hn : k.mem (addr + BitVec.ofNat 64 n) = some 0) : b.val.length ≤ n := by
  by_contra hlt
  obtain ⟨hmem, hne⟩ := hc.bytes n _ (List.getElem?_eq_getElem (Nat.lt_of_not_le hlt))
  rw [hn] at hmem
  exact hne (Option.some.inj hmem).symm

end Turn

/-! ## §4. The result of a run. -/

/-- The string is at the start of the buffer and has no NUL. -/
theorem cString_get {val : List Byte} {i : Nat} {c : Byte} (hi : (cString val)[i]? = some c) :
    val[i]? = some c ∧ c ≠ 0 := by
  rw [cString] at hi
  constructor
  · obtain ⟨rest, hrest⟩ := List.takeWhile_prefix (l := val) (fun x : Byte => x != 0)
    rw [← hrest, List.getElem?_append_left (List.getElem?_eq_some_iff.mp hi).1]
    exact hi
  · have hall := List.all_eq_true.mp (List.all_takeWhile (p := (· != 0)) (l := val)) c
      (List.mem_of_getElem? hi)
    exact bne_iff_ne.mp hall

/-- The terminator is right behind the string. -/
theorem getElem?_cString {val : List Byte} (h : 0 ∈ val) : val[(cString val).length]? = some 0 := by
  induction val with
  | nil => cases h
  | cons c val ih =>
    by_cases hc : c = 0
    · subst hc
      rfl
    · have hmem : 0 ∈ val := by
        rcases List.mem_cons.mp h with heq | hmem
        · exact absurd heq.symm hc
        · exact hmem
      have hkeep : ((fun x : Byte => x != 0) c) = true := bne_iff_ne.mpr hc
      show (c :: val)[((c :: val).takeWhile (fun x => x != 0)).length]? = some 0
      rw [List.takeWhile_cons, if_pos hkeep, List.length_cons, List.getElem?_cons_succ]
      exact ih hmem

/-- What `read_string` returns, in the light of what it asked for. -/
def Reports (k : Kernel) (addr : Word) (events : List ReadEvent) : ReadResult → Prop
  | .overrun => False
  | .null live => live = 0 ∧ events.any ReadEvent.isRefused = true
  | .str val live =>
      live = 1 ∧ events.any ReadEvent.isRefused = false ∧ 0 ∈ val ∧
        (∀ (i : Nat) (c : Byte), (cString val)[i]? = some c →
          k.mem (addr + BitVec.ofNat 64 i) = some c ∧ c ≠ 0) ∧
        (events.any ReadEvent.isFailedPeek = false →
          k.mem (addr + BitVec.ofNat 64 (cString val).length) = some 0)

/-- The number of blocks a result says are left. -/
def ReadResult.live : ReadResult → Int
  | .null live => live
  | .str _ live => live
  | .overrun => 1

/-- Every write stays inside the buffer. -/
def InBounds (events : List ReadEvent) : Prop :=
  ∀ offset len allocated, .write offset len allocated ∈ events → offset + len ≤ allocated

section Run

variable {k : Kernel} {addr : Word} {b : ReadState} {r : ReadResult} {fuel n : Nat}

/-- What was done before, no request being refused. -/
theorem Reports.append {before after : List ReadEvent} (h : Reports k addr after r)
    (hbefore : before.any ReadEvent.isRefused = false) : Reports k addr (before ++ after) r := by
  have hany : (before ++ after).any ReadEvent.isRefused = after.any ReadEvent.isRefused := by
    rw [List.any_append, hbefore, Bool.false_or]
  cases r with
  | overrun => exact h
  | null live =>
    obtain ⟨hlive, hreq⟩ := h
    exact ⟨hlive, hany.trans hreq⟩
  | str val live =>
    obtain ⟨hlive, hreq, hnul, hbytes, hall⟩ := h
    refine ⟨hlive, hany.trans hreq, hnul, hbytes, fun hpeeks => hall ?_⟩
    rw [List.any_append, Bool.or_eq_false_iff] at hpeeks
    exact hpeeks.2

theorem InBounds.append {before after : List ReadEvent} (hb : InBounds before) (ha : InBounds after) :
    InBounds (before ++ after) := by
  intro offset len allocated hmem
  rcases List.mem_append.mp hmem with h | h
  · exact hb offset len allocated h
  · exact ha offset len allocated h

theorem blocksLeft_append (before after : List ReadEvent) :
    blocksLeft (before ++ after) = blocksLeft before + blocksLeft after := by
  rw [blocksLeft, List.map_append, List.sum_append]
  rfl

/-- The last word of a string that ends with a NUL. -/
theorem reports_nul {tmp : List Byte} {events : List ReadEvent} (hc : Copied k addr b)
    (hp : peektext k.mem (addr + BitVec.ofNat 64 b.val.length) = some tmp)
    (hnul : tmp.contains 0 = true) (hreq : events.any ReadEvent.isRefused = false) :
    Reports k addr events (.str (b.val ++ tmp) 1) := by
  have hmem : (0 : Byte) ∈ b.val ++ tmp :=
    List.mem_append_right _ (List.contains_iff_mem.mp hnul)
  refine ⟨rfl, hreq, hmem, ?_, fun _ => hc.append_bytes hp (getElem?_cString hmem)⟩
  intro i c hi
  obtain ⟨hval, hne⟩ := cString_get hi
  exact ⟨hc.append_bytes hp hval, hne⟩

/-- The string is cut where a peek failed. -/
theorem reports_cut {events : List ReadEvent} (hc : Copied k addr b)
    (hpeek : events.any ReadEvent.isFailedPeek = true)
    (hreq : events.any ReadEvent.isRefused = false) :
    Reports k addr events (.str (b.val ++ [0]) 1) := by
  refine ⟨rfl, hreq, List.mem_append_right _ List.mem_cons_self, ?_, fun hall => ?_⟩
  · intro i c hi
    obtain ⟨hval, hne⟩ := cString_get hi
    rcases Nat.lt_or_ge i b.val.length with hlt | hge
    · rw [List.getElem?_append_left hlt] at hval
      exact hc.bytes i c hval
    · rw [List.getElem?_append_right hge] at hval
      cases hrest : i - b.val.length with
      | zero =>
        rw [hrest] at hval
        cases hval
        exact absurd rfl hne
      | succ j =>
        rw [hrest] at hval
        cases hval
  · rw [hpeek] at hall
    cases hall

/-- Growing writes nothing, and leaves the one block there is. -/
theorem grow_events (h : growEvents k b = [] ∨ ∃ size, growEvents k b = [.realloc size true]) :
    (growEvents k b).any ReadEvent.isRefused = false ∧ InBounds (growEvents k b) ∧
      blocksLeft (growEvents k b) = 0 := by
  rcases h with hev | ⟨size, hev⟩
  · rw [hev]
    exact ⟨rfl, fun offset len allocated hmem => absurd hmem List.not_mem_nil, rfl⟩
  · rw [hev]
    refine ⟨rfl, fun offset len allocated hmem => ?_, rfl⟩
    cases List.mem_singleton.mp hmem

/-- A turn writes where there is room. -/
theorem copy_events (hroom : b.val.length + peekSize ≤ b.allocated) :
    (copyEvents k addr b).any ReadEvent.isRefused = false ∧ InBounds (copyEvents k addr b) ∧
      blocksLeft (copyEvents k addr b) = 0 := by
  have hsize : peekSize = 8 := rfl
  unfold copyEvents
  cases hp : peektext k.mem (addr + BitVec.ofNat 64 b.val.length) with
  | none =>
    refine ⟨rfl, fun offset len allocated hmem => ?_, rfl⟩
    simp only [List.mem_cons, reduceCtorEq, ReadEvent.write.injEq, List.not_mem_nil, or_false,
      false_or] at hmem
    omega
  | some tmp =>
    have hlen := peektext_length hp
    refine ⟨rfl, fun offset len allocated hmem => ?_, rfl⟩
    simp only [List.mem_cons, reduceCtorEq, ReadEvent.write.injEq, List.not_mem_nil, or_false,
      false_or] at hmem
    omega

/-- **A run of the loop**: its result, where it writes and what it leaves. -/
theorem loop_reports (hc : Copied k addr b) (h : readStringLoop k addr fuel b = some r) :
    Reports k addr (loopEvents k addr fuel b) r ∧ InBounds (loopEvents k addr fuel b) ∧
      blocksLeft (loopEvents k addr fuel b) + 1 = r.live := by
  induction fuel generalizing b with
  | zero => cases h
  | succ fuel ih =>
    rw [readStringLoop] at h
    rw [loopEvents]
    rcases grow_cases hc with ⟨hgrow, size, hev⟩ | ⟨b₁, hgrow, hc₁, hval, hroom, hev⟩
    · -- the buffer cannot grow
      rw [hgrow] at h ⊢
      cases h
      rw [hev, List.append_nil]
      refine ⟨⟨rfl, rfl⟩, fun offset len allocated hmem => ?_, rfl⟩
      simp only [List.mem_cons, reduceCtorEq, List.not_mem_nil, or_self] at hmem
    · obtain ⟨hgrewOk, hgrewIn, hgrewLeft⟩ := grow_events hev
      rw [hgrow] at h ⊢
      simp only at h ⊢
      rw [← hval] at hroom
      have hcopied : (copyEvents k addr _).any _ = _ ∧ _ := copy_events hroom
      obtain ⟨hcopyOk, hcopyIn, hcopyLeft⟩ := hcopied
      rw [blocksLeft_append, blocksLeft_append, hgrewLeft, hcopyLeft]
      rcases copy_cases hc₁ hroom with ⟨hp, hcopy⟩ | ⟨tmp, hp, hlen, ⟨hnul, hcopy⟩ | ⟨-, hcopy, hc₂⟩⟩
      · -- the peek fails
        rw [hcopy] at h ⊢
        cases h
        have hfailed : (copyEvents k addr b₁).any ReadEvent.isFailedPeek = true := by
          rw [copyEvents, hp]
          rfl
        rw [List.append_nil]
        exact ⟨(reports_cut hc₁ hfailed hcopyOk).append hgrewOk, hgrewIn.append hcopyIn, rfl⟩
      · -- the word has the NUL
        rw [hcopy] at h ⊢
        cases h
        rw [List.append_nil]
        exact ⟨(reports_nul hc₁ hp hnul hcopyOk).append hgrewOk, hgrewIn.append hcopyIn, rfl⟩
      · -- and the next turn
        rw [hcopy] at h ⊢
        obtain ⟨hrep, hin, hleft⟩ := ih hc₂ h
        refine ⟨(hrep.append hcopyOk).append hgrewOk, hgrewIn.append (hcopyIn.append hin), ?_⟩
        rw [Int.zero_add, Int.zero_add]
        exact hleft

/-- With a NUL at offset `n` there are at most `n / 8 + 1` peeks. -/
theorem loop_peeks (hc : Copied k addr b) (hn : k.mem (addr + BitVec.ofNat 64 n) = some 0) :
    (loopEvents k addr fuel b).countP ReadEvent.isPeek + b.val.length / 8 ≤ n / 8 + 1 := by
  induction fuel generalizing b with
  | zero =>
    have hle := Nat.div_le_div_right (c := 8) (hc.le_nul hn)
    exact Nat.le_trans (Nat.le_of_eq (Nat.zero_add _)) (Nat.le_succ_of_le hle)
  | succ fuel ih =>
    have hle := Nat.div_le_div_right (c := 8) (hc.le_nul hn)
    have hgrowPeeks : (growEvents k b).countP ReadEvent.isPeek = 0 := by
      simp only [growEvents]
      split
      · split <;> rfl
      · rfl
    rw [loopEvents, List.countP_append, hgrowPeeks]
    rcases grow_cases hc with ⟨hgrow, -⟩ | ⟨b₁, hgrow, hc₁, hval, hroom, -⟩
    · rw [hgrow]
      simp only [List.countP_nil]
      omega
    · rw [hgrow]
      simp only [List.countP_append]
      have hcopyPeeks : (copyEvents k addr b₁).countP ReadEvent.isPeek = 1 := by
        rw [copyEvents]
        split <;> rfl
      rw [hcopyPeeks, ← hval]
      rw [← hval] at hroom hle
      rcases copy_cases hc₁ hroom with ⟨-, hcopy⟩ | ⟨tmp, -, hlen, ⟨-, hcopy⟩ | ⟨-, hcopy, hc₂⟩⟩
      · rw [hcopy]
        simp only [List.countP_nil]
        omega
      · rw [hcopy]
        simp only [List.countP_nil]
        omega
      · rw [hcopy]
        -- the word copied pays for the peek
        have hnext := ih hc₂
        have hlen₂ : (b₁.val ++ tmp).length / 8 = b₁.val.length / 8 + 1 := by
          rw [List.length_append, hlen]
          omega
        rw [show (ReadState.val { b₁ with val := b₁.val ++ tmp }).length / 8 = _ from hlen₂] at hnext
        show 0 + (1 + List.countP _ (loopEvents k addr fuel _)) + _ ≤ _
        omega

/-- And as many turns are enough. -/
theorem loop_ends (hc : Copied k addr b) (hn : k.mem (addr + BitVec.ofNat 64 n) = some 0)
    (hfuel : n / 8 + 1 ≤ fuel + b.val.length / 8) : (readStringLoop k addr fuel b).isSome := by
  induction fuel generalizing b with
  | zero =>
    -- what has been copied ends before the NUL
    have hle := Nat.div_le_div_right (c := 8) (hc.le_nul hn)
    omega
  | succ fuel ih =>
    rw [readStringLoop]
    rcases grow_cases hc with ⟨hgrow, -⟩ | ⟨b₁, hgrow, hc₁, hval, hroom, -⟩
    · rw [hgrow]
      rfl
    · rw [hgrow]
      simp only
      rw [← hval] at hroom hfuel
      rcases copy_cases hc₁ hroom with ⟨-, hcopy⟩ | ⟨tmp, -, hlen, ⟨-, hcopy⟩ | ⟨-, hcopy, hc₂⟩⟩
      · rw [hcopy]
        rfl
      · rw [hcopy]
        rfl
      · rw [hcopy]
        -- one turn less, eight bytes more
        refine ih hc₂ ?_
        show _ ≤ fuel + (b₁.val ++ tmp).length / 8
        rw [List.length_append, hlen]
        omega

end Run

/-! ## §5. Safety and soundness. -/

/-- The result of a call, where it writes and what it leaves. -/
theorem readString_reports (k : Kernel) (addr : Word) :
    Reports k addr (readEvents k addr) (readString k addr) ∧ InBounds (readEvents k addr) ∧
      blocksLeft (readEvents k addr) = (readString k addr).live := by
  obtain ⟨r, hr⟩ := Option.isSome_iff_exists.mp
    (readStringLoop_isSome k addr (2 ^ 60) readStart readStart_ok (by decide))
  obtain ⟨hrep, hin, hleft⟩ := loop_reports (copied_start k addr) hr
  rw [readEvents, readString]
  cases hgrant : k.grants 0 readStart.allocated with
  | false =>
    refine ⟨⟨rfl, rfl⟩, fun offset len allocated hmem => ?_, rfl⟩
    cases List.mem_singleton.mp hmem
  | true =>
    simp only [if_true]
    rw [(Option.get_of_eq_some _ hr : _ = r)]
    have hmalloc : InBounds [ReadEvent.malloc readStart.allocated true] := by
      intro offset len allocated hmem
      cases List.mem_singleton.mp hmem
    exact ⟨hrep.append rfl, hmalloc.append hin, (Int.add_comm _ _).trans hleft⟩

/-- With every request granted there is a string. -/
theorem readString_str {k : Kernel} {addr : Word}
    (hreq : (readEvents k addr).any ReadEvent.isRefused = false) :
    ∃ val, readString k addr = .str val 1 ∧
      ∀ (i : Nat) (c : Byte), (cString val)[i]? = some c →
        k.mem (addr + BitVec.ofNat 64 i) = some c ∧ c ≠ 0 := by
  have hrep := (readString_reports k addr).1
  cases hr : readString k addr with
  | overrun =>
    rw [hr] at hrep
    cases hrep
  | null live =>
    rw [hr] at hrep
    exact absurd (hrep.2.symm.trans hreq) (by decide)
  | str val live =>
    rw [hr] at hrep
    obtain ⟨rfl, -, -, hbytes, -⟩ := hrep
    exact ⟨val, rfl, hbytes⟩

/-- **`read_string` is safe and sound on every memory.** -/
theorem readString_safe_sound (k : Kernel) (addr : Word) :
    (readStringLoop k addr (2 ^ 60) readStart).isSome = true ∧
    (∀ n, k.mem (addr + BitVec.ofNat 64 n) = some 0 →
      (readStringLoop k addr (n / 8 + 1) readStart).isSome = true ∧
        (readEvents k addr).countP ReadEvent.isPeek ≤ n / 8 + 1) ∧
    InBounds (readEvents k addr) ∧
    blocksLeft (readEvents k addr) = (readString k addr).live ∧
    Reports k addr (readEvents k addr) (readString k addr) := by
  have hstart := copied_start k addr
  obtain ⟨hrep, hin, hleft⟩ := readString_reports k addr
  refine ⟨readStringLoop_isSome k addr (2 ^ 60) readStart readStart_ok (by decide),
    fun n hn => ⟨loop_ends hstart hn (Nat.le_refl _), ?_⟩, hin, hleft, hrep⟩
  have hpeeks : (loopEvents k addr (2 ^ 60) readStart).countP _ + _ ≤ _ := loop_peeks hstart hn
  rw [readEvents]
  split
  · exact hpeeks
  · exact Nat.zero_le _

/-! ## §6. When the string is complete. -/

/-- The NUL-terminated string at an address, all of it readable. -/
structure StringAt (mem : TraceeMem) (addr : Word) (s : Path) : Prop where
  bytes : ∀ (i : Nat) (c : Byte), s[i]? = some c → mem (addr + BitVec.ofNat 64 i) = some c ∧ c ≠ 0
  nul : mem (addr + BitVec.ofNat 64 s.length) = some 0

/-- The string ends at a word, or its last word is readable to the end. -/
def LastWordReadable (mem : TraceeMem) (addr : Word) (s : Path) : Prop :=
  s.length % 8 = 0 ∨
    ∀ i < 8, (mem (addr + BitVec.ofNat 64 (s.length / 8 * 8 + i))).isSome = true

section Complete

variable {k : Kernel} {addr : Word} {b : ReadState} {fuel : Nat} {s t : Path} {val : List Byte}
variable {live : Nat}

theorem StringAt.readable (hs : StringAt k.mem addr s) {i : Nat} (hi : i ≤ s.length) :
    (k.mem (addr + BitVec.ofNat 64 i)).isSome := by
  rcases Nat.lt_or_ge i s.length with hlt | hge
  · rw [(hs.bytes i _ (List.getElem?_eq_getElem hlt)).1]
    rfl
  · rw [Nat.le_antisymm hi hge, hs.nul]
    rfl

/-- What a read returns is a beginning of the string. -/
theorem StringAt.prefix_of (hs : StringAt k.mem addr s)
    (ht : ∀ (i : Nat) (c : Byte), t[i]? = some c →
      k.mem (addr + BitVec.ofNat 64 i) = some c ∧ c ≠ 0) : t = s.take t.length := by
  have hle : t.length ≤ s.length := by
    by_contra hlt
    obtain ⟨hmem, hne⟩ := ht s.length _ (List.getElem?_eq_getElem (Nat.lt_of_not_le hlt))
    rw [hs.nul] at hmem
    exact hne (Option.some.inj hmem).symm
  refine List.ext_getElem (by rw [List.length_take, Nat.min_eq_left hle]) fun i hi _ => ?_
  have hs' := hs.bytes i _ (List.getElem?_eq_getElem (Nat.lt_of_lt_of_le hi hle))
  have ht' := ht i _ (List.getElem?_eq_getElem hi)
  rw [List.getElem_take]
  exact Option.some.inj (ht'.1.symm.trans hs'.1)

/-- The string of a buffer whose beginning has no NUL. -/
theorem Copied.cString_append (hc : Copied k addr b) (rest : List Byte) :
    cString (b.val ++ rest) = b.val ++ cString rest := by
  refine List.takeWhile_append_of_pos fun c hmem => ?_
  obtain ⟨i, hi⟩ := List.getElem?_of_mem hmem
  exact bne_iff_ne.mpr (hc.bytes i c hi).2

/-- Where the last peek was, and whether it succeeded. -/
theorem loop_last (hc : Copied k addr b)
    (h : readStringLoop k addr fuel b = some (.str val live)) :
    ∃ m, 8 ∣ m ∧
      ((peektext k.mem (addr + BitVec.ofNat 64 m) = none ∧ (cString val).length = m) ∨
        ((peektext k.mem (addr + BitVec.ofNat 64 m)).isSome = true ∧ m ≤ (cString val).length ∧
          (cString val).length < m + 8 ∧
          k.mem (addr + BitVec.ofNat 64 (cString val).length) = some 0)) := by
  induction fuel generalizing b with
  | zero => cases h
  | succ fuel ih =>
    rw [readStringLoop] at h
    rcases grow_cases hc with ⟨hgrow, -⟩ | ⟨b₁, hgrow, hc₁, hval, hroom, -⟩
    · rw [hgrow] at h
      cases h
    · rw [hgrow] at h
      simp only at h
      rw [← hval] at hroom
      rcases copy_cases hc₁ hroom with ⟨hp, hcopy⟩ | ⟨tmp, hp, hlen, ⟨hnul, hcopy⟩ | ⟨-, hcopy, hc₂⟩⟩
      · rw [hcopy] at h
        cases h
        refine ⟨b₁.val.length, hc₁.words, .inl ⟨hp, ?_⟩⟩
        rw [hc₁.cString_append]
        exact congrArg _ (List.append_nil _)
      · rw [hcopy] at h
        cases h
        refine ⟨b₁.val.length, hc₁.words, .inr ⟨Option.isSome_iff_exists.mpr ⟨tmp, hp⟩, ?_⟩⟩
        -- the string ends within the word copied last
        have hmem := List.contains_iff_mem.mp hnul
        have hlt := (List.getElem?_eq_some_iff.mp (getElem?_cString hmem)).1
        have hzero := hc₁.append_bytes hp (getElem?_cString (List.mem_append_right _ hmem))
        have hsum : (cString (b₁.val ++ tmp)).length = b₁.val.length + (cString tmp).length := by
          rw [hc₁.cString_append, List.length_append]
        exact ⟨by omega, by omega, hzero⟩
      · rw [hcopy] at h
        exact ih hc₂ h

/-- The string that comes out: all of it, or its whole words. -/
theorem readString_at (hs : StringAt k.mem addr s)
    (hreq : (readEvents k addr).any ReadEvent.isRefused = false) :
    ∃ val, readString k addr = .str val 1 ∧ (LastWordReadable k.mem addr s → cString val = s) ∧
      (¬ LastWordReadable k.mem addr s → cString val = s.take (s.length / 8 * 8)) := by
  obtain ⟨val, hread, hbytes⟩ := readString_str hreq
  have hloop : readStringLoop k addr (2 ^ 60) readStart = some (.str val 1) := by
    rw [readString] at hread
    split at hread
    · rw [← hread, Option.some_get]
    · cases hread
  have hpre := hs.prefix_of hbytes
  -- what was copied is the string or the front of it
  have hle : (cString val).length ≤ s.length := by
    rw [hpre, List.length_take]
    exact Nat.min_le_right _ _
  refine ⟨val, hread, ?_⟩
  obtain ⟨m, ⟨j, rfl⟩, ⟨hp, hlen⟩ | ⟨hp, hge, hlt, hzero⟩⟩ := loop_last (copied_start k addr) hloop
  · -- the last peek failed: some byte of that word is not readable
    have hword : ¬ ∀ i < 8, (k.mem (addr + BitVec.ofNat 64 (8 * j + i))).isSome := by
      intro hall
      have hpeek : (peektext k.mem (addr + BitVec.ofNat 64 (8 * j))).isSome := by
        refine peektext_isSome_iff.mpr fun i hi => ?_
        rw [BitVec.add_assoc, ← BitVec.ofNat_add]
        exact hall i hi
      rw [hp] at hpeek
      cases hpeek
    -- so the string does not fill that word
    have hlast : s.length < 8 * j + 7 := by
      by_contra hfit
      exact hword fun i hi => hs.readable (by omega)
    rw [hpre, hlen]
    constructor
    · rintro (hmod | hreadable)
      · rw [show 8 * j = s.length by omega, List.take_length]
      · rw [show s.length / 8 * 8 = 8 * j by omega] at hreadable
        exact absurd hreadable hword
    · intro _
      rw [show s.length / 8 * 8 = 8 * j by omega]
  · -- the last word was copied whole, and with it the NUL
    have hlen : (cString val).length = s.length := by
      by_contra hne
      obtain ⟨hmem, hnz⟩ := hs.bytes _ _ (List.getElem?_eq_getElem (Nat.lt_of_le_of_ne hle hne))
      rw [hzero] at hmem
      exact hnz (Option.some.inj hmem).symm
    refine ⟨fun _ => by rw [hpre, hlen, List.take_length], fun hno => absurd (.inr ?_) hno⟩
    intro i hi
    rw [show s.length / 8 * 8 = 8 * j by omega, BitVec.ofNat_add, ← BitVec.add_assoc]
    exact peektext_isSome_iff.mp hp i hi

end Complete

/-- What is cut is not the string. -/
theorem take_words_ne {mem : TraceeMem} {addr : Word} {s : Path}
    (h : ¬ LastWordReadable mem addr s) : s.take (s.length / 8 * 8) ≠ s := by
  intro heq
  have hlen := congrArg List.length heq
  rw [List.length_take] at hlen
  exact h (.inl (by omega))

/-- **Which strings `read_string` returns whole**: those that end at a word, or
whose last word is readable to its end. -/
theorem readString_exact_iff (k : Kernel) (addr : Word) (s : Path) (hs : StringAt k.mem addr s)
    (hreq : (readEvents k addr).any ReadEvent.isRefused = false) :
    (∃ val live, readString k addr = .str val live ∧ cString val = s) ↔
      LastWordReadable k.mem addr s := by
  obtain ⟨val, hread, hwhole, hcut⟩ := readString_at hs hreq
  refine ⟨?_, fun hlast => ⟨val, 1, hread, hwhole hlast⟩⟩
  rintro ⟨val', live, hread', hval⟩
  rw [hread] at hread'
  cases hread'
  by_contra hno
  exact take_words_ne hno ((hcut hno).symm.trans hval)

/-- The last two readable bytes of a page: `"a"`. -/
def pageEnd : Kernel where
  getregs := .ok {}
  mem a := if a = 4094 then some 97 else if a = 4095 then some 0 else none

theorem pageEnd_string : StringAt pageEnd.mem 4094 [97] where
  bytes
    | 0, _, h => by
      cases h
      exact ⟨rfl, by decide⟩
    | _ + 1, _, h => by cases h
  nul := rfl

/-- The path at the end of a page comes out empty. -/
theorem pageEnd_cut : readString pageEnd 4094 = .str [0] 1 := by
  rfl

/-- Not every readable path is recovered. -/
theorem readString_cut : ¬ ∀ (k : Kernel) (addr : Word) (s : Path), StringAt k.mem addr s →
    (readEvents k addr).any ReadEvent.isRefused = false →
    ∃ val live, readString k addr = .str val live ∧ cString val = s := by
  intro h
  obtain ⟨val, live, hread, hval⟩ := h pageEnd 4094 [97] pageEnd_string (by rfl)
  rw [pageEnd_cut] at hread
  cases hread
  cases hval

/-- Eight bytes and the NUL at the end of a page. -/
def pageWords : Kernel where
  getregs := .ok {}
  mem a := if a = 4095 then some 0 else if 4087 ≤ a ∧ a < 4095 then some 97 else none

theorem pageWords_string : StringAt pageWords.mem 4087 (List.replicate 8 97) where
  bytes i c h := by
    rw [List.getElem?_replicate] at h
    split at h
    · rename_i hi
      cases h
      refine ⟨?_, by decide⟩
      revert i
      decide
    · cases h
  nul := rfl

theorem readString_whole_words :
    ∃ val live, readString pageWords 4087 = .str val live ∧ cString val = List.replicate 8 97 :=
  (readString_exact_iff pageWords 4087 _ pageWords_string (by rfl)).mpr (.inl rfl)

end Prom.Tracer
