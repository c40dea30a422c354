/-
  Prom.Tracer.ReadString — `read_string` of `libtracer/tracer.c`.

  The path argument of an `openat` lives in the tracee's memory and is fetched
  eight bytes at a time into a buffer that starts at 4096 bytes and doubles.
  The loop has three exits: a NUL in the word just copied, a peek that fails
  (the buffer is then terminated at the read offset), and a failed
  `malloc`/`realloc`.

  Main results:
    * `readStringLoop_isSome` — the loop always ends: a request above
      `PTRDIFF_MAX` fails, so the capacity stays below `2^63` and the read
      offset cannot grow past it.
    * `readString` — the function itself, total by that lemma.
-/
import Prom.Tracer.Ptrace

namespace Prom.Tracer

/-! ## §1. The peek. -/

/-- `ptrace(PTRACE_PEEKTEXT, child, a, 0)`: the eight bytes at `a`, in memory
order; it fails when one of them is not readable. -/
def peektext (mem : TraceeMem) (a : Word) : Option (List Byte) :=
  (List.range 8).mapM fun i => mem (a + BitVec.ofNat 64 i)

theorem peektext_length {mem : TraceeMem} {a : Word} {tmp : List Byte}
    (h : peektext mem a = some tmp) : tmp.length = 8 := by
  simp only [peektext, List.range, List.range.loop, List.mapM_cons, List.mapM_nil,
    bind, Option.bind_eq_some_iff, pure, Option.some.injEq] at h
  obtain ⟨_, _, _, ⟨_, _, _, ⟨_, _, _, ⟨_, _, _, ⟨_, _, _, ⟨_, _, _, ⟨_, _, _,
    ⟨_, _, _, rfl, rfl⟩, rfl⟩, rfl⟩, rfl⟩, rfl⟩, rfl⟩, rfl⟩, rfl⟩ := h
  rfl

/-! ## §2. The loop. -/

/-- `sizeof(tmp)`. -/
def peekSize : Nat := 8

/-- The largest object size: no allocator grants a larger request. -/
def PTRDIFF_MAX : Nat := 2 ^ 63 - 1

/-- The outcome of the `k`-th allocation request, for `size` bytes. -/
def Kernel.grants (k : Kernel) (request size : Nat) : Bool :=
  k.allocOk request && decide (size ≤ PTRDIFF_MAX)

/-- What `read_string` returns, with the number of blocks it leaves allocated. -/
inductive ReadResult where
  /-- `NULL`. -/
  | null (live : Nat)
  /-- The buffer, up to the last byte written. -/
  | str (val : List Byte) (live : Nat)
  /-- A write went past the allocated size. -/
  | overrun
  deriving Repr, DecidableEq

/-- The locals of `read_string`.  `read` is the length of `val`: the loop
copies whole words, one after the other. -/
structure ReadState where
  /-- `allocated`. -/
  allocated : Nat
  /-- The bytes copied to `val` so far. -/
  val : List Byte
  /-- Allocation requests made so far. -/
  requests : Nat
  deriving Repr, DecidableEq

/-- The `if (read + sizeof(tmp) > allocated)` block: `none` when `realloc`
fails (and `val` has been freed). -/
def growBuffer (k : Kernel) (b : ReadState) : Option ReadState :=
  if b.val.length + peekSize > b.allocated then
    let allocated := b.allocated * 2 % 2 ^ 64
    if k.grants b.requests allocated then
      some { b with allocated := allocated, requests := b.requests + 1 }
    else none
  else some b

/-- One turn of `while (1)` after the growth: the result, or the state of the
next turn. -/
def copyWord (k : Kernel) (addr : Word) (b : ReadState) : ReadResult ⊕ ReadState :=
  match peektext k.mem (addr + BitVec.ofNat 64 b.val.length) with
  | none =>
      if b.val.length < b.allocated then .inl (.str (b.val ++ [0]) 1) else .inl .overrun
  | some tmp =>
      if b.val.length + tmp.length ≤ b.allocated then
        if tmp.contains 0 then .inl (.str (b.val ++ tmp) 1)
        else .inr { b with val := b.val ++ tmp }
      else .inl .overrun

/-- `while (1)`, for at most `fuel` turns (a turn peeks once). -/
def readStringLoop (k : Kernel) (addr : Word) : Nat → ReadState → Option ReadResult
  | 0, _ => none
  | fuel + 1, b =>
      match growBuffer k b with
      | none => some (.null 0)
      | some b =>
          match copyWord k addr b with
          | .inl r => some r
          | .inr b => readStringLoop k addr fuel b

/-! ## §3. The loop ends. -/

/-- The capacity covers what was copied, and is a size `malloc` grants. -/
structure ReadState.Ok (b : ReadState) : Prop where
  fits : b.val.length ≤ b.allocated
  granted : b.allocated ≤ PTRDIFF_MAX
  room : peekSize ≤ b.allocated

theorem growBuffer_ok {k : Kernel} {b b' : ReadState} (hb : b.Ok)
    (h : growBuffer k b = some b') :
    b'.Ok ∧ b'.val = b.val ∧ b.val.length + peekSize ≤ b'.allocated := by
  obtain ⟨hfits, hgranted, hroom⟩ := hb
  have hmod : b.allocated * 2 % 2 ^ 64 = b.allocated * 2 :=
    Nat.mod_eq_of_lt (by unfold PTRDIFF_MAX at hgranted; omega)
  simp only [growBuffer, hmod] at h
  split at h
  next hfull =>
    split at h
    next hgrant =>
      injection h with h
      subst h
      simp only [Kernel.grants, Bool.and_eq_true, decide_eq_true_eq] at hgrant
      exact ⟨⟨by simp only; omega, hgrant.2, by simp only; omega⟩, rfl, by simp only; omega⟩
    next => exact absurd h (by simp)
  next hroomy =>
    injection h with h
    subst h
    exact ⟨⟨hfits, hgranted, hroom⟩, rfl, by omega⟩

theorem copyWord_inr {k : Kernel} {addr : Word} {b b' : ReadState}
    (h : copyWord k addr b = .inr b') :
    ∃ tmp, peektext k.mem (addr + BitVec.ofNat 64 b.val.length) = some tmp
      ∧ tmp.contains 0 = false ∧ b.val.length + tmp.length ≤ b.allocated
      ∧ b' = { b with val := b.val ++ tmp } := by
  unfold copyWord at h
  cases hp : peektext k.mem (addr + BitVec.ofNat 64 b.val.length) with
  | none => simp only [hp] at h; split at h <;> cases h
  | some tmp =>
      simp only [hp] at h
      split at h
      next hfit =>
        split at h
        next => cases h
        next hnul =>
          injection h with h
          exact ⟨tmp, rfl, by simpa using hnul, hfit, h.symm⟩
      next => cases h

/-- **The loop ends**: `2^60` turns would copy more bytes than a granted
buffer can hold. -/
theorem readStringLoop_isSome (k : Kernel) (addr : Word) :
    ∀ (fuel : Nat) (b : ReadState), b.Ok →
      PTRDIFF_MAX < b.val.length + peekSize * fuel →
      (readStringLoop k addr fuel b).isSome = true
  | 0, b, hb, hfuel => by
      have h1 := hb.fits
      have h2 := hb.granted
      omega
  | fuel + 1, b, hb, hfuel => by
      unfold readStringLoop
      cases hgrow : growBuffer k b with
      | none => rfl
      | some b1 =>
          obtain ⟨hok, hval, hspace⟩ := growBuffer_ok hb hgrow
          simp only
          cases hcopy : copyWord k addr b1 with
          | inl r => rfl
          | inr b2 =>
              obtain ⟨tmp, hpeek, -, -, rfl⟩ := copyWord_inr hcopy
              -- every turn that goes on has copied a word
              have hlen : tmp.length = peekSize := peektext_length hpeek
              rw [Nat.mul_succ] at hfuel
              refine readStringLoop_isSome k addr fuel _ ⟨?_, hok.granted, hok.room⟩ ?_
              · simp only [List.length_append, hval, hlen]; omega
              · simp only [List.length_append, hval, hlen]; omega

/-! ## §4. The function. -/

/-- The locals after the first `malloc`. -/
def readStart : ReadState := { allocated := 4096, val := [], requests := 1 }

theorem readStart_ok : readStart.Ok :=
  ⟨by decide, by decide, by decide⟩

/-- `read_string(child, addr)`. -/
def readString (k : Kernel) (addr : Word) : ReadResult :=
  if k.grants 0 readStart.allocated then
    (readStringLoop k addr (2 ^ 60) readStart).get
      (readStringLoop_isSome k addr (2 ^ 60) readStart readStart_ok (by decide))
  else .null 0

/-- The C string at the start of a buffer. -/
def cString (val : List Byte) : Path := val.takeWhile (· != 0)

end Prom.Tracer
