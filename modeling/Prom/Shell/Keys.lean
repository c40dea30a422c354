/-
  Prom.Shell.Keys — whether what is typed is what the terminal is told.

  An arrow key is typed as ESC, '[' and a letter.  `handle_input` skips
  KEY_RESIZE and stops at ERR, but once it has seen ESC the next results go to
  `handle_arrows`, which looks for neither and passes them on as if they were
  characters.

  Main results:
    * `Passes.faithful`, `Handled.faithful` — pass by pass, either the events
      spell the characters or something has been invented.
    * `keys_lossless_iff` — nothing is lost and nothing invented exactly when
      no sequence was broken off.
-/
import Prom.Shell.Input

namespace Prom.Shell

open Prom.C Exec

/-! ## §1. Spelling. -/

/-- A character as it is passed to `vterm_keyboard_unichar`. -/
def Getch.wide (r : Getch) : BitVec 32 := BitVec.ofInt 32 r.code

/-- The characters among the results. -/
def chars (rs : List Getch) : List (BitVec 32) :=
  rs.flatMap fun
    | .char c => [Getch.wide (.char c)]
    | _ => []

/-- Reading an event back: an arrow key is ESC, '[' and a letter. -/
def Event.spell : Event → List (BitVec 32)
  | .unichar c => [c]
  | .key k => chars [.char ESC, .char 0x5B, .char k.letter]

/-- A result that is no character is passed on as one. -/
def Invented (evs : List Event) : Prop :=
  ∃ r, (r = .resize ∨ r = .err) ∧ Event.unichar (Getch.wide r) ∈ evs

/-- The events spell the characters, in order and each once, and neither
    `ERR` nor `KEY_RESIZE` is passed on. -/
def Lossless (rs : List Getch) (evs : List Event) : Prop :=
  evs.flatMap Event.spell = chars rs ∧ ¬Invented evs

theorem chars_append (rs rs' : List Getch) : chars (rs ++ rs') = chars rs ++ chars rs' :=
  List.flatMap_append

/-- A character is below 256, so it is neither `ERR` nor `KEY_RESIZE`. -/
theorem wide_char_ne (c : Byte) {r : Getch} (hr : r = .resize ∨ r = .err) :
    Getch.wide (.char c) ≠ Getch.wide r := by
  have hc := c.isLt
  have hwide : (Getch.wide (.char c)).toNat = c.toNat := by
    show (BitVec.ofInt 32 (c.toNat : Int)).toNat = c.toNat
    rw [BitVec.ofInt_natCast, BitVec.toNat_ofNat]
    omega
  intro heq
  have hnat := congrArg BitVec.toNat heq
  rw [hwide] at hnat
  rcases hr with rfl | rfl
  · have : (Getch.wide .resize).toNat = 410 := by decide
    omega
  · have : (Getch.wide .err).toNat = 4294967295 := by decide
    omega

/-- What is spelled by characters alone has not been invented. -/
theorem not_invented {rs : List Getch} {evs : List Event} (h : evs.flatMap Event.spell = chars rs) :
    ¬Invented evs := by
  rintro ⟨r, hr, hmem⟩
  have hspelled : Getch.wide r ∈ evs.flatMap Event.spell :=
    List.mem_flatMap.mpr ⟨_, hmem, List.mem_singleton_self _⟩
  rw [h] at hspelled
  obtain ⟨r', -, hr'⟩ := List.mem_flatMap.mp hspelled
  cases r' with
  | char c => exact wide_char_ne c hr (List.mem_singleton.mp hr').symm
  | resize => cases hr'
  | err => cases hr'

/-! ## §2. Sequences that are not broken off. -/

/-- How far a sequence has come. -/
inductive Mode where
  | top
  | escape
  | bracket
  deriving Repr, DecidableEq

/-- One more result; within a sequence it has to be a character. -/
def track : Option Mode → Getch → Option Mode
  | some .top, .char c => if c = ESC then some .escape else some .top
  | some .top, _ => some .top
  | some .escape, .char c => if c = 0x5B then some .bracket else some .top
  | some .bracket, .char _ => some .top
  | _, _ => none

/-- After each ESC that starts a sequence the next result is a character, and
    so is the one after that if this is '['. -/
def Unbroken (rs : List Getch) : Prop := rs.foldl track (some .top) ≠ none

instance (rs : List Getch) : Decidable (Unbroken rs) := instDecidableNot

theorem track_none (rs : List Getch) : rs.foldl track none = none := by
  induction rs with
  | nil => rfl
  | cons r rs ih => exact ih

/-- Either the events spell the characters and the sequences are whole, or a
    sequence is broken off and something is invented. -/
def Faithful (rs : List Getch) (evs : List Event) : Prop :=
  (rs.foldl track (some .top) = some .top ∧ evs.flatMap Event.spell = chars rs) ∨
    (rs.foldl track (some .top) = none ∧ Invented evs)

theorem Faithful.append {rs rs' : List Getch} {evs evs' : List Event} (h : Faithful rs evs)
    (h' : Faithful rs' evs') : Faithful (rs ++ rs') (evs ++ evs') := by
  rcases h with ⟨htop, hspell⟩ | ⟨hnone, r, hr, hmem⟩
  · rcases h' with ⟨htop', hspell'⟩ | ⟨hnone', r, hr, hmem⟩
    · refine .inl ⟨?_, ?_⟩
      · rw [List.foldl_append, htop, htop']
      · rw [List.flatMap_append, chars_append, hspell, hspell']
    · refine .inr ⟨?_, r, hr, List.mem_append_right _ hmem⟩
      rw [List.foldl_append, htop, hnone']
  · refine .inr ⟨?_, r, hr, List.mem_append_left _ hmem⟩
    rw [List.foldl_append, hnone, track_none]

/-- Skipped results change nothing. -/
theorem Skipped.foldl_track {rs : List Getch} {r : Getch} (h : Skipped rs r) :
    rs.foldl track (some .top) = track (some .top) r ∧ chars rs = chars [r] := by
  obtain ⟨k, rfl, -⟩ := h
  induction k with
  | zero => exact ⟨rfl, rfl⟩
  | succ k ih => exact ih

/-! ## §3. Pass by pass. -/

theorem code_bracket {r : Getch} : r.code = '['.toNat ↔ r = .char 0x5B :=
  code_char (c := 0x5B)

/-- An arrow key ends in its letter. -/
theorem arrow?_letter {r : Getch} {k : VTermKey} (h : arrow? r.code = some k) : r = .char k.letter := by
  unfold arrow? at h
  split at h
  · rename_i hr
    cases h
    exact code_char.mp hr
  · split at h
    · rename_i hr
      cases h
      exact code_char.mp hr
    · split at h
      · rename_i hr
        cases h
        exact code_char.mp hr
      · split at h
        · rename_i hr
          cases h
          exact code_char.mp hr
        · cases h

theorem Skipped.typed {rs : List Getch} {c : Byte} (h : Skipped rs (.char c)) (hc : c ≠ ESC) :
    Faithful rs [.unichar (BitVec.ofInt 32 c.toNat)] := by
  obtain ⟨htrack, hchars⟩ := h.foldl_track
  refine .inl ⟨?_, ?_⟩
  · rw [htrack, track, if_neg hc]
  · rw [hchars]
    rfl

/-- **A sequence** is passed on as it is, or is broken off. -/
theorem Sequence.faithful {rs rs' : List Getch} {evs : List Event} (hrs : Skipped rs (.char ESC))
    (h : Sequence rs' evs) : Faithful (rs ++ rs') evs := by
  obtain ⟨htrack, hchars⟩ := hrs.foldl_track
  have hesc : track (some .top) (.char ESC) = some .escape := rfl
  have hstart : (rs ++ rs').foldl track (some .top) = rs'.foldl track (some .escape) := by
    rw [List.foldl_append, htrack, hesc]
  -- the sequence starts behind its ESC, which is passed on
  have hall : chars (rs ++ rs') = chars [.char ESC] ++ chars rs' := by
    rw [chars_append, hchars]
  rw [Faithful, hstart, hall]
  cases h with
  | lone r hr =>
    cases r with
    | char c =>
      have hc : c ≠ 0x5B := fun h => hr (code_bracket.mpr (congrArg Getch.char h))
      refine .inl ⟨?_, rfl⟩
      show track (some .escape) (.char c) = _
      rw [track, if_neg hc]
    | resize => exact .inr ⟨rfl, .resize, .inl rfl, .tail _ (.head _)⟩
    | err => exact .inr ⟨rfl, .err, .inr rfl, .tail _ (.head _)⟩
  | arrow r r' hr k hk =>
    cases code_bracket.mp hr
    cases arrow?_letter hk
    exact .inl ⟨rfl, rfl⟩
  | other r r' hr hk =>
    cases code_bracket.mp hr
    cases r' with
    | char c => exact .inl ⟨rfl, rfl⟩
    | resize => exact .inr ⟨rfl, .resize, .inl rfl, .tail _ (.tail _ (.head _))⟩
    | err => exact .inr ⟨rfl, .err, .inr rfl, .tail _ (.tail _ (.head _))⟩

theorem Pass.faithful {rs : List Getch} {evs : List Event} {more : Bool} (h : Pass rs evs more) :
    Faithful rs evs := by
  cases h with
  | full => exact .inl ⟨rfl, rfl⟩
  | idle rs hrs =>
    obtain ⟨htrack, hchars⟩ := hrs.foldl_track
    refine .inl ⟨htrack, ?_⟩
    rw [hchars]
    rfl
  | typed rs c hrs hc => exact hrs.typed hc
  | escape rs rs' evs hrs hevs => exact hevs.faithful hrs

theorem Passes.faithful {rs : List Getch} {evs : List Event} (h : Passes rs evs) : Faithful rs evs := by
  induction h with
  | last rs evs h => exact h.faithful
  | next rs rs' evs evs' h hrest ih => exact h.faithful.append ih

theorem Handled.faithful {rs : List Getch} {evs : List Event} (h : Handled rs evs) : Faithful rs evs := by
  induction h with
  | nil => exact .inl ⟨rfl, rfl⟩
  | cons rs rs' evs evs' h hrest ih => exact h.faithful.append ih

/-! ## §4. Any calls. -/

/-- **When the keyboard is forwarded faithfully.**  Take any terminal, any
    results of `getch`, any number of calls of `handle_input` that return, and
    anything the program does to the terminal between them.  Reading the
    events back gives exactly the characters that were taken, in order and
    each once, and neither `ERR` nor `KEY_RESIZE` has been passed on, if and
    only if no sequence was broken off. -/
theorem keys_lossless_iff {V : Type} (lib : Libvterm V) (answers : Nat → WriteAnswer)
    (changes : List (V → V)) (s s' : State V) (hrun : calls lib answers changes s = .ok () s') :
    ∃ rs evs, s'.taken = s.taken ++ rs ∧ s'.forwarded = s.forwarded ++ evs ∧
      (Lossless rs evs ↔ Unbroken rs) := by
  obtain ⟨rs, evs, htaken, hforwarded, hhandled⟩ := calls_handled lib answers changes s () s' hrun
  refine ⟨rs, evs, htaken, hforwarded, ?_⟩
  rcases hhandled.faithful with ⟨htop, hspell⟩ | ⟨hnone, hinvented⟩
  · refine ⟨fun _ => ?_, fun _ => ⟨hspell, not_invented hspell⟩⟩
    rw [Unbroken, htop]
    rintro ⟨⟩
  · exact ⟨fun h => absurd hinvented h.2, fun h => absurd hnone h⟩

/-- A call on a terminal of 4096 bytes with these results pending. -/
def oneCall (pending : List Getch) : Result (State (List Byte)) Unit :=
  calls (queue 4096) (fun _ => .accepts 8192) [id] (.start [] pending)

/-- What such a call takes and passes on. -/
theorem oneCall_logs {pending rs : List Getch} {evs : List Event}
    (h : check (calls (queue 4096) (fun _ => .accepts 8192) [id]) (.start [] pending)
      (fun _ s' => s'.taken = rs ∧ s'.forwarded = evs) = true) :
    ∃ s', oneCall pending = .ok () s' ∧ s'.taken = rs ∧ s'.forwarded = evs := by
  obtain ⟨_, s', hrun, hlogs⟩ := Yields.of_check h
  exact ⟨s', hrun, of_decide_eq_true hlogs⟩

/-- An arrow key and a letter, then the window changes. -/
theorem arrow_lossless :
    ∃ s', oneCall [.char ESC, .char 0x5B, .char 0x41, .char 0x78, .resize] = .ok () s' ∧
      s'.forwarded = [.key .VTERM_KEY_UP, .unichar 0x78] ∧ Lossless s'.taken s'.forwarded := by
  obtain ⟨s', hrun, hlogs⟩ : ∃ s', oneCall [.char ESC, .char 0x5B, .char 0x41, .char 0x78, .resize] =
      .ok () s' ∧ s'.taken = [.char ESC, .char 0x5B, .char 0x41, .char 0x78, .resize, .err] ∧
        s'.forwarded = [.key .VTERM_KEY_UP, .unichar 0x78] := oneCall_logs (by decide +kernel)
  obtain ⟨rs, evs, htaken, hforwarded, hiff⟩ := keys_lossless_iff _ _ _ _ s' hrun
  refine ⟨s', hrun, hlogs.2, ?_⟩
  rw [show s'.taken = rs from htaken, show s'.forwarded = evs from hforwarded]
  apply hiff.mpr
  rw [← show s'.taken = rs from htaken, hlogs.1]
  decide

/-- **A lone ESC**: nothing more is pending, and `ERR` is passed on as a
    character. -/
theorem lone_escape_invents :
    ∃ s', oneCall [.char ESC] = .ok () s' ∧ s'.taken = [.char ESC, .err, .err] ∧
      s'.forwarded = [.unichar 0x1B, .unichar 0xFFFFFFFF] ∧ ¬Lossless s'.taken s'.forwarded := by
  obtain ⟨s', hrun, htaken, hforwarded⟩ : ∃ s', oneCall [.char ESC] = .ok () s' ∧
      s'.taken = [.char ESC, .err, .err] ∧ s'.forwarded = [.unichar 0x1B, .unichar 0xFFFFFFFF] :=
    oneCall_logs (by decide +kernel)
  refine ⟨s', hrun, htaken, hforwarded, ?_⟩
  rw [hforwarded]
  rintro ⟨-, hnot⟩
  exact hnot ⟨.err, .inr rfl, .tail _ (.head _)⟩

end Prom.Shell
