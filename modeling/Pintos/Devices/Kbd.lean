import Mathlib.Data.List.Basic
import Pintos.Lib.Run

/-!
# The keyboard driver (`devices/kbd.c`)

`keyboard_interrupt` reads a scancode from the 8042 controller, two bytes after the prefix
`0xe0`, and splits off the release bit `0x80`. Caps Lock toggles `caps_lock` on each press; a key
of one of the keymaps gives a character, which Ctrl, Shift, Caps Lock and Alt change and which
goes to the input buffer unless it is full; Ctrl+Alt+Delete reboots; and a make or break code
of a Shift, Alt or Ctrl key sets or clears that key's variable through the table `shift_keys`.

What the six variables are for is to say whether each modifier key is held. `held` says that of
the scancodes alone: a key is held when its last make or break code was a make code.
`modifiers_track_keys` proves that after every sequence of keyboard interrupts each variable is
`held` of its key, and `caps_lock` is on when Caps Lock has been pressed an odd number of times.
-/

set_option linter.style.nameCheck false

namespace Pintos.Kbd

/-- `struct keymap`: `chars[i]` is the character of scancode `first_scancode + i`. -/
structure keymap where
  first_scancode : UInt32
  chars : List Char

/-- Keys that produce the same characters regardless of whether the Shift keys are down;
letters are the exception, handled by `tolower`. -/
def invariant_keymap : List keymap :=
  [⟨0x01, ['\x1b']⟩, ⟨0x0e, ['\x08']⟩,
   ⟨0x0f, ['\t', 'Q', 'W', 'E', 'R', 'T', 'Y', 'U', 'I', 'O', 'P']⟩, ⟨0x1c, ['\r']⟩,
   ⟨0x1e, ['A', 'S', 'D', 'F', 'G', 'H', 'J', 'K', 'L']⟩,
   ⟨0x2c, ['Z', 'X', 'C', 'V', 'B', 'N', 'M']⟩, ⟨0x37, ['*']⟩, ⟨0x39, [' ']⟩, ⟨0x53, ['\x7f']⟩]

/-- Characters for keys pressed without Shift, for those keys where it matters. The keys of
`0x27` are `;`, the quote and the back quote; `0x2b` is the backslash. -/
def unshifted_keymap : List keymap :=
  [⟨0x02, ['1', '2', '3', '4', '5', '6', '7', '8', '9', '0', '-', '=']⟩, ⟨0x1a, ['[', ']']⟩,
   ⟨0x27, [';', Char.ofNat 0x27, Char.ofNat 0x60]⟩, ⟨0x2b, [Char.ofNat 0x5c]⟩,
   ⟨0x33, [',', '.', '/']⟩]

/-- Characters for keys pressed with Shift, for those keys where it matters. The keys of `0x1a`
are the braces, and `0x27` gives the double quote. -/
def shifted_keymap : List keymap :=
  [⟨0x02, ['!', '@', '#', '$', '%', '^', '&', '*', '(', ')', '_', '+']⟩,
   ⟨0x1a, [Char.ofNat 0x7b, Char.ofNat 0x7d]⟩, ⟨0x27, [':', Char.ofNat 0x22, '~']⟩,
   ⟨0x2b, ['|']⟩, ⟨0x33, ['<', '>', '?']⟩]

/-- `map_key (k, scancode, &c)`: the character of `scancode` in the keymaps `k`, if any. -/
def map_key : List keymap → UInt32 → Option UInt8
  | [], _ => none
  | k :: ks, scancode =>
    if k.first_scancode ≤ scancode ∧ scancode < k.first_scancode + k.chars.length.toUInt32 then
      some (k.chars.getD (scancode - k.first_scancode).toNat (Char.ofNat 0)).toUInt8
    else map_key ks scancode

/-- The test `map_key (invariant_keymap, code, &c) || (!shift && map_key (unshifted_keymap, code,
&c)) || (shift && map_key (shifted_keymap, code, &c))`, with the `c` it sets. -/
def mappedChar (shift : Bool) (code : UInt32) : Option UInt8 :=
  match map_key invariant_keymap code with
  | some c => some c
  | none =>
    match (if !shift then map_key unshifted_keymap code else none) with
    | some c => some c
    | none => if shift then map_key shifted_keymap code else none

/-- `isupper (c)` of `ctype.h`. -/
def isupper (c : UInt8) : Bool := 0x41 ≤ c && c ≤ 0x5a

/-- `islower (c)` of `ctype.h`. -/
def islower (c : UInt8) : Bool := 0x61 ≤ c && c ≤ 0x7a

/-- `isalpha (c)` of `ctype.h`. -/
def isalpha (c : UInt8) : Bool := islower c || isupper c

/-- `tolower (c)` of `ctype.h`: `c - 'A' + 'a'` for an upper-case letter. -/
def tolower (c : UInt8) : UInt8 := if isupper c then c - 0x41 + 0x61 else c

/-- The six variables of the Shift, Alt and Ctrl keys that `shift_keys` points to. -/
inductive ShiftVar
  | left_shift
  | right_shift
  | left_alt
  | right_alt
  | left_ctrl
  | right_ctrl
  deriving DecidableEq, Repr

/-- The static state of `kbd.c`. -/
structure State where
  /-- `left_shift`, `right_shift`, `left_alt`, `right_alt`, `left_ctrl` and `right_ctrl` -/
  down : ShiftVar → Bool
  caps_lock : Bool
  key_cnt : ℕ

/-- The state at boot: no key down, Caps Lock off. -/
def State.boot : State := ⟨fun _ => false, false, 0⟩

/-- `shift_keys`: the table of shift keys. -/
def shift_keys : List (UInt32 × ShiftVar) :=
  [(0x2a, .left_shift), (0x36, .right_shift), (0x38, .left_alt), (0xe038, .right_alt),
   (0x1d, .left_ctrl), (0xe01d, .right_ctrl)]

/-- The loop over `shift_keys`: `*key->state_var = !release` for the first key of `code`. -/
def scanShiftKeys (code : UInt32) (release : Bool) : List (UInt32 × ShiftVar) → State → State
  | [], s => s
  | (scancode, v) :: keys, s =>
    if scancode = code then { s with down := Function.update s.down v !release }
    else scanShiftKeys code release keys s

/-- The scancode that `keyboard_interrupt` reads, including the second byte after the prefix
`0xe0`. -/
def read_code (b₁ b₂ : UInt8) : UInt32 :=
  if b₁ = 0xe0 then ((0xe0 : UInt32) <<< 8) ||| b₂.toUInt32 else b₁.toUInt32

/-- A pressed key's character `c` as `keyboard_interrupt` hands it on: with Ctrl, which
overrides Shift, `@` to `_` become the control characters; otherwise `tolower` unless exactly
one of Shift and Caps Lock is on; and Alt sets the high bit. -/
def keyChar (shift alt ctrl caps_lock : Bool) (c : UInt8) : UInt8 :=
  let c :=
    if ctrl = true ∧ 0x40 ≤ c ∧ c < 0x60 then c - 0x40
    else if shift = caps_lock then tolower c else c
  if alt then c + 0x80 else c

/-- What a keyboard interrupt does besides changing the state. -/
inductive Output
  /-- nothing more -/
  | noKey
  /-- `input_putc (c)` -/
  | key (c : UInt8)
  /-- `shutdown_reboot ()`, which does not return -/
  | reboot
  deriving DecidableEq, Repr

/-- `keyboard_interrupt ()`, reading the bytes `b₁` and `b₂` from the data register (`b₂` only
after `0xe0`); `full` is what `input_full ()` returns. -/
def keyboard_interrupt (s : State) (full : Bool) (b₁ b₂ : UInt8) : State × Output :=
  let shift := s.down .left_shift || s.down .right_shift
  let alt := s.down .left_alt || s.down .right_alt
  let ctrl := s.down .left_ctrl || s.down .right_ctrl
  let code := read_code b₁ b₂
  let release := code &&& 0x80 != 0
  let code := code &&& ~~~0x80
  if code = 0x3a then (if release then s else { s with caps_lock := !s.caps_lock }, .noKey)
  else
    match mappedChar shift code with
    | some c =>
      if release then (s, .noKey)
      -- Ctrl+Alt+Del
      else if c = 0x7f ∧ ctrl = true ∧ alt = true then (s, .reboot)
      else
        let c := keyChar shift alt ctrl s.caps_lock c
        if !full then ({ s with key_cnt := s.key_cnt + 1 }, .key c) else (s, .noKey)
    | none => (scanShiftKeys code release shift_keys s, .noKey)

/-- One keyboard interrupt: the two bytes it reads and whether the input buffer is full. -/
structure Interrupt where
  b₁ : UInt8
  b₂ : UInt8
  full : Bool

/-- A keyboard interrupt that returns: any but Ctrl+Alt+Del. -/
def kbdStep (s : State) (i : Interrupt) (t : State) : Prop :=
  (keyboard_interrupt s i.full i.b₁ i.b₂).2 ≠ .reboot ∧ (keyboard_interrupt s i.full i.b₁ i.b₂).1 = t

/-! ## What the keys do -/

/-- The key of an interrupt, without its release bit, and whether it was a release. -/
def Interrupt.event (i : Interrupt) : UInt32 × Bool :=
  (read_code i.b₁ i.b₂ &&& ~~~0x80, read_code i.b₁ i.b₂ &&& 0x80 != 0)

/-- The scancode of a modifier key in `shift_keys`. -/
def ShiftVar.scancode : ShiftVar → UInt32
  | .left_shift => 0x2a
  | .right_shift => 0x36
  | .left_alt => 0x38
  | .right_alt => 0xe038
  | .left_ctrl => 0x1d
  | .right_ctrl => 0xe01d

/-- Whether key `k` is held after the events `evs`: its last make or break code was a make
code. -/
def held (k : UInt32) (evs : List (UInt32 × Bool)) : Bool :=
  match (evs.filter (·.1 == k)).getLast? with
  | some e => !e.2
  | none => false

theorem held_nil (k : UInt32) : held k [] = false := rfl

/-- The last event of a key decides whether it is held. -/
theorem held_append (k : UInt32) (evs : List (UInt32 × Bool)) (e : UInt32 × Bool) :
    held k (evs ++ [e]) = if e.1 = k then !e.2 else held k evs := by
  by_cases he : e.1 = k
  · simp [held, List.filter_append, he]
  · have hf : [e].filter (·.1 == k) = [] := by simp [he]
    simp only [held, List.filter_append, hf, List.append_nil, if_neg he]

/-- A modifier key is neither Caps Lock nor in a keymap, so only `shift_keys` reads it. -/
theorem scancode_ne_caps (v : ShiftVar) : v.scancode ≠ 0x3a := by
  cases v <;> decide

theorem mappedChar_scancode (shift : Bool) (v : ShiftVar) : mappedChar shift v.scancode = none := by
  cases shift <;> cases v <;> decide

/-- The loop over `shift_keys` sets the variable of `code`, and only that one. -/
theorem down_scanShiftKeys (code : UInt32) (release : Bool) (s : State) (v : ShiftVar) :
    (scanShiftKeys code release shift_keys s).down v =
      if code = v.scancode then !release else s.down v := by
  by_cases hc : code = v.scancode
  · -- the entry of `v` is the first with its scancode
    subst hc
    cases v <;> simp [shift_keys, scanShiftKeys, ShiftVar.scancode]
  · -- the entry of another variable, or none
    rw [if_neg hc]
    cases v <;> simp only [shift_keys, scanShiftKeys] <;> split_ifs <;> simp_all [ShiftVar.scancode]

theorem caps_lock_scanShiftKeys (code : UInt32) (release : Bool) (s : State) :
    (scanShiftKeys code release shift_keys s).caps_lock = s.caps_lock := by
  simp only [shift_keys, scanShiftKeys]
  split_ifs <;> rfl

/-- What one interrupt does to the modifier variables and Caps Lock: a make or break code of
Caps Lock toggles it on the make code, a key of the keymaps leaves both alone, and any other key
goes through `shift_keys`. -/
theorem keyboard_interrupt_cases (s : State) (i : Interrupt) :
    (i.event.1 = 0x3a ∧ (keyboard_interrupt s i.full i.b₁ i.b₂).1.down = s.down ∧
      (keyboard_interrupt s i.full i.b₁ i.b₂).1.caps_lock =
        if i.event.2 then s.caps_lock else !s.caps_lock) ∨
    (i.event.1 ≠ 0x3a ∧
      (∃ c, mappedChar (s.down .left_shift || s.down .right_shift) i.event.1 = some c) ∧
      (keyboard_interrupt s i.full i.b₁ i.b₂).1.down = s.down ∧
      (keyboard_interrupt s i.full i.b₁ i.b₂).1.caps_lock = s.caps_lock) ∨
    (i.event.1 ≠ 0x3a ∧ mappedChar (s.down .left_shift || s.down .right_shift) i.event.1 = none ∧
      (keyboard_interrupt s i.full i.b₁ i.b₂).1 = scanShiftKeys i.event.1 i.event.2 shift_keys s) := by
  obtain ⟨b₁, b₂, full⟩ := i
  simp only [keyboard_interrupt, Interrupt.event]
  by_cases hcaps : read_code b₁ b₂ &&& ~~~0x80 = 0x3a
  · refine .inl ⟨hcaps, ?_, ?_⟩ <;> rw [if_pos hcaps] <;> split_ifs <;> simp_all
  · rw [if_neg hcaps]
    cases hmap : mappedChar (s.down .left_shift || s.down .right_shift)
      (read_code b₁ b₂ &&& ~~~0x80) with
    | some c =>
      refine .inr (.inl ⟨hcaps, ⟨c, rfl⟩, ?_, ?_⟩) <;> (simp only; split_ifs <;> rfl)
    | none => exact .inr (.inr ⟨hcaps, rfl, rfl⟩)

/-- One interrupt sets or clears a modifier variable exactly when it is that key's make or break
code. -/
theorem down_keyboard_interrupt (s : State) (i : Interrupt) (v : ShiftVar) :
    (keyboard_interrupt s i.full i.b₁ i.b₂).1.down v =
      if i.event.1 = v.scancode then !i.event.2 else s.down v := by
  rcases keyboard_interrupt_cases s i with ⟨hcaps, hdown, -⟩ | ⟨-, ⟨c, hmap⟩, hdown, -⟩ | ⟨-, -, hs⟩
  · -- Caps Lock is not a modifier key
    rw [hdown, if_neg (by rw [hcaps]; exact (scancode_ne_caps v).symm)]
  · -- nor is a key of the keymaps
    have hne : i.event.1 ≠ v.scancode := by
      rintro heq
      rw [heq, mappedChar_scancode] at hmap
      cases hmap
    rw [hdown, if_neg hne]
  · rw [hs, down_scanShiftKeys]

/-- One interrupt toggles `caps_lock` exactly when it is a press of Caps Lock. -/
theorem caps_lock_keyboard_interrupt (s : State) (i : Interrupt) :
    (keyboard_interrupt s i.full i.b₁ i.b₂).1.caps_lock =
      if i.event = (0x3a, false) then !s.caps_lock else s.caps_lock := by
  rcases keyboard_interrupt_cases s i with ⟨hcaps, -, hc⟩ | ⟨hne, -, -, hc⟩ | ⟨hne, -, hs⟩
  · rw [hc]
    cases hrel : i.event.2 <;> simp [Prod.ext_iff, hcaps, hrel]
  · rw [hc, if_neg (fun h => hne (by rw [h]))]
  · rw [hs, caps_lock_scanShiftKeys, if_neg (fun h => hne (by rw [h]))]

/-- The modifier variables and Caps Lock against the events so far. -/
structure Tracks (s : State) (evs : List (UInt32 × Bool)) : Prop where
  down : ∀ v, s.down v = held v.scancode evs
  caps_lock : s.caps_lock = true ↔ evs.count (0x3a, false) % 2 = 1

theorem Tracks.boot : Tracks State.boot [] := ⟨fun _ => rfl, by simp [State.boot]⟩

/-- One interrupt keeps the variables in step with the events. -/
theorem Tracks.keyboard_interrupt {s : State} {evs : List (UInt32 × Bool)} (h : Tracks s evs)
    (i : Interrupt) :
    Tracks (Pintos.Kbd.keyboard_interrupt s i.full i.b₁ i.b₂).1 (evs ++ [i.event]) where
  down v := by
    rw [down_keyboard_interrupt, held_append, h.down v]
  caps_lock := by
    rw [caps_lock_keyboard_interrupt, List.count_append]
    by_cases he : i.event = (0x3a, false)
    · -- a press of Caps Lock flips the parity
      have hc := h.caps_lock
      rw [if_pos he, he, List.count_singleton_self]
      cases hb : s.caps_lock <;> rw [hb] at hc <;>
        simp only [Bool.not_false, Bool.not_true, Bool.false_eq_true, true_iff, false_iff] at hc ⊢ <;>
        omega
    · rw [if_neg he]
      simp only [List.count_singleton, beq_iff_eq, he, if_false, Nat.add_zero]
      exact h.caps_lock

/-- After every sequence of keyboard interrupts from boot, each modifier variable says whether its
key is held, its last make or break code being a make code, and `caps_lock` is on exactly when
Caps Lock has been pressed an odd number of times. -/
theorem modifiers_track_keys {ints : List Interrupt} {s : State}
    (h : Lts.Run kbdStep State.boot ints s) :
    (∀ v, s.down v = held v.scancode (ints.map Interrupt.event)) ∧
      (s.caps_lock = true ↔ (ints.map Interrupt.event).count (0x3a, false) % 2 = 1) := by
  -- the run carries `Tracks` from the events before it to the events after it
  have key : ∀ {s₀ t : State} {ints : List Interrupt} {evs : List (UInt32 × Bool)},
      Lts.Run kbdStep s₀ ints t → Tracks s₀ evs → Tracks t (evs ++ ints.map Interrupt.event) := by
    intro s₀ t ints evs hrun
    induction hrun generalizing evs with
    | nil => intro hs; simpa using hs
    | @cons _ _ _ i _ hstep _ ih =>
      intro hs
      have ht := hs.keyboard_interrupt i
      rw [hstep.2] at ht
      simpa using ih ht
  have ht := key h Tracks.boot
  rw [List.nil_append] at ht
  exact ⟨ht.down, ht.caps_lock⟩

/-! ## The characters of the keys -/

/-- The characters of the keymaps `ks`, as bytes. -/
def keymapChars (ks : List keymap) : List UInt8 := ks.flatMap fun k => k.chars.map Char.toUInt8

theorem map_key_mem {ks : List keymap} {code : UInt32} {c : UInt8} (h : map_key ks code = some c) :
    c ∈ keymapChars ks ∨ c = 0 := by
  induction ks with
  | nil => cases h
  | cons k ks ih =>
    unfold map_key at h
    split_ifs at h
    · -- the character at the key's index, or the default that the test rules out
      cases h
      rw [List.getD_eq_getElem?_getD]
      cases hx : k.chars[(code - k.first_scancode).toNat]? with
      | none => exact .inr rfl
      | some x =>
        exact .inl (List.mem_flatMap.mpr ⟨k, List.mem_cons_self,
          List.mem_map_of_mem (List.mem_of_getElem? hx)⟩)
    · refine (ih h).imp (fun hc => ?_) id
      obtain ⟨k', hk', hc'⟩ := List.mem_flatMap.mp hc
      exact List.mem_flatMap.mpr ⟨k', List.mem_cons_of_mem k hk', hc'⟩

/-- A key's character comes from one of the three keymaps. -/
theorem mappedChar_some {shift : Bool} {code : UInt32} {c : UInt8}
    (h : mappedChar shift code = some c) :
    map_key invariant_keymap code = some c ∨ map_key unshifted_keymap code = some c ∨
      map_key shifted_keymap code = some c := by
  unfold mappedChar at h
  cases h₁ : map_key invariant_keymap code with
  | some c₁ => simp only [h₁] at h; exact .inl h
  | none =>
    simp only [h₁] at h
    cases shift with
    | false =>
      cases h₂ : map_key unshifted_keymap code with
      | some c₂ => simp only [h₂, Bool.not_false, if_true] at h; exact .inr (.inl h)
      | none => simp [h₂] at h
    | true => simp only [Bool.not_true, Bool.false_eq_true, if_false, if_true] at h; exact .inr (.inr h)

/-- The letters of the keymaps are capitals. -/
theorem keymap_letters_upper :
    ∀ c ∈ keymapChars (invariant_keymap ++ unshifted_keymap ++ shifted_keymap),
      isalpha c = true → isupper c = true := by
  have hall : (keymapChars (invariant_keymap ++ unshifted_keymap ++ shifted_keymap)).all
      (fun c => !isalpha c || isupper c) = true := by
    decide +kernel
  intro c hc halpha
  have hc' := List.all_eq_true.mp hall c hc
  simpa [halpha] using hc'

theorem mappedChar_upper {shift : Bool} {code : UInt32} {c : UInt8}
    (h : mappedChar shift code = some c) (halpha : isalpha c = true) : isupper c = true := by
  have hmem : c ∈ keymapChars (invariant_keymap ++ unshifted_keymap ++ shifted_keymap) ∨ c = 0 := by
    simp only [keymapChars, List.flatMap_append, List.mem_append] at ⊢
    rcases mappedChar_some h with h₁ | h₂ | h₃
    · exact (map_key_mem h₁).imp (fun hc => .inl (.inl hc)) id
    · exact (map_key_mem h₂).imp (fun hc => .inl (.inr hc)) id
    · exact (map_key_mem h₃).imp .inr id
  rcases hmem with hc | rfl
  · exact keymap_letters_upper c hc halpha
  · cases halpha

/-- `tolower` never gives a capital. -/
theorem isupper_tolower (c : UInt8) : isupper (tolower c) = false := by
  unfold tolower
  split_ifs with h
  · simp only [isupper, Bool.and_eq_true, decide_eq_true_eq] at h
    simp only [isupper, Bool.and_eq_false_iff, decide_eq_false_iff_not]
    simp only [UInt8.le_iff_toNat_le, UInt8.toNat_add, UInt8.toNat_sub, UInt8.reduceToNat] at h ⊢
    omega
  · simpa using h

/-- A key reaches the input buffer only from a press of a key of the keymaps, when the buffer is
not full and the key is not Ctrl+Alt+Del, and then it is the key's `keyChar`. -/
theorem keyboard_interrupt_key {s s' : State} {full : Bool} {b₁ b₂ c : UInt8}
    (h : keyboard_interrupt s full b₁ b₂ = (s', .key c)) :
    ∃ c₀, mappedChar (s.down .left_shift || s.down .right_shift) (read_code b₁ b₂ &&& ~~~0x80) =
        some c₀ ∧ (read_code b₁ b₂ &&& 0x80 != 0) = false ∧ full = false ∧
      s' = { s with key_cnt := s.key_cnt + 1 } ∧
      c = keyChar (s.down .left_shift || s.down .right_shift) (s.down .left_alt || s.down .right_alt)
        (s.down .left_ctrl || s.down .right_ctrl) s.caps_lock c₀ := by
  simp only [keyboard_interrupt] at h
  by_cases hcaps : read_code b₁ b₂ &&& ~~~0x80 = 0x3a
  · rw [if_pos hcaps] at h
    split_ifs at h <;> simp at h
  rw [if_neg hcaps] at h
  cases hmap : mappedChar (s.down .left_shift || s.down .right_shift) (read_code b₁ b₂ &&& ~~~0x80)
    with
  | none => simp [hmap] at h
  | some c₀ =>
    simp only [hmap] at h
    split_ifs at h with hrel hreboot hfull
    · simp at h
    · simp at h
    · simp only [Prod.mk.injEq, Output.key.injEq] at h
      exact ⟨c₀, rfl, by simpa using hrel, by simpa using hfull, h.1.symm, h.2.symm⟩
    · simp at h

/-- A letter typed without Ctrl and Alt is a capital exactly when one of Shift and Caps Lock is
on, and not both. -/
theorem letter_case (s : State) (i : Interrupt) {c : UInt8} {s' : State}
    (hctrl : (s.down .left_ctrl || s.down .right_ctrl) = false)
    (halt : (s.down .left_alt || s.down .right_alt) = false)
    (hkey : keyboard_interrupt s i.full i.b₁ i.b₂ = (s', .key c)) (halpha : isalpha c = true) :
    isupper c = ((s.down .left_shift || s.down .right_shift) != s.caps_lock) := by
  obtain ⟨c₀, hmap, -, -, -, rfl⟩ := keyboard_interrupt_key hkey
  simp only [keyChar, hctrl, halt, Bool.false_eq_true, false_and, if_false] at halpha ⊢
  by_cases hsc : (s.down .left_shift || s.down .right_shift) = s.caps_lock
  · -- both or neither: `tolower`
    rw [if_pos hsc, isupper_tolower, hsc, bne_self_eq_false]
  · -- one of them: the keymap's capital
    rw [if_neg hsc] at halpha ⊢
    rw [mappedChar_upper hmap halpha]
    simpa using hsc

/-- `A` with Left Shift held and Caps Lock off is the capital. -/
theorem shift_a_capital :
    let s : State := ⟨Function.update (fun _ => false) .left_shift true, false, 0⟩
    (s.down .left_ctrl || s.down .right_ctrl) = false ∧
      (s.down .left_alt || s.down .right_alt) = false ∧
      keyboard_interrupt s false 0x1e 0 = ({ s with key_cnt := 1 }, .key 0x41) ∧
      isalpha 0x41 = true ∧
      isupper 0x41 = ((s.down .left_shift || s.down .right_shift) != s.caps_lock) := by
  intro s
  have hctrl : (s.down .left_ctrl || s.down .right_ctrl) = false := rfl
  have halt : (s.down .left_alt || s.down .right_alt) = false := rfl
  have hkey : keyboard_interrupt s false 0x1e 0 = ({ s with key_cnt := 1 }, .key 0x41) := rfl
  have halpha : isalpha 0x41 = true := rfl
  exact ⟨hctrl, halt, hkey, halpha, letter_case s ⟨0x1e, 0, false⟩ hctrl halt hkey halpha⟩

/-- Left Shift down, `A`, Left Shift up, Caps Lock down: Shift is no longer held, and Caps Lock
is on. -/
theorem shift_a_caps :
    ∃ s, Lts.Run kbdStep State.boot
        [⟨0x2a, 0, false⟩, ⟨0x1e, 0, false⟩, ⟨0xaa, 0, false⟩, ⟨0x3a, 0, false⟩] s ∧
      (∀ v, s.down v = held v.scancode
        ([⟨0x2a, 0, false⟩, ⟨0x1e, 0, false⟩, ⟨0xaa, 0, false⟩, ⟨0x3a, 0, false⟩].map
          Interrupt.event)) ∧
      (s.caps_lock = true ↔
        ([⟨0x2a, 0, false⟩, ⟨0x1e, 0, false⟩, ⟨0xaa, 0, false⟩, ⟨0x3a, 0, false⟩].map
          Interrupt.event).count (0x3a, false) % 2 = 1) := by
  have hrun : Lts.Run kbdStep State.boot
      [⟨0x2a, 0, false⟩, ⟨0x1e, 0, false⟩, ⟨0xaa, 0, false⟩, ⟨0x3a, 0, false⟩] _ :=
    .cons ⟨by decide, rfl⟩ (.cons ⟨by decide, rfl⟩ (.cons ⟨by decide, rfl⟩
      (.cons ⟨by decide, rfl⟩ (.nil _))))
  exact ⟨_, hrun, modifiers_track_keys hrun⟩

end Pintos.Kbd
