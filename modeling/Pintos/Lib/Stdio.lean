import Mathlib.Data.Nat.Digits.Defs
import Pintos.Lib.EState
import Pintos.LibKernel.Bitmap
import Pintos.Threads.Kernel

/-!
# `printf` (`lib/stdio.c`)

`__vprintf` copies its format to the output and replaces each conversion by the characters
of its argument. `parse_conversion` reads a conversion's flags, field width, precision and
length modifier. For `d`, `i`, `o`, `u`, `x`, `X` and `p`, `format_integer` writes the digits
in reverse into a 64-byte buffer, with the precision's zeros after them, then pads to the field
width. The machine is i386: `int`, `long`, `ptrdiff_t` and `size_t` have 32 bits and
`intmax_t` 64.

An argument is passed at the type its conversion reads: an integer is its value, reduced to
the width of that type, and a `char *` is the string it points to, or `NULL`. A `va_arg` past
the arguments, or at the wrong kind, is `Fault.undefined`; so is an `int` overflow, and a
format that ends inside a conversion, since the loop then steps past the NUL. The loop over
the format uses `fuel`, and every format gets enough (`vprintf_isSome`).

`c99_integer` is what C99 (7.19.6.1) prescribes for an integer conversion. Where the buffer
holds the precision's zeros (a precision up to 63) and without the `'` flag, `format_integer`
gives exactly that for every conversion that `parse_conversion` can produce from a format
with no negative `*` width (`format_integer_eq_c99`, `parse_conversion_flags`).
Outside those bounds the two differ:

* precisions from 63 on all give 63 digits, since the zeros stop at the buffer's end
  (`length_digit_buffer_of_le`);
* a negative `*` width sets `-` after `-` has cleared `0`, so `"%0*d"` pads twice, with
  zeros before the digits and spaces after them.
-/

set_option linter.style.nameCheck false

namespace Pintos.Printf

/-- `INT_MAX` on i386. -/
def INT_MAX : ℤ := 2 ^ 31 - 1

/-- `INT_MIN` on i386. -/
def INT_MIN : ℤ := -2 ^ 31

/-- The `w`-bit signed integer with the low `w` bits of `v`. -/
def toSigned (w : ℕ) (v : ℤ) : ℤ :=
  if v % 2 ^ w < 2 ^ (w - 1) then v % 2 ^ w else v % 2 ^ w - 2 ^ w

/-- The bits `MINUS` to `GROUP` of `flags` in `struct printf_conversion`. -/
structure PrintfFlags where
  minus : Bool := false
  plus : Bool := false
  space : Bool := false
  pound : Bool := false
  zero : Bool := false
  group : Bool := false
  deriving DecidableEq, Repr

/-- The `type` of `struct printf_conversion`: the length modifier. -/
inductive ArgType
  | CHAR
  | SHORT
  | INT
  | INTMAX
  | LONG
  | LONGLONG
  | PTRDIFFT
  | SIZET
  deriving DecidableEq, Repr

/-- `struct printf_conversion`; a precision of `-1` is none given. -/
structure printf_conversion where
  flags : PrintfFlags
  width : ℤ
  precision : ℤ
  type : ArgType
  deriving DecidableEq, Repr

/-- `struct integer_base`, with its digit string of exactly `base` characters. -/
structure integer_base where
  base : ℕ
  digits : List Char
  x : Option Char
  group : ℕ
  two_le_base : 2 ≤ base
  length_digits : digits.length = base

/-- `b->digits[d]`. -/
def integer_base.digit (b : integer_base) (d : ℕ) : Char := b.digits.getD d '0'

/-- `base_d`. -/
def base_d : integer_base :=
  ⟨10, ['0', '1', '2', '3', '4', '5', '6', '7', '8', '9'], none, 3, by decide, rfl⟩

/-- `base_o`. -/
def base_o : integer_base := ⟨8, ['0', '1', '2', '3', '4', '5', '6', '7'], none, 3, by decide, rfl⟩

/-- `base_x`. -/
def base_x : integer_base :=
  ⟨16, ['0', '1', '2', '3', '4', '5', '6', '7', '8', '9', 'a', 'b', 'c', 'd', 'e', 'f'], some 'x', 4,
    by decide, rfl⟩

/-- `base_X`. -/
def base_X : integer_base :=
  ⟨16, ['0', '1', '2', '3', '4', '5', '6', '7', '8', '9', 'A', 'B', 'C', 'D', 'E', 'F'], some 'X', 4,
    by decide, rfl⟩

/-- An argument as `va_arg` reads it. -/
inductive PrintfArg
  /-- an integer of any type, by its value -/
  | int (v : ℤ)
  /-- a `char *`: the string before its NUL, or `NULL` -/
  | str (s : Option (List Char))
  /-- a `void *` -/
  | ptr (p : ℕ)
  deriving DecidableEq, Repr

/-- `va_arg` at an integer type. -/
def va_arg_int : List PrintfArg → Except Fault (ℤ × List PrintfArg)
  | .int v :: args => .ok (v, args)
  | _ => .error .undefined

/-- `va_arg (args, char *)`. -/
def va_arg_str : List PrintfArg → Except Fault (Option (List Char) × List PrintfArg)
  | .str s :: args => .ok (s, args)
  | _ => .error .undefined

/-- `va_arg (args, void *)`. -/
def va_arg_ptr : List PrintfArg → Except Fault (ℕ × List PrintfArg)
  | .ptr p :: args => .ok (p, args)
  | _ => .error .undefined

/-! ## `parse_conversion` -/

/-- The flag loop of `parse_conversion`. -/
def parseFlags : List Char → PrintfFlags → List Char × PrintfFlags
  | [], f => ([], f)
  | ch :: format, f =>
    if ch = '-' then parseFlags format { f with minus := true }
    else if ch = '+' then parseFlags format { f with plus := true }
    else if ch = ' ' then parseFlags format { f with space := true }
    else if ch = '#' then parseFlags format { f with pound := true }
    else if ch = '0' then parseFlags format { f with zero := true }
    else if ch = Char.ofNat 39 then parseFlags format { f with group := true }
    else (ch :: format, f)

/-- `for (; isdigit (*format); format++) n = n * 10 + *format - '0'`. -/
def parseDigits : List Char → ℤ → Except Fault (List Char × ℤ)
  | [], n => .ok ([], n)
  | ch :: format, n =>
    if ch.isDigit then
      if n * 10 + (ch.toNat - '0'.toNat) > INT_MAX then .error .undefined
      else parseDigits format (n * 10 + (ch.toNat - '0'.toNat))
    else .ok (ch :: format, n)

/-- The field width: `*` takes an `int` argument, otherwise the digits. -/
def parseWidth (format : List Char) (args : List PrintfArg) :
    Except Fault (List Char × ℤ × List PrintfArg) :=
  match format with
  | '*' :: format => do
    let (w, args) ← va_arg_int args
    pure (format, toSigned 32 w, args)
  | format => do
    let (format, w) ← parseDigits format 0
    pure (format, w, args)

/-- The precision, `-1` if none: after a `.`, `*` takes an `int` argument, otherwise the
digits; a negative one is none. -/
def parsePrecision (format : List Char) (args : List PrintfArg) :
    Except Fault (List Char × ℤ × List PrintfArg) :=
  match format with
  | '.' :: '*' :: format => do
    let (p, args) ← va_arg_int args
    let p := toSigned 32 p
    pure (format, if p < 0 then -1 else p, args)
  | '.' :: format => do
    let (format, p) ← parseDigits format 0
    pure (format, if p < 0 then -1 else p, args)
  | format => pure (format, -1, args)

/-- The length modifier. -/
def parseType : List Char → List Char × ArgType
  | 'h' :: 'h' :: format => (format, .CHAR)
  | 'h' :: format => (format, .SHORT)
  | 'j' :: format => (format, .INTMAX)
  | 'l' :: 'l' :: format => (format, .LONGLONG)
  | 'l' :: format => (format, .LONG)
  | 't' :: format => (format, .PTRDIFFT)
  | 'z' :: format => (format, .SIZET)
  | format => (format, .INT)

/-- After the flags: `-` clears `0`, and `+` clears ` `. -/
def cancelFlags (flags : PrintfFlags) : PrintfFlags :=
  let flags := if flags.minus then { flags with zero := false } else flags
  if flags.plus then { flags with space := false } else flags

/-- A negative width is `-` with its absolute value, which `INT_MIN` does not have. -/
def absWidth (width : ℤ) (flags : PrintfFlags) : Except Fault (ℤ × PrintfFlags) :=
  if width < 0 then
    if width = INT_MIN then .error .undefined else .ok (-width, { flags with minus := true })
  else .ok (width, flags)

/-- `parse_conversion (format, c, args)`: the conversion, the format from its conversion
character on, and the arguments left. -/
def parse_conversion (format : List Char) (args : List PrintfArg) :
    Except Fault (printf_conversion × List Char × List PrintfArg) := do
  let (format, flags) := parseFlags format {}
  let flags := cancelFlags flags
  let (format, width, args) ← parseWidth format args
  let (width, flags) ← absWidth width flags
  let (format, precision, args) ← parsePrecision format args
  let flags := if 0 ≤ precision then { flags with zero := false } else flags
  let (format, type) := parseType format
  pure (⟨flags, width, precision, type⟩, format, args)

/-! ## `format_integer` -/

/-- The loop `while (value > 0)` of `format_integer`, writing the digits from the least
significant one, and with the `'` flag a comma before each group of `b->group`. Each round
divides `value` by the base, so `value` rounds are enough: `fuel` counts them. -/
def digitLoop (b : integer_base) (group : Bool) : ℕ → ℕ → ℕ → List Char → List Char
  | 0, _, _, buf => buf
  | fuel + 1, value, digit_cnt, buf =>
    if value > 0 then
      let buf := if group ∧ digit_cnt > 0 ∧ digit_cnt % b.group = 0 then buf ++ [','] else buf
      digitLoop b group fuel (value / b.base) (digit_cnt + 1) (buf ++ [b.digit (value % b.base)])
    else buf

/-- The buffer of `format_integer` in the order it is written: the digits, the zeros up to the
precision while `buf` has room, and the `0` that `#` puts first in octal. -/
def digit_buffer (value : ℕ) (b : integer_base) (c : printf_conversion) : List Char :=
  let buf := digitLoop b c.flags.group value value 0 []
  let precision := if c.precision < 0 then 1 else c.precision.toNat
  -- `while (cp - buf < precision && cp < buf + sizeof buf - 1)`
  let buf := buf ++ List.replicate (min precision 63 - buf.length) '0'
  if c.flags.pound ∧ b.base = 8 ∧ (buf = [] ∨ buf.getLast? ≠ some '0') then buf ++ ['0'] else buf

/-- The sign character: only for a signed conversion, `+` before ` `. -/
def sign_char (is_signed negative : Bool) (flags : PrintfFlags) : Option Char :=
  if is_signed then
    if flags.plus then some (if negative then '-' else '+')
    else if flags.space then some (if negative then '-' else ' ')
    else if negative then some '-'
    else none
  else none

/-- `format_integer (value, is_signed, negative, b, c)`. -/
def format_integer (value : ℕ) (is_signed negative : Bool) (b : integer_base)
    (c : printf_conversion) : List Char :=
  let sign := sign_char is_signed negative c.flags
  let x := if c.flags.pound ∧ value ≠ 0 then b.x else none
  let buf := digit_buffer value b c
  let pad_cnt := (c.width - buf.length - (if x.isSome then 2 else 0) -
    (if sign.isSome then 1 else 0)).toNat
  (if !c.flags.minus && !c.flags.zero then List.replicate pad_cnt ' ' else []) ++
    sign.toList ++ (match x with | some x => ['0', x] | none => []) ++
    (if c.flags.zero then List.replicate pad_cnt '0' else []) ++ buf.reverse ++
    (if c.flags.minus then List.replicate pad_cnt ' ' else [])

/-- `format_string (string, length, c)`. -/
def format_string (s : List Char) (length : ℕ) (c : printf_conversion) : List Char :=
  (if c.width > length ∧ !c.flags.minus then List.replicate (c.width - length).toNat ' ' else []) ++
    s.take length ++
    (if c.width > length ∧ c.flags.minus then List.replicate (c.width - length).toNat ' ' else [])

/-! ## Conversions and the loop of `__vprintf` -/

/-- The `switch (c.type)` of the signed conversions. -/
def signedValue (type : ArgType) (v : ℤ) : ℤ :=
  match type with
  | .CHAR => toSigned 8 v
  | .SHORT => toSigned 16 v
  | .INT => toSigned 32 v
  | .INTMAX => toSigned 64 v
  | .LONG => toSigned 32 v
  | .LONGLONG => toSigned 64 v
  | .PTRDIFFT => toSigned 32 v
  | .SIZET => if v % 2 ^ 32 > SIZE_MAX / 2 then v % 2 ^ 32 - SIZE_MAX - 1 else v % 2 ^ 32

/-- The `switch (c.type)` of the unsigned conversions, as a `uintmax_t`; a `ptrdiff_t` is
masked with `((uintmax_t) PTRDIFF_MAX << 1) | 1`. -/
def unsignedValue (type : ArgType) (v : ℤ) : ℕ :=
  match type with
  | .CHAR => (v % 2 ^ 8).toNat
  | .SHORT => (v % 2 ^ 16).toNat
  | .INT => (v % 2 ^ 32).toNat
  | .INTMAX => (v % 2 ^ 64).toNat
  | .LONG => (v % 2 ^ 32).toNat
  | .LONGLONG => (v % 2 ^ 64).toNat
  | .PTRDIFFT => (toSigned 32 v % 2 ^ 64).toNat &&& (((2 ^ 31 - 1) <<< 1) ||| 1)
  | .SIZET => (v % 2 ^ 32).toNat

/-- The text `__printf ("<<no %%%c ...>>", ...)` prints for a conversion it refuses. -/
def refused (conv : Char) (what : List Char) : List Char :=
  ['<', '<', 'n', 'o', ' ', '%', conv, ' '] ++ what ++ ['>', '>']

/-- The `switch (*format)` of `__vprintf` on a conversion character: the characters written
and the arguments left. -/
def convert (conv : Char) (c : printf_conversion) (args : List PrintfArg) :
    Except Fault (List Char × List PrintfArg) :=
  if conv = 'd' ∨ conv = 'i' then do
    let (v, args) ← va_arg_int args
    let value := signedValue c.type v
    -- `value < 0 ? -value : value` overflows at `INTMAX_MIN`
    if value = -2 ^ 63 then .error .undefined
    else .ok (format_integer value.natAbs true (decide (value < 0)) base_d c, args)
  else if conv = 'o' ∨ conv = 'u' ∨ conv = 'x' ∨ conv = 'X' then do
    let (v, args) ← va_arg_int args
    let b := if conv = 'o' then base_o else if conv = 'u' then base_d
      else if conv = 'x' then base_x else base_X
    .ok (format_integer (unsignedValue c.type v) false false b c, args)
  else if conv = 'c' then do
    let (v, args) ← va_arg_int args
    .ok (format_string [Char.ofNat (v % 256).toNat] 1 c, args)
  else if conv = 's' then do
    let (s, args) ← va_arg_str args
    let s := s.getD ['(', 'n', 'u', 'l', 'l', ')']
    -- `strnlen (s, c.precision)`, where a precision of `-1` is `SIZE_MAX`
    let length := if c.precision < 0 then s.length else min s.length c.precision.toNat
    .ok (format_string s length c, args)
  else if conv = 'p' then do
    -- formatted as `%#x`: the flags are replaced by `#` alone
    let (p, args) ← va_arg_ptr args
    .ok (format_integer (p % 2 ^ 32) false false base_x { c with flags := { pound := true } }, args)
  else if conv ∈ ['f', 'e', 'E', 'g', 'G', 'n'] then
    .ok (refused conv ['i', 'n', ' ', 'k', 'e', 'r', 'n', 'e', 'l'], args)
  else .ok (refused conv ['c', 'o', 'n', 'v', 'e', 'r', 's', 'i', 'o', 'n'], args)

/-- The loop `for (; *format != '\0'; format++)` of `__vprintf`, one round per character or
conversion, with `fuel` rounds at most; the output written. -/
def vprintfLoop : ℕ → List Char → List PrintfArg → Option (Except Fault (List Char))
  | 0, _, _ => none
  | _ + 1, [], _ => some (.ok [])
  | fuel + 1, ch :: format, args =>
    if ch ≠ '%' then (Except.map (ch :: ·)) <$> vprintfLoop fuel format args
    -- `%%` is `%`
    else if format.head? = some '%' then (Except.map ('%' :: ·)) <$> vprintfLoop fuel format.tail args
    else
      match parse_conversion format args with
      | .error e => some (.error e)
      -- the `switch` meets the NUL, and `format++` steps past it
      | .ok (_, [], _) => some (.error .undefined)
      | .ok (c, conv :: format, args) =>
        match convert conv c args with
        | .error e => some (.error e)
        | .ok (out, args) => (Except.map (out ++ ·)) <$> vprintfLoop fuel format args

/-- `__vprintf (format, args, output, aux)`: what it writes to `output`. -/
def __vprintf (format : List Char) (args : List PrintfArg) : Option (Except Fault (List Char)) :=
  vprintfLoop (format.length + 1) format args

/-! ## What C99 prescribes -/

/-- The digits C99 prescribes: at least `precision` of them (one if none is given, so none for
zero at precision zero), and with `#` in octal a first digit `0`. -/
def c99_digits (value : ℕ) (b : integer_base) (pound : Bool) (precision : Option ℕ) : List Char :=
  let digits := ((Nat.digits b.base value).map b.digit).reverse
  let digits := List.replicate (precision.getD 1 - digits.length) '0' ++ digits
  if pound ∧ b.base = 8 ∧ digits.head? ≠ some '0' then '0' :: digits else digits

/-- The characters C99 prescribes for a `d`, `i`, `o`, `u`, `x` or `X` conversion of a value of
absolute value `value`, negative if `negative` (a signed conversion only), in base `b`, with
the flags `flags`, the field width `width` and the precision `precision`. The sign is `-`, or
`+` with `+`, or a space with ` `; `#` puts `0x` before a nonzero hexadecimal value; the field
is padded with spaces on the left, on the right with `-`, or with zeros after the sign and
`0x` with `0` when neither `-` nor a precision is given. -/
def c99_integer (value : ℕ) (is_signed negative : Bool) (b : integer_base) (flags : PrintfFlags)
    (width : ℕ) (precision : Option ℕ) : List Char :=
  let digits := c99_digits value b flags.pound precision
  let sign := if is_signed ∧ negative then ['-'] else if is_signed ∧ flags.plus then ['+']
    else if is_signed ∧ flags.space then [' '] else []
  let radix := if flags.pound ∧ value ≠ 0 then (b.x.map fun x => ['0', x]).getD [] else []
  let pad := width - (sign.length + radix.length + digits.length)
  if flags.minus then sign ++ radix ++ digits ++ List.replicate pad ' '
  else if flags.zero ∧ precision = none then sign ++ radix ++ List.replicate pad '0' ++ digits
  else List.replicate pad ' ' ++ sign ++ radix ++ digits

/-! ## The digits -/

/-- Without the `'` flag the loop writes the base-`b` digits, least significant first. -/
theorem digitLoop_eq (b : integer_base) :
    ∀ (fuel value digit_cnt : ℕ) (buf : List Char), value ≤ fuel →
      digitLoop b false fuel value digit_cnt buf = buf ++ (Nat.digits b.base value).map b.digit
  | 0, value, _, buf, h => by
    rw [Nat.le_zero.mp h, Nat.digits_zero, List.map_nil, List.append_nil]
    rfl
  | fuel + 1, value, digit_cnt, buf, h => by
    rw [digitLoop]
    by_cases hpos : value > 0
    · -- one digit, then the loop on `value / base`
      have hb := b.two_le_base
      have hdiv : value / b.base < value := Nat.div_lt_self hpos (by omega)
      rw [if_pos hpos, if_neg (by simp), digitLoop_eq b fuel _ _ _ (by omega),
        Nat.digits_def' (by omega) hpos, List.map_cons, List.append_assoc, List.singleton_append]
    · rw [if_neg hpos, Nat.eq_zero_of_not_pos hpos, Nat.digits_zero, List.map_nil, List.append_nil]

/-- `#` in octal asks for a `0` unless the last character written is one. -/
theorem last_ne_zero_iff (buf : List Char) :
    (buf = [] ∨ buf.getLast? ≠ some '0') ↔ buf.reverse.head? ≠ some '0' := by
  rw [List.head?_reverse]
  constructor
  · rintro (rfl | h)
    · simp
    · exact h
  · exact Or.inr

/-- The precision the buffer's zeros count up to, and the one C99 reads. -/
theorem precision_getD (c : printf_conversion) :
    (if c.precision < 0 then 1 else c.precision.toNat) =
      (if c.precision < 0 then none else some c.precision.toNat).getD 1 := by
  split_ifs <;> rfl

/-- Without `'` and with the precision's zeros inside the buffer, the buffer read backwards is
the digits C99 prescribes. -/
theorem reverse_digit_buffer (value : ℕ) (b : integer_base) {c : printf_conversion}
    (hg : c.flags.group = false) (hp : c.precision ≤ 63) :
    (digit_buffer value b c).reverse =
      c99_digits value b c.flags.pound (if c.precision < 0 then none else some c.precision.toNat) := by
  unfold digit_buffer c99_digits
  rw [hg, digitLoop_eq b value value 0 [] (Nat.le_refl _), List.nil_append, precision_getD]
  generalize hq : (if c.precision < 0 then none else some c.precision.toNat) = q
  have hq63 : q.getD 1 ≤ 63 := by
    rw [← hq]
    split_ifs
    · simp
    · simp only [Option.getD_some]
      omega
  dsimp only
  rw [Nat.min_eq_left hq63]
  -- the zeros come after the digits in the buffer and before them when read backwards
  have hrev : ((Nat.digits b.base value).map b.digit ++
      List.replicate (q.getD 1 - ((Nat.digits b.base value).map b.digit).length) '0').reverse =
      List.replicate (q.getD 1 - ((Nat.digits b.base value).map b.digit).reverse.length) '0' ++
        ((Nat.digits b.base value).map b.digit).reverse := by
    rw [List.reverse_append, List.reverse_replicate, List.length_reverse]
  simp only [last_ne_zero_iff, hrev]
  split_ifs <;> simp

/-- From a precision of 63 on, the zeros stop at the buffer's last byte: 63 digits. -/
theorem length_digit_buffer_of_le (value : ℕ) (b : integer_base) {c : printf_conversion}
    (hg : c.flags.group = false) (hp : 63 ≤ c.precision) (hd : (Nat.digits b.base value).length < 63) :
    (digit_buffer value b c).length = 63 := by
  unfold digit_buffer
  rw [hg, digitLoop_eq b value value 0 [] (Nat.le_refl _), List.nil_append]
  dsimp only
  rw [if_neg (show ¬c.precision < 0 by omega), Nat.min_eq_right (by omega)]
  have hz : 0 < 63 - ((Nat.digits b.base value).map b.digit).length := by simp; omega
  -- the last byte written is a zero, so `#` adds none
  have hlast : ((Nat.digits b.base value).map b.digit ++
      List.replicate (63 - ((Nat.digits b.base value).map b.digit).length) '0').getLast? = some '0' := by
    rw [List.getLast?_append_of_ne_nil _ (by simpa using Nat.pos_iff_ne_zero.mp hz),
      List.getLast?_replicate, if_neg (by omega)]
  have hlen : ((Nat.digits b.base value).map b.digit ++
      List.replicate (63 - ((Nat.digits b.base value).map b.digit).length) '0').length = 63 := by
    simp only [List.length_append, List.length_replicate]
    omega
  generalize ((Nat.digits b.base value).map b.digit ++
    List.replicate (63 - ((Nat.digits b.base value).map b.digit).length) '0') = buf at hlast hlen ⊢
  have hne : buf ≠ [] := by
    rintro rfl
    exact absurd hlen (by decide)
  rw [if_neg fun ⟨_, _, h⟩ => h.elim hne fun h => h hlast]
  exact hlen

/-! ## The whole conversion -/

theorem sign_char_toList (is_signed negative : Bool) (flags : PrintfFlags) :
    (sign_char is_signed negative flags).toList =
      if is_signed ∧ negative then ['-'] else if is_signed ∧ flags.plus then ['+']
      else if is_signed ∧ flags.space then [' '] else [] := by
  unfold sign_char
  cases is_signed <;> cases negative <;> cases flags.plus <;> cases flags.space <;> rfl

theorem radix_eq (value : ℕ) (b : integer_base) (flags : PrintfFlags) :
    (match (if flags.pound ∧ value ≠ 0 then b.x else none) with
      | some x => ['0', x] | none => []) =
      if flags.pound ∧ value ≠ 0 then (b.x.map fun x => ['0', x]).getD [] else [] := by
  split_ifs
  · cases b.x <;> rfl
  · rfl

/-- For a conversion as `parse_conversion` leaves it (a width not negative, `0` cleared by `-`
and by a precision) with a precision up to 63 and no `'`, `format_integer` writes exactly what
C99 prescribes. -/
theorem format_integer_eq_c99 (value : ℕ) (is_signed negative : Bool) (b : integer_base)
    {c : printf_conversion} (hg : c.flags.group = false) (hp : c.precision ≤ 63) (hw : 0 ≤ c.width)
    (hmz : ¬(c.flags.minus ∧ c.flags.zero)) (hpz : 0 ≤ c.precision → c.flags.zero = false) :
    format_integer value is_signed negative b c =
      c99_integer value is_signed negative b c.flags c.width.toNat
        (if c.precision < 0 then none else some c.precision.toNat) := by
  unfold format_integer c99_integer
  rw [← reverse_digit_buffer value b hg hp, ← sign_char_toList, ← radix_eq]
  dsimp only
  generalize sign_char is_signed negative c.flags = sign
  generalize hx : (if c.flags.pound ∧ value ≠ 0 then b.x else none) = x
  generalize digit_buffer value b c = buf
  have hpad : (c.width - buf.length - (if x.isSome then 2 else 0) - (if sign.isSome then 1 else 0)).toNat =
      c.width.toNat - (sign.toList.length + (match x with | some x => ['0', x] | none => []).length +
        buf.reverse.length) := by
    cases sign <;> cases x <;> simp <;> omega
  rw [hpad]
  generalize c.width.toNat - _ = pad
  cases hm : c.flags.minus
  · cases hz : c.flags.zero
    · simp
    · -- `0` pads only without a precision
      have hnone : c.precision < 0 := by
        by_contra h
        rw [hpz (by omega)] at hz
        exact Bool.noConfusion hz
      simp [hnone]
  · have hz : c.flags.zero = false := by simpa [hm] using hmz
    simp [hz]

/-! ## What `parse_conversion` leaves -/

theorem cancelFlags_plus {flags : PrintfFlags} (h : (cancelFlags flags).plus = true) :
    (cancelFlags flags).space = false := by
  obtain ⟨minus, plus, space, pound, zero, group⟩ := flags
  cases minus <;> cases plus <;> simp_all [cancelFlags]

theorem cancelFlags_minus {flags : PrintfFlags} (h : (cancelFlags flags).minus = true) :
    (cancelFlags flags).zero = false := by
  obtain ⟨minus, plus, space, pound, zero, group⟩ := flags
  cases minus <;> cases plus <;> simp_all [cancelFlags]

/-- A digit is at least `'0'`. -/
theorem zero_le_of_isDigit {ch : Char} (hd : ch.isDigit = true) : '0'.toNat ≤ ch.toNat := by
  simp only [Char.isDigit, Bool.and_eq_true, decide_eq_true_eq] at hd
  exact hd.1

/-- The width left is not negative, and only a negative one changes the flags, by `-`. -/
theorem absWidth_spec {width width' : ℤ} {flags flags' : PrintfFlags}
    (h : absWidth width flags = .ok (width', flags')) :
    0 ≤ width' ∧ (flags' = flags ∨ flags' = { flags with minus := true }) ∧
      (0 ≤ width → flags' = flags) := by
  unfold absWidth at h
  split_ifs at h with hneg hmin
  · cases h
    exact ⟨by omega, .inr rfl, fun h => absurd h (by omega)⟩
  · cases h
    exact ⟨by omega, .inl rfl, fun _ => rfl⟩

theorem parseDigits_nonneg :
    ∀ {format rest : List Char} {n m : ℤ}, parseDigits format n = .ok (rest, m) → 0 ≤ n → 0 ≤ m
  | [], _, _, _, h, hn => by
    cases h
    exact hn
  | ch :: format, rest, n, m, h, hn => by
    rw [parseDigits] at h
    split_ifs at h with hd hmax
    · have := zero_le_of_isDigit hd
      exact parseDigits_nonneg h (by omega)
    · cases h
      exact hn

/-- A width from digits is not negative. -/
theorem parseWidth_nonneg {format rest : List Char} {args args' : List PrintfArg} {width : ℤ}
    (hstar : format.head? ≠ some '*') (h : parseWidth format args = .ok (rest, width, args')) :
    0 ≤ width := by
  unfold parseWidth at h
  split at h
  · exact absurd rfl hstar
  · obtain ⟨⟨f, w⟩, hw, h⟩ := Except.bind_eq_ok.mp h
    cases h
    exact parseDigits_nonneg hw (le_refl 0)

theorem parsePrecision_ge {format rest : List Char} {args args' : List PrintfArg} {p : ℤ}
    (h : parsePrecision format args = .ok (rest, p, args')) : -1 ≤ p := by
  unfold parsePrecision at h
  split at h
  · obtain ⟨⟨q, a⟩, -, h⟩ := Except.bind_eq_ok.mp h
    cases h
    split_ifs <;> omega
  · obtain ⟨⟨f, q⟩, -, h⟩ := Except.bind_eq_ok.mp h
    cases h
    split_ifs <;> omega
  · cases h
    exact le_refl _

/-- The stages of `parse_conversion` that succeed. -/
theorem parse_conversion_stages {format rest : List Char} {args args' : List PrintfArg}
    {c : printf_conversion} (h : parse_conversion format args = .ok (c, rest, args')) :
    ∃ f₁ w a₁ w' flags f₂ p,
      parseWidth (parseFlags format {}).1 args = .ok (f₁, w, a₁) ∧
      absWidth w (cancelFlags (parseFlags format {}).2) = .ok (w', flags) ∧
      parsePrecision f₁ a₁ = .ok (f₂, p, args') ∧ rest = (parseType f₂).1 ∧
      c = ⟨if 0 ≤ p then { flags with zero := false } else flags, w', p, (parseType f₂).2⟩ := by
  unfold parse_conversion at h
  rcases hpf : parseFlags format {} with ⟨f₀, fl₀⟩
  rw [hpf] at h
  obtain ⟨⟨f₁, w, a₁⟩, hw, h⟩ := Except.bind_eq_ok.mp h
  obtain ⟨⟨w', flags⟩, hw', h⟩ := Except.bind_eq_ok.mp h
  obtain ⟨⟨f₂, p, a₂⟩, hp, h⟩ := Except.bind_eq_ok.mp h
  rcases hpt : parseType f₂ with ⟨f₃, type⟩
  simp only [hpt] at h
  cases h
  exact ⟨f₁, w, a₁, w', flags, f₂, p, hw, hw', hp, by rw [hpt], by rw [hpt]⟩

/-- Every conversion `parse_conversion` produces has a width that is not negative, ` ` cleared by
`+` and `0` by a precision, and a precision of `-1` or more. -/
theorem parse_conversion_normal {format rest : List Char} {args args' : List PrintfArg}
    {c : printf_conversion} (h : parse_conversion format args = .ok (c, rest, args')) :
    0 ≤ c.width ∧ (c.flags.plus = true → c.flags.space = false) ∧
      (0 ≤ c.precision → c.flags.zero = false) ∧ -1 ≤ c.precision := by
  obtain ⟨f₁, w, a₁, w', flags, f₂, p, hw, hw', hp, -, rfl⟩ := parse_conversion_stages h
  obtain ⟨hnonneg, hflags, -⟩ := absWidth_spec hw'
  -- `-` from a negative width leaves `+` and ` ` as `cancelFlags` left them
  have hps : flags.plus = true → flags.space = false := by
    rcases hflags with rfl | rfl
    · exact cancelFlags_plus
    · exact cancelFlags_plus
  refine ⟨hnonneg, ?_, ?_, parsePrecision_ge hp⟩
  · dsimp only
    split_ifs
    · exact hps
    · exact hps
  · intro hp0
    dsimp only at hp0 ⊢
    rw [if_pos hp0]

/-- Without a `*` width, `parse_conversion` also leaves `0` cleared by `-`. -/
theorem parse_conversion_minus_zero {format rest : List Char} {args args' : List PrintfArg}
    {c : printf_conversion} (h : parse_conversion format args = .ok (c, rest, args'))
    (hstar : (parseFlags format {}).1.head? ≠ some '*') : ¬(c.flags.minus ∧ c.flags.zero) := by
  obtain ⟨f₁, w, a₁, w', flags, f₂, p, hw, hw', hp, -, rfl⟩ := parse_conversion_stages h
  have hflags := (absWidth_spec hw').2.2 (parseWidth_nonneg hstar hw)
  subst hflags
  have hmz := @cancelFlags_minus (parseFlags format {}).2
  dsimp only
  split_ifs <;> simp_all

/-! ## The loop returns -/

theorem length_parseFlags_le : ∀ (format : List Char) (f : PrintfFlags),
    (parseFlags format f).1.length ≤ format.length
  | [], _ => le_refl _
  | ch :: format, f => by
    have ih := fun f => length_parseFlags_le format f
    rw [parseFlags]
    split_ifs <;> simp only [List.length_cons] <;> first | exact Nat.le_succ_of_le (ih _) | exact le_refl _

theorem length_parseDigits_le :
    ∀ {format rest : List Char} {n m : ℤ}, parseDigits format n = .ok (rest, m) →
      rest.length ≤ format.length
  | [], _, _, _, h => by
    cases h
    exact le_refl _
  | ch :: format, rest, n, m, h => by
    rw [parseDigits] at h
    split_ifs at h
    · exact Nat.le_succ_of_le (length_parseDigits_le h)
    · cases h
      exact le_refl _

theorem length_parseWidth_le {format rest : List Char} {args args' : List PrintfArg} {w : ℤ}
    (h : parseWidth format args = .ok (rest, w, args')) : rest.length ≤ format.length := by
  unfold parseWidth at h
  split at h
  · obtain ⟨⟨v, a⟩, -, h⟩ := Except.bind_eq_ok.mp h
    cases h
    exact Nat.le_succ _
  · obtain ⟨⟨f, v⟩, hd, h⟩ := Except.bind_eq_ok.mp h
    cases h
    exact length_parseDigits_le hd

theorem length_parsePrecision_le {format rest : List Char} {args args' : List PrintfArg} {p : ℤ}
    (h : parsePrecision format args = .ok (rest, p, args')) : rest.length ≤ format.length := by
  unfold parsePrecision at h
  split at h
  · obtain ⟨⟨v, a⟩, -, h⟩ := Except.bind_eq_ok.mp h
    cases h
    simp only [List.length_cons]
    omega
  · obtain ⟨⟨f, v⟩, hd, h⟩ := Except.bind_eq_ok.mp h
    cases h
    exact Nat.le_succ_of_le (length_parseDigits_le hd)
  · cases h
    exact le_refl _

theorem length_parseType_le (format : List Char) : (parseType format).1.length ≤ format.length := by
  unfold parseType
  split <;> simp only [List.length_cons] <;> omega

/-- `parse_conversion` leaves a part of its format. -/
theorem length_parse_conversion_le {format rest : List Char} {args args' : List PrintfArg}
    {c : printf_conversion} (h : parse_conversion format args = .ok (c, rest, args')) :
    rest.length ≤ format.length := by
  obtain ⟨f₁, w, a₁, w', flags, f₂, p, hw, -, hp, rfl, -⟩ := parse_conversion_stages h
  calc (parseType f₂).1.length
      ≤ f₂.length := length_parseType_le f₂
    _ ≤ f₁.length := length_parsePrecision_le hp
    _ ≤ (parseFlags format {}).1.length := length_parseWidth_le hw
    _ ≤ format.length := length_parseFlags_le format {}

/-- A round of the loop takes at least one character of the format, so fuel above its length is
enough. -/
theorem vprintfLoop_isSome :
    ∀ (fuel : ℕ) (format : List Char) (args : List PrintfArg), format.length < fuel →
      (vprintfLoop fuel format args).isSome
  | 0, _, _, h => absurd h (Nat.not_lt_zero _)
  | _ + 1, [], _, _ => rfl
  | fuel + 1, ch :: format, args, h => by
    have hlen : format.length < fuel := by simpa using h
    rw [vprintfLoop]
    split_ifs with hch
    · rw [Option.map_eq_map, Option.isSome_map]
      exact vprintfLoop_isSome fuel format args hlen
    · rw [Option.map_eq_map, Option.isSome_map]
      exact vprintfLoop_isSome fuel _ args (by rw [List.length_tail]; omega)
    · -- a conversion: the format left is shorter by its conversion character at least
      rcases hparse : parse_conversion format args with e | ⟨c, _ | ⟨conv, rest⟩, args'⟩
      · rfl
      · rfl
      · have hrest := length_parse_conversion_le hparse
        dsimp only
        rcases convert conv c args' with e | ⟨out, args''⟩
        · rfl
        · dsimp only
          rw [Option.map_eq_map, Option.isSome_map]
          exact vprintfLoop_isSome fuel rest _ (by simp at hrest; omega)

/-- `__vprintf` returns on every format and arguments. -/
theorem vprintf_isSome (format : List Char) (args : List PrintfArg) : (__vprintf format args).isSome :=
  vprintfLoop_isSome _ format args (Nat.lt_succ_self _)

/-- `"%.70d"` of 1 gives 63 digits where C99 prescribes 70, and `"%0*d"` of -5 and 42 pads with
zeros before the digits and spaces after them where C99, ignoring `0` beside `-`, pads with
spaces after them alone. -/
theorem vprintf_caps_precision_and_pads_twice :
    __vprintf ['%', '.', '7', '0', 'd'] [.int 1] = some (.ok (List.replicate 62 '0' ++ ['1'])) ∧
      c99_integer 1 true false base_d {} 0 (some 70) = List.replicate 69 '0' ++ ['1'] ∧
      __vprintf ['%', '0', '*', 'd'] [.int (-5), .int 42] =
        some (.ok ['0', '0', '0', '4', '2', ' ', ' ', ' ']) ∧
      c99_integer 42 true false base_d { minus := true, zero := true } 5 none =
        ['4', '2', ' ', ' ', ' '] :=
  ⟨by decide, by simp [c99_integer, c99_digits, base_d, integer_base.digit], by decide,
    by simp [c99_integer, c99_digits, base_d, integer_base.digit]⟩

end Pintos.Printf
