import Pintos.Lib.Octal
import Pintos.Filesys.Disk
import Mathlib.Algebra.Order.BigOperators.Group.List

/-!
# ustar headers (`lib/ustar.c`)

`ustar_make_header` lays out a 512-byte header: the stripped name, octal fields written with
`%0wo`, the magic, and a checksum of the header with the checksum field taken as spaces.
`ustar_parse_header` checks the same things in the same order and reads the fields back.

`ustar_parse_make_header` is the round trip: a header made for a file or a directory parses
with no error, to the stripped name, the type, and the size (0 for a directory). It rests on
`Octal.value_digits`, on the checksum not counting its own field
(`calculate_chksum_headerBytes`), and on stripping being idempotent (`strip_strip`). Every name
the parser returns is stripped (`ustar_parse_header_name`), so it is neither empty nor `..`
and starts with none of `/`, `./`, `../`.
-/

namespace Pintos.Filesys

/-- Results compare by their error or their value, so that a parse can be checked by `decide`. -/
instance exceptDecidableEq {ε α : Type*} [DecidableEq ε] [DecidableEq α] :
    DecidableEq (Except ε α)
  | .error a, .error b => decidable_of_iff (a = b) (by simp)
  | .ok a, .ok b => decidable_of_iff (a = b) (by simp)
  | .error _, .ok _ => isFalse (by simp)
  | .ok _, .error _ => isFalse (by simp)

/-- The bytes of an ASCII string. -/
def ascii (s : String) : List UInt8 := s.toList.map fun c => c.toNat.toUInt8

/-- `enum ustar_type`. -/
inductive UstarType
  | regular
  | directory
  | eof
  deriving DecidableEq, Repr

/-- The value of a type, the byte the `typeflag` field holds: `'0'`, `'5'`, and `-1`. -/
def UstarType.flag : UstarType → UInt8
  | regular => 48
  | directory => 53
  | eof => 255

/-- `USTAR_HEADER_SIZE`. -/
def USTAR_HEADER_SIZE : Nat := 512

/-- `ULONG_MAX` on the 32-bit target. -/
def ULONG_MAX : Nat := 2 ^ 32 - 1

/-- `INT_MAX`. -/
def INT_MAX : Nat := 2 ^ 31 - 1

/-- The `len` bytes of a header from offset `ofs`: a field of `struct ustar_header`. -/
def field (h : List UInt8) (ofs len : Nat) : List UInt8 := (h.drop ofs).take len

/-- The string that a field holds: its bytes up to the first null byte. -/
def cString (bs : List UInt8) : List UInt8 := bs.takeWhile (· ≠ 0)

/-- `calculate_chksum (h)`: the sum of the header's bytes, the `chksum` field counted as
spaces. -/
def calculate_chksum (h : List UInt8) : Nat :=
  ((List.range USTAR_HEADER_SIZE).map fun i =>
    if 148 ≤ i ∧ i < 156 then 32 else (h.getD i 0).toNat).sum

/-- One round of the loop of `strip_antisocial_prefixes`: the name starts with `/`, `./` or
`../`. -/
def HasAntisocialPrefix (name : List UInt8) : Prop :=
  name.take 1 = ascii "/" ∨ name.take 2 = ascii "./" ∨ name.take 3 = ascii "../"

instance (name : List UInt8) : Decidable (HasAntisocialPrefix name) :=
  inferInstanceAs (Decidable (_ ∨ _ ∨ _))

/-- The loop of `strip_antisocial_prefixes`, at most `fuel` rounds: each round drops the name
up to its first `/`. A round drops a byte at least, so the name's length is enough fuel. -/
def stripLoop : Nat → List UInt8 → List UInt8
  | 0, name => name
  | fuel + 1, name =>
    if HasAntisocialPrefix name then stripLoop fuel ((name.dropWhile (· ≠ 47)).drop 1) else name

/-- `strip_antisocial_prefixes (file_name)`. -/
def strip_antisocial_prefixes (file_name : List UInt8) : List UInt8 :=
  let name := stripLoop file_name.length file_name
  if name = [] ∨ name = ascii ".." then ascii "." else name

/-- The `name` field: the name, then zeros from the `memset`. -/
def nameField (file_name : List UInt8) : List UInt8 := file_name ++ List.replicate (100 - file_name.length) 0

/-- The `mode`, `uid` and `gid` fields. -/
def modeField (type : UstarType) : List UInt8 :=
  (Octal.digits 7 (if type = .regular then 0o644 else 0o755) ++ [0]) ++ (ascii "0000000" ++ [0]) ++
    (ascii "0000000" ++ [0])

/-- The `size` field: `%011o` of the size as an `unsigned int`. -/
def sizeField (size : Int) : List UInt8 := Octal.digits 11 (size % 2 ^ 32).toNat ++ [0]

/-- The `mtime` field. -/
def mtimeField : List UInt8 := Octal.digits 11 1136102400 ++ [0]

/-- The fields after `chksum`: `typeflag`, `linkname`, `magic`, `version`, `uname`, `gname`,
`devmajor`, `devminor`, `prefix` and the padding. -/
def backFields (type : UstarType) : List UInt8 :=
  [type.flag] ++ List.replicate 100 0 ++ (ascii "ustar" ++ [0]) ++ ascii "00" ++
    (ascii "root" ++ List.replicate 28 0) ++ (ascii "root" ++ List.replicate 28 0) ++
    List.replicate 8 0 ++ List.replicate 8 0 ++ List.replicate 155 0 ++ List.replicate 12 0

/-- The bytes of a header for `file_name`, with `chksum` as its checksum field. Every value
printed with `%0wo` is below `8 ^ w`, so `Octal.digits` is its text: sizes are 32-bit, and
`calculate_chksum_lt` bounds the checksum. -/
def headerBytes (file_name : List UInt8) (type : UstarType) (size : Int) (chksum : List UInt8) :
    List UInt8 :=
  nameField file_name ++ (modeField type ++ (sizeField size ++ (mtimeField ++ (chksum ++ backFields type))))

/-- `ustar_make_header (file_name, type, size, header)`: the header, or `none` when the
stripped name is too long. -/
def ustar_make_header (file_name : List UInt8) (type : UstarType) (size : Int) :
    Except Fault (Option (List UInt8)) := do
  if type ≠ .regular ∧ type ≠ .directory then throw .panic
  let file_name := strip_antisocial_prefixes file_name
  if file_name.length > 99 then return none
  let h := headerBytes file_name type size (List.replicate 8 0)
  return some (headerBytes file_name type size (Octal.digits 7 (calculate_chksum h) ++ [0]))

/-- The loop of `parse_octal_field` from offset `ofs` with `value` read so far. -/
def parseOctalLoop : List UInt8 → Nat → Nat → Option Nat
  | [], _, _ => none
  | c :: cs, ofs, value =>
    if 48 ≤ c.toNat ∧ c.toNat ≤ 55 then
      if value > ULONG_MAX / 8 then none else parseOctalLoop cs (ofs + 1) (c.toNat - 48 + value * 8)
    else if c = 32 ∨ c = 0 then (if ofs > 0 then some value else none)
    else none

/-- `parse_octal_field (s, size, value)`: the value, or `none` where the C returns false. -/
def parse_octal_field (s : List UInt8) (size : Nat) : Option Nat := parseOctalLoop (s.take size) 0 0

/-- `is_all_zeros (block, cnt)`. -/
def is_all_zeros (block : List UInt8) (cnt : Nat) : Bool := (block.take cnt).all (· = 0)

/-- The type that a header's `typeflag` names, once it is known to be a file or a directory. -/
def typeOfFlag (typeflag : UInt8) : UstarType :=
  if typeflag = UstarType.regular.flag then .regular else .directory

/-- `ustar_parse_header (header, file_name, type, size)`: the name (none at the end of the
archive), type and size, or the error message. -/
def ustar_parse_header (header : List UInt8) : Except String (Option (List UInt8) × UstarType × Int) :=
  if is_all_zeros header USTAR_HEADER_SIZE then .ok (none, .eof, 0)
  else if field header 257 6 ≠ ascii "ustar" ++ [0] then .error "not a ustar archive"
  else if header.getD 263 0 ≠ 48 ∨ header.getD 264 0 ≠ 48 then .error "invalid ustar version"
  else match parse_octal_field (field header 148 8) 8 with
  | none => .error "corrupt chksum field"
  | some chksum =>
    if chksum ≠ calculate_chksum header then .error "checksum mismatch"
    else if header.getD 99 0 ≠ 0 ∨ header.getD 345 0 ≠ 0 then .error "file name too long"
    else if header.getD 156 0 ≠ UstarType.regular.flag ∧ header.getD 156 0 ≠ UstarType.directory.flag then
      .error "unimplemented file type"
    else
      let file_name := strip_antisocial_prefixes (cString (field header 0 100))
      if header.getD 156 0 = UstarType.regular.flag then
        match parse_octal_field (field header 124 12) 12 with
        | none => .error "corrupt file size field"
        | some size_ul =>
          if size_ul > INT_MAX then .error "file too large" else .ok (some file_name, .regular, size_ul)
      else .ok (some file_name, typeOfFlag (header.getD 156 0), 0)

/-! ## Where the fields of a header are -/

section Fields

variable {a b : List UInt8} {ofs len : Nat}

theorem field_append_of_le (h : a.length ≤ ofs) : field (a ++ b) ofs len = field b (ofs - a.length) len := by
  simp [field, List.drop_append, List.drop_eq_nil_of_le h]

theorem field_append_of_lt (h : ofs + len ≤ a.length) : field (a ++ b) ofs len = field a ofs len := by
  simp only [field, List.drop_append]
  rw [List.take_append_of_le_length (by simp; omega)]

theorem field_self : field (a ++ b) 0 a.length = a := by simp [field]

theorem getD_append_of_le {i : Nat} (h : a.length ≤ i) : (a ++ b).getD i 0 = b.getD (i - a.length) 0 := by
  simp [List.getD_eq_getElem?_getD, List.getElem?_append_right h]

theorem getD_append_of_lt {i : Nat} (h : i < a.length) : (a ++ b).getD i 0 = a.getD i 0 := by
  simp [List.getD_eq_getElem?_getD, List.getElem?_append_left h]

end Fields

section Header

variable {file_name : List UInt8} {type : UstarType} {size : Int} {chksum : List UInt8}

@[simp] theorem length_nameField (h : file_name.length ≤ 100) : (nameField file_name).length = 100 := by
  simp [nameField]; omega

@[simp] theorem length_modeField (type : UstarType) : (modeField type).length = 24 := by
  cases type <;> rfl

@[simp] theorem length_sizeField (size : Int) : (sizeField size).length = 12 := by simp [sizeField]

@[simp] theorem length_mtimeField : mtimeField.length = 12 := by simp [mtimeField]

@[simp] theorem length_backFields (type : UstarType) : (backFields type).length = 356 := by
  simp only [backFields, List.length_append, List.length_replicate, List.length_singleton, ascii,
    List.length_map, String.length_toList]
  rfl

theorem length_headerBytes (hn : file_name.length ≤ 100) (hc : chksum.length = 8) :
    (headerBytes file_name type size chksum).length = USTAR_HEADER_SIZE := by
  simp [headerBytes, hn, hc, USTAR_HEADER_SIZE]

theorem headerBytes_name (hn : file_name.length ≤ 100) :
    field (headerBytes file_name type size chksum) 0 100 = nameField file_name := by
  rw [headerBytes, ← length_nameField hn, field_self]

theorem headerBytes_size (hn : file_name.length ≤ 100) :
    field (headerBytes file_name type size chksum) 124 12 = sizeField size := by
  rw [headerBytes, field_append_of_le (by simp [hn]), length_nameField hn, field_append_of_le (by simp)]
  rw [length_modeField, show 124 - 100 - 24 = 0 from rfl, ← length_sizeField size, field_self]

theorem headerBytes_chksum (hn : file_name.length ≤ 100) (hc : chksum.length = 8) :
    field (headerBytes file_name type size chksum) 148 8 = chksum := by
  rw [headerBytes, field_append_of_le (by simp [hn]), length_nameField hn, field_append_of_le (by simp),
    length_modeField, field_append_of_le (by simp), length_sizeField, field_append_of_le (by simp),
    length_mtimeField, show 148 - 100 - 24 - 12 - 12 = 0 from rfl, ← hc, field_self]

/-- Past the name field and the checksum field a header's bytes depend on the type only. -/
theorem getD_headerBytes_back (hn : file_name.length ≤ 100) (hc : chksum.length = 8) {i : Nat}
    (hi : 156 ≤ i) :
    (headerBytes file_name type size chksum).getD i 0 = (backFields type).getD (i - 156) 0 := by
  rw [headerBytes, getD_append_of_le (by simp [hn]; omega), length_nameField hn, getD_append_of_le (by simp; omega),
    getD_append_of_le (by simp; omega), getD_append_of_le (by simp; omega), getD_append_of_le (by simp [hc]; omega)]
  simp only [length_modeField, length_sizeField, length_mtimeField, hc]
  rw [show i - 100 - 24 - 12 - 12 - 8 = i - 156 by omega]

theorem headerBytes_eq_append (file_name : List UInt8) (type : UstarType) (size : Int)
    (chksum : List UInt8) :
    headerBytes file_name type size chksum =
      (nameField file_name ++ modeField type ++ sizeField size ++ mtimeField) ++ (chksum ++ backFields type) := by
  simp only [headerBytes, List.append_assoc]

theorem headerBytes_back (hn : file_name.length ≤ 100) (hc : chksum.length = 8) (k : Nat) :
    field (headerBytes file_name type size chksum) (156 + k) len = field (backFields type) k len := by
  rw [headerBytes_eq_append, field_append_of_le (by simp [hn]; omega),
    field_append_of_le (by simp [hc, hn]; omega)]
  simp only [List.length_append, length_nameField hn, length_modeField, length_sizeField, length_mtimeField, hc]
  rw [show 156 + k - 148 - 8 = k by omega]

/-- Before the checksum field a header's bytes do not depend on it. -/
theorem getD_headerBytes_front (hn : file_name.length ≤ 100) {i : Nat} (hi : i < 148) :
    (headerBytes file_name type size chksum).getD i 0 =
      (nameField file_name ++ modeField type ++ sizeField size ++ mtimeField).getD i 0 := by
  rw [headerBytes_eq_append, getD_append_of_lt (a := nameField file_name ++ modeField type ++ sizeField size ++ mtimeField)
    (by simp [hn]; omega)]

/-- The checksum field does not count in the checksum. -/
theorem calculate_chksum_headerBytes (hn : file_name.length ≤ 100) {c c' : List UInt8}
    (hc : c.length = 8) (hc' : c'.length = 8) :
    calculate_chksum (headerBytes file_name type size c) = calculate_chksum (headerBytes file_name type size c') := by
  unfold calculate_chksum
  apply congrArg List.sum
  apply List.map_congr_left
  intro i _
  split
  · rfl
  · rename_i hi
    by_cases hf : i < 148
    · rw [getD_headerBytes_front hn hf, getD_headerBytes_front hn hf]
    · rw [getD_headerBytes_back hn hc (by omega), getD_headerBytes_back hn hc' (by omega)]

theorem calculate_chksum_lt (h : List UInt8) : calculate_chksum h < 8 ^ 7 := by
  have hle : calculate_chksum h ≤ USTAR_HEADER_SIZE * 255 := by
    unfold calculate_chksum
    have := List.sum_le_card_nsmul ((List.range USTAR_HEADER_SIZE).map fun i =>
      if 148 ≤ i ∧ i < 156 then 32 else (h.getD i 0).toNat) 255 (by
        intro x hx
        obtain ⟨i, -, rfl⟩ := List.mem_map.mp hx
        split
        · decide
        · exact Nat.le_of_lt_succ (UInt8.toNat_lt _))
    simpa using this
  simp only [USTAR_HEADER_SIZE] at hle
  omega

theorem backFields_flag (type : UstarType) : (backFields type).getD 0 0 = type.flag := by
  cases type <;> rfl

theorem backFields_magic (type : UstarType) : field (backFields type) 101 6 = ascii "ustar" ++ [0] := by
  cases type <;> decide

theorem backFields_version (type : UstarType) :
    (backFields type).getD 107 0 = 48 ∧ (backFields type).getD 108 0 = 48 := by
  cases type <;> decide

theorem backFields_prefix (type : UstarType) : (backFields type).getD 189 0 = 0 := by
  cases type <;> decide

theorem cString_nameField (hn : file_name.length < 100) (h0 : 0 ∉ file_name) :
    cString (nameField file_name) = file_name := by
  rw [cString, nameField, List.takeWhile_append_of_pos (fun c hc => by simp; rintro rfl; exact h0 hc),
    List.takeWhile_replicate]
  obtain ⟨k, hk⟩ : ∃ k, 100 - file_name.length = k + 1 := ⟨99 - file_name.length, by omega⟩
  rw [hk]
  simp

theorem nameField_last (hn : file_name.length < 100) : (nameField file_name).getD 99 0 = 0 := by
  rw [nameField, getD_append_of_le (by omega), List.getD_eq_getElem?_getD, List.getElem?_replicate,
    if_pos (by omega)]
  rfl

end Header

/-! ## Octal fields -/

/-- The parser reads a run of digits ended by a null byte as its value, as long as the value
does not pass `ULONG_MAX`. -/
theorem parseOctalLoop_digits (rest : List UInt8) :
    ∀ (ds : List UInt8) (ofs acc : Nat), (∀ c ∈ ds, Octal.IsDigit c) →
      acc * 8 ^ ds.length + Octal.value ds ≤ ULONG_MAX → 0 < ofs + ds.length →
      parseOctalLoop (ds ++ 0 :: rest) ofs acc = some (acc * 8 ^ ds.length + Octal.value ds)
  | [], ofs, acc, _, _, hofs => by
    simp only [List.length_nil] at hofs
    simp [parseOctalLoop, Octal.value]
    omega
  | c :: ds, ofs, acc, hd, hmax, _ => by
    have hc := hd c (by simp)
    have hvalue : Octal.value (c :: ds) = (c.toNat - 48) * 8 ^ ds.length + Octal.value ds := by
      rw [Octal.value, List.foldl_cons, Octal.foldl_step, Octal.step]
      simp
    simp only [List.length_cons, Nat.pow_succ, hvalue] at hmax
    -- the value read so far stays below `ULONG_MAX / 8` until the last digit
    have hacc : ¬acc > ULONG_MAX / 8 := by
      have h8 : acc * 8 ≤ acc * (8 ^ ds.length * 8) :=
        Nat.mul_le_mul_left acc (Nat.le_mul_of_pos_left 8 (Nat.pow_pos (by decide)))
      omega
    simp only [Octal.IsDigit] at hc
    rw [List.cons_append, parseOctalLoop, if_pos hc, if_neg hacc,
      parseOctalLoop_digits rest ds (ofs + 1) _ (fun c hc => hd c (by simp [hc]))
        (le_of_eq_of_le (by ring) hmax) (by omega),
      List.length_cons, hvalue]
    congr 1
    rw [Nat.pow_succ]
    ring

theorem parse_octal_field_digits {w v : Nat} (hw : 0 < w) (hv : v < 8 ^ w) (hmax : v ≤ ULONG_MAX) :
    parse_octal_field (Octal.digits w v ++ [0]) (w + 1) = some v := by
  have h := parseOctalLoop_digits [] (Octal.digits w v) 0 0 (fun _ => Octal.isDigit_of_mem_digits)
    (by simpa [Octal.value_digits, Nat.mod_eq_of_lt hv] using hmax) (by simpa using hw)
  rw [parse_octal_field, List.take_of_length_le (by simp)]
  simpa [Octal.value_digits, Nat.mod_eq_of_lt hv] using h

/-! ## Stripping a name -/

theorem stripLoop_of_no_antisocial {name : List UInt8} (h : ¬HasAntisocialPrefix name) (fuel : Nat) :
    stripLoop fuel name = name := by
  cases fuel with
  | zero => rfl
  | succ fuel => rw [stripLoop, if_neg h]

/-- With a round for each byte, the loop stops at a name without a dangerous prefix. -/
theorem not_prefix_stripLoop : ∀ (fuel : Nat) (name : List UInt8), name.length ≤ fuel →
    ¬HasAntisocialPrefix (stripLoop fuel name)
  | 0, name, h => by
    rw [List.length_eq_zero_iff.mp (Nat.le_zero.mp h)]
    decide
  | fuel + 1, name, h => by
    by_cases hp : HasAntisocialPrefix name
    · -- a round drops the name up to and with its first `/`, a byte at least
      have hne : name ≠ [] := by rintro rfl; revert hp; decide
      have hlen : ((name.dropWhile (· ≠ 47)).drop 1).length ≤ fuel := by
        have := (List.dropWhile_suffix (fun c : UInt8 => decide (c ≠ 47)) (l := name)).length_le
        have hpos := List.length_pos_of_ne_nil hne
        simp only [List.length_drop]
        omega
      rw [stripLoop, if_pos hp]
      exact not_prefix_stripLoop fuel _ hlen
    · rw [stripLoop_of_no_antisocial hp]
      exact hp

theorem stripLoop_suffix : ∀ (fuel : Nat) (name : List UInt8), stripLoop fuel name <:+ name
  | 0, _ => List.suffix_refl _
  | fuel + 1, name => by
    rw [stripLoop]
    split
    · exact (stripLoop_suffix fuel _).trans ((List.drop_suffix 1 _).trans (List.dropWhile_suffix _))
    · exact List.suffix_refl _

theorem not_prefix_strip (file_name : List UInt8) :
    ¬HasAntisocialPrefix (strip_antisocial_prefixes file_name) := by
  simp only [strip_antisocial_prefixes]
  split
  · decide
  · exact not_prefix_stripLoop _ _ le_rfl

theorem strip_ne_nil (file_name : List UInt8) : strip_antisocial_prefixes file_name ≠ [] := by
  simp only [strip_antisocial_prefixes]
  split
  · decide
  · rename_i h; exact fun h' => h (.inl h')

theorem strip_ne_dotdot (file_name : List UInt8) : strip_antisocial_prefixes file_name ≠ ascii ".." := by
  simp only [strip_antisocial_prefixes]
  split
  · decide
  · rename_i h; exact fun h' => h (.inr h')

/-- Stripping twice strips no more than once: `ustar_parse_header` strips the name that
`ustar_make_header` stored stripped. -/
theorem strip_strip (file_name : List UInt8) :
    strip_antisocial_prefixes (strip_antisocial_prefixes file_name) = strip_antisocial_prefixes file_name := by
  have hp := not_prefix_strip file_name
  have hne := strip_ne_nil file_name
  have hdd := strip_ne_dotdot file_name
  generalize strip_antisocial_prefixes file_name = name at hp hne hdd ⊢
  simp only [strip_antisocial_prefixes]
  rw [stripLoop_of_no_antisocial hp, if_neg (not_or.mpr ⟨hne, hdd⟩)]

theorem nul_not_mem_strip {file_name : List UInt8} (h : 0 ∉ file_name) :
    0 ∉ strip_antisocial_prefixes file_name := by
  simp only [strip_antisocial_prefixes]
  split
  · decide
  · exact fun h' => h ((stripLoop_suffix _ _).subset h')

/-! ## The round trip -/

section RoundTrip

variable {file_name : List UInt8} {type : UstarType} {size : Int} {chksum : List UInt8}

/-- The facts `ustar_parse_header` checks, for a header that `headerBytes` lays out. -/
theorem is_all_zeros_headerBytes (hn : file_name.length ≤ 100) (hc : chksum.length = 8) :
    is_all_zeros (headerBytes file_name type size chksum) USTAR_HEADER_SIZE = false := by
  have hu : (headerBytes file_name type size chksum).getD 257 0 = 117 := by
    rw [getD_headerBytes_back hn hc (by decide)]
    cases type <;> rfl
  have hlen : (headerBytes file_name type size chksum).length = USTAR_HEADER_SIZE :=
    length_headerBytes hn hc
  rw [is_all_zeros, Bool.eq_false_iff]
  intro hall
  have h257 : 257 < (headerBytes file_name type size chksum).length := by rw [hlen]; decide
  have hmem : (headerBytes file_name type size chksum)[257] ∈
      (headerBytes file_name type size chksum).take USTAR_HEADER_SIZE :=
    List.mem_iff_getElem.mpr ⟨257, by simp [hlen, USTAR_HEADER_SIZE], by simp⟩
  have := List.all_eq_true.mp hall _ hmem
  rw [List.getD_eq_getElem?_getD, List.getElem?_eq_getElem (by rw [hlen]; decide), Option.getD_some] at hu
  rw [hu] at this
  exact absurd this (by decide)

theorem ustar_parse_make_header (htype : type = .regular ∨ type = .directory) (hnul : 0 ∉ file_name)
    (hlen : (strip_antisocial_prefixes file_name).length ≤ 99)
    (hsize : type = .regular → 0 ≤ size ∧ size ≤ INT_MAX) :
    ∃ h, ustar_make_header file_name type size = .ok (some h) ∧
      ustar_parse_header h =
        .ok (some (strip_antisocial_prefixes file_name), type, if type = .regular then size else 0) := by
  set name := strip_antisocial_prefixes file_name with hname
  have hn : name.length ≤ 100 := by omega
  set c₀ := calculate_chksum (headerBytes name type size (List.replicate 8 0)) with hc₀
  have hcl : (Octal.digits 7 c₀ ++ [0]).length = 8 := by simp
  refine ⟨headerBytes name type size (Octal.digits 7 c₀ ++ [0]), ?_, ?_⟩
  · have hne : ¬(type ≠ .regular ∧ type ≠ .directory) := by rcases htype with rfl | rfl <;> simp
    simp only [ustar_make_header, hne, if_false, ← hname, if_neg (show ¬name.length > 99 by omega)]
    rfl
  · -- each check of the parser passes
    have hchk : parse_octal_field (field (headerBytes name type size (Octal.digits 7 c₀ ++ [0])) 148 8) 8 =
        some c₀ := by
      rw [headerBytes_chksum hn hcl]
      exact parse_octal_field_digits (by decide) (calculate_chksum_lt _) (by
        have := calculate_chksum_lt (headerBytes name type size (List.replicate 8 0))
        simp only [ULONG_MAX]; omega)
    have hsum : c₀ = calculate_chksum (headerBytes name type size (Octal.digits 7 c₀ ++ [0])) :=
      calculate_chksum_headerBytes hn (by simp) hcl
    have hmagic : field (headerBytes name type size (Octal.digits 7 c₀ ++ [0])) (156 + 101) 6 =
        field (backFields type) 101 6 := headerBytes_back hn hcl 101
    rw [backFields_magic] at hmagic
    have hback : ∀ i, 156 ≤ i → (headerBytes name type size (Octal.digits 7 c₀ ++ [0])).getD i 0 =
        (backFields type).getD (i - 156) 0 := fun i hi => getD_headerBytes_back hn hcl hi
    have h263 := hback 263 (by decide)
    have h264 := hback 264 (by decide)
    have h345 := hback 345 (by decide)
    have h156 := hback 156 (by decide)
    rw [show 345 - 156 = 189 from rfl, backFields_prefix] at h345
    rw [show 156 - 156 = 0 from rfl, backFields_flag] at h156
    rw [show 263 - 156 = 107 from rfl, (backFields_version type).1] at h263
    rw [show 264 - 156 = 108 from rfl, (backFields_version type).2] at h264
    have h99 : (headerBytes name type size (Octal.digits 7 c₀ ++ [0])).getD 99 0 = 0 := by
      rw [headerBytes, getD_append_of_lt (by simp [hn]), nameField_last (by omega)]
    have hname' : strip_antisocial_prefixes (cString (field (headerBytes name type size
        (Octal.digits 7 c₀ ++ [0])) 0 100)) = name := by
      rw [headerBytes_name hn, cString_nameField (by omega) (show 0 ∉ name from nul_not_mem_strip hnul), hname,
        strip_strip]
    simp only [ustar_parse_header, is_all_zeros_headerBytes hn hcl, hmagic, h263, h264, hchk, ← hsum, h99,
      h345, h156, hname']
    rcases htype with rfl | rfl
    · -- a regular file: the size field reads back as the size
      obtain ⟨h0, hmax⟩ := hsize rfl
      have hmod : (size % 2 ^ 32).toNat = size.toNat := by
        rw [Int.emod_eq_of_lt h0 (by simp only [INT_MAX] at hmax; omega)]
      have hsz : parse_octal_field (field (headerBytes name .regular size (Octal.digits 7 c₀ ++ [0])) 124 12) 12 =
          some size.toNat := by
        rw [headerBytes_size hn, sizeField, hmod]
        exact parse_octal_field_digits (by decide) (by simp only [INT_MAX] at hmax; omega)
          (by simp only [INT_MAX, ULONG_MAX] at hmax ⊢; omega)
      have hle : ¬size.toNat > INT_MAX := by simp only [INT_MAX] at hmax ⊢; omega
      simp [hsz, hle, UstarType.flag, Int.toNat_of_nonneg h0]
    · simp [UstarType.flag, typeOfFlag]

/-- A name that `ustar_parse_header` returns is the stripped name field. -/
theorem ustar_parse_header_name {header name : List UInt8} {type : UstarType} {size : Int}
    (h : ustar_parse_header header = .ok (some name, type, size)) :
    name = strip_antisocial_prefixes (cString (field header 0 100)) := by
  unfold ustar_parse_header at h
  repeat' split at h
  all_goals first
    | cases h; done
    | exact (Option.some.inj (Prod.mk.inj (Except.ok.inj h)).1).symm

/-- A name from an archive never climbs out of the directory it is extracted into. -/
theorem ustar_parse_header_name_safe {header name : List UInt8} {type : UstarType} {size : Int}
    (h : ustar_parse_header header = .ok (some name, type, size)) :
    name ≠ [] ∧ name ≠ ascii ".." ∧ ¬HasAntisocialPrefix name := by
  rw [ustar_parse_header_name h]
  exact ⟨strip_ne_nil _, strip_ne_dotdot _, not_prefix_strip _⟩

end RoundTrip

end Pintos.Filesys
