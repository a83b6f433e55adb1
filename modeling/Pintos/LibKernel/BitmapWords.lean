import Pintos.Lib.Word
import Pintos.LibKernel.Bitmap
import Pintos.Threads.Kernel

/-!
# Bitmaps in words (`lib/kernel/bitmap.c`)

The code stores a bitmap's `bit_cnt` bits in `elem_cnt (bit_cnt)` words of `unsigned long`,
32 bits on the target: bit `i` is bit `i % ELEM_BITS` of word `i / ELEM_BITS`. A `WordBitmap`
carries that layout as fields: the word list has exactly `elem_cnt (bit_cnt)` words, and
`bit_cnt` fits in a `size_t`. The functions keep the source's `ASSERT`s (a failed one is
`Fault.panic`) and its unchecked word accesses (`bitmap_mark` and its siblings write any word
they are given; one past the array is `Fault.undefined`).

The single-bit writes change exactly the bit they address, in any word of the array, the
unused bits of the last word included (`bitOf_writeBit`). Reading the bits below `bit_cnt`
gives the bit list of `Bitmap` (`toBitmap`), and the tests refine their `Bitmap` counterparts
there (`bitmap_test_spec`, `bitmap_contains_eq`, `bitmap_scan_eq`), so the scan's first-fit
result carries over to the words (`bitmap_scan_and_flip_spec`).
-/

namespace Pintos

/-- `ELEM_BITS`: the bits of an `unsigned long`. -/
def ELEM_BITS : ℕ := 32

/-- `elem_idx (bit_idx)`: the word that holds bit `bit_idx`. -/
def elem_idx (bit_idx : ℕ) : ℕ := bit_idx / ELEM_BITS

/-- `bit_mask (bit_idx)`: the word with only bit `bit_idx`'s position set. -/
def bit_mask (bit_idx : ℕ) : UInt32 := 1 <<< UInt32.ofNat (bit_idx % ELEM_BITS)

/-- `elem_cnt (bit_cnt)`: the words needed for `bit_cnt` bits, `DIV_ROUND_UP`. -/
def elem_cnt (bit_cnt : ℕ) : ℕ := (bit_cnt + ELEM_BITS - 1) / ELEM_BITS

/-- `struct bitmap` with its words. -/
structure WordBitmap where
  bit_cnt : ℕ
  bits : List UInt32
  length_bits : bits.length = elem_cnt bit_cnt
  bit_cnt_le : bit_cnt ≤ SIZE_MAX

namespace WordBitmap

/-- Bit `j` of the word array. -/
def bitOf (b : WordBitmap) (j : ℕ) : Bool := (b.bits.getD (elem_idx j) 0).bit (j % ELEM_BITS)

/-- The bitmap with word `idx` replaced by `f` of it. -/
def modifyWord (b : WordBitmap) (idx : ℕ) (f : UInt32 → UInt32) : WordBitmap :=
  ⟨b.bit_cnt, b.bits.modify idx f, by rw [List.length_modify, b.length_bits], b.bit_cnt_le⟩

/-- The write of `bitmap_mark`, `bitmap_reset` and `bitmap_flip`: `b->bits[idx] op= mask`, for
a word of the array. -/
def writeBit (b : WordBitmap) (bit_idx : ℕ) (op : UInt32 → UInt32 → UInt32) :
    Except Fault WordBitmap :=
  if elem_idx bit_idx < b.bits.length then .ok (b.modifyWord (elem_idx bit_idx) (op · (bit_mask bit_idx)))
  else .error .undefined

/-- `bitmap_mark (b, bit_idx)`: `b->bits[idx] |= mask`. -/
def bitmap_mark (b : WordBitmap) (bit_idx : ℕ) : Except Fault WordBitmap :=
  b.writeBit bit_idx fun w mask => w ||| mask

/-- `bitmap_reset (b, bit_idx)`: `b->bits[idx] &= ~mask`. -/
def bitmap_reset (b : WordBitmap) (bit_idx : ℕ) : Except Fault WordBitmap :=
  b.writeBit bit_idx fun w mask => w &&& ~~~mask

/-- `bitmap_flip (b, bit_idx)`: `b->bits[idx] ^= mask`. -/
def bitmap_flip (b : WordBitmap) (bit_idx : ℕ) : Except Fault WordBitmap :=
  b.writeBit bit_idx fun w mask => w ^^^ mask

/-- `bitmap_set (b, idx, value)`. -/
def bitmap_set (b : WordBitmap) (idx : ℕ) (value : Bool) : Except Fault WordBitmap :=
  if idx < b.bit_cnt then (if value then b.bitmap_mark idx else b.bitmap_reset idx)
  else .error .panic

/-- `bitmap_test (b, idx)`. -/
def bitmap_test (b : WordBitmap) (idx : ℕ) : Except Fault Bool :=
  if idx < b.bit_cnt then .ok ((b.bits.getD (elem_idx idx) 0 &&& bit_mask idx) != 0)
  else .error .panic

/-- `bitmap_set_multiple (b, start, cnt, value)`. -/
def bitmap_set_multiple (b : WordBitmap) (start cnt : ℕ) (value : Bool) :
    Except Fault WordBitmap :=
  if start ≤ b.bit_cnt ∧ start + cnt ≤ b.bit_cnt then
    (List.range cnt).foldlM (fun b i => b.bitmap_set (start + i) value) b
  else .error .panic

/-- `bitmap_contains (b, start, cnt, value)`. -/
def bitmap_contains (b : WordBitmap) (start cnt : ℕ) (value : Bool) : Except Fault Bool :=
  if start ≤ b.bit_cnt ∧ start + cnt ≤ b.bit_cnt then
    (List.range cnt).anyM fun i => do
      let bit ← b.bitmap_test (start + i)
      pure (bit == value)
  else .error .panic

/-- The loop `for (i = start; i <= last; i++)` of `bitmap_scan` from `i`, with `n` indices
left. -/
def scanLoop (b : WordBitmap) (cnt : ℕ) (value : Bool) : ℕ → ℕ → Except Fault ℕ
  | _, 0 => .ok BITMAP_ERROR
  | i, n + 1 => do
    let found ← b.bitmap_contains i cnt (!value)
    if !found then .ok i else b.scanLoop cnt value (i + 1) n

/-- `bitmap_scan (b, start, cnt, value)`; the loop runs `i` from `start` to
`last = bit_cnt - cnt`. -/
def bitmap_scan (b : WordBitmap) (start cnt : ℕ) (value : Bool) : Except Fault ℕ :=
  if start ≤ b.bit_cnt then
    if cnt ≤ b.bit_cnt then b.scanLoop cnt value start (b.bit_cnt - cnt + 1 - start)
    else .ok BITMAP_ERROR
  else .error .panic

/-- `bitmap_scan_and_flip (b, start, cnt, value)`. -/
def bitmap_scan_and_flip (b : WordBitmap) (start cnt : ℕ) (value : Bool) :
    Except Fault (ℕ × WordBitmap) := do
  let idx ← b.bitmap_scan start cnt value
  if idx ≠ BITMAP_ERROR then
    let b' ← b.bitmap_set_multiple idx cnt (!value)
    .ok (idx, b')
  else .ok (idx, b)

/-- The bits below `bit_cnt`, as `Bitmap` has them. -/
def toBitmap (b : WordBitmap) : Bitmap := ⟨(List.range b.bit_cnt).map b.bitOf⟩

/-! ## Single bits -/

theorem getD_modify_of_lt {α : Type*} {l : List α} {i : ℕ} (hi : i < l.length) (f : α → α)
    (d : α) (j : ℕ) :
    (l.modify i f).getD j d = if j = i then f (l.getD i d) else l.getD j d := by
  simp only [List.getD_eq_getElem?_getD, List.getElem?_modify]
  by_cases hij : j = i
  · subst hij
    simp [List.getElem?_eq_getElem hi]
  · simp [Ne.symm hij, hij]

theorem bit_bit_mask (bit_idx j : ℕ) : (bit_mask bit_idx).bit j = decide (j = bit_idx % ELEM_BITS) :=
  UInt32.bit_one_shiftLeft (Nat.mod_lt _ (by decide)) j

theorem mod_lt_elem_bits (j : ℕ) : j % ELEM_BITS < 32 := Nat.mod_lt _ (by decide)

theorem eq_of_elem_idx_eq {i j : ℕ} (hw : elem_idx j = elem_idx i)
    (hb : j % ELEM_BITS = i % ELEM_BITS) : j = i := by
  unfold elem_idx at hw
  rw [← Nat.div_add_mod j ELEM_BITS, ← Nat.div_add_mod i ELEM_BITS, hw, hb]

/-- Every bit below `bit_cnt` is in a word of the array. -/
theorem elem_idx_lt (b : WordBitmap) {idx : ℕ} (h : idx < b.bit_cnt) : elem_idx idx < b.bits.length := by
  rw [b.length_bits]
  unfold elem_idx elem_cnt ELEM_BITS
  omega

/-- A write to the word of bit `bit_idx` with an operation that acts bit by bit, leaving a bit
alone where the mask is clear: bit `bit_idx` becomes `g` of itself, and no other bit of the
array changes. -/
theorem bitOf_writeBit (b : WordBitmap) {bit_idx : ℕ} (h : elem_idx bit_idx < b.bits.length)
    {op : UInt32 → UInt32 → UInt32} {g : Bool → Bool}
    (hop : ∀ w m j, j < 32 → (op w m).bit j = if m.bit j then g (w.bit j) else w.bit j) :
    ∃ b', b.writeBit bit_idx op = .ok b' ∧ b'.bit_cnt = b.bit_cnt ∧
      ∀ j, b'.bitOf j = if j = bit_idx then g (b.bitOf j) else b.bitOf j := by
  refine ⟨_, if_pos h, rfl, fun j => ?_⟩
  simp only [bitOf, modifyWord, getD_modify_of_lt h]
  by_cases hw : elem_idx j = elem_idx bit_idx
  · -- the written word: its other bits are under a clear mask bit
    rw [if_pos hw, hop _ _ _ (mod_lt_elem_bits j), bit_bit_mask, hw]
    by_cases hj : j = bit_idx
    · subst hj; simp
    · have : j % ELEM_BITS ≠ bit_idx % ELEM_BITS := fun hb => hj (eq_of_elem_idx_eq hw hb)
      simp [hj, this]
  · have hj : j ≠ bit_idx := by rintro rfl; exact hw rfl
    rw [if_neg hw, if_neg hj]

theorem bitmap_mark_spec (b : WordBitmap) {bit_idx : ℕ} (h : elem_idx bit_idx < b.bits.length) :
    ∃ b', b.bitmap_mark bit_idx = .ok b' ∧ b'.bit_cnt = b.bit_cnt ∧
      ∀ j, b'.bitOf j = if j = bit_idx then true else b.bitOf j :=
  @bitOf_writeBit b bit_idx h (fun w mask => w ||| mask) (fun _ => true) fun w m j _ => by
    cases hm : m.bit j <;> simp [hm]

theorem bitmap_reset_spec (b : WordBitmap) {bit_idx : ℕ} (h : elem_idx bit_idx < b.bits.length) :
    ∃ b', b.bitmap_reset bit_idx = .ok b' ∧ b'.bit_cnt = b.bit_cnt ∧
      ∀ j, b'.bitOf j = if j = bit_idx then false else b.bitOf j :=
  @bitOf_writeBit b bit_idx h (fun w mask => w &&& ~~~mask) (fun _ => false) fun w m j hj => by
    cases hm : m.bit j <;> simp [hj, hm]

theorem bitmap_flip_spec (b : WordBitmap) {bit_idx : ℕ} (h : elem_idx bit_idx < b.bits.length) :
    ∃ b', b.bitmap_flip bit_idx = .ok b' ∧ b'.bit_cnt = b.bit_cnt ∧
      ∀ j, b'.bitOf j = if j = bit_idx then !b.bitOf j else b.bitOf j :=
  @bitOf_writeBit b bit_idx h (fun w mask => w ^^^ mask) (fun x => !x) fun w m j _ => by
    cases hm : m.bit j <;> simp [hm]

/-- `bitmap_set` of a bit below `bit_cnt` sets exactly that bit. -/
theorem bitmap_set_spec (b : WordBitmap) {idx : ℕ} (h : idx < b.bit_cnt) (value : Bool) :
    ∃ b', b.bitmap_set idx value = .ok b' ∧ b'.bit_cnt = b.bit_cnt ∧
      ∀ j, b'.bitOf j = if j = idx then value else b.bitOf j := by
  unfold bitmap_set
  rw [if_pos h]
  cases value with
  | true => exact b.bitmap_mark_spec (b.elem_idx_lt h)
  | false => exact b.bitmap_reset_spec (b.elem_idx_lt h)

/-- `bitmap_test` of a bit below `bit_cnt` reads it. -/
theorem bitmap_test_spec (b : WordBitmap) {idx : ℕ} (h : idx < b.bit_cnt) :
    b.bitmap_test idx = .ok (b.bitOf idx) := by
  unfold bitmap_test bitOf
  rw [if_pos h, UInt32.and_bne_zero (bit_bit_mask idx) (mod_lt_elem_bits idx)]

/-! ## Groups of bits -/

/-- The loop of `bitmap_set_multiple`: after `n` rounds the `n` bits from `start` are `value`. -/
theorem foldlM_set_spec (b : WordBitmap) {start cnt : ℕ} (h : start + cnt ≤ b.bit_cnt) (value : Bool) :
    ∀ n ≤ cnt, ∃ b', (List.range n).foldlM (fun b i => b.bitmap_set (start + i) value) b = .ok b' ∧
      b'.bit_cnt = b.bit_cnt ∧ ∀ j, b'.bitOf j = if start ≤ j ∧ j < start + n then value else b.bitOf j
  | 0, _ => ⟨b, rfl, rfl, fun j => by rw [if_neg (by omega)]⟩
  | n + 1, hn => by
    obtain ⟨b₁, hb₁, hcnt₁, hbit₁⟩ := foldlM_set_spec b h value n (by omega)
    obtain ⟨b₂, hb₂, hcnt₂, hbit₂⟩ := b₁.bitmap_set_spec (show start + n < b₁.bit_cnt by omega) value
    refine ⟨b₂, ?_, by rw [hcnt₂, hcnt₁], fun j => ?_⟩
    · rw [List.range_succ, List.foldlM_append, hb₁]
      simp only [List.foldlM_cons, List.foldlM_nil, bind_pure]
      exact hb₂
    · rw [hbit₂, hbit₁]
      by_cases hj : j = start + n
      · rw [if_pos hj, if_pos (by omega)]
      · rw [if_neg hj]
        split_ifs <;> first | rfl | omega

/-- `bitmap_set_multiple` of a group inside the bitmap sets exactly that group. -/
theorem bitmap_set_multiple_spec (b : WordBitmap) {start cnt : ℕ} (h : start + cnt ≤ b.bit_cnt)
    (value : Bool) :
    ∃ b', b.bitmap_set_multiple start cnt value = .ok b' ∧ b'.bit_cnt = b.bit_cnt ∧
      ∀ j, b'.bitOf j = if start ≤ j ∧ j < start + cnt then value else b.bitOf j := by
  unfold bitmap_set_multiple
  rw [if_pos ⟨by omega, h⟩]
  exact b.foldlM_set_spec h value cnt (Nat.le_refl _)

/-- `anyM` in `Except` over tests that all succeed is `any` of their results. -/
theorem anyM_eq_ok {α ε : Type*} {f : α → Except ε Bool} {g : α → Bool} :
    ∀ {l : List α}, (∀ a ∈ l, f a = .ok (g a)) → l.anyM f = .ok (l.any g)
  | [], _ => rfl
  | a :: l, h => by
    rw [List.anyM, h a (by simp), List.any_cons]
    cases g a with
    | true => rfl
    | false => exact anyM_eq_ok fun a' ha' => h a' (by simp [ha'])

@[simp] theorem bitmap_size_toBitmap (b : WordBitmap) : Bitmap.bitmap_size b.toBitmap = b.bit_cnt := by
  simp [toBitmap, Bitmap.bitmap_size]

theorem bitmap_test_toBitmap (b : WordBitmap) {j : ℕ} (hj : j < b.bit_cnt) :
    Bitmap.bitmap_test b.toBitmap j = b.bitOf j := by
  simp [toBitmap, Bitmap.bitmap_test, List.getD_eq_getElem?_getD, hj]

/-- `bitmap_contains` of a group inside the bitmap is its `Bitmap` counterpart. -/
theorem bitmap_contains_eq (b : WordBitmap) {start cnt : ℕ} (h : start + cnt ≤ b.bit_cnt)
    (value : Bool) :
    b.bitmap_contains start cnt value = .ok (Bitmap.bitmap_contains b.toBitmap start cnt value) := by
  unfold bitmap_contains Bitmap.bitmap_contains
  rw [if_pos ⟨by omega, h⟩]
  refine anyM_eq_ok fun i hi => ?_
  have hi : start + i < b.bit_cnt := by simp at hi; omega
  rw [b.bitmap_test_spec hi, b.bitmap_test_toBitmap hi]
  rfl

/-- A group of the bitmap holds no `!value` bit exactly when all its bits are `value`. -/
theorem contains_toBitmap_eq_false_iff (b : WordBitmap) {i cnt : ℕ} (h : i + cnt ≤ b.bit_cnt)
    (value : Bool) :
    Bitmap.bitmap_contains b.toBitmap i cnt (!value) = false ↔ ∀ k < cnt, b.bitOf (i + k) = value := by
  rw [← Bool.not_eq_true, Bitmap.bitmap_contains_iff]
  constructor
  · intro hno k hk
    rw [← b.bitmap_test_toBitmap (by omega)]
    cases htest : Bitmap.bitmap_test b.toBitmap (i + k) <;> cases value <;>
      first | rfl | exact absurd ⟨k, hk, htest⟩ hno
  · rintro hall ⟨k, hk, htest⟩
    rw [b.bitmap_test_toBitmap (by omega), hall k hk] at htest
    cases value <;> exact absurd htest (by decide)

/-! ## The scan -/

/-- The scan loop over candidates whose groups lie inside the bitmap is the `Bitmap` loop,
with its failure read as `BITMAP_ERROR`. -/
theorem scanLoop_eq (b : WordBitmap) (cnt : ℕ) (value : Bool) :
    ∀ {i n : ℕ}, (∀ k < n, i + k + cnt ≤ b.bit_cnt) →
      b.scanLoop cnt value i n =
        .ok (match Bitmap.scanLoop b.toBitmap cnt value i n with
          | some k => k
          | none => BITMAP_ERROR)
  | _, 0, _ => rfl
  | i, n + 1, h => by
    have hrest : ∀ k < n, i + 1 + k + cnt ≤ b.bit_cnt := fun k hk => by
      have := h (k + 1) (by omega); omega
    rw [scanLoop, b.bitmap_contains_eq (by simpa using h 0 (by omega)), Bitmap.scanLoop]
    cases Bitmap.bitmap_contains b.toBitmap i cnt (!value) with
    | false => rfl
    | true => exact scanLoop_eq b cnt value hrest

/-- `bitmap_scan` from a `start` inside the bitmap is its `Bitmap` counterpart. -/
theorem bitmap_scan_eq (b : WordBitmap) {start : ℕ} (h : start ≤ b.bit_cnt) (cnt : ℕ) (value : Bool) :
    b.bitmap_scan start cnt value = .ok (Bitmap.bitmap_scan b.toBitmap start cnt value) := by
  unfold bitmap_scan Bitmap.bitmap_scan
  rw [if_pos h, bitmap_size_toBitmap]
  by_cases hcnt : cnt ≤ b.bit_cnt
  · rw [if_pos hcnt, if_pos hcnt]
    exact b.scanLoop_eq cnt value fun k hk => by omega
  · rw [if_neg hcnt, if_neg hcnt]

/-- `bitmap_scan_and_flip` of `cnt ≥ 1` bits from a `start` inside the bitmap: if some group of
`cnt` bits at or after `start` is all `value`, it returns the first one and flips exactly its
bits; otherwise it returns `BITMAP_ERROR` and leaves the bitmap alone. -/
theorem bitmap_scan_and_flip_spec (b : WordBitmap) {start cnt : ℕ} (hstart : start ≤ b.bit_cnt)
    (hcnt : 1 ≤ cnt) (value : Bool) :
    ∃ idx b', b.bitmap_scan_and_flip start cnt value = .ok (idx, b') ∧ b'.bit_cnt = b.bit_cnt ∧
      ((∃ i, start ≤ i ∧ i + cnt ≤ b.bit_cnt ∧ ∀ k < cnt, b.bitOf (i + k) = value) →
        start ≤ idx ∧ idx + cnt ≤ b.bit_cnt ∧ (∀ k < cnt, b.bitOf (idx + k) = value) ∧
        (∀ i, start ≤ i → i < idx → ∃ k < cnt, b.bitOf (i + k) ≠ value) ∧
        ∀ j, b'.bitOf j = if idx ≤ j ∧ j < idx + cnt then !value else b.bitOf j) ∧
      ((¬∃ i, start ≤ i ∧ i + cnt ≤ b.bit_cnt ∧ ∀ k < cnt, b.bitOf (i + k) = value) →
        idx = BITMAP_ERROR ∧ b' = b) := by
  have hscan := b.bitmap_scan_eq hstart cnt value
  have hsize : Bitmap.bitmap_size b.toBitmap ≤ BITMAP_ERROR := by
    rw [bitmap_size_toBitmap]
    exact b.bit_cnt_le
  by_cases hidx : Bitmap.bitmap_scan b.toBitmap start cnt value = BITMAP_ERROR
  · -- no group: a group would have made the `Bitmap` scan succeed
    refine ⟨BITMAP_ERROR, b, ?_, rfl, fun ⟨i, hi, hic, hall⟩ => ?_, fun _ => ⟨rfl, rfl⟩⟩
    · unfold bitmap_scan_and_flip
      rw [hscan, hidx]
      dsimp only [bind, Except.bind]
      rw [if_neg (not_not_intro rfl)]
    · exact absurd hidx (Bitmap.bitmap_scan_ne_error hcnt hsize hi (by simpa using hic)
        ((b.contains_toBitmap_eq_false_iff hic value).mpr hall))
  · obtain ⟨h₁, h₂, h₃, h₄⟩ := Bitmap.bitmap_scan_spec hidx
    rw [bitmap_size_toBitmap] at h₂
    obtain ⟨b', hb', hcnt', hbit'⟩ := b.bitmap_set_multiple_spec h₂ (!value)
    have hall := (b.contains_toBitmap_eq_false_iff h₂ value).mp h₃
    refine ⟨_, b', ?_, hcnt', fun _ => ⟨h₁, h₂, hall, ?_, hbit'⟩, fun hno => absurd ⟨_, h₁, h₂, hall⟩ hno⟩
    · unfold bitmap_scan_and_flip
      rw [hscan]
      dsimp only [bind, Except.bind]
      rw [if_pos hidx, hb']
    · -- every earlier candidate holds a `!value` bit
      intro i hi hlt
      have hic : i + cnt ≤ b.bit_cnt := by omega
      have : ¬∀ k < cnt, b.bitOf (i + k) = value := by
        rw [← b.contains_toBitmap_eq_false_iff hic, h₄ i hi hlt]
        exact Bool.noConfusion
      push Not at this
      exact this

end WordBitmap

/-- A sample bitmap of 40 bits in two words, the first full. -/
def sampleWordBitmap : WordBitmap :=
  ⟨40, [0xFFFFFFFF, 0], by decide, by decide⟩

/-- First-fit allocation in words: the scan-and-flip of `cnt ≥ 1` bits returns the first group
of `value` bits at or after `start` and flips exactly it, or `BITMAP_ERROR` with the bitmap
unchanged; `bitmap_set` below `bit_cnt`, and `bitmap_mark`, `bitmap_reset` and `bitmap_flip` of
any bit in a word of the array, the unused bits of the last word included, change that bit
alone. -/
theorem bitmap_scan_and_flip_first_fit :
    (∀ (b : WordBitmap) (start cnt : ℕ) (value : Bool), start ≤ b.bit_cnt → 1 ≤ cnt →
      ∃ idx b', b.bitmap_scan_and_flip start cnt value = .ok (idx, b') ∧ b'.bit_cnt = b.bit_cnt ∧
        ((∃ i, start ≤ i ∧ i + cnt ≤ b.bit_cnt ∧ ∀ k < cnt, b.bitOf (i + k) = value) →
          start ≤ idx ∧ idx + cnt ≤ b.bit_cnt ∧ (∀ k < cnt, b.bitOf (idx + k) = value) ∧
          (∀ i, start ≤ i → i < idx → ∃ k < cnt, b.bitOf (i + k) ≠ value) ∧
          ∀ j, b'.bitOf j = if idx ≤ j ∧ j < idx + cnt then !value else b.bitOf j) ∧
        ((¬∃ i, start ≤ i ∧ i + cnt ≤ b.bit_cnt ∧ ∀ k < cnt, b.bitOf (i + k) = value) →
          idx = BITMAP_ERROR ∧ b' = b)) ∧
    (∀ (b : WordBitmap) (idx : ℕ) (value : Bool), idx < b.bit_cnt →
      ∃ b', b.bitmap_set idx value = .ok b' ∧ b'.bit_cnt = b.bit_cnt ∧
        ∀ j, b'.bitOf j = if j = idx then value else b.bitOf j) ∧
    (∀ (b : WordBitmap) (bit_idx : ℕ), elem_idx bit_idx < b.bits.length →
      (∃ b', b.bitmap_mark bit_idx = .ok b' ∧ b'.bit_cnt = b.bit_cnt ∧
        ∀ j, b'.bitOf j = if j = bit_idx then true else b.bitOf j) ∧
      (∃ b', b.bitmap_reset bit_idx = .ok b' ∧ b'.bit_cnt = b.bit_cnt ∧
        ∀ j, b'.bitOf j = if j = bit_idx then false else b.bitOf j) ∧
      (∃ b', b.bitmap_flip bit_idx = .ok b' ∧ b'.bit_cnt = b.bit_cnt ∧
        ∀ j, b'.bitOf j = if j = bit_idx then !b.bitOf j else b.bitOf j)) :=
  ⟨fun b _ _ value hstart hcnt => b.bitmap_scan_and_flip_spec hstart hcnt value,
    fun b _ value h => b.bitmap_set_spec h value,
    fun b _ h => ⟨b.bitmap_mark_spec h, b.bitmap_reset_spec h, b.bitmap_flip_spec h⟩⟩

theorem bitmap_scan_and_flip_first_fit_sample :
    0 ≤ sampleWordBitmap.bit_cnt ∧ 1 ≤ 3 ∧ 39 < sampleWordBitmap.bit_cnt ∧
      elem_idx 39 < sampleWordBitmap.bits.length ∧
      (∃ idx b', sampleWordBitmap.bitmap_scan_and_flip 0 3 false = .ok (idx, b') ∧
        b'.bit_cnt = sampleWordBitmap.bit_cnt ∧
        ((∃ i, 0 ≤ i ∧ i + 3 ≤ sampleWordBitmap.bit_cnt ∧
            ∀ k < 3, sampleWordBitmap.bitOf (i + k) = false) →
          0 ≤ idx ∧ idx + 3 ≤ sampleWordBitmap.bit_cnt ∧
          (∀ k < 3, sampleWordBitmap.bitOf (idx + k) = false) ∧
          (∀ i, 0 ≤ i → i < idx → ∃ k < 3, sampleWordBitmap.bitOf (i + k) ≠ false) ∧
          ∀ j, b'.bitOf j = if idx ≤ j ∧ j < idx + 3 then !false else sampleWordBitmap.bitOf j) ∧
        ((¬∃ i, 0 ≤ i ∧ i + 3 ≤ sampleWordBitmap.bit_cnt ∧
            ∀ k < 3, sampleWordBitmap.bitOf (i + k) = false) →
          idx = BITMAP_ERROR ∧ b' = sampleWordBitmap)) ∧
      (∃ b', sampleWordBitmap.bitmap_set 39 true = .ok b' ∧ b'.bit_cnt = sampleWordBitmap.bit_cnt ∧
        ∀ j, b'.bitOf j = if j = 39 then true else sampleWordBitmap.bitOf j) :=
  ⟨by decide, by decide, by decide, by decide,
    bitmap_scan_and_flip_first_fit.1 sampleWordBitmap 0 3 false (by decide) (by decide),
    bitmap_scan_and_flip_first_fit.2.1 sampleWordBitmap 39 true (by decide)⟩

end Pintos
