import Pintos.Lib.Run
import Pintos.Lib.String

/-!
# The VGA text display (`devices/vga.c`)

The display is the 80 by 25 framebuffer at `ptov (0xb8000)`, two bytes a cell, and the cursor
`cx`, `cy`. `vga_putc` reads the cursor the BIOS left from the CRT controller the first time it
runs, writes a character at the cursor or moves the cursor for a control character, scrolls with
`memmove` when a line feed passes the last row, and writes the cursor back to the controller.

What the display is for is a teletype with unbounded paper (`Page`): every character stays on the
row it was written on, and the screen is a window of 25 rows onto the paper, moved down by a line
feed on the last row and by a form feed to a fresh sheet. `Shows` says that the framebuffer is
that window. `vga_shows_page` proves that from boot, with the BIOS cursor on the screen, every
sequence of `vga_putc` calls keeps the framebuffer showing the page of the same characters: the
`memmove` and `clear_row` of `newline` do exactly what moving the window does, and no byte outside
the framebuffer changes.
-/

set_option linter.style.nameCheck false

namespace Pintos.Vga

/-- Number of columns on the text display. -/
def COL_CNT : ℕ := 80

/-- Number of rows on the text display. -/
def ROW_CNT : ℕ := 25

/-- Attribute value for gray text on a black background. -/
def GRAY_ON_BLACK : UInt8 := 0x07

/-- The framebuffer, `ptov (0xb8000)`. -/
def fb : ℕ := 0xb8000 + PHYS_BASE

/-- `&fb[y][x][k]`: the character at `(x, y)` for `k = 0`, its attribute for `k = 1`. -/
def cellAddr (y x k : ℕ) : ℕ := fb + 2 * (COL_CNT * y + x) + k

/-- The static state of `vga.c`: the cursor, whether `init` has run, and the cursor location that
`move_cursor` writes to the CRT controller and `find_cursor` reads from it. -/
structure State where
  cx : ℕ
  cy : ℕ
  inited : Bool
  cursor : UInt16

namespace State

variable (v : State)

/-- The state at boot, with the cursor location the BIOS left in the controller. -/
def boot (cursor : UInt16) : State := ⟨0, 0, false, cursor⟩

/-- `find_cursor (&x, &y)`. -/
def find_cursor : ℕ × ℕ := (v.cursor.toNat % COL_CNT, v.cursor.toNat / COL_CNT)

/-- `init ()`. -/
def init : State :=
  if v.inited then v else { v with cx := v.find_cursor.1, cy := v.find_cursor.2, inited := true }

/-- `move_cursor ()`: `uint16_t cp = cx + COL_CNT * cy`, sent to registers `0x0e` and `0x0f`. -/
def move_cursor : State := { v with cursor := (v.cx + COL_CNT * v.cy).toUInt16 }

end State

/-- The loop of `clear_row (y)` from column `x`, with `n` columns to go. -/
def clearLoop (y : ℕ) : ℕ → ℕ → Mem → Mem
  | 0, _, m => m
  | n + 1, x, m =>
    clearLoop y n (x + 1)
      (Function.update (Function.update m (cellAddr y x 0) 32) (cellAddr y x 1) GRAY_ON_BLACK)

/-- `clear_row (y)`: row `y` to spaces. -/
def clear_row (m : Mem) (y : ℕ) : Mem := clearLoop y COL_CNT 0 m

/-- The loop of `cls ()` from row `y`, with `n` rows to go. -/
def clsLoop : ℕ → ℕ → Mem → Mem
  | 0, _, m => m
  | n + 1, y, m => clsLoop n (y + 1) (clear_row m y)

/-- `cls ()`. -/
def cls (m : Mem) (v : State) : Mem × State :=
  (clsLoop ROW_CNT 0 m, { v with cx := 0, cy := 0 }.move_cursor)

/-- `newline ()`. Past the last row, `memmove` moves rows 1 to 24 up by one and `clear_row`
clears the last. -/
def newline (m : Mem) (v : State) : Except Fault (Mem × State) :=
  let v := { v with cx := 0, cy := v.cy + 1 }
  if ROW_CNT ≤ v.cy then do
    let v := { v with cy := ROW_CNT - 1 }
    let (m, _) ← memmove m (cellAddr 0 0 0) (cellAddr 1 0 0) (2 * COL_CNT * (ROW_CNT - 1))
    pure (clear_row m (ROW_CNT - 1), v)
  else .ok (m, v)

/-- The `switch (c)` of `vga_putc`. -/
def vga_switch (m : Mem) (v : State) (c : UInt8) : Except Fault (Mem × State) :=
  -- `'\n'`
  if c = 10 then newline m v
  -- `'\f'`
  else if c = 12 then .ok (cls m v)
  -- `'\b'`
  else if c = 8 then .ok (m, if v.cx > 0 then { v with cx := v.cx - 1 } else v)
  -- `'\r'`
  else if c = 13 then .ok (m, { v with cx := 0 })
  -- `'\t'`: `cx = ROUND_UP (cx + 1, 8)`
  else if c = 9 then
    let v := { v with cx := (v.cx + 1 + 8 - 1) / 8 * 8 }
    if COL_CNT ≤ v.cx then newline m v else .ok (m, v)
  -- `'\a'`: `speaker_beep ()` leaves the display alone
  else if c = 7 then .ok (m, v)
  else
    let m :=
      Function.update (Function.update m (cellAddr v.cy v.cx 0) c) (cellAddr v.cy v.cx 1)
        GRAY_ON_BLACK
    let v := { v with cx := v.cx + 1 }
    if COL_CNT ≤ v.cx then newline m v else .ok (m, v)

/-- `vga_putc (c)`, in the memory `m`. -/
def vga_putc (m : Mem) (v : State) (c : UInt8) : Except Fault (Mem × State) :=
  (vga_switch m v.init c).map fun (m, v) => (m, v.move_cursor)

/-- A call of `vga_putc`. -/
def vgaStep (s : Mem × State) (c : UInt8) (t : Mem × State) : Prop := vga_putc s.1 s.2 c = .ok t

/-! ## The page the display shows -/

/-- A character and its attribute. -/
abbrev Cell := UInt8 × UInt8

/-- A space, gray on black: what `clear_row` writes. -/
def blank : Cell := (32, GRAY_ON_BLACK)

/-- The cell at `(x, y)` of the framebuffer. -/
def cellAt (m : Mem) (y x : ℕ) : Cell := (m (cellAddr y x 0), m (cellAddr y x 1))

/-- A teletype with unbounded paper: every row written so far, the cursor's row and column, and
the first of the `ROW_CNT` rows on the screen. -/
structure Page where
  cells : ℕ → ℕ → Cell
  row : ℕ
  col : ℕ
  top : ℕ

namespace Page

variable (p : Page)

/-- A line feed: the next row, and the window one row down if the cursor leaves it. -/
def newline : Page :=
  { p with col := 0, row := p.row + 1,
           top := if p.row + 1 < p.top + ROW_CNT then p.top else p.top + 1 }

@[simp] theorem newline_cells : p.newline.cells = p.cells := rfl

@[simp] theorem newline_row : p.newline.row = p.row + 1 := rfl

/-- A form feed: a fresh screen below everything written. -/
def cls : Page := { p with col := 0, row := p.top + ROW_CNT, top := p.top + ROW_CNT }

/-- The character `c` at the cursor. -/
def put (c : UInt8) : Page :=
  let r := Function.update (p.cells p.row) p.col (c, GRAY_ON_BLACK)
  { p with cells := Function.update p.cells p.row r }

/-- One character on the teletype. -/
def putc (c : UInt8) : Page :=
  if c = 10 then p.newline
  else if c = 12 then p.cls
  else if c = 8 then { p with col := p.col - 1 }
  else if c = 13 then { p with col := 0 }
  else if c = 9 then
    if COL_CNT ≤ (p.col + 8) / 8 * 8 then p.newline else { p with col := (p.col + 8) / 8 * 8 }
  else if c = 7 then p
  else if COL_CNT ≤ p.col + 1 then (p.put c).newline else { p.put c with col := p.col + 1 }

/-- The page at boot: the screen the BIOS left, and the cursor where it left it. -/
def boot (m : Mem) (cursor : UInt16) : Page where
  cells r x := if r < ROW_CNT then cellAt m r x else blank
  row := cursor.toNat / COL_CNT
  col := cursor.toNat % COL_CNT
  top := 0

end Page

/-- The framebuffer shows the page: the cursor on the screen at the page's cursor, row `y` of the
framebuffer row `top + y` of the page, and nothing written below the screen yet. -/
structure Shows (m : Mem) (v : State) (p : Page) : Prop where
  cx : v.cx = p.col
  cy : p.top + v.cy = p.row
  cx_lt : v.cx < COL_CNT
  cy_lt : v.cy < ROW_CNT
  screen : ∀ y < ROW_CNT, ∀ x < COL_CNT, cellAt m y x = p.cells (p.top + y) x
  below : ∀ r x, p.top + ROW_CNT ≤ r → p.cells r x = blank

/-- An address outside the framebuffer. -/
def Outside (a : ℕ) : Prop := a < fb ∨ cellAddr ROW_CNT 0 0 ≤ a

/-! ## The framebuffer's cells -/

/-- An address outside the framebuffer is outside every run of its rows. -/
theorem Outside.rows {a : ℕ} (ha : Outside a) (y : ℕ) {y' : ℕ} (hy' : y' ≤ ROW_CNT) :
    a < cellAddr y 0 0 ∨ cellAddr y' 0 0 ≤ a := by
  unfold Outside at ha
  simp only [cellAddr, COL_CNT, ROW_CNT] at ha hy' ⊢
  omega

theorem cellAddr_inj {y x k y' x' k' : ℕ} (hx : x < COL_CNT) (hx' : x' < COL_CNT) (hk : k < 2)
    (hk' : k' < 2) : cellAddr y x k = cellAddr y' x' k' ↔ y = y' ∧ x = x' ∧ k = k' := by
  unfold cellAddr COL_CNT at *
  omega

variable {m : Mem} {v : State} {p : Page}

/-- Writing a character and its attribute changes that cell only. -/
theorem cellAt_write (m : Mem) {y x : ℕ} (hx : x < COL_CNT) (c a : UInt8) {y' x' : ℕ}
    (hx' : x' < COL_CNT) :
    cellAt (Function.update (Function.update m (cellAddr y x 0) c) (cellAddr y x 1) a) y' x' =
      if y' = y ∧ x' = x then (c, a) else cellAt m y' x' := by
  by_cases hyx : y' = y ∧ x' = x
  · obtain ⟨rfl, rfl⟩ := hyx
    have h01 : cellAddr y' x' 0 ≠ cellAddr y' x' 1 := by
      rw [Ne, cellAddr_inj hx hx (by decide) (by decide)]
      simp
    simp [cellAt, Function.update_of_ne h01]
  · have h0 : ∀ k < 2, cellAddr y' x' 0 ≠ cellAddr y x k := fun k hk => by
      rw [Ne, cellAddr_inj hx' hx (by decide) hk]
      omega
    have h1 : ∀ k < 2, cellAddr y' x' 1 ≠ cellAddr y x k := fun k hk => by
      rw [Ne, cellAddr_inj hx' hx (by decide) hk]
      omega
    simp only [cellAt, if_neg hyx, Function.update_of_ne (h0 1 (by decide)),
      Function.update_of_ne (h0 0 (by decide)), Function.update_of_ne (h1 1 (by decide)),
      Function.update_of_ne (h1 0 (by decide))]

/-- The clearing loop blanks the columns it runs over, in its row. -/
theorem cellAt_clearLoop (y : ℕ) :
    ∀ (n x : ℕ) (m : Mem), x + n ≤ COL_CNT → ∀ y' x', x' < COL_CNT →
      cellAt (clearLoop y n x m) y' x' =
        if y' = y ∧ x ≤ x' ∧ x' < x + n then blank else cellAt m y' x'
  | 0, x, m, _, y', x', _ => by simp [clearLoop]
  | n + 1, x, m, hn, y', x', hx' => by
    rw [clearLoop, cellAt_clearLoop y n (x + 1) _ (by omega) y' x' hx',
      cellAt_write m (by omega) _ _ hx']
    split_ifs <;> first | rfl | omega

/-- The clearing loop writes nothing outside the cells it runs over. -/
theorem clearLoop_frame (y : ℕ) :
    ∀ (n x : ℕ) (m : Mem) (a : ℕ), a < cellAddr y x 0 ∨ cellAddr y (x + n) 0 ≤ a →
      clearLoop y n x m a = m a
  | 0, _, _, _, _ => rfl
  | n + 1, x, m, a, ha => by
    have h0 : a ≠ cellAddr y x 0 := by unfold cellAddr at *; omega
    have h1 : a ≠ cellAddr y x 1 := by unfold cellAddr at *; omega
    rw [clearLoop, clearLoop_frame y n (x + 1) _ a (by unfold cellAddr at ha ⊢; omega),
      Function.update_of_ne h1, Function.update_of_ne h0]

theorem cellAt_clear_row (m : Mem) (y : ℕ) {y' x' : ℕ} (hx' : x' < COL_CNT) :
    cellAt (clear_row m y) y' x' = if y' = y then blank else cellAt m y' x' := by
  rw [clear_row, cellAt_clearLoop y COL_CNT 0 m (by omega) y' x' hx']
  simp only [Nat.zero_le, Nat.zero_add, hx', and_true]

theorem clear_row_frame (m : Mem) (y : ℕ) {a : ℕ}
    (ha : a < cellAddr y 0 0 ∨ cellAddr (y + 1) 0 0 ≤ a) : clear_row m y a = m a :=
  clearLoop_frame y COL_CNT 0 m a (by unfold cellAddr COL_CNT at *; omega)

/-- The loop of `cls` blanks the rows it runs over. -/
theorem cellAt_clsLoop : ∀ (n y : ℕ) (m : Mem) (y' : ℕ) {x' : ℕ}, x' < COL_CNT →
    cellAt (clsLoop n y m) y' x' = if y ≤ y' ∧ y' < y + n then blank else cellAt m y' x'
  | 0, y, m, y', x', _ => by simp [clsLoop]
  | n + 1, y, m, y', x', hx' => by
    rw [clsLoop, cellAt_clsLoop n (y + 1) _ y' hx', cellAt_clear_row m y hx']
    split_ifs <;> first | rfl | omega

theorem clsLoop_frame : ∀ (n y : ℕ) (m : Mem) (a : ℕ),
    a < cellAddr y 0 0 ∨ cellAddr (y + n) 0 0 ≤ a → clsLoop n y m a = m a
  | 0, _, _, _, _ => rfl
  | n + 1, y, m, a, ha => by
    rw [clsLoop, clsLoop_frame n (y + 1) _ a (by unfold cellAddr COL_CNT at *; omega),
      clear_row_frame m y (by unfold cellAddr COL_CNT at *; omega)]

/-- The `memmove` of `newline` copies up, from the second row to the first. -/
theorem memmove_scroll (m : Mem) :
    memmove m (cellAddr 0 0 0) (cellAddr 1 0 0) (2 * COL_CNT * (ROW_CNT - 1)) =
      .ok (moveUp (2 * COL_CNT * (ROW_CNT - 1)) m (cellAddr 0 0 0) (cellAddr 1 0 0)) := by
  have hfb : cellAddr 0 0 0 ≠ 0 := by simp [cellAddr, fb, PHYS_BASE]
  have hsrc : cellAddr 1 0 0 ≠ 0 := by simp [cellAddr, fb, PHYS_BASE]
  have hlt : cellAddr 0 0 0 < cellAddr 1 0 0 := by simp [cellAddr, COL_CNT]
  rw [memmove, if_neg (fun h => hfb h.1), if_neg (fun h => hsrc h.1), if_pos hlt]

/-- After the scroll's copy, row `y` holds what row `y + 1` held. -/
theorem cellAt_scroll (m : Mem) {y x : ℕ} (hy : y + 1 < ROW_CNT) (hx : x < COL_CNT) :
    cellAt (moveUp (2 * COL_CNT * (ROW_CNT - 1)) m (cellAddr 0 0 0) (cellAddr 1 0 0)).1 y x =
      cellAt m (y + 1) x := by
  have hcopy := moveUp_copy (2 * COL_CNT * (ROW_CNT - 1)) m (cellAddr 0 0 0) (cellAddr 1 0 0)
    (by simp [cellAddr, COL_CNT])
  have hk : ∀ k < 2, cellAddr 0 0 0 + (2 * (COL_CNT * y + x) + k) = cellAddr y x k ∧
      cellAddr 1 0 0 + (2 * (COL_CNT * y + x) + k) = cellAddr (y + 1) x k := fun k _ => by
    constructor <;> (unfold cellAddr COL_CNT; omega)
  have hlt : ∀ k < 2, 2 * (COL_CNT * y + x) + k < 2 * COL_CNT * (ROW_CNT - 1) := fun k hk => by
    unfold COL_CNT ROW_CNT at *
    omega
  have h0 := hcopy _ (hlt 0 (by decide))
  have h1 := hcopy _ (hlt 1 (by decide))
  rw [(hk 0 (by decide)).1, (hk 0 (by decide)).2] at h0
  rw [(hk 1 (by decide)).1, (hk 1 (by decide)).2] at h1
  simp only [cellAt, h0, h1]

theorem scroll_frame (m : Mem) {a : ℕ} (ha : a < cellAddr 0 0 0 ∨ cellAddr (ROW_CNT - 1) 0 0 ≤ a) :
    (moveUp (2 * COL_CNT * (ROW_CNT - 1)) m (cellAddr 0 0 0) (cellAddr 1 0 0)).1 a = m a :=
  moveUp_frame _ m _ _ a (by unfold cellAddr COL_CNT ROW_CNT at *; omega)

/-! ## Each operation keeps the page on the screen -/

/-- A cursor column on the screen. -/
theorem Shows.setCol (h : Shows m v p) {x : ℕ} (hx : x < COL_CNT) :
    Shows m { v with cx := x } { p with col := x } where
  cx := rfl
  cy := h.cy
  cx_lt := hx
  cy_lt := h.cy_lt
  screen := h.screen
  below := h.below

/-- A character written at the cursor, with the cursor then at column `x`. -/
theorem Shows.put (h : Shows m v p) (c : UInt8) {x : ℕ} (hx : x < COL_CNT) :
    Shows (Function.update (Function.update m (cellAddr v.cy v.cx 0) c) (cellAddr v.cy v.cx 1)
      GRAY_ON_BLACK) { v with cx := x } { p.put c with col := x } where
  cx := rfl
  cy := h.cy
  cx_lt := hx
  cy_lt := h.cy_lt
  screen := by
    intro y hy x' hx'
    rw [cellAt_write m h.cx_lt c GRAY_ON_BLACK hx']
    simp only [Page.put]
    by_cases hyx : y = v.cy ∧ x' = v.cx
    · obtain ⟨rfl, rfl⟩ := hyx
      rw [if_pos ⟨rfl, rfl⟩, h.cy, h.cx, Function.update_self, Function.update_self]
    · have hrow : ¬ (p.top + y = p.row ∧ x' = p.col) := by
        rw [← h.cy, ← h.cx]
        omega
      rw [if_neg hyx, h.screen y hy x' hx']
      by_cases hr : p.top + y = p.row
      · rw [hr, Function.update_self, Function.update_of_ne (by tauto)]
      · rw [Function.update_of_ne hr]
  below := by
    intro r x' hr
    have hr' : p.top + ROW_CNT ≤ r := hr
    have hne : r ≠ p.row := by have := h.cy; have := h.cy_lt; omega
    simp only [Page.put, Function.update_of_ne hne]
    exact h.below r x' hr'

/-- A line feed, from any column. -/
theorem Shows.newline (h : Shows m { v with cx := 0 } { p with col := 0 }) :
    ∃ m' v', newline m v = .ok (m', v') ∧ v'.inited = v.inited ∧ Shows m' v' p.newline ∧
      ∀ a, Outside a → m' a = m a := by
  have hcy : p.top + v.cy = p.row := h.cy
  have hlt : v.cy < ROW_CNT := h.cy_lt
  have hscreen : ∀ y < ROW_CNT, ∀ x < COL_CNT, cellAt m y x = p.cells (p.top + y) x := h.screen
  have hbelow : ∀ r x, p.top + ROW_CNT ≤ r → p.cells r x = blank := h.below
  by_cases hscroll : ROW_CNT ≤ v.cy + 1
  · -- the last row: the window moves one row down the page
    have hlast : v.cy = ROW_CNT - 1 := by omega
    have htop : p.newline.top = p.top + 1 := by
      simp only [Page.newline, if_neg (show ¬ p.row + 1 < p.top + ROW_CNT by omega)]
    refine ⟨clear_row (moveUp (2 * COL_CNT * (ROW_CNT - 1)) m (cellAddr 0 0 0) (cellAddr 1 0 0)).1
      (ROW_CNT - 1), { v with cx := 0, cy := ROW_CNT - 1 }, ?_, rfl, ?_, ?_⟩
    · simp only [Pintos.Vga.newline, if_pos hscroll, memmove_scroll]
      rfl
    · refine ⟨rfl, ?_, show 0 < COL_CNT by decide, show ROW_CNT - 1 < ROW_CNT by decide, ?_, ?_⟩
      · show p.newline.top + (ROW_CNT - 1) = p.row + 1
        omega
      · intro y hy x hx
        rw [cellAt_clear_row _ _ hx, htop]
        rw [Page.newline_cells]
        split_ifs with hyl
        · rw [hbelow _ x (by omega)]
        · rw [cellAt_scroll m (by omega) hx, hscreen (y + 1) (by omega) x hx,
            show p.top + 1 + y = p.top + (y + 1) by omega]
      · intro r x hr
        rw [htop] at hr
        exact hbelow r x (by omega)
    · intro a ha
      rw [clear_row_frame _ _ (ha.rows (ROW_CNT - 1) (by decide)),
        scroll_frame m (ha.rows 0 (by decide))]
  · -- the window stays
    have htop : p.newline.top = p.top := by
      simp only [Page.newline, if_pos (show p.row + 1 < p.top + ROW_CNT by omega)]
    refine ⟨m, { v with cx := 0, cy := v.cy + 1 }, ?_, rfl, ?_, fun _ _ => rfl⟩
    · simp only [Pintos.Vga.newline, if_neg hscroll]
    · refine ⟨rfl, ?_, show 0 < COL_CNT by decide, show v.cy + 1 < ROW_CNT by omega, ?_, ?_⟩
      · show p.newline.top + (v.cy + 1) = p.row + 1
        omega
      · rw [htop]
        exact hscreen
      · rw [htop]
        exact hbelow

/-- `Shows` does not read the cursor location in the controller. -/
theorem Shows.move_cursor (h : Shows m v p) : Shows m v.move_cursor p :=
  ⟨h.cx, h.cy, h.cx_lt, h.cy_lt, h.screen, h.below⟩

/-- A form feed: a fresh screen, which the page has below everything written. -/
theorem Shows.cls (h : Shows m v p) :
    Shows (cls m v).1 (cls m v).2 p.cls ∧ (cls m v).2.inited = v.inited ∧
      ∀ a, Outside a → (cls m v).1 a = m a := by
  refine ⟨⟨rfl, by simp [Pintos.Vga.cls, Page.cls, State.move_cursor], show 0 < COL_CNT by decide,
    show 0 < ROW_CNT by decide, ?_, ?_⟩, rfl, ?_⟩
  · intro y hy x hx
    rw [Pintos.Vga.cls, cellAt_clsLoop ROW_CNT 0 m y hx, if_pos ⟨Nat.zero_le y, hy⟩]
    exact (h.below _ x (by simp only [Page.cls]; omega)).symm
  · intro r x hr
    exact h.below r x (by simp only [Page.cls] at hr; omega)
  · intro a ha
    exact clsLoop_frame ROW_CNT 0 m a (by unfold Outside at ha; simpa [cellAddr] using ha)

/-- One `switch (c)`: the page of the character on the screen, outside memory unchanged. -/
theorem Shows.vga_switch (h : Shows m v p) (c : UInt8) :
    ∃ m' v', vga_switch m v c = .ok (m', v') ∧ v'.inited = v.inited ∧ Shows m' v' (p.putc c) ∧
      ∀ a, Outside a → m' a = m a := by
  have hcx := h.cx
  unfold Pintos.Vga.vga_switch Page.putc
  by_cases h10 : c = 10
  · simp only [if_pos h10]
    exact Shows.newline (v := v) (p := p) (h.setCol (by decide))
  simp only [if_neg h10]
  by_cases h12 : c = 12
  · simp only [if_pos h12]
    exact ⟨_, _, rfl, h.cls.2.1, h.cls.1, h.cls.2.2⟩
  simp only [if_neg h12]
  by_cases h8 : c = 8
  · -- `'\b'` stops at the first column, as `p.col - 1` does
    simp only [if_pos h8]
    refine ⟨m, _, rfl, ?_, ?_, fun _ _ => rfl⟩
    · split_ifs <;> rfl
    · by_cases hpos : v.cx > 0
      · rw [if_pos hpos, ← hcx]
        exact h.setCol (by have := h.cx_lt; omega)
      · rw [if_neg hpos, show p.col - 1 = v.cx by omega]
        exact h.setCol h.cx_lt
  simp only [if_neg h8]
  by_cases h13 : c = 13
  · simp only [if_pos h13]
    exact ⟨m, _, rfl, rfl, h.setCol (by decide), fun _ _ => rfl⟩
  simp only [if_neg h13]
  by_cases h9 : c = 9
  · simp only [if_pos h9]
    rw [show v.cx + 1 + 8 - 1 = p.col + 8 by omega]
    split_ifs with hwrap
    · exact Shows.newline (v := { v with cx := (p.col + 8) / 8 * 8 }) (p := p)
        (h.setCol (by decide))
    · exact ⟨m, _, rfl, rfl, h.setCol (by omega), fun _ _ => rfl⟩
  simp only [if_neg h9]
  by_cases h7 : c = 7
  · simp only [if_pos h7]
    exact ⟨m, v, rfl, rfl, h, fun _ _ => rfl⟩
  simp only [if_neg h7]
  have hin : ∀ a k, k < 2 → Outside a → a ≠ cellAddr v.cy v.cx k := by
    intro a k hk ha
    have hx := h.cx_lt
    have hy := h.cy_lt
    unfold Outside at ha
    simp only [cellAddr, COL_CNT, ROW_CNT] at ha hx hy ⊢
    omega
  have hframe : ∀ a, Outside a →
      Function.update (Function.update m (cellAddr v.cy v.cx 0) c) (cellAddr v.cy v.cx 1)
        GRAY_ON_BLACK a = m a := fun a ha => by
    rw [Function.update_of_ne (hin a 1 (by decide) ha),
      Function.update_of_ne (hin a 0 (by decide) ha)]
  rw [← hcx]
  split_ifs with hwrap
  · obtain ⟨m', v', hnl, hi, hs, hf⟩ :=
      Shows.newline (v := { v with cx := v.cx + 1 }) (p := p.put c) (h.put c (by decide))
    exact ⟨m', v', hnl, hi, hs, fun a ha => (hf a ha).trans (hframe a ha)⟩
  · exact ⟨_, _, rfl, rfl, h.put c (x := v.cx + 1) (by omega), hframe⟩

/-! ## Every run -/

theorem init_inited (v : State) : v.init.inited = true := by
  unfold State.init
  split_ifs with h
  · exact h
  · rfl

/-- One call of `vga_putc`, from a state whose view by `init` shows the page. -/
theorem Shows.vga_putc (h : Shows m v.init p) (c : UInt8) :
    ∃ m' v', vga_putc m v c = .ok (m', v') ∧ v'.init = v' ∧ Shows m' v' (p.putc c) ∧
      v'.cursor.toNat = v'.cx + COL_CNT * v'.cy ∧ ∀ a, Outside a → m' a = m a := by
  obtain ⟨m', v', hsw, hi, hs, hf⟩ := h.vga_switch c
  have hcur : v'.cx + COL_CNT * v'.cy < 2 ^ 16 := by
    have hx := hs.cx_lt
    have hy := hs.cy_lt
    simp only [COL_CNT, ROW_CNT] at hx hy ⊢
    omega
  refine ⟨m', v'.move_cursor, ?_, ?_, hs.move_cursor, ?_, hf⟩
  · simp only [Pintos.Vga.vga_putc, hsw]
    rfl
  · have : v'.move_cursor.inited = true := by
      rw [show v'.move_cursor.inited = v'.inited from rfl, hi, init_inited]
    simp [State.init, this]
  · simpa [State.move_cursor] using hcur

/-- At boot the page is the screen the BIOS left, when its cursor is on the screen. -/
theorem Shows.boot (m : Mem) {cursor : UInt16} (hc : cursor.toNat < COL_CNT * ROW_CNT) :
    Shows m (State.boot cursor).init (Page.boot m cursor) where
  cx := rfl
  cy := Nat.zero_add _
  cx_lt := Nat.mod_lt _ (by decide)
  cy_lt := by
    show cursor.toNat / COL_CNT < ROW_CNT
    unfold COL_CNT ROW_CNT at *
    omega
  screen := by
    intro y hy x _
    simp only [Page.boot, Nat.zero_add, if_pos hy]
  below := by
    intro r x hr
    simp only [Page.boot, Nat.zero_add] at hr ⊢
    rw [if_neg (by omega)]

/-- From boot, with the BIOS cursor on the 80 by 25 screen, every sequence of `vga_putc` calls
runs, and after it the framebuffer shows the page of the same characters, the cursor location
sent to the controller is the cursor, and no byte outside the framebuffer has changed. -/
theorem vga_shows_page (m : Mem) {cursor : UInt16} (hc : cursor.toNat < COL_CNT * ROW_CNT)
    (cs : List UInt8) :
    ∃ m' v', Lts.Run vgaStep (m, State.boot cursor) cs (m', v') ∧
      Shows m' v'.init (cs.foldl Page.putc (Page.boot m cursor)) ∧
      v'.init.cursor.toNat = v'.init.cx + COL_CNT * v'.init.cy ∧ ∀ a, Outside a → m' a = m a := by
  -- the relation carried along the run: the page on the screen, the controller's cursor, and
  -- memory outside the framebuffer as at boot
  let R : Mem × State → Page → Prop := fun s p =>
    Shows s.1 s.2.init p ∧ s.2.init.cursor.toNat = s.2.init.cx + COL_CNT * s.2.init.cy ∧
      ∀ a, Outside a → s.1 a = m a
  have hstep : ∀ {s p} (c : UInt8), R s p → ∃ t, vgaStep s c t ∧ R t (p.putc c) := by
    rintro ⟨m₁, v₁⟩ p c ⟨hs, -, hf⟩
    obtain ⟨m', v', hput, hinit, hs', hcur, hf'⟩ := hs.vga_putc c
    refine ⟨(m', v'), hput, ?_, ?_, fun a ha => (hf' a ha).trans (hf a ha)⟩
    · show Shows m' v'.init _
      rwa [hinit]
    · show v'.init.cursor.toNat = v'.init.cx + COL_CNT * v'.init.cy
      rwa [hinit]
  have hboot : R (m, State.boot cursor) (Page.boot m cursor) := by
    refine ⟨Shows.boot m hc, ?_, fun _ _ => rfl⟩
    show cursor.toNat = cursor.toNat % COL_CNT + COL_CNT * (cursor.toNat / COL_CNT)
    exact (Nat.mod_add_div _ _).symm
  obtain ⟨⟨m', v'⟩, hrun, hR⟩ := Lts.Run.exists_foldl Page.putc hstep cs hboot
  exact ⟨m', v', hrun, hR⟩

/-- `"Hi\n"` from the start of the last row, which scrolls the screen. -/
theorem hi_on_last_row :
    (1920 : UInt16).toNat < COL_CNT * ROW_CNT ∧
      ∃ m' v', Lts.Run vgaStep ((fun _ => 0 : Mem), State.boot 1920) [72, 105, 10] (m', v') ∧
        Shows m' v'.init ([72, 105, 10].foldl Page.putc (Page.boot (fun _ => 0) 1920)) ∧
        v'.init.cursor.toNat = v'.init.cx + COL_CNT * v'.init.cy ∧ ∀ a, Outside a → m' a = 0 :=
  ⟨by decide, vga_shows_page (fun _ => 0) (by decide) [72, 105, 10]⟩

end Pintos.Vga
