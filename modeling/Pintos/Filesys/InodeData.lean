import Pintos.Filesys.Inode

/-!
# What `inode_read_at` and `inode_write_at` do to a file's bytes

The bytes of a file are `fileBytes s d`, read from its run of data sectors. When every
allocation succeeds and the run lies on the device, `inode_read_at` returns the requested slice
of those bytes, cut at the end of the file (`inode_read_at_eq`), and `inode_write_at` copies the
part of the buffer that lies inside the file over them, writes no sector outside the run, and
returns how much it copied (`inode_write_at_eq`). Each is proved by induction on the loop's
rounds: one round reads or writes one chunk, which lies inside one sector.
-/

namespace Pintos.Filesys

open EStateM

/-- `sector` is one of the data sectors of the file whose inode is `d`. -/
def InodeDisk.Owns (d : InodeDisk) (sector : Nat) : Prop :=
  d.start ≤ sector ∧ sector < d.start + bytes_to_sectors d.length

instance (d : InodeDisk) (sector : Nat) : Decidable (d.Owns sector) :=
  inferInstanceAs (Decidable (_ ∧ _))

/-- The data sectors of `d` lie on a device of `disk_size` sectors. -/
def InodeDisk.OnDevice (d : InodeDisk) (disk_size : Nat) : Prop :=
  d.start + bytes_to_sectors d.length ≤ disk_size

instance (d : InodeDisk) (disk_size : Nat) : Decidable (d.OnDevice disk_size) :=
  inferInstanceAs (Decidable (_ ≤ _))

@[simp] theorem length_fileBytes (s : Fs) (d : InodeDisk) : (fileBytes s d).length = d.length.toNat := by
  simp [fileBytes]

/-- A file's bytes are read from its own sectors only. -/
theorem fileBytes_congr {s : Fs} {d : InodeDisk} {D : Nat → SectorData}
    (h : ∀ sector, d.Owns sector → D sector = s.disk sector) : fileBytes { s with disk := D } d = fileBytes s d := by
  apply List.ext_getElem (by simp)
  intro p hp _
  have hp : p < d.length.toNat := by simpa using hp
  simp only [fileBytes, List.getElem_map, List.getElem_range]
  rw [h]
  simp only [InodeDisk.Owns, bytes_to_sectors, BLOCK_SECTOR_SIZE]
  omega

/-- The bytes of one chunk, which lies in one sector of the file, are a slice of the file. -/
theorem sectorBytes_eq_fileBytes (s : Fs) (d : InodeDisk) {offset c : Nat}
    (hlen : offset + c ≤ d.length.toNat) (hsec : offset % BLOCK_SECTOR_SIZE + c ≤ BLOCK_SECTOR_SIZE) :
    sectorBytes (s.disk (d.start + offset / BLOCK_SECTOR_SIZE)) (offset % BLOCK_SECTOR_SIZE) c =
      ((fileBytes s d).drop offset).take c := by
  apply List.ext_getElem
  · simp [sectorBytes]; omega
  · intro i h₁ h₂
    simp only [sectorBytes, List.getElem_map, List.getElem_range, fileBytes, List.getElem_take,
      List.getElem_drop]
    have hi : i < c := by simpa [sectorBytes] using h₁
    have hdiv : (offset + i) / BLOCK_SECTOR_SIZE = offset / BLOCK_SECTOR_SIZE := by
      simp only [BLOCK_SECTOR_SIZE] at *; omega
    have hmod : (offset + i) % BLOCK_SECTOR_SIZE = offset % BLOCK_SECTOR_SIZE + i := by
      simp only [BLOCK_SECTOR_SIZE] at *; omega
    rw [hdiv, hmod]

/-- Writing one chunk, which lies in one sector of the file, copies it over the file's bytes.
The new sector need only agree with the patched old one on the sector's 512 bytes: a whole
sector is written from the buffer without reading the old one. -/
theorem fileBytes_update_chunk (s : Fs) (d : InodeDisk) {offset c : Nat} {buffer : List UInt8}
    {new : SectorData} (hlen : offset + c ≤ d.length.toNat)
    (hsec : offset % BLOCK_SECTOR_SIZE + c ≤ BLOCK_SECTOR_SIZE) (hbuf : c ≤ buffer.length)
    (hnew : ∀ j < BLOCK_SECTOR_SIZE, new j =
      patch (s.disk (d.start + offset / BLOCK_SECTOR_SIZE)) (offset % BLOCK_SECTOR_SIZE) c buffer j) :
    fileBytes { s with disk := Function.update s.disk (d.start + offset / BLOCK_SECTOR_SIZE) new } d =
      overwrite (fileBytes s d) offset (buffer.take c) := by
  have hl : offset + (buffer.take c).length ≤ (fileBytes s d).length := by
    simp [length_fileBytes]; omega
  apply List.ext_getElem?
  intro p
  rw [getElem?_overwrite hl]
  simp only [fileBytes, List.getElem?_map, List.length_take, Nat.min_eq_left hbuf]
  by_cases hp : p < d.length.toNat
  · simp only [List.getElem?_range hp, Option.map_some]
    by_cases hs : d.start + p / BLOCK_SECTOR_SIZE = d.start + offset / BLOCK_SECTOR_SIZE
    · rw [hs, Function.update_self, hnew _ (Nat.mod_lt _ (by decide)), patch]
      have hiff : (offset % BLOCK_SECTOR_SIZE ≤ p % BLOCK_SECTOR_SIZE ∧
          p % BLOCK_SECTOR_SIZE < offset % BLOCK_SECTOR_SIZE + c) ↔ (offset ≤ p ∧ p < offset + c) := by
        simp only [BLOCK_SECTOR_SIZE] at hs hsec ⊢; omega
      by_cases hin : offset ≤ p ∧ p < offset + c
      · have hidx : p % BLOCK_SECTOR_SIZE - offset % BLOCK_SECTOR_SIZE = p - offset := by
          simp only [BLOCK_SECTOR_SIZE] at hs hsec ⊢; omega
        rw [if_pos (hiff.mpr hin), if_pos hin, hidx, List.getElem?_take, if_pos (by omega),
          List.getD_eq_getElem?_getD, List.getElem?_eq_getElem (by omega)]
        rfl
      · rw [if_neg (mt hiff.mp hin), if_neg hin]
    · have hin : ¬(offset ≤ p ∧ p < offset + c) := by
        intro h; apply hs; simp only [BLOCK_SECTOR_SIZE] at hsec ⊢; omega
      rw [Function.update_of_ne hs, if_neg hin]
  · have hnone : (List.range d.length.toNat)[p]? = none := List.getElem?_eq_none (by simp; omega)
    simp only [hnone, if_neg (show ¬(offset ≤ p ∧ p < offset + c) by omega), Option.map_none]

/-! ## The loops -/

/-- With every allocation granted, the read loop returns the slice of the file's bytes from
`offset`, as long as the request and the file allow. -/
theorem readLoop_eq {s : Fs} {d : InodeDisk} (hm : s.mallocs = []) (hdev : d.OnDevice s.disk_size) :
    ∀ fuel size offset bounce, size ≤ fuel →
      readLoop d fuel size offset bounce s = .ok (((fileBytes s d).drop offset).take size) s
  | 0, size, offset, bounce, h => by
    obtain rfl : size = 0 := by omega
    simp [readLoop]
  | fuel + 1, size, offset, bounce, h => by
    simp only [readLoop]
    split
    · rename_i hc
      obtain ⟨c, hcdef⟩ : ∃ c, (min (size : Int) (min (d.length - offset)
          ((BLOCK_SECTOR_SIZE - offset % BLOCK_SECTOR_SIZE : Nat) : Int))).toNat = c := ⟨_, rfl⟩
      have hcs : c ≤ size := by omega
      have hcl : offset + c ≤ d.length.toNat := by omega
      have hco : offset % BLOCK_SECTOR_SIZE + c ≤ BLOCK_SECTOR_SIZE := by omega
      have hsec : byte_to_sector d offset = d.start + offset / BLOCK_SECTOR_SIZE := by
        rw [byte_to_sector, if_pos (by omega)]
      have hread : block_read (byte_to_sector d offset) s =
          .ok (s.disk (d.start + offset / BLOCK_SECTOR_SIZE)) s := by
        rw [hsec]; apply block_read_ok
        simp only [InodeDisk.OnDevice, bytes_to_sectors, BLOCK_SECTOR_SIZE] at hdev hcl hco ⊢; omega
      have ih := readLoop_eq hm hdev fuel (size - c) (offset + c)
      rw [hcdef, take_drop_eq_append _ hcs, ← sectorBytes_eq_fileBytes s d hcl hco]
      split
      · rename_i hfull
        rw [bind_ok hread, bind_ok (ih bounce (by omega))]
        simp [hfull.1]
      · -- the bounce buffer is there already, or `malloc` gives it
        split
        all_goals first | rw [pure_bind_apply] | rw [bind_ok (allocOk_nil hm)]
        all_goals
          rw [if_pos rfl, bind_ok hread, bind_ok (ih true (by omega))]
          rfl
    · rename_i hc
      have : size = 0 ∨ d.length.toNat ≤ offset := by simp only [BLOCK_SECTOR_SIZE] at hc; omega
      rcases this with rfl | hl
      · simp
      · simp [List.drop_eq_nil_of_le, length_fileBytes, hl]

/-- With every allocation granted, the write loop copies the part of the buffer that lies
inside the file over the file's bytes, writes no sector outside the file's run, and returns the
number of bytes it copied. -/
theorem writeLoop_eq {d : InodeDisk} :
    ∀ fuel buffer size offset bounce (s : Fs), s.mallocs = [] → d.OnDevice s.disk_size →
      size ≤ fuel → size ≤ buffer.length →
      ∃ D, writeLoop d fuel buffer size offset bounce s =
          .ok (min size (d.length.toNat - offset)) { s with disk := D } ∧
        (∀ sector, ¬d.Owns sector → D sector = s.disk sector) ∧
        fileBytes { s with disk := D } d =
          overwrite (fileBytes s d) offset (buffer.take (min size (d.length.toNat - offset)))
  | 0, buffer, size, offset, bounce, s, _, _, hf, _ => by
    obtain rfl : size = 0 := by omega
    exact ⟨s.disk, by simp [writeLoop], fun _ _ => rfl, by simp⟩
  | fuel + 1, buffer, size, offset, bounce, s, hm, hdev, hf, hb => by
    simp only [writeLoop]
    split
    · rename_i hc
      obtain ⟨c, hcdef⟩ : ∃ c, (min (size : Int) (min (d.length - offset)
          ((BLOCK_SECTOR_SIZE - offset % BLOCK_SECTOR_SIZE : Nat) : Int))).toNat = c := ⟨_, rfl⟩
      have hcs : c ≤ size := by omega
      have hcl : offset + c ≤ d.length.toNat := by omega
      have hco : offset % BLOCK_SECTOR_SIZE + c ≤ BLOCK_SECTOR_SIZE := by omega
      have hsec : byte_to_sector d offset = d.start + offset / BLOCK_SECTOR_SIZE := by
        rw [byte_to_sector, if_pos (by omega)]
      have hrun : d.Owns (d.start + offset / BLOCK_SECTOR_SIZE) := by
        simp only [InodeDisk.Owns, bytes_to_sectors, BLOCK_SECTOR_SIZE] at hcl hco ⊢; omega
      have hsize : c + min (size - c) (d.length.toNat - (offset + c)) =
          min size (d.length.toNat - offset) := by
        omega
      -- every branch writes the chunk's sector, then goes on with the rest of the buffer
      have hround : ∀ (new : SectorData) (b : Bool), (∀ j < BLOCK_SECTOR_SIZE, new j =
          patch (s.disk (d.start + offset / BLOCK_SECTOR_SIZE)) (offset % BLOCK_SECTOR_SIZE) c buffer j) →
          ∃ D, (block_write (d.start + offset / BLOCK_SECTOR_SIZE) new >>= fun _ =>
              writeLoop d fuel (buffer.drop c) (size - c) (offset + c) b >>= fun rest =>
                pure (c + rest)) s =
            .ok (min size (d.length.toNat - offset)) { s with disk := D } ∧
          (∀ sector, ¬d.Owns sector → D sector = s.disk sector) ∧
          fileBytes { s with disk := D } d =
            overwrite (fileBytes s d) offset (buffer.take (min size (d.length.toNat - offset))) := by
        intro new b hnew
        obtain ⟨D, h₁, hframe, hbytes⟩ := writeLoop_eq fuel (buffer.drop c) (size - c) (offset + c) b
          { s with disk := Function.update s.disk (d.start + offset / BLOCK_SECTOR_SIZE) new } hm hdev
          (by omega) (by simp; omega)
        refine ⟨D, ?_, fun sector hsector => ?_, ?_⟩
        · rw [bind_ok (block_write_ok new (lt_of_lt_of_le hrun.2 hdev)), bind_ok h₁, pure_apply, hsize]
        · rw [hframe sector hsector]
          exact Function.update_of_ne (by rintro rfl; exact hsector hrun) _ _
        · have hc : (buffer.take c).length = c := by simp; omega
          rw [hbytes, fileBytes_update_chunk s d hcl hco (by omega) hnew]
          nth_rewrite 2 [← hc]
          rw [overwrite_append (by simp [length_fileBytes]; omega), ← List.take_add, hsize]
      rw [hcdef, hsec]
      split
      · -- a whole sector, written straight from the buffer
        rename_i hfull
        exact hround _ bounce fun j hj => by simp [patch, hfull.1, hfull.2, hj]
      · -- a partial sector goes through the bounce buffer; it is read first unless the chunk
        -- covers it, which only a whole sector does
        split
        all_goals first | rw [pure_bind_apply] | rw [bind_ok (allocOk_nil hm)]
        all_goals rw [if_pos rfl]
        all_goals split
        all_goals first
          | rw [bind_ok (block_read_ok (lt_of_lt_of_le hrun.2 hdev))]
            exact hround _ true fun _ _ => rfl
          | rw [pure_bind_apply]
            exact hround _ true fun j hj => by
              simp only [patch]; split_ifs <;> omega
    · rename_i hc
      have : size = 0 ∨ d.length.toNat ≤ offset := by simp only [BLOCK_SECTOR_SIZE] at hc; omega
      have h0 : min size (d.length.toNat - offset) = 0 := by omega
      exact ⟨s.disk, by rw [h0]; rfl, fun _ _ => rfl, by rw [h0]; simp⟩

/-- A read of less than a sector, inside the file, whose bounce buffer `malloc` refuses ends
at once with nothing read. -/
theorem readLoop_of_refused {s : Fs} {d : InodeDisk} {bs : List Bool} (hm : s.mallocs = false :: bs)
    {fuel size offset : Nat} (hsize : 0 < size) (hsmall : size < BLOCK_SECTOR_SIZE)
    (hoff : (offset : Int) < d.length) :
    readLoop d (fuel + 1) size offset false s = .ok [] { s with mallocs := bs } := by
  simp only [readLoop]
  have hc : 0 < min (size : Int)
      (min (d.length - offset) ((BLOCK_SECTOR_SIZE - offset % BLOCK_SECTOR_SIZE : Nat) : Int)) := by
    simp only [BLOCK_SECTOR_SIZE] at hsmall ⊢; omega
  rw [if_pos hc, if_neg (by simp only [BLOCK_SECTOR_SIZE] at hsmall ⊢; omega),
    if_neg Bool.false_ne_true, bind_ok (allocOk_cons hm)]
  rfl

/-! ## The calls -/

section Calls

variable {s : Fs} {inode : Nat} {i : Inode}

theorem inode_read_at_eq (hi : s.open_inodes.find? (·.sector = inode) = some i)
    (hm : s.mallocs = []) (hdev : i.data.OnDevice s.disk_size) (size : Int) (offset : Nat) :
    inode_read_at inode size offset s = .ok (((fileBytes s i.data).drop offset).take size.toNat) s := by
  unfold inode_read_at
  rw [bind_ok (inodeAt_ok hi)]
  exact readLoop_eq hm hdev _ _ _ _ le_rfl

/-- `inode_write_at` on an inode whose writes are allowed, the buffer holding the `size` bytes. -/
theorem inode_write_at_eq (hi : s.open_inodes.find? (·.sector = inode) = some i)
    (hm : s.mallocs = []) (hdev : i.data.OnDevice s.disk_size) (hdeny : i.deny_write_cnt = 0)
    {buffer : List UInt8} {size : Int} (hb : size.toNat ≤ buffer.length) (offset : Nat) :
    ∃ D, inode_write_at inode buffer size offset s =
        .ok (min size.toNat (i.data.length.toNat - offset)) { s with disk := D } ∧
      (∀ sector, ¬i.data.Owns sector → D sector = s.disk sector) ∧
      fileBytes { s with disk := D } i.data =
        overwrite (fileBytes s i.data) offset (buffer.take (min size.toNat (i.data.length.toNat - offset))) := by
  unfold inode_write_at
  rw [bind_ok (inodeAt_ok hi), if_neg (by simp [hdeny])]
  exact writeLoop_eq _ _ _ _ _ s hm hdev le_rfl hb

/-- While writes to an inode are denied, `inode_write_at` writes nothing. -/
theorem inode_write_at_of_denied (hi : s.open_inodes.find? (·.sector = inode) = some i)
    (hdeny : i.deny_write_cnt ≠ 0) (buffer : List UInt8) (size : Int) (offset : Nat) :
    inode_write_at inode buffer size offset s = .ok 0 s := by
  unfold inode_write_at
  rw [bind_ok (inodeAt_ok hi), if_pos hdeny]
  rfl

/-- `inode_read_at` of less than a sector, inside the file, returns nothing when `malloc`
refuses its bounce buffer: a short read that its callers take for the end of the file. -/
theorem inode_read_at_of_refused {bs : List Bool} (hi : s.open_inodes.find? (·.sector = inode) = some i)
    (hm : s.mallocs = false :: bs) {size : Int} {offset : Nat} (hsize : 0 < size)
    (hsmall : size < BLOCK_SECTOR_SIZE) (hoff : (offset : Int) < i.data.length) :
    inode_read_at inode size offset s = .ok [] { s with mallocs := bs } := by
  unfold inode_read_at
  rw [bind_ok (inodeAt_ok hi)]
  obtain ⟨n, hn⟩ : ∃ n, size.toNat = n + 1 := ⟨size.toNat - 1, by omega⟩
  rw [hn]
  exact readLoop_of_refused hm (by omega) (by simp only [BLOCK_SECTOR_SIZE] at hsmall ⊢; omega) hoff

/-- Byte I/O on an open inode, for every offset and size, when every allocation succeeds and the
file's run of sectors lies on the device. A denied write writes nothing. Otherwise the write
copies the `min size (length - offset)` bytes of the buffer that fall inside the file over the
file's bytes there, keeps every other byte of the file and every sector outside its run, and
returns that count. A read returns the `min size (length - offset)` bytes of the file from
`offset` on. -/
theorem inode_io_exact (hi : s.open_inodes.find? (·.sector = inode) = some i)
    (hm : s.mallocs = []) (hdev : i.data.OnDevice s.disk_size) {buffer : List UInt8} {size : Int}
    (hb : size.toNat ≤ buffer.length) (offset : Nat) :
    (0 < i.deny_write_cnt → inode_write_at inode buffer size offset s = .ok 0 s) ∧
    (i.deny_write_cnt = 0 → ∃ D,
      inode_write_at inode buffer size offset s =
        .ok (min size.toNat (i.data.length.toNat - offset)) { s with disk := D } ∧
      (∀ sector, ¬i.data.Owns sector → D sector = s.disk sector) ∧
      ∀ p, (fileBytes { s with disk := D } i.data)[p]? =
        if offset ≤ p ∧ p < offset + min size.toNat (i.data.length.toNat - offset) then
          buffer[p - offset]?
        else (fileBytes s i.data)[p]?) ∧
    ∃ bytes, inode_read_at inode size offset s = .ok bytes s ∧
      bytes.length = min size.toNat (i.data.length.toNat - offset) ∧
      ∀ j < bytes.length, bytes[j]? = (fileBytes s i.data)[offset + j]? := by
  refine ⟨fun hpos => inode_write_at_of_denied hi (by omega) _ _ _, fun hdeny => ?_, ?_⟩
  · obtain ⟨D, hw, hframe, hbytes⟩ := inode_write_at_eq hi hm hdev hdeny hb offset
    exact ⟨D, hw, hframe, fun p => by rw [hbytes, getElem?_overwrite_take (length_fileBytes s i.data) hb]⟩
  · refine ⟨_, inode_read_at_eq hi hm hdev size offset, by simp, fun j hj => ?_⟩
    have hj' : j < size.toNat := by simp at hj; omega
    rw [List.getElem?_take, if_pos hj', List.getElem?_drop]

/-- A device of 8 zeroed sectors with one open inode, at sector 1, of 600 bytes in sectors 2
and 3. -/
def ioFs : Fs :=
  ⟨fun _ _ => 0, 8, ⟨[]⟩, none, [⟨1, 1, false, 0, ⟨2, 600, INODE_MAGIC⟩⟩], fun _ => none, 0, []⟩

/-- 200 bytes written at offset 500 of the 600-byte file: the first 100 go in, across the end of
its first sector. -/
theorem inode_io_exact_across_sectors :
    ioFs.open_inodes.find? (·.sector = 1) = some ⟨1, 1, false, 0, ⟨2, 600, INODE_MAGIC⟩⟩ ∧
      ioFs.mallocs = [] ∧ (⟨2, 600, INODE_MAGIC⟩ : InodeDisk).OnDevice ioFs.disk_size ∧
      (200 : Int).toNat ≤ (List.replicate 200 (7 : UInt8)).length ∧
      ∃ D, inode_write_at 1 (List.replicate 200 7) 200 500 ioFs = .ok 100 { ioFs with disk := D } ∧
        ∀ p, (fileBytes { ioFs with disk := D } ⟨2, 600, INODE_MAGIC⟩)[p]? =
          if 500 ≤ p ∧ p < 600 then some 7 else (fileBytes ioFs ⟨2, 600, INODE_MAGIC⟩)[p]? := by
  have hi : ioFs.open_inodes.find? (·.sector = 1) = some ⟨1, 1, false, 0, ⟨2, 600, INODE_MAGIC⟩⟩ := rfl
  have hdev : (⟨2, 600, INODE_MAGIC⟩ : InodeDisk).OnDevice ioFs.disk_size := by decide
  have hb : (200 : Int).toNat ≤ (List.replicate 200 (7 : UInt8)).length := by
    rw [List.length_replicate]; decide
  obtain ⟨-, hw, -⟩ := inode_io_exact hi rfl hdev hb 500
  obtain ⟨D, hD, -, hbytes⟩ := hw rfl
  refine ⟨hi, rfl, hdev, hb, D, hD, fun p => ?_⟩
  rw [hbytes p]
  by_cases hp : 500 ≤ p ∧ p < 600
  · rw [if_pos (by simpa using hp), if_pos hp, List.getElem?_replicate, if_pos (by omega)]
  · rw [if_neg (by simpa using hp), if_neg hp]

end Calls

end Pintos.Filesys
