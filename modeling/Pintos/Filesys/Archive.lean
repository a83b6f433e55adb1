import Pintos.Filesys.Fsutil
import Pintos.Filesys.Create
import Pintos.Filesys.OpenCounts

/-!
# The archive round trip of `fsutil_append` and `fsutil_extract`

Appending files to the scratch device writes a ustar archive (`Archive`): for each file a header
naming it a regular file of its size, its data in zero-padded sectors, and after the last file the
two zero sectors of the end-of-archive marker. `fsutil_extract` reads such an archive into a file
system that has room for it (`Fs.Room`): it creates each file under its stripped name with the
same bytes, leaves every other name as it was, and stops at the marker.

Each loop is proved a round at a time (`appendLoop_spec`, `copyLoop_spec`, `extractLoop_member`)
from the spec lemmas of the file system calls, and `fsutil_archive_round_trip` composes a run of
appends with an extraction.
-/

namespace Pintos.Filesys

open EStateM Bitmap

/-! ## The archive layout -/

/-- The data sector of the `k`th 512 bytes of `bytes`, zero padded. -/
def chunkSector (bytes : List UInt8) (k : Nat) : SectorData :=
  bufferSector ((bytes.drop (BLOCK_SECTOR_SIZE * k)).take BLOCK_SECTOR_SIZE)

/-- The data of a member: from `start` on, one sector per 512 bytes of `bytes`. -/
def DataAt (scratch : Nat → SectorData) (start : Nat) (bytes : List UInt8) : Prop :=
  ∀ k < bytes_to_sectors bytes.length, scratch (start + k) = chunkSector bytes k

/-- The sectors of a member of `bytes`: its header and its data. On the file system its file takes
as many: an inode and the data. -/
def memberSectors (bytes : List UInt8) : Nat := 1 + bytes_to_sectors bytes.length

/-- The sectors that the members `ms` take before the end-of-archive marker. -/
def archiveSectors (ms : List (List UInt8 × List UInt8)) : Nat := (ms.map fun m => memberSectors m.2).sum

/-- `Archive scratch start ms`: from sector `start` on, the scratch device holds, for each member
of `ms`, a header that names it a regular file of its size and then its data, and after them the
end-of-archive marker. -/
def Archive (scratch : Nat → SectorData) : Nat → List (List UInt8 × List UInt8) → Prop
  | start, [] => scratch start = bufferSector [] ∧ scratch (start + 1) = bufferSector []
  | start, (name, bytes) :: ms =>
    ustar_parse_header (sectorBytes (scratch start) 0 USTAR_HEADER_SIZE) =
        .ok (some name, .regular, bytes.length) ∧
      DataAt scratch (start + 1) bytes ∧ Archive scratch (start + memberSectors bytes) ms

/-- The members that appending the files `names` of `s` writes: each under its stripped name. -/
def archiveOf (s : Fs) (names : List (List UInt8)) : List (List UInt8 × List UInt8) :=
  names.map fun n => (strip_antisocial_prefixes n, (s.fileNamed n).getD [])

theorem bytes_to_sectors_natCast (n : Nat) : bytes_to_sectors n = (n + 511) / 512 := by
  simp [bytes_to_sectors, BLOCK_SECTOR_SIZE]

@[simp] theorem archiveSectors_nil : archiveSectors [] = 0 := rfl

@[simp] theorem archiveSectors_cons (m : List UInt8 × List UInt8) (ms : List (List UInt8 × List UInt8)) :
    archiveSectors (m :: ms) = memberSectors m.2 + archiveSectors ms := by
  simp [archiveSectors]

theorem length_le_archiveSectors : ∀ ms : List (List UInt8 × List UInt8), ms.length ≤ archiveSectors ms
  | [] => le_rfl
  | m :: ms => by
    have := length_le_archiveSectors ms
    simp only [List.length_cons, archiveSectors_cons, memberSectors]
    omega

theorem chunkSector_succ (bytes : List UInt8) (k : Nat) :
    chunkSector bytes (k + 1) = chunkSector (bytes.drop BLOCK_SECTOR_SIZE) k := by
  simp only [chunkSector, List.drop_drop]
  congr 3
  simp only [BLOCK_SECTOR_SIZE]
  omega

@[simp] theorem dataAt_nil (scratch : Nat → SectorData) (start : Nat) : DataAt scratch start [] := by
  intro k hk
  simp [bytes_to_sectors, BLOCK_SECTOR_SIZE] at hk

/-- Bytes that do not end here take a sector more than the bytes after their first sector. -/
theorem bytes_to_sectors_drop {bytes : List UInt8} (h : bytes ≠ []) :
    bytes_to_sectors bytes.length = bytes_to_sectors (bytes.drop BLOCK_SECTOR_SIZE).length + 1 := by
  have hpos : 0 < bytes.length := List.length_pos_iff.mpr h
  simp only [bytes_to_sectors_natCast, List.length_drop, BLOCK_SECTOR_SIZE]
  omega

/-- Data that does not end here: its first sector, then the data of the rest. -/
theorem dataAt_iff {scratch : Nat → SectorData} {start : Nat} {bytes : List UInt8} (h : bytes ≠ []) :
    DataAt scratch start bytes ↔
      scratch start = bufferSector (bytes.take BLOCK_SECTOR_SIZE) ∧
        DataAt scratch (start + 1) (bytes.drop BLOCK_SECTOR_SIZE) := by
  have hlen := bytes_to_sectors_drop h
  constructor
  · intro hd
    refine ⟨by simpa [chunkSector] using hd 0 (by omega), fun k hk => ?_⟩
    rw [Nat.add_assoc, Nat.add_comm 1 k, ← chunkSector_succ]
    exact hd (k + 1) (by omega)
  · rintro ⟨h₀, hd⟩ k hk
    cases k with
    | zero => simpa [chunkSector] using h₀
    | succ k =>
      rw [chunkSector_succ, ← Nat.add_comm 1 k, ← Nat.add_assoc]
      exact hd k (by omega)

theorem DataAt.congr {scratch scratch' : Nat → SectorData} {start : Nat} {bytes : List UInt8}
    (h : DataAt scratch start bytes)
    (hsame : ∀ k < bytes_to_sectors bytes.length, scratch' (start + k) = scratch (start + k)) :
    DataAt scratch' start bytes := fun k hk => (hsame k hk).trans (h k hk)

/-- The first `min n l.length` elements of a list are its first `n`. -/
theorem take_min_length {α : Type} (l : List α) (n : Nat) : l.take (min n l.length) = l.take n := by
  rcases le_total n l.length with h | h
  · rw [min_eq_left h]
  · rw [min_eq_right h, List.take_length, List.take_of_length_le h]

theorem drop_min_length {α : Type} (l : List α) (n : Nat) : l.drop (min n l.length) = l.drop n := by
  rcases le_total n l.length with h | h
  · rw [min_eq_left h]
  · rw [min_eq_right h, List.drop_length, List.drop_eq_nil_of_le h]

/-- The chunk size of the copy loops, `size > BLOCK_SECTOR_SIZE ? BLOCK_SECTOR_SIZE : size`, for the
bytes still to copy. -/
theorem chunk_size_eq {rest : List UInt8} (h : rest ≠ []) :
    (if ((rest.length : Int) > BLOCK_SECTOR_SIZE) then (BLOCK_SECTOR_SIZE : Int) else rest.length) =
      ((rest.take BLOCK_SECTOR_SIZE).length : Int) := by
  have hpos : 0 < rest.length := List.length_pos_iff.mpr h
  simp only [List.length_take, BLOCK_SECTOR_SIZE]
  split_ifs <;> omega

/-! ## Appending a file -/

section Append

variable {s : Fs} {src : Nat} {F : File} {i : Inode} {bytes : List UInt8}

/-- Moving the position of an open file keeps the file system sound. -/
theorem Fs.Sound.seek (hs : s.Sound) (hF : s.file_heap src = some F) (pos : Int) :
    ({ s with file_heap := Function.update s.file_heap src (some { F with pos := pos }) } : Fs).Sound :=
  hs.update_heap (hs.lt_of_heap hF) fun h => by rw [hF] at h; exact h

theorem appendLoop_of_nonpos (fuel : Nat) {size : Int} (h : size ≤ 0) (u : Util) :
    appendLoop src fuel size u = .ok () u := by
  cases fuel with
  | zero => rfl
  | succ fuel => simp [appendLoop, h]

theorem appendLoop_round (hs : s.Sound) (hF : s.file_heap src = some F)
    (hi : s.open_inodes.find? (·.sector = F.inode) = some i) (hdev : i.data.OnDevice s.disk_size)
    (hb : fileBytes s i.data = bytes) {fuel pos : Nat} {u : Util}
    (hu : u.fs = { s with file_heap := Function.update s.file_heap src (some { F with pos := pos }) })
    (hne : bytes.drop pos ≠ []) (hsec : u.append_sector < u.scratch_size) :
    appendLoop src (fuel + 1) (bytes.drop pos).length u =
      appendLoop src fuel ((bytes.drop pos).drop BLOCK_SECTOR_SIZE).length { u with
        fs := { s with
          file_heap := Function.update s.file_heap src
            (some { F with pos := pos + ((bytes.drop pos).take BLOCK_SECTOR_SIZE).length }) }
        scratch := Function.update u.scratch u.append_sector (bufferSector ((bytes.drop pos).take BLOCK_SECTOR_SIZE))
        append_sector := u.append_sector + 1 } := by
  have hpos : 0 < (bytes.drop pos).length := List.length_pos_iff.mpr hne
  have hread := (file_read_spec (hs.seek hF pos) (Function.update_self _ _ _) hi hdev
    ((bytes.drop pos).take BLOCK_SECTOR_SIZE).length).1
  have hread' : file_read src (((bytes.drop pos).take BLOCK_SECTOR_SIZE).length : Int) u.fs =
      .ok ((bytes.drop pos).take BLOCK_SECTOR_SIZE) { s with
        file_heap := Function.update s.file_heap src
          (some { F with pos := pos + ((bytes.drop pos).take BLOCK_SECTOR_SIZE).length }) } := by
    have hfb : fileBytes ({ s with file_heap := Function.update s.file_heap src (some { F with pos := pos }) } : Fs)
        i.data = bytes := hb
    rw [hu, hread]
    simp only [hfb, Int.toNat_natCast, List.length_take, take_min_length, Function.update_idem]
  simp only [appendLoop]
  rw [if_neg (by omega), chunk_size_eq hne]
  simp only [get_bind_apply, if_neg (Nat.not_le.mpr hsec)]
  rw [bind_ok (liftFs_ok hread')]
  simp only [ne_eq, not_true_eq_false, if_false]
  rw [bind_ok (scratch_write_ok _ ?_)]
  · simp only [modify_bind_apply]
    congr 1
    simp only [List.length_drop, List.length_take]
    omega
  · exact hsec

theorem appendLoop_at_end {fuel pos : Nat} {u : Util}
    (hu : u.fs = { s with file_heap := Function.update s.file_heap src (some { F with pos := pos }) })
    (hpos : pos ≤ bytes.length) (hnil : bytes.drop pos = []) :
    appendLoop src fuel (bytes.drop pos).length u =
      .ok () { u with
        fs := { s with file_heap := Function.update s.file_heap src (some { F with pos := bytes.length }) }
        scratch := u.scratch
        append_sector := u.append_sector + bytes_to_sectors (bytes.drop pos).length } := by
  obtain rfl : pos = bytes.length := le_antisymm hpos (List.drop_eq_nil_iff.mp hnil)
  rw [hnil, appendLoop_of_nonpos _ (by simp)]
  obtain ⟨fs, scratch, scratch_size, append_sector, extract_sector⟩ := u
  dsimp only at hu
  subst hu
  simp [bytes_to_sectors, BLOCK_SECTOR_SIZE]

/-- The loop of `fsutil_append` from byte `pos` of the file open at `src`: it writes the bytes
from `pos` on a sector at a time from the counter's sector on, and leaves the file at its end. -/
theorem appendLoop_spec (hs : s.Sound) (hF : s.file_heap src = some F)
    (hi : s.open_inodes.find? (·.sector = F.inode) = some i) (hdev : i.data.OnDevice s.disk_size)
    (hb : fileBytes s i.data = bytes) :
    ∀ (fuel pos : Nat) (u : Util),
      u.fs = { s with file_heap := Function.update s.file_heap src (some { F with pos := pos }) } →
      pos ≤ bytes.length → bytes_to_sectors (bytes.drop pos).length ≤ fuel →
      u.append_sector + bytes_to_sectors (bytes.drop pos).length ≤ u.scratch_size →
      ∃ scratch, appendLoop src fuel (bytes.drop pos).length u =
          .ok () { u with
            fs := { s with file_heap := Function.update s.file_heap src (some { F with pos := bytes.length }) }
            scratch := scratch
            append_sector := u.append_sector + bytes_to_sectors (bytes.drop pos).length } ∧
        DataAt scratch u.append_sector (bytes.drop pos) ∧
        ∀ y, y < u.append_sector ∨ u.append_sector + bytes_to_sectors (bytes.drop pos).length ≤ y →
          scratch y = u.scratch y := by
  intro fuel
  induction fuel with
  | zero =>
    intro pos u hu hpos hfuel _
    have hnil : bytes.drop pos = [] := by
      by_contra hne
      have := bytes_to_sectors_drop hne
      omega
    exact ⟨u.scratch, appendLoop_at_end hu hpos hnil, by rw [hnil]; exact dataAt_nil _ _, fun _ _ => rfl⟩
  | succ fuel ih =>
    intro pos u hu hpos hfuel hroom
    by_cases hnil : bytes.drop pos = []
    · exact ⟨u.scratch, appendLoop_at_end hu hpos hnil, by rw [hnil]; exact dataAt_nil _ _, fun _ _ => rfl⟩
    have hlen := bytes_to_sectors_drop hnil
    obtain ⟨c, hcdef⟩ : ∃ c, ((bytes.drop pos).take BLOCK_SECTOR_SIZE).length = c := ⟨_, rfl⟩
    have hc : c ≤ (bytes.drop pos).length := hcdef ▸ List.length_take_le' _ _
    have hdrop : bytes.drop (pos + c) = (bytes.drop pos).drop BLOCK_SECTOR_SIZE := by
      rw [← List.drop_drop, ← hcdef, List.length_take, drop_min_length]
    rw [appendLoop_round hs hF hi hdev hb hu hnil (by omega), hcdef, ← hdrop]
    obtain ⟨scratch, hrun, hdata, hframe⟩ := ih (pos + c) { u with
        fs := { s with file_heap := Function.update s.file_heap src (some { F with pos := pos + c }) }
        scratch := Function.update u.scratch u.append_sector (bufferSector ((bytes.drop pos).take BLOCK_SECTOR_SIZE))
        append_sector := u.append_sector + 1 }
      (by simp only [Nat.cast_add]) (by simp only [List.length_drop] at hc; omega) (by rw [hdrop]; omega)
      (by dsimp only; rw [hdrop]; omega)
    refine ⟨scratch, ?_, ?_, fun y hy => ?_⟩
    · rw [hrun]
      dsimp only
      rw [hdrop, Nat.add_assoc, Nat.add_comm 1, ← hlen]
    · rw [dataAt_iff hnil]
      refine ⟨?_, hdrop ▸ hdata⟩
      rw [hframe u.append_sector (.inl (by dsimp only; omega))]
      exact Function.update_self _ _ _
    · rw [hframe y (by dsimp only; rw [hdrop]; omega)]
      exact Function.update_of_ne (by omega) _ _

/-- `fsutil_append` of a file of a sound file system, to a scratch device with room for its member
and the marker after it: from the counter's sector on, the device holds the member and the
marker, and the counter moves past the member only. The file system is sound again, on the same
device. -/
theorem fsutil_append_spec {u : Util} (hs : u.fs.Sound) {name : List UInt8}
    (hfile : u.fs.fileNamed name = some bytes) (hnul : 0 ∉ name)
    (hlen : (strip_antisocial_prefixes name).length ≤ 99)
    (hroom : u.append_sector + memberSectors bytes + 2 ≤ u.scratch_size) :
    ∃ u', fsutil_append name u = .ok () u' ∧ u'.fs.Sound ∧ u'.fs.disk = u.fs.disk ∧
      Archive u'.scratch u.append_sector [(strip_antisocial_prefixes name, bytes)] ∧
      (∀ y < u.append_sector, u'.scratch y = u.scratch y) ∧
      u'.append_sector = u.append_sector + memberSectors bytes ∧ u'.scratch_size = u.scratch_size ∧
      u'.extract_sector = u.extract_sector := by
  obtain ⟨⟨e, ofs⟩, hfind, hbytes⟩ := Option.map_eq_some_iff.mp hfile
  have hmem : e.inode_sector ∈ u.fs.files := mem_files_of_found hfind
  have hx : e.inode_sector ∈ u.fs.inodeSectors := files_subset_inodeSectors hmem
  have h0 : e.inode_sector ≠ FREE_MAP_SECTOR := Nat.ne_of_gt (Nat.lt_trans (by decide) (hs.files_gt _ hmem))
  obtain ⟨l, hopen, hs₁, ⟨i, hi, hid, -⟩, -⟩ := filesys_open_spec hs hfind
  have hF : ({ u.fs with
      open_inodes := l
      file_heap := Function.update u.fs.file_heap u.fs.file_next (some ⟨e.inode_sector, 0, false⟩)
      file_next := u.fs.file_next + 1 } : Fs).file_heap u.fs.file_next = some ⟨e.inode_sector, 0, false⟩ :=
    Function.update_self _ _ _
  have hlength := file_length_spec hF hi
  have hb : fileBytes u.fs i.data = bytes := by rw [hid]; exact hbytes
  have hsize : i.data.length = bytes.length := by
    rw [← hb, length_fileBytes, Int.toNat_of_nonneg (hid ▸ hs.length_nonneg _ hx)]
  obtain ⟨header, hmake, hparse⟩ := ustar_parse_make_header (.inl rfl) hnul hlen
    (show UstarType.regular = .regular → 0 ≤ i.data.length ∧ i.data.length ≤ INT_MAX from
      fun _ => ⟨hid ▸ hs.length_nonneg _ hx, by
        have := Fs.Layout.length_lt (s := u.fs) e.inode_sector
        rw [← hid] at this
        simp only [INT_MAX]
        omega⟩)
  simp only [memberSectors] at hroom ⊢
  have hdev : i.data.OnDevice u.fs.disk_size := hid ▸ hs.on_device _ hx
  obtain ⟨scratch, hloop, hdata, hframe⟩ := appendLoop_spec hs₁ hF hi hdev hb (bytes.length : Int).toNat 0
    { u with
      fs := { u.fs with
        open_inodes := l
        file_heap := Function.update u.fs.file_heap u.fs.file_next (some ⟨e.inode_sector, 0, false⟩)
        file_next := u.fs.file_next + 1 }
      scratch := Function.update u.scratch u.append_sector (bufferSector header)
      append_sector := u.append_sector + 1 }
    (by simp only [Nat.cast_zero, Function.update_idem]) (Nat.zero_le _)
    (by rw [List.drop_zero, Int.toNat_natCast, bytes_to_sectors_natCast]; omega)
    (by dsimp only; rw [List.drop_zero]; omega)
  rw [List.drop_zero] at hloop hdata hframe
  have hsz : i.data.length = (bytes.length : Int) := hsize
  obtain ⟨l', hclose, hs₄, -⟩ := file_close_spec (hs₁.seek hF bytes.length) (Function.update_self _ _ _) rfl hi hx h0
  have hmark : ∀ y, y ≠ u.append_sector + 1 + bytes_to_sectors bytes.length →
      y ≠ u.append_sector + 1 + bytes_to_sectors bytes.length + 1 →
      Function.update (Function.update scratch (u.append_sector + 1 + bytes_to_sectors bytes.length)
        (bufferSector [])) (u.append_sector + 1 + bytes_to_sectors bytes.length + 1) (bufferSector []) y =
        scratch y := fun y h₁ h₂ => by
    rw [Function.update_of_ne h₂, Function.update_of_ne h₁]
  refine ⟨?u, ?run, ?sound, ?disk, ?archive, ?frame, ?sector, ?size, ?extract⟩
  case run =>
    unfold fsutil_append
    rw [bind_ok (liftFs_ok (allocOk_nil hs.mallocs))]
    simp only [Bool.not_true, Bool.false_eq_true, if_false]
    rw [bind_ok (liftFs_ok hopen)]
    dsimp only
    rw [bind_ok (liftFs_ok hlength)]
    simp only [hmake, get_bind_apply]
    rw [bind_ok (scratch_write_ok _ (by dsimp only; omega)), modify_bind_apply, hsz, bind_ok hloop]
    simp only [get_bind_apply]
    rw [bind_ok (scratch_write_ok _ (by dsimp only; omega)), bind_ok (scratch_write_ok _ (by dsimp only; omega))]
    simp only [liftFs, hclose]
    rfl
  case sound => exact hs₄
  case disk => rfl
  case size => rfl
  case extract => rfl
  case sector => dsimp only; omega
  case frame =>
    intro y hy
    dsimp only
    rw [hmark y (by omega) (by omega), hframe y (.inl (by dsimp only; omega))]
    exact Function.update_of_ne (by omega) _ _
  case archive =>
    simp only [Archive, memberSectors]
    refine ⟨?_, fun k hk => ?_, ?_, ?_⟩
    · rw [hmark _ (by omega) (by omega), hframe _ (.inl (by dsimp only; omega))]
      dsimp only
      rw [Function.update_self, ← length_of_ustar_make_header hmake, sectorBytes_bufferSector, hparse, hsz]
      rfl
    · rw [hmark _ (by omega) (by omega)]
      exact hdata k hk
    · rw [← Nat.add_assoc, Function.update_of_ne (by omega), Function.update_self]
    · rw [← Nat.add_assoc, Function.update_self]

theorem Fs.fileNamed_of_disk {s s' : Fs} (h : s'.disk = s.disk) (name : List UInt8) :
    s'.fileNamed name = s.fileNamed name :=
  (Fs.FilesAgree.of_disk h fun _ => True).fileNamed_eq fun _ _ => trivial

/-- Appending the files `names` of a sound file system one after another writes their archive
from the counter's sector on, when the device has room for it and for the marker after it. The
sectors before the counter are kept, and the file system is sound again on the same device. With
no file to append, the archive is the marker that is already there. -/
theorem forM_fsutil_append_spec : ∀ (names : List (List UInt8)) (u : Util), u.fs.Sound →
    (∀ n ∈ names, (u.fs.fileNamed n).isSome) → (∀ n ∈ names, 0 ∉ n) →
    (∀ n ∈ names, (strip_antisocial_prefixes n).length ≤ 99) →
    u.append_sector + archiveSectors (archiveOf u.fs names) + 2 ≤ u.scratch_size →
    (names = [] → Archive u.scratch u.append_sector []) →
    ∃ u', forM names fsutil_append u = .ok () u' ∧ u'.fs.Sound ∧ u'.fs.disk = u.fs.disk ∧
      Archive u'.scratch u.append_sector (archiveOf u.fs names) ∧
      (∀ y < u.append_sector, u'.scratch y = u.scratch y) ∧
      u'.append_sector = u.append_sector + archiveSectors (archiveOf u.fs names) ∧
      u'.scratch_size = u.scratch_size ∧ u'.extract_sector = u.extract_sector
  | [], u, hs, _, _, _, _, hmark => ⟨u, rfl, hs, rfl, hmark rfl, fun _ _ => rfl, rfl, rfl, rfl⟩
  | n :: ns, u, hs, hfound, hnul, hlen, hroom, _ => by
    obtain ⟨bytes, hb⟩ := Option.isSome_iff_exists.mp (hfound n List.mem_cons_self)
    have hms : archiveOf u.fs (n :: ns) = (strip_antisocial_prefixes n, bytes) :: archiveOf u.fs ns := by
      simp [archiveOf, hb]
    rw [hms, archiveSectors_cons] at hroom ⊢
    dsimp only at hroom ⊢
    obtain ⟨u₁, h₁, hs₁, hd₁, ha₁, hf₁, hp₁, hz₁, he₁⟩ :=
      fsutil_append_spec hs hb (hnul n List.mem_cons_self) (hlen n List.mem_cons_self) (by omega)
    have hnames : archiveOf u₁.fs ns = archiveOf u.fs ns := by
      simp only [archiveOf, Fs.fileNamed_of_disk hd₁]
    rw [Archive, Archive] at ha₁
    obtain ⟨hhdr, hdata, hmark⟩ := ha₁
    obtain ⟨u₂, h₂, hs₂, hd₂, ha₂, hf₂, hp₂, hz₂, he₂⟩ := forM_fsutil_append_spec ns u₁ hs₁
      (fun n' h => Fs.fileNamed_of_disk hd₁ n' ▸ hfound n' (List.mem_cons_of_mem _ h))
      (fun n' h => hnul n' (List.mem_cons_of_mem _ h)) (fun n' h => hlen n' (List.mem_cons_of_mem _ h))
      (by rw [hnames, hp₁, hz₁]; omega) (fun _ => hp₁ ▸ hmark)
    rw [hnames, hp₁] at ha₂ hp₂
    refine ⟨u₂, ?_, hs₂, hd₂.trans hd₁, ?_, fun y hy => ?_, ?_, hz₂.trans hz₁, he₂.trans he₁⟩
    · rw [List.forM_cons, bind_ok h₁, h₂]
    · rw [Archive]
      refine ⟨?_, hdata.congr fun k hk => hf₂ _ ?_, ha₂⟩
      · rw [hf₂ _ (by rw [hp₁]; simp only [memberSectors]; omega)]
        exact hhdr
      · rw [hp₁]
        simp only [memberSectors]
        omega
    · rw [hf₂ y (by rw [hp₁]; omega)]
      exact hf₁ y hy
    · rw [hp₂]
      omega

end Append


/-! ## What the parser and the directory give back -/

/-- The size the parser returns for a regular file is an `int`. -/
theorem ustar_parse_header_size {header : List UInt8} {name : Option (List UInt8)} {size : Int}
    (h : ustar_parse_header header = .ok (name, .regular, size)) : 0 ≤ size ∧ size ≤ INT_MAX := by
  unfold ustar_parse_header at h
  repeat' split at h
  all_goals first
    | cases h; done
    | simp only [Except.ok.injEq, Prod.mk.injEq] at h
      obtain ⟨-, -, rfl⟩ := h
      omega

/-- A name other than the one a free slot of the root directory takes keeps its file, when the
inodes and the bytes of the files stay. -/
theorem Fs.fileNamed_of_add {s s' : Fs} {j x : Nat} {name n : List UInt8} (hj : j < s.rootEntries.length)
    (hfree : s.rootEntries[j].in_use = false)
    (hentries : s'.rootEntries = s.rootEntries.set j ⟨x, name, true⟩)
    (hino : ∀ y ∈ s.inodeSectors, s'.diskInode y = s.diskInode y)
    (hbytes : ∀ y ∈ s.files, fileBytes s' (s.diskInode y) = fileBytes s (s.diskInode y)) (hne : n ≠ name) :
    s'.fileNamed n = s.fileNamed n := by
  unfold Fs.fileNamed
  rw [hentries, findEntryFrom_set_of_ne hj hfree (Ne.symm hne)]
  refine Option.map_congr fun p hp => ?_
  have hy : p.1.inode_sector ∈ s.files := mem_files_of_found hp
  rw [hino _ (files_subset_inodeSectors hy), hbytes _ hy]

theorem Fs.fileNamed_of_found {s : Fs} {name : List UInt8} {e : DirEntry} {ofs : Nat}
    (h : findEntryFrom s.rootEntries name 0 = some (e, ofs)) :
    s.fileNamed name = some (fileBytes s (s.diskInode e.inode_sector)) := by
  simp [Fs.fileNamed, h]

theorem countP_free_set {es : List DirEntry} {j : Nat} (hj : j < es.length) (hfree : es[j].in_use = false)
    (e : DirEntry) (he : e.in_use = true) :
    (es.set j e).countP (!·.in_use) + 1 = es.countP (!·.in_use) := by
  have hpos : 0 < es.countP (!·.in_use) := List.countP_pos_iff.mpr ⟨es[j], List.getElem_mem hj, by simp [hfree]⟩
  rw [List.countP_set hj]
  simp [hfree, he]
  omega

/-! ## Extracting a file -/

/-- The first `m` bytes of a sector, read as `n ≥ m` bytes. -/
theorem take_sectorBytes (d : SectorData) {m n : Nat} (h : m ≤ n) :
    (sectorBytes d 0 n).take m = sectorBytes d 0 m := by
  simp only [sectorBytes, ← List.map_take, List.take_range, min_eq_left h]

/-- A copy into a list, cut right after it: the list before the copy, then the copy. -/
theorem take_overwrite {α : Type} {l src : List α} {ofs : Nat} (h : ofs + src.length ≤ l.length) :
    (overwrite l ofs src).take (ofs + src.length) = l.take ofs ++ src := by
  unfold overwrite
  rw [List.append_assoc, ← List.append_assoc (l.take ofs) src, List.take_left']
  simp only [List.length_append, List.length_take]
  omega

section Extract

variable {s : Fs} {dst : Nat} {F : File} {i : Inode} {bytes : List UInt8} {pos : Nat}

/-- The file open at `dst` while `fsutil_extract` fills it with `bytes`: it is written from
position `pos` on, and holds the bytes before `pos` already. -/
structure Filling (s : Fs) (dst : Nat) (F : File) (i : Inode) (bytes : List UInt8) (pos : Nat) : Prop where
  sound : s.Sound
  heap : s.file_heap dst = some { F with pos := pos }
  open_inode : s.open_inodes.find? (·.sector = F.inode) = some i
  mem : F.inode ∈ s.inodeSectors
  ne_root : F.inode ≠ ROOT_DIR_SECTOR
  writable : i.deny_write_cnt = 0
  length : (s.diskInode F.inode).length = bytes.length
  pos_le : pos ≤ bytes.length
  written : (fileBytes s (s.diskInode F.inode)).take pos = bytes.take pos

/-- A round's write: the next 512 bytes, or the rest, from their sector go over the file at its
position, and the position moves past them. -/
theorem Filling.write (h : Filling s dst F i bytes pos) :
    ∃ fs, file_write dst (sectorBytes (bufferSector ((bytes.drop pos).take BLOCK_SECTOR_SIZE)) 0 BLOCK_SECTOR_SIZE)
        ((bytes.drop pos).take BLOCK_SECTOR_SIZE).length s = .ok ((bytes.drop pos).take BLOCK_SECTOR_SIZE).length fs ∧
      Filling fs dst F i bytes (pos + ((bytes.drop pos).take BLOCK_SECTOR_SIZE).length) ∧
      s.FilesAgree fs (· ≠ F.inode) ∧ fs.free_map = s.free_map := by
  have hc : ((bytes.drop pos).take BLOCK_SECTOR_SIZE).length ≤ BLOCK_SECTOR_SIZE := List.length_take_le _ _
  have hc' : ((bytes.drop pos).take BLOCK_SECTOR_SIZE).length ≤ bytes.length - pos := by simp
  have hpos := h.pos_le
  obtain ⟨D, hw, hs', hagree, hbytes⟩ := file_write_spec h.sound h.heap h.open_inode h.mem h.ne_root h.writable
    (show (((bytes.drop pos).take BLOCK_SECTOR_SIZE).length : Int).toNat ≤
      (sectorBytes (bufferSector ((bytes.drop pos).take BLOCK_SECTOR_SIZE)) 0 BLOCK_SECTOR_SIZE).length by
        simp [sectorBytes])
  have hn : min (((bytes.drop pos).take BLOCK_SECTOR_SIZE).length : Int).toNat
      ((s.diskInode F.inode).length.toNat - ({ F with pos := pos } : File).pos.toNat) =
      ((bytes.drop pos).take BLOCK_SECTOR_SIZE).length := by
    simp only [Int.toNat_natCast, h.length]
    omega
  dsimp only at hagree
  rw [hn] at hw hs' hbytes hagree
  refine ⟨_, hw, ⟨hs', by simp, h.open_inode, hagree.inodeSectors_eq ▸ h.mem, h.ne_root, h.writable,
    by rw [hagree.inodes _ h.mem]; exact h.length, by omega,
    ?_⟩, hagree, rfl⟩
  have hL : (fileBytes s (s.diskInode F.inode)).length = bytes.length := by
    rw [length_fileBytes, h.length, Int.toNat_natCast]
  rw [hagree.inodes _ h.mem]
  show (fileBytes { s with disk := D } (s.diskInode F.inode)).take _ = _
  rw [hbytes, take_sectorBytes _ hc, sectorBytes_bufferSector]
  dsimp only
  rw [Int.toNat_natCast, take_overwrite (by rw [hL]; omega), h.written,
    List.take_add]
  congr 1
  rw [List.length_take, take_min_length]


theorem copyLoop_of_nonpos (fuel : Nat) {size : Int} (h : size ≤ 0) (u : Util) :
    copyLoop dst fuel size u = .ok () u := by
  cases fuel with
  | zero => rfl
  | succ fuel => simp [copyLoop, h]

/-- A round of the loop of `fsutil_extract` that copies a file: the counter's sector is written
over the file, as much as is still to copy and fits a sector. -/
theorem copyLoop_round {fuel : Nat} {rest : List UInt8} {u : Util} {fs : Fs} (hne : rest ≠ [])
    (hsec : u.extract_sector < u.scratch_size)
    (hwrite : file_write dst (sectorBytes (u.scratch u.extract_sector) 0 BLOCK_SECTOR_SIZE)
      (rest.take BLOCK_SECTOR_SIZE).length u.fs = .ok (rest.take BLOCK_SECTOR_SIZE).length fs) :
    copyLoop dst (fuel + 1) rest.length u =
      copyLoop dst fuel (rest.drop BLOCK_SECTOR_SIZE).length { u with
        fs := fs
        extract_sector := u.extract_sector + 1 } := by
  have hpos : 0 < rest.length := List.length_pos_iff.mpr hne
  have hwrite' : file_write dst (sectorBytes (u.scratch u.extract_sector) 0 BLOCK_SECTOR_SIZE)
      (rest.take BLOCK_SECTOR_SIZE).length ({ u with extract_sector := u.extract_sector + 1 } : Util).fs =
      .ok (rest.take BLOCK_SECTOR_SIZE).length fs := hwrite
  simp only [copyLoop]
  rw [if_neg (by omega), chunk_size_eq hne]
  simp only [get_bind_apply]
  rw [bind_ok (scratch_read_ok hsec), modify_bind_apply, bind_ok (liftFs_ok hwrite')]
  simp only [ne_eq, not_true_eq_false, if_false]
  congr 1
  simp only [List.length_drop, List.length_take]
  omega

/-- A file filled up to its end holds `bytes`. -/
theorem Filling.bytes_eq (h : Filling s dst F i bytes bytes.length) :
    fileBytes s (s.diskInode F.inode) = bytes := by
  have hL : (fileBytes s (s.diskInode F.inode)).length = bytes.length := by
    rw [length_fileBytes, h.length, Int.toNat_natCast]
  rw [← List.take_length (l := bytes), ← h.written, ← hL, List.take_length]

theorem copyLoop_at_end {fuel : Nat} {u : Util} (hnil : bytes.drop pos = []) :
    copyLoop dst fuel (bytes.drop pos).length u =
      .ok () { u with fs := u.fs, extract_sector := u.extract_sector + bytes_to_sectors (bytes.drop pos).length } := by
  rw [hnil, copyLoop_of_nonpos _ (by simp)]
  simp [bytes_to_sectors, BLOCK_SECTOR_SIZE]

/-- The loop of `fsutil_extract` that fills a file: with the bytes from `pos` on in the sectors
from the counter's on, the file ends up holding `bytes`, at its end. No entry, no inode, no other
file and no bit of the free map changes. -/
theorem copyLoop_spec : ∀ (fuel pos : Nat) (u : Util), Filling u.fs dst F i bytes pos →
    DataAt u.scratch u.extract_sector (bytes.drop pos) →
    u.extract_sector + bytes_to_sectors (bytes.drop pos).length ≤ u.scratch_size →
    bytes_to_sectors (bytes.drop pos).length ≤ fuel →
    ∃ fs, copyLoop dst fuel (bytes.drop pos).length u =
        .ok () { u with fs := fs, extract_sector := u.extract_sector + bytes_to_sectors (bytes.drop pos).length } ∧
      Filling fs dst F i bytes bytes.length ∧ u.fs.FilesAgree fs (· ≠ F.inode) ∧ fs.free_map = u.fs.free_map := by
  intro fuel
  induction fuel with
  | zero =>
    intro pos u h _ _ hfuel
    have hnil : bytes.drop pos = [] := by
      by_contra hne
      have := bytes_to_sectors_drop hne
      omega
    obtain rfl : pos = bytes.length := le_antisymm h.pos_le (List.drop_eq_nil_iff.mp hnil)
    exact ⟨u.fs, copyLoop_at_end hnil, h, .of_disk rfl _, rfl⟩
  | succ fuel ih =>
    intro pos u h hdata hroom hfuel
    by_cases hnil : bytes.drop pos = []
    · obtain rfl : pos = bytes.length := le_antisymm h.pos_le (List.drop_eq_nil_iff.mp hnil)
      exact ⟨u.fs, copyLoop_at_end hnil, h, .of_disk rfl _, rfl⟩
    have hlen := bytes_to_sectors_drop hnil
    obtain ⟨hsec, hrest⟩ := (dataAt_iff hnil).mp hdata
    obtain ⟨fs₁, hw, h₁, hagree₁, hfm₁⟩ := h.write
    obtain ⟨c, hcdef⟩ : ∃ c, ((bytes.drop pos).take BLOCK_SECTOR_SIZE).length = c := ⟨_, rfl⟩
    have hdrop : bytes.drop (pos + c) = (bytes.drop pos).drop BLOCK_SECTOR_SIZE := by
      rw [← List.drop_drop, ← hcdef, List.length_take, drop_min_length]
    rw [copyLoop_round hnil (by omega) (hsec ▸ hw), ← hdrop]
    rw [hcdef] at h₁
    obtain ⟨fs, hrun, h', hagree, hfm⟩ := ih (pos + c) { u with fs := fs₁, extract_sector := u.extract_sector + 1 }
      h₁ (hdrop ▸ hrest) (by dsimp only; rw [hdrop]; omega) (by rw [hdrop]; omega)
    refine ⟨fs, ?_, h', hagree₁.trans hagree, hfm.trans hfm₁⟩
    rw [hrun]
    dsimp only
    rw [hdrop, Nat.add_assoc, Nat.add_comm 1, ← hlen]

/-! ## A round of the extraction loop

Lean generates no equations for `extractLoop` (its nested match), so each kind of round is unfolded
from the definition once, here. -/

/-- The round at the end-of-archive marker: the counter moves past it and the loop stops. -/
theorem extractLoop_eof {u : Util} {fuel : Nat} {name : Option (List UInt8)} {size : Int}
    (hsec : u.extract_sector < u.scratch_size)
    (hhdr : ustar_parse_header (sectorBytes (u.scratch u.extract_sector) 0 USTAR_HEADER_SIZE) =
      .ok (name, .eof, size)) :
    extractLoop (fuel + 1) u = .ok () { u with extract_sector := u.extract_sector + 1 } := by
  conv => lhs; delta extractLoop
  dsimp only
  conv => lhs; delta extractLoop._f
  dsimp only
  simp only [get_bind_apply]
  rewrite [bind_ok (scratch_read_ok hsec)]
  simp only [modify_bind_apply]
  rewrite [hhdr]
  rfl

set_option maxRecDepth 1000 in
/-- The round at the header of a regular file: the file is created, opened, filled from the
sectors after the header and closed, and the loop goes on. -/
theorem extractLoop_regular {u u₃ : Util} {fuel : Nat} {name : List UInt8} {size : Int}
    {fs₁ fs₂ fs₄ : Fs} {dst : Nat} (hsec : u.extract_sector < u.scratch_size)
    (hhdr : ustar_parse_header (sectorBytes (u.scratch u.extract_sector) 0 USTAR_HEADER_SIZE) =
      .ok (some name, .regular, size))
    (hcreate : filesys_create name size u.fs = .ok true fs₁)
    (hopen : filesys_open name fs₁ = .ok (some dst) fs₂)
    (hcopy : copyLoop dst size.toNat size { u with fs := fs₂, extract_sector := u.extract_sector + 1 } =
      .ok () u₃)
    (hclose : file_close (some dst) u₃.fs = .ok () fs₄) :
    extractLoop (fuel + 1) u = extractLoop fuel { u₃ with fs := fs₄ } := by
  -- both sides through the recursor, with the loop from `fuel` on left as it is
  delta extractLoop
  rw [show Nat.brecOn (fuel + 1) extractLoop._f =
      extractLoop._f (fuel + 1) (Nat.brecOn.go fuel extractLoop._f) from rfl,
    show Nat.brecOn fuel extractLoop._f = (Nat.brecOn.go fuel extractLoop._f).1 from rfl]
  generalize Nat.brecOn.go fuel extractLoop._f = below
  delta extractLoop._f
  dsimp only
  simp only [get_bind_apply]
  rewrite [bind_ok (scratch_read_ok hsec)]
  simp only [modify_bind_apply]
  rewrite [hhdr]
  dsimp only
  have hcreate' : filesys_create name size
      ({ u with extract_sector := u.extract_sector + 1 } : Util).fs = .ok true fs₁ := hcreate
  rewrite [bind_ok (liftFs_ok hcreate')]
  simp only [Bool.not_true, Bool.false_eq_true, if_false]
  have hopen' : filesys_open name
      ({ u with fs := fs₁, extract_sector := u.extract_sector + 1 } : Util).fs = .ok (some dst) fs₂ := hopen
  rewrite [bind_ok (liftFs_ok hopen')]
  dsimp only
  rewrite [bind_ok hcopy, bind_ok (liftFs_ok hclose)]
  rfl

/-- Room in `s` for the members `ms`: a run of free sectors as long as the members, for each file
an inode and its data, and a free slot of the root directory for each. -/
structure Fs.Room (s : Fs) (ms : List (List UInt8 × List UInt8)) : Prop where
  run : ∃ a M, FreeRun s.free_map a M ∧ archiveSectors ms ≤ M
  slots : ms.length ≤ s.rootEntries.countP (!·.in_use)

/-- Names that `fsutil_extract` can add to `s`: distinct names that a directory entry can hold,
none of them in `s` yet. -/
structure Fs.NewNames (s : Fs) (ms : List (List UInt8 × List UInt8)) : Prop where
  nodup : (ms.map Prod.fst).Nodup
  valid : ∀ m ∈ ms, m.1 ≠ [] ∧ m.1.length ≤ NAME_MAX ∧ 0 ∉ m.1
  absent : ∀ m ∈ ms, s.fileNamed m.1 = none

/-- A round of the extraction loop at the header of a regular file, with room for it: the file is
created under its name, holds the member's bytes, and takes a free slot of the root directory
and the start of the free run. No other name changes, and the counter moves past the member. -/
theorem extractLoop_member {u : Util} {name : List UInt8} (hs : u.fs.Sound)
    (hhdr : ustar_parse_header (sectorBytes (u.scratch u.extract_sector) 0 USTAR_HEADER_SIZE) =
      .ok (some name, .regular, bytes.length))
    (hdata : DataAt u.scratch (u.extract_sector + 1) bytes)
    (hsec : u.extract_sector + memberSectors bytes ≤ u.scratch_size)
    {a M : Nat} (hrun : FreeRun u.fs.free_map a M) (hk : memberSectors bytes ≤ M)
    (hadd : Addable u.fs.rootEntries name) (hnul : 0 ∉ name) :
    ∃ u', (∀ fuel, extractLoop (fuel + 1) u = extractLoop fuel u') ∧ u'.fs.Sound ∧
      u'.fs.fileNamed name = some bytes ∧ (∀ n, n ≠ name → u'.fs.fileNamed n = u.fs.fileNamed n) ∧
      u'.fs.rootEntries.countP (!·.in_use) + 1 = u.fs.rootEntries.countP (!·.in_use) ∧
      FreeRun u'.fs.free_map (a + memberSectors bytes) (M - memberSectors bytes) ∧
      u'.scratch = u.scratch ∧ u'.scratch_size = u.scratch_size ∧
      u'.extract_sector = u.extract_sector + memberSectors bytes := by
  simp only [memberSectors] at hsec hk ⊢
  have hsize := ustar_parse_header_size hhdr
  have hj := findIdx_free_lt hadd.2.2.2
  obtain ⟨s₁, x, hcreate, hs₁, hentries₁, hxnot, hlen₁, hino₁, hbytes₁, hrun₁, hclosed₁, -, -⟩ :=
    filesys_create_spec hs hrun (Int.natCast_nonneg _) (by simp only [INT_MAX] at hsize; omega) hk hadd hnul
  have hfind : findEntryFrom s₁.rootEntries name 0 =
      some (⟨x, name, true⟩, DIR_ENTRY_SIZE * u.fs.rootEntries.findIdx (!·.in_use)) := by
    rw [hentries₁]
    exact findEntryFrom_set_of_none hj hadd.2.2.1
  have hx : x ∈ s₁.files := mem_files_of_found hfind
  obtain ⟨l, hopen, hs₂, ⟨i, hi, hid, hfresh⟩, -⟩ := filesys_open_spec hs₁ hfind
  have hfill : Filling { s₁ with
      open_inodes := l
      file_heap := Function.update s₁.file_heap s₁.file_next (some ⟨x, 0, false⟩)
      file_next := s₁.file_next + 1 } s₁.file_next ⟨x, 0, false⟩ i bytes 0 :=
    ⟨hs₂, by simp, hi, files_subset_inodeSectors hx, Nat.ne_of_gt (hs₁.files_gt _ hx), hfresh hclosed₁,
      hlen₁, Nat.zero_le _, by simp⟩
  obtain ⟨fs₃, hcopy, hfill₃, hagree₃, hfm₃⟩ := copyLoop_spec (bytes.length : Int).toNat 0
    { u with
      fs := { s₁ with
        open_inodes := l
        file_heap := Function.update s₁.file_heap s₁.file_next (some ⟨x, 0, false⟩)
        file_next := s₁.file_next + 1 }
      extract_sector := u.extract_sector + 1 }
    hfill (by rw [List.drop_zero]; exact hdata) (by dsimp only; rw [List.drop_zero]; omega)
    (by rw [List.drop_zero, Int.toNat_natCast, bytes_to_sectors_natCast]; omega)
  rw [List.drop_zero] at hcopy
  have h0 : x ≠ FREE_MAP_SECTOR := fun h => hxnot (h ▸ free_map_mem_inodeSectors _)
  obtain ⟨l', hclose, hs₄, -⟩ := file_close_spec hfill₃.sound hfill₃.heap rfl hfill₃.open_inode hfill₃.mem h0
  have hfind₃ : findEntryFrom fs₃.rootEntries name 0 =
      some (⟨x, name, true⟩, DIR_ENTRY_SIZE * u.fs.rootEntries.findIdx (!·.in_use)) := by
    rw [hagree₃.entries]
    exact hfind
  have hnamed : fs₃.fileNamed name = some bytes := by
    rw [Fs.fileNamed_of_found hfind₃]
    exact congrArg some hfill₃.bytes_eq
  have hothers : ∀ n, n ≠ name → fs₃.fileNamed n = u.fs.fileNamed n := by
    intro n hne
    have hnot : ∀ p ∈ findEntryFrom s₁.rootEntries n 0, p.1.inode_sector ≠ x := by
      intro p hp hpx
      rw [hentries₁, findEntryFrom_set_of_ne hj (findIdx_free hj) (Ne.symm hne)] at hp
      exact hxnot (hpx ▸ files_subset_inodeSectors (mem_files_of_found hp))
    rw [hagree₃.fileNamed_eq hnot]
    exact Fs.fileNamed_of_add hj (findIdx_free hj) hentries₁ hino₁ hbytes₁ hne
  have hslots : fs₃.rootEntries.countP (!·.in_use) + 1 = u.fs.rootEntries.countP (!·.in_use) := by
    rw [hagree₃.entries]
    show s₁.rootEntries.countP _ + 1 = _
    rw [hentries₁]
    exact countP_free_set hj (findIdx_free hj) _ rfl
  have hrun₃ : FreeRun fs₃.free_map (a + (1 + bytes_to_sectors bytes.length))
      (M - (1 + bytes_to_sectors bytes.length)) := by
    rw [hfm₃]
    exact hrun₁
  refine ⟨{ u with
      fs := { fs₃ with
        open_inodes := l'
        file_heap := Function.update fs₃.file_heap s₁.file_next none }
      extract_sector := u.extract_sector + 1 + bytes_to_sectors bytes.length },
    fun fuel => extractLoop_regular (by omega) hhdr hcreate hopen hcopy hclose, hs₄, hnamed, hothers, hslots, hrun₃,
    rfl, rfl, by dsimp only; omega⟩

theorem ustar_parse_header_marker :
    ustar_parse_header (sectorBytes (bufferSector []) 0 USTAR_HEADER_SIZE) = .ok (none, .eof, 0) := by
  have hz : is_all_zeros (sectorBytes (bufferSector []) 0 USTAR_HEADER_SIZE) USTAR_HEADER_SIZE = true := by
    simp [is_all_zeros, sectorBytes, bufferSector]
  simp only [ustar_parse_header, hz, if_true]

/-- The extraction loop over an archive whose members the file system has room and names for:
each member becomes a file under its name with its bytes, no other name changes, and the loop
stops after it reads the end-of-archive marker. -/
theorem extractLoop_spec : ∀ (ms : List (List UInt8 × List UInt8)) (fuel : Nat) (u : Util),
    u.fs.Sound → Archive u.scratch u.extract_sector ms → u.fs.Room ms → u.fs.NewNames ms →
    u.extract_sector + archiveSectors ms < u.scratch_size → ms.length < fuel →
    ∃ u', extractLoop fuel u = .ok () u' ∧ u'.fs.Sound ∧
      (∀ m ∈ ms, u'.fs.fileNamed m.1 = some m.2) ∧
      (∀ n, n ∉ ms.map Prod.fst → u'.fs.fileNamed n = u.fs.fileNamed n) ∧
      u'.scratch = u.scratch ∧ u'.scratch_size = u.scratch_size ∧
      u'.extract_sector = u.extract_sector + archiveSectors ms + 1
  | _, 0, _, _, _, _, _, _, hfuel => absurd hfuel (Nat.not_lt_zero _)
  | [], fuel + 1, u, hs, harch, _, _, hsize, _ => by
    obtain ⟨hmark, -⟩ := harch
    have hhdr := ustar_parse_header_marker
    rw [← hmark] at hhdr
    exact ⟨_, extractLoop_eof (by simpa using hsize) hhdr, hs, by simp, fun _ _ => rfl, rfl, rfl, rfl⟩
  | (name, bytes) :: ms, fuel + 1, u, hs, harch, hroom, hnames, hsize, hfuel => by
    obtain ⟨hhdr, hdata, hrest⟩ := harch
    obtain ⟨⟨a, M, hrun, hM⟩, hslots⟩ := hroom
    obtain ⟨hnodup, hvalid, habsent⟩ := hnames
    simp only [archiveSectors_cons, List.length_cons, List.map_cons, List.nodup_cons, List.mem_cons,
      forall_eq_or_imp] at hM hslots hnodup hvalid habsent hsize hfuel ⊢
    obtain ⟨hne, hlen, hnul⟩ := hvalid.1
    have hfree : ∃ e ∈ u.fs.rootEntries, e.in_use = false := by
      obtain ⟨e, he, h⟩ := List.countP_pos_iff.mp (show 0 < u.fs.rootEntries.countP (!·.in_use) by omega)
      exact ⟨e, he, by simpa using h⟩
    have hadd : Addable u.fs.rootEntries name := ⟨hne, hlen, Option.map_eq_none_iff.mp habsent.1, hfree⟩
    obtain ⟨u₁, hround, hs₁, hnamed₁, hothers₁, hslots₁, hrun₁, hsc₁, hsz₁, hsec₁⟩ :=
      extractLoop_member hs hhdr hdata (by omega) hrun (by omega) hadd hnul
    obtain ⟨u₂, hloop, hs₂, hnamed₂, hothers₂, hsc₂, hsz₂, hsec₂⟩ := extractLoop_spec ms fuel u₁ hs₁
      (by rw [hsc₁, hsec₁]; exact hrest) ⟨⟨_, _, hrun₁, by omega⟩, by omega⟩
      ⟨hnodup.2, fun m hm => hvalid.2 m hm, fun m hm => by
        rw [hothers₁ _ fun h => hnodup.1 (h ▸ List.mem_map_of_mem hm)]
        exact habsent.2 m hm⟩
      (by rw [hsec₁, hsz₁]; omega) (by omega)
    refine ⟨u₂, by rw [hround, hloop], hs₂, ⟨?_, hnamed₂⟩, fun n hn => ?_, hsc₂.trans hsc₁, hsz₂.trans hsz₁, ?_⟩
    · rw [hothers₂ _ hnodup.1]
      exact hnamed₁
    · obtain ⟨hn₁, hn₂⟩ := not_or.mp hn
      rw [hothers₂ _ hn₂, hothers₁ _ hn₁]
    · rw [hsec₂, hsec₁]
      omega

/-- `fsutil_extract` of an archive that starts at the counter's sector, into a sound file system
with room and names for its members: each member becomes a file under its name with its bytes, no
other name changes, the counter stops right after the end-of-archive marker, and the first two
sectors of the device are zeroed. -/
theorem fsutil_extract_spec {u : Util} {ms : List (List UInt8 × List UInt8)} (hs : u.fs.Sound)
    (harch : Archive u.scratch u.extract_sector ms) (hroom : u.fs.Room ms) (hnames : u.fs.NewNames ms)
    (hsize : u.extract_sector + archiveSectors ms + 2 ≤ u.scratch_size) :
    ∃ u', fsutil_extract u = .ok () u' ∧ u'.fs.Sound ∧ (∀ m ∈ ms, u'.fs.fileNamed m.1 = some m.2) ∧
      (∀ n, n ∉ ms.map Prod.fst → u'.fs.fileNamed n = u.fs.fileNamed n) ∧
      u'.extract_sector = u.extract_sector + archiveSectors ms + 1 ∧
      u'.scratch 0 = bufferSector [] ∧ u'.scratch 1 = bufferSector [] := by
  -- a round reads a sector at least, so a round for each sector of the device is enough
  obtain ⟨u₁, hloop, hs₁, hnamed, hothers, -, hsz, hsec⟩ := extractLoop_spec ms (u.scratch_size + 1) u hs
    harch hroom hnames (by omega) (by have := length_le_archiveSectors ms; omega)
  refine ⟨?u, ?run, ?sound, ?named, ?others, ?sec, ?zero, ?one⟩
  case run =>
    unfold fsutil_extract
    rw [bind_ok (liftFs_ok (allocOk_nil hs.mallocs)), bind_ok (liftFs_ok (allocOk_nil hs.mallocs))]
    simp only [Bool.not_true, Bool.false_eq_true, or_self, if_false, get_bind_apply]
    rw [bind_ok hloop, bind_ok (scratch_write_ok _ (by omega)), scratch_write_ok _ (by dsimp only; omega)]
  case sound => exact hs₁
  case named => exact hnamed
  case others => exact hothers
  case sec => exact hsec
  case zero =>
    dsimp only
    rw [Function.update_of_ne (by decide), Function.update_self]
  case one =>
    dsimp only
    rw [Function.update_self]

end Extract

/-! ## A fresh boot -/

/-- A formatted device holds no `struct file` block at or past the next one. -/
theorem formatted_heap_fresh {disk : Nat → SectorData} {size : Nat} {mallocs : List Bool} {s : Fs}
    (h : formatted disk size mallocs = some s) : ∀ a, s.file_next ≤ a → s.file_heap a = none := by
  unfold formatted at h
  split at h
  · next hinit =>
    cases h
    exact (filesys_init_undenied true (fun _ => rfl) hinit).1.bounded
  · cases h

/-- A formatted device of 5 sectors: the free map's inode and data, the root directory's inode
and data, and sector 4 free. -/
def fsFive : Fs := (formatted (fun _ _ => 0) 5 []).getD (fsBoot (fun _ _ => 0) 5 [])

theorem fsFive_sound : fsFive.Sound := by
  have hfmt : formatted (fun _ _ => 0) 5 [] = some fsFive := by
    obtain ⟨s₀, hs₀⟩ := Option.isSome_iff_exists.mp
      (show (formatted (fun _ _ => 0) 5 []).isSome by decide +kernel)
    simp [fsFive, hs₀]
  -- the few values the invariant reads, computed once; each field is then a check on them
  have hfiles : fsFive.files = [] := by decide +kernel
  have hsec : fsFive.inodeSectors = [FREE_MAP_SECTOR, ROOT_DIR_SECTOR] := by rw [Fs.inodeSectors, hfiles]
  have hmap : fsFive.free_map = ⟨[true, true, true, true, false]⟩ := by decide +kernel
  have h0 : fsFive.diskInode FREE_MAP_SECTOR = ⟨2, 4, INODE_MAGIC⟩ := by decide +kernel
  have h1 : fsFive.diskInode ROOT_DIR_SECTOR = ⟨3, 320, INODE_MAGIC⟩ := by decide +kernel
  have hopen : fsFive.open_inodes = [⟨FREE_MAP_SECTOR, 1, false, 0, ⟨2, 4, INODE_MAGIC⟩⟩] := by
    decide +kernel
  have hsize : fsFive.disk_size = 5 := by decide +kernel
  refine ⟨⟨?_, ?_, ?_, ?_, ?_, ?_, ?_, ?_, ?_, ?_⟩, by decide +kernel,
    ⟨1, by decide +kernel, by decide +kernel⟩, by decide +kernel, formatted_heap_fresh hfmt, ?_, ?_, ?_⟩
  all_goals simp only [hsec, hfiles, hmap, h0, h1, hsize, hopen, List.forall_mem_cons, and_true]
  all_goals decide

/-- `fsWithA` is `"a"` created on `fsFive`. -/
theorem fsWithA_sound : fsWithA.Sound := by
  have hrun : FreeRun fsFive.free_map 4 1 := by decide +kernel
  obtain ⟨s', -, hcreate, hs', -⟩ := filesys_create_spec fsFive_sound hrun (show (0 : Int) ≤ 0 from le_rfl)
    (by decide) (by decide) (show Addable fsFive.rootEntries fileA by decide +kernel) (by decide)
  show (filesys_create fileA 0 fsFive).state.Sound
  rw [hcreate]
  exact hs'

/-! ## The round trip -/

/-- The archive round trip of `fsutil_append` and `fsutil_extract`, with the header contract of
`lib/ustar.c` it rests on. Appending files of a sound file system one after another, to a scratch
device with room for their archive, writes that archive. `fsutil_extract` of it, on a fresh boot
with a sound file system that has room for the files and none of their stripped names, creates
each file under its stripped name with the same bytes, leaves every other name as it was, and
stops right after the end-of-archive marker. The parser reads back what the maker writes, and
never returns a name that climbs out of the directory it is extracted into. -/
theorem fsutil_archive_round_trip :
    (∀ (S T : Fs) (names : List (List UInt8)) (scratch : Nat → SectorData) (scratch_size : Nat),
      S.Sound → T.Sound → (∀ n ∈ names, (S.fileNamed n).isSome) → (∀ n ∈ names, 0 ∉ n) →
      (∀ n ∈ names, (strip_antisocial_prefixes n).length ≤ NAME_MAX) →
      (names.map strip_antisocial_prefixes).Nodup →
      (∀ n ∈ names, T.fileNamed (strip_antisocial_prefixes n) = none) →
      T.Room (archiveOf S names) → archiveSectors (archiveOf S names) + 2 ≤ scratch_size →
      (names = [] → Archive scratch 0 []) →
      ∃ u₁, forM names fsutil_append ⟨S, scratch, scratch_size, 0, 0⟩ = .ok () u₁ ∧
        Archive u₁.scratch 0 (archiveOf S names) ∧
        ∃ u₂, fsutil_extract ⟨T, u₁.scratch, scratch_size, 0, 0⟩ = .ok () u₂ ∧ u₂.fs.Sound ∧
          (∀ n ∈ names, u₂.fs.fileNamed (strip_antisocial_prefixes n) = S.fileNamed n) ∧
          (∀ name, name ∉ names.map strip_antisocial_prefixes → u₂.fs.fileNamed name = T.fileNamed name) ∧
          u₂.extract_sector = archiveSectors (archiveOf S names) + 1) ∧
    (∀ (file_name : List UInt8) (type : UstarType) (size : Int), (type = .regular ∨ type = .directory) →
      0 ∉ file_name → (strip_antisocial_prefixes file_name).length ≤ 99 →
      (type = .regular → 0 ≤ size ∧ size ≤ INT_MAX) →
      ∃ h, ustar_make_header file_name type size = .ok (some h) ∧
        ustar_parse_header h =
          .ok (some (strip_antisocial_prefixes file_name), type, if type = .regular then size else 0)) ∧
    ∀ header name type size, ustar_parse_header header = .ok (some name, type, size) →
      name ≠ [] ∧ name ≠ ascii ".." ∧ ¬HasAntisocialPrefix name := by
  refine ⟨?_, fun _ _ _ htype hnul hlen hsize => ustar_parse_make_header htype hnul hlen hsize,
    fun _ _ _ _ h => ustar_parse_header_name_safe h⟩
  intro S T names scratch scratch_size hS hT hfound hnul hlen hnodup habsent hroom hsize hmark
  have hfst : (archiveOf S names).map Prod.fst = names.map strip_antisocial_prefixes := by
    simp [archiveOf]
  obtain ⟨u₁, happend, -, -, harch, -, -, hsz₁, -⟩ := forM_fsutil_append_spec names ⟨S, scratch, scratch_size, 0, 0⟩
    hS hfound hnul (fun n hn => by have := hlen n hn; simp only [NAME_MAX] at this; omega) (by dsimp only; omega)
    hmark
  have hnames : T.NewNames (archiveOf S names) := by
    refine ⟨hfst ▸ hnodup, ?_, ?_⟩
    · simp only [archiveOf, List.mem_map]
      rintro _ ⟨n, hn, rfl⟩
      exact ⟨strip_ne_nil n, hlen n hn, nul_not_mem_strip (hnul n hn)⟩
    · simp only [archiveOf, List.mem_map]
      rintro _ ⟨n, hn, rfl⟩
      exact habsent n hn
  obtain ⟨u₂, hextract, hs₂, hnamed, hothers, hsec, -, -⟩ := fsutil_extract_spec
    (show (⟨T, u₁.scratch, scratch_size, 0, 0⟩ : Util).fs.Sound from hT) harch hroom hnames (by dsimp only; omega)
  refine ⟨u₁, happend, harch, u₂, hextract, hs₂, fun n hn => ?_, fun name hn => hothers name (hfst ▸ hn), ?_⟩
  · obtain ⟨bytes, hb⟩ := Option.isSome_iff_exists.mp (hfound n hn)
    have := hnamed (strip_antisocial_prefixes n, bytes) (by simp only [archiveOf, List.mem_map]; exact ⟨n, hn, by rw [hb]; rfl⟩)
    rw [hb]
    exact this
  · simpa using hsec

/-- `"a"`, empty, appended from `fsWithA` to a scratch device of 3 sectors and extracted into a
fresh `fsFive`: `"a"` comes back empty and the extraction stops at sector 2, past the marker's
first sector. A header for `"../a"` names `"a"`. -/
theorem fsutil_archive_round_trip_fileA :
    fsWithA.fileNamed fileA = some [] ∧
    (∃ u₁, forM [fileA] fsutil_append ⟨fsWithA, fun _ _ => 0, 3, 0, 0⟩ = .ok () u₁ ∧
      Archive u₁.scratch 0 [(fileA, [])] ∧
      ∃ u₂, fsutil_extract ⟨fsFive, u₁.scratch, 3, 0, 0⟩ = .ok () u₂ ∧ u₂.fs.Sound ∧
        u₂.fs.fileNamed fileA = some [] ∧ u₂.extract_sector = 2) ∧
    ∃ h, ustar_make_header (ascii "../a") .regular 600 = .ok (some h) ∧
      ustar_parse_header h = .ok (some (ascii "a"), .regular, 600) := by
  have hnamed : fsWithA.fileNamed fileA = some [] := by decide +kernel
  have harch : archiveOf fsWithA [fileA] = [(fileA, [])] := by decide +kernel
  have hstrip : strip_antisocial_prefixes fileA = fileA := by decide
  obtain ⟨u₁, happend, hdata, u₂, hextract, hs₂, hback, -, hsec⟩ :=
    fsutil_archive_round_trip.1 fsWithA fsFive [fileA] (fun _ _ => 0) 3 fsWithA_sound fsFive_sound
      (by simp [hnamed]) (by decide) (by decide) (by decide)
      (by simp only [hstrip, List.forall_mem_cons]; decide +kernel)
      ⟨⟨4, 1, by decide +kernel, by rw [harch]; decide⟩, by rw [harch]; decide +kernel⟩ (by rw [harch]; decide)
      fun h => absurd h (List.cons_ne_nil _ _)
  have hheader := fsutil_archive_round_trip.2.1 (ascii "../a") .regular 600 (.inl rfl) (by decide) (by decide)
    fun _ => ⟨by decide, by decide⟩
  refine ⟨hnamed, ⟨u₁, happend, harch ▸ hdata, u₂, hextract, hs₂, ?_, ?_⟩, ?_⟩
  · have := hback fileA (List.mem_singleton_self _)
    rwa [hstrip, hnamed] at this
  · rw [hsec, harch]
    decide
  · have hdot : strip_antisocial_prefixes (ascii "../a") = ascii "a" := by decide
    simpa [hdot] using hheader

end Pintos.Filesys
