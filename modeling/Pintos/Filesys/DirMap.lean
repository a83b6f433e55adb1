import Pintos.Filesys.CreateLeak
import Pintos.Filesys.InodeData

/-!
# The directory as a table of names (`filesys/directory.c`)

A directory's file holds 20-byte entries; `dirEntries` reads them back. With every allocation
granted, `lookup` returns the first in-use entry of the name (`lookup_eq`), the free-slot loop
the first entry not in use (`slotLoop_eq`), and `dir_add` follows its contract (`dir_add_eq`):
it succeeds exactly when the name is valid, absent and a slot is free, and then fills the
first free slot.

Each scan takes a short read for the end of the directory, and `inode_read_at` also reads
short when `malloc` refuses its bounce buffer. Then `lookup` misses a name that is there
(`lookup_of_refused`), and `dir_add` writes a second entry for it
(`dir_add_duplicates_name_of_refused_malloc`).
-/

namespace Pintos.Filesys

open EStateM

/-! ## Entries and their bytes -/

/-- What an entry's 20 bytes can hold: a 32-bit sector and a name of at most `NAME_MAX + 1`
bytes with no null byte in it. -/
structure DirEntry.Stored (e : DirEntry) : Prop where
  sector_lt : e.inode_sector < 2 ^ 32
  name_le : e.name.length ≤ NAME_MAX + 1
  no_nul : 0 ∉ e.name

theorem length_toBytes {e : DirEntry} (h : e.name.length ≤ NAME_MAX + 1) :
    e.toBytes.length = DIR_ENTRY_SIZE := by
  simp only [DirEntry.toBytes, List.length_append, length_leBytes, List.length_replicate,
    List.length_singleton, DIR_ENTRY_SIZE]
  simp only [NAME_MAX] at h ⊢
  omega

theorem ofBytes_toBytes {e : DirEntry} (h : e.Stored) : DirEntry.ofBytes e.toBytes = e := by
  obtain ⟨sector, name, in_use⟩ := e
  obtain ⟨hs, hn, h0⟩ := h
  simp only at hs hn h0
  have hlen : (leBytes 4 sector).length = 4 := length_leBytes 4 sector
  simp only [DirEntry.ofBytes, DirEntry.toBytes, List.append_assoc]
  refine DirEntry.mk.injEq .. ▸ ⟨?_, ?_, ?_⟩
  · rw [List.take_left' hlen, leValue_leBytes _ _ (by simpa using hs)]
  · rw [List.drop_left' hlen, ← List.append_assoc, List.take_left' (by simp [NAME_MAX] at hn ⊢; omega),
      List.takeWhile_append_of_pos (fun x hx => by simp; rintro rfl; exact h0 hx),
      List.takeWhile_replicate]
    simp
  · -- the flag is byte 19, after the sector's 4 bytes and the 15 of the name field
    have h19 : (leBytes 4 sector ++ (name ++ (List.replicate (NAME_MAX + 1 - name.length) 0 ++
        [if in_use then (1 : UInt8) else 0]))).getD 19 0 = if in_use then 1 else 0 := by
      have hX : (leBytes 4 sector ++ name ++ List.replicate (NAME_MAX + 1 - name.length) 0).length = 19 := by
        simp [NAME_MAX] at hn ⊢; omega
      rw [← List.append_assoc, ← List.append_assoc, List.getD_eq_getElem?_getD,
        List.getElem?_append_right (by omega), hX]
      rfl
    rw [h19]
    cases in_use <;> decide
  
theorem stored_ofBytes (bs : List UInt8) : (DirEntry.ofBytes bs).Stored where
  sector_lt := by
    have := leValue_lt (bs.take 4)
    have h4 : 256 ^ (bs.take 4).length ≤ 2 ^ 32 := by
      calc 256 ^ (bs.take 4).length ≤ 256 ^ 4 := Nat.pow_le_pow_right (by decide) (by simp)
        _ = 2 ^ 32 := by norm_num
    exact lt_of_lt_of_le this h4
  name_le := by
    simp only [DirEntry.ofBytes]
    exact (List.takeWhile_prefix _).length_le.trans (by simp)
  no_nul := by
    simp only [DirEntry.ofBytes]
    intro h
    simpa using List.all_eq_true.mp List.all_takeWhile 0 h

/-- The entries that the bytes of a directory file hold, one per 20 bytes; a shorter tail holds
none. -/
def entriesOf (bs : List UInt8) : List DirEntry :=
  (List.range (bs.length / DIR_ENTRY_SIZE)).map fun k =>
    DirEntry.ofBytes ((bs.drop (DIR_ENTRY_SIZE * k)).take DIR_ENTRY_SIZE)

theorem dirEntries_eq (s : Fs) (d : InodeDisk) : dirEntries s d = entriesOf (fileBytes s d) := by
  simp [dirEntries, entriesOf]

@[simp] theorem length_entriesOf (bs : List UInt8) :
    (entriesOf bs).length = bs.length / DIR_ENTRY_SIZE := by
  simp [entriesOf]

theorem getElem_entriesOf {bs : List UInt8} {k : Nat} (h : k < (entriesOf bs).length) :
    (entriesOf bs)[k] = DirEntry.ofBytes ((bs.drop (DIR_ENTRY_SIZE * k)).take DIR_ENTRY_SIZE) := by
  simp [entriesOf]

/-- Writing 20 bytes at entry `k` sets entry `k`. -/
theorem entriesOf_overwrite_entry {bs src : List UInt8} {k : Nat}
    (hk : k < bs.length / DIR_ENTRY_SIZE) (hsrc : src.length = DIR_ENTRY_SIZE) :
    entriesOf (overwrite bs (DIR_ENTRY_SIZE * k) src) = (entriesOf bs).set k (DirEntry.ofBytes src) := by
  have hfit : DIR_ENTRY_SIZE * k + src.length ≤ bs.length := by
    simp only [DIR_ENTRY_SIZE] at hk hsrc ⊢; omega
  apply List.ext_getElem (by simp [length_overwrite hfit])
  intro j h₁ h₂
  rw [getElem_entriesOf h₁, List.getElem_set]
  split
  · subst j
    have hself := take_drop_overwrite_self hfit
    rw [hsrc] at hself
    rw [hself]
  · rw [getElem_entriesOf (by simpa using h₂), take_drop_overwrite_of_disjoint hfit]
    simp only [DIR_ENTRY_SIZE] at hsrc ⊢; omega

theorem entriesOf_overwrite_tail {bs src : List UInt8} {ofs : Nat}
    (hofs : DIR_ENTRY_SIZE * (bs.length / DIR_ENTRY_SIZE) ≤ ofs) (h : ofs + src.length ≤ bs.length) :
    entriesOf (overwrite bs ofs src) = entriesOf bs := by
  apply List.ext_getElem (by simp [length_overwrite h])
  intro j h₁ h₂
  have hj : j < bs.length / DIR_ENTRY_SIZE := by simpa using h₂
  rw [getElem_entriesOf h₁, getElem_entriesOf h₂, take_drop_overwrite_of_disjoint h]
  simp only [DIR_ENTRY_SIZE] at hofs hj ⊢
  omega

/-- The first in-use entry of `name` from entry `k` on, with its offset. -/
def findEntryFrom (es : List DirEntry) (name : List UInt8) (k : Nat) : Option (DirEntry × Nat) :=
  (((es.drop k).zipIdx k).find? fun p => p.1.in_use ∧ name = p.1.name).map
    fun p => (p.1, DIR_ENTRY_SIZE * p.2)

theorem length_entry_slice (bs : List UInt8) (k : Nat) :
    ((bs.drop (DIR_ENTRY_SIZE * k)).take DIR_ENTRY_SIZE).length = DIR_ENTRY_SIZE ↔
      k < bs.length / DIR_ENTRY_SIZE := by
  simp only [List.length_take, List.length_drop, DIR_ENTRY_SIZE]
  omega

@[simp] theorem length_dirEntries (s : Fs) (d : InodeDisk) :
    (dirEntries s d).length = d.length.toNat / DIR_ENTRY_SIZE := by
  simp [dirEntries]

/-- `dir_add`'s contract: the name is valid, not in use, and some slot is free. -/
def Addable (es : List DirEntry) (name : List UInt8) : Prop :=
  name ≠ [] ∧ name.length ≤ NAME_MAX ∧ findEntryFrom es name 0 = none ∧ ∃ e ∈ es, e.in_use = false

instance (es : List DirEntry) (name : List UInt8) : Decidable (Addable es name) :=
  inferInstanceAs (Decidable (_ ∧ _ ∧ _ ∧ _))

theorem findIdx_free_lt {es : List DirEntry} (h : ∃ e ∈ es, e.in_use = false) :
    es.findIdx (!·.in_use) < es.length := by
  obtain ⟨e, he, hfree⟩ := h
  exact List.findIdx_lt_length.mpr ⟨e, he, by simp [hfree]⟩

theorem findIdx_free {es : List DirEntry} (hj : es.findIdx (!·.in_use) < es.length) :
    es[es.findIdx (!·.in_use)].in_use = false := by
  simpa using @List.findIdx_getElem _ _ _ hj

/-- The entries after an addition by the contract: the first free slot takes the entry. -/
def addEntry (es : List DirEntry) (name : List UInt8) (sector : Nat) : List DirEntry :=
  if Addable es name then es.set (es.findIdx (!·.in_use)) ⟨sector, name, true⟩ else es

/-! ## The scans, with every allocation granted -/

section Scans

variable {s : Fs} {dir : Dir} {i : Inode}
  (hi : s.open_inodes.find? (·.sector = dir.inode) = some i)
  (hm : s.mallocs = []) (hdev : i.data.OnDevice s.disk_size)
include hi hm hdev

theorem inode_read_at_entry (k : Nat) :
    inode_read_at dir.inode DIR_ENTRY_SIZE (DIR_ENTRY_SIZE * k) s =
      .ok (((fileBytes s i.data).drop (DIR_ENTRY_SIZE * k)).take DIR_ENTRY_SIZE) s :=
  inode_read_at_eq hi hm hdev _ _

theorem lookupLoop_eq (name : List UInt8) :
    ∀ n k, (dirEntries s i.data).length < n + k →
      lookupLoop dir name (DIR_ENTRY_SIZE * k) n s = .ok (findEntryFrom (dirEntries s i.data) name k) s
  | 0, k, h => by
    rw [findEntryFrom, List.drop_eq_nil_of_le (by omega)]
    rfl
  | n + 1, k, h => by
    simp only [lookupLoop]
    rw [bind_ok (inode_read_at_entry hi hm hdev k)]
    rw [dirEntries_eq] at h ⊢
    by_cases hk : k < (fileBytes s i.data).length / DIR_ENTRY_SIZE
    · -- a whole entry: it is entry `k`
      have hk' : k < (entriesOf (fileBytes s i.data)).length := by rw [length_entriesOf]; exact hk
      rw [if_neg (not_not.mpr ((length_entry_slice _ _).mpr hk)), findEntryFrom,
        List.drop_eq_getElem_cons hk', List.zipIdx_cons, getElem_entriesOf hk']
      split
      · rename_i hp
        rw [List.find?_cons_of_pos (by simpa using hp)]
        rfl
      · rename_i hp
        rw [List.find?_cons_of_neg (by simpa using hp),
          show DIR_ENTRY_SIZE * k + DIR_ENTRY_SIZE = DIR_ENTRY_SIZE * (k + 1) by ring,
          lookupLoop_eq name n (k + 1) (by rw [dirEntries_eq]; omega), dirEntries_eq]
        rfl
    · -- a short read: the scan is past the last entry
      rw [if_pos (mt (length_entry_slice _ _).mp hk), findEntryFrom,
        List.drop_eq_nil_of_le (by rw [length_entriesOf]; omega)]
      rfl

theorem slotLoop_eq :
    ∀ n k, (dirEntries s i.data).length < n + k →
      slotLoop dir (DIR_ENTRY_SIZE * k) n s =
        .ok (DIR_ENTRY_SIZE * (k + ((dirEntries s i.data).drop k).findIdx (!·.in_use))) s
  | 0, k, h => by
    rw [List.drop_eq_nil_of_le (by omega)]
    rfl
  | n + 1, k, h => by
    simp only [slotLoop]
    rw [bind_ok (inode_read_at_entry hi hm hdev k)]
    rw [dirEntries_eq] at h ⊢
    by_cases hk : k < (fileBytes s i.data).length / DIR_ENTRY_SIZE
    · -- a whole entry: it is entry `k`
      have hk' : k < (entriesOf (fileBytes s i.data)).length := by rw [length_entriesOf]; exact hk
      rw [if_neg (not_not.mpr ((length_entry_slice _ _).mpr hk)), List.drop_eq_getElem_cons hk',
        List.findIdx_cons, getElem_entriesOf hk']
      split
      · rename_i hp
        rw [hp, cond_true]
        rfl
      · rename_i hp
        rw [Bool.eq_false_iff.mpr hp, cond_false,
          show DIR_ENTRY_SIZE * k + DIR_ENTRY_SIZE = DIR_ENTRY_SIZE * (k + 1) by ring,
          slotLoop_eq n (k + 1) (by rw [dirEntries_eq]; omega), dirEntries_eq]
        congr 2
        omega
    · -- a short read: the end of the file is the slot
      rw [if_pos (mt (length_entry_slice _ _).mp hk), List.drop_eq_nil_of_le (by rw [length_entriesOf]; omega)]
      rfl

theorem lookup_eq (hlen : i.data.length < 2 ^ 31) (name : List UInt8) :
    lookup dir name s = .ok (findEntryFrom (dirEntries s i.data) name 0) s :=
  lookupLoop_eq hi hm hdev name lookupFuel 0 (by simp [lookupFuel, DIR_ENTRY_SIZE]; omega)

/-- The second half of `dir_add`, once the name is known to be valid and absent: the entry
goes into the first free slot, and when no slot is free the write at the end of the file is
short and changes no entry. -/
theorem dir_add_slot_eq (hlen : i.data.length < 2 ^ 31) (hdeny : i.deny_write_cnt = 0)
    {name : List UInt8} {sector : Nat} (hname : name.length ≤ NAME_MAX) (hnul : 0 ∉ name)
    (hsector : sector < 2 ^ 32) :
    ∃ D, (slotLoop dir 0 lookupFuel >>= fun ofs =>
        inode_write_at dir.inode (DirEntry.toBytes ⟨sector, name, true⟩) DIR_ENTRY_SIZE ofs >>= fun n =>
          pure (decide (n = DIR_ENTRY_SIZE))) s =
        .ok (decide (∃ e ∈ dirEntries s i.data, e.in_use = false)) { s with disk := D } ∧
      (∀ sector, ¬i.data.Owns sector → D sector = s.disk sector) ∧
      dirEntries { s with disk := D } i.data =
        if ∃ e ∈ dirEntries s i.data, e.in_use = false then
          (dirEntries s i.data).set ((dirEntries s i.data).findIdx (!·.in_use)) ⟨sector, name, true⟩
        else dirEntries s i.data := by
  -- the slot is the first free entry, or the end of the file when there is none
  obtain ⟨j, hj⟩ : ∃ j, (dirEntries s i.data).findIdx (!·.in_use) = j := ⟨_, rfl⟩
  have hslot := slotLoop_eq hi hm hdev lookupFuel 0 (by simp [lookupFuel, DIR_ENTRY_SIZE]; omega)
  rw [Nat.mul_zero, List.drop_zero, Nat.zero_add, hj] at hslot
  have hj_le : j ≤ (dirEntries s i.data).length := hj ▸ List.findIdx_le_length
  have hfree : (∃ e ∈ dirEntries s i.data, e.in_use = false) ↔ j < (dirEntries s i.data).length := by
    rw [← hj, List.findIdx_lt_length]
    simp
  have hbytes_len : (⟨sector, name, true⟩ : DirEntry).toBytes.length = DIR_ENTRY_SIZE :=
    length_toBytes (by simp only [NAME_MAX] at hname ⊢; omega)
  obtain ⟨D, hw, hframe, hbytes⟩ := inode_write_at_eq hi hm hdev hdeny
    (show (DIR_ENTRY_SIZE : Int).toNat ≤ (DirEntry.toBytes ⟨sector, name, true⟩).length by
      simp [hbytes_len]) (DIR_ENTRY_SIZE * j)
  have hmin : min (DIR_ENTRY_SIZE : Int).toNat (i.data.length.toNat - DIR_ENTRY_SIZE * j) =
      if j < (dirEntries s i.data).length then DIR_ENTRY_SIZE
      else i.data.length.toNat - DIR_ENTRY_SIZE * j := by
    simp only [length_dirEntries, DIR_ENTRY_SIZE] at hj_le ⊢
    split <;> omega
  refine ⟨D, ?_, hframe, ?_⟩
  · rw [bind_ok hslot, bind_ok hw, hmin, pure_apply]
    by_cases hjn : j < (dirEntries s i.data).length
    · rw [if_pos hjn]
      simp [hfree.mpr hjn]
    · have hshort : i.data.length.toNat - DIR_ENTRY_SIZE * j ≠ DIR_ENTRY_SIZE := by
        simp only [length_dirEntries, DIR_ENTRY_SIZE] at hjn hj_le ⊢; omega
      simp [hshort, hfree]
  · rw [dirEntries_eq, hbytes, hmin]
    by_cases hjn : j < (dirEntries s i.data).length
    · have hk : j < (fileBytes s i.data).length / DIR_ENTRY_SIZE := by simpa using hjn
      rw [if_pos hjn, List.take_of_length_le (by rw [hbytes_len]), if_pos (hfree.mpr hjn), hj,
        entriesOf_overwrite_entry hk hbytes_len,
        ofBytes_toBytes ⟨hsector, by simp only [NAME_MAX] at hname ⊢; omega, hnul⟩, dirEntries_eq]
    · rw [if_neg hjn, if_neg (mt hfree.mp hjn), entriesOf_overwrite_tail, dirEntries_eq]
      · simp only [length_dirEntries, length_fileBytes, DIR_ENTRY_SIZE] at hjn hj_le ⊢; omega
      · simp only [List.length_take, length_fileBytes, length_dirEntries, DIR_ENTRY_SIZE] at hj_le ⊢
        omega

/-- `dir_add` with every allocation granted follows its contract: it succeeds exactly when the
name is valid, not in use and a slot is free, and then the entry goes into the first free slot.
It writes no sector but the directory's. -/
theorem dir_add_eq (hlen : i.data.length < 2 ^ 31) (hdeny : i.deny_write_cnt = 0)
    {name : List UInt8} {sector : Nat} (hnul : 0 ∉ name) (hsector : sector < 2 ^ 32) :
    ∃ D, dir_add dir name sector s = .ok (decide (Addable (dirEntries s i.data) name)) { s with disk := D } ∧
      (∀ sector, ¬i.data.Owns sector → D sector = s.disk sector) ∧
      dirEntries { s with disk := D } i.data = addEntry (dirEntries s i.data) name sector := by
  unfold dir_add
  by_cases hv : name = [] ∨ name.length > NAME_MAX
  · have hna : ¬Addable (dirEntries s i.data) name := fun ⟨h₁, h₂, _⟩ => hv.elim h₁ (by omega)
    rw [if_pos hv]
    exact ⟨s.disk, by simp [hna], fun _ _ => rfl, by simp [addEntry, hna]⟩
  rw [if_neg hv, bind_ok (lookup_eq hi hm hdev hlen name)]
  cases hf : findEntryFrom (dirEntries s i.data) name 0 with
  | some p =>
    have hna : ¬Addable (dirEntries s i.data) name := fun ⟨_, _, h, _⟩ => by simp [hf] at h
    exact ⟨s.disk, by simp [hna], fun _ _ => rfl, by simp [addEntry, hna]⟩
  | none =>
    have haddable : Addable (dirEntries s i.data) name ↔ ∃ e ∈ dirEntries s i.data, e.in_use = false :=
      ⟨fun h => h.2.2.2, fun h => ⟨fun h' => hv (.inl h'), by omega, hf, h⟩⟩
    obtain ⟨D, h, hframe, hes⟩ := dir_add_slot_eq hi hm hdev hlen hdeny (by omega) hnul hsector
    refine ⟨D, ?_, hframe, ?_⟩
    · rw [Option.isSome_none, if_neg Bool.false_ne_true, h]
      simp only [haddable]
    · rw [hes, addEntry]
      simp only [haddable]

end Scans

/-! ## A refused bounce buffer -/

/-- When `malloc` refuses the bounce buffer of its first read, `lookup` finds nothing, whatever
the directory holds. -/
theorem lookup_of_refused {s : Fs} {dir : Dir} {i : Inode} {bs : List Bool}
    (hi : s.open_inodes.find? (·.sector = dir.inode) = some i) (hm : s.mallocs = false :: bs)
    (hne : 0 < (dirEntries s i.data).length) (name : List UInt8) :
    lookup dir name s = .ok none { s with mallocs := bs } := by
  have hoff : ((0 : Nat) : Int) < i.data.length := by
    simp only [length_dirEntries, DIR_ENTRY_SIZE] at hne; omega
  unfold lookup lookupFuel
  simp only [lookupLoop]
  rw [bind_ok (inode_read_at_of_refused hi hm (by decide) (by decide) hoff)]
  rfl

/-- One refused allocation breaks `dir_add`'s check for the name: with `name` in use in slot
`k` and a free slot, when `malloc` refuses the first bounce buffer and grants every later
allocation, `dir_add` succeeds and leaves a second in-use entry of `name` beside the first. -/
theorem dir_add_duplicates_name_of_refused_malloc {s : Fs} {dir : Dir} {i : Inode}
    {name : List UInt8} {sector k old : Nat}
    (hi : s.open_inodes.find? (·.sector = dir.inode) = some i) (hdev : i.data.OnDevice s.disk_size)
    (hlen : i.data.length < 2 ^ 31) (hdeny : i.deny_write_cnt = 0) (hm : s.mallocs = [false])
    (hname : name ≠ [] ∧ name.length ≤ NAME_MAX) (hnul : 0 ∉ name) (hsector : sector < 2 ^ 32)
    (hk : (dirEntries s i.data)[k]? = some ⟨old, name, true⟩)
    (hfree : ∃ e ∈ dirEntries s i.data, e.in_use = false) :
    ∃ s', dir_add dir name sector s = .ok true s' ∧
      (dirEntries s' i.data)[k]? = some ⟨old, name, true⟩ ∧
      ∃ j ≠ k, (dirEntries s' i.data)[j]? = some ⟨sector, name, true⟩ := by
  have hkN : k < (dirEntries s i.data).length := (List.getElem?_eq_some_iff.mp hk).1
  -- after the refused read the state is the same but for the allocator's answers
  have hi₁ : ({ s with mallocs := [] } : Fs).open_inodes.find? (·.sector = dir.inode) = some i := hi
  obtain ⟨D, h, -, hes⟩ := dir_add_slot_eq hi₁ rfl hdev hlen hdeny hname.2 hnul hsector
  have hsame : dirEntries { s with mallocs := [] } i.data = dirEntries s i.data := rfl
  rw [hsame] at h hes
  rw [if_pos hfree] at hes
  have hes' : dirEntries { s with disk := D, mallocs := [] } i.data =
      (dirEntries s i.data).set ((dirEntries s i.data).findIdx (!·.in_use)) ⟨sector, name, true⟩ := hes
  obtain ⟨j, hj⟩ : ∃ j, (dirEntries s i.data).findIdx (!·.in_use) = j := ⟨_, rfl⟩
  have hjN : j < (dirEntries s i.data).length := hj ▸ findIdx_free_lt hfree
  have hjk : j ≠ k := by
    rintro rfl
    subst hj
    have hfreej := findIdx_free hjN
    rw [(List.getElem?_eq_some_iff.mp hk).2] at hfreej
    cases hfreej
  refine ⟨{ s with disk := D, mallocs := [] }, ?_, ?_, j, hjk, ?_⟩
  · unfold dir_add
    rw [if_neg (by rintro (h | h) <;> [exact hname.1 h; omega]),
      bind_ok (lookup_of_refused hi hm (by omega) name), Option.isSome_none, if_neg Bool.false_ne_true, h,
      decide_eq_true hfree]
  · rw [hes', hj, List.getElem?_set_ne hjk, hk]
  · rw [hes', hj, List.getElem?_set_self hjN]

/-- A formatted device of 32 sectors whose allocator refuses its 40th request, and grants every
other. -/
def fsTight : Fs :=
  (formatted (fun _ _ => 0) 32 (List.replicate 39 true ++ [false])).getD (fsBoot (fun _ _ => 0) 32 [])

/-- After `create ("a", 0)`: `"a"`'s inode is sector 4. -/
def tight₁ : Fs := (filesys_create fileA 0 fsTight).state

/-- The states along a second `create ("a", 0)`, up to its `dir_add`: the root directory is
open, and the inode in sector 5 is written. The next allocation is the refused one. -/
def tightRoot : Fs := (dir_open_root tight₁).state

def tightAlloc : Fs := (free_map_allocate 1 tightRoot).state

def tightInode : Fs := (inode_create 5 0 tightAlloc).state

/-- The root directory's open inode in `tightInode`. -/
def tightRootInode : Inode := ⟨ROOT_DIR_SECTOR, 1, false, 0, ⟨3, 320, INODE_MAGIC⟩⟩

theorem dir_add_duplicates_name_of_refused_malloc_root :
    (tightInode.open_inodes.find? (·.sector = (⟨ROOT_DIR_SECTOR, 0⟩ : Dir).inode) = some tightRootInode ∧
      tightRootInode.data.OnDevice tightInode.disk_size ∧ tightRootInode.data.length < 2 ^ 31 ∧
      tightRootInode.deny_write_cnt = 0 ∧ tightInode.mallocs = [false] ∧
      (fileA ≠ [] ∧ fileA.length ≤ NAME_MAX) ∧ 0 ∉ fileA ∧ 5 < 2 ^ 32 ∧
      (dirEntries tightInode tightRootInode.data)[0]? = some ⟨4, fileA, true⟩ ∧
      ∃ e ∈ dirEntries tightInode tightRootInode.data, e.in_use = false) ∧
    ∃ s', dir_add ⟨ROOT_DIR_SECTOR, 0⟩ fileA 5 tightInode = .ok true s' ∧
      (dirEntries s' tightRootInode.data)[0]? = some ⟨4, fileA, true⟩ ∧
      ∃ j ≠ 0, (dirEntries s' tightRootInode.data)[j]? = some ⟨5, fileA, true⟩ := by
  have hi : tightInode.open_inodes.find? (·.sector = (⟨ROOT_DIR_SECTOR, 0⟩ : Dir).inode) =
      some tightRootInode := by decide +kernel
  have hm : tightInode.mallocs = [false] := by decide +kernel
  have hk : (dirEntries tightInode tightRootInode.data)[0]? = some ⟨4, fileA, true⟩ := by
    decide +kernel
  have hfree : ∃ e ∈ dirEntries tightInode tightRootInode.data, e.in_use = false := by
    decide +kernel
  have hdev : tightRootInode.data.OnDevice tightInode.disk_size := by decide +kernel
  exact ⟨⟨hi, hdev, by decide, rfl, hm, by decide, by decide, by decide, hk, hfree⟩,
    dir_add_duplicates_name_of_refused_malloc hi hdev (by decide) rfl hm (by decide) (by decide)
      (by decide) hk hfree⟩

/-- The state after the second `create ("a", 0)`, and after `remove ("a")`. -/
def tight₂ : Fs := (filesys_create fileA 0 tight₁).state

def tight₃ : Fs := (filesys_remove fileA tight₂).state

/-- Under one refused allocation the directory stops being a map: both `create ("a", 0)` succeed,
the root then holds `"a"` twice, and after a successful `remove ("a")` the name still opens. -/
theorem create_twice_of_refused_malloc_keeps_name :
    filesys_create fileA 0 fsTight = .ok true tight₁ ∧ filesys_create fileA 0 tight₁ = .ok true tight₂ ∧
    (dirEntries tight₂ (tight₂.diskInode ROOT_DIR_SECTOR)).filter (·.in_use) =
      [⟨4, fileA, true⟩, ⟨5, fileA, true⟩] ∧
    filesys_remove fileA tight₂ = .ok true tight₃ ∧
    (dirEntries tight₃ (tight₃.diskInode ROOT_DIR_SECTOR)).filter (·.in_use) = [⟨5, fileA, true⟩] ∧
    (filesys_open fileA tight₃).value?.isSome ∧ (filesys_open fileA tight₃).value? ≠ some none := by
  refine ⟨Result.eq_ok_of_value? (by decide +kernel), Result.eq_ok_of_value? (by decide +kernel),
    by decide +kernel, Result.eq_ok_of_value? (by decide +kernel), by decide +kernel, by decide +kernel,
    by decide +kernel⟩

end Pintos.Filesys
