import Pintos.Lib.Bytes

/-!
# Partition scanning (`devices/partition.c`)

`partition_scan` reads the partition table in sector 0 of a block device. It registers each
primary partition, and it recurses through extended partitions for the logical partitions.
Sector numbers are `block_sector_t`, 32 bits, so `e->offset + sector` and `start + size` wrap.
The model keeps what the scan reads and prints: each `block_read`, each `printf`, and each
partition it hands to `block_register`. The scan's `malloc`s are taken to succeed.

`read_partition_table` recurses on disk contents, so it is defined with `fuel`, and `none` is
the recursion not returning within it. Two facts hold of every run:

* every partition registered lies inside the device without wrap-around
  (`partition_scan_registered_in_bounds`);
* every table read is sector 0's, whatever sector is being scanned
  (`partition_scan_reads_sector_zero`). The code calls `block_read (block, 0, pt)`, not
  `block_read (block, sector, pt)`.

So an extended partition in sector 0 whose sector is on the device sends the scan back to
sector 0's table. If the twice-offset sector is on the device too, the scan never returns,
whatever the fuel (`partition_scan_diverges`). A disk with no extended partition is scanned at
once (`partition_scan_of_no_extended`).
-/

namespace Pintos

/-- `enum block_type`, as `found_partition` picks it. -/
inductive BlockType
  | kernel
  | filesys
  | scratch
  | swap
  | foreign
  deriving DecidableEq, Repr

/-- A block device as the scan sees it: `block_size (block)` and the bytes of each sector. -/
structure Block where
  size : UInt32
  sectors : UInt32 → ℕ → UInt8

/-- The fields of a `struct partition_table_entry` that the scan reads. -/
structure PartitionTableEntry where
  type : UInt8
  offset : UInt32
  size : UInt32
  deriving DecidableEq, Repr

/-- The packed entry at byte `ofs` of a sector: `type` at byte 4, then the little-endian words
`offset` at 8 and `size` at 12. -/
def PartitionTableEntry.ofBytes (d : ℕ → UInt8) (ofs : ℕ) : PartitionTableEntry :=
  ⟨d (ofs + 4), (leValue ((List.range 4).map fun i => d (ofs + 8 + i))).toUInt32,
    (leValue ((List.range 4).map fun i => d (ofs + 12 + i))).toUInt32⟩

/-- `struct partition_table`: four entries from byte 446 and the signature at 510. -/
structure PartitionTable where
  partitions : List PartitionTableEntry
  signature : UInt16
  deriving DecidableEq, Repr

/-- The table that `block_read` fills in from a sector. -/
def PartitionTable.ofSector (d : ℕ → UInt8) : PartitionTable :=
  ⟨(List.range 4).map fun i => .ofBytes d (446 + 16 * i), (leValue [d 510, d 511]).toUInt16⟩

/-- The `printf`s of the scan, with the values they print. -/
inductive PartitionMsg
  /-- `"%s: Partition table at sector %u past end of device.\n"` -/
  | tablePastEnd (sector : UInt32)
  /-- `"%s: Invalid partition table signature\n"` -/
  | invalidSignature
  /-- `"%s: Invalid extended partition table in sector %u\n"` -/
  | invalidExtended (sector : UInt32)
  /-- `"%s: Extended partition in sector %u\n"` -/
  | extended (sector : UInt32)
  /-- `"%s%d: Partition starts past end of device (sector %u)\n"` -/
  | startsPastEnd (part_nr : ℕ) (start : UInt32)
  /-- `"%s%d: Partition end (%u) past end of device (%u)\n"` -/
  | endPastEnd (part_nr : ℕ) (end_ size : UInt32)
  /-- `"%s: Device contains no partitions\n"` -/
  | noPartitions
  deriving DecidableEq, Repr

/-- A partition handed to `block_register`: its number, type, first sector and size. -/
structure Partition where
  part_nr : ℕ
  type : BlockType
  start : UInt32
  size : UInt32
  deriving DecidableEq, Repr

/-- What the scan has done so far: `*part_nr`, the sectors read, the partitions registered
and the lines printed. -/
structure ScanState where
  part_nr : ℕ
  reads : List UInt32
  registered : List Partition
  log : List PartitionMsg
  deriving DecidableEq, Repr

namespace ScanState

/-- The state before the scan: `int part_nr = 0`. -/
def init : ScanState := ⟨0, [], [], []⟩

/-- A `printf`. -/
def print (s : ScanState) (m : PartitionMsg) : ScanState := { s with log := s.log ++ [m] }

/-- A `block_read` of a sector. -/
def readSector (s : ScanState) (sector : UInt32) : ScanState := { s with reads := s.reads ++ [sector] }

/-- A `block_register` of a partition. -/
def register (s : ScanState) (p : Partition) : ScanState :=
  { s with registered := s.registered ++ [p] }

@[simp] theorem print_reads (s : ScanState) (m : PartitionMsg) : (s.print m).reads = s.reads := rfl
@[simp] theorem print_registered (s : ScanState) (m : PartitionMsg) :
    (s.print m).registered = s.registered := rfl
@[simp] theorem readSector_reads (s : ScanState) (sector : UInt32) :
    (s.readSector sector).reads = s.reads ++ [sector] := rfl
@[simp] theorem readSector_registered (s : ScanState) (sector : UInt32) :
    (s.readSector sector).registered = s.registered := rfl
@[simp] theorem register_reads (s : ScanState) (p : Partition) : (s.register p).reads = s.reads := rfl
@[simp] theorem register_registered (s : ScanState) (p : Partition) :
    (s.register p).registered = s.registered ++ [p] := rfl

end ScanState

/-- The partition types of Pintos's own partitions; every other type is `BLOCK_FOREIGN`. -/
def blockTypeOf (part_type : UInt8) : BlockType :=
  if part_type = 0x20 then .kernel
  else if part_type = 0x21 then .filesys
  else if part_type = 0x22 then .scratch
  else if part_type = 0x23 then .swap
  else .foreign

/-- `found_partition (block, part_type, start, size, part_nr)`: register the partition if it
starts on the device and ends on it without wrapping. -/
def found_partition (blk : Block) (part_type : UInt8) (start size : UInt32) (part_nr : ℕ)
    (s : ScanState) : ScanState :=
  if start ≥ blk.size then s.print (.startsPastEnd part_nr start)
  else if start + size < start ∨ start + size > blk.size then
    s.print (.endPastEnd part_nr (start + size) blk.size)
  else s.register ⟨part_nr, blockTypeOf part_type, start, size⟩

/-- The types of extended partitions: DOS, Windows 98, Linux and DR-DOS. -/
def isExtended (type : UInt8) : Bool :=
  type == 0x05 || type == 0x0f || type == 0x85 || type == 0xc5

/-- The loop `for (i = 0; i < 4; i++)` of `read_partition_table` over the entries of the table
in `sector`, with `recurse` for the recursive call on an extended partition. -/
def scanEntries (blk : Block) (sector primary_extended_sector : UInt32)
    (recurse : UInt32 → UInt32 → ScanState → Option ScanState) :
    List PartitionTableEntry → ScanState → Option ScanState
  | [], s => some s
  | e :: es, s =>
    if e.size = 0 ∨ e.type = 0 then scanEntries blk sector primary_extended_sector recurse es s
    else if isExtended e.type then
      let s := s.print (.extended sector)
      -- the offset is absolute in sector 0 and relative to the primary extended partition below
      (if sector = 0 then recurse e.offset e.offset s
        else recurse (e.offset + primary_extended_sector) primary_extended_sector s).bind
        (scanEntries blk sector primary_extended_sector recurse es)
    else
      let s := { s with part_nr := s.part_nr + 1 }
      scanEntries blk sector primary_extended_sector recurse es
        (found_partition blk e.type (e.offset + sector) e.size s.part_nr s)

/-- `read_partition_table (block, sector, primary_extended_sector, part_nr)`, with `fuel`
recursive calls at most. -/
def read_partition_table (blk : Block) :
    ℕ → UInt32 → UInt32 → ScanState → Option ScanState
  | 0, _, _, _ => none
  | fuel + 1, sector, primary_extended_sector, s =>
    if sector ≥ blk.size then some (s.print (.tablePastEnd sector))
    else
      -- `block_read (block, 0, pt)`: the table read is sector 0's
      let pt := PartitionTable.ofSector (blk.sectors 0)
      let s := s.readSector 0
      if pt.signature ≠ 0xaa55 then
        some (s.print (if primary_extended_sector = 0 then .invalidSignature
          else .invalidExtended sector))
      else scanEntries blk sector primary_extended_sector (read_partition_table blk fuel)
        pt.partitions s

/-- `partition_scan (block)`. -/
def partition_scan (blk : Block) (fuel : ℕ) : Option ScanState :=
  (read_partition_table blk fuel 0 0 .init).map fun s =>
    if s.part_nr = 0 then s.print .noPartitions else s

/-! ## Invariants of every run -/

section Invariant

variable (blk : Block) (P : ScanState → Prop) (hprint : ∀ s m, P s → P (s.print m))
  (hread : ∀ s, P s → P (s.readSector 0)) (hnr : ∀ s n, P s → P { s with part_nr := n })
  (hfound : ∀ s t start size n, P s → P (found_partition blk t start size n s))
include hprint hnr hfound

/-- One table's entries keep an invariant that the recursive calls keep. -/
theorem scanEntries_inv {sector pes : UInt32} {recurse : UInt32 → UInt32 → ScanState → Option ScanState}
    (hrec : ∀ sec pes s s', P s → recurse sec pes s = some s' → P s') :
    ∀ {es : List PartitionTableEntry} {s s' : ScanState}, P s →
      scanEntries blk sector pes recurse es s = some s' → P s'
  | [], s, s', hs, h => by
    rw [scanEntries, Option.some.injEq] at h
    exact h ▸ hs
  | e :: es, s, s', hs, h => by
    rw [scanEntries] at h
    by_cases hempty : e.size = 0 ∨ e.type = 0
    · rw [if_pos hempty] at h
      exact scanEntries_inv hrec hs h
    rw [if_neg hempty] at h
    by_cases hext : isExtended e.type
    · -- the recursive call, then the rest of the entries
      rw [if_pos hext] at h
      dsimp only at h
      obtain ⟨s₁, h₁, h₂⟩ := Option.bind_eq_some_iff.mp h
      have hs₁ : P s₁ := by
        split_ifs at h₁ <;> exact hrec _ _ _ _ (hprint _ _ hs) h₁
      exact scanEntries_inv hrec hs₁ h₂
    · rw [if_neg hext] at h
      exact scanEntries_inv hrec (hfound _ _ _ _ _ (hnr _ _ hs)) h

include hread in
/-- Every run of `read_partition_table` keeps an invariant of the state's operations. -/
theorem read_partition_table_inv :
    ∀ {fuel : ℕ} {sector pes : UInt32} {s s' : ScanState}, P s →
      read_partition_table blk fuel sector pes s = some s' → P s'
  | 0, _, _, _, _, _, h => by simp [read_partition_table] at h
  | fuel + 1, sector, pes, s, s', hs, h => by
    rw [read_partition_table] at h
    by_cases hsize : sector ≥ blk.size
    · rw [if_pos hsize, Option.some.injEq] at h
      exact h ▸ hprint _ _ hs
    rw [if_neg hsize] at h
    dsimp only at h
    by_cases hsig : (PartitionTable.ofSector (blk.sectors 0)).signature ≠ 0xaa55
    · rw [if_pos hsig, Option.some.injEq] at h
      exact h ▸ hprint _ _ (hread _ hs)
    · rw [if_neg hsig] at h
      exact scanEntries_inv blk P hprint hnr hfound
        (fun _ _ _ _ h₁ h₂ => read_partition_table_inv h₁ h₂) (hread _ hs) h

include hread in
theorem partition_scan_inv {fuel : ℕ} {s' : ScanState} (h₀ : P .init)
    (h : partition_scan blk fuel = some s') : P s' := by
  obtain ⟨s, hs, rfl⟩ := Option.map_eq_some_iff.mp h
  have := read_partition_table_inv blk P hprint hread hnr hfound h₀ hs
  split_ifs
  · exact hprint _ _ this
  · exact this

end Invariant

/-- An addition of sector numbers that does not wrap below its first operand is exact. -/
theorem toNat_add_of_not_lt {a b : UInt32} (h : ¬a + b < a) : (a + b).toNat = a.toNat + b.toNat := by
  rw [UInt32.lt_iff_toNat_lt, UInt32.toNat_add] at h
  rw [UInt32.toNat_add]
  have ha := a.toNat_lt
  have hb := b.toNat_lt
  by_contra hne
  have : (a.toNat + b.toNat) % 2 ^ 32 = a.toNat + b.toNat - 2 ^ 32 := by
    rw [Nat.mod_eq_sub_mod (by omega), Nat.mod_eq_of_lt (by omega)]
  omega

/-- The partition lies on the device: it starts on it and ends by its end, with no wrap. -/
def Partition.InBounds (blk : Block) (p : Partition) : Prop :=
  p.start < blk.size ∧ p.start.toNat + p.size.toNat ≤ blk.size.toNat

theorem found_partition_registered (blk : Block) (t : UInt8) (start size : UInt32) (n : ℕ)
    (s : ScanState) :
    (found_partition blk t start size n s).registered = s.registered ∨
      (found_partition blk t start size n s).registered =
        s.registered ++ [⟨n, blockTypeOf t, start, size⟩] ∧
        Partition.InBounds blk ⟨n, blockTypeOf t, start, size⟩ := by
  unfold found_partition
  split_ifs with hstart hend
  · exact .inl rfl
  · exact .inl rfl
  · obtain ⟨hwrap, hend⟩ := not_or.mp hend
    refine .inr ⟨rfl, UInt32.not_le.mp hstart, ?_⟩
    rw [← toNat_add_of_not_lt hwrap]
    exact UInt32.le_iff_toNat_le.mp (UInt32.not_lt.mp hend)

/-- Every partition that a scan registers lies inside the device without wrap-around. -/
theorem partition_scan_registered_in_bounds (blk : Block) {fuel : ℕ} {s : ScanState}
    (h : partition_scan blk fuel = some s) : ∀ p ∈ s.registered, p.InBounds blk := by
  refine partition_scan_inv blk (fun s => ∀ p ∈ s.registered, p.InBounds blk)
    (fun s m hs => by simpa using hs) (fun s hs => by simpa using hs) (fun s n hs => hs)
    (fun s t start size n hs => ?_) (by simp [ScanState.init]) h
  rcases found_partition_registered blk t start size n s with heq | ⟨heq, hin⟩
  · rw [heq]
    exact hs
  · rw [heq]
    intro p hp
    rcases List.mem_append.mp hp with hp | hp
    · exact hs p hp
    · rw [List.mem_singleton.mp hp]
      exact hin

/-- Every `block_read` of a scan reads sector 0. -/
theorem partition_scan_reads_sector_zero (blk : Block) {fuel : ℕ} {s : ScanState}
    (h : partition_scan blk fuel = some s) : ∀ r ∈ s.reads, r = 0 := by
  refine partition_scan_inv blk (fun s => ∀ r ∈ s.reads, r = 0)
    (fun s m hs => by simpa using hs) (fun s hs r hr => ?_) (fun s n hs => hs)
    (fun s t start size n hs => ?_) (by simp [ScanState.init]) h
  · rw [ScanState.readSector_reads] at hr
    rcases List.mem_append.mp hr with hr | hr
    · exact hs r hr
    · exact List.mem_singleton.mp hr
  · unfold found_partition
    split_ifs <;> simpa using hs

/-! ## Termination -/

/-- A table entry that makes `read_partition_table` recurse. -/
def PartitionTableEntry.IsExtended (e : PartitionTableEntry) : Prop :=
  e.size ≠ 0 ∧ e.type ≠ 0 ∧ isExtended e.type = true

instance (e : PartitionTableEntry) : Decidable e.IsExtended :=
  inferInstanceAs (Decidable (_ ∧ _ ∧ _))

/-- An entry that is empty or not extended moves the loop on without a recursive call. -/
theorem scanEntries_cons_of_not_extended (blk : Block) {sector pes : UInt32}
    {recurse : UInt32 → UInt32 → ScanState → Option ScanState} {x : PartitionTableEntry}
    (hx : ¬x.IsExtended) (es : List PartitionTableEntry) (s : ScanState) :
    ∃ s₁, scanEntries blk sector pes recurse (x :: es) s = scanEntries blk sector pes recurse es s₁ := by
  rw [scanEntries]
  by_cases hempty : x.size = 0 ∨ x.type = 0
  · exact ⟨s, if_pos hempty⟩
  rw [if_neg hempty]
  have hext : ¬isExtended x.type = true := fun hext => hx ⟨by tauto, by tauto, hext⟩
  rw [if_neg hext]
  exact ⟨_, rfl⟩

/-- Entries before the first extended one do not recurse; at that one the scan goes on as the
recursive call does. -/
theorem scanEntries_extended (blk : Block) {sector pes : UInt32}
    {recurse : UInt32 → UInt32 → ScanState → Option ScanState} {e : PartitionTableEntry}
    (he : e.IsExtended) {post : List PartitionTableEntry}
    (hnone : ∀ s, recurse (if sector = 0 then e.offset else e.offset + pes)
      (if sector = 0 then e.offset else pes) s = none) :
    ∀ {pre : List PartitionTableEntry}, (∀ x ∈ pre, ¬x.IsExtended) →
      ∀ s, scanEntries blk sector pes recurse (pre ++ e :: post) s = none
  | [], _, s => by
    obtain ⟨hsize, htype, hext⟩ := he
    rw [List.nil_append, scanEntries, if_neg (by tauto), if_pos hext]
    dsimp only
    have hcall : (if sector = 0 then recurse e.offset e.offset (s.print (.extended sector))
        else recurse (e.offset + pes) pes (s.print (.extended sector))) = none := by
      split_ifs with h0 <;> simpa [h0] using hnone (s.print (.extended sector))
    rw [hcall]
    rfl
  | x :: pre, hpre, s => by
    obtain ⟨s₁, hs₁⟩ := scanEntries_cons_of_not_extended blk (hpre x List.mem_cons_self) _ s
    rw [List.cons_append, hs₁]
    exact scanEntries_extended blk he hnone (fun y hy => hpre y (List.mem_cons_of_mem _ hy)) s₁

section Loop

variable {blk : Block} {pre post : List PartitionTableEntry} {e : PartitionTableEntry}
  (htable : PartitionTable.ofSector (blk.sectors 0) = ⟨pre ++ e :: post, 0xaa55⟩)
  (hpre : ∀ x ∈ pre, ¬x.IsExtended) (he : e.IsExtended)
  (ho : e.offset < blk.size) (ho2 : e.offset + e.offset < blk.size)
include htable hpre he ho ho2

/-- The sectors the scan comes back to: sector 0 at the top, then `e.offset` and twice it. -/
theorem read_partition_table_loops :
    ∀ (fuel : ℕ) {sector pes : UInt32}, (sector = 0 ∧ pes = 0) ∨
      (pes = e.offset ∧ (sector = e.offset ∨ sector = e.offset + e.offset)) →
      ∀ s, read_partition_table blk fuel sector pes s = none
  | 0, _, _, _, _ => rfl
  | fuel + 1, sector, pes, hvisit, s => by
    have hsector : sector < blk.size := by
      rcases hvisit with ⟨rfl, -⟩ | ⟨-, rfl | rfl⟩
      · exact UInt32.lt_of_le_of_lt UInt32.zero_le ho
      · exact ho
      · exact ho2
    rw [read_partition_table, if_neg (UInt32.not_le.mpr hsector)]
    dsimp only
    rw [htable]
    dsimp only
    rw [if_neg (not_not_intro rfl)]
    refine scanEntries_extended blk he (fun s => read_partition_table_loops fuel ?_ s) hpre _
    by_cases h0 : sector = 0
    · rw [if_pos h0, if_pos h0]
      exact .inr ⟨rfl, .inl rfl⟩
    · rw [if_neg h0, if_neg h0]
      rcases hvisit with ⟨h, -⟩ | ⟨rfl, -⟩
      · exact absurd h h0
      · exact .inr ⟨rfl, .inr rfl⟩

/-- A disk whose sector 0 holds a valid table with an extended partition at a sector on the
device, and twice that sector on it too, is never done scanning. -/
theorem partition_scan_diverges (fuel : ℕ) : partition_scan blk fuel = none := by
  unfold partition_scan
  rw [read_partition_table_loops htable hpre he ho ho2 fuel (.inl ⟨rfl, rfl⟩)]
  rfl

end Loop

/-- A sector holding a valid table whose first entry has the given type, offset and size, each
below 256; the other entries are empty. -/
def oneEntrySector (type offset size : UInt8) : ℕ → UInt8 := fun i =>
  if i = 450 then type else if i = 454 then offset else if i = 458 then size
  else if i = 510 then 0x55 else if i = 511 then 0xaa else 0

/-- An 8-sector disk with an extended partition over sectors 1 to 7 whose table, in sector 1,
holds one logical partition, at sector 2. -/
def extendedDisk : Block :=
  ⟨8, fun sector => if sector = 0 then oneEntrySector 0x05 1 7
    else if sector = 1 then oneEntrySector 0x83 1 2 else fun _ => 0⟩

/-- An 8-sector disk with an extended partition over sectors 5 to 7 whose table, in sector 5,
holds one logical partition, at sector 6. -/
def shortExtendedDisk : Block :=
  ⟨8, fun sector => if sector = 0 then oneEntrySector 0x05 5 3
    else if sector = 5 then oneEntrySector 0x83 1 2 else fun _ => 0⟩

/-- The scan of a well-formed disk with one logical partition never returns; and on a disk
whose extended table is in sector 5, the scan reads sector 0 twice, goes on to sector 10, past
the end, and registers nothing. -/
theorem partition_scan_rereads_sector_zero :
    (∀ fuel, partition_scan extendedDisk fuel = none) ∧
      partition_scan shortExtendedDisk 3 =
        some ⟨0, [0, 0], [], [.extended 0, .extended 5, .tablePastEnd 10, .noPartitions]⟩ :=
  ⟨@partition_scan_diverges extendedDisk [] [⟨0, 0, 0⟩, ⟨0, 0, 0⟩, ⟨0, 0, 0⟩] ⟨0x05, 1, 7⟩
    (by decide) (by simp) (by decide) (by decide) (by decide), by decide⟩

/-- A table with no extended partition is scanned without a recursive call. -/
theorem scanEntries_of_no_extended (blk : Block) {sector pes : UInt32}
    {recurse : UInt32 → UInt32 → ScanState → Option ScanState} :
    ∀ {es : List PartitionTableEntry}, (∀ x ∈ es, ¬x.IsExtended) →
      ∀ s, (scanEntries blk sector pes recurse es s).isSome
  | [], _, s => rfl
  | x :: es, hes, s => by
    obtain ⟨s₁, hs₁⟩ : ∃ s₁, scanEntries blk sector pes recurse (x :: es) s =
        scanEntries blk sector pes recurse es s₁ :=
      scanEntries_cons_of_not_extended blk (hes x List.mem_cons_self) es s
    rw [hs₁]
    exact scanEntries_of_no_extended blk (fun y hy => hes y (List.mem_cons_of_mem _ hy)) s₁

/-- A disk whose sector 0 table has no extended partition is scanned with one call. -/
theorem partition_scan_of_no_extended (blk : Block)
    (h : ∀ x ∈ (PartitionTable.ofSector (blk.sectors 0)).partitions, ¬x.IsExtended) :
    (partition_scan blk 1).isSome := by
  unfold partition_scan
  rw [Option.isSome_map, read_partition_table]
  by_cases hsize : (0 : UInt32) ≥ blk.size
  · rw [if_pos hsize]
    rfl
  rw [if_neg hsize]
  dsimp only
  by_cases hsig : (PartitionTable.ofSector (blk.sectors 0)).signature ≠ 0xaa55
  · rw [if_pos hsig]
    rfl
  · rw [if_neg hsig]
    exact scanEntries_of_no_extended blk h _

end Pintos
