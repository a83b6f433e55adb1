import Pintos.Lib.Heap
import Pintos.Filesys.Filesys

/-!
# Who holds an inode open

`open_cnt` of an in-memory inode counts its openers and `deny_write_cnt` the openers that deny
writes. Between two calls of the file system every opener is a `struct file`: a call opens the
root directory and the inodes it looks up only while it runs, and `file_open` takes over the
inode that `dir_lookup` opened. So `open_cnt` is the number of `struct file` blocks on the
inode, and `deny_write_cnt` the number of those whose `deny_write` is set. `Counted held`
says this with the openers `held` of a running call besides the files; `Counted []` holds
between calls and every entry point keeps it.

`Tallied` is the part about `open_inodes` alone, for any expected counts: `inode_open`,
`inode_close`, `inode_deny_write` and `inode_allow_write` move one count by one.
-/

namespace Pintos.Filesys

open EStateM

/-- The `struct file` blocks on the inode of `sector`. -/
def filesOn (s : Fs) (sector : Nat) : Nat := heapCount s.file_heap s.file_next (·.inode = sector)

/-- Those of them that deny writes. -/
def deniedOn (s : Fs) (sector : Nat) : Nat :=
  heapCount s.file_heap s.file_next fun f => f.inode = sector ∧ f.deny_write

/-- The open inodes carry the counts `opens` and `denies` give: one inode per sector, every
sector with an opener open, and no more denials than openers. -/
structure Tallied (s : Fs) (opens denies : Nat → Nat) : Prop where
  nodup : (s.open_inodes.map (·.sector)).Nodup
  open_cnt : ∀ i ∈ s.open_inodes, i.open_cnt = opens i.sector
  deny_write_cnt : ∀ i ∈ s.open_inodes, i.deny_write_cnt = denies i.sector
  opened : ∀ x, 0 < opens x → x ∈ s.open_inodes.map (·.sector)
  denies_le : ∀ x, denies x ≤ opens x

namespace Tallied

variable {s s' : Fs} {o d o' d' : Nat → Nat} {x : Nat}

theorem of_open_inodes (ht : Tallied s o d) (h : s'.open_inodes = s.open_inodes) :
    Tallied s' o d where
  nodup := h ▸ ht.nodup
  open_cnt := h ▸ ht.open_cnt
  deny_write_cnt := h ▸ ht.deny_write_cnt
  opened := h ▸ ht.opened
  denies_le := ht.denies_le

theorem congr (ht : Tallied s o d) (ho : ∀ x, o x = o' x) (hd : ∀ x, d x = d' x) : Tallied s o' d' := by
  obtain rfl := funext ho
  obtain rfl := funext hd
  exact ht

/-- An inode with an opener is found, with its counts. -/
theorem find? (ht : Tallied s o d) (hx : 0 < o x) :
    ∃ i ∈ s.open_inodes, s.open_inodes.find? (·.sector = x) = some i ∧ i.sector = x ∧
      i.open_cnt = o x ∧ i.deny_write_cnt = d x := by
  obtain ⟨i, hi, rfl⟩ := List.mem_map.mp (ht.opened x hx)
  exact ⟨i, hi, List.find?_key_of_mem ht.nodup hi, rfl, ht.open_cnt i hi,
    ht.deny_write_cnt i hi⟩

theorem eq_zero_of_find?_none (ht : Tallied s o d) (h : s.open_inodes.find? (·.sector = x) = none) :
    o x = 0 := by
  by_contra hne
  obtain ⟨i, -, hi, -⟩ := ht.find? (Nat.pos_of_ne_zero hne)
  simp [hi] at h

/-- `modifyInode x g` with a `g` that sets the counts of `x`'s inode to those of `o'` and `d'`,
which agree with `o` and `d` elsewhere. -/
theorem modify (ht : Tallied s o d) (hx : x ∈ s.open_inodes.map (·.sector)) {g : Inode → Inode}
    (hsector : ∀ i, (g i).sector = i.sector)
    (ho : ∀ i ∈ s.open_inodes, i.sector = x → (g i).open_cnt = o' x)
    (hd : ∀ i ∈ s.open_inodes, i.sector = x → (g i).deny_write_cnt = d' x)
    (ho' : ∀ y ≠ x, o' y = o y) (hd' : ∀ y ≠ x, d' y = d y)
    (hle : d' x ≤ o' x)
    (h : s'.open_inodes = s.open_inodes.map fun i => if i.sector = x then g i else i) :
    Tallied s' o' d' := by
  have hsectors : s'.open_inodes.map (·.sector) = s.open_inodes.map (·.sector) := by
    rw [h, List.map_map]
    exact List.map_congr_left fun i _ => by by_cases hi : i.sector = x <;> simp [hi, hsector]
  refine ⟨hsectors ▸ ht.nodup, ?_, ?_, ?_, ?_⟩
  · intro i' hi'
    rw [h] at hi'
    obtain ⟨i, hi, rfl⟩ := List.mem_map.mp hi'
    by_cases hix : i.sector = x
    · simp only [hix, if_true, ho i hi hix, hsector]
    · simp only [hix, if_false, ht.open_cnt i hi, ho' _ hix]
  · intro i' hi'
    rw [h] at hi'
    obtain ⟨i, hi, rfl⟩ := List.mem_map.mp hi'
    by_cases hix : i.sector = x
    · simp only [hix, if_true, hd i hi hix, hsector]
    · simp only [hix, if_false, ht.deny_write_cnt i hi, hd' _ hix]
  · intro y hy
    rw [hsectors]
    by_cases hyx : y = x
    · exact hyx ▸ hx
    · exact ht.opened y (ho' y hyx ▸ hy)
  · intro y
    by_cases hyx : y = x
    · exact hyx ▸ hle
    · rw [ho' y hyx, hd' y hyx]
      exact ht.denies_le y

/-- A new inode for `x`, which was not open, with one opener. -/
theorem push (ht : Tallied s o d) (hx : s.open_inodes.find? (·.sector = x) = none) (data : InodeDisk)
    (h : s'.open_inodes = ⟨x, 1, false, 0, data⟩ :: s.open_inodes) :
    Tallied s' (Function.update o x 1) d := by
  have ho := ht.eq_zero_of_find?_none hx
  have hdx : d x = 0 := Nat.le_zero.mp (ho ▸ ht.denies_le x)
  have hnot : x ∉ s.open_inodes.map (·.sector) := fun hmem => by
    obtain ⟨i, hi, rfl⟩ := List.mem_map.mp hmem
    simpa using List.find?_eq_none.mp hx i hi
  refine ⟨by rw [h, List.map_cons]; exact List.nodup_cons.mpr ⟨hnot, ht.nodup⟩, ?_, ?_, ?_, ?_⟩
  · intro i hi
    rw [h] at hi
    rcases List.mem_cons.mp hi with rfl | hi
    · simp
    · have hix : i.sector ≠ x := fun hix => hnot (hix ▸ List.mem_map_of_mem hi)
      rw [Function.update_of_ne hix]
      exact ht.open_cnt i hi
  · intro i hi
    rw [h] at hi
    rcases List.mem_cons.mp hi with rfl | hi
    · exact hdx.symm
    · exact ht.deny_write_cnt i hi
  · intro y hy
    rw [h, List.map_cons]
    by_cases hyx : y = x
    · exact hyx ▸ List.mem_cons_self
    · exact List.mem_cons_of_mem _ (ht.opened y (by rwa [Function.update_of_ne hyx] at hy))
  · intro y
    by_cases hyx : y = x
    · subst hyx
      simp [hdx]
    · rw [Function.update_of_ne hyx]
      exact ht.denies_le y

/-- The last opener of `x` gone, its inode is taken off the list. -/
theorem erase (ht : Tallied s o d) (hdx : d x = 0)
    (h : s'.open_inodes = s.open_inodes.filter (·.sector ≠ x)) :
    Tallied s' (Function.update o x 0) d := by
  have hsub : (s'.open_inodes.map (·.sector)).Sublist (s.open_inodes.map (·.sector)) :=
    h ▸ (List.filter_sublist).map _
  refine ⟨hsub.nodup ht.nodup, ?_, ?_, ?_, ?_⟩
  · intro i hi
    rw [h, List.mem_filter] at hi
    rw [Function.update_of_ne (by simpa using hi.2)]
    exact ht.open_cnt i hi.1
  · intro i hi
    rw [h, List.mem_filter] at hi
    exact ht.deny_write_cnt i hi.1
  · intro y hy
    have hyx : y ≠ x := fun hyx => by simp [hyx] at hy
    rw [Function.update_of_ne hyx] at hy
    obtain ⟨i, hi, rfl⟩ := List.mem_map.mp (ht.opened y hy)
    rw [h]
    exact List.mem_map_of_mem (List.mem_filter.mpr ⟨hi, by simpa using hyx⟩)
  · intro y
    by_cases hyx : y = x
    · subst hyx
      simp [hdx]
    · rw [Function.update_of_ne hyx]
      exact ht.denies_le y

end Tallied

/-! ## The inode functions -/

/-- The heap of `struct file` blocks and the next block's address. -/
def heapView (s : Fs) : (Nat → Option File) × Nat := (s.file_heap, s.file_next)

theorem heapView_eq_iff {s t : Fs} :
    heapView s = heapView t ↔ s.file_heap = t.file_heap ∧ s.file_next = t.file_next := by
  simp [heapView]

/-- What the counts are about: the open inodes and the heap. -/
def countsView (s : Fs) : List Inode × (Nat → Option File) × Nat := (s.open_inodes, heapView s)

section Inodes

variable {s s' : Fs} {o d : Nat → Nat} {x : Nat} {r : Option Nat}

/-- `inode_open` adds an opener to the inode it returns, and leaves the heap alone. -/
theorem inode_open_tallied (ht : Tallied s o d) (h : inode_open x s = .ok r s') :
    Tallied s' (fun y => o y + r.toList.count y) d ∧ heapView s' = heapView s := by
  refine ⟨?_, (inode_open_keeps (v := heapView) (fun _ _ => rfl) (fun _ _ => rfl) x).ok h⟩
  unfold inode_open at h
  simp only [get_bind_apply] at h
  cases hf : s.open_inodes.find? (·.sector = x) with
  | some i =>
    simp only [hf, inode_reopen] at h
    rw [bind_ok (inodeAt_ok hf)] at h
    simp only [modifyInode, modify_bind_apply, pure_apply, Result.ok.injEq] at h
    obtain ⟨rfl, rfl⟩ := h
    have hix : i.sector = x := by simpa using List.find?_some hf
    have hx : x ∈ s.open_inodes.map (·.sector) :=
      hix ▸ List.mem_map_of_mem (List.mem_of_find?_eq_some hf)
    have hcnt : i.open_cnt = o x := hix ▸ ht.open_cnt i (List.mem_of_find?_eq_some hf)
    refine (show Tallied _ (Function.update o x (o x + 1)) d from
      ht.modify (g := fun i' => { i' with open_cnt := i.open_cnt + 1 }) hx (fun _ => rfl)
      (fun _ _ _ => by simp [hcnt]) (fun i' hi' hx' => hx' ▸ ht.deny_write_cnt i' hi')
      (fun y hy => Function.update_of_ne hy _ _) (fun _ _ => rfl)
      (by simpa using Nat.le_succ_of_le (ht.denies_le x)) rfl).congr (fun y => ?_) fun _ => rfl
    by_cases hyx : y = x
    · simp [hyx]
    · simp [hyx, Ne.symm hyx]
  | none =>
    simp only [hf] at h
    obtain ⟨ok, s₁, hok, h⟩ := bind_eq_ok.mp h
    have h₁ : s₁.open_inodes = s.open_inodes :=
      (allocOk_keeps (v := Fs.open_inodes) fun _ _ => rfl).ok hok
    cases ok
    · -- no memory for the inode
      simp only [Bool.not_false, if_true, pure_apply, Result.ok.injEq] at h
      obtain ⟨rfl, rfl⟩ := h
      exact (ht.of_open_inodes h₁).congr (fun _ => by simp) fun _ => rfl
    · simp only [Bool.not_true, Bool.false_eq_true, if_false] at h
      obtain ⟨data, s₂, hread, h⟩ := bind_eq_ok.mp h
      have h₂ : s₂.open_inodes = s₁.open_inodes := (block_read_keeps (v := Fs.open_inodes) _).ok hread
      simp only [modify_bind_apply, pure_apply, Result.ok.injEq] at h
      obtain ⟨rfl, rfl⟩ := h
      have ho := ht.eq_zero_of_find?_none hf
      refine (ht.push hf (InodeDisk.ofSector data) (by rw [h₂, h₁])).congr (fun y => ?_) fun _ => rfl
      by_cases hyx : y = x
      · simp [hyx, ho]
      · simp [hyx, Ne.symm hyx]

/-- `inode_close` takes an opener off the inode, and the last close takes the inode off the
list; a removed inode's sectors go back to the free map, which the counts do not see. -/
theorem inode_close_tallied (ht : Tallied s o d) (hx : d x < o x)
    (h : inode_close (some x) s = .ok () s') :
    Tallied s' (Function.update o x (o x - 1)) d ∧ heapView s' = heapView s := by
  obtain ⟨i, hi, hf, rfl, hcnt, -⟩ := ht.find? (Nat.lt_of_le_of_lt (Nat.zero_le _) hx)
  unfold inode_close at h
  dsimp only at h
  rw [bind_ok (inodeAt_ok hf)] at h
  split at h
  · next hlast =>
    simp only [modify_bind_apply] at h
    have h₁ : countsView s' = (s.open_inodes.filter (·.sector ≠ i.sector), heapView s) := by
      split at h
      · obtain ⟨_, s₂, h₂, h₃⟩ := bind_eq_ok.mp h
        rw [(free_map_release_keeps (v := countsView) (fun _ _ => rfl) (fun _ _ => rfl)
          (fun _ _ => rfl) _ _).ok h₃, (free_map_release_keeps (v := countsView) (fun _ _ => rfl)
          (fun _ _ => rfl) (fun _ _ => rfl) _ _).ok h₂]
        rfl
      · simp only [pure_apply, Result.ok.injEq] at h
        rw [← h.2]
        rfl
    have hzero : o i.sector - 1 = 0 := hcnt ▸ hlast
    rw [hzero]
    exact ⟨ht.erase (by omega) (congrArg Prod.fst h₁), congrArg Prod.snd h₁⟩
  · simp only [modifyInode, modify_apply, Result.ok.injEq] at h
    rw [← h.2]
    refine ⟨ht.modify (g := fun i' => { i' with open_cnt := i.open_cnt - 1 })
      (List.mem_map_of_mem hi) (fun _ => rfl) (fun _ _ _ => by simp [hcnt])
      (fun i' hi' hx' => hx' ▸ ht.deny_write_cnt i' hi') (fun y hy => Function.update_of_ne hy _ _)
      (fun _ _ => rfl) (by simp; omega) rfl, rfl⟩

/-- `inode_deny_write` counts one more denial; the `ASSERT` holds while denials are fewer than
openers. -/
theorem inode_deny_write_tallied (ht : Tallied s o d) (hx : d x < o x)
    (h : inode_deny_write x s = .ok () s') :
    Tallied s' o (Function.update d x (d x + 1)) ∧ heapView s' = heapView s := by
  obtain ⟨i, hi, hf, rfl, hcnt, hdeny⟩ := ht.find? (Nat.lt_of_le_of_lt (Nat.zero_le _) hx)
  unfold inode_deny_write at h
  rw [bind_ok (inodeAt_ok hf)] at h
  simp only [modifyInode, modify_bind_apply] at h
  split at h
  · cases h
  · simp only [pure_apply, Result.ok.injEq] at h
    rw [← h.2]
    refine ⟨ht.modify (g := fun i' => { i' with deny_write_cnt := i.deny_write_cnt + 1 })
      (List.mem_map_of_mem hi) (fun _ => rfl) (fun i' hi' hx' => hx' ▸ ht.open_cnt i' hi')
      (fun _ _ _ => by simp [hdeny]) (fun _ _ => rfl) (fun y hy => Function.update_of_ne hy _ _)
      (by simp; omega) rfl, rfl⟩

/-- `inode_allow_write` counts one denial less. -/
theorem inode_allow_write_tallied (ht : Tallied s o d) (hx : 0 < d x)
    (h : inode_allow_write x s = .ok () s') :
    Tallied s' o (Function.update d x (d x - 1)) ∧ heapView s' = heapView s := by
  obtain ⟨i, hi, hf, rfl, hcnt, hdeny⟩ :=
    ht.find? (Nat.lt_of_lt_of_le hx (ht.denies_le x))
  unfold inode_allow_write at h
  rw [bind_ok (inodeAt_ok hf)] at h
  split at h
  · cases h
  · simp only [modifyInode, modify_apply, Result.ok.injEq] at h
    rw [← h.2]
    refine ⟨ht.modify (g := fun i' => { i' with deny_write_cnt := i.deny_write_cnt - 1 })
      (List.mem_map_of_mem hi) (fun _ => rfl) (fun i' hi' hx' => hx' ▸ ht.open_cnt i' hi')
      (fun _ _ _ => by simp [hdeny]) (fun _ _ => rfl) (fun y hy => Function.update_of_ne hy _ _)
      (by have := ht.denies_le i.sector; simp; omega) rfl, rfl⟩

/-- `inode_remove` marks the inode, which no count looks at. -/
theorem inode_remove_tallied (ht : Tallied s o d) (h : inode_remove x s = .ok () s') :
    Tallied s' o d ∧ heapView s' = heapView s := by
  unfold inode_remove at h
  obtain ⟨i, s₁, h₁, h⟩ := bind_eq_ok.mp h
  cases hf : s.open_inodes.find? (·.sector = x) with
  | none => simp [inodeAt, hf] at h₁
  | some i' =>
    rw [inodeAt_ok hf, Result.ok.injEq] at h₁
    obtain ⟨rfl, rfl⟩ := h₁
    simp only [modifyInode, modify_apply, Result.ok.injEq] at h
    rw [← h.2]
    have hix : i'.sector = x := by simpa using List.find?_some hf
    refine ⟨ht.modify (g := fun i => { i with removed := true })
      (hix ▸ List.mem_map_of_mem (List.mem_of_find?_eq_some hf)) (fun _ => rfl)
      (fun i hi hx' => hx' ▸ ht.open_cnt i hi) (fun i hi hx' => hx' ▸ ht.deny_write_cnt i hi)
      (fun _ _ => rfl) (fun _ _ => rfl) (ht.denies_le x) rfl, rfl⟩

end Inodes

/-! ## Between calls -/

/-- The counts with the openers `held` of a running call besides the `struct file` blocks: no
block lies at or past `file_next`, and the open inodes count the blocks on them and `held`. -/
structure Counted (held : List Nat) (s : Fs) : Prop where
  bounded : ∀ a, s.file_next ≤ a → s.file_heap a = none
  tallied : Tallied s (fun x => filesOn s x + held.count x) (deniedOn s)

section Calls

variable {s s' : Fs} {held held' : List Nat} {x a : Nat} {f : File}

theorem deniedOn_le_filesOn (s : Fs) (x : Nat) : deniedOn s x ≤ filesOn s x :=
  heapCount_mono fun f h => by simp_all

theorem filesOn_congr (h : heapView s' = heapView s) : filesOn s' = filesOn s := by
  simp only [heapView, Prod.mk.injEq] at h
  funext x
  simp only [filesOn, h.1, h.2]

theorem deniedOn_congr (h : heapView s' = heapView s) : deniedOn s' = deniedOn s := by
  simp only [heapView, Prod.mk.injEq] at h
  funext x
  simp only [deniedOn, h.1, h.2]

namespace Counted

theorem of_tallied {o d : Nat → Nat} (hb : ∀ a, s.file_next ≤ a → s.file_heap a = none)
    (ht : Tallied s o d) (ho : ∀ y, o y = filesOn s y + held.count y) (hd : ∀ y, d y = deniedOn s y) :
    Counted held s :=
  ⟨hb, ht.congr ho hd⟩

theorem bounded_congr (hc : Counted held s) (h : heapView s' = heapView s) :
    ∀ a, s'.file_next ≤ a → s'.file_heap a = none := by
  simp only [heapView, Prod.mk.injEq] at h
  rw [h.1, h.2]
  exact hc.bounded

theorem of_countsView (hc : Counted held s) (h : countsView s' = countsView s) : Counted held s' := by
  have hv : heapView s' = heapView s := congrArg Prod.snd h
  refine ⟨hc.bounded_congr hv, ?_⟩
  rw [filesOn_congr hv, deniedOn_congr hv]
  exact hc.tallied.of_open_inodes (congrArg Prod.fst h)

/-- What keeps the open inodes and the heap keeps the counts. -/
theorem triple_of_keeps {α : Type} {x : FsM α} (hx : Keeps countsView x) :
    Triple (Counted held) x fun _ => Counted held :=
  Triple.of_keeps hx fun _ _ h hc => hc.of_countsView h

theorem perm (hc : Counted held s) (hp : held.Perm held') : Counted held' s :=
  ⟨hc.bounded, hc.tallied.congr (fun y => by rw [hp.count_eq]) fun _ => rfl⟩

/-- Every `struct file` block lies below `file_next`. -/
theorem lt_of_heap (hc : Counted held s) (hf : s.file_heap a = some f) : a < s.file_next := by
  by_contra hlt
  rw [hc.bounded a (Nat.le_of_not_lt hlt)] at hf
  cases hf

end Counted

/-- `inode_open` adds the inode it returns to the call's openers. -/
theorem inode_open_counted (held : List Nat) (x : Nat) :
    Triple (Counted held) (inode_open x) fun r => Counted (r.toList ++ held) := by
  intro s r s' hc h
  obtain ⟨ht, hv⟩ := inode_open_tallied hc.tallied h
  refine Counted.of_tallied (hc.bounded_congr hv) ht (fun y => ?_) fun y => ?_
  · rw [filesOn_congr hv, List.count_append]
    omega
  · rw [deniedOn_congr hv]

/-- `inode_close` takes the inode off the call's openers. -/
theorem inode_close_counted (held : List Nat) (inode : Option Nat) :
    Triple (Counted (inode.toList ++ held)) (inode_close inode) fun _ => Counted held := by
  intro s u s' hc h
  cases inode with
  | none =>
    cases h
    simpa using hc
  | some x =>
    have hx : deniedOn s x < filesOn s x + ((some x).toList ++ held).count x := by
      have := deniedOn_le_filesOn s x
      simp only [Option.toList_some, List.singleton_append, List.count_cons_self]
      omega
    obtain ⟨ht, hv⟩ := inode_close_tallied hc.tallied hx h
    refine Counted.of_tallied (hc.bounded_congr hv) ht (fun y => ?_) fun y => ?_
    · rw [filesOn_congr hv]
      by_cases hyx : y = x
      · subst hyx
        simp
      · simp [Function.update_of_ne hyx, List.count_cons, Ne.symm hyx]
    · rw [deniedOn_congr hv]

/-- `inode_remove` leaves the counts alone. -/
theorem inode_remove_counted (held : List Nat) (x : Nat) :
    Triple (Counted held) (inode_remove x) fun _ => Counted held := by
  intro s u s' hc h
  obtain ⟨ht, hv⟩ := inode_remove_tallied hc.tallied h
  refine Counted.of_tallied (hc.bounded_congr hv) ht (fun y => ?_) fun y => ?_
  · rw [filesOn_congr hv]
  · rw [deniedOn_congr hv]

/-- The openers of a directory: its inode. -/
def dirHeld (dir : Option Dir) : List Nat := (dir.map (·.inode)).toList

theorem dir_open_root_counted (held : List Nat) :
    Triple (Counted held) dir_open_root fun dir => Counted (dirHeld dir ++ held) := by
  unfold dir_open_root dir_open
  refine Triple.bind (inode_open_counted held _) fun inode => ?_
  refine Triple.bind (Counted.triple_of_keeps (allocOk_keeps fun _ _ => rfl)) fun ok => ?_
  cases inode with
  | none => exact Triple.pure fun s hc => by simpa [dirHeld] using hc
  | some i =>
    refine Triple.ite (fun _ => Triple.pure fun s hc => by simpa [dirHeld] using hc) fun _ => ?_
    exact Triple.bind (inode_close_counted held _) fun _ =>
      Triple.pure fun s hc => by simpa [dirHeld] using hc

theorem dir_close_counted (held : List Nat) (dir : Option Dir) :
    Triple (Counted (dirHeld dir ++ held)) (dir_close dir) fun _ => Counted held := by
  cases dir with
  | none => exact Triple.pure fun s hc => by simpa [dirHeld] using hc
  | some d => exact inode_close_counted held (some d.inode)

theorem dir_lookup_counted (held : List Nat) (dir : Dir) (name : List UInt8) :
    Triple (Counted held) (dir_lookup dir name) fun r => Counted (r.toList ++ held) := by
  unfold dir_lookup
  refine Triple.bind (Counted.triple_of_keeps (lookup_keeps (fun _ _ => rfl) _ _)) fun e => ?_
  split
  · exact inode_open_counted held _
  · exact Triple.pure fun s hc => by simpa using hc

/-- `dir_remove` opens the inode of the entry and closes it again. -/
theorem dir_remove_counted (held : List Nat) (dir : Dir) (name : List UInt8) :
    Triple (Counted held) (dir_remove dir name) fun _ => Counted held := by
  unfold dir_remove
  refine Triple.bind (Counted.triple_of_keeps (lookup_keeps (fun _ _ => rfl) _ _)) fun e => ?_
  split
  · exact Triple.pure fun _ hc => hc
  · refine Triple.bind (inode_open_counted held _) fun inode => ?_
    split
    · exact Triple.pure fun s hc => by simpa using hc
    · next i =>
      refine Triple.bind (Counted.triple_of_keeps
        (inode_write_at_keeps (fun _ _ => rfl) (fun _ _ => rfl) _ _ _ _)) fun n => Triple.ite ?_ ?_
      · exact fun _ => Triple.bind (inode_close_counted held _) fun _ => Triple.pure fun _ hc => hc
      · exact fun _ => Triple.bind (inode_remove_counted _ _) fun _ =>
          Triple.bind (inode_close_counted held _) fun _ => Triple.pure fun _ hc => hc

/-! ## Files -/

/-- The state with the block at `a` replaced. -/
def Fs.setFile (s : Fs) (a : Nat) (v : Option File) : Fs :=
  { s with file_heap := Function.update s.file_heap a v }

@[simp] theorem Fs.setFile_open_inodes (s : Fs) (a : Nat) (v : Option File) :
    (s.setFile a v).open_inodes = s.open_inodes := rfl

@[simp] theorem Fs.setFile_file_next (s : Fs) (a : Nat) (v : Option File) :
    (s.setFile a v).file_next = s.file_next := rfl

theorem Counted.bounded_setFile (hc : Counted held s) (hf : s.file_heap a = some f) (v : Option File) :
    ∀ b, (s.setFile a v).file_next ≤ b → (s.setFile a v).file_heap b = none := by
  intro b hb
  have hab : b ≠ a := by have := hc.lt_of_heap hf; simp at hb; omega
  simp only [Fs.setFile, Function.update_of_ne hab]
  exact hc.bounded b hb

/-- A change to a block that keeps its inode and its `deny_write` keeps the counts. -/
theorem Counted.setFile (hc : Counted held s) (hf : s.file_heap a = some f) {f' : File}
    (hi : f'.inode = f.inode) (hd : f'.deny_write = f.deny_write) : Counted held (s.setFile a (some f')) := by
  have ha := hc.lt_of_heap hf
  have hfiles : filesOn (s.setFile a (some f')) = filesOn s := by
    funext y
    exact heapCount_update_of_any_eq ha (by simp [hf, hi])
  have hdenied : deniedOn (s.setFile a (some f')) = deniedOn s := by
    funext y
    exact heapCount_update_of_any_eq ha (by simp [hf, hi, hd])
  refine ⟨hc.bounded_setFile hf _, ?_⟩
  rw [hfiles, hdenied]
  exact hc.tallied.of_open_inodes rfl

/-- Setting `deny_write` of a block counts one more denial on its inode. -/
theorem deniedOn_setFile_deny (hc : Counted held s) (hf : s.file_heap a = some f)
    (hd : f.deny_write = false) (y : Nat) :
    deniedOn (s.setFile a (some { f with deny_write := true })) y =
      deniedOn s y + if f.inode = y then 1 else 0 := by
  have := @heapCount_update _ s.file_heap _ (fun f => decide (f.inode = y ∧ f.deny_write = true)) _
    (hc.lt_of_heap hf) (some { f with deny_write := true })
  by_cases hy : f.inode = y <;> simp_all [deniedOn, Fs.setFile]

/-- Clearing it counts one denial less. -/
theorem deniedOn_setFile_allow (hc : Counted held s) (hf : s.file_heap a = some f)
    (hd : f.deny_write = true) (y : Nat) :
    deniedOn (s.setFile a (some { f with deny_write := false })) y + (if f.inode = y then 1 else 0) =
      deniedOn s y := by
  have := @heapCount_update _ s.file_heap _ (fun f => decide (f.inode = y ∧ f.deny_write = true)) _
    (hc.lt_of_heap hf) (some { f with deny_write := false })
  by_cases hy : f.inode = y <;> simp_all [deniedOn, Fs.setFile]

/-- A block that does not deny writes leaves a denial count below its inode's block count. -/
theorem deniedOn_lt_filesOn (hc : Counted held s) (hf : s.file_heap a = some f)
    (hd : f.deny_write = false) : deniedOn s f.inode < filesOn s f.inode :=
  heapCount_lt (fun f h => by simp_all) (hc.lt_of_heap hf) hf (by simp [hd]) (by simp)

theorem modifyFile_counted (held : List Nat) (file : Nat) {g : File → File}
    (hg : ∀ f, (g f).inode = f.inode ∧ (g f).deny_write = f.deny_write) :
    Triple (Counted held) (modifyFile file g) fun _ => Counted held := by
  intro s u s' hc h
  rw [modifyFile_apply, Result.ok.injEq] at h
  obtain ⟨-, rfl⟩ := h
  cases hf : s.file_heap file with
  | none =>
    have hsame : Function.update s.file_heap file none = s.file_heap := by
      rw [← hf]
      exact Function.update_eq_self _ _
    simpa only [Option.map_none, hsame] using hc
  | some f => exact hc.setFile hf (hg f).1 (hg f).2

theorem file_write_counted (held : List Nat) (file : Nat) (buffer : List UInt8) (size : Int) :
    Triple (Counted held) (file_write file buffer size) fun _ => Counted held := by
  unfold file_write
  refine Triple.bind (Counted.triple_of_keeps (fileAtFs_keeps _)) fun f => ?_
  refine Triple.bind (Counted.triple_of_keeps
    (inode_write_at_keeps (fun _ _ => rfl) (fun _ _ => rfl) _ _ _ _)) fun n => ?_
  exact Triple.bind (modifyFile_counted held file fun _ => ⟨rfl, rfl⟩) fun _ => Triple.pure fun _ hc => hc

/-- `file_deny_write` sets the block's flag and counts the denial on its inode, once. -/
theorem file_deny_write_counted (held : List Nat) (file : Nat) :
    Triple (Counted held) (file_deny_write file) fun _ s => Counted held s ∧
      ∃ f, s.file_heap file = some f ∧ f.deny_write = true := by
  intro s u s' hc h
  unfold file_deny_write at h
  obtain ⟨f, s₁, h₁, hk⟩ := bind_eq_ok.mp h
  obtain ⟨hf, hs₁⟩ := fileAtFs_eq_ok h₁
  subst s₁
  split at hk
  · next hnd =>
    have hd : f.deny_write = false := by simpa using hnd
    obtain ⟨_, s₂, h₂, hk⟩ := bind_eq_ok.mp hk
    rw [modifyFile_apply, Result.ok.injEq, hf, Option.map_some] at h₂
    obtain ⟨-, rfl⟩ := h₂
    have hlt : deniedOn s f.inode < filesOn s f.inode + held.count f.inode :=
      Nat.lt_of_lt_of_le (deniedOn_lt_filesOn hc hf hd) (Nat.le_add_right _ _)
    obtain ⟨ht, hv⟩ := inode_deny_write_tallied (hc.tallied.of_open_inodes
      (show (s.setFile file _).open_inodes = s.open_inodes from rfl))
      hlt hk
    have hc₂ := Counted.bounded_setFile hc hf (some { f with deny_write := true })
    refine ⟨Counted.of_tallied (fun b hb => ?_) ht (fun y => ?_) fun y => ?_, ?_⟩
    · simp only [heapView, Prod.mk.injEq] at hv
      rw [hv.1]
      exact hc₂ b (hv.2 ▸ hb)
    · rw [filesOn_congr hv]
      exact congrArg (· + _) (heapCount_update_of_any_eq (hc.lt_of_heap hf) (by simp [hf])).symm
    · rw [deniedOn_congr hv, deniedOn_setFile_deny hc hf hd]
      by_cases hy : y = f.inode
      · subst hy
        simp
      · simp [Function.update_of_ne hy, Ne.symm hy]
    · simp only [heapView, Prod.mk.injEq] at hv
      exact ⟨{ f with deny_write := true }, by rw [hv.1]; simp [Fs.setFile], rfl⟩
  · simp only [pure_apply, Result.ok.injEq] at hk
    obtain ⟨-, rfl⟩ := hk
    exact ⟨hc, f, hf, by simpa using ‹¬(!f.deny_write) = true›⟩

/-- `file_allow_write` clears the block's flag and takes its denial off the inode, once. -/
theorem file_allow_write_counted (held : List Nat) (file : Nat) :
    Triple (Counted held) (file_allow_write file) fun _ s => Counted held s ∧
      ∃ f, s.file_heap file = some f ∧ f.deny_write = false := by
  intro s u s' hc h
  unfold file_allow_write at h
  obtain ⟨f, s₁, h₁, hk⟩ := bind_eq_ok.mp h
  obtain ⟨hf, hs₁⟩ := fileAtFs_eq_ok h₁
  subst s₁
  split at hk
  · next hd =>
    obtain ⟨_, s₂, h₂, hk⟩ := bind_eq_ok.mp hk
    rw [modifyFile_apply, Result.ok.injEq, hf, Option.map_some] at h₂
    obtain ⟨-, rfl⟩ := h₂
    have hpos : 0 < deniedOn s f.inode := by
      have := deniedOn_setFile_allow hc hf hd f.inode
      simp at this
      omega
    obtain ⟨ht, hv⟩ := inode_allow_write_tallied (hc.tallied.of_open_inodes
      (show (s.setFile file _).open_inodes = s.open_inodes from rfl))
      hpos hk
    have hc₂ := Counted.bounded_setFile hc hf (some { f with deny_write := false })
    refine ⟨Counted.of_tallied (fun b hb => ?_) ht (fun y => ?_) fun y => ?_, ?_⟩
    · simp only [heapView, Prod.mk.injEq] at hv
      rw [hv.1]
      exact hc₂ b (hv.2 ▸ hb)
    · rw [filesOn_congr hv]
      exact congrArg (· + _) (heapCount_update_of_any_eq (hc.lt_of_heap hf) (by simp [hf])).symm
    · rw [deniedOn_congr hv]
      have := deniedOn_setFile_allow hc hf hd y
      by_cases hy : y = f.inode
      · subst hy
        simp at this ⊢
        omega
      · simp [Function.update_of_ne hy, Ne.symm hy] at this ⊢
        omega
    · simp only [heapView, Prod.mk.injEq] at hv
      exact ⟨{ f with deny_write := false }, by rw [hv.1]; simp [Fs.setFile], rfl⟩
  · simp only [pure_apply, Result.ok.injEq] at hk
    obtain ⟨-, rfl⟩ := hk
    exact ⟨hc, f, hf, by simpa using ‹¬f.deny_write = true›⟩


/-- The state with `f` in the next block. -/
def Fs.pushFile (s : Fs) (f : File) : Fs :=
  { s with file_heap := Function.update s.file_heap s.file_next (some f), file_next := s.file_next + 1 }

/-- The next block, on the inode whose opener the caller hands over. -/
theorem Counted.push_file (hc : Counted (x :: held) s) : Counted held (s.pushFile ⟨x, 0, false⟩) := by
  have hfiles : ∀ y, filesOn (s.pushFile ⟨x, 0, false⟩) y = filesOn s y + if x = y then 1 else 0 :=
    fun y => by
      simp only [filesOn, Fs.pushFile]
      rw [heapCount_push]
      by_cases h : x = y <;> simp [h]
  have hdenied : ∀ y, deniedOn (s.pushFile ⟨x, 0, false⟩) y = deniedOn s y := fun y => by
    simp only [deniedOn, Fs.pushFile]
    rw [heapCount_push]
    simp
  refine ⟨fun b hb => ?_, (hc.tallied.of_open_inodes
    (show (s.pushFile _).open_inodes = s.open_inodes from rfl)).congr (fun y => ?_)
    fun y => (hdenied y).symm⟩
  · simp only [Fs.pushFile] at hb ⊢
    rw [Function.update_of_ne (by omega)]
    exact hc.bounded b (by omega)
  · rw [hfiles, List.count_cons]
    by_cases h : x = y
    · simp [h]
      omega
    · simp [h]

/-- `file_open` hands the inode's opener to the new block, or closes the inode. -/
theorem file_open_counted (held : List Nat) (inode : Option Nat) :
    Triple (Counted (inode.toList ++ held)) (file_open inode) fun _ => Counted held := by
  unfold file_open
  refine Triple.bind (Counted.triple_of_keeps (allocOk_keeps fun _ _ => rfl)) fun ok => ?_
  cases inode with
  | none => exact Triple.pure fun s hc => by simpa using hc
  | some x =>
    dsimp only
    refine Triple.ite (fun _ => ?_) fun _ => ?_
    · intro s r s' hc h
      simp only [get_bind_apply, set_bind_apply, pure_apply, Result.ok.injEq] at h
      obtain ⟨-, rfl⟩ := h
      exact Counted.push_file (s := s) (by simpa using hc)
    · exact Triple.bind (inode_close_counted held _) fun _ => Triple.pure fun _ hc => hc

/-- Closing the inode of a block that does not deny writes, then freeing the block. -/
theorem Counted.close_file {s₂ : Fs} (hc : Counted held s) (hf : s.file_heap a = some f)
    (hd : f.deny_write = false) (h : inode_close (some f.inode) s = .ok () s₂) :
    Counted held (s₂.setFile a none) := by
  have hlt : deniedOn s f.inode < filesOn s f.inode + held.count f.inode :=
    Nat.lt_of_lt_of_le (deniedOn_lt_filesOn hc hf hd) (Nat.le_add_right _ _)
  obtain ⟨ht, hv⟩ := inode_close_tallied hc.tallied hlt h
  simp only [heapView, Prod.mk.injEq] at hv
  have ha := hc.lt_of_heap hf
  have hfiles : ∀ y, filesOn (s₂.setFile a none) y + (if f.inode = y then 1 else 0) = filesOn s y :=
    fun y => by
      have := @heapCount_update _ s.file_heap _ (fun f => decide (f.inode = y)) _ ha none
      by_cases hy : f.inode = y <;> simp_all [filesOn, Fs.setFile]
  have hdenied : ∀ y, deniedOn (s₂.setFile a none) y = deniedOn s y := fun y => by
    have := @heapCount_update _ s.file_heap _ (fun f => decide (f.inode = y ∧ f.deny_write = true)) _
      ha none
    simp_all [deniedOn, Fs.setFile]
  refine ⟨fun b hb => ?_, (ht.of_open_inodes
    (show (s₂.setFile a none).open_inodes = s₂.open_inodes from rfl)).congr (fun y => ?_)
    fun y => (hdenied y).symm⟩
  · have hab : b ≠ a := by simp [hv.2] at hb; omega
    simp only [Fs.setFile, Function.update_of_ne hab, hv.1]
    exact hc.bounded b (by simpa [hv.2] using hb)
  · have := hfiles y
    by_cases hy : y = f.inode
    · subst hy
      simp at this ⊢
      omega
    · simp [Function.update_of_ne hy, Ne.symm hy] at this ⊢
      omega

/-- `file_close` takes the block's denial off its inode, closes the inode and frees the block. -/
theorem file_close_counted (held : List Nat) (file : Option Nat) :
    Triple (Counted held) (file_close file) fun _ => Counted held := by
  unfold file_close
  cases file with
  | none => exact Triple.pure fun _ hc => hc
  | some a =>
    refine Triple.bind (file_allow_write_counted held a) fun _ => ?_
    rintro s u s' ⟨hc, f, hf, hd⟩ h
    obtain ⟨f', s₁, h₁, hk⟩ := bind_eq_ok.mp h
    obtain ⟨hf', hs₁⟩ := fileAtFs_eq_ok h₁
    subst s₁
    obtain rfl : f' = f := Option.some.inj (hf'.symm.trans hf)
    obtain ⟨_, s₂, h₂, hk⟩ := bind_eq_ok.mp hk
    simp only [modify_apply, Result.ok.injEq] at hk
    rw [← hk.2]
    exact hc.close_file hf hd h₂

/-! ## The entry points -/

theorem filesys_open_counted (name : List UInt8) :
    Triple (Counted []) (filesys_open name) fun _ => Counted [] := by
  unfold filesys_open
  dsimp only
  refine Triple.bind (dir_open_root_counted []) fun dir => ?_
  have tail : ∀ inode : Option Nat, Triple (Counted (inode.toList ++ dirHeld dir))
      (do dir_close dir; file_open inode) fun _ => Counted [] := fun inode =>
    Triple.bind (show Triple _ _ fun _ => Counted (inode.toList ++ []) from
      (dir_close_counted inode.toList dir).mono (fun _ hc => hc.perm List.perm_append_comm)
        fun _ _ hc => by simpa using hc)
      fun _ => file_open_counted [] inode
  split
  · exact Triple.bind ((dir_lookup_counted _ _ name).mono (fun _ hc => by simpa using hc)
      fun _ _ hc => by simpa using hc) tail
  · exact Triple.bind (Triple.pure fun _ hc => by simpa [dirHeld] using hc) tail

theorem filesys_create_counted (name : List UInt8) (initial_size : Int) :
    Triple (Counted []) (filesys_create name initial_size) fun _ => Counted [] := by
  unfold filesys_create
  dsimp only
  refine Triple.bind (dir_open_root_counted []) fun dir => ?_
  have hkeep : ∀ {α : Type} {x : FsM α}, Keeps countsView x →
      Triple (Counted (dirHeld dir ++ [])) x fun _ => Counted (dirHeld dir ++ []) :=
    Counted.triple_of_keeps
  have tail : ∀ x : Bool × Nat, Triple (Counted (dirHeld dir ++ []))
      (if (!x.1) = true ∧ x.2 ≠ 0 then do
        free_map_release x.2 1
        dir_close dir
        pure x.1
      else do
        dir_close dir
        pure x.1) fun _ => Counted [] := fun _ =>
    Triple.ite (fun _ => Triple.bind (hkeep (free_map_release_keeps (fun _ _ => rfl) (fun _ _ => rfl)
        (fun _ _ => rfl) _ _)) fun _ =>
      Triple.bind (dir_close_counted [] dir) fun _ => Triple.pure fun _ hc => hc)
      fun _ => Triple.bind (dir_close_counted [] dir) fun _ => Triple.pure fun _ hc => hc
  split
  · exact Triple.bind (Triple.pure fun _ hc => hc) tail
  · refine Triple.bind (hkeep (free_map_allocate_keeps (fun _ _ => rfl) (fun _ _ => rfl)
      (fun _ _ => rfl) _)) fun r => ?_
    split
    · exact Triple.bind (Triple.pure fun _ hc => hc) tail
    · refine Triple.bind (hkeep (inode_create_keeps (fun _ _ => rfl) (fun _ _ => rfl)
        (fun _ _ => rfl) _ _)) fun ok => Triple.ite (fun _ => ?_) fun _ => ?_
      · exact Triple.bind (hkeep (dir_add_keeps (fun _ _ => rfl) (fun _ _ => rfl) _ _ _)) fun _ =>
          Triple.bind (Triple.pure fun _ hc => hc) tail
      · exact Triple.bind (Triple.pure fun _ hc => hc) tail

theorem filesys_remove_counted (name : List UInt8) :
    Triple (Counted []) (filesys_remove name) fun _ => Counted [] := by
  unfold filesys_remove
  dsimp only
  refine Triple.bind (dir_open_root_counted []) fun dir => ?_
  split
  · exact Triple.bind (dir_remove_counted _ _ _) fun _ =>
      Triple.bind (dir_close_counted [] _) fun _ => Triple.pure fun _ hc => hc
  · exact Triple.bind (Triple.pure fun _ hc => hc) fun _ =>
      Triple.bind (dir_close_counted [] _) fun _ => Triple.pure fun _ hc => hc

end Calls

/-! ## What the calls do to the blocks -/

section Blocks

variable {s s' : Fs} {a : Nat} {f : File}

theorem heapView_setFile_congr {t : Fs} (h : heapView s = heapView t) (a : Nat) (v : Option File) :
    heapView (s.setFile a v) = heapView (t.setFile a v) := by
  simp only [heapView, Prod.mk.injEq, Fs.setFile] at h ⊢
  rw [h.1, h.2]
  exact ⟨rfl, rfl⟩

theorem heapView_pushFile_congr {t : Fs} (h : heapView s = heapView t) (f : File) :
    heapView (s.pushFile f) = heapView (t.pushFile f) := by
  simp only [heapView, Prod.mk.injEq, Fs.pushFile] at h ⊢
  rw [h.1, h.2]
  exact ⟨rfl, rfl⟩

/-- The directory functions and the free map leave the blocks alone. -/
theorem heapView_triple_of_keeps {α : Type} {x : FsM α} (hx : Keeps heapView x) (s₀ : Fs) :
    Triple (fun s => heapView s = heapView s₀) x fun _ s => heapView s = heapView s₀ :=
  Triple.of_keeps hx fun _ _ h hs => h.trans hs

/-- `file_open` takes the next block, or none. -/
theorem file_open_heap (s₀ : Fs) (inode : Option Nat) :
    Triple (fun s => heapView s = heapView s₀) (file_open inode) fun r s =>
      (r = none ∧ heapView s = heapView s₀) ∨
        ∃ x, r = some s₀.file_next ∧ heapView s = heapView (s₀.pushFile ⟨x, 0, false⟩) := by
  unfold file_open
  refine Triple.bind (heapView_triple_of_keeps (allocOk_keeps fun _ _ => rfl) s₀) fun ok => ?_
  cases inode with
  | none => exact Triple.pure fun _ hs => .inl ⟨rfl, hs⟩
  | some x =>
    dsimp only
    refine Triple.ite (fun _ => ?_) fun _ => ?_
    · intro s r s' hs h
      simp only [get_bind_apply, set_bind_apply, pure_apply, Result.ok.injEq] at h
      obtain ⟨rfl, rfl⟩ := h
      have hnext : s.file_next = s₀.file_next := congrArg Prod.snd hs
      exact .inr ⟨x, by rw [hnext], heapView_pushFile_congr hs _⟩
    · exact Triple.bind (heapView_triple_of_keeps (inode_close_keeps (fun _ _ => rfl) (fun _ _ => rfl)
        (fun _ _ => rfl) (fun _ _ => rfl) _) s₀) fun _ => Triple.pure fun _ hs => .inl ⟨rfl, hs⟩

/-- `filesys_open` takes the next block, or none. -/
theorem filesys_open_heap (s₀ : Fs) (name : List UInt8) :
    Triple (fun s => heapView s = heapView s₀) (filesys_open name) fun r s =>
      (r = none ∧ heapView s = heapView s₀) ∨
        ∃ x, r = some s₀.file_next ∧ heapView s = heapView (s₀.pushFile ⟨x, 0, false⟩) := by
  unfold filesys_open
  dsimp only
  have hk : ∀ {α : Type} {x : FsM α}, Keeps heapView x →
      Triple (fun s => heapView s = heapView s₀) x fun _ s => heapView s = heapView s₀ :=
    fun hx => heapView_triple_of_keeps hx s₀
  refine Triple.bind (hk (dir_open_root_keeps (fun _ _ => rfl) (fun _ _ => rfl) (fun _ _ => rfl)
    (fun _ _ => rfl))) fun dir => ?_
  have tail : ∀ inode : Option Nat, Triple (fun s => heapView s = heapView s₀)
      (do dir_close dir; file_open inode) fun r s => (r = none ∧ heapView s = heapView s₀) ∨
        ∃ x, r = some s₀.file_next ∧ heapView s = heapView (s₀.pushFile ⟨x, 0, false⟩) := fun inode =>
    Triple.bind (hk (dir_close_keeps (fun _ _ => rfl) (fun _ _ => rfl) (fun _ _ => rfl)
      (fun _ _ => rfl) _)) fun _ => file_open_heap s₀ inode
  split
  · exact Triple.bind (hk (dir_lookup_keeps (fun _ _ => rfl) (fun _ _ => rfl) _ _)) tail
  · exact Triple.bind (Triple.pure fun _ hs => hs) tail

theorem file_deny_write_heap (hf : s.file_heap a = some f) (h : file_deny_write a s = .ok () s') :
    heapView s' = heapView (s.setFile a (some { f with deny_write := true })) := by
  unfold file_deny_write at h
  rw [bind_ok (fileAtFs_ok hf)] at h
  split at h
  · obtain ⟨_, s₂, h₂, hk⟩ := bind_eq_ok.mp h
    rw [modifyFile_apply, Result.ok.injEq, hf, Option.map_some] at h₂
    obtain ⟨-, rfl⟩ := h₂
    exact (inode_deny_write_keeps (v := heapView) (fun _ _ => rfl) _).ok hk
  · next hd =>
    simp only [pure_apply, Result.ok.injEq] at h
    obtain ⟨-, rfl⟩ := h
    have hf' : { f with deny_write := true } = f := by cases f; simp_all
    rw [hf', ← hf]
    simp [heapView, Fs.setFile]

theorem file_allow_write_heap (hf : s.file_heap a = some f) (h : file_allow_write a s = .ok () s') :
    heapView s' = heapView (s.setFile a (some { f with deny_write := false })) := by
  unfold file_allow_write at h
  rw [bind_ok (fileAtFs_ok hf)] at h
  split at h
  · obtain ⟨_, s₂, h₂, hk⟩ := bind_eq_ok.mp h
    rw [modifyFile_apply, Result.ok.injEq, hf, Option.map_some] at h₂
    obtain ⟨-, rfl⟩ := h₂
    exact (inode_allow_write_keeps (v := heapView) (fun _ _ => rfl) _).ok hk
  · next hd =>
    simp only [pure_apply, Result.ok.injEq] at h
    obtain ⟨-, rfl⟩ := h
    have hf' : { f with deny_write := false } = f := by cases f; simp_all
    rw [hf', ← hf]
    simp [heapView, Fs.setFile]

theorem file_close_heap (hf : s.file_heap a = some f) (h : file_close (some a) s = .ok () s') :
    heapView s' = heapView (s.setFile a none) := by
  unfold file_close at h
  obtain ⟨_, s₁, h₁, hk⟩ := bind_eq_ok.mp h
  have hv₁ := file_allow_write_heap hf h₁
  obtain ⟨f', s₂, h₂, hk⟩ := bind_eq_ok.mp hk
  obtain ⟨-, hs₂⟩ := fileAtFs_eq_ok h₂
  subst s₂
  obtain ⟨_, s₃, h₃, hk⟩ := bind_eq_ok.mp hk
  have hv₃ : heapView s₃ = heapView s₁ := (inode_close_keeps (v := heapView) (fun _ _ => rfl)
    (fun _ _ => rfl) (fun _ _ => rfl) (fun _ _ => rfl) _).ok h₃
  simp only [modify_apply, Result.ok.injEq] at hk
  rw [← hk.2]
  have := heapView_setFile_congr (hv₃.trans hv₁) a none
  simpa [Fs.setFile] using this

theorem file_write_heap {buffer : List UInt8} {size : Int} {n : Nat} (hf : s.file_heap a = some f)
    (h : file_write a buffer size s = .ok n s') :
    heapView s' = heapView (s.setFile a (some { f with pos := f.pos + n })) := by
  unfold file_write at h
  rw [bind_ok (fileAtFs_ok hf)] at h
  obtain ⟨n', s₁, h₁, hk⟩ := bind_eq_ok.mp h
  have hv₁ : heapView s₁ = heapView s := (inode_write_at_keeps (v := heapView) (fun _ _ => rfl)
    (fun _ _ => rfl) _ _ _ _).ok h₁
  obtain ⟨_, s₂, h₂, hk⟩ := bind_eq_ok.mp hk
  simp only [pure_apply, Result.ok.injEq] at hk
  obtain ⟨rfl, rfl⟩ := hk
  rw [modifyFile_apply, Result.ok.injEq] at h₂
  obtain ⟨-, rfl⟩ := h₂
  have hf₁ : s₁.file_heap a = some f := by
    simp only [heapView, Prod.mk.injEq] at hv₁
    rw [hv₁.1, hf]
  rw [hf₁, Option.map_some]
  exact heapView_setFile_congr hv₁ a _

end Blocks

/-! ## After boot

`filesys_init` opens the free map's file and denies no write. -/

section Boot

/-- The counts with `held` besides the blocks, and no block denies writes. -/
def Undenied (held : List Nat) (s : Fs) : Prop := Counted held s ∧ ∀ x, deniedOn s x = 0

variable {held : List Nat}

theorem Undenied.triple_of_keeps {α : Type} {x : FsM α} (hx : Keeps countsView x) :
    Triple (Undenied held) x fun _ => Undenied held :=
  Triple.of_keeps hx fun _ _ h hu =>
    ⟨hu.1.of_countsView h, fun y => by rw [deniedOn_congr (congrArg Prod.snd h), hu.2 y]⟩

theorem inode_open_undenied (x : Nat) :
    Triple (Undenied held) (inode_open x) fun r => Undenied (r.toList ++ held) := by
  intro s r s' hu h
  have hv : heapView s' = heapView s :=
    (inode_open_keeps (v := heapView) (fun _ _ => rfl) (fun _ _ => rfl) x).ok h
  exact ⟨inode_open_counted held x hu.1 h, fun y => by rw [deniedOn_congr hv, hu.2 y]⟩

theorem file_open_undenied (inode : Option Nat) :
    Triple (Undenied (inode.toList ++ held)) (file_open inode) fun _ => Undenied held := by
  intro s r s' hu h
  refine ⟨file_open_counted held inode hu.1 h, fun y => ?_⟩
  rcases file_open_heap s inode rfl h with ⟨-, hv⟩ | ⟨x, -, hv⟩
  · rw [deniedOn_congr hv, hu.2 y]
  · rw [deniedOn_congr hv, ← hu.2 y]
    simp only [deniedOn, Fs.pushFile]
    rw [heapCount_push]
    simp

theorem file_close_undenied (file : Option Nat) :
    Triple (Undenied held) (file_close file) fun _ => Undenied held := by
  intro s u s' hu h
  refine ⟨file_close_counted held file hu.1 h, fun y => ?_⟩
  cases file with
  | none =>
    cases h
    exact hu.2 y
  | some a =>
    cases hf : s.file_heap a with
    | none =>
      -- `file_allow_write` reads the freed block
      unfold file_close at h
      obtain ⟨_, s₁, h₁, -⟩ := bind_eq_ok.mp h
      simp [file_allow_write, fileAtFs, hf] at h₁
    | some f =>
      rw [deniedOn_congr (file_close_heap hf h)]
      exact Nat.le_zero.mp (hu.2 y ▸ heapCount_update_none_le a)

theorem free_map_create_undenied : Triple (Undenied []) free_map_create fun _ => Undenied [] := by
  have hk : ∀ {α : Type} {x : FsM α}, Keeps countsView x → Triple (Undenied []) x fun _ => Undenied [] :=
    Undenied.triple_of_keeps
  unfold free_map_create
  dsimp only
  refine Triple.bind (hk (Keeps.get _)) fun s₀ => ?_
  refine Triple.bind (hk (inode_create_keeps (fun _ _ => rfl) (fun _ _ => rfl) (fun _ _ => rfl) _ _))
    fun ok => Triple.ite (fun _ => Triple.throw_bind _) fun _ => ?_
  refine Triple.bind (inode_open_undenied _) fun inode => ?_
  refine Triple.bind (show Triple (Undenied (inode.toList ++ [])) _ fun _ => Undenied [] from
    file_open_undenied inode) fun file =>
    Triple.ite (fun _ => Triple.throw_bind _) fun _ => ?_
  refine Triple.bind (hk (Keeps.modify fun _ => rfl)) fun _ => Triple.bind (hk (Keeps.get _)) fun _ => ?_
  exact Triple.bind (hk (bitmap_write_keeps (fun _ _ => rfl) (fun _ _ => rfl) _ _)) fun _ =>
    Triple.ite (fun _ => Triple.throw _) fun _ => Triple.pure fun _ hu => hu

theorem free_map_open_undenied : Triple (Undenied []) free_map_open fun _ => Undenied [] := by
  have hk : ∀ {α : Type} {x : FsM α}, Keeps countsView x → Triple (Undenied []) x fun _ => Undenied [] :=
    Undenied.triple_of_keeps
  unfold free_map_open
  dsimp only
  refine Triple.bind (inode_open_undenied _) fun inode => ?_
  refine Triple.bind (show Triple (Undenied (inode.toList ++ [])) _ fun _ => Undenied [] from
    file_open_undenied inode) fun file =>
    Triple.ite (fun _ => Triple.throw_bind _) fun _ => ?_
  refine Triple.bind (hk (Keeps.modify fun _ => rfl)) fun _ => Triple.bind (hk (Keeps.get _)) fun _ => ?_
  refine Triple.bind (hk (?_ : Keeps countsView (bitmap_read _ file))) fun b => ?_
  · unfold bitmap_read
    refine Keeps.ite (Keeps.pure _ _) ?_
    split
    · exact Keeps.throw _ _
    · exact Keeps.bind (Keeps.bind (fileAtFs_keeps _) fun _ =>
        inode_read_at_keeps (fun _ _ => rfl) _ _ _) fun _ => Keeps.pure _ _
  · split
    · exact Triple.throw _
    · exact hk (Keeps.modify fun _ => rfl)

/-- `filesys_init` on a device with no `struct file` block in use: only the free map's file is
open, and no block denies writes. -/
theorem filesys_init_undenied (format : Bool) :
    Triple (fun s => ∀ a, s.file_heap a = none) (filesys_init format) fun _ => Undenied [] := by
  have hk : ∀ {α : Type} {x : FsM α}, Keeps countsView x → Triple (Undenied []) x fun _ => Undenied [] :=
    Undenied.triple_of_keeps
  unfold filesys_init do_format free_map_init free_map_close
  dsimp only
  refine Triple.bind (show Triple _ _ fun _ => Undenied [] from ?_) fun _ => ?_
  · -- with `open_inodes` emptied and no block in use, every count is zero
    intro s u s' hs h
    simp only [modify_apply, Result.ok.injEq] at h
    obtain ⟨-, rfl⟩ := h
    have hzero : ∀ p, heapCount s.file_heap s.file_next p = 0 := fun p =>
      List.countP_eq_zero.mpr fun a _ => by simp [hs a]
    refine ⟨⟨fun a _ => hs a, ⟨List.nodup_nil, nofun, nofun, fun x hx => ?_, fun x => ?_⟩⟩, fun x => hzero _⟩
    · simp [filesOn, hzero] at hx
    · simp [filesOn, deniedOn, hzero]
  refine Triple.bind (show Triple _ _ fun _ => Undenied [] from ?_) fun _ => ?_
  · refine Triple.bind (hk (Keeps.get _)) fun _ => Triple.bind
      (show Triple _ _ fun _ => Undenied [] from hk ?_)
      fun b => ?_
    · unfold bitmap_create_fs
      exact Keeps.bind (allocOk_keeps fun _ _ => rfl) fun _ => Keeps.ite (Keeps.pure _ _)
        (Keeps.bind (allocOk_keeps fun _ _ => rfl) fun _ => Keeps.pure _ _)
    · split
      · exact Triple.throw _
      · exact hk (Keeps.modify fun _ => rfl)
  refine Triple.ite (fun _ => ?_) fun _ => free_map_open_undenied
  refine Triple.bind (Triple.bind free_map_create_undenied fun _ => ?_) fun _ => free_map_open_undenied
  refine Triple.bind (hk (inode_create_keeps (fun _ _ => rfl) (fun _ _ => rfl) (fun _ _ => rfl) _ _))
    fun ok => Triple.ite (fun _ => Triple.throw_bind _) fun _ => ?_
  exact Triple.bind (hk (Keeps.get _)) fun _ => file_close_undenied _

end Boot

end Pintos.Filesys
