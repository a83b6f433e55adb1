import Pintos.Filesys.Filesys

/-!
# What a failed `filesys_create` leaves in the free map

`filesys_create` takes the inode's sector, then `inode_create` takes a run of
`bytes_to_sectors (initial_size)` data sectors, then `dir_add` writes the entry. When `dir_add`
fails (the name is empty, too long, or already there), the cleanup gives back the inode's
sector only: the data run stays marked in use, and no inode on the device records it any more.
-/

namespace Pintos.Filesys

open Bitmap EStateM

/-- The cleanup path of `filesys_create`, once `dir_add` has failed: the run of data sectors
that `inode_create` took was free before the call and is still in use after it. -/
theorem filesys_create_leaks_data_run {s s₁ s₂ s₃ s₄ s₅ s₆ : Fs} {d : Dir} {sector : Nat}
    {name : List UInt8} {initial_size : Int}
    (hdir : dir_open_root s = .ok (some d) s₁)
    (halloc : free_map_allocate 1 s₁ = .ok (some sector) s₂)
    (hcreate : inode_create sector initial_size s₂ = .ok true s₃)
    (hadd : dir_add d name sector s₃ = .ok false s₄) (hsector : sector ≠ 0)
    (hrelease : free_map_release sector 1 s₄ = .ok () s₅)
    (hroot : (s₅.open_inodes.find? (·.sector = ROOT_DIR_SECTOR)).map (·.removed) = some false)
    (hclose : dir_close (some d) s₅ = .ok () s₆) :
    filesys_create name initial_size s = .ok false s₆ ∧
      ∃ start, ∀ j < bytes_to_sectors initial_size,
        bitmap_test s.free_map (start + j) = false ∧ bitmap_test s₆.free_map (start + j) = true := by
  obtain ⟨hd, h₁⟩ := dir_open_root_some hdir
  obtain ⟨hfit, hfree, h₂⟩ := free_map_allocate_some halloc
  obtain ⟨start, hfit', hrun, h₃⟩ := inode_create_true hcreate
  have h₄ : s₄.free_map = s₃.free_map :=
    (dir_add_keeps (v := Fs.free_map) (fun _ _ => rfl) (fun _ _ => rfl) _ _ _).ok hadd
  have h₅ := free_map_release_ok hrelease
  obtain ⟨i, hi, hr⟩ := Option.map_eq_some_iff.mp hroot
  have h₆ : s₆.free_map = s₅.free_map := by
    rw [← hd] at hi
    exact inode_close_free_map hi hr hclose
  refine ⟨?_, start, fun j hj => ?_⟩
  · -- the failure path of the code, step by step
    unfold filesys_create
    rw [bind_ok hdir]
    simp only [bind_ok halloc, bind_ok hcreate, if_true, bind_ok hadd, pure_bind_apply,
      Bool.not_false, true_and, ne_eq, hsector, not_false_eq_true]
    rw [bind_ok hrelease, bind_ok hclose]
    rfl
  · -- the run was free when the call began, and only the inode's sector is given back
    have hsz₂ : bitmap_size s₂.free_map = bitmap_size s.free_map := by rw [h₂, h₁]; simp
    have hne : start + j ≠ sector := by
      intro heq
      have := hrun j hj
      rw [h₂, bitmap_test_set_multiple, if_pos (by omega)] at this
      cases this
    have hs₂ := hrun j hj
    rw [h₂, bitmap_test_set_multiple, if_neg (by omega), h₁] at hs₂
    refine ⟨hs₂, ?_⟩
    rw [h₆, h₅, bitmap_test_set_multiple, if_neg (by omega), h₄, h₃, bitmap_test_set_multiple,
      if_pos ⟨by omega, by omega, by omega⟩]

/-! ## Creating a name twice -/

/-- A device of 32 zeroed sectors after `filesys_init (true)`: the free map's data is sector 2,
the root directory's sector 3. -/
def fsFormatted : Fs := (formatted (fun _ _ => 0) 32 []).getD (fsBoot (fun _ _ => 0) 32 [])

/-- The name `"a"`. -/
def fileA : List UInt8 := [97]

/-- `"a"` created with 512 bytes: its inode is sector 4 and its data sector 5. -/
def fsA : Fs := (filesys_create fileA 512 fsFormatted).state

/-- The states along the second `filesys_create ("a", 512)`. -/
def leak₁ : Fs := (dir_open_root fsA).state

def leak₂ : Fs := (free_map_allocate 1 leak₁).state

def leak₃ : Fs := (inode_create 6 512 leak₂).state

def leak₄ : Fs := (dir_add ⟨ROOT_DIR_SECTOR, 0⟩ fileA 6 leak₃).state

def leak₅ : Fs := (free_map_release 6 1 leak₄).state

def leak₆ : Fs := (dir_close (some ⟨ROOT_DIR_SECTOR, 0⟩) leak₅).state

theorem filesys_create_leaks_data_run_of_existing_name :
    (dir_open_root fsA = .ok (some ⟨ROOT_DIR_SECTOR, 0⟩) leak₁ ∧
      free_map_allocate 1 leak₁ = .ok (some 6) leak₂ ∧ inode_create 6 512 leak₂ = .ok true leak₃ ∧
      dir_add ⟨ROOT_DIR_SECTOR, 0⟩ fileA 6 leak₃ = .ok false leak₄ ∧ (6 : Nat) ≠ 0 ∧
      free_map_release 6 1 leak₄ = .ok () leak₅ ∧
      (leak₅.open_inodes.find? (·.sector = ROOT_DIR_SECTOR)).map (·.removed) = some false ∧
      dir_close (some ⟨ROOT_DIR_SECTOR, 0⟩) leak₅ = .ok () leak₆) ∧
    filesys_create fileA 512 fsA = .ok false leak₆ ∧
      ∃ start, ∀ j < bytes_to_sectors 512,
        bitmap_test fsA.free_map (start + j) = false ∧ bitmap_test leak₆.free_map (start + j) = true := by
  have h₁ : dir_open_root fsA = .ok (some ⟨ROOT_DIR_SECTOR, 0⟩) leak₁ :=
    Result.eq_ok_of_value? (by decide +kernel)
  have h₂ : free_map_allocate 1 leak₁ = .ok (some 6) leak₂ := Result.eq_ok_of_value? (by decide +kernel)
  have h₃ : inode_create 6 512 leak₂ = .ok true leak₃ := Result.eq_ok_of_value? (by decide +kernel)
  have h₄ : dir_add ⟨ROOT_DIR_SECTOR, 0⟩ fileA 6 leak₃ = .ok false leak₄ :=
    Result.eq_ok_of_value? (by decide +kernel)
  have h₅ : free_map_release 6 1 leak₄ = .ok () leak₅ := Result.eq_ok_of_value? (by decide +kernel)
  have h₆ : (leak₅.open_inodes.find? (·.sector = ROOT_DIR_SECTOR)).map (·.removed) = some false := by
    decide +kernel
  have h₇ : dir_close (some ⟨ROOT_DIR_SECTOR, 0⟩) leak₅ = .ok () leak₆ :=
    Result.eq_ok_of_value? (by decide +kernel)
  exact ⟨⟨h₁, h₂, h₃, h₄, by decide, h₅, h₆, h₇⟩,
    filesys_create_leaks_data_run h₁ h₂ h₃ h₄ (by decide) h₅ h₆ h₇⟩

/-- The state after creating `"a"` a second time. -/
def fsB : Fs := (filesys_create fileA 512 fsA).state

/-- From a freshly formatted device, `create ("a", 512)` twice: the second fails, and sector 7
stays in use, though the only inodes are the free map's (data in 2), the root directory's
(data in 3) and `"a"`'s (sector 4, data in 5), and no removed file is open. -/
theorem create_of_existing_name_leaks_sector :
    formatted (fun _ _ => 0) 32 [] = some fsFormatted ∧
    fsRun fsFormatted [.create fileA 512, .create fileA 512] = some fsB ∧
    (List.range 32).filter (bitmap_test fsB.free_map ·) = [0, 1, 2, 3, 4, 5, 7] ∧
    (dirEntries fsB (fsB.diskInode ROOT_DIR_SECTOR)).filter (·.in_use) = [⟨4, fileA, true⟩] ∧
    fsB.diskInode FREE_MAP_SECTOR = ⟨2, 4, INODE_MAGIC⟩ ∧
    fsB.diskInode ROOT_DIR_SECTOR = ⟨3, 320, INODE_MAGIC⟩ ∧ fsB.diskInode 4 = ⟨5, 512, INODE_MAGIC⟩ ∧
    fsB.open_inodes.map (·.sector) = [FREE_MAP_SECTOR] := by
  have hfmt : (formatted (fun _ _ => 0) 32 []).isSome = true := by decide +kernel
  obtain ⟨s₀, hs₀⟩ := Option.isSome_iff_exists.mp hfmt
  have hA : filesys_create fileA 512 fsFormatted = .ok true fsA :=
    Result.eq_ok_of_value? (by decide +kernel)
  have hB : filesys_create fileA 512 fsA = .ok false fsB := Result.eq_ok_of_value? (by decide +kernel)
  refine ⟨by simp [fsFormatted, hs₀], ?_, by decide +kernel, by decide +kernel, by decide +kernel,
    by decide +kernel, by decide +kernel, by decide +kernel⟩
  simp [fsRun, fsStep, hA, hB]

end Pintos.Filesys
