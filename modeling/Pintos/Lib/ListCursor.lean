import Mathlib.Data.List.Nodup

/-!
# Keyed lists with a cursor

A list of records, each named by a key (for an intrusive C list: the address of the record),
with a cursor that names an element or stands at the end (`none`). `nextKey` is `list_next`
on such a list: the key of the element after the first one with key `k`. `updateFirst` is the
search loop that changes the first matching element and stops.

`CursorValid` says the cursor is at the end or names an element. The lemmas say which list
operations keep it valid: `nextKey` always lands on a valid position, appending keeps a valid
cursor, and erasing keeps it unless the erased element is the one it names.
-/

namespace List

variable {α κ : Type*} (key : α → κ)

/-- The key of the element after the first one with key `k`, `none` past the end. -/
def nextKey [DecidableEq κ] : List α → κ → Option κ
  | [], _ => none
  | a :: l, k => if key a = k then l.head?.map key else nextKey l k

/-- Change the first element that satisfies `p`. -/
def updateFirst (p : α → Bool) (f : α → α) : List α → List α
  | [] => []
  | a :: l => if p a then f a :: l else a :: updateFirst p f l

/-- The cursor `c` is at the end of `l` or names one of its elements. -/
def CursorValid (l : List α) : Option κ → Prop
  | none => True
  | some k => ∃ a ∈ l, key a = k

variable {key}

instance [DecidableEq κ] (l : List α) : (c : Option κ) → Decidable (CursorValid key l c)
  | none => isTrue trivial
  | some k => inferInstanceAs (Decidable (∃ a ∈ l, key a = k))

@[simp] theorem cursorValid_none (l : List α) : CursorValid key l none := trivial

theorem cursorValid_some {l : List α} {k : κ} : CursorValid key l (some k) ↔ ∃ a ∈ l, key a = k :=
  Iff.rfl

theorem nextKey_valid [DecidableEq κ] : ∀ (l : List α) (k : κ), CursorValid key l (nextKey key l k)
  | [], _ => trivial
  | a :: l, k => by
    unfold nextKey
    split
    · cases l with
      | nil => trivial
      | cons b l => exact ⟨b, by simp, rfl⟩
    · cases h : nextKey key l k with
      | none => trivial
      | some k' =>
        have := nextKey_valid l k
        rw [h] at this
        obtain ⟨b, hb, hk⟩ := this
        exact ⟨b, List.mem_cons_of_mem _ hb, hk⟩

/-- In a list with distinct keys, the element after `k` is not `k` itself. -/
theorem nextKey_ne [DecidableEq κ] : ∀ {l : List α} {k : κ}, (l.map key).Nodup → nextKey key l k ≠ some k
  | [], _, _ => nofun
  | a :: l, k, hnd => by
    rw [List.map_cons, List.nodup_cons] at hnd
    unfold nextKey
    split
    · rename_i hk
      cases l with
      | nil => nofun
      | cons b l =>
        intro h
        simp only [List.head?_cons, Option.map_some, Option.some.injEq] at h
        exact hnd.1 (hk ▸ h ▸ by simp)
    · exact nextKey_ne hnd.2

/-- Validity depends on the keys only. -/
theorem CursorValid.of_map_eq {l l' : List α} {c : Option κ} (h : CursorValid key l c)
    (hl : l'.map key = l.map key) : CursorValid key l' c := by
  cases c with
  | none => trivial
  | some k =>
    obtain ⟨a, ha, hk⟩ := h
    have hmem : k ∈ l'.map key := hl ▸ hk ▸ List.mem_map_of_mem ha
    obtain ⟨b, hb, hbk⟩ := List.mem_map.mp hmem
    exact ⟨b, hb, hbk⟩

theorem CursorValid.append {l : List α} {c : Option κ} (h : CursorValid key l c) (l' : List α) :
    CursorValid key (l ++ l') c := by
  cases c with
  | none => trivial
  | some k =>
    obtain ⟨a, ha, hk⟩ := h
    exact ⟨a, List.mem_append_left _ ha, hk⟩

/-- Erasing the only element with key `k` leaves a cursor on `k` dangling. -/
theorem not_cursorValid_eraseP {l : List α} {k : κ} {p : α → Bool} (hnd : (l.map key).Nodup)
    {a : α} (hfind : l.find? p = some a) (hk : key a = k) :
    ¬ CursorValid key (l.eraseP p) (some k) := by
  rintro ⟨b, hb, hbk⟩
  obtain ⟨hpa, l₁, l₂, rfl, hl₁⟩ := List.find?_eq_some_iff_append.mp hfind
  rw [List.eraseP_append_right _ (by simpa using hl₁), List.eraseP_cons_of_pos hpa] at hb
  -- `b` survives the erasure and shares `a`'s key, against the distinct keys
  rw [List.map_append, List.map_cons, List.nodup_middle, List.nodup_cons] at hnd
  have hmem : key b ∈ (l₁ ++ l₂).map key := List.mem_map_of_mem hb
  rw [List.map_append, hbk, ← hk] at hmem
  exact hnd.1 hmem

/-- Erasing the first element that satisfies `p` keeps a cursor that does not name it. -/
theorem CursorValid.eraseP_of_find? {l : List α} {k : κ} {p : α → Bool}
    (h : CursorValid key l (some k)) (hfind : ∀ a, l.find? p = some a → key a ≠ k) :
    CursorValid key (l.eraseP p) (some k) := by
  obtain ⟨b, hb, hbk⟩ := h
  refine ⟨b, ?_, hbk⟩
  cases hf : l.find? p with
  | none =>
    rw [List.eraseP_of_forall_not (by simpa using List.find?_eq_none.mp hf)]
    exact hb
  | some a =>
    obtain ⟨hpa, l₁, l₂, rfl, hl₁⟩ := List.find?_eq_some_iff_append.mp hf
    rw [List.eraseP_append_right _ (by simpa using hl₁), List.eraseP_cons_of_pos hpa]
    have hba : b ≠ a := fun h => hfind a hf (h ▸ hbk)
    rcases List.mem_append.mp hb with hb₁ | hb₂
    · exact List.mem_append_left _ hb₁
    · exact List.mem_append_right _ ((List.mem_cons.mp hb₂).resolve_left hba)

/-- In a list with distinct keys, the search for an element's key finds that element. -/
theorem find?_key_of_mem [DecidableEq κ] : ∀ {l : List α}, (l.map key).Nodup → ∀ {a : α}, a ∈ l →
    l.find? (fun b => key b = key a) = some a
  | [], _, _, ha => nomatch ha
  | b :: l, hnd, a, ha => by
    rw [List.map_cons, List.nodup_cons] at hnd
    rcases List.mem_cons.mp ha with rfl | ha'
    · simp
    · have hne : key b ≠ key a := fun h => hnd.1 (h ▸ List.mem_map_of_mem ha')
      rw [List.find?_cons_of_neg (by simpa using hne)]
      exact find?_key_of_mem hnd.2 ha'

/-- `list_next` of an element whose key is not found before it. -/
theorem nextKey_append_cons [DecidableEq κ] (a : α) (l₂ : List α) :
    ∀ {l₁ : List α}, (∀ b ∈ l₁, key b ≠ key a) →
      nextKey key (l₁ ++ a :: l₂) (key a) = l₂.head?.map key
  | [], _ => by simp [nextKey]
  | b :: l₁, h => by
    rw [List.cons_append, nextKey, if_neg (h b List.mem_cons_self)]
    exact nextKey_append_cons a l₂ fun b' hb' => h b' (List.mem_cons_of_mem _ hb')

theorem map_updateFirst_of_key (p : α → Bool) (f : α → α) (hf : ∀ a, key (f a) = key a) :
    ∀ l : List α, (l.updateFirst p f).map key = l.map key
  | [] => rfl
  | a :: l => by
    unfold updateFirst
    split <;> simp [hf, map_updateFirst_of_key p f hf l]

/-- Looking up `k'` after updating in place the elements with key `k`. -/
theorem find?_map_update [DecidableEq κ] (f : α → α) (hf : ∀ a, key (f a) = key a) (k k' : κ) :
    ∀ l : List α, (l.map fun a => if key a = k then f a else a).find? (fun a => key a = k') =
      if k' = k then (l.find? fun a => key a = k).map f else l.find? fun a => key a = k'
  | [] => by split <;> rfl
  | a :: l => by
    have ih := find?_map_update f hf k k' l
    rw [List.map_cons, List.find?_cons, List.find?_cons, List.find?_cons, ih]
    by_cases ha : key a = k
    · -- `a` is updated and keeps its key
      have hfa : key (f a) = k := (hf a).trans ha
      by_cases hk : k' = k
      · subst hk
        simp [ha, hfa]
      · have h₁ : key (f a) ≠ k' := fun h => hk (h.symm.trans hfa)
        simp [ha, h₁, hk, Ne.symm hk]
    · by_cases hk : k' = k
      · subst hk
        simp [ha]
      · simp [ha, hk]

/-- A `filterMap` is without repeats when no two elements of a list without repeats give the
same value. -/
theorem nodup_filterMap_of_inj_on {β : Type*} {f : α → Option β} :
    ∀ {l : List α}, l.Nodup → (∀ a ∈ l, ∀ a' ∈ l, ∀ b ∈ f a, b ∈ f a' → a = a') → (l.filterMap f).Nodup
  | [], _, _ => List.nodup_nil
  | a :: l, hl, h => by
    rw [List.nodup_cons] at hl
    have ih := nodup_filterMap_of_inj_on hl.2 fun a ha a' ha' =>
      h a (List.mem_cons_of_mem _ ha) a' (List.mem_cons_of_mem _ ha')
    cases hfa : f a with
    | none => simpa [List.filterMap_cons, hfa] using ih
    | some b =>
      rw [List.filterMap_cons, hfa]
      refine List.nodup_cons.mpr ⟨fun hb => ?_, ih⟩
      obtain ⟨a', ha', hfa'⟩ := List.mem_filterMap.mp hb
      have := h a List.mem_cons_self a' (List.mem_cons_of_mem _ ha') b hfa hfa'
      exact hl.1 (this ▸ ha')

end List
