import Pintos.Userprog.PageTable

/-!
# A page directory over a process's lifetime (`userprog/pagedir.c`)

`pagedir_create`, then any sequence of `pagedir_set_page`, `pagedir_clear_page`,
`pagedir_set_dirty` and `pagedir_set_accessed` on user pages, as a transition system on kernel
memory (`PtStep`). Its ghost state is the kernel half that `pagedir_create` copied and the map
the directory stands for; every state a run reaches keeps `Abstracts` (`PtInv`).

`PageHist` is what the calls made of one page, read off the calls alone: the frame and writable
flag of its last installation unless it was cleared since, and the dirty and accessed bits set
since that installation. Along every run the map agrees with it (`HistAgrees`), so the word-level
functions return what the history says.
-/

namespace Pintos

namespace PageTable

/-- A call on a page directory. `pt` is what `palloc_get_page (PAL_ZERO)` returns to
`lookup_page` if a page table is missing; `ok` is what `pagedir_set_page` returns. -/
inductive PtOp
  | set_page (upage kpage : Nat) (writable : Bool) (pt : Option Nat) (ok : Bool)
  | clear_page (upage : Nat)
  | set_dirty (vpage : Nat) (dirty : Bool)
  | set_accessed (vpage : Nat) (accessed : Bool)

/-- The page a call is about. -/
def PtOp.page : PtOp → Nat
  | .set_page upage .. => pg_round_down upage
  | .clear_page upage => pg_round_down upage
  | .set_dirty vpage _ => pg_round_down vpage
  | .set_accessed vpage _ => pg_round_down vpage

/-- A page directory in kernel memory, with two ghost fields: the kernel half it was created
with, and the map it stands for. -/
structure PtSys where
  mem : WordMem
  pd : Nat
  kernel_pdes : Nat → UInt32
  pagedir : Pagedir

/-- The map the abstract `pagedir_set_page` leaves, the old one where it would fail its
`ASSERT`. -/
def setPageMap (a : Pagedir) (upage kpage : Nat) (writable ptPage : Bool) : Pagedir :=
  ((Pintos.pagedir_set_page a upage kpage writable ptPage).map Prod.snd).getD a

section System

variable (init_page_dir init_ram_pages : Nat)

/-- `pagedir_create ()` given the page `pd` by `palloc_get_page`, in a memory whose
`init_page_dir` maps no user page. -/
inductive PtInit : PtSys → Prop
  | create {m₀ : WordMem} {pd : Nat} :
      KernelPage pd → pd ≠ init_page_dir → (∀ i < 768, m₀ (init_page_dir + 4 * i) = 0) →
      PtInit ⟨(pagedir_create m₀ init_page_dir (some pd)).2, pd, fun i => m₀ (init_page_dir + 4 * i),
        Pagedir.empty⟩

/-- One call on a user page. `pagedir_set_page` is called as its comment asks: `upage` is not
mapped yet and `kpage` is a kernel page of RAM. A new page table comes from a page that is
neither the directory nor one of its page tables. -/
inductive PtStep : PtSys → PtOp → PtSys → Prop
  | set_page {s : PtSys} {upage kpage : Nat} {writable : Bool} {pt : Option Nat} {ok : Bool}
      {m : WordMem} :
      upage < PHYS_BASE → pg_ofs upage = 0 → KernelPage kpage →
      (vtop kpage).toNat / PGSIZE < init_ram_pages →
      pagedir_get_page s.mem s.pd upage = .ok none →
      (∀ p, pt = some p → Fresh s.mem s.pd p) →
      pagedir_set_page s.mem init_page_dir init_ram_pages s.pd upage kpage writable pt = .ok (ok, m) →
      PtStep s (.set_page upage kpage writable pt ok)
        { s with mem := m, pagedir := setPageMap s.pagedir upage kpage writable pt.isSome }
  | clear_page {s : PtSys} {upage : Nat} {m : WordMem} :
      upage < PHYS_BASE → pagedir_clear_page s.mem s.pd upage = .ok m →
      PtStep s (.clear_page upage) { s with mem := m, pagedir := Pintos.pagedir_clear_page s.pagedir upage }
  | set_dirty {s : PtSys} {vpage : Nat} {dirty : Bool} :
      vpage < PHYS_BASE →
      PtStep s (.set_dirty vpage dirty)
        { s with mem := pagedir_set_dirty s.mem s.pd vpage dirty
                 pagedir := Pintos.pagedir_set_dirty s.pagedir vpage dirty }
  | set_accessed {s : PtSys} {vpage : Nat} {accessed : Bool} :
      vpage < PHYS_BASE →
      PtStep s (.set_accessed vpage accessed)
        { s with mem := pagedir_set_accessed s.mem s.pd vpage accessed
                 pagedir := Pintos.pagedir_set_accessed s.pagedir vpage accessed }

/-- What holds of every directory a run reaches: it stands for its ghost map, and its kernel
half is the one it was created with. -/
structure PtInv (s : PtSys) : Prop where
  abstracts : Abstracts s.mem s.pd s.pagedir
  kernel : ∀ i, 768 ≤ i → i < 1024 → s.mem (s.pd + 4 * i) = s.kernel_pdes i
  not_init : s.pd ≠ init_page_dir

end System

section Invariant

variable {init_page_dir init_ram_pages : Nat} {s s' : PtSys} {op : PtOp}

theorem PtInv.init (h : PtInit init_page_dir s) : PtInv init_page_dir s := by
  cases h with
  | create hpd hne huser =>
    exact ⟨pagedir_create_abstracts hpd huser, fun _ _ hi => pagedir_create_copy _ _ _ hi, hne⟩

/-- The page `pagedir_get_page` finds unmapped has no present entry in the map. -/
theorem PtInv.not_present (hs : PtInv init_page_dir s) {upage : Nat} (hva : upage < PHYS_BASE)
    (hnone : pagedir_get_page s.mem s.pd upage = .ok none) : (s.pagedir.entry upage).present = false := by
  have hget := hs.abstracts.get_page_eq hva
  rw [hnone] at hget
  have hnil := (Except.ok.inj hget).symm
  cases hp : (s.pagedir.entry upage).present
  · rfl
  · exact absurd (pagedir_get_page_isSome.mpr hp) (by rw [hnil]; decide)

/-- The abstract `pagedir_set_page` behind a step's `set_page`: it succeeds as the code did. -/
theorem PtInv.set_page_abstract (hs : PtInv init_page_dir s) {upage kpage : Nat} {writable : Bool}
    {pt : Option Nat} {ok : Bool} {m : WordMem} (hva : upage < PHYS_BASE) (hofs : pg_ofs upage = 0)
    (hk : KernelPage kpage) (hram : (vtop kpage).toNat / PGSIZE < init_ram_pages)
    (hnone : pagedir_get_page s.mem s.pd upage = .ok none) (hpt : ∀ p, pt = some p → Fresh s.mem s.pd p)
    (hset : pagedir_set_page s.mem init_page_dir init_ram_pages s.pd upage kpage writable pt = .ok (ok, m)) :
    Pintos.pagedir_set_page s.pagedir upage kpage writable pt.isSome =
        some (ok, setPageMap s.pagedir upage kpage writable pt.isSome) ∧
      Abstracts m s.pd (setPageMap s.pagedir upage kpage writable pt.isSome) ∧ SameKernelHalf s.pd s.mem m := by
  have hnp := hs.not_present hva hnone
  obtain ⟨b, m', a', hc, habs, h', hkern⟩ := hs.abstracts.set_page writable hva hofs hk hram hs.not_init hnp hpt
  rw [hset] at hc
  obtain ⟨rfl, rfl⟩ := Prod.mk.inj (Except.ok.inj hc)
  have hmap : setPageMap s.pagedir upage kpage writable pt.isSome = a' := by
    rw [setPageMap, habs]
    rfl
  rw [hmap]
  exact ⟨habs, h', hkern⟩

theorem PtInv.step (hs : PtInv init_page_dir s) (h : PtStep init_page_dir init_ram_pages s op s') :
    PtInv init_page_dir s' := by
  have ha := hs.abstracts
  -- every call keeps the kernel half, so the invariant is the new `Abstracts` and that
  have keep : ∀ {m : WordMem}, SameKernelHalf s.pd s.mem m →
      ∀ i, 768 ≤ i → i < 1024 → m (s.pd + 4 * i) = s.kernel_pdes i :=
    fun hk i hi hi' => (hk i hi hi').trans (hs.kernel i hi hi')
  cases h with
  | set_page hva hofs hk hram hnone hpt hset =>
    obtain ⟨-, h', hkern⟩ := hs.set_page_abstract hva hofs hk hram hnone hpt hset
    exact ⟨h', keep hkern, hs.not_init⟩
  | clear_page hva hclear =>
    obtain ⟨m', hc, h', hkern⟩ := ha.clear_page hva (pagedir_clear_page_ofs hclear)
    rw [hclear] at hc
    cases hc
    exact ⟨h', keep hkern, hs.not_init⟩
  | set_dirty hva =>
    obtain ⟨h', hkern⟩ := ha.set_dirty hva _
    exact ⟨h', keep hkern, hs.not_init⟩
  | set_accessed hva =>
    obtain ⟨h', hkern⟩ := ha.set_accessed hva _
    exact ⟨h', keep hkern, hs.not_init⟩

/-- Called as `PtStep` asks, `pagedir_set_page` passes its `ASSERT`s, and it returns `true`
exactly when the page table is there or the allocation succeeded. -/
theorem PtInv.set_page_step (hs : PtInv init_page_dir s) {upage kpage : Nat} {writable : Bool}
    {pt : Option Nat} (hva : upage < PHYS_BASE) (hofs : pg_ofs upage = 0) (hk : KernelPage kpage)
    (hram : (vtop kpage).toNat / PGSIZE < init_ram_pages)
    (hnone : pagedir_get_page s.mem s.pd upage = .ok none) (hpt : ∀ p, pt = some p → Fresh s.mem s.pd p) :
    ∃ s', PtStep init_page_dir init_ram_pages s
      (.set_page upage kpage writable pt (decide (s.pagedir.hasTable upage) || pt.isSome)) s' := by
  obtain ⟨b, m', a', hc, habs, -⟩ :=
    hs.abstracts.set_page writable hva hofs hk hram hs.not_init (hs.not_present hva hnone) hpt
  rw [Pintos.pagedir_set_page_ok habs] at hc
  exact ⟨_, .set_page hva hofs hk hram hnone hpt hc⟩

/-- `pagedir_clear_page` of an aligned user page passes its `ASSERT`s. -/
theorem PtInv.clear_page_step (hs : PtInv init_page_dir s) {upage : Nat} (hva : upage < PHYS_BASE)
    (hofs : pg_ofs upage = 0) : ∃ s', PtStep init_page_dir init_ram_pages s (.clear_page upage) s' := by
  obtain ⟨m', hc, -⟩ := hs.abstracts.clear_page hva hofs
  exact ⟨_, .clear_page hva hc⟩

theorem PtStep.kernel_pdes (h : PtStep init_page_dir init_ram_pages s op s') :
    s'.pd = s.pd ∧ s'.kernel_pdes = s.kernel_pdes := by
  cases h <;> exact ⟨rfl, rfl⟩

/-- A call changes the map's entry of its own page and of no other. -/
theorem PtStep.entry_of_ne (hs : PtInv init_page_dir s) (h : PtStep init_page_dir init_ram_pages s op s')
    {va : Nat} (hne : pg_round_down va ≠ op.page) : s'.pagedir.entry va = s.pagedir.entry va := by
  cases h with
  | @set_page upage kpage writable pt ok m hva hofs hk hram hnone hpt hset =>
    replace hne : pg_round_down va ≠ pg_round_down upage := hne
    obtain ⟨habs, -⟩ := hs.set_page_abstract hva hofs hk hram hnone hpt hset
    show (setPageMap _ _ _ _ _).entry va = _
    cases ok with
    | true => rw [((Pintos.pagedir_set_page_entry habs).1 rfl).2.2 va, if_neg hne]
    | false => rw [(Pintos.pagedir_set_page_entry habs).2 rfl]
  | @clear_page upage m =>
    replace hne : pg_round_down va ≠ pg_round_down upage := hne
    show (Pintos.pagedir_clear_page _ _).entry va = _
    rw [Pintos.pagedir_clear_page_entry, if_neg hne]
  | @set_dirty vpage dirty =>
    replace hne : pg_round_down va ≠ pg_round_down vpage := hne
    show (Pintos.pagedir_set_dirty _ _ _).entry va = _
    rw [Pintos.pagedir_set_dirty_entry, if_neg fun hc => hne hc.2]
  | @set_accessed vpage accessed =>
    replace hne : pg_round_down va ≠ pg_round_down vpage := hne
    show (Pintos.pagedir_set_accessed _ _ _).entry va = _
    rw [Pintos.pagedir_set_accessed_entry, if_neg fun hc => hne hc.2]

end Invariant

/-! ## What the calls made of a page -/

/-- The history of one page: the frame and writable flag of its last installation unless it was
cleared since, the dirty and accessed bits last set since that installation, and whether it was
ever installed. -/
structure PageHist where
  installed : Option (Nat × Bool)
  dirty : Bool
  accessed : Bool
  ever : Bool

def PageHist.empty : PageHist := ⟨none, false, false, false⟩

/-- The history of `va`'s page after one more call. -/
def PageHist.step (va : Nat) (h : PageHist) : PtOp → PageHist
  | .set_page upage kpage writable _ ok =>
    if ok = true ∧ pg_round_down va = pg_round_down upage then ⟨some (kpage, writable), false, false, true⟩
    else h
  | .clear_page upage =>
    if pg_round_down va = pg_round_down upage then { h with installed := none } else h
  | .set_dirty vpage dirty =>
    if pg_round_down va = pg_round_down vpage then { h with dirty := dirty } else h
  | .set_accessed vpage accessed =>
    if pg_round_down va = pg_round_down vpage then { h with accessed := accessed } else h

/-- The history of `va`'s page after the calls `ops`, oldest first. -/
def pageHist (ops : List PtOp) (va : Nat) : PageHist := ops.foldl (PageHist.step va) PageHist.empty

/-- A call on another page leaves a page's history as it was. -/
theorem PageHist.step_of_ne {va : Nat} (h : PageHist) {op : PtOp} (hne : pg_round_down va ≠ op.page) :
    h.step va op = h := by
  cases op <;> simp only [PtOp.page] at hne <;> simp [PageHist.step, hne]

/-- The map's entry of `va` is what the history `h` says. -/
structure HistAgrees (a : Pagedir) (va : Nat) (h : PageHist) : Prop where
  installed : h.installed =
    if (a.entry va).present then some ((a.entry va).kpage, (a.entry va).writable) else none
  ever : h.ever = true → a.hasTable va ∧ (a.entry va).dirty = h.dirty ∧ (a.entry va).accessed = h.accessed

section History

variable {a : Pagedir} {va : Nat} {h : PageHist}

theorem HistAgrees.empty (va : Nat) : HistAgrees Pagedir.empty va PageHist.empty where
  installed := rfl
  ever hf := absurd hf (by decide)

/-- Agreement carries over to a map with the same entry of `va` and at least its tables. -/
theorem HistAgrees.of_entry (hh : HistAgrees a va h) {a' : Pagedir} (he : a'.entry va = a.entry va)
    (ht : a.hasTable va → a'.hasTable va) : HistAgrees a' va h :=
  ⟨by rw [he]; exact hh.installed, fun hev => by rw [he]; exact (hh.ever hev).imp_left ht⟩

theorem HistAgrees.set_page (hh : HistAgrees a va h) {upage kpage : Nat} {writable : Bool}
    {pt : Option Nat} {ok : Bool} {a' : Pagedir}
    (habs : Pintos.pagedir_set_page a upage kpage writable pt.isSome = some (ok, a')) :
    HistAgrees a' va (h.step va (.set_page upage kpage writable pt ok)) := by
  obtain ⟨hok, hfail⟩ := Pintos.pagedir_set_page_entry habs
  cases ok with
  | false =>
    rw [hfail rfl]
    exact hh
  | true =>
    obtain ⟨htab, hmono, hentry⟩ := hok rfl
    by_cases hpg : pg_round_down va = pg_round_down upage
    · -- `va`'s page is the one installed: a fresh user entry in an existing table
      have hstep : h.step va (.set_page upage kpage writable pt true) =
          ⟨some (kpage, writable), false, false, true⟩ := if_pos ⟨rfl, hpg⟩
      have he : a'.entry va = Pintos.pte_create_user kpage writable := by rw [hentry, if_pos hpg]
      rw [hstep]
      exact ⟨by rw [he]; rfl, fun _ => ⟨(a'.hasTable_congr hpg).mpr htab, by rw [he]; rfl, by rw [he]; rfl⟩⟩
    · have hstep : h.step va (.set_page upage kpage writable pt true) = h := if_neg fun hc => hpg hc.2
      rw [hstep]
      exact hh.of_entry (by rw [hentry, if_neg hpg]) (hmono va)

theorem HistAgrees.clear_page (hh : HistAgrees a va h) (upage : Nat) :
    HistAgrees (Pintos.pagedir_clear_page a upage) va (h.step va (.clear_page upage)) := by
  have htab : a.hasTable va → (Pintos.pagedir_clear_page a upage).hasTable va := by
    unfold Pagedir.hasTable
    rw [Pintos.pagedir_clear_page_tables]
    exact id
  by_cases hpg : pg_round_down va = pg_round_down upage
  · have hstep : h.step va (.clear_page upage) = { h with installed := none } := if_pos hpg
    have he : (Pintos.pagedir_clear_page a upage).entry va = { a.entry va with present := false } := by
      rw [Pintos.pagedir_clear_page_entry, if_pos hpg]
    rw [hstep]
    refine ⟨by rw [he]; rfl, fun hev => ?_⟩
    obtain ⟨ht, hd, hac⟩ := hh.ever hev
    rw [he]
    exact ⟨htab ht, hd, hac⟩
  · have hstep : h.step va (.clear_page upage) = h := if_neg hpg
    rw [hstep]
    exact hh.of_entry (by rw [Pintos.pagedir_clear_page_entry, if_neg hpg]) htab

/-- A flag set on a page without a page table changes nothing; such a page was never installed,
so its history's flag does not count. -/
theorem HistAgrees.not_ever (hh : HistAgrees a va h) {vpage : Nat}
    (hpg : pg_round_down va = pg_round_down vpage) (ht : ¬a.hasTable vpage) : h.ever = false := by
  cases hev : h.ever
  · rfl
  · exact absurd ((a.hasTable_congr hpg).mp (hh.ever hev).1) ht

theorem HistAgrees.set_dirty (hh : HistAgrees a va h) (vpage : Nat) (dirty : Bool) :
    HistAgrees (Pintos.pagedir_set_dirty a vpage dirty) va (h.step va (.set_dirty vpage dirty)) := by
  have htab : a.hasTable va → (Pintos.pagedir_set_dirty a vpage dirty).hasTable va := by
    unfold Pagedir.hasTable
    rw [Pintos.pagedir_set_dirty_tables]
    exact id
  by_cases hpg : pg_round_down va = pg_round_down vpage
  · have hstep : h.step va (.set_dirty vpage dirty) = { h with dirty := dirty } := if_pos hpg
    rw [hstep]
    by_cases ht : a.hasTable vpage
    · have he : (Pintos.pagedir_set_dirty a vpage dirty).entry va = { a.entry va with dirty := dirty } := by
        rw [Pintos.pagedir_set_dirty_entry, if_pos ⟨ht, hpg⟩]
      refine ⟨by rw [he]; exact hh.installed, fun hev => ?_⟩
      obtain ⟨hta, -, hac⟩ := hh.ever hev
      rw [he]
      exact ⟨htab hta, rfl, hac⟩
    · have hnev := hh.not_ever hpg ht
      have he : (Pintos.pagedir_set_dirty a vpage dirty).entry va = a.entry va := by
        rw [Pintos.pagedir_set_dirty_entry, if_neg fun hc => ht hc.1]
      exact ⟨by rw [he]; exact hh.installed, fun hev => absurd (hev.symm.trans hnev) (by decide)⟩
  · have hstep : h.step va (.set_dirty vpage dirty) = h := if_neg hpg
    rw [hstep]
    exact hh.of_entry (by rw [Pintos.pagedir_set_dirty_entry, if_neg fun hc => hpg hc.2]) htab

theorem HistAgrees.set_accessed (hh : HistAgrees a va h) (vpage : Nat) (accessed : Bool) :
    HistAgrees (Pintos.pagedir_set_accessed a vpage accessed) va (h.step va (.set_accessed vpage accessed)) := by
  have htab : a.hasTable va → (Pintos.pagedir_set_accessed a vpage accessed).hasTable va := by
    unfold Pagedir.hasTable
    rw [Pintos.pagedir_set_accessed_tables]
    exact id
  by_cases hpg : pg_round_down va = pg_round_down vpage
  · have hstep : h.step va (.set_accessed vpage accessed) = { h with accessed := accessed } := if_pos hpg
    rw [hstep]
    by_cases ht : a.hasTable vpage
    · have he : (Pintos.pagedir_set_accessed a vpage accessed).entry va =
          { a.entry va with accessed := accessed } := by
        rw [Pintos.pagedir_set_accessed_entry, if_pos ⟨ht, hpg⟩]
      refine ⟨by rw [he]; exact hh.installed, fun hev => ?_⟩
      obtain ⟨hta, hd, -⟩ := hh.ever hev
      rw [he]
      exact ⟨htab hta, hd, rfl⟩
    · have hnev := hh.not_ever hpg ht
      have he : (Pintos.pagedir_set_accessed a vpage accessed).entry va = a.entry va := by
        rw [Pintos.pagedir_set_accessed_entry, if_neg fun hc => ht hc.1]
      exact ⟨by rw [he]; exact hh.installed, fun hev => absurd (hev.symm.trans hnev) (by decide)⟩
  · have hstep : h.step va (.set_accessed vpage accessed) = h := if_neg hpg
    rw [hstep]
    exact hh.of_entry (by rw [Pintos.pagedir_set_accessed_entry, if_neg fun hc => hpg hc.2]) htab

end History

/-! ## Along a run -/

section Run

variable {init_page_dir init_ram_pages : Nat} {s s' s₀ : PtSys} {op : PtOp} {ops : List PtOp}

theorem HistAgrees.step {va : Nat} {H : PageHist} (hh : HistAgrees s.pagedir va H)
    (hs : PtInv init_page_dir s) (h : PtStep init_page_dir init_ram_pages s op s') :
    HistAgrees s'.pagedir va (H.step va op) := by
  cases h with
  | set_page hva hofs hk hram hnone hpt hset =>
    exact hh.set_page (hs.set_page_abstract hva hofs hk hram hnone hpt hset).1
  | clear_page => exact hh.clear_page _
  | set_dirty => exact hh.set_dirty _ _
  | set_accessed => exact hh.set_accessed _ _

/-- Along a run the invariant holds, the directory and its kernel half stay, and every page's
entry agrees with what the calls made of it. The induction is on the run, with the histories
it starts from as a parameter. -/
theorem PtInv.run (hr : Lts.Run (PtStep init_page_dir init_ram_pages) s ops s') (hs : PtInv init_page_dir s)
    {H : Nat → PageHist} (hh : ∀ va, HistAgrees s.pagedir va (H va)) :
    PtInv init_page_dir s' ∧ s'.pd = s.pd ∧ s'.kernel_pdes = s.kernel_pdes ∧
      ∀ va, HistAgrees s'.pagedir va (ops.foldl (PageHist.step va) (H va)) := by
  induction hr generalizing H with
  | nil => exact ⟨hs, rfl, rfl, hh⟩
  | cons hstep _ ih =>
    obtain ⟨hpd, hk⟩ := hstep.kernel_pdes
    obtain ⟨hinv, hpd', hk', hh'⟩ := ih (hs.step hstep) (H := fun va => (H va).step va _)
      fun va => (hh va).step hs hstep
    exact ⟨hinv, hpd'.trans hpd, hk'.trans hk, hh'⟩

theorem PtInv.history (h₀ : PtInit init_page_dir s₀)
    (hr : Lts.Run (PtStep init_page_dir init_ram_pages) s₀ ops s) :
    PtInv init_page_dir s ∧ s.pd = s₀.pd ∧ s.kernel_pdes = s₀.kernel_pdes ∧
      ∀ va, HistAgrees s.pagedir va (pageHist ops va) := by
  have hempty : s₀.pagedir = Pagedir.empty := by
    cases h₀
    rfl
  exact (PtInv.init h₀).run hr fun va => hempty ▸ HistAgrees.empty va

theorem HistAgrees.get_page {a : Pagedir} {va : Nat} {h : PageHist} (hh : HistAgrees a va h) :
    Pintos.pagedir_get_page a va = h.installed.map fun kw => kw.1 + pg_ofs va := by
  rw [hh.installed]
  unfold Pintos.pagedir_get_page
  split <;> rfl

theorem HistAgrees.presentFrame_eq {a : Pagedir} {va : Nat} {h : PageHist} (hh : HistAgrees a va h) :
    presentFrame a va = h.installed.map Prod.fst := by
  rw [hh.installed]
  unfold presentFrame
  split <;> rfl

theorem HistAgrees.present {a : Pagedir} {va : Nat} {h : PageHist} (hh : HistAgrees a va h)
    {kpage : Nat} {writable : Bool} (hin : h.installed = some (kpage, writable)) :
    (a.entry va).present = true ∧ (a.entry va).writable = writable := by
  rw [hh.installed] at hin
  split at hin
  · cases hin
    exact ⟨‹_›, rfl⟩
  · cases hin

/-- A call changes what the word-level functions say of its own page only. -/
theorem PtStep.observe_of_ne (hs : PtInv init_page_dir s) (h : PtStep init_page_dir init_ram_pages s op s')
    {va : Nat} (hva : va < PHYS_BASE) (hne : pg_round_down va ≠ op.page) :
    pagedir_get_page s'.mem s'.pd va = pagedir_get_page s.mem s.pd va ∧
      pagedir_is_dirty s'.mem s'.pd va = pagedir_is_dirty s.mem s.pd va ∧
      pagedir_is_accessed s'.mem s'.pd va = pagedir_is_accessed s.mem s.pd va := by
  have he := h.entry_of_ne hs hne
  have hs' := hs.step h
  rw [hs'.abstracts.get_page_eq hva, hs.abstracts.get_page_eq hva, hs'.abstracts.is_dirty_eq hva,
    hs.abstracts.is_dirty_eq hva, hs'.abstracts.is_accessed_eq hva, hs.abstracts.is_accessed_eq hva]
  unfold Pintos.pagedir_get_page Pintos.pagedir_is_dirty Pintos.pagedir_is_accessed
  rw [he]
  exact ⟨rfl, rfl, rfl⟩

end Run

/-! ## The directory as a map of pages -/

section Refinement

variable {init_page_dir init_ram_pages : Nat} {s₀ s : PtSys} {ops : List PtOp}

/-- Along every run from `pagedir_create`, the word-level directory does what the calls made of
each page: `pagedir_get_page` returns the frame of the page's last installation unless it was
cleared since, the PTE of an installed page has its writable bit and the user bit, and for a page
installed at least once the dirty and accessed bits are the ones set since its last
installation. One call changes what is read of its own page only, the kernel half stays the copy
`pagedir_create` made, and `pagedir_destroy` frees the installed frames, the page tables the user
PDEs point to and the directory. -/
theorem pagedir_history (h₀ : PtInit init_page_dir s₀)
    (hr : Lts.Run (PtStep init_page_dir init_ram_pages) s₀ ops s) :
    (∀ va < PHYS_BASE, pagedir_get_page s.mem s.pd va =
        .ok ((pageHist ops va).installed.map fun kw => kw.1 + pg_ofs va)) ∧
    (∀ va < PHYS_BASE, ∀ kpage writable, (pageHist ops va).installed = some (kpage, writable) →
        ∃ pte, (lookup_page s.mem s.pd va false none).1 = some pte ∧
          (s.mem pte).bit 1 = writable ∧ (s.mem pte).bit 2 = true) ∧
    (∀ va < PHYS_BASE, (pageHist ops va).ever = true →
        pagedir_is_dirty s.mem s.pd va = (pageHist ops va).dirty ∧
          pagedir_is_accessed s.mem s.pd va = (pageHist ops va).accessed) ∧
    (∀ op s', PtStep init_page_dir init_ram_pages s op s' → ∀ va < PHYS_BASE, pg_round_down va ≠ op.page →
        pagedir_get_page s'.mem s'.pd va = pagedir_get_page s.mem s.pd va ∧
          pagedir_is_dirty s'.mem s'.pd va = pagedir_is_dirty s.mem s.pd va ∧
          pagedir_is_accessed s'.mem s'.pd va = pagedir_is_accessed s.mem s.pd va) ∧
    (∀ i, 768 ≤ i → i < 1024 → s.mem (s.pd + 4 * i) = s₀.mem (s₀.pd + 4 * i)) ∧
    ∃ frees, pagedir_destroy s.mem init_page_dir s.pd = .ok frees ∧
      frees.Perm (userPages.filterMap (fun va => (pageHist ops va).installed.map Prod.fst) ++
        ((List.range 768).filter fun i => s.mem (s.pd + 4 * i) != 0).map (tableOf s.mem s.pd) ++ [s.pd]) := by
  obtain ⟨hs, -, hk, hh⟩ := PtInv.history h₀ hr
  have ha := hs.abstracts
  refine ⟨fun va hva => ?_, fun va hva kpage writable hin => ?_, fun va hva hev => ?_,
    fun op s' hstep va hva hne => hstep.observe_of_ne hs hva hne, fun i hi hi' => ?_, ?_⟩
  · rw [ha.get_page_eq hva, (hh va).get_page]
  · obtain ⟨hp, hw⟩ := (hh va).present hin
    rw [← hw]
    exact ha.pte_bits hva hp
  · obtain ⟨-, hd, hac⟩ := (hh va).ever hev
    rw [ha.is_dirty_eq hva, ha.is_accessed_eq hva]
    exact ⟨hd, hac⟩
  · -- the kernel half is the copy `pagedir_create` made, and no call writes it
    rw [hs.kernel i hi hi', hk, ← (PtInv.init h₀).kernel i hi hi']
  · obtain ⟨frees, hd, hperm⟩ := ha.destroy hs.not_init
    refine ⟨frees, hd, hperm.trans (List.Perm.append_right _ (List.Perm.append ?_ ?_))⟩
    · exact ha.presentPages_user_perm.trans
        (List.Perm.of_eq (List.filterMap_congr fun va _ => (hh va).presentFrame_eq))
    · exact (ha.tables_perm.map _).symm

/-- The `init_page_dir` of the runs below: a kernel page that maps no user page. -/
def bootInitDir : Nat := PHYS_BASE + 0x101000

/-- A directory just made by `pagedir_create` from a zeroed memory. -/
def ptBoot : PtSys :=
  ⟨(pagedir_create (fun _ => 0) bootInitDir (some (PHYS_BASE + 0x102000))).2, PHYS_BASE + 0x102000,
    fun _ => 0, Pagedir.empty⟩

theorem ptBoot_init : PtInit bootInitDir ptBoot :=
  .create (by unfold KernelPage; decide) (by decide) fun _ _ => rfl

/-- Install a page with a fresh page table, mark it dirty, clear it and install it again. -/
def reinstallOps : List PtOp :=
  [.set_page 0x8048000 (PHYS_BASE + 0x200000) true (some (PHYS_BASE + 0x103000)) true,
   .set_dirty 0x8048000 true, .clear_page 0x8048000,
   .set_page 0x8048000 (PHYS_BASE + 0x200000) true none true]

/-- The calls of `reinstallOps` all go through from `ptBoot`. -/
theorem reinstall_run : ∃ s, Lts.Run (PtStep bootInitDir 1024) ptBoot reinstallOps s := by
  have h₀ := ptBoot_init
  have hs₀ := PtInv.init h₀
  have hva : (0x8048000 : Nat) < PHYS_BASE := by decide
  have hofs : pg_ofs 0x8048000 = 0 := by decide
  have hk : KernelPage (PHYS_BASE + 0x200000) := by
    unfold KernelPage
    decide
  have hram : (vtop (PHYS_BASE + 0x200000)).toNat / PGSIZE < 1024 := by decide
  have hnone₀ : pagedir_get_page ptBoot.mem ptBoot.pd 0x8048000 = .ok none := by
    rw [hs₀.abstracts.get_page_eq hva]
    rfl
  have hfresh : ∀ p, some (PHYS_BASE + 0x103000) = some p → Fresh ptBoot.mem ptBoot.pd p := by
    rintro p ⟨⟩
    refine ⟨by unfold KernelPage; decide, by unfold PagesDisjoint; decide, fun i hi hz => absurd ?_ hz⟩
    exact pagedir_create_copy (fun _ => 0) bootInitDir (PHYS_BASE + 0x102000) (show i < 1024 by omega)
  obtain ⟨s₁, h₁⟩ : ∃ s₁, PtStep bootInitDir 1024 ptBoot
      (.set_page 0x8048000 (PHYS_BASE + 0x200000) true (some (PHYS_BASE + 0x103000)) true) s₁ :=
    hs₀.set_page_step hva hofs hk hram hnone₀ hfresh
  have hs₁ := hs₀.step h₁
  have h₂ : PtStep bootInitDir 1024 s₁ (.set_dirty 0x8048000 true) _ := .set_dirty hva
  obtain ⟨s₃, h₃⟩ : ∃ s₃, PtStep bootInitDir 1024 _ (.clear_page 0x8048000) s₃ :=
    (hs₁.step h₂).clear_page_step hva hofs
  have hr₃ := Lts.Run.cons h₁ (.cons h₂ (.single h₃))
  obtain ⟨hs₃, -, -, hh₃⟩ := PtInv.history h₀ hr₃
  have hnone₃ : pagedir_get_page s₃.mem s₃.pd 0x8048000 = .ok none := by
    rw [hs₃.abstracts.get_page_eq hva, (hh₃ _).get_page]
    rfl
  have ht₃ : s₃.pagedir.hasTable 0x8048000 := ((hh₃ _).ever rfl).1
  obtain ⟨s₄, h₄⟩ : ∃ s₄, PtStep bootInitDir 1024 s₃
      (.set_page 0x8048000 (PHYS_BASE + 0x200000) true none
        (decide (s₃.pagedir.hasTable 0x8048000) || (none : Option Nat).isSome)) s₄ :=
    hs₃.set_page_step hva hofs hk hram hnone₃ fun _ hp => nomatch hp
  rw [show (decide (s₃.pagedir.hasTable 0x8048000) || (none : Option Nat).isSome) = true by simp [ht₃]] at h₄
  exact ⟨s₄, hr₃.snoc h₄⟩

theorem pagedir_history_after_reinstall :
    PtInit bootInitDir ptBoot ∧ ∃ s, Lts.Run (PtStep bootInitDir 1024) ptBoot reinstallOps s ∧
    (∀ va < PHYS_BASE, pagedir_get_page s.mem s.pd va =
        .ok ((pageHist reinstallOps va).installed.map fun kw => kw.1 + pg_ofs va)) ∧
    (∀ va < PHYS_BASE, ∀ kpage writable, (pageHist reinstallOps va).installed = some (kpage, writable) →
        ∃ pte, (lookup_page s.mem s.pd va false none).1 = some pte ∧
          (s.mem pte).bit 1 = writable ∧ (s.mem pte).bit 2 = true) ∧
    (∀ va < PHYS_BASE, (pageHist reinstallOps va).ever = true →
        pagedir_is_dirty s.mem s.pd va = (pageHist reinstallOps va).dirty ∧
          pagedir_is_accessed s.mem s.pd va = (pageHist reinstallOps va).accessed) ∧
    (∀ op s', PtStep bootInitDir 1024 s op s' → ∀ va < PHYS_BASE, pg_round_down va ≠ op.page →
        pagedir_get_page s'.mem s'.pd va = pagedir_get_page s.mem s.pd va ∧
          pagedir_is_dirty s'.mem s'.pd va = pagedir_is_dirty s.mem s.pd va ∧
          pagedir_is_accessed s'.mem s'.pd va = pagedir_is_accessed s.mem s.pd va) ∧
    (∀ i, 768 ≤ i → i < 1024 → s.mem (s.pd + 4 * i) = ptBoot.mem (ptBoot.pd + 4 * i)) ∧
    ∃ frees, pagedir_destroy s.mem bootInitDir s.pd = .ok frees ∧
      frees.Perm (userPages.filterMap (fun va => (pageHist reinstallOps va).installed.map Prod.fst) ++
        ((List.range 768).filter fun i => s.mem (s.pd + 4 * i) != 0).map (tableOf s.mem s.pd) ++
          [s.pd]) := by
  obtain ⟨s, hr⟩ := reinstall_run
  exact ⟨ptBoot_init, s, hr, pagedir_history ptBoot_init hr⟩

/-- `pagedir_set_page` writes a fresh PTE, so a page installed again after `pagedir_clear_page`
reads as clean although the last `pagedir_set_dirty` of it set the bit. -/
theorem pagedir_reinstall_clears_dirty :
    ∃ s, Lts.Run (PtStep bootInitDir 1024) ptBoot
      [.set_page 0x8048000 (PHYS_BASE + 0x200000) true (some (PHYS_BASE + 0x103000)) true,
        .set_dirty 0x8048000 true, .clear_page 0x8048000,
        .set_page 0x8048000 (PHYS_BASE + 0x200000) true none true] s ∧
      pagedir_is_dirty s.mem s.pd 0x8048000 = false := by
  have hva : (0x8048000 : Nat) < PHYS_BASE := by decide
  obtain ⟨s₄, hr₄⟩ := reinstall_run
  obtain ⟨hs₄, -, -, hh₄⟩ := PtInv.history ptBoot_init hr₄
  refine ⟨s₄, hr₄, ?_⟩
  rw [hs₄.abstracts.is_dirty_eq hva]
  exact ((hh₄ _).ever rfl).2.1

end Refinement

end PageTable

end Pintos