import Pintos.Userprog.Exec

/-!
# `process_wait` and the `struct child` records

A parent finds a child by walking its `children` list, marks the record, downs the record's
semaphore, reads the status and frees the record. The child's `thread_exit` writes the status
into the same record and ups its semaphore; the record outlives the child, and only the parent
frees it. `WaitInv` is what makes this safe in every interleaving: every listed record is
allocated, each record belongs to the live thread of its tid or, once that thread is gone,
holds the status it printed; a parent reading a record has seen its child leave.
-/

namespace Pintos

/-- Some live thread has tid `x`. -/
def Procs.live (s : Procs) (x : Tid) : Prop := x ∈ s.threads.map (·.tid)

/-- The points where the invariant says something about a thread's place: inside a wait on a
record, and between printing and signalling in `thread_exit`. -/
def Pc.quiet : Pc → Bool
  | .waitDown _ _ | .waitRead _ _ | .exitSignal => false
  | _ => true

theorem Pc.ne_of_quiet {pc x : Pc} (h : pc.quiet) (hx : x.quiet = false) : pc ≠ x := by
  rintro rfl
  rw [hx] at h
  cases h

/-- Two quiet places agree on being any place that is not. -/
theorem Pc.iff_of_quiet {pc pc' : Pc} (h : pc.quiet) (h' : pc'.quiet) (x : Pc)
    (hx : x.quiet = false) : pc = x ↔ pc' = x :=
  ⟨fun e => absurd e (Pc.ne_of_quiet h hx), fun e => absurd e (Pc.ne_of_quiet h' hx)⟩

theorem live_of_mem {s : Procs} {th : KThread} (h : th ∈ s.threads) : s.live th.tid :=
  List.mem_map.mpr ⟨th, h, rfl⟩

/-! ## Writes of a record that keep its tid -/

section RecordWrite

variable {s : Procs} {a : Nat} {r r' : ChildRec}

theorem Procs.isSome_setRecord (hr : s.records a = some r) (b : Nat) :
    ((s.setRecord a (some r')).records b).isSome = (s.records b).isSome := by
  by_cases hba : b = a
  · rw [hba, Procs.records_setRecord_self, hr]
    rfl
  · rw [Procs.records_setRecord_of_ne s _ hba]

theorem Procs.exists_old_of_setRecord (hr : s.records a = some r) (htid : r'.tid = r.tid)
    {b : Nat} {r₀ : ChildRec} (hb : (s.setRecord a (some r')).records b = some r₀) :
    ∃ r₁, s.records b = some r₁ ∧ r₁.tid = r₀.tid := by
  rcases Procs.eq_some_of_setRecord hb with ⟨hba, hx⟩ | ⟨-, hb₀⟩
  · obtain rfl := Option.some.inj hx
    exact ⟨r, hba ▸ hr, htid.symm⟩
  · exact ⟨r₀, hb₀, rfl⟩

theorem Procs.exists_new_of_setRecord (hr : s.records a = some r) (htid : r'.tid = r.tid)
    {b : Nat} {r₁ : ChildRec} (hb : s.records b = some r₁) :
    ∃ r₀, (s.setRecord a (some r')).records b = some r₀ ∧ r₀.tid = r₁.tid := by
  by_cases hba : b = a
  · rw [hba, hr] at hb
    obtain rfl := Option.some.inj hb
    exact ⟨r', hba ▸ Procs.records_setRecord_self _ _ _, htid⟩
  · exact ⟨r₁, (Procs.records_setRecord_of_ne s _ hba).trans hb, rfl⟩

/-- A record rewritten with its tid and mark kept: a marked record was marked before. -/
theorem Procs.exists_marked_of_setRecord (hr : s.records a = some r) (htid : r'.tid = r.tid)
    (hsucc : r'.succ = r.succ) {b : Nat} {r₀ : ChildRec}
    (hb : (s.setRecord a (some r')).records b = some r₀) (hs : r₀.succ = true) :
    ∃ r₁, s.records b = some r₁ ∧ r₁.tid = r₀.tid ∧ r₁.succ = true := by
  rcases Procs.eq_some_of_setRecord hb with ⟨hba, hx⟩ | ⟨-, hb₀⟩
  · obtain rfl := Option.some.inj hx
    exact ⟨r, hba ▸ hr, htid.symm, hsucc ▸ hs⟩
  · exact ⟨r₀, hb₀, rfl, hs⟩

end RecordWrite

/-! ## `find_child` -/

/-- Over allocated records `find_child` is `List.find?`. -/
theorem findChild_eq_find? {records : Nat → Option ChildRec} {c : Tid} :
    ∀ {l : List Nat}, (∀ a ∈ l, (records a).isSome) →
      findChild records c l = .ok (l.find? fun a => (records a).any (·.tid = c))
  | [], _ => rfl
  | b :: l, hl => by
    obtain ⟨r, hr⟩ := Option.isSome_iff_exists.mp (hl b List.mem_cons_self)
    have ih := findChild_eq_find? (c := c) fun a ha => hl a (List.mem_cons_of_mem b ha)
    by_cases hc : r.tid = c
    · simp [findChild, hr, hc]
    · simp [findChild, hr, hc, ih]

theorem findChild_some {records : Nat → Option ChildRec} {c : Tid} {a : Nat} :
    ∀ {l : List Nat}, findChild records c l = .ok (some a) →
      a ∈ l ∧ ∃ r, records a = some r ∧ r.tid = c
  | [], h => by cases h
  | b :: l, h => by
    unfold findChild at h
    split at h
    · cases h
    · rename_i r hr
      split at h
      · cases h
        exact ⟨List.mem_cons_self, r, hr, by assumption⟩
      · obtain ⟨ha, hr'⟩ := findChild_some h
        exact ⟨List.mem_cons_of_mem b ha, hr'⟩

/-- The invariant of the children lists, the records and the console. -/
structure WaitInv (s : Procs) : Prop where
  listed : ∀ p ∈ s.threads, ∀ a ∈ p.children, (s.records a).isSome
  nodup : ∀ p ∈ s.threads, p.children.Nodup
  disjoint : ∀ p ∈ s.threads, ∀ q ∈ s.threads, ∀ a ∈ p.children, a ∈ q.children → p.tid = q.tid
  /-- a live thread's own record has not been signalled, and holds its status once printed -/
  info : ∀ c ∈ s.threads, ∀ a, c.child_info = some a → ∃ r, s.records a = some r ∧
    r.tid = c.tid ∧ r.sema_wait = 0 ∧ (c.pc = .exitSignal → (r.tid, r.st_exit) ∈ s.console)
  /-- the live thread of a record's tid owns it -/
  owner : ∀ a r, s.records a = some r → ∀ c ∈ s.threads, c.tid = r.tid → c.child_info = some a
  /-- a record whose thread is gone holds the status it printed and has been signalled, unless
  its parent is already past the semaphore -/
  exited : ∀ a r, s.records a = some r → ¬ s.live r.tid → (r.tid, r.st_exit) ∈ s.console ∧
    (r.sema_wait = 1 ∨ ∃ p ∈ s.threads, p.pc = .waitRead r.tid a)
  rec_inj : ∀ a b ra rb, s.records a = some ra → s.records b = some rb → ra.tid = rb.tid → a = b
  rec_lt : ∀ a r, s.records a = some r → r.tid < s.next_tid
  /-- a wait in progress is on a listed record of the child it waits for -/
  waiting : ∀ p ∈ s.threads, ∀ c a, (p.pc = .waitDown c a ∨ p.pc = .waitRead c a) →
    a ∈ p.children ∧ ∃ r, s.records a = some r ∧ r.tid = c
  /-- a marked record is the one its parent is waiting on -/
  succ : ∀ p ∈ s.threads, ∀ a ∈ p.children, ∀ r, s.records a = some r → r.succ = true →
    p.pc = .waitDown r.tid a ∨ p.pc = .waitRead r.tid a
  reading : ∀ p ∈ s.threads, ∀ c a, p.pc = .waitRead c a → ¬ s.live c
  console_nodup : (s.console.map Prod.fst).Nodup
  console_live : ∀ th ∈ s.threads, th.tid ∈ s.console.map Prod.fst → th.pc = .exitSignal
  console_lt : ∀ e ∈ s.console, e.1 < s.next_tid

namespace WaitInv

variable {s : Procs}

theorem live_setThread (t : Tid) {f : KThread → KThread} (hf : ∀ th, (f th).tid = th.tid)
    (x : Tid) : (s.setThread t f).live x ↔ s.live x := by
  unfold Procs.live
  rw [Procs.map_tid_setThread t hf]

theorem live_goto (t : Tid) (pc : Pc) (x : Tid) : (s.goto t pc).live x ↔ s.live x := by
  unfold Procs.goto
  exact live_setThread t (by intro; rfl) x

/-- An update of one thread that keeps its tid, its list and its record keeps the invariant
when the updated thread meets what the invariant asks of its new place. -/
theorem setThread (h : WaitInv s) (htids : TidsOk s) {t : Tid} {th : KThread}
    (hth : s.thread t = some th) {f : KThread → KThread} (hf : ∀ th, (f th).tid = th.tid)
    (hch : (f th).children = th.children) (hinfo : (f th).child_info = th.child_info)
    (hsig : (f th).pc = .exitSignal → th.pc = .exitSignal)
    (hsig' : th.pc = .exitSignal → (f th).pc = .exitSignal)
    (hread : ∀ c a, th.pc = .waitRead c a → (f th).pc = .waitRead c a)
    (hwait : ∀ c a, ((f th).pc = .waitDown c a ∨ (f th).pc = .waitRead c a) →
      a ∈ th.children ∧ ∃ r, s.records a = some r ∧ r.tid = c)
    (hsucc : ∀ a ∈ th.children, ∀ r, s.records a = some r → r.succ = true →
      (f th).pc = .waitDown r.tid a ∨ (f th).pc = .waitRead r.tid a)
    (hreading : ∀ c a, (f th).pc = .waitRead c a → ¬ s.live c) :
    WaitInv (s.setThread t f) := by
  have hmem : th ∈ s.threads := (Procs.mem_of_thread hth).1
  have hcases := fun {th'} (hm : th' ∈ (s.setThread t f).threads) => htids.mem_setThread hth hm
  refine ⟨?_, ?_, ?_, ?_, ?_, ?_, h.rec_inj, h.rec_lt, ?_, ?_, ?_, h.console_nodup, ?_,
    h.console_lt⟩
  · intro p hp a ha
    rcases hcases hp with rfl | ⟨hp, -⟩
    · exact h.listed th hmem a (hch ▸ ha)
    · exact h.listed p hp a ha
  · intro p hp
    rcases hcases hp with rfl | ⟨hp, -⟩
    · exact hch ▸ h.nodup th hmem
    · exact h.nodup p hp
  · intro p hp q hq a ha ha'
    rcases hcases hp with rfl | ⟨hp, -⟩ <;> rcases hcases hq with rfl | ⟨hq, -⟩
    · rfl
    · rw [hf]
      exact h.disjoint th hmem q hq a (hch ▸ ha) ha'
    · rw [hf]
      exact h.disjoint p hp th hmem a ha (hch ▸ ha')
    · exact h.disjoint p hp q hq a ha ha'
  · intro c hc a ha
    rcases hcases hc with rfl | ⟨hc, -⟩
    · obtain ⟨r, hr, htid, hsema, hcon⟩ := h.info th hmem a (hinfo ▸ ha)
      exact ⟨r, hr, htid.trans (hf th).symm, hsema, fun he => hcon (hsig he)⟩
    · exact h.info c hc a ha
  · intro a r hr c hc htid
    rcases hcases hc with rfl | ⟨hc, -⟩
    · rw [hinfo]
      exact h.owner a r hr th hmem ((hf th).symm.trans htid)
    · exact h.owner a r hr c hc htid
  · intro a r hr hlive
    rw [live_setThread t hf] at hlive
    obtain ⟨hcon, hsema⟩ := h.exited a r hr hlive
    refine ⟨hcon, hsema.imp id ?_⟩
    rintro ⟨p, hp, hpc⟩
    by_cases hne : p.tid = t
    · rw [htids.eq_of_mem hth hp hne] at hpc
      exact ⟨f th, Procs.mem_setThread_self hth f, hread _ _ hpc⟩
    · exact ⟨p, Procs.mem_setThread_of_ne hp hne f, hpc⟩
  · intro p hp c a hpc
    rcases hcases hp with rfl | ⟨hp, -⟩
    · rw [hch]
      exact hwait c a hpc
    · exact h.waiting p hp c a hpc
  · intro p hp a ha r hr hs
    rcases hcases hp with rfl | ⟨hp, -⟩
    · exact hsucc a (hch ▸ ha) r hr hs
    · exact h.succ p hp a ha r hr hs
  · intro p hp c a hpc
    rw [live_setThread t hf]
    rcases hcases hp with rfl | ⟨hp, -⟩
    · exact hreading c a hpc
    · exact h.reading p hp c a hpc
  · intro th' hm htc
    rcases hcases hm with rfl | ⟨hm, -⟩
    · rw [hf] at htc
      exact hsig' (h.console_live th hmem htc)
    · exact h.console_live th' hm htc

/-- The same, for an update that moves the thread between quiet places or keeps its place. -/
theorem setThread_of_pc (h : WaitInv s) (htids : TidsOk s) {t : Tid} {th : KThread}
    (hth : s.thread t = some th) {f : KThread → KThread} (hf : ∀ th, (f th).tid = th.tid)
    (hch : (f th).children = th.children) (hinfo : (f th).child_info = th.child_info)
    (hpc : ∀ pc : Pc, pc.quiet = false → ((f th).pc = pc ↔ th.pc = pc)) :
    WaitInv (s.setThread t f) := by
  have hmem : th ∈ s.threads := (Procs.mem_of_thread hth).1
  refine h.setThread htids hth hf hch hinfo (hpc _ rfl).mp (hpc _ rfl).mpr
    (fun _ _ => (hpc _ rfl).mpr) ?_ ?_ ?_
  · intro c a hpc'
    exact h.waiting th hmem c a (hpc'.imp (hpc _ rfl).mp (hpc _ rfl).mp)
  · intro a ha r hr hs
    exact (h.succ th hmem a ha r hr hs).imp (hpc _ rfl).mpr (hpc _ rfl).mpr
  · intro c a hpc'
    exact h.reading th hmem c a ((hpc _ rfl).mp hpc')

theorem goto_of_quiet (h : WaitInv s) (htids : TidsOk s) {t : Tid} {th : KThread}
    (hth : s.thread t = some th) (hq : th.pc.quiet) {pc : Pc} (hq' : pc.quiet) :
    WaitInv (s.goto t pc) :=
  h.setThread_of_pc htids hth (fun _ => rfl) rfl rfl (Pc.iff_of_quiet hq' hq)

/-- `c->succ = true; sema_down (&c->sema_wait)`: the thread starts waiting on a record it
lists. -/
theorem goto_waitDown (h : WaitInv s) (htids : TidsOk s) {t : Tid} {th : KThread}
    (hth : s.thread t = some th) (hq : th.pc.quiet) {a : Nat} {r : ChildRec}
    (ha : a ∈ th.children) (hr : s.records a = some r) :
    WaitInv (s.goto t (.waitDown r.tid a)) := by
  have hmem : th ∈ s.threads := (Procs.mem_of_thread hth).1
  refine h.setThread htids hth (fun _ => rfl) rfl rfl (fun he => by cases he)
    (fun he => absurd he (Pc.ne_of_quiet hq rfl)) (fun _ _ he => absurd he (Pc.ne_of_quiet hq rfl))
    ?_ ?_ (fun _ _ he => by cases he)
  · rintro c b (he | he) <;> cases he
    exact ⟨ha, r, hr, rfl⟩
  · -- a quiet thread has marked none of its records
    intro b hb r' hr' hs
    rcases h.succ th hmem b hb r' hr' hs with he | he <;> exact absurd he (Pc.ne_of_quiet hq rfl)

theorem ret (h : WaitInv s) (htids : TidsOk s) {t : Tid} {th : KThread}
    (hth : s.thread t = some th) (hq : th.pc.quiet) (r : Int) : WaitInv (s.ret t r) :=
  h.setThread_of_pc htids hth (fun _ => rfl) rfl rfl (Pc.iff_of_quiet rfl hq)

section RecordClauses

variable {a : Nat} {r r' : ChildRec}

/-- A record rewritten with its tid kept leaves the records one to one in their tids. -/
theorem rec_inj_setRecord (h : WaitInv s) (hr : s.records a = some r) (htid : r'.tid = r.tid) :
    ∀ b b' rb rb', (s.setRecord a (some r')).records b = some rb →
      (s.setRecord a (some r')).records b' = some rb' → rb.tid = rb'.tid → b = b' := by
  intro b b' rb rb' hb hb' heq
  obtain ⟨r₁, h₁, e₁⟩ := Procs.exists_old_of_setRecord hr htid hb
  obtain ⟨r₂, h₂, e₂⟩ := Procs.exists_old_of_setRecord hr htid hb'
  exact h.rec_inj b b' r₁ r₂ h₁ h₂ (by rw [e₁, e₂, heq])

/-- A record rewritten with its tid kept leaves every record's tid below `next_tid`. -/
theorem rec_lt_setRecord (h : WaitInv s) (hr : s.records a = some r) (htid : r'.tid = r.tid) :
    ∀ b r₀, (s.setRecord a (some r')).records b = some r₀ → r₀.tid < s.next_tid := by
  intro b r₀ hb
  obtain ⟨r₁, h₁, e₁⟩ := Procs.exists_old_of_setRecord hr htid hb
  exact e₁ ▸ h.rec_lt b r₁ h₁

/-- A wait in progress still finds a record of its child after a record is rewritten with its
tid kept. -/
theorem waiting_setRecord (h : WaitInv s) (hr : s.records a = some r) (htid : r'.tid = r.tid)
    {p : KThread} (hp : p ∈ s.threads) {c b : Nat}
    (hpc : p.pc = .waitDown c b ∨ p.pc = .waitRead c b) :
    b ∈ p.children ∧ ∃ r₀, (s.setRecord a (some r')).records b = some r₀ ∧ r₀.tid = c := by
  obtain ⟨hb, r₁, hr₁, ht₁⟩ := h.waiting p hp c b hpc
  obtain ⟨r₀, hr₀, e₀⟩ := Procs.exists_new_of_setRecord hr htid hr₁
  exact ⟨hb, r₀, hr₀, e₀.trans ht₁⟩

/-- The record a thread's `child_info` names is no other live thread's. -/
theorem child_info_ne (h : WaitInv s) (hr : s.records a = some r) {x : KThread}
    (hx : x ∈ s.threads) (hxt : x.tid ≠ r.tid) {b : Nat} (hb : x.child_info = some b) :
    b ≠ a := by
  rintro rfl
  obtain ⟨r₁, hr₁, ht₁, -⟩ := h.info x hx b hb
  rw [hr] at hr₁
  obtain rfl := Option.some.inj hr₁
  exact hxt ht₁.symm

end RecordClauses

/-- A write of a record that keeps its tid and status: marking it, when its parent is waiting
on it, or changing its semaphore, once its thread is gone and its parent is past the wait. -/
theorem setRecord (h : WaitInv s) {a : Nat} {r r' : ChildRec} (hr : s.records a = some r)
    (htid : r'.tid = r.tid) (hst : r'.st_exit = r.st_exit)
    (hsucc : r'.succ = true → ∀ p ∈ s.threads, a ∈ p.children →
      p.pc = .waitDown r.tid a ∨ p.pc = .waitRead r.tid a)
    (hsema : r'.sema_wait = r.sema_wait ∨
      (¬ s.live r.tid ∧ ∃ p ∈ s.threads, p.pc = .waitRead r.tid a)) :
    WaitInv (s.setRecord a (some r')) := by
  have hrec := fun {b r₀} (hb : (s.setRecord a (some r')).records b = some r₀) =>
    Procs.eq_some_of_setRecord hb
  refine ⟨?_, h.nodup, h.disjoint, ?_, ?_, ?_, h.rec_inj_setRecord hr htid,
    h.rec_lt_setRecord hr htid, fun p hp _ _ hpc => h.waiting_setRecord hr htid hp hpc, ?_,
    h.reading, h.console_nodup, h.console_live, h.console_lt⟩
  · intro p hp b hb
    rw [Procs.isSome_setRecord hr]
    exact h.listed p hp b hb
  · intro c hc b hb
    obtain ⟨r₀, hr₀, htid₀, hsema₀, hcon₀⟩ := h.info c hc b hb
    by_cases hba : b = a
    · subst hba
      rw [hr] at hr₀
      obtain rfl := Option.some.inj hr₀
      refine ⟨r', Procs.records_setRecord_self _ _ _, htid.trans htid₀, ?_, ?_⟩
      · -- the thread of the record is live, so its semaphore is untouched
        rcases hsema with hs | ⟨hdead, -⟩
        · rw [hs, hsema₀]
        · exact absurd (htid₀ ▸ live_of_mem hc) hdead
      · intro he
        rw [htid, hst]
        exact hcon₀ he
    · exact ⟨r₀, (Procs.records_setRecord_of_ne s _ hba).trans hr₀, htid₀, hsema₀, hcon₀⟩
  · intro b r₀ hb c hc hct
    rcases hrec hb with ⟨rfl, hx⟩ | ⟨-, hb⟩
    · obtain rfl := Option.some.inj hx
      exact h.owner b r hr c hc (hct.trans htid)
    · exact h.owner b r₀ hb c hc hct
  · intro b r₀ hb hdead
    rcases hrec hb with ⟨rfl, hx⟩ | ⟨-, hb⟩
    · obtain rfl := Option.some.inj hx
      rw [htid] at hdead ⊢
      obtain ⟨hcon, hs⟩ := h.exited b r hr hdead
      refine ⟨hst ▸ hcon, ?_⟩
      rcases hsema with hs' | ⟨-, hp⟩
      · exact hs' ▸ hs
      · exact .inr hp
    · exact h.exited b r₀ hb hdead
  · intro p hp b hb r₀ hr₀ hs
    rcases hrec hr₀ with ⟨rfl, hx⟩ | ⟨-, hr₀⟩
    · obtain rfl := Option.some.inj hx
      rw [htid]
      exact hsucc hs p hp hb
    · exact h.succ p hp b hb r₀ hr₀ hs

/-- `process_wait` finds an unmarked record of the child, marks it and starts to wait. -/
theorem waitBegin (h : WaitInv s) (htids : TidsOk s) {t c a : Nat} {th : KThread} {r : ChildRec}
    (hth : s.thread t = some th) (hpc : th.pc = .waitFind c)
    (hfind : find_child s th c = .ok (some a)) (hr : s.records a = some r) :
    WaitInv ((s.setRecord a (some { r with succ := true })).goto t (.waitDown c a)) := by
  obtain ⟨ha, r₀, hr₀, rfl⟩ := findChild_some hfind
  rw [hr] at hr₀
  obtain rfl := Option.some.inj hr₀
  have h₁ := h.goto_waitDown htids hth (by rw [hpc]; rfl) ha hr
  have hth₁ := Procs.thread_goto hth (.waitDown r.tid a)
  rw [Procs.goto_setRecord]
  refine h₁.setRecord hr rfl rfl ?_ (.inl rfl)
  intro _ p hp hpa
  have hmem₁ := (Procs.mem_of_thread hth₁).1
  rw [(tidsOk_goto htids t _).eq_of_tid hp hmem₁ (h₁.disjoint p hp _ hmem₁ a hpa ha)]
  exact .inl rfl

/-- `sema_down` returns once the child has upped the record's semaphore. -/
theorem waitDown (h : WaitInv s) (htids : TidsOk s) {t c a : Nat} {th : KThread} {r : ChildRec}
    (hth : s.thread t = some th) (hpc : th.pc = .waitDown c a) (hr : s.records a = some r)
    (hpos : 0 < r.sema_wait) :
    WaitInv ((s.setRecord a (some { r with sema_wait := r.sema_wait - 1 })).goto t
      (.waitRead c a)) := by
  have hmem : th ∈ s.threads := (Procs.mem_of_thread hth).1
  obtain ⟨ha, r₀, hr₀, rfl⟩ := h.waiting th hmem c a (.inl hpc)
  rw [hr] at hr₀
  obtain rfl := Option.some.inj hr₀
  have hdead : ¬ s.live r.tid := by
    intro hlive
    obtain ⟨c', hc', htc⟩ := List.mem_map.mp hlive
    obtain ⟨r₁, hr₁, -, hs₁, -⟩ := h.info c' hc' a (h.owner a r hr c' hc' htc)
    rw [hr] at hr₁
    obtain rfl := Option.some.inj hr₁
    omega
  have h₁ : WaitInv (s.goto t (.waitRead r.tid a)) := by
    refine h.setThread htids hth (fun _ => rfl) rfl rfl (fun he => by cases he)
      (fun he => by rw [hpc] at he; cases he) (fun _ _ he => by rw [hpc] at he; cases he) ?_ ?_ ?_
    · rintro c' b (he | he) <;> cases he
      exact ⟨ha, r, hr, rfl⟩
    · intro b hb r' hr' hs
      rcases h.succ th hmem b hb r' hr' hs with he | he <;> rw [hpc] at he
      · obtain ⟨htid', rfl⟩ := Pc.waitDown.inj he
        exact .inr (by rw [← htid'])
      · cases he
    · intro c' b he
      cases he
      exact hdead
  rw [Procs.goto_setRecord]
  refine h₁.setRecord hr rfl rfl (fun hs p hp hpa => h₁.succ p hp a hpa r hr hs) (.inr ⟨?_, ?_⟩)
  · exact (live_goto t _ _).not.mpr hdead
  · exact ⟨_, (Procs.mem_of_thread (Procs.thread_goto hth _)).1, rfl⟩

/-- `status = c->st_exit; list_remove (&c->elem); free (c)`: the parent drops the record it
has read. -/
theorem waitRead (h : WaitInv s) (htids : TidsOk s) {t c a : Nat} {th : KThread} {r : ChildRec}
    (hth : s.thread t = some th) (hpc : th.pc = .waitRead c a) (hr : s.records a = some r) :
    WaitInv ((s.setRecord a none).setThread t fun th =>
      { th with children := th.children.erase a, eax := r.st_exit, pc := .user }) := by
  obtain ⟨hmem, htid⟩ := Procs.mem_of_thread hth
  obtain ⟨ha, r₀, hr₀, rfl⟩ := h.waiting th hmem c a (.inr hpc)
  rw [hr] at hr₀
  obtain rfl := Option.some.inj hr₀
  have hdead := h.reading th hmem _ a hpc
  have hcases := fun {x} (hm : x ∈ ((s.setRecord a none).setThread t fun th =>
      { th with children := th.children.erase a, eax := r.st_exit, pc := .user }).threads) =>
    (htids.setRecord a none).mem_setThread hth hm
  have hrec : ∀ {b r₀}, (s.setRecord a none).records b = some r₀ → b ≠ a ∧ s.records b = some r₀ := by
    intro b r₀ hb
    rcases Procs.eq_some_of_setRecord hb with ⟨-, hx⟩ | hb₀
    · cases hx
    · exact hb₀
  have hother : ∀ p ∈ s.threads, p.tid ≠ t → a ∉ p.children := fun p hp hne hpa =>
    hne ((h.disjoint p hp th hmem a hpa ha).trans htid)
  have hkeep : ∀ {b}, b ≠ a → (s.setRecord a none).records b = s.records b :=
    fun hba => Procs.records_setRecord_of_ne s none hba
  have herase : ∀ {b}, b ∈ th.children.erase a ↔ b ≠ a ∧ b ∈ th.children :=
    (h.nodup th hmem).mem_erase_iff
  have hlive : ∀ x, ((s.setRecord a none).setThread t fun th =>
      { th with children := th.children.erase a, eax := r.st_exit, pc := .user }).live x ↔
      s.live x := fun x => live_setThread t (by intro; rfl) x
  refine ⟨?_, ?_, ?_, ?_, ?_, ?_, ?_, ?_, ?_, ?_, ?_, h.console_nodup, ?_, h.console_lt⟩
  · intro x hm b hb
    rcases hcases hm with rfl | ⟨hx, hne⟩
    · obtain ⟨hba, hb₀⟩ := herase.mp hb
      rw [Procs.setThread_records, hkeep hba]
      exact h.listed th hmem b hb₀
    · rw [Procs.setThread_records, hkeep fun hba => hother x hx hne (hba ▸ hb)]
      exact h.listed x hx b hb
  · intro x hm
    rcases hcases hm with rfl | ⟨hx, -⟩
    · exact (h.nodup th hmem).erase a
    · exact h.nodup x hx
  · intro x hm y hm' b hb hb'
    rcases hcases hm with rfl | ⟨hx, -⟩ <;> rcases hcases hm' with rfl | ⟨hy, -⟩
    · rfl
    · exact h.disjoint th hmem y hy b (List.erase_subset hb) hb'
    · exact h.disjoint x hx th hmem b hb (List.erase_subset hb')
    · exact h.disjoint x hx y hy b hb hb'
  · intro x hm b hb
    have hold : ∀ x ∈ s.threads, x.child_info = some b → ∃ r₀, (s.setRecord a none).records b = some r₀ ∧
        r₀.tid = x.tid ∧ r₀.sema_wait = 0 ∧ (x.pc = .exitSignal → (r₀.tid, r₀.st_exit) ∈ s.console) := by
      intro x hx hb
      obtain ⟨r₀, hr₀, htid₀, hrest⟩ := h.info x hx b hb
      have hba : b ≠ a := by
        rintro rfl
        rw [hr] at hr₀
        obtain rfl := Option.some.inj hr₀
        exact hdead (htid₀ ▸ live_of_mem hx)
      exact ⟨r₀, (hkeep hba).trans hr₀, htid₀, hrest⟩
    rcases hcases hm with rfl | ⟨hx, -⟩
    · obtain ⟨r₀, hr₀, htid₀, hsema₀, -⟩ := hold th hmem hb
      exact ⟨r₀, hr₀, htid₀, hsema₀, fun he => by cases he⟩
    · exact hold x hx hb
  · intro b r₀ hb x hm hxt
    have hb₀ := (hrec hb).2
    rcases hcases hm with rfl | ⟨hx, -⟩
    · exact h.owner b r₀ hb₀ th hmem hxt
    · exact h.owner b r₀ hb₀ x hx hxt
  · intro b r₀ hb hl
    obtain ⟨hba, hb₀⟩ := hrec hb
    obtain ⟨hcon, hs⟩ := h.exited b r₀ hb₀ ((hlive _).not.mp hl)
    refine ⟨hcon, hs.imp id ?_⟩
    rintro ⟨p, hp, hpp⟩
    have hne : p.tid ≠ t := by
      intro hpt
      rw [htids.eq_of_mem hth hp hpt, hpc] at hpp
      exact hba (Pc.waitRead.inj hpp).2.symm
    exact ⟨p, Procs.mem_setThread_of_ne hp hne _, hpp⟩
  · intro b b' rb rb' hb hb' heq
    exact h.rec_inj b b' rb rb' (hrec hb).2 (hrec hb').2 heq
  · intro b r₀ hb
    exact h.rec_lt b r₀ (hrec hb).2
  · intro x hm c' b hpc'
    rcases hcases hm with rfl | ⟨hx, hne⟩
    · rcases hpc' with he | he <;> cases he
    · obtain ⟨hb, hrb⟩ := h.waiting x hx c' b hpc'
      rw [Procs.setThread_records, hkeep fun hba => hother x hx hne (hba ▸ hb)]
      exact ⟨hb, hrb⟩
  · intro x hm b hb r₀ hr₀ hs
    obtain ⟨hba, hb₀⟩ := hrec hr₀
    rcases hcases hm with rfl | ⟨hx, -⟩
    · -- the thread marks only the record it waits on, which it has dropped
      rcases h.succ th hmem b (List.erase_subset hb) r₀ hb₀ hs with he | he <;> rw [hpc] at he
      · cases he
      · exact absurd (Pc.waitRead.inj he).2 (Ne.symm hba)
    · exact h.succ x hx b hb r₀ hb₀ hs
  · intro x hm c' b hpc'
    rw [hlive]
    rcases hcases hm with rfl | ⟨hx, -⟩
    · cases hpc'
    · exact h.reading x hx c' b hpc'
  · intro x hm hxt
    rcases hcases hm with rfl | ⟨hx, -⟩
    · rw [h.console_live th hmem hxt] at hpc
      cases hpc
    · exact h.console_live x hx hxt

/-- `printf ("%s: exit(%d)\n", ...); child_info->st_exit = st_exit`: a thread prints its
status and writes it into its own record. -/
theorem exitWrite (h : WaitInv s) (htids : TidsOk s) {t a : Nat} {th : KThread} {r : ChildRec}
    (hth : s.thread t = some th) (hpc : th.pc = .exitWrite) (ha : th.child_info = some a)
    (hr : s.records a = some r) :
    WaitInv ({ s.setRecord a (some { r with st_exit := th.st_exit }) with
      console := s.console ++ [(t, th.st_exit)] }.goto t .exitSignal) := by
  obtain ⟨hmem, htid⟩ := Procs.mem_of_thread hth
  obtain ⟨r₀, hr₀, hrt, hsema, -⟩ := h.info th hmem a ha
  rw [hr] at hr₀
  obtain rfl := Option.some.inj hr₀
  set r' : ChildRec := { r with st_exit := th.st_exit }
  have hkeep : r'.tid = r.tid := rfl
  have hcases := fun {x} (hm : x ∈ ({ s.setRecord a (some r') with
      console := s.console ++ [(t, th.st_exit)] }.goto t .exitSignal).threads) =>
    (⟨htids.nodup, htids.lt⟩ : TidsOk { s.setRecord a (some r') with
      console := s.console ++ [(t, th.st_exit)] }).mem_setThread hth hm
  have hrec := fun {b r₀} (hb : (s.setRecord a (some r')).records b = some r₀) =>
    Procs.eq_some_of_setRecord hb
  have hne : ∀ x ∈ s.threads, x.tid ≠ t → ∀ {b}, x.child_info = some b → b ≠ a :=
    fun x hx hxt _ hb => h.child_info_ne hr hx (fun e => hxt (e.trans (hrt.trans htid))) hb
  have hnotin : t ∉ s.console.map Prod.fst := fun hin => by
    have hsig := h.console_live th hmem (htid ▸ hin)
    rw [hpc] at hsig
    cases hsig
  have hlive : ∀ x, ({ s.setRecord a (some r') with
      console := s.console ++ [(t, th.st_exit)] }.goto t .exitSignal).live x ↔ s.live x :=
    fun x => live_goto t _ x
  refine ⟨?_, ?_, ?_, ?_, ?_, ?_, h.rec_inj_setRecord hr hkeep, h.rec_lt_setRecord hr hkeep, ?_, ?_,
    ?_, ?_, ?_, ?_⟩
  · intro x hm b hb
    rcases hcases hm with rfl | ⟨hx, -⟩
    · exact (Procs.isSome_setRecord hr b).trans (h.listed th hmem b hb)
    · exact (Procs.isSome_setRecord hr b).trans (h.listed x hx b hb)
  · intro x hm
    rcases hcases hm with rfl | ⟨hx, -⟩
    · exact h.nodup th hmem
    · exact h.nodup x hx
  · intro x hm y hm' b hb hb'
    rcases hcases hm with rfl | ⟨hx, -⟩ <;> rcases hcases hm' with rfl | ⟨hy, -⟩
    · rfl
    · exact h.disjoint th hmem y hy b hb hb'
    · exact h.disjoint x hx th hmem b hb hb'
    · exact h.disjoint x hx y hy b hb hb'
  · intro x hm b hb
    rcases hcases hm with rfl | ⟨hx, hxt⟩
    · -- the thread's own record now holds the status it has printed
      rw [ha] at hb
      obtain rfl := Option.some.inj hb
      refine ⟨r', Procs.records_setRecord_self _ _ _, hrt, hsema, fun _ => ?_⟩
      exact List.mem_append_right _ (List.mem_singleton.mpr (Prod.ext (hrt.trans htid) rfl))
    · obtain ⟨r₀, hr₀, ht₀, hs₀, hcon₀⟩ := h.info x hx b hb
      exact ⟨r₀, (Procs.records_setRecord_of_ne s _ (hne x hx hxt hb)).trans hr₀, ht₀, hs₀,
        fun he => List.mem_append_left _ (hcon₀ he)⟩
  · intro b r₀ hb x hm hxt
    obtain ⟨r₁, hr₁, e₁⟩ := Procs.exists_old_of_setRecord hr hkeep hb
    rcases hcases hm with rfl | ⟨hx, -⟩
    · exact h.owner b r₁ hr₁ th hmem (hxt.trans e₁.symm)
    · exact h.owner b r₁ hr₁ x hx (hxt.trans e₁.symm)
  · intro b r₀ hb hl
    rw [hlive] at hl
    rcases hrec hb with ⟨-, hx⟩ | ⟨-, hb₀⟩
    · obtain rfl := Option.some.inj hx
      exact absurd (hrt ▸ live_of_mem hmem) hl
    · obtain ⟨hcon, hs⟩ := h.exited b r₀ hb₀ hl
      refine ⟨List.mem_append_left _ hcon, hs.imp id ?_⟩
      rintro ⟨p, hp, hpp⟩
      have hpt : p.tid ≠ t := htids.tid_ne_of_pc hth hp (by simp [hpp, hpc])
      exact ⟨p, Procs.mem_setThread_of_ne hp hpt _, hpp⟩
  · intro x hm c b hpc'
    rcases hcases hm with rfl | ⟨hx, -⟩
    · rcases hpc' with he | he <;> cases he
    · exact h.waiting_setRecord hr hkeep hx hpc'
  · intro x hm b hb r₀ hr₀ hs
    obtain ⟨r₁, hr₁, e₁, hs₁⟩ := Procs.exists_marked_of_setRecord hr hkeep rfl hr₀ hs
    rcases hcases hm with rfl | ⟨hx, -⟩
    · rcases h.succ th hmem b hb r₁ hr₁ hs₁ with he | he <;> rw [hpc] at he <;> cases he
    · exact e₁ ▸ h.succ x hx b hb r₁ hr₁ hs₁
  · intro x hm c b hpc'
    rw [hlive]
    rcases hcases hm with rfl | ⟨hx, -⟩
    · cases hpc'
    · exact h.reading x hx c b hpc'
  · show ((s.console ++ [(t, th.st_exit)]).map Prod.fst).Nodup
    rw [List.map_append, List.map_singleton]
    refine List.nodup_append.mpr ⟨h.console_nodup, List.nodup_singleton t, ?_⟩
    intro y hy z hz hyz
    rw [List.mem_singleton.mp hz] at hyz
    rw [hyz] at hy
    exact hnotin hy
  · intro x hm hxt
    rcases hcases hm with rfl | ⟨hx, hne'⟩
    · rfl
    · have hxt' : x.tid ∈ (s.console ++ [(t, th.st_exit)]).map Prod.fst := hxt
      rw [List.map_append, List.mem_append] at hxt'
      rcases hxt' with hxt' | hxt'
      · exact h.console_live x hx hxt'
      · exact absurd (List.mem_singleton.mp hxt') hne'
  · intro e he
    rcases List.mem_append.mp he with he | he
    · exact h.console_lt e he
    · rw [List.mem_singleton.mp he, ← htid]
      exact htids.lt th hmem

/-- `sema_up (&child_info->sema_wait)` and the thread is gone: its record, now signalled,
outlives it. -/
theorem exitSignal (h : WaitInv s) (htids : TidsOk s) {t a : Nat} {th : KThread} {r : ChildRec}
    (hth : s.thread t = some th) (hpc : th.pc = .exitSignal) (ha : th.child_info = some a)
    (hr : s.records a = some r) :
    WaitInv { s.setRecord a (some { r with sema_wait := r.sema_wait + 1 }) with
      threads := s.threads.filter (·.tid ≠ t) } := by
  obtain ⟨hmem, htid⟩ := Procs.mem_of_thread hth
  obtain ⟨r₀, hr₀, hrt, hsema, hcon⟩ := h.info th hmem a ha
  rw [hr] at hr₀
  obtain rfl := Option.some.inj hr₀
  set r' : ChildRec := { r with sema_wait := r.sema_wait + 1 }
  have hkeep : r'.tid = r.tid := rfl
  have hmemF : ∀ {x}, x ∈ ({ s.setRecord a (some r') with
      threads := s.threads.filter (·.tid ≠ t) } : Procs).threads → x ∈ s.threads ∧ x.tid ≠ t := by
    intro x hx
    simpa using hx
  have hrec := fun {b r₀} (hb : (s.setRecord a (some r')).records b = some r₀) =>
    Procs.eq_some_of_setRecord hb
  have hne : ∀ x ∈ s.threads, x.tid ≠ t → ∀ {b}, x.child_info = some b → b ≠ a :=
    fun x hx hxt _ hb => h.child_info_ne hr hx (fun e => hxt (e.trans (hrt.trans htid))) hb
  have hlive : ∀ {x}, ({ s.setRecord a (some r') with
      threads := s.threads.filter (·.tid ≠ t) } : Procs).live x → s.live x := by
    intro x hx
    obtain ⟨y, hy, rfl⟩ := List.mem_map.mp hx
    exact live_of_mem (hmemF hy).1
  have hlive' : ∀ {x}, s.live x → x ≠ t → ({ s.setRecord a (some r') with
      threads := s.threads.filter (·.tid ≠ t) } : Procs).live x := by
    intro x hx hxt
    obtain ⟨y, hy, rfl⟩ := List.mem_map.mp hx
    exact List.mem_map.mpr ⟨y, List.mem_filter.mpr ⟨hy, by simpa using hxt⟩, rfl⟩
  refine ⟨?_, ?_, ?_, ?_, ?_, ?_, h.rec_inj_setRecord hr hkeep, h.rec_lt_setRecord hr hkeep,
    fun x hm _ _ hpc' => h.waiting_setRecord hr hkeep (hmemF hm).1 hpc', ?_, ?_, h.console_nodup,
    ?_, h.console_lt⟩
  · intro x hm b hb
    exact (Procs.isSome_setRecord hr b).trans (h.listed x (hmemF hm).1 b hb)
  · intro x hm
    exact h.nodup x (hmemF hm).1
  · intro x hm y hm' b hb hb'
    exact h.disjoint x (hmemF hm).1 y (hmemF hm').1 b hb hb'
  · intro x hm b hb
    obtain ⟨hx, hxt⟩ := hmemF hm
    obtain ⟨r₀, hr₀, ht₀, hs₀, hcon₀⟩ := h.info x hx b hb
    exact ⟨r₀, (Procs.records_setRecord_of_ne s _ (hne x hx hxt hb)).trans hr₀, ht₀, hs₀, hcon₀⟩
  · intro b r₀ hb x hm hxt
    obtain ⟨hx, hxt'⟩ := hmemF hm
    rcases hrec hb with ⟨-, hx'⟩ | ⟨-, hb₀⟩
    · obtain rfl := Option.some.inj hx'
      exact absurd (hxt.trans (hrt.trans htid)) hxt'
    · exact h.owner b r₀ hb₀ x hx hxt
  · intro b r₀ hb hl
    rcases hrec hb with ⟨-, hx⟩ | ⟨hba, hb₀⟩
    · -- the record of the leaving thread: its status is printed and its semaphore upped
      obtain rfl := Option.some.inj hx
      exact ⟨hcon hpc, .inl (show r.sema_wait + 1 = 1 by rw [hsema])⟩
    · have hl' : ¬ s.live r₀.tid := by
        intro hl'
        by_cases hrt' : r₀.tid = t
        · exact hba (h.rec_inj b a r₀ r hb₀ hr (hrt'.trans (hrt.trans htid).symm))
        · exact hl (hlive' hl' hrt')
      obtain ⟨hcon₀, hs⟩ := h.exited b r₀ hb₀ hl'
      refine ⟨hcon₀, hs.imp id ?_⟩
      rintro ⟨p, hp, hpp⟩
      have hpt : p.tid ≠ t := htids.tid_ne_of_pc hth hp (by simp [hpp, hpc])
      exact ⟨p, List.mem_filter.mpr ⟨hp, by simpa using hpt⟩, hpp⟩
  · intro x hm b hb r₀ hr₀ hs
    obtain ⟨r₁, hr₁, e₁, hs₁⟩ := Procs.exists_marked_of_setRecord hr hkeep rfl hr₀ hs
    exact e₁ ▸ h.succ x (hmemF hm).1 b hb r₁ hr₁ hs₁
  · intro x hm c b hpc' hl
    exact h.reading x (hmemF hm).1 c b hpc' (hlive hl)
  · intro x hm hxt
    exact h.console_live x (hmemF hm).1 hxt

/-! ### `thread_create` -/

section Create

variable {t a : Nat} {th : KThread}

/-- A thread after `thread_create` is the new one, or has a thread before it with its tid, place
and record, listing at most the new record more. -/
theorem thread_create_old (htids : TidsOk s) (hth : s.thread t = some th) {th' : KThread}
    (hmem : th' ∈ (thread_create s t a).1.threads) :
    th' = init_thread s.next_tid t a ∨ ∃ p ∈ s.threads, p.tid = th'.tid ∧ p.pc = th'.pc ∧
      p.child_info = th'.child_info ∧ p.children ⊆ th'.children ∧
      ∀ b ∈ th'.children, b ∈ p.children ∨ (b = a ∧ th'.tid = t) := by
  obtain ⟨hmem₀, htid₀⟩ := Procs.mem_of_thread hth
  rcases htids.mem_thread_create hth hmem with rfl | rfl | ⟨hm, -⟩
  · exact .inl rfl
  · refine .inr ⟨th, hmem₀, rfl, rfl, rfl, List.subset_append_left _ _, fun b hb => ?_⟩
    exact (List.mem_append.mp hb).imp id fun hb => ⟨List.mem_singleton.mp hb, htid₀⟩
  · exact .inr ⟨th', hm, rfl, rfl, rfl, List.Subset.refl _, fun b hb => .inl hb⟩

/-- Every thread before `thread_create` is still there, at its place. -/
theorem thread_create_new (htids : TidsOk s) (hth : s.thread t = some th) {p : KThread}
    (hmem : p ∈ s.threads) :
    ∃ th' ∈ (thread_create s t a).1.threads, th'.tid = p.tid ∧ th'.pc = p.pc := by
  by_cases hp : p.tid = t
  · rw [htids.eq_of_mem hth hmem hp]
    exact ⟨_, (Procs.mem_of_thread (thread_create_thread hth)).1, rfl, rfl⟩
  · refine ⟨p, ?_, rfl, rfl⟩
    rw [thread_create_threads]
    exact List.mem_append_left _ (Procs.mem_setThread_of_ne hmem hp _)

theorem init_thread_mem (s : Procs) (t a : Nat) :
    init_thread s.next_tid t a ∈ (thread_create s t a).1.threads := by
  rw [thread_create_threads]
  exact List.mem_append_right _ (List.mem_singleton_self _)

/-- `thread_create` links a fresh record of the new tid into the creator's list. -/
theorem thread_create (h : WaitInv s) (htids : TidsOk s) (hth : s.thread t = some th)
    (hfresh : s.records a = none) : WaitInv (Pintos.thread_create s t a).1 := by
  set n := s.next_tid
  have hback := fun {th'} (hm : th' ∈ (Pintos.thread_create s t a).1.threads) =>
    thread_create_old htids hth hm
  have hrec := fun {b r₀} (hb : (Pintos.thread_create s t a).1.records b = some r₀) =>
    @Procs.eq_some_of_setRecord s a b _ r₀ hb
  have hna : ∀ p ∈ s.threads, a ∉ p.children := fun p hp ha => by
    simpa [hfresh] using h.listed p hp a ha
  have hkeep : ∀ {b r₀}, s.records b = some r₀ →
      (Pintos.thread_create s t a).1.records b = some r₀ := by
    intro b r₀ hb
    have hba : b ≠ a := by
      rintro rfl
      rw [hfresh] at hb
      cases hb
    exact (Procs.records_setRecord_of_ne s _ hba).trans hb
  have hlt := htids.lt
  have hlive : ∀ {x}, (Pintos.thread_create s t a).1.live x → s.live x ∨ x = n := by
    intro x hx
    obtain ⟨th', hm, rfl⟩ := List.mem_map.mp hx
    rcases hback hm with rfl | ⟨p, hp, hpt, -⟩
    · exact .inr rfl
    · exact .inl (hpt ▸ live_of_mem hp)
  have hlive' : ∀ {x}, s.live x → (Pintos.thread_create s t a).1.live x := by
    intro x hx
    obtain ⟨p, hp, rfl⟩ := List.mem_map.mp hx
    obtain ⟨th', hm, htid', -⟩ := thread_create_new (a := a) htids hth hp
    exact htid' ▸ live_of_mem hm
  have hmem₀ := (Procs.mem_of_thread hth).1
  refine ⟨?_, ?_, ?_, ?_, ?_, ?_, ?_, ?_, ?_, ?_, ?_, h.console_nodup, ?_, ?_⟩
  · intro th' hm b hb
    rcases hback hm with rfl | ⟨p, hp, -, -, -, -, hch⟩
    · cases hb
    · rcases hch b hb with hb₀ | ⟨hba, -⟩
      · obtain ⟨r₀, hr₀⟩ := Option.isSome_iff_exists.mp (h.listed p hp b hb₀)
        rw [hkeep hr₀]
        rfl
      · rw [hba, thread_create_records, Function.update_self]
        rfl
  · intro th' hm
    rcases htids.mem_thread_create hth hm with rfl | rfl | ⟨hm₀, -⟩
    · exact List.nodup_nil
    · refine List.nodup_append.mpr ⟨h.nodup th hmem₀, List.nodup_singleton a, ?_⟩
      intro b hb b' hb' hbb'
      rw [hbb', List.mem_singleton.mp hb'] at hb
      exact hna th hmem₀ hb
    · exact h.nodup th' hm₀
  · intro th' hm q' hqm b hb hb'
    rcases hback hm with rfl | ⟨p, hp, hpt, -, -, -, hch⟩
    · cases hb
    rcases hback hqm with rfl | ⟨q, hq, hqt, -, -, -, hch'⟩
    · cases hb'
    rcases hch b hb with hb₀ | ⟨hba, ht⟩ <;> rcases hch' b hb' with hb₀' | ⟨hba', ht'⟩
    · rw [← hpt, ← hqt]
      exact h.disjoint p hp q hq b hb₀ hb₀'
    · exact absurd (hba' ▸ hb₀) (hna p hp)
    · exact absurd (hba ▸ hb₀') (hna q hq)
    · rw [ht, ht']
  · intro c hc b hb
    rcases hback hc with rfl | ⟨p, hp, hpt, hpc, hpi, -, -⟩
    · obtain rfl := Option.some.inj hb
      refine ⟨⟨n, -1, false, 0⟩, ?_, rfl, rfl, fun he => by cases he⟩
      rw [thread_create_records, Function.update_self]
    · obtain ⟨r₀, hr₀, htid₀, hsema₀, hcon₀⟩ := h.info p hp b (hpi.trans hb)
      exact ⟨r₀, hkeep hr₀, htid₀.trans hpt, hsema₀, fun he => hcon₀ (hpc.trans he)⟩
  · intro b r₀ hb c hc hct
    rcases hrec hb with ⟨hba, hx⟩ | ⟨-, hb₀⟩
    · -- the new record's tid is the new thread's
      obtain rfl := Option.some.inj hx
      rcases hback hc with rfl | ⟨p, hp, hpt, -⟩
      · rw [hba]
        rfl
      · exact absurd (hpt.trans hct ▸ hlt p hp) (Nat.lt_irrefl _)
    · rcases hback hc with rfl | ⟨p, hp, hpt, -, hpi, -⟩
      · exact absurd (hct ▸ h.rec_lt b r₀ hb₀) (Nat.lt_irrefl _)
      · exact hpi ▸ h.owner b r₀ hb₀ p hp (hpt.trans hct)
  · intro b r₀ hb hdead
    rcases hrec hb with ⟨-, hx⟩ | ⟨-, hb₀⟩
    · obtain rfl := Option.some.inj hx
      exact absurd (live_of_mem (init_thread_mem s t a)) hdead
    · obtain ⟨hcon, hs⟩ := h.exited b r₀ hb₀ fun hl => hdead (hlive' hl)
      refine ⟨hcon, hs.imp id ?_⟩
      rintro ⟨p, hp, hpc⟩
      obtain ⟨th', hm, -, hpc'⟩ := thread_create_new (a := a) htids hth hp
      exact ⟨th', hm, hpc'.trans hpc⟩
  · intro b b' rb rb' hb hb' heq
    rcases hrec hb with ⟨hba, hx⟩ | ⟨-, hb₀⟩ <;> rcases hrec hb' with ⟨hba', hx'⟩ | ⟨-, hb₀'⟩
    · rw [hba, hba']
    · obtain rfl := Option.some.inj hx
      exact absurd (heq ▸ h.rec_lt b' rb' hb₀') (Nat.lt_irrefl _)
    · obtain rfl := Option.some.inj hx'
      exact absurd (heq.symm ▸ h.rec_lt b rb hb₀) (Nat.lt_irrefl _)
    · exact h.rec_inj b b' rb rb' hb₀ hb₀' heq
  · intro b r₀ hb
    rcases hrec hb with ⟨-, hx⟩ | ⟨-, hb₀⟩
    · obtain rfl := Option.some.inj hx
      exact Nat.lt_succ_self n
    · exact Nat.lt_succ_of_lt (h.rec_lt b r₀ hb₀)
  · intro th' hm c b hpc
    rcases hback hm with rfl | ⟨p, hp, -, hpc', -, hsub, -⟩
    · rcases hpc with he | he <;> cases he
    · obtain ⟨hb, r₀, hr₀, ht₀⟩ := h.waiting p hp c b (hpc'.symm ▸ hpc)
      exact ⟨hsub hb, r₀, hkeep hr₀, ht₀⟩
  · intro th' hm b hb r₀ hr₀ hs
    rcases hback hm with rfl | ⟨p, hp, -, hpc, -, -, hch⟩
    · cases hb
    · rcases hrec hr₀ with ⟨-, hx⟩ | ⟨-, hr₁⟩
      · obtain rfl := Option.some.inj hx
        cases hs
      · rcases hch b hb with hb₀ | ⟨hba, -⟩
        · exact hpc ▸ h.succ p hp b hb₀ r₀ hr₁ hs
        · rw [hba, hfresh] at hr₁
          cases hr₁
  · intro th' hm c b hpc hl
    rcases hback hm with rfl | ⟨p, hp, -, hpc', -⟩
    · cases hpc
    · -- the child waited for has a record, so its tid is below the new one
      obtain ⟨-, r₀, hr₀, rfl⟩ := h.waiting p hp _ b (.inr (hpc'.trans hpc))
      rcases hlive hl with hl | hl
      · exact h.reading p hp _ b (hpc'.trans hpc) hl
      · exact absurd (hl ▸ h.rec_lt b r₀ hr₀) (Nat.lt_irrefl _)
  · intro th' hm htc
    rcases hback hm with rfl | ⟨p, hp, hpt, hpc, -⟩
    · obtain ⟨e, he, hen⟩ := List.mem_map.mp htc
      exact absurd (hen ▸ h.console_lt e he) (Nat.lt_irrefl _)
    · exact hpc ▸ h.console_live p hp (hpt ▸ htc)
  · intro e he
    exact Nat.lt_succ_of_lt (h.console_lt e he)

end Create

end WaitInv

/-! ## Every step keeps the invariant -/

section Steps

variable {s s' : Procs}

theorem waitInv_threadStep (h : WaitInv s) (htids : TidsOk s) {th : KThread}
    (hth : s.thread th.tid = some th) (hstep : ThreadStep s th s') : WaitInv s' := by
  -- a step between quiet places is a plain update; the waits and the exit have their lemmas
  have hquiet : ∀ {pc : Pc}, th.pc = pc → pc.quiet → th.pc.quiet := fun hpc hq => hpc ▸ hq
  cases hstep with
  | execFail hpc | createFail hpc | execCheck hpc | waitNone hpc | waitAgain hpc =>
    exact h.ret htids hth (hquiet hpc rfl) _
  | execCopy hpc | createNull hpc | startSpt hpc | startPagedir hpc =>
    exact h.goto_of_quiet htids hth (hquiet hpc rfl) rfl
  | create hpc _ hfresh =>
    exact (h.thread_create htids hth hfresh).goto_of_quiet (htids.thread_create _ _)
      (thread_create_thread hth) (hquiet hpc rfl) rfl
  | execDown hpc =>
    exact h.setThread_of_pc htids hth (fun _ => rfl) rfl rfl
      (Pc.iff_of_quiet rfl (hquiet hpc rfl))
  | startFail hpc =>
    have hq : th.pc.quiet := by rcases hpc with hpc | hpc <;> rw [hpc] <;> rfl
    exact h.setThread_of_pc htids hth (fun _ => rfl) rfl rfl (Pc.iff_of_quiet rfl hq)
  | startLoad ok hpc =>
    exact h.setThread_of_pc htids hth (fun _ => rfl) rfl rfl
      (Pc.iff_of_quiet rfl (hquiet hpc rfl))
  | @startSignal ok p pt hpc _ hpt =>
    -- the parent's own semaphore is not part of the invariant
    have h₁ : WaitInv (s.setThread p fun pt => { pt with sema_wait := pt.sema_wait + 1 }) :=
      h.setThread_of_pc htids hpt (fun _ => rfl) rfl rfl fun _ _ => Iff.rfl
    obtain ⟨th', hth', hth'_eq⟩ := @Procs.exists_thread_setThread s th.tid p th
      (fun pt => { pt with sema_wait := pt.sema_wait + 1 }) (fun _ => rfl) hth
    have hq : th'.pc.quiet := by rcases hth'_eq with rfl | rfl <;> exact hquiet hpc rfl
    have hq' : (if ok then Pc.user else Pc.exitWrite).quiet := by cases ok <;> rfl
    exact h₁.goto_of_quiet (htids.setThread p (by intro; rfl)) hth' hq hq'
  | waitBegin hpc hfind hc => exact h.waitBegin htids hth hpc hfind hc
  | waitDown hpc hc hpos => exact h.waitDown htids hth hpc hc hpos
  | waitRead hpc hc => exact h.waitRead htids hth hpc hc
  | exitWrite hpc ha hc => exact h.exitWrite htids hth hpc ha hc
  | exitSignal hpc ha hc => exact h.exitSignal htids hth hpc ha hc

theorem waitInv_step (h : WaitInv s) (htids : TidsOk s) (hstep : Step s s') : WaitInv s' := by
  cases hstep with
  | exec hth hpc | wait hth hpc =>
    exact h.goto_of_quiet htids hth (hpc ▸ rfl) rfl
  | exit hth hpc =>
    exact h.setThread_of_pc htids hth (fun _ => rfl) rfl rfl (Pc.iff_of_quiet rfl (hpc ▸ rfl))
  | run hth hrun =>
    obtain ⟨-, rfl⟩ := Procs.mem_of_thread hth
    exact waitInv_threadStep h htids hth hrun

theorem waitInv_init (hs : ProcInit s) : WaitInv s := by
  obtain ⟨t₀, -, hthreads, hrecords, hconsole⟩ := hs
  refine ⟨?_, ?_, ?_, ?_, ?_, ?_, ?_, ?_, ?_, ?_, ?_, ?_, ?_, ?_⟩ <;>
    simp [hthreads, hrecords, hconsole, mainThread]

theorem waitInv_reachable (hs : ProcReachable s) : WaitInv s :=
  Lts.Reachable.invariant_of tidsOk_reachable waitInv_init
    (fun htids hst h => waitInv_step h htids (procStep_step hst)) hs

end Steps

/-! ## What `process_wait` returns

Each lemma is one place of `process_wait` in a state where `WaitInv` holds: a wait on a tid
with no listed record returns `-1` at once; the first wait on a child marks its record; the
`sema_down` passes exactly when the child is gone; the read returns the one status the child
printed and drops its record, so a second wait finds none. A child's `thread_exit` never
blocks on its record. -/

section Wait

variable {s : Procs} {t : Tid} {p : KThread}

theorem wait_of_not_child (h : WaitInv s) (hth : s.thread t = some p) {c : Tid}
    (hpc : p.pc = .waitFind c) (hnone : ∀ a ∈ p.children, ∀ r, s.records a = some r → r.tid ≠ c)
    (o : Bool) (a' : Nat) : ProcStep s (.run t o a') (s.ret t (-1)) := by
  obtain ⟨hmem, rfl⟩ := Procs.mem_of_thread hth
  have hfind : find_child s p c = .ok none := by
    rw [find_child, findChild_eq_find? (h.listed p hmem), List.find?_eq_none.mpr]
    intro a ha
    obtain ⟨r, hr⟩ := Option.isSome_iff_exists.mp (h.listed p hmem a ha)
    simpa [hr] using hnone a ha r hr
  rw [procStep_run hth, runThread, hpc]
  simp only [hfind]

theorem wait_of_child (h : WaitInv s) (hth : s.thread t = some p) {c : Tid}
    (hpc : p.pc = .waitFind c) (hsome : ∃ a ∈ p.children, ∃ r, s.records a = some r ∧ r.tid = c)
    (o : Bool) (a' : Nat) : ∃ a r, a ∈ p.children ∧ s.records a = some r ∧ r.tid = c ∧
      ProcStep s (.run t o a') ((s.setRecord a (some { r with succ := true })).goto t
        (.waitDown c a)) := by
  obtain ⟨hmem, rfl⟩ := Procs.mem_of_thread hth
  -- `find_child` stops at the first record of the child
  obtain ⟨a, hfa⟩ : ∃ a, (p.children.find? fun a => (s.records a).any (·.tid = c)) = some a := by
    apply Option.ne_none_iff_exists'.mp
    rw [Ne, List.find?_eq_none]
    obtain ⟨a, ha, r, hr, hrc⟩ := hsome
    exact fun hall => hall a ha (by simp [hr, hrc])
  have ha := List.mem_of_find?_eq_some hfa
  obtain ⟨r, hr, hrc⟩ : ∃ r, s.records a = some r ∧ r.tid = c := by
    have hany := List.find?_some hfa
    obtain ⟨r, hr⟩ := Option.isSome_iff_exists.mp (h.listed p hmem a ha)
    exact ⟨r, hr, by simpa [hr] using hany⟩
  have hsucc : r.succ = false := by
    cases hs : r.succ
    · rfl
    · rcases h.succ p hmem a ha r hr hs with he | he <;> rw [hpc] at he <;> cases he
  have hfind : find_child s p c = .ok (some a) := by
    rw [find_child, findChild_eq_find? (h.listed p hmem), hfa]
  refine ⟨a, r, ha, hr, hrc, ?_⟩
  rw [procStep_run hth, runThread, hpc]
  simp only [hfind, hr, hsucc]
  rfl

/-- The `sema_down` of a wait passes exactly when the child has left. -/
theorem wait_enabled_iff (h : WaitInv s) (htids : TidsOk s) (hth : s.thread t = some p)
    {c a : Nat} (hpc : p.pc = .waitDown c a) (o : Bool) (a' : Nat) :
    (∃ s', ProcStep s (.run t o a') s') ↔ ¬ s.live c := by
  obtain ⟨hmem, rfl⟩ := Procs.mem_of_thread hth
  obtain ⟨ha, r, hr, rfl⟩ := h.waiting p hmem c a (.inl hpc)
  have hsema : r.sema_wait ≠ 0 ↔ ¬ s.live r.tid := by
    constructor
    · -- a live child owns the record and has not upped it
      intro hs hl
      obtain ⟨c', hc', htc⟩ := List.mem_map.mp hl
      obtain ⟨r₁, hr₁, -, hs₁, -⟩ := h.info c' hc' a (h.owner a r hr c' hc' htc)
      rw [hr] at hr₁
      obtain rfl := Option.some.inj hr₁
      exact hs hs₁
    · -- a gone child has upped it, as no one reads it yet
      intro hd
      rcases (h.exited a r hr hd).2 with h1 | ⟨q, hq, hqpc⟩
      · omega
      · have hqp := htids.eq_of_tid hq hmem (h.disjoint q hq p hmem a (h.waiting q hq _ a (.inr hqpc)).1 ha)
        rw [hqp, hpc] at hqpc
        cases hqpc
  rw [← hsema]
  simp only [procStep_run hth, runThread, hpc, hr]
  by_cases h0 : r.sema_wait = 0 <;> simp [h0]

/-- The read after the `sema_down` returns the status the child printed, the only one it
printed, and no record of the child is left in the list. -/
theorem wait_returns_status (h : WaitInv s) (hth : s.thread t = some p) {c a : Nat}
    (hpc : p.pc = .waitRead c a) : ∃ st, (c, st) ∈ s.console ∧
      (∀ st', (c, st') ∈ s.console → st' = st) ∧ ∀ (o : Bool) (a' : Nat), ∃ s',
        ProcStep s (.run t o a') s' ∧
        s'.thread t = some { p with children := p.children.erase a, eax := st, pc := .user } ∧
        ∀ b ∈ p.children.erase a, ∀ r, s'.records b = some r → r.tid ≠ c := by
  obtain ⟨hmem, rfl⟩ := Procs.mem_of_thread hth
  obtain ⟨ha, r, hr, rfl⟩ := h.waiting p hmem c a (.inr hpc)
  obtain ⟨hcon, -⟩ := h.exited a r hr (h.reading p hmem _ a hpc)
  refine ⟨r.st_exit, hcon, fun st' hst' => ?_, fun o a' =>
    ⟨(s.setRecord a none).setThread p.tid fun th =>
      { th with children := th.children.erase a, eax := r.st_exit, pc := .user }, ?_, ?_, ?_⟩⟩
  · exact congrArg Prod.snd (List.inj_on_of_nodup_map h.console_nodup hst' hcon rfl)
  · rw [procStep_run hth, runThread, hpc]
    simp only [hr]
  · exact Procs.thread_setThread_self hth _ fun _ => rfl
  · intro b hb r₀ hr₀ hrc
    obtain ⟨hba, -⟩ := (h.nodup p hmem).mem_erase_iff.mp hb
    rw [Procs.setThread_records, Procs.records_setRecord_of_ne s _ hba] at hr₀
    exact hba (h.rec_inj b a r₀ r hr₀ hr hrc)

/-- `thread_exit` of a created thread never blocks on its record. -/
theorem exit_enabled (h : WaitInv s) (hth : s.thread t = some p) {a : Nat}
    (ha : p.child_info = some a) (hpc : p.pc = .exitWrite ∨ p.pc = .exitSignal) (o : Bool)
    (a' : Nat) : ∃ s', ProcStep s (.run t o a') s' := by
  obtain ⟨r, hr, -⟩ := h.info p (Procs.mem_of_thread hth).1 a ha
  simp only [procStep_run hth, runThread]
  rcases hpc with hpc | hpc <;> simp [hpc, ha, hr]

end Wait

/-- In every reachable state `process_wait` behaves as its comment says: `-1` at once for a tid
that is not a child or has been waited for, the first wait blocks until the child has left, and
then returns the status the child printed; a child's exit never blocks. -/
theorem process_wait_returns_exit_status {s : Procs} {t : Tid} {p : KThread}
    (hs : ProcReachable s) (hth : s.thread t = some p) :
    (∀ c, p.pc = .waitFind c → (∀ a ∈ p.children, ∀ r, s.records a = some r → r.tid ≠ c) →
      ∀ o a', ProcStep s (.run t o a') (s.ret t (-1))) ∧
    (∀ c, p.pc = .waitFind c → (∃ a ∈ p.children, ∃ r, s.records a = some r ∧ r.tid = c) →
      ∀ o a', ∃ a s', ProcStep s (.run t o a') s' ∧
        s'.thread t = some { p with pc := .waitDown c a }) ∧
    (∀ c a, p.pc = .waitDown c a → ∀ o a', (∃ s', ProcStep s (.run t o a') s') ↔ ¬ s.live c) ∧
    (∀ c a, p.pc = .waitRead c a → ∃ st, (c, st) ∈ s.console ∧
      (∀ st', (c, st') ∈ s.console → st' = st) ∧ ∀ o a', ∃ s', ProcStep s (.run t o a') s' ∧
        s'.thread t = some { p with children := p.children.erase a, eax := st, pc := .user } ∧
        ∀ b ∈ p.children.erase a, ∀ r, s'.records b = some r → r.tid ≠ c) ∧
    (∀ a, p.child_info = some a → (p.pc = .exitWrite ∨ p.pc = .exitSignal) →
      ∀ o a', ∃ s', ProcStep s (.run t o a') s') := by
  have h := waitInv_reachable hs
  have htids := tidsOk_reachable hs
  refine ⟨fun c hpc hnone o a' => wait_of_not_child h hth hpc hnone o a', ?_,
    fun c a hpc o a' => wait_enabled_iff h htids hth hpc o a',
    fun c a hpc => wait_returns_status h hth hpc, fun a ha hpc o a' => exit_enabled h hth ha hpc o a'⟩
  intro c hpc hsome o a'
  obtain ⟨a, r, -, -, -, hstep⟩ := wait_of_child h hth hpc hsome o a'
  exact ⟨a, _, hstep, Procs.thread_goto hth _⟩

/-! ## A wait on a child that has exited -/

/-- `exec ("child")` by thread `1` and the child's load, `wait (2)` by the parent, the child's
`exit (81)` and the parent's `sema_down`. -/
def waitRun : List ProcOp :=
  [.exec 1 ['c', 'h', 'i', 'l', 'd'], .run 1 true 0, .run 1 true 0xc0103000,
   .run 2 true 0, .run 2 true 0, .run 2 true 0, .run 2 true 0, .run 1 true 0, .run 1 true 0,
   .wait 1 2, .run 1 true 0, .exit 2 81, .run 2 true 0, .run 2 true 0, .run 1 true 0]

/-- The state with the parent about to read the record. -/
def waitReadState : Procs := (procRun execBoot waitRun).getD execBoot

/-- The parent there. -/
def parentAtRead : KThread := (waitReadState.thread 1).getD (mainThread 1)

theorem waitReadState_reachable : ProcReachable waitReadState := by
  have hrun : procRun execBoot waitRun = some waitReadState := by rfl
  exact Lts.Reachable.of_run ⟨1, by decide, rfl, rfl, rfl⟩ (run_of_procRun hrun)

theorem process_wait_returns_exit_status_of_exited_child :
    ProcReachable waitReadState ∧ waitReadState.thread 1 = some parentAtRead ∧
    ((∀ c, parentAtRead.pc = .waitFind c →
      (∀ a ∈ parentAtRead.children, ∀ r, waitReadState.records a = some r → r.tid ≠ c) →
      ∀ o a', ProcStep waitReadState (.run 1 o a') (waitReadState.ret 1 (-1))) ∧
    (∀ c, parentAtRead.pc = .waitFind c →
      (∃ a ∈ parentAtRead.children, ∃ r, waitReadState.records a = some r ∧ r.tid = c) →
      ∀ o a', ∃ a s', ProcStep waitReadState (.run 1 o a') s' ∧
        s'.thread 1 = some { parentAtRead with pc := .waitDown c a }) ∧
    (∀ c a, parentAtRead.pc = .waitDown c a → ∀ o a',
      (∃ s', ProcStep waitReadState (.run 1 o a') s') ↔ ¬ waitReadState.live c) ∧
    (∀ c a, parentAtRead.pc = .waitRead c a → ∃ st, (c, st) ∈ waitReadState.console ∧
      (∀ st', (c, st') ∈ waitReadState.console → st' = st) ∧ ∀ o a', ∃ s',
        ProcStep waitReadState (.run 1 o a') s' ∧
        s'.thread 1 = some
          { parentAtRead with children := parentAtRead.children.erase a, eax := st, pc := .user } ∧
        ∀ b ∈ parentAtRead.children.erase a, ∀ r, s'.records b = some r → r.tid ≠ c) ∧
    (∀ a, parentAtRead.child_info = some a →
      (parentAtRead.pc = .exitWrite ∨ parentAtRead.pc = .exitSignal) →
      ∀ o a', ∃ s', ProcStep waitReadState (.run 1 o a') s')) := by
  have hth : waitReadState.thread 1 = some parentAtRead := by rfl
  exact ⟨waitReadState_reachable, hth,
    process_wait_returns_exit_status waitReadState_reachable hth⟩

/-- There the parent reads `81`, the status its child printed. -/
example : parentAtRead.pc = .waitRead 2 0xc0103000 ∧ waitReadState.console = [(2, 81)] := by
  decide

end Pintos
