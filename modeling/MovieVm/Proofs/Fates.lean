import Mathlib.Data.List.Nodup
import MovieVm.Proofs.Histories

/-!
# The fates of tasks

The record of a history is read as a ledger: an id comes in when a task is scheduled or queued again, and it goes
out when the task starts, is removed or is dropped. The ledger balances, so no task is lost and none that does not
repeat starts twice, and an id that has been struck off never starts again.
-/

namespace MovieVm

namespace Schedule

/-! ## Lines of the ledger -/

/-- What a line of the record says of ids. -/
structure Line where
  issued : List Nat := []
  requeued : List Nat := []
  executed : List Nat := []
  removed : List Nat := []
  discarded : List Nat := []
  struck : List Nat := []

/-- A task that cancels itself while it runs is not removed, but it is not to start again either. -/
def Note.line : Note α → Line
  | .scheduled id _ => { issued := [id] }
  | .cancelled caller id true => { removed := if caller = some id then [] else [id], struck := [id] }
  | .cancelled _ _ false => {}
  | .cancelledCurrent id => { struck := [id] }
  | .started due _ => { executed := [due.id] }
  | .repeated id => { requeued := [id] }
  | .failed id _ => { struck := [id] }
  | .dropped ids => { discarded := ids }

/-- The ids in one column of the record. -/
def column (of : Line → List Nat) (notes : List (Note α)) : List Nat :=
  notes.flatMap fun n => of n.line

theorem column_cons (of : Line → List Nat) (n : Note α) (notes : List (Note α)) :
    column of (n :: notes) = of n.line ++ column of notes :=
  List.flatMap_cons

@[simp]
theorem column_append (of : Line → List Nat) (front back : List (Note α)) :
    column of (front ++ back) = column of front ++ column of back :=
  List.flatMap_append

@[simp]
theorem column_singleton (of : Line → List Nat) (n : Note α) : column of [n] = of n.line :=
  List.flatMap_singleton ..

/-- The ids in the queue. -/
def ids (s : Schedule α) : List Nat :=
  s.tasks.map (·.id)

/-- A task was scheduled under the id with the interval. -/
def Known (notes : List (Note α)) (id : Nat) (interval : Option Double) : Prop :=
  ∃ task, .scheduled id task ∈ notes ∧ task.interval = interval

section

variable {s : Schedule α} {notes : List (Note α)} {id : Nat} {interval : Option Double}

theorem Known.mono (h : Known notes id interval) (n : Note α) : Known (notes ++ [n]) id interval := by
  obtain ⟨task, hmem, hinterval⟩ := h
  exact ⟨task, List.mem_append_left _ hmem, hinterval⟩

theorem mem_issued {task : MicroTask α} (h : .scheduled id task ∈ notes) : id ∈ column (·.issued) notes :=
  List.mem_flatMap.2 ⟨_, h, List.mem_singleton_self id⟩

theorem Known.issued (h : Known notes id interval) : id ∈ column (·.issued) notes := by
  obtain ⟨task, hmem, _⟩ := h
  exact mem_issued hmem

/-- An id that was issued once stands for one task. -/
theorem eq_of_scheduled {task task' : MicroTask α} (hdistinct : (column (·.issued) notes).Nodup)
    (h : .scheduled id task ∈ notes) (h' : .scheduled id task' ∈ notes) : task = task' := by
  induction notes with
  | nil => cases h
  | cons n notes ih =>
    obtain ⟨_, htail, hacross⟩ := List.nodup_append.1 (column_cons .. ▸ hdistinct)
    rcases List.mem_cons.1 h with hhead | hmem
    · subst hhead
      rcases List.mem_cons.1 h' with heq | hmem'
      · exact (Note.scheduled.inj heq).2.symm
      · cases hacross id (List.mem_singleton_self id) id (mem_issued hmem') rfl
    · rcases List.mem_cons.1 h' with hhead | hmem'
      · subst hhead
        cases hacross id (List.mem_singleton_self id) id (mem_issued hmem) rfl
      · exact ih htail hmem hmem'

theorem contains_iff : s.contains id = true ↔ id ∈ s.ids := by
  simp [contains, ids]

/-- A running task can cancel itself and what is queued. -/
theorem running_cancel_iff (r : Running α) (id : Nat) :
    (r.cancel id).1 = true ↔ id = r.id ∨ id ∈ r.schedule.ids := by
  rw [Running.cancel]
  split
  · rename_i hid
    exact iff_of_true rfl (.inl hid)
  · rename_i hid
    rw [or_iff_right hid]
    exact contains_iff

theorem ids_cancel : (s.cancel id).2.ids = s.ids.filter (· ≠ id) := by
  rw [ids, ids, cancel, List.filter_map]
  rfl

theorem ids_cancel_of_not_mem (h : id ∉ s.ids) : (s.cancel id).2.ids = s.ids := by
  rw [ids_cancel, List.filter_eq_self]
  intro other hother
  exact decide_eq_true fun heq => h (heq ▸ hother)

/-- A task that is queued once is gone after its cancellation, and the others are not. -/
theorem count_ids_cancel (hsingle : s.ids.Nodup) (hin : id ∈ s.ids) (other : Nat) :
    s.ids.count other = (s.cancel id).2.ids.count other + [id].count other := by
  rw [ids_cancel]
  by_cases heq : other = id
  · subst heq
    have hgone : (s.ids.filter (· ≠ other)).count other = 0 := List.count_eq_zero.2 (by simp)
    rw [hgone, List.count_eq_one_of_mem hsingle hin, List.count_singleton_self]
  · have hkept : (s.ids.filter (· ≠ id)).count other = s.ids.count other :=
      List.count_filter (decide_eq_true heq)
    have hother : [id].count other = 0 := List.count_eq_zero.2 fun hmem => heq (List.mem_singleton.1 hmem)
    rw [hkept, hother, Nat.add_zero]

theorem perm_ids_push (s : Schedule α) (id : Nat) (time : Double) (task : MicroTask α) :
    (s.push id time task).ids.Perm (id :: s.ids) :=
  (perm_insert _ _).map _

end

/-! ## The ledger -/

/-- What came in under an id is queued, was started, was removed or was dropped. -/
structure Ledger (s : Schedule α) (notes : List (Note α)) : Prop where
  fresh : ∀ id ∈ column (·.issued) notes, id < s.nextId
  distinct : (column (·.issued) notes).Nodup
  single : s.ids.Nodup
  known : ∀ t ∈ s.tasks, Known notes t.id t.task.interval
  repeating : ∀ id ∈ column (·.requeued) notes, ∃ interval, Known notes id (some interval)
  balance : ∀ id, (column (·.issued) notes).count id + (column (·.requeued) notes).count id =
    s.ids.count id + (column (·.executed) notes).count id + (column (·.removed) notes).count id +
      (column (·.discarded) notes).count id
  struck : ∀ id ∈ column (·.struck) notes, id ∈ column (·.issued) notes ∧ id ∉ s.ids
  final : notes.Pairwise fun n m => ∀ id ∈ n.line.struck, id ∉ m.line.executed

/-- The task that runs is not queued, and it is marked when it has been struck off. -/
structure Ledger.Runs (due : DueTask α) (r : Running α) (notes : List (Note α)) : Prop where
  ledger : Ledger r.schedule notes
  id_eq : r.id = due.id
  away : due.id ∉ r.schedule.ids
  known : Known notes due.id due.task.interval
  marked : due.id ∈ column (·.struck) notes → r.isCancelled = true

namespace Ledger

variable {s s' : Schedule α} {notes : List (Note α)} {n : Note α} {r : Running α} {due : DueTask α} {id : Nat}

theorem new : Ledger ({} : Schedule α) [] where
  fresh := nofun
  distinct := .nil
  single := .nil
  known := nofun
  repeating := nofun
  balance _ := rfl
  struck := nofun
  final := .nil

theorem mem_issued (h : Ledger s notes) (hid : id ∈ s.ids) : id ∈ column (·.issued) notes := by
  obtain ⟨t, ht, rfl⟩ := List.mem_map.1 hid
  exact (h.known t ht).issued

theorem nextId_not_mem (h : Ledger s notes) : s.nextId ∉ column (·.issued) notes :=
  fun hmem => Nat.lt_irrefl _ (h.fresh _ hmem)

theorem final_append (h : Ledger s notes) (hexecuted : ∀ id ∈ n.line.executed, id ∉ column (·.struck) notes) :
    (notes ++ [n]).Pairwise fun n m => ∀ id ∈ n.line.struck, id ∉ m.line.executed := by
  refine List.pairwise_append.2 ⟨h.final, List.pairwise_singleton _ _, ?_⟩
  intro m hm k hk id hstruck hmem
  obtain rfl := List.mem_singleton.1 hk
  exact hexecuted id hmem (List.mem_flatMap.2 ⟨m, hm, hstruck⟩)

/-- The stop signal is not in the ledger. -/
theorem signal (h : Ledger s notes) (isStopped : Bool) : Ledger { s with isStopped } notes :=
  ⟨h.fresh, h.distinct, h.single, h.known, h.repeating, h.balance, h.struck, h.final⟩

/-- A line that brings in no id may take ids out of the queue. -/
theorem leave (h : Ledger s notes) {executed removed discarded struck : List Nat}
    (hline : n.line = { executed, removed, discarded, struck }) (hnext : s'.nextId = s.nextId)
    (htasks : s'.tasks.Sublist s.tasks)
    (hbalance : ∀ id, s.ids.count id =
      s'.ids.count id + executed.count id + removed.count id + discarded.count id)
    (hstruck : ∀ id ∈ struck, id ∈ column (·.issued) notes ∧ id ∉ s'.ids)
    (hexecuted : ∀ id ∈ executed, id ∉ column (·.struck) notes) : Ledger s' (notes ++ [n]) := by
  have hids : s'.ids.Sublist s.ids := htasks.map _
  have hissued : column (·.issued) (notes ++ [n]) = column (·.issued) notes := by
    rw [column_append, column_singleton, hline, List.append_nil]
  have hrequeued : column (·.requeued) (notes ++ [n]) = column (·.requeued) notes := by
    rw [column_append, column_singleton, hline, List.append_nil]
  refine ⟨?_, ?_, h.single.sublist hids, fun t ht => (h.known t (htasks.subset ht)).mono n, ?_, ?_, ?_,
    h.final_append (hline ▸ hexecuted)⟩
  · rw [hissued, hnext]
    exact h.fresh
  · rw [hissued]
    exact h.distinct
  · rw [hrequeued]
    intro id hid
    obtain ⟨interval, hknown⟩ := h.repeating id hid
    exact ⟨interval, hknown.mono n⟩
  · intro id
    have hbefore := h.balance id
    have hgone := hbalance id
    rw [hissued, hrequeued]
    simp only [column_append, column_singleton, hline, List.count_append]
    omega
  · rw [hissued, column_append, column_singleton, hline]
    intro id hid
    rcases List.mem_append.1 hid with hid | hid
    · exact ⟨(h.struck id hid).1, fun hmem => (h.struck id hid).2 (hids.subset hmem)⟩
    · exact hstruck id hid

/-- A line may strike off an id that is not queued. -/
theorem strike (h : Ledger s notes) {struck : List Nat} (hline : n.line = { struck })
    (hstruck : ∀ id ∈ struck, id ∈ column (·.issued) notes ∧ id ∉ s.ids) : Ledger s (notes ++ [n]) :=
  h.leave hline rfl (.refl _) (fun _ => rfl) hstruck nofun

/-- A line that brings in an id queues it. -/
theorem enter (h : Ledger s notes) {issued requeued : List Nat} (hline : n.line = { issued, requeued })
    (hid : issued ++ requeued = [id]) {time : Double} {task : MicroTask α}
    (htasks : s'.tasks = (s.push id time task).tasks) (hids : id ∉ s.ids) (hstruck : id ∉ column (·.struck) notes)
    (hfresh : ∀ id ∈ column (·.issued) notes ++ issued, id < s'.nextId)
    (hdistinct : (column (·.issued) notes ++ issued).Nodup) (hknown : Known (notes ++ [n]) id task.interval)
    (hrepeating : ∀ id ∈ requeued, ∃ interval, Known (notes ++ [n]) id (some interval)) :
    Ledger s' (notes ++ [n]) := by
  have hperm : s'.ids.Perm (id :: s.ids) := by
    rw [ids, htasks]
    exact perm_ids_push s id time task
  have hissued : column (·.issued) (notes ++ [n]) = column (·.issued) notes ++ issued := by
    rw [column_append, column_singleton, hline]
  have hrequeued : column (·.requeued) (notes ++ [n]) = column (·.requeued) notes ++ requeued := by
    rw [column_append, column_singleton, hline]
  refine ⟨?_, ?_, hperm.nodup_iff.2 (List.nodup_cons.2 ⟨hids, h.single⟩), ?_, ?_, ?_, ?_,
    h.final_append (by rw [hline]; exact nofun)⟩
  · rw [hissued]
    exact hfresh
  · rw [hissued]
    exact hdistinct
  · intro t ht
    rw [htasks] at ht
    rcases mem_insert.1 ht with rfl | ht
    · exact hknown
    · exact (h.known t ht).mono n
  · rw [hrequeued]
    intro other hother
    rcases List.mem_append.1 hother with hother | hother
    · obtain ⟨interval, hknown⟩ := h.repeating other hother
      exact ⟨interval, hknown.mono n⟩
    · exact hrepeating other hother
  · intro other
    have hbefore := h.balance other
    have hcount := congrArg (List.count other) hid
    rw [hissued, hrequeued, hperm.count_eq]
    simp only [column_append, column_singleton, hline, List.count_append, List.count_cons, List.count_nil] at *
    omega
  · rw [hissued, column_append, column_singleton, hline, List.append_nil]
    intro other hother
    obtain ⟨hmem, hout⟩ := h.struck other hother
    refine ⟨List.mem_append_left _ hmem, fun hin => ?_⟩
    rcases List.mem_cons.1 (hperm.subset hin) with rfl | hin
    · exact hstruck hother
    · exact hout hin

/-! ## Moves -/

theorem add (h : Ledger s notes) (task : MicroTask α) :
    Ledger (s.add task).2 (notes ++ [.scheduled (s.add task).1 task]) := by
  have hnew := h.nextId_not_mem
  refine h.enter rfl rfl rfl (fun hmem => hnew (h.mem_issued hmem)) (fun hmem => hnew (h.struck _ hmem).1)
    ?_ ?_ ?_ nofun
  · intro id hid
    rcases List.mem_append.1 hid with hid | hid
    · exact Nat.lt_succ_of_lt (h.fresh id hid)
    · obtain rfl := List.mem_singleton.1 hid
      exact Nat.lt_succ_self _
  · refine List.nodup_append.2 ⟨h.distinct, List.nodup_singleton _, ?_⟩
    intro id hid other hother heq
    obtain rfl := List.mem_singleton.1 hother
    exact hnew (Eq.subst heq hid)
  · exact ⟨task, List.mem_append_right _ (List.mem_singleton_self _), rfl⟩

/-- A cancellation that finds its task takes it out of the queue; one that does not leaves the queue as it is. -/
theorem cancel (h : Ledger s notes) {caller : Option Nat} (hcaller : caller ≠ some id) :
    Ledger (s.cancel id).2 (notes ++ [.cancelled caller id (s.cancel id).1]) := by
  have hsublist : (s.cancel id).2.tasks.Sublist s.tasks := List.filter_sublist
  cases hfound : s.contains id with
  | false =>
    have hout : id ∉ s.ids := fun hmem => by
      cases hfound.symm.trans (contains_iff.2 hmem)
    have hline : (Note.cancelled caller id (s.cancel id).1 : Note α).line = {} := by
      rw [Schedule.cancel, hfound]
      rfl
    exact h.leave hline rfl hsublist (fun other => by rw [ids_cancel_of_not_mem hout]; rfl) nofun nofun
  | true =>
    have hin : id ∈ s.ids := contains_iff.1 hfound
    have hline : (Note.cancelled caller id (s.cancel id).1 : Note α).line = { removed := [id], struck := [id] } := by
      rw [Schedule.cancel, hfound, Note.line, if_neg hcaller]
    refine h.leave hline rfl hsublist (count_ids_cancel h.single hin) ?_ nofun
    intro other hother
    obtain rfl := List.mem_singleton.1 hother
    refine ⟨h.mem_issued hin, ?_⟩
    rw [ids_cancel]
    simp

theorem clear (h : Ledger s notes) : Ledger s.clear (notes ++ [.dropped (s.tasks.map (·.id))]) := by
  refine h.leave rfl rfl (List.nil_sublist _) ?_ nofun nofun
  intro id
  exact (Nat.zero_add _).symm

/-- The first task leaves the queue for its start. -/
theorem start {tasks : List (DueTask α)} (h : Ledger s notes) (htasks : s.tasks = due :: tasks) (now : Double) :
    Runs due (start { s with tasks } due) (notes ++ [.started due now]) := by
  have hdue : due ∈ s.tasks := htasks ▸ List.mem_cons_self
  have hids : s.ids = due.id :: tasks.map (·.id) := by
    rw [ids, htasks, List.map_cons]
  have hin : due.id ∈ s.ids := hids ▸ List.mem_cons_self
  have hunstruck : due.id ∉ column (·.struck) notes := fun hmem => (h.struck _ hmem).2 hin
  refine ⟨?_, rfl, (List.nodup_cons.1 (hids ▸ h.single)).1, (h.known due hdue).mono _, fun hmem => ?_⟩
  · refine h.leave rfl rfl (htasks ▸ List.sublist_cons_self due tasks) ?_ nofun ?_
    · intro id
      have hcount : s.ids.count id = [due.id].count id + (tasks.map (·.id)).count id := by
        rw [hids, ← List.singleton_append, List.count_append]
      rw [hcount, Nat.add_comm]
      rfl
    · intro id hid
      obtain rfl := List.mem_singleton.1 hid
      exact hunstruck
  · rw [column_append, column_singleton, List.mem_append] at hmem
    rcases hmem with hmem | hmem
    · cases hunstruck hmem
    · cases hmem

namespace Runs

/-- The running task is struck off and marked. -/
theorem strike (h : Runs due r notes) (hline : n.line = { struck := [due.id] }) :
    Runs due r.cancelCurrent (notes ++ [n]) where
  ledger := by
    apply h.ledger.strike hline
    intro id hid
    obtain rfl := List.mem_singleton.1 hid
    exact ⟨h.known.issued, h.away⟩
  id_eq := h.id_eq
  away := h.away
  known := h.known.mono n
  marked _ := rfl

/-- A line that does not strike the running task off leaves it as it is. -/
theorem pass (h : Runs due r notes) {schedule : Schedule α} (hledger : Ledger schedule (notes ++ [n]))
    (haway : due.id ∉ schedule.ids) (hstruck : due.id ∉ n.line.struck) :
    Runs due { r with schedule } (notes ++ [n]) := by
  refine ⟨hledger, h.id_eq, haway, h.known.mono n, fun hmem => h.marked ?_⟩
  rw [column_append, column_singleton] at hmem
  exact (List.mem_append.1 hmem).resolve_right hstruck

theorem add (h : Runs due r notes) (task : MicroTask α) :
    Runs due (r.grant (.add task)) (notes ++ [.scheduled (r.add task).1 task]) := by
  refine h.pass (h.ledger.add task) (fun hmem => ?_) nofun
  -- The new id is none that was issued before.
  rcases List.mem_cons.1 ((perm_ids_push ..).subset hmem) with heq | hin
  · exact h.ledger.nextId_not_mem (heq ▸ h.known.issued)
  · exact h.away hin

theorem cancel (h : Runs due r notes) (id : Nat) :
    Runs due (r.grant (.cancel id)) (notes ++ [.cancelled (some r.id) id (r.cancel id).1]) := by
  rw [Running.grant, Running.cancel]
  by_cases hid : id = r.id
  · rw [if_pos hid]
    refine h.strike ?_
    rw [Note.line, if_pos (congrArg some hid.symm), hid, h.id_eq]
  · rw [if_neg hid]
    refine h.pass (h.ledger.cancel fun heq => hid (Option.some.inj heq).symm) (fun hmem => ?_) (fun hmem => ?_)
    · rw [ids_cancel] at hmem
      exact h.away (List.mem_of_mem_filter hmem)
    · cases hfound : (r.schedule.cancel id).1 with
      | false =>
        simp only [hfound, Note.line] at hmem
        cases hmem
      | true =>
        simp only [hfound, Note.line] at hmem
        exact hid ((List.mem_singleton.1 hmem).symm.trans h.id_eq.symm)

theorem grant (h : Runs due r notes) (q : Request α) : Runs due (r.grant q) (notes ++ r.note q) := by
  cases q with
  | add task => exact h.add task
  | cancel id => exact h.cancel id
  | cancelCurrent => exact h.strike (congrArg (fun id => ({ struck := [id] } : Line)) h.id_eq)
  | stop =>
    rw [Running.note, List.append_nil]
    exact ⟨h.ledger.signal true, h.id_eq, h.away, h.known, h.marked⟩

/-- A task that has not been struck off is queued again. -/
theorem again (h : Runs due r notes) (hcancelled : r.isCancelled = false) {interval : Double}
    (hinterval : interval ∈ due.task.interval) (time : Double) (action : α) :
    Ledger (r.schedule.push due.id time { due.task with action }) (notes ++ [.repeated due.id]) := by
  have hstruck : due.id ∉ column (·.struck) notes := fun hmem => by
    cases hcancelled.symm.trans (h.marked hmem)
  refine h.ledger.enter rfl rfl rfl h.away hstruck ?_ ?_ (h.known.mono _) fun id hid => ?_
  · rw [List.append_nil]
    exact h.ledger.fresh
  · rw [List.append_nil]
    exact h.ledger.distinct
  · obtain rfl := List.mem_singleton.1 hid
    exact ⟨interval, hinterval ▸ h.known.mono _⟩

theorem fail (h : Runs due r notes) (e : VmError) : Ledger r.schedule (notes ++ [.failed due.id e]) := by
  apply h.ledger.strike rfl
  intro id hid
  obtain rfl := List.mem_singleton.1 hid
  exact ⟨h.known.issued, h.away⟩

end Runs

theorem invariant : Invariant (α := α) Ledger Runs where
  add h task := h.add task
  cancel h _ := h.cancel nofun
  clear h := h.clear
  signal h isStopped := h.signal isStopped
  start h htasks := h.start htasks _
  grant h q := h.grant q
  fail h e := h.fail e
  rest h := h.ledger
  again h hcancelled _ hinterval action := h.again hcancelled hinterval _ action

/-- A task that does not repeat comes in once. -/
theorem count_issued (h : Ledger s notes) {task : MicroTask α} (hmem : .scheduled id task ∈ notes)
    (hinterval : task.interval = none) :
    (column (·.issued) notes).count id = 1 ∧ (column (·.requeued) notes).count id = 0 := by
  refine ⟨List.count_eq_one_of_mem h.distinct (Schedule.mem_issued hmem), List.count_eq_zero.2 fun hrepeated => ?_⟩
  obtain ⟨interval, other, hother, hsome⟩ := h.repeating id hrepeated
  obtain rfl := eq_of_scheduled h.distinct hmem hother
  cases hinterval.symm.trans hsome

end Ledger

/-! ## Fates -/

/-- What can become of a task. -/
inductive Fate where
  | queued
  | executed
  | removed
  | dropped
deriving DecidableEq

/-- The ids that have met a fate. -/
def Fate.ids (h : History α) : Fate → List Nat
  | .queued => h.schedule.ids
  | .executed => column (·.executed) h.notes
  | .removed => column (·.removed) h.notes
  | .dropped => column (·.discarded) h.notes

/-- When four numbers come to one, one of them is one and the others are nothing. -/
theorem Fate.exists_of_sum (count : Fate → Nat)
    (h : count .queued + count .executed + count .removed + count .dropped = 1) :
    ∃ fate, count fate = 1 ∧ ∀ other, other ≠ fate → count other = 0 := by
  have hone : count .queued = 1 ∨ count .executed = 1 ∨ count .removed = 1 ∨ count .dropped = 1 := by
    omega
  obtain ⟨fate, hfate⟩ : ∃ fate, count fate = 1 := by
    rcases hone with hone | hone | hone | hone <;> exact ⟨_, hone⟩
  refine ⟨fate, hfate, fun other hother => ?_⟩
  cases fate <;> cases other <;> first | contradiction | omega

variable {σ : Type} (c : Conduct σ α) (moves : List (Move σ α))

theorem ledger_history : Ledger (c.history moves).schedule (c.history moves).notes :=
  Ledger.invariant.history .new c moves

/-- The ids of a history are distinct and queued at most once, a task that does not repeat is queued, was executed
once, was removed or was dropped, and only one of these, a cancellation tells whether the task was there, and a task
that was cancelled or has failed is not queued and does not start again. Runs are a part of these histories. -/
theorem task_fates (c : Conduct σ α) (moves : List (Move σ α)) :
    let h := c.history moves
    (column (·.issued) h.notes).Nodup ∧ h.schedule.ids.Nodup ∧
    (∀ id task, .scheduled id task ∈ h.notes → task.interval = none →
      ∃ fate : Fate, (fate.ids h).count id = 1 ∧ ∀ other, other ≠ fate → id ∉ Fate.ids h other) ∧
    (∀ id, (h.schedule.cancel id).1 = true ↔ id ∈ h.schedule.ids) ∧
    (∀ (r : Running α) id, (r.cancel id).1 = true ↔ id = r.id ∨ id ∈ r.schedule.ids) ∧
    (∀ before n after, h.notes = before ++ n :: after → ∀ id ∈ n.line.struck,
      id ∉ h.schedule.ids ∧ id ∉ column (·.executed) after) ∧
    ∀ limits clears fuel world ran, h.schedule.run c.behaviour limits clears fuel world = some ran →
      ∃ worlds : List σ, (c.history (moves ++ Move.ofRun worlds clears)).schedule = ran.schedule ∧
        ∀ summary, ran.result = .ok summary →
          (starts (c.history (moves ++ Move.ofRun worlds clears)).notes).length =
            (starts h.notes).length + summary.executed := by
  have h := ledger_history c moves
  refine ⟨h.distinct, h.single, ?_, fun id => contains_iff, running_cancel_iff, ?_, ?_⟩
  · intro id task hmem hinterval
    obtain ⟨hissued, hrequeued⟩ := h.count_issued hmem hinterval
    have hbalance := h.balance id
    rw [hissued, hrequeued] at hbalance
    obtain ⟨fate, hone, hnone⟩ :=
      Fate.exists_of_sum (fun fate => (fate.ids (c.history moves)).count id) hbalance.symm
    exact ⟨fate, hone, fun other hother => List.count_eq_zero.1 (hnone other hother)⟩
  · intro before n after hnotes id hid
    have hstruck : id ∈ column (·.struck) (c.history moves).notes :=
      List.mem_flatMap.2 ⟨n, hnotes ▸ List.mem_append_right _ List.mem_cons_self, hid⟩
    refine ⟨(h.struck id hstruck).2, fun hexecuted => ?_⟩
    obtain ⟨m, hm, hstarted⟩ := List.mem_flatMap.1 hexecuted
    have hfinal := (List.pairwise_append.1 (hnotes ▸ h.final)).2.1
    exact (List.pairwise_cons.1 hfinal).1 m hm id hid hstarted
  · intro limits clears fuel world ran hrun
    simp only [c.history_append]
    exact exists_worlds_of_run c (c.history moves) hrun

end Schedule

end MovieVm
