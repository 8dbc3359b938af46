import CartaZarr.Foundations.Walk
import CartaZarr.WorkPool.Runs

/-!
# Splitting a read among the pool

A reduction gives each task an accumulator of its own and a contiguous run of rows, chunk cells or
whatever it counts in (`taskRows`), and never asks for more tasks than it has accumulators
(`TaskSplit.most`). Whatever the order the pool runs the tasks in, the calls of the body are those
`SplitCalls` says: the runs are the pieces of `[0, units)`, and no accumulator is used twice
(`taskSplit_run`).
-/

namespace CartaZarr

open Word

/-- The pixels below which a task is not worth its share of a dispatch. -/
def kLeastPixelsPerTask : ℕ := 2 ^ 14

structure RowRange where
  first : ℕ
  last : ℕ
  deriving DecidableEq, Repr

/-- How many contiguous pieces a plane of `rows` rows should be split into. -/
def planRowTasks (rowPixels rows maxTasks leastPixels : ℕ) : ℕ :=
  if rows = 0 ∨ rowPixels = 0 ∨ maxTasks ≤ 1 then (if rows = 0 then 0 else 1)
  else
    let pixels := mul rowPixels rows
    let affordable := max 1 (pixels / max 1 leastPixels)
    min maxTasks (min affordable rows)

/-- The rows that a task takes. -/
def taskRows (task tasks rows : ℕ) : RowRange :=
  let perTask := sub (add rows tasks) 1 / tasks
  let first := mul task perTask
  ⟨min first rows, min (add first perTask) rows⟩

/-- The most tasks a read will be split into. -/
structure TaskSplit where
  most : ℕ
  deriving DecidableEq, Repr

/-- A call of the body that a reduction hands `run`. -/
structure BodyCall where
  task : ℕ
  first : ℕ
  last : ℕ
  deriving DecidableEq, Repr

/-- What the pool is handed: the body, and what its runs are worked out from. -/
structure SplitBody (β : Type) where
  body : β
  tasks : ℕ
  units : ℕ
  deriving DecidableEq, Repr

namespace TaskSplit

/-- `poolSize` is how many bodies may run at once, counting the calling thread. -/
def of (poolSize budgetBytes accumulatorBytes : ℕ) : TaskSplit where
  most := min poolSize (max 1 (budgetBytes / max 1 accumulatorBytes))

/-- How many tasks `units` units of `unitPixels` pixels each are worth. -/
def tasks (split : TaskSplit) (unitPixels units : ℕ) : ℕ :=
  planRowTasks unitPixels units split.most kLeastPixelsPerTask

/-- What one task calls the body with, unless its run is empty. -/
def call (tasks units task : ℕ) : Option BodyCall :=
  let share := taskRows task tasks units
  if share.first = share.last then none else some ⟨task, share.first, share.last⟩

/-- The calls of the body, when the pool runs the tasks in this order. -/
def run (tasks units : ℕ) (order : List ℕ) : List BodyCall :=
  if tasks ≤ 1 then [⟨0, 0, units⟩] else order.filterMap (call tasks units)

end TaskSplit

/-- The call of the reduction's body that a call of what the pool was handed makes. -/
def PoolEvent.bodyCall? {n : ℕ} {β ε : Type} : PoolEvent n (SplitBody β) ε → Option BodyCall
  | .called (some b) task _ => TaskSplit.call b.tasks b.units task
  | _ => none

/-- What the calls of a body look like, each unit of `[0, units)` being in one of them. -/
structure SplitCalls (most tasks units : ℕ) (calls : List BodyCall) : Prop where
  /-- In order of the tasks the runs are linked, from the first unit to the last. -/
  linked : ∃ sorted : List BodyCall, sorted.Perm calls ∧
    sorted.Pairwise (fun c c' => c.task < c'.task) ∧
    Linked 0 (sorted.map fun c => (c.first, c.last)) units
  nonempty : (∀ c ∈ calls, c.first < c.last) ∨ calls = [⟨0, 0, units⟩]
  once : ∀ unit < units, ∃! c, c ∈ calls ∧ c.first ≤ unit ∧ unit < c.last
  inside : ∀ c ∈ calls, c.last ≤ units
  /-- No accumulator is used twice, and each is there. -/
  tasks_nodup : (calls.map BodyCall.task).Nodup
  task_lt : ∀ c ∈ calls, c.task < max 1 tasks ∧ c.task < most

/-- The units of the calls are those of the read. -/
theorem SplitCalls.units_perm {most tasks units : ℕ} {calls : List BodyCall}
    (h : SplitCalls most tasks units calls) :
    (calls.flatMap fun c => List.range' c.first (c.last - c.first)).Perm (List.range units) := by
  rw [List.range_eq_range']
  obtain ⟨sorted, hperm, -, hlinked⟩ := h.linked
  rcases h.nonempty with hnonempty | rfl
  · have htile : Tiling 0 (sorted.map fun c => (c.first, c.last)) units := ⟨hlinked, fun x hx => by
      obtain ⟨c, hc, rfl⟩ := List.mem_map.1 hx
      exact hnonempty c (hperm.mem_iff.1 hc)⟩
    have hunits := htile.flatMap_range'
    rw [List.flatMap_map, Nat.sub_zero] at hunits
    rw [← hunits]
    exact (hperm.flatMap_right _).symm
  · simp

section Shares

variable {tasks units : ℕ}

/-- The units of a task. -/
def unitsPerTask (tasks units : ℕ) : ℕ := (units + tasks - 1) / tasks

theorem mul_unitsPerTask_le (tasks units : ℕ) :
    tasks * unitsPerTask tasks units ≤ units + tasks - 1 :=
  Nat.mul_div_le _ _

theorem le_mul_unitsPerTask (htasks : 0 < tasks) (units : ℕ) :
    units ≤ tasks * unitsPerTask tasks units := by
  have hdm := Nat.div_add_mod (units + tasks - 1) tasks
  have hlt := Nat.mod_lt (units + tasks - 1) htasks
  unfold unitsPerTask
  omega

theorem taskRows_eq (hfit : units + tasks < 2 ^ 64) {task : ℕ} (ht : task < tasks) :
    taskRows task tasks units = ⟨min (task * unitsPerTask tasks units) units,
      min ((task + 1) * unitsPerTask tasks units) units⟩ := by
  have hle := mul_unitsPerTask_le tasks units
  have hmul : (task + 1) * unitsPerTask tasks units ≤ tasks * unitsPerTask tasks units :=
    Nat.mul_le_mul_right _ ht
  have hper : sub (add units tasks) 1 / tasks = unitsPerTask tasks units := by
    rw [add_eq hfit, sub_eq (by omega) hfit]
    rfl
  rw [Nat.add_mul, Nat.one_mul] at hmul ⊢
  rw [taskRows, hper, mul_eq (by omega), add_eq (by omega)]

/-- The runs of the first tasks, each from where the one before ended. -/
theorem calls_tiling (hfit : units + tasks < 2 ^ 64) {k : ℕ} (hk : k ≤ tasks) :
    Tiling 0 (((List.range k).filterMap (TaskSplit.call tasks units)).map fun c =>
      (c.first, c.last))
      (min (k * unitsPerTask tasks units) units) := by
  induction k with
  | zero =>
    rw [Nat.zero_mul, Nat.zero_min]
    exact Tiling.nil 0
  | succ k ih =>
    have hrows := taskRows_eq hfit (show k < tasks by omega)
    have hmono : k * unitsPerTask tasks units ≤ (k + 1) * unitsPerTask tasks units :=
      Nat.mul_le_mul_right _ (Nat.le_succ k)
    rw [List.range_succ, List.filterMap_append, List.map_append]
    by_cases hempty : min (k * unitsPerTask tasks units) units =
        min ((k + 1) * unitsPerTask tasks units) units
    · -- the tasks before have taken everything
      have hcall : TaskSplit.call tasks units k = none := by
        rw [TaskSplit.call, hrows]
        exact if_pos hempty
      rw [List.filterMap_cons_none hcall, List.filterMap_nil, List.map_nil,
        List.append_nil, ← hempty]
      exact ih (by omega)
    · have hcall : TaskSplit.call tasks units k = some ⟨k, min (k * unitsPerTask tasks units) units,
          min ((k + 1) * unitsPerTask tasks units) units⟩ := by
        rw [TaskSplit.call, hrows]
        exact if_neg hempty
      have hlt : min (k * unitsPerTask tasks units) units <
          min ((k + 1) * unitsPerTask tasks units) units :=
        lt_of_le_of_ne (min_le_min_right _ hmono) hempty
      rw [List.filterMap_cons_some hcall, List.filterMap_nil]
      exact (ih (by omega)).concat hlt

theorem call_task {task : ℕ} {c : BodyCall} (h : TaskSplit.call tasks units task = some c) :
    c.task = task := by
  unfold TaskSplit.call at h
  dsimp only at h
  split at h
  · cases h
  · cases h
    rfl

theorem calls_ascending (tasks units k : ℕ) :
    ((List.range k).filterMap (TaskSplit.call tasks units)).Pairwise fun c c' => c.task < c'.task :=
  List.pairwise_lt_range.filterMap _ fun _ _ hlt _ hc _ hc' => by
    rw [call_task hc, call_task hc']
    exact hlt

end Shares

/-! ## The tasks of a read -/

namespace TaskSplit

theorem most_pos {poolSize : ℕ} (hpool : 0 < poolSize) (budgetBytes accumulatorBytes : ℕ) :
    0 < (of poolSize budgetBytes accumulatorBytes).most :=
  lt_min hpool (lt_of_lt_of_le Nat.one_pos (le_max_left _ _))

theorem tasks_le (split : TaskSplit) (hmost : 0 < split.most) (unitPixels units : ℕ) :
    split.tasks unitPixels units ≤ split.most ∧ split.tasks unitPixels units ≤ units := by
  unfold tasks planRowTasks
  dsimp only
  split_ifs <;> omega

/-- There is a task when there is a unit. -/
theorem tasks_pos (split : TaskSplit) (unitPixels : ℕ) {units : ℕ} (hunits : 0 < units) :
    0 < split.tasks unitPixels units := by
  unfold tasks planRowTasks
  dsimp only
  split_ifs <;> omega

/-- A task has `kLeastPixelsPerTask` pixels to count, unless it is the only one. -/
theorem tasks_lt (split : TaskSplit)
    (unitPixels units : ℕ) : split.tasks unitPixels units ≤ 2 ^ 50 := by
  have hpixels := mul_lt unitPixels units
  have hleast : max 1 kLeastPixelsPerTask = 2 ^ 14 := by decide
  unfold tasks planRowTasks
  rw [hleast]
  dsimp only
  split_ifs
  · exact Nat.zero_le _
  · decide
  · have haffordable : mul unitPixels units / 2 ^ 14 < 2 ^ 50 := by omega
    exact (min_le_right _ _).trans ((min_le_left _ _).trans (max_le (by decide) haffordable.le))

/-- **The calls, whatever order the tasks are run in.** -/
theorem run_spec {most tasks units : ℕ} (hmost : 0 < most) (hle : tasks ≤ most)
    (hfit : units + tasks < 2 ^ 64) {order : List ℕ} (horder : order.Perm (List.range tasks)) :
    SplitCalls most tasks units (run tasks units order) := by
  by_cases hone : tasks ≤ 1
  · rw [run, if_pos hone]
    exact
      { linked := ⟨_, List.Perm.refl _, List.pairwise_singleton _ _, .cons (.nil units)⟩
        nonempty := Or.inr rfl
        once := fun unit hunit => ⟨⟨0, 0, units⟩, by simp [hunit], fun c hc => by simpa using hc.1⟩
        inside := by simp
        tasks_nodup := by simp
        task_lt := by simp [hmost] }
  rw [run, if_neg hone]
  have hperm := horder.filterMap (call tasks units)
  have htile := calls_tiling hfit (le_refl tasks)
  have hascending := calls_ascending tasks units tasks
  rw [min_eq_right (le_mul_unitsPerTask (by omega) units)] at htile
  have hbounds : ∀ c ∈ order.filterMap (call tasks units), c.first < c.last ∧ c.last ≤ units :=
    fun c hc => (htile.bounds (c.first, c.last) (List.mem_map_of_mem (hperm.mem_iff.1 hc))).2
  refine
    { linked := ⟨_, hperm.symm, hascending, htile.linked⟩
      nonempty := Or.inl fun c hc => (hbounds c hc).1
      once := fun unit hunit => ?_
      inside := fun c hc => (hbounds c hc).2
      tasks_nodup := ?_
      task_lt := fun c hc => ?_ }
  · obtain ⟨x, hx, hfirst, hlast⟩ := (htile.mem_iff unit).2 ⟨Nat.zero_le _, hunit⟩
    obtain ⟨c, hc, rfl⟩ := List.mem_map.1 hx
    refine ⟨c, ⟨hperm.mem_iff.2 hc, hfirst, hlast⟩, fun c' hc' => ?_⟩
    -- two calls that differ have no unit in common
    have hapart : ((List.range tasks).filterMap (call tasks units)).Pairwise
        fun c c' => c.last ≤ c'.first ∨ c'.last ≤ c.first :=
      (List.pairwise_map.1 htile.pairwise).imp Or.inl
    have hsymm : Std.Symm fun c c' : BodyCall => c.last ≤ c'.first ∨ c'.last ≤ c.first :=
      ⟨fun _ _ => Or.symm⟩
    by_contra hne
    rcases hapart.forall (hperm.mem_iff.1 hc'.1) hc hne with h | h <;> omega
  · exact (hperm.map BodyCall.task).nodup_iff.2 (List.pairwise_map.2 (hascending.imp Nat.ne_of_lt))
  · obtain ⟨task, htask, hcall⟩ := List.mem_filterMap.1 hc
    have hlt := List.mem_range.1 (horder.mem_iff.1 htask)
    rw [call_task hcall]
    omega

end TaskSplit

/-! ## The pool -/

section Pool

variable {n : ℕ} {β ε : Type}

/-- The calls of a reduction's body that the pool has made. -/
def bodyCalls (run : List (PoolEvent n (SplitBody β) ε)) : List BodyCall :=
  said PoolEvent.bodyCall? run

theorem bodyCall?_called (body : SplitBody β) (task worker : ℕ) :
    (.called (some body) task worker : PoolEvent n (SplitBody β) ε).bodyCall? =
      TaskSplit.call body.tasks body.units task := rfl

theorem task?_called (body : Option β) (task worker : ℕ) :
    (.called body task worker : PoolEvent n β ε).task? = some task := rfl

theorem bodyCall?_eq {body : SplitBody β} {e : PoolEvent n (SplitBody β) ε}
    (h : ∀ b task worker, e = .called b task worker → b = some body) :
    e.bodyCall? = e.task?.bind (TaskSplit.call body.tasks body.units) := by
  cases e with
  | called b task worker =>
    rw [h b task worker rfl, bodyCall?_called, task?_called, Option.bind_some]
  | _ => rfl

/-- A call of the pool calls the reduction's body for the tasks taken. -/
theorem bodyCalls_eq {tasks : ℕ} {body : SplitBody β} {run : List (PoolEvent n (SplitBody β) ε)}
    (h : RunSpec tasks body run) :
    bodyCalls run = (calls run).filterMap (TaskSplit.call body.tasks body.units) := by
  have hcall : ∀ e ∈ run, e.bodyCall? = e.task?.bind (TaskSplit.call body.tasks body.units) :=
    fun e he => bodyCall?_eq fun b task worker heq => h.own b task worker (heq ▸ he)
  rw [bodyCalls, calls, said, said, List.filterMap_filterMap, List.filterMap_congr hcall]

/-- The pool is called for two tasks or more. -/
theorem step_started {s s' : WorkPool n β ε} {a : PoolAction n β ε} {tasks : ℕ} {body : β}
    (h : s.step a = some (.started tasks body, s')) : 2 ≤ tasks := by
  cases a with
  | call tasks' body' =>
    rw [WorkPool.step] at h
    split at h
    · rename_i hcall
      cases h
      exact hcall.2.2.1
    · cases h
  | turn t =>
    obtain ⟨d, -, h⟩ := Option.bind_eq_some_iff.1 h
    unfold WorkPool.drainTasks at h
    repeat' split at h
    all_goals cases h
  | ends t exception =>
    obtain ⟨d, -, h⟩ := Option.bind_eq_some_iff.1 h
    unfold WorkPool.bodyEnds at h
    split at h <;> cases h
  | _ =>
    rw [WorkPool.step] at h
    repeat' split at h
    all_goals cases h

theorem started_of_reaches {s : WorkPool n β ε} {events : List (PoolEvent n β ε)}
    (h : Reaches WorkPool.step (WorkPool.new n β ε) events s) :
    ∀ tasks body, .started tasks body ∈ events → 2 ≤ tasks := by
  refine h.invariant (P := fun events _ => ∀ tasks body, .started tasks body ∈ events → 2 ≤ tasks)
    (fun _ _ hmem => absurd hmem List.not_mem_nil) fun events s a e s' ih hs tasks body hmem => ?_
  rcases List.mem_append.1 hmem with hmem | hmem
  · exact ih tasks body hmem
  · rw [← List.mem_singleton.1 hmem] at hs
    exact step_started hs

theorem mem_of_mem_lastRun {events : List (PoolEvent n β ε)} {e : PoolEvent n β ε}
    (h : e ∈ lastRun events) : e ∈ events := by
  induction events using List.reverseRecOn with
  | nil => exact h
  | append_singleton events x ih =>
    rw [lastRun_concat] at h
    rw [List.mem_append]
    split at h
    · exact Or.inr h
    · exact (List.mem_append.1 h).imp_left ih

/-- What came of the last call of the pool, for a body over `units` units in `tasks` tasks, of which
there are accumulators for `most`: the body was called for the runs of some of the tasks, once each,
and when the pool is done and nothing was thrown, for all of them. -/
structure PooledCalls (most tasks units : ℕ) (events : List (PoolEvent n (SplitBody β) ε))
    (s : WorkPool n (SplitBody β) ε) : Prop where
  taken : ∃ k ≤ tasks, bodyCalls (lastRun events) =
    (List.range k).filterMap (TaskSplit.call tasks units)
  once : ((bodyCalls (lastRun events)).map BodyCall.task).Nodup
  task_lt : ∀ c ∈ bodyCalls (lastRun events), c.task < most
  all : s.drain none = none → throws (lastRun events) = [] →
    SplitCalls most tasks units (bodyCalls (lastRun events))

variable (n β ε) in
/-- What a read of `units` units split among `tasks` tasks comes to, in whatever order the tasks are
run, and at any time when the pool runs them, in every interleaving of its threads. -/
structure SplitRuns (most tasks units : ℕ) : Prop where
  le_most : tasks ≤ most
  le_units : tasks ≤ units
  in_order : ∀ order : List ℕ, order.Perm (List.range tasks) →
    SplitCalls most tasks units (TaskSplit.run tasks units order)
  pooled :
    ∀ (body : β) (events : List (PoolEvent n (SplitBody β) ε)) (s : WorkPool n (SplitBody β) ε),
    Reaches WorkPool.step (WorkPool.new n (SplitBody β) ε) events s →
    (lastRun events).head? = some (.started tasks ⟨body, tasks, units⟩) →
    PooledCalls most tasks units events s

/-- **A read split among the pool.** There are no more tasks than accumulators, nor than units, and
the calls of the body are those `SplitCalls` says, in every order of the tasks and every
interleaving. -/
theorem taskSplit_run {units : ℕ} (hfit : units + (n + 1) < 2 ^ 64)
    (budgetBytes accumulatorBytes unitPixels : ℕ) :
    SplitRuns n β ε (TaskSplit.of (n + 1) budgetBytes accumulatorBytes).most
      ((TaskSplit.of (n + 1) budgetBytes accumulatorBytes).tasks unitPixels units) units := by
  set split := TaskSplit.of (n + 1) budgetBytes accumulatorBytes with hsplit
  have hmost : 0 < split.most := TaskSplit.most_pos (Nat.succ_pos n) _ _
  have hpool : split.most ≤ n + 1 := min_le_left _ _
  obtain ⟨hle, hunits⟩ := split.tasks_le hmost unitPixels units
  generalize split.tasks unitPixels units = tasks at hle hunits ⊢
  have hspec : ∀ order : List ℕ, order.Perm (List.range tasks) →
      SplitCalls split.most tasks units (TaskSplit.run tasks units order) :=
    fun order horder => TaskSplit.run_spec hmost hle (by omega) horder
  refine ⟨hle, hunits, hspec, fun body events s hreach hhead => ?_⟩
  -- the pool is past the call, which is complete, or the call is under way
  have hrun : RunSpec tasks ⟨body, tasks, units⟩ (lastRun events) ∧
      (s.drain none = none → Complete tasks (lastRun events)) := by
    rcases WorkPool.phase (by omega) hreach with ⟨-, hlast⟩ | ⟨tasks', body', hhead', hr, hunder⟩
    · exact ⟨(hlast _ _ hhead).1, fun _ => (hlast _ _ hhead).2⟩
    · rw [hhead, Option.some.injEq, PoolEvent.started.injEq] at hhead'
      obtain ⟨rfl, rfl⟩ := hhead'
      exact ⟨hr, fun hnone => absurd hnone hunder.caller⟩
  obtain ⟨hr, hcomplete⟩ := hrun
  obtain ⟨k, hk, hcalls⟩ := hr.once
  have hbody : bodyCalls (lastRun events) =
      (List.range k).filterMap (TaskSplit.call tasks units) := by
    rw [bodyCalls_eq hr, hcalls]
  refine ⟨⟨k, hk, hbody⟩, ?_, fun c hc => ?_, ?_⟩
  · rw [hbody]
    exact List.pairwise_map.2 ((calls_ascending tasks units k).imp Nat.ne_of_lt)
  · rw [hbody] at hc
    obtain ⟨task, htask, hcall⟩ := List.mem_filterMap.1 hc
    have hlt := List.mem_range.1 htask
    rw [call_task hcall]
    omega
  · intro hnone hthrows
    have htwo := started_of_reaches hreach _ _ (mem_of_mem_lastRun (List.mem_of_mem_head? hhead))
    have hall : bodyCalls (lastRun events) = TaskSplit.run tasks units (List.range tasks) := by
      rw [bodyCalls_eq hr, (hcomplete hnone).all hthrows, TaskSplit.run, if_neg (by omega)]
    rw [hall]
    exact hspec _ (List.Perm.refl _)

end Pool

/-- Two tasks on a pool of two, the caller doing both. -/
def callerAlone : List (PoolAction 1 (SplitBody Unit) Unit) :=
  [.call 2 ⟨(), 2, 3⟩, .turn none, .ends none none, .turn none, .ends none none, .turn none,
    .wake (Fin.last 0), .turn (some (Fin.last 0)), .report (Fin.last 0), .back]

theorem taskSplit_run_callerAlone : ∃ events : List (PoolEvent 1 (SplitBody Unit) Unit),
    events.head? = some (.started 2 ⟨(), 2, 3⟩) ∧
    SplitCalls 2 2 3 (bodyCalls (lastRun events)) := by
  have htakes : (takes WorkPool.step
    (WorkPool.new 1 (SplitBody Unit) Unit) callerAlone).map Prod.fst =
      some [.started 2 ⟨(), 2, 3⟩, .called (some ⟨(), 2, 3⟩) 0 0, .finished 0 0,
        .called (some ⟨(), 2, 3⟩) 1 0, .finished 1 0, .left 0, .woke 0, .left 1, .reported 0,
        .returned none] := by decide
  have hidle : (takes WorkPool.step (WorkPool.new 1 (SplitBody Unit) Unit) callerAlone).map
      (fun x => (x.2.drain none).isNone) = some true := by decide
  obtain ⟨x, hx, hevents⟩ := Option.map_eq_some_iff.1 htakes
  rw [hx, Option.map_some, Option.some.injEq] at hidle
  have hpool := (@taskSplit_run 1 Unit Unit 3 (by decide) (2 ^ 26) 8 (2 ^ 14)).pooled
    () x.1 x.2 (Reaches.of_takes hx)
  refine ⟨x.1, by rw [hevents]; rfl, (hpool ?_).all (Option.isNone_iff_eq_none.1 hidle) ?_⟩
  · rw [hevents]
    rfl
  · rw [hevents]
    rfl

end CartaZarr
