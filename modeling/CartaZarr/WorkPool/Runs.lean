import Mathlib.Algebra.BigOperators.Fin
import CartaZarr.WorkPool.Protocol

/-!
# Every interleaving

The pool is idle or a call is under way, whatever was done before (`phase`), and while one is under
way every action uses up some of the work it has left (`step_work`), so that it returns after no
more actions than that. `pool_protocol` is what follows for any sequence of calls and any order of
turns.
-/

namespace CartaZarr

open Word

variable {n : ℕ} {β ε : Type}

namespace WorkPool

variable {s s' : WorkPool n β ε} {tasks : ℕ} {body : β} {run events : List (PoolEvent n β ε)}
  {e : PoolEvent n β ε} {a : PoolAction n β ε}

/-! ## Idle or under way -/

/-- What an idle pool does without a call. -/
theorem Idle.step (h : s.Idle) (hs : s.step a = some (e, s')) :
    (∃ tasks body, e = .started tasks body ∧ s'.Underway tasks body [.started tasks body]) ∨
    ((e = .stopped ∨ ∃ i, e = .exited i) ∧ s'.Idle) := by
  cases a with
  | call tasks body =>
    rw [WorkPool.step] at hs
    split_ifs at hs with hcall
    rw [Option.some.injEq, Prod.mk.injEq] at hs
    obtain ⟨rfl, rfl⟩ := hs
    exact Or.inl ⟨tasks, body, rfl, h.publish hcall.2.2.2 hcall.2.1⟩
  | wake i =>
    rw [WorkPool.step, if_neg fun hw => hw.2.2.2 (h.seen i).symm] at hs
    cases hs
  | turn t =>
    rw [WorkPool.step, h.drain t] at hs
    cases hs
  | ends t exception =>
    rw [WorkPool.step, h.drain t] at hs
    cases hs
  | report i =>
    simp only [WorkPool.step, h.drain] at hs
    cases hs
  | back =>
    simp only [WorkPool.step, h.drain] at hs
    cases hs
  | stop =>
    rw [WorkPool.step] at hs
    split_ifs at hs
    rw [Option.some.injEq, Prod.mk.injEq] at hs
    obtain ⟨rfl, rfl⟩ := hs
    exact Or.inr ⟨Or.inl rfl, h.body, h.failure, h.drain, h.generation_lt, h.seen, fun _ _ => rfl⟩
  | exit i =>
    rw [WorkPool.step] at hs
    split_ifs at hs with hexit
    rw [Option.some.injEq, Prod.mk.injEq] at hs
    obtain ⟨rfl, rfl⟩ := hs
    exact Or.inr ⟨Or.inr ⟨i, rfl⟩, h.body, h.failure, h.drain, h.generation_lt, h.seen,
      fun _ _ => hexit.2.2⟩

/-- What is done while a call is under way. -/
theorem Underway.step (hn : n < 2 ^ 64) (h : s.Underway tasks body run)
    (hr : RunSpec tasks body run)
    (hs : s.step a = some (e, s')) :
    e.isStart = false ∧ RunSpec tasks body (run ++ [e]) ∧
      (s'.Underway tasks body (run ++ [e]) ∨
        s'.Idle ∧ Complete tasks (run ++ [e]) ∧ ∃ x, e = .returned x) := by
  have hother : ∀ {e : PoolEvent n β ε}, (∀ b task worker, e ≠ .called b task worker) →
      RunSpec tasks body (run ++ [e]) := fun he =>
    hr.concat fun b task worker h' => absurd h' (he b task worker)
  cases a with
  | call tasks' body' =>
    rw [WorkPool.step, if_neg fun hcall => h.caller (Option.isNone_iff_eq_none.1 hcall.1)] at hs
    cases hs
  | wake i =>
    rw [WorkPool.step] at hs
    split_ifs at hs with hwake
    rw [Option.some.injEq, Prod.mk.injEq] at hs
    obtain ⟨rfl, rfl⟩ := hs
    exact ⟨rfl, hother (by simp),
      Or.inl (h.takeBody (Option.isNone_iff_eq_none.1 hwake.1) hwake.2.2.2)⟩
  | turn t =>
    rw [WorkPool.step] at hs
    obtain ⟨d, hd, hs⟩ := Option.bind_eq_some_iff.1 hs
    obtain ⟨h', hr'⟩ := h.drainTasks hr hd hs
    refine ⟨?_, hr', Or.inl h'⟩
    unfold WorkPool.drainTasks at hs
    split at hs
    · split_ifs at hs <;> cases hs <;> rfl
    · cases hs
      rfl
    · cases hs
    · cases hs
  | ends t exception =>
    rw [WorkPool.step] at hs
    obtain ⟨d, hd, hs⟩ := Option.bind_eq_some_iff.1 hs
    obtain ⟨h', hr'⟩ := h.bodyEnds hr hd hs
    refine ⟨?_, hr', Or.inl h'⟩
    unfold WorkPool.bodyEnds at hs
    split at hs <;> cases hs <;> rfl
  | report i =>
    rw [WorkPool.step] at hs
    split at hs
    · rename_i hd
      rw [Option.some.injEq, Prod.mk.injEq] at hs
      obtain ⟨rfl, rfl⟩ := hs
      exact ⟨rfl, hother (by simp), Or.inl (h.checkOut hn hd rfl rfl)⟩
    · cases hs
  | back =>
    rw [WorkPool.step] at hs
    split at hs
    · rename_i hd
      split_ifs at hs with hrunning
      rw [Option.some.injEq, Prod.mk.injEq] at hs
      obtain ⟨rfl, rfl⟩ := hs
      obtain ⟨hidle, hcomplete, hr'⟩ := h.retract hr hd rfl hrunning
      exact ⟨rfl, hr', Or.inr ⟨hidle, hcomplete, _, rfl⟩⟩
    · cases hs
  | stop =>
    rw [WorkPool.step, if_neg fun hstop => h.caller (Option.isNone_iff_eq_none.1 hstop)] at hs
    cases hs
  | exit i =>
    rw [WorkPool.step, if_neg fun hexit => by rw [h.awake] at hexit; simp at hexit] at hs
    cases hs

/-- The pool is idle, its last call complete, or its last call is under way. -/
def Phase (events : List (PoolEvent n β ε)) (s : WorkPool n β ε) : Prop :=
  (s.Idle ∧ ∀ tasks body, (lastRun events).head? = some (.started tasks body) →
    RunSpec tasks body (lastRun events) ∧ Complete tasks (lastRun events)) ∨
  ∃ tasks body, (lastRun events).head? = some (.started tasks body) ∧
    RunSpec tasks body (lastRun events) ∧ s.Underway tasks body (lastRun events)

theorem head?_concat_eq {x : PoolEvent n β ε} (h : run.head? = some x) :
    (run ++ [e]).head? = some x := by
  cases run with
  | nil => cases h
  | cons y run => exact h

theorem Phase.step (hn : n < 2 ^ 64) (h : Phase events s) (hs : s.step a = some (e, s')) :
    Phase (events ++ [e]) s' := by
  rcases h with ⟨hidle, hlast⟩ | ⟨tasks, body, hhead, hr, hunder⟩
  · rcases hidle.step hs with ⟨tasks, body, rfl, hunder⟩ | ⟨he, hidle'⟩
    · have hlast : lastRun (events ++ [.started tasks body]) = [.started tasks body] := by
        rw [lastRun_concat]
        rfl
      rw [Phase, hlast]
      exact Or.inr ⟨tasks, body, rfl, RunSpec.started tasks body, hunder⟩
    · have hstart : e.isStart = false := by rcases he with rfl | ⟨i, rfl⟩ <;> rfl
      rw [Phase, lastRun_concat, hstart]
      refine Or.inl ⟨hidle', fun tasks body hhead => ?_⟩
      simp only [Bool.false_eq_true, if_false] at hhead ⊢
      -- stopping says nothing of the last call
      have hhead' : (lastRun events).head? = some (.started tasks body) := by
        cases hrun : lastRun events with
        | nil =>
          rw [hrun] at hhead
          rcases he with rfl | ⟨i, rfl⟩ <;> cases hhead
        | cons y rest =>
          rw [hrun] at hhead
          exact hhead
      obtain ⟨hr, hc⟩ := hlast tasks body hhead'
      refine ⟨hr.concat fun b task worker h' => ?_, ?_⟩
      · rcases he with rfl | ⟨i, rfl⟩ <;> cases h'
      · rcases he with rfl | ⟨i, rfl⟩ <;> exact
          ⟨by simpa [PoolEvent.returned?, PoolEvent.recorded?] using hc.returns,
            by simpa [PoolEvent.thrown?, PoolEvent.recorded?] using hc.rethrows,
            by simpa [PoolEvent.thrown?, PoolEvent.task?] using hc.all,
            fun t => by rw [busy_concat]; exact hc.idle t,
            by simpa [PoolEvent.woke?, PoolEvent.reported?] using hc.drained⟩
  · obtain ⟨hstart, hr', hnext⟩ := hunder.step hn hr hs
    have hlast : lastRun (events ++ [e]) = lastRun events ++ [e] := by
      rw [lastRun_concat, hstart]
      rfl
    have hhead' := head?_concat_eq (e := e) hhead
    rw [Phase, hlast]
    rcases hnext with hunder' | ⟨hidle, hcomplete, -⟩
    · exact Or.inr ⟨tasks, body, hhead', hr', hunder'⟩
    · refine Or.inl ⟨hidle, fun tasks' body' hhead'' => ?_⟩
      rw [hhead', Option.some.injEq, PoolEvent.started.injEq] at hhead''
      obtain ⟨rfl, rfl⟩ := hhead''
      exact ⟨hr', hcomplete⟩

theorem new_idle : (new n β ε).Idle :=
  ⟨rfl, rfl, fun _ => rfl, Nat.two_pow_pos 64, fun _ => rfl, fun _ h => by cases h⟩

/-- **Whatever was done, the pool is idle or a call is under way.** -/
theorem phase (hn : n < 2 ^ 64) (h : Reaches WorkPool.step (new n β ε) events s) : Phase events s :=
  h.invariant (Or.inl ⟨new_idle, fun _ _ h => by cases h⟩) fun _ _ _ _ _ hp hs => hp.step hn hs

/-! ## A call returns -/

/-- The actions a thread may still take before it is back, apart from those a new task brings. -/
def placeWork : Option (Drain β ε) → ℕ
  | none => 0
  | some ⟨_, .claiming⟩ => 3
  | some ⟨_, .executing _⟩ => 5
  | some ⟨_, .throwing _ _⟩ => 4
  | some ⟨_, .done⟩ => 1

/-- The work a call under way has left. -/
def work (s : WorkPool n β ε) : ℕ :=
  3 * (s.tasks - s.next) + ∑ t, placeWork (s.drain t) +
    ∑ i, if s.seen i = s.generation then 0 else 4

theorem sum_placeWork_update (drain : Thread n → Option (Drain β ε)) (t : Thread n)
    (d : Option (Drain β ε)) :
    ∑ t', placeWork (Function.update drain t d t') + placeWork (drain t) =
      ∑ t', placeWork (drain t') + placeWork d := by
  rw [← Finset.add_sum_erase _ _ (Finset.mem_univ t),
    ← Finset.add_sum_erase _ (fun t' => placeWork (drain t')) (Finset.mem_univ t)]
  have hrest : ∑ t' ∈ Finset.univ.erase t, placeWork (Function.update drain t d t') =
      ∑ t' ∈ Finset.univ.erase t, placeWork (drain t') :=
    Finset.sum_congr rfl fun t' ht' => by rw [Function.update_of_ne (Finset.ne_of_mem_erase ht')]
  rw [hrest, Function.update_self]
  omega

/-- A thread that gets further, for the tasks it takes. -/
theorem work_lt {t : Thread n} {d d' : Option (Drain β ε)} (hd : s.drain t = d)
    (hdrain : s'.drain = Function.update s.drain t d') (hseen : s'.seen = s.seen)
    (hgen : s'.generation = s.generation)
    (hlt : 3 * (s'.tasks - s'.next) + placeWork d' < 3 * (s.tasks - s.next) + placeWork d) :
    s'.work < s.work := by
  have hsum := sum_placeWork_update s.drain t d'
  rw [hd] at hsum
  rw [work, work, hdrain, hseen, hgen]
  omega

/-- **Every action of a call under way uses up work.** -/
theorem Underway.step_work (h : s.Underway tasks body run) (hs : s.step a = some (e, s')) :
    s'.work < s.work := by
  cases a with
  | call tasks' body' =>
    rw [WorkPool.step, if_neg fun hcall => h.caller (Option.isNone_iff_eq_none.1 hcall.1)] at hs
    cases hs
  | wake i =>
    rw [WorkPool.step] at hs
    split_ifs at hs with hwake
    rw [Option.some.injEq, Prod.mk.injEq] at hs
    obtain ⟨-, rfl⟩ := hs
    obtain ⟨hnone, -, -, hseen⟩ := hwake
    have hsum := sum_placeWork_update s.drain (some i) (some ⟨s.body, .claiming⟩)
    rw [Option.isNone_iff_eq_none.1 hnone, show placeWork (none : Option (Drain β ε)) = 0 from rfl,
      show placeWork (some (⟨s.body, .claiming⟩ : Drain β ε)) = 3 from rfl] at hsum
    -- the worker has now seen the generation
    have hold : ∑ j, (if s.seen j = s.generation then 0 else 4) =
        ∑ j, (if (s.takeBody i).seen j = (s.takeBody i).generation then 0 else 4) + 4 := by
      rw [← Finset.add_sum_erase _ _ (Finset.mem_univ i),
        ← Finset.add_sum_erase _ (fun j => if (s.takeBody i).seen j = _ then 0 else 4)
          (Finset.mem_univ i)]
      have hrest : ∀ j ∈ Finset.univ.erase i, (if s.seen j = s.generation then 0 else 4) =
          if (s.takeBody i).seen j = (s.takeBody i).generation then 0 else 4 := fun j hj => by
        simp [Finset.ne_of_mem_erase hj]
      rw [Finset.sum_congr rfl hrest, if_neg hseen.symm, if_pos (by simp)]
      omega
    rw [work, work, takeBody_drain, hold]
    change 3 * (s.tasks - s.next) + _ + _ < _
    omega
  | turn t =>
    rw [WorkPool.step] at hs
    obtain ⟨⟨b, place⟩, hd, hs⟩ := Option.bind_eq_some_iff.1 hs
    unfold WorkPool.drainTasks at hs
    split at hs
    · rename_i hplace
      obtain rfl : place = .claiming := hplace
      split_ifs at hs with hlt
      · have hnext : add s.next 1 = s.next + 1 := add_eq (by
          have := h.tasks_lt
          have := h.tasks_eq
          omega)
        cases hs
        refine work_lt hd rfl rfl rfl ?_
        change 3 * (s.tasks - add s.next 1) + 5 < 3 * (s.tasks - s.next) + 3
        omega
      · cases hs
        refine work_lt hd rfl rfl rfl ?_
        change 3 * (s.tasks - s.next) + 1 < 3 * (s.tasks - s.next) + 3
        omega
    · rename_i task x hplace
      obtain rfl : place = .throwing task x := hplace
      cases hs
      refine work_lt hd rfl rfl rfl ?_
      change 3 * (s.tasks - s.tasks) + 1 < 3 * (s.tasks - s.next) + 4
      omega
    · cases hs
    · cases hs
  | ends t exception =>
    rw [WorkPool.step] at hs
    obtain ⟨⟨b, place⟩, hd, hs⟩ := Option.bind_eq_some_iff.1 hs
    unfold WorkPool.bodyEnds at hs
    split at hs
    · rename_i task hplace _
      obtain rfl : place = .executing task := hplace
      cases hs
      refine work_lt hd rfl rfl rfl ?_
      change 3 * (s.tasks - s.next) + 3 < 3 * (s.tasks - s.next) + 5
      omega
    · rename_i task x hplace _
      obtain rfl : place = .executing task := hplace
      cases hs
      refine work_lt hd rfl rfl rfl ?_
      change 3 * (s.tasks - s.next) + 4 < 3 * (s.tasks - s.next) + 5
      omega
    · cases hs
  | report i =>
    rw [WorkPool.step] at hs
    split at hs
    · rename_i hd
      rw [Option.some.injEq, Prod.mk.injEq] at hs
      obtain ⟨-, rfl⟩ := hs
      refine work_lt hd (checkOut_drain ..) (checkOut_seen ..) (checkOut_generation ..) ?_
      rw [checkOut_next, checkOut_tasks]
      exact Nat.lt_succ_self _
    · cases hs
  | back =>
    rw [WorkPool.step] at hs
    split at hs
    · rename_i hd
      split_ifs at hs
      rw [Option.some.injEq, Prod.mk.injEq] at hs
      obtain ⟨-, rfl⟩ := hs
      refine work_lt hd rfl rfl rfl ?_
      change 3 * (0 - s.next) + 0 < 3 * (s.tasks - s.next) + 1
      omega
    · cases hs
  | stop =>
    rw [WorkPool.step, if_neg fun hstop => h.caller (Option.isNone_iff_eq_none.1 hstop)] at hs
    cases hs
  | exit i =>
    rw [WorkPool.step, if_neg fun hexit => by rw [h.awake] at hexit; simp at hexit] at hs
    cases hs

/-- A call that has not returned has taken no more actions than it had work. -/
theorem Underway.length_le (hn : n < 2 ^ 64) (h : s.Underway tasks body run)
    (hr : RunSpec tasks body run) {later : List (PoolEvent n β ε)}
    (hs : Reaches WorkPool.step s later s')
    (hback : returns later = []) :
    later.length + s'.work ≤ s.work ∧ s'.Underway tasks body (run ++ later) ∧
      RunSpec tasks body (run ++ later) := by
  induction hs with
  | init => simpa using ⟨h, hr⟩
  | @step later s₁ s₂ a e _ hs ih =>
    rw [returns_concat, List.append_eq_nil_iff] at hback
    obtain ⟨hle, h₁, hr₁⟩ := ih hback.1
    have hlt := h₁.step_work hs
    obtain ⟨-, hr₂, hnext⟩ := h₁.step hn hr₁ hs
    rw [← List.append_assoc]
    rcases hnext with h₂ | ⟨-, -, x, rfl⟩
    · refine ⟨?_, h₂, hr₂⟩
      rw [List.length_append, List.length_singleton]
      omega
    · cases hback.2

/-- A thread in `drainTasks` that is not back can go on, when the body it runs ends. -/
theorem drain_goes_on {t : Thread n} {d : Drain β ε} (hd : s.drain t = some d)
    (hplace : d.place ≠ .done) : ∃ a ∈ [PoolAction.turn t, .ends t none], (s.step a).isSome := by
  obtain ⟨b, place⟩ := d
  cases place with
  | claiming =>
    refine ⟨.turn t, by simp, ?_⟩
    rw [WorkPool.step, hd, Option.bind_some, WorkPool.drainTasks]
    simp only
    split_ifs <;> rfl
  | executing task =>
    refine ⟨.ends t none, by simp, ?_⟩
    rw [WorkPool.step, hd]
    rfl
  | throwing task x =>
    refine ⟨.turn t, by simp, ?_⟩
    rw [WorkPool.step, hd]
    rfl
  | done => exact absurd rfl hplace

/-- The actions of worker `i`. -/
def workerActions (i : Fin n) : List (PoolAction n β ε) :=
  [.wake i, .turn (some i), .ends (some i) none, .report i]

/-- A worker that has still to report can go on. -/
theorem Underway.worker_goes_on (h : s.Underway tasks body run) {i : Fin n} (hi : s.Owes i) :
    ∃ a ∈ workerActions i, (s.step a).isSome := by
  cases hd : s.drain (some i) with
  | none =>
    have hseen : s.generation ≠ s.seen i := by
      rcases hi with hi | hi
      · exact hi.symm
      · rw [hd] at hi
        cases hi
    refine ⟨.wake i, by simp [workerActions], ?_⟩
    rw [WorkPool.step, if_pos ⟨by rw [hd]; rfl, h.alive i, h.awake, hseen⟩]
    rfl
  | some d =>
    by_cases hplace : d.place = .done
    · obtain ⟨b, place⟩ := d
      obtain rfl : place = .done := hplace
      refine ⟨.report i, by simp [workerActions], ?_⟩
      simp only [WorkPool.step, hd]
      rfl
    · obtain ⟨a, ha, hs⟩ := drain_goes_on hd hplace
      refine ⟨a, ?_, hs⟩
      simp only [List.mem_cons, List.not_mem_nil, or_false] at ha
      rcases ha with rfl | rfl <;> simp [workerActions]

/-- A call under way can go on. -/
theorem Underway.goes_on (h : s.Underway tasks body run) : ∃ a, (s.step a).isSome := by
  by_cases howes : ∃ i, s.Owes i
  · obtain ⟨i, hi⟩ := howes
    obtain ⟨a, -, hs⟩ := h.worker_goes_on hi
    exact ⟨a, hs⟩
  · have hrunning : s.running = 0 := by
      rw [h.running_eq, Finset.card_eq_zero, Finset.filter_eq_empty_iff]
      exact fun i _ hi => howes ⟨i, hi⟩
    obtain ⟨d, hd⟩ := Option.ne_none_iff_exists'.1 h.caller
    by_cases hplace : d.place = .done
    · obtain ⟨b, place⟩ := d
      obtain rfl : place = .done := hplace
      refine ⟨.back, ?_⟩
      simp only [WorkPool.step, hd, if_pos hrunning]
      rfl
    · obtain ⟨a, -, hs⟩ := drain_goes_on hd hplace
      exact ⟨a, hs⟩

theorem Underway.owes_iff (h : s.Underway tasks body run)
    (i : Fin n) : s.Owes i ↔ i ∉ reports run := by
  rw [← List.count_eq_zero, h.reports_eq i]
  split_ifs with hi <;> simp [hi]

end WorkPool

/-- What holds of a pool after these events. -/
structure PoolProtocol (events : List (PoolEvent n β ε)) (s : WorkPool n β ε) : Prop where
  /-- The last call, as far as it has come. -/
  spec : ∀ tasks body, (lastRun events).head? = some (.started tasks body) →
    RunSpec tasks body (lastRun events)
  /-- Nobody drains twice, and reports without having drained. -/
  drains : ∀ tasks body, (lastRun events).head? = some (.started tasks body) → ∀ i,
    (wakes (lastRun events)).count i ≤ 1 ∧
    (reports (lastRun events)).count i ≤ (wakes (lastRun events)).count i
  /-- When it has returned, all of it is done. -/
  complete : ∀ tasks body, (lastRun events).head? = some (.started tasks body) →
    s.drain none = none →
    Complete tasks (lastRun events)
  /-- Outside a call nobody holds a body, and nothing is left of an exception. -/
  idle : s.drain none = none → s.body = none ∧ s.failure = none ∧ ∀ t, s.drain t = none
  /-- During one, every thread holds its body. -/
  holds : ∀ t d, s.drain t = some d → ∃ tasks body,
    (lastRun events).head? = some (.started tasks body) ∧ d.body = some body
  /-- A worker that reports is counted. -/
  counted : ∀ i d, s.drain (some i) = some d → 0 < s.running
  /-- The call waits for the workers that have not reported, and each of them can go on. -/
  waits : s.drain none ≠ none →
    s.running = (Finset.univ.filter fun i => i ∉ reports (lastRun events)).card ∧
    ∀ i ∉ reports (lastRun events), ∃ a ∈ WorkPool.workerActions i, (s.step a).isSome
  /-- It can go on itself, and returns before it has taken more actions than it has work. -/
  ends : s.drain none ≠ none → (∃ a, (s.step a).isSome) ∧
    ∀ later s', Reaches WorkPool.step s later s' → returns later = [] → later.length ≤ s.work

/-- **The pool, in every interleaving of every sequence of calls.** -/
theorem pool_protocol (hn : n < 2 ^ 64) {events : List (PoolEvent n β ε)} {s : WorkPool n β ε}
    (h : Reaches WorkPool.step (WorkPool.new n β ε) events s) : PoolProtocol events s := by
  rcases WorkPool.phase hn h with ⟨hidle, hlast⟩ | ⟨tasks, body, hhead, hr, hunder⟩
  · refine
      { spec := fun tasks body hhead => (hlast tasks body hhead).1
        drains := fun tasks body hhead i => ?_
        complete := fun tasks body hhead _ => (hlast tasks body hhead).2
        idle := fun _ => ⟨hidle.body, hidle.failure, hidle.drain⟩
        holds := fun t d hd => ?_
        counted := fun i d hd => ?_
        waits := fun hne => absurd (hidle.drain none) hne
        ends := fun hne => absurd (hidle.drain none) hne }
    · obtain ⟨hw, hr⟩ := (hlast tasks body hhead).2.drained i
      omega
    · rw [hidle.drain] at hd
      cases hd
    · rw [hidle.drain] at hd
      cases hd
  · -- there is one call, and it is under way
    have hsame : ∀ {tasks' body'}, (lastRun events).head? = some (.started tasks' body') →
        tasks' = tasks ∧ body' = body := fun hhead' => by
      rw [hhead, Option.some.injEq, PoolEvent.started.injEq] at hhead'
      exact ⟨hhead'.1.symm, hhead'.2.symm⟩
    refine
      { spec := fun tasks' body' hhead' => ?_
        drains := fun _ _ _ i => ?_
        complete := fun _ _ _ hnone => absurd hnone hunder.caller
        idle := fun hnone => absurd hnone hunder.caller
        holds := fun t d hd => ⟨tasks, body, hhead, hunder.own t d hd⟩
        counted := fun i d hd => hunder.running_pos (Or.inr (by rw [hd]; rfl))
        waits := fun _ => ⟨?_, fun i hi => hunder.worker_goes_on ((hunder.owes_iff i).2 hi)⟩
        ends := fun _ => ⟨hunder.goes_on, fun later s' hs hback => ?_⟩ }
    · obtain ⟨rfl, rfl⟩ := hsame hhead'
      exact hr
    · rw [hunder.wakes_eq i, hunder.reports_eq i]
      by_cases hseen : s.seen i = s.generation
      · rw [if_pos hseen]
        split_ifs <;> omega
      · rw [if_neg hseen, if_pos (show s.Owes i from Or.inl hseen)]
        omega
    · rw [hunder.running_eq]
      exact congrArg Finset.card (Finset.filter_congr fun i _ => hunder.owes_iff i)
    · have := (hunder.length_le hn hr hs hback).1
      omega

/-- A call for two tasks with one worker, which wakes when the caller has done both. -/
def lateWorker : List (PoolAction 1 Unit Unit) :=
  [.call 2 (), .turn none, .ends none none, .turn none, .ends none none, .turn none, .wake 0,
    .turn (some 0), .report 0, .back]

theorem pool_protocol_lateWorker : ∃ s : WorkPool 1 Unit Unit,
    PoolProtocol [.started 2 (), .called (some ()) 0 0, .finished 0 0, .called (some ()) 1 0,
      .finished 1 0, .left 0, .woke 0, .left 1, .reported 0, .returned none] s := by
  have htakes : (takes WorkPool.step (WorkPool.new 1 Unit Unit) lateWorker).map Prod.fst =
      some [.started 2 (), .called (some ()) 0 0, .finished 0 0, .called (some ()) 1 0,
        .finished 1 0, .left 0, .woke 0, .left 1, .reported 0, .returned none] := by decide
  obtain ⟨x, hx, hxe⟩ := Option.map_eq_some_iff.1 htakes
  exact ⟨x.2, hxe ▸ pool_protocol (by decide) (Reaches.of_takes hx)⟩

/-- Between the moment a body throws and the moment that is recorded, another thread takes a
task. -/
theorem called_after_threw :
    (takes WorkPool.step (WorkPool.new 1 Unit Unit)
      [.call 3 (), .wake 0, .turn none, .ends none (some ()), .turn (some 0)]).map Prod.fst =
    some [.started 3 (), .woke 0, .called (some ()) 0 0, .threw 0 0 (), .called (some ()) 1 1] := by
  decide

end CartaZarr
