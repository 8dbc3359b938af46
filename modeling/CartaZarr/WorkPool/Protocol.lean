import CartaZarr.WorkPool

/-!
# What a call of `run` can count on

Whatever the order in which the threads take their turns, the events since `run` was last called
(`lastRun`) have the shape `RunSpec` says: its own body and no other, every task at most once, no
worker index in two bodies at a time, and no task begun after an exception was recorded. A call that
has returned has had all of it done and every worker report (`Complete`), and while it has not, the
workers it waits for can each go on (`Underway`).
-/

namespace CartaZarr

open Word

variable {n : ℕ} {β ε : Type}

/-! ## Events -/

namespace PoolEvent

def isStart : PoolEvent n β ε → Bool
  | .started .. => true
  | _ => false

def task? : PoolEvent n β ε → Option ℕ
  | .called _ task _ => some task
  | _ => none

def woke? : PoolEvent n β ε → Option (Fin n)
  | .woke i => some i
  | _ => none

def reported? : PoolEvent n β ε → Option (Fin n)
  | .reported i => some i
  | _ => none

def thrown? : PoolEvent n β ε → Option ε
  | .threw _ _ e => some e
  | _ => none

def recorded? : PoolEvent n β ε → Option ε
  | .recorded _ e => some e
  | _ => none

def returned? : PoolEvent n β ε → Option (Option ε)
  | .returned e => some e
  | _ => none

end PoolEvent

/-- The events since `run` was last called, the call among them. -/
def lastRun (events : List (PoolEvent n β ε)) : List (PoolEvent n β ε) :=
  events.foldl (fun run e => if e.isStart then [e] else run ++ [e]) []

/-- What some of the events say, in order. -/
def said {γ : Type} (f : PoolEvent n β ε → Option γ) (run : List (PoolEvent n β ε)) : List γ :=
  run.filterMap f

theorem said_concat {γ : Type} (f : PoolEvent n β ε → Option γ) (run : List (PoolEvent n β ε))
    (e : PoolEvent n β ε) : said f (run ++ [e]) = said f run ++ (f e).toList := by
  cases h : f e <;> simp [said, h]

theorem said_of_mem {γ : Type} {f : PoolEvent n β ε → Option γ} {run : List (PoolEvent n β ε)}
    {e : PoolEvent n β ε} {x : γ} (he : e ∈ run) (hx : f e = some x) : x ∈ said f run :=
  List.mem_filterMap.2 ⟨e, he, hx⟩

/-- The tasks a body was called for. -/
def calls (run : List (PoolEvent n β ε)) : List ℕ := said PoolEvent.task? run

/-- The exceptions thrown. -/
def throws (run : List (PoolEvent n β ε)) : List ε := said PoolEvent.thrown? run

/-- The exceptions recorded. -/
def records (run : List (PoolEvent n β ε)) : List ε := said PoolEvent.recorded? run

def wakes (run : List (PoolEvent n β ε)) : List (Fin n) := said PoolEvent.woke? run

def reports (run : List (PoolEvent n β ε)) : List (Fin n) := said PoolEvent.reported? run

def returns (run : List (PoolEvent n β ε)) : List (Option ε) := said PoolEvent.returned? run

@[simp] theorem calls_concat (run : List (PoolEvent n β ε)) (e : PoolEvent n β ε) :
    calls (run ++ [e]) = calls run ++ e.task?.toList := said_concat ..

@[simp] theorem throws_concat (run : List (PoolEvent n β ε)) (e : PoolEvent n β ε) :
    throws (run ++ [e]) = throws run ++ e.thrown?.toList := said_concat ..

@[simp] theorem records_concat (run : List (PoolEvent n β ε)) (e : PoolEvent n β ε) :
    records (run ++ [e]) = records run ++ e.recorded?.toList := said_concat ..

@[simp] theorem wakes_concat (run : List (PoolEvent n β ε)) (e : PoolEvent n β ε) :
    wakes (run ++ [e]) = wakes run ++ e.woke?.toList := said_concat ..

@[simp] theorem reports_concat (run : List (PoolEvent n β ε)) (e : PoolEvent n β ε) :
    reports (run ++ [e]) = reports run ++ e.reported?.toList := said_concat ..

@[simp] theorem returns_concat (run : List (PoolEvent n β ε)) (e : PoolEvent n β ε) :
    returns (run ++ [e]) = returns run ++ e.returned?.toList := said_concat ..

/-- The task that worker `w` runs the body for after an event. -/
def busyAfter (w : ℕ) (busy : Option ℕ) : PoolEvent n β ε → Option ℕ
  | .called _ task worker => if worker = w then some task else busy
  | .finished _ worker => if worker = w then none else busy
  | .threw _ worker _ => if worker = w then none else busy
  | _ => busy

/-- The task that worker `w` runs the body for. -/
def busy (w : ℕ) (run : List (PoolEvent n β ε)) : Option ℕ := run.foldl (busyAfter w) none

theorem lastRun_concat (events : List (PoolEvent n β ε)) (e : PoolEvent n β ε) :
    lastRun (events ++ [e]) = if e.isStart then [e] else lastRun events ++ [e] := by
  rw [lastRun, List.foldl_append]
  rfl

theorem busy_concat (w : ℕ) (run : List (PoolEvent n β ε)) (e : PoolEvent n β ε) :
    busy w (run ++ [e]) = busyAfter w (busy w run) e := by
  rw [busy, List.foldl_append]
  rfl

theorem Thread.index_injective : Function.Injective (Thread.index (n := n)) := by
  intro t t' h
  cases t <;> cases t' <;> simp_all [Thread.index, Fin.ext_iff]

/-! ## What the events of a call look like -/

/-- The events of a call of `run` with this body, as far as it has come. -/
structure RunSpec (tasks : ℕ) (body : β) (run : List (PoolEvent n β ε)) : Prop where
  /-- Only its own body is called. -/
  own : ∀ b task worker, .called b task worker ∈ run → b = some body
  /-- Tasks are called for in order, each once. -/
  once : ∃ k ≤ tasks, calls run = List.range k
  /-- A worker is called only while it runs no other body. -/
  apart : ∀ before after b task worker,
    run = before ++ .called b task worker :: after → busy worker before = none
  /-- Once an exception is recorded no task is begun. -/
  givenUp : ∀ before after worker e, run = before ++ .recorded worker e :: after → calls after = []

theorem RunSpec.started (tasks : ℕ) (body : β) :
    RunSpec tasks body [(.started tasks body : PoolEvent n β ε)] where
  own _ _ _ h := by simp at h
  once := ⟨0, Nat.zero_le _, rfl⟩
  apart before after b task worker h := by
    cases before <;> simp at h
  givenUp before after worker e h := by
    cases before <;> simp at h

/-- One more event: if it calls the body, then the body of the call, for the next task, on a worker
that is free, and nothing is recorded yet. -/
theorem RunSpec.concat {tasks : ℕ} {body : β} {run : List (PoolEvent n β ε)}
    (h : RunSpec tasks body run)
    {e : PoolEvent n β ε} (he : ∀ b task worker, e = .called b task worker →
      b = some body ∧ task < tasks ∧ task = (calls run).length ∧ busy worker run = none ∧
        records run = []) :
    RunSpec tasks body (run ++ [e]) where
  own b task worker hmem := by
    rcases List.mem_append.1 hmem with hmem | hmem
    · exact h.own b task worker hmem
    · exact (he b task worker (List.mem_singleton.1 hmem).symm).1
  once := by
    obtain ⟨k, hk, hcalls⟩ := h.once
    rw [calls_concat]
    cases hcall : e.task? with
    | none => exact ⟨k, hk, by rw [← hcalls]; simp⟩
    | some task =>
      obtain ⟨b, worker, rfl⟩ : ∃ b worker, e = .called b task worker := by
        cases e <;> simp [PoolEvent.task?] at hcall
        exact ⟨_, _, by rw [hcall]⟩
      obtain ⟨-, hlt, hlen, -⟩ := he b task worker rfl
      rw [hcalls, List.length_range] at hlen
      exact ⟨k + 1, by omega, by rw [hcalls, List.range_succ, hlen]; rfl⟩
  apart before after b task worker hrun := by
    rcases concat_eq_append_cons hrun with ⟨rfl, rfl, -⟩ | ⟨rest, hrest, -⟩
    · exact (he b task worker rfl).2.2.2.1
    · exact h.apart before rest b task worker hrest
  givenUp before after worker e' hrun := by
    rcases concat_eq_append_cons hrun with ⟨-, -, rfl⟩ | ⟨rest, hrest, rfl⟩
    · rfl
    · rw [calls_concat, h.givenUp before rest worker e' hrest]
      cases hcall : e.task? with
      | none => rfl
      | some task =>
        obtain ⟨b, worker', rfl⟩ : ∃ b worker, e = .called b task worker := by
          cases e <;> simp [PoolEvent.task?] at hcall
          exact ⟨_, _, by rw [hcall]⟩
        have hmem : e' ∈ records run := said_of_mem (hrest ▸ by simp) (e := .recorded worker e') rfl
        rw [(he b task worker' rfl).2.2.2.2] at hmem
        cases hmem

/-- The events of a call that has returned. -/
structure Complete (tasks : ℕ) (run : List (PoolEvent n β ε)) : Prop where
  returns : returns run = [(records run).head?]
  rethrows : throws run ≠ [] → records run ≠ []
  all : throws run = [] → calls run = List.range tasks
  idle : ∀ t : Thread n, busy t.index run = none
  drained : ∀ i, (wakes run).count i = 1 ∧ (reports run).count i = 1

/-- The task a thread runs the body for. -/
def Place.task? : Place ε → Option ℕ
  | .executing task => some task
  | _ => none

namespace WorkPool

/-- No thread is inside the pool. -/
structure Idle (s : WorkPool n β ε) : Prop where
  body : s.body = none
  failure : s.failure = none
  drain : ∀ t, s.drain t = none
  generation_lt : s.generation < 2 ^ 64
  seen : ∀ i, s.seen i = s.generation
  ended : ∀ i, s.ended i = true → s.stopping = true

/-- Worker `i` has still to report to the call under way. -/
def Owes (s : WorkPool n β ε) (i : Fin n) : Prop := s.seen i ≠ s.generation ∨
    (s.drain (some i)).isSome

instance (s : WorkPool n β ε) (i : Fin n) : Decidable (s.Owes i) :=
  inferInstanceAs (Decidable (_ ∨ _))

/-- A call of `run` with this body is under way. -/
structure Underway (s : WorkPool n β ε) (tasks : ℕ) (body : β)
    (run : List (PoolEvent n β ε)) : Prop where
  body_eq : s.body = some body
  tasks_eq : s.tasks = tasks
  tasks_lt : tasks < 2 ^ 64
  awake : s.stopping = false
  alive : ∀ i, s.ended i = false
  caller : s.drain none ≠ none
  own : ∀ t d, s.drain t = some d → d.body = some body
  generation_lt : s.generation < 2 ^ 64
  seen : ∀ i, s.seen i = s.generation ∨
    s.drain (some i) = none ∧ s.seen i < 2 ^ 64 ∧ add (s.seen i) 1 = s.generation
  wakes_eq : ∀ i, (wakes run).count i = if s.seen i = s.generation then 1 else 0
  reports_eq : ∀ i, (reports run).count i = if s.Owes i then 0 else 1
  running_eq : s.running = (Finset.univ.filter s.Owes).card
  /-- Without an exception, the next task is the first not called for. -/
  next_eq : s.next = if records run = [] then (calls run).length else tasks
  failure_eq : s.failure = (records run).head?
  busy_eq : ∀ t, busy t.index run = (s.drain t).bind fun d => d.place.task?
  done_next : ∀ t d, s.drain t = some d → d.place = .done → s.next = tasks
  throwing : ∀ t d task e, s.drain t = some d → d.place = .throwing task e → throws run ≠ []
  recorded : records run ≠ [] → throws run ≠ []
  pending : throws run ≠ [] → records run ≠ [] ∨
    ∃ t d task e, s.drain t = some d ∧ d.place = .throwing task e
  returns_eq : returns run = []

section Steps

variable {s s' : WorkPool n β ε} {tasks : ℕ} {body : β} {run : List (PoolEvent n β ε)}
  {e : PoolEvent n β ε}

/-- A call of an idle pool. -/
theorem Idle.publish (h : s.Idle) (hlt : tasks < 2 ^ 64) (hawake : s.stopping = false) :
    (s.publish tasks body).Underway tasks body [.started tasks body] := by
  have hgen : ∀ i, s.seen i ≠ add s.generation 1 := fun i => by
    have := h.generation_lt
    rw [h.seen i, add]
    omega
  have howes : ∀ i, (s.publish tasks body).Owes i := fun i => Or.inl (hgen i)
  have hcaller : (s.publish tasks body).drain none = some ⟨some body, .claiming⟩ := by
    simp
  have hworker : ∀ i, (s.publish tasks body).drain (some i) = none := fun i => by
    simp [h.drain]
  -- only the caller is in the pool, about to take a task
  have honly : ∀ t d, (s.publish tasks body).drain t = some d → d = ⟨some body, .claiming⟩ := by
    intro t d hd
    cases t with
    | none =>
      rw [hcaller, Option.some.injEq] at hd
      exact hd.symm
    | some i =>
      rw [hworker] at hd
      cases hd
  refine
    { body_eq := rfl
      tasks_eq := rfl
      tasks_lt := hlt
      awake := hawake
      alive := fun i => ?_
      caller := by rw [hcaller]; simp
      own := fun t d hd => by rw [honly t d hd]
      generation_lt := add_lt _ _
      seen := fun i => Or.inr ⟨hworker i, h.seen i ▸ h.generation_lt, congrArg (add · 1) (h.seen i)⟩
      wakes_eq := fun i => (if_neg (hgen i)).symm
      reports_eq := fun i => (if_pos (howes i)).symm
      running_eq := ?_
      next_eq := rfl
      failure_eq := h.failure
      busy_eq := fun t => ?_
      done_next := fun t d hd hdone => ?_
      throwing := fun t d task e hd hthrow => ?_
      recorded := fun hne => absurd rfl hne
      pending := fun hne => absurd rfl hne
      returns_eq := rfl }
  · by_contra hended
    have := h.ended i (Bool.not_eq_false _ ▸ hended)
    rw [hawake] at this
    cases this
  · rw [Finset.filter_true_of_mem fun i _ => howes i, Finset.card_univ, Fintype.card_fin]
    rfl
  · cases t with
    | none => rw [hcaller]; rfl
    | some i => rw [hworker]; rfl
  · rw [honly t d hd] at hdone
    cases hdone
  · rw [honly t d hd] at hthrow
    cases hthrow

/-- A thread in `drainTasks` moves on. -/
theorem Underway.goTo (h : s.Underway tasks body run) {t : Thread n} {d : Drain β ε}
    (hd : s.drain t = some d) {next : ℕ} {failure : Option ε} {place : Place ε}
    (hquiet : e.woke? = none ∧ e.reported? = none ∧ e.returned? = none)
    (hnext : next = if records (run ++ [e]) = [] then (calls (run ++ [e])).length else tasks)
    (hkeep : s.next = tasks → next = tasks)
    (hfailure : failure = (records (run ++ [e])).head?)
    (hbusy : busyAfter t.index (busy t.index run) e = place.task?)
    (hothers : ∀ w b, w ≠ t.index → busyAfter w b e = b)
    (hdone : place = .done → next = tasks)
    (hthrow : ∀ task x, place = .throwing task x → throws (run ++ [e]) ≠ [])
    (hrecord : records (run ++ [e]) ≠ [] → throws (run ++ [e]) ≠ [])
    (hpending : throws (run ++ [e]) ≠ [] → records (run ++ [e]) ≠ [] ∨
      (∃ task x, place = .throwing task x) ∨
      ∃ t' ≠ t, ∃ d task x, s.drain t' = some d ∧ d.place = .throwing task x) :
    ({ s with next, failure }.goTo t d.body place).Underway tasks body (run ++ [e]) := by
  obtain ⟨hwoke, hreported, hreturned⟩ := hquiet
  -- a thread is this one, where it goes, or another, as it was
  have hcases : ∀ t' d', ({ s with next, failure }.goTo t d.body place).drain t' = some d' →
      d' = ⟨d.body, place⟩ ∨ s.drain t' = some d' := by
    intro t' d' hd'
    by_cases ht : t' = t
    · subst ht
      simp only [goTo_drain, Function.update_self, Option.some.injEq] at hd'
      exact Or.inl hd'.symm
    · rw [goTo_drain, Function.update_of_ne ht] at hd'
      exact Or.inr hd'
  have hnone : ∀ t', ({ s with next, failure }.goTo t d.body place).drain t' = none ↔
      s.drain t' = none := by
    intro t'
    by_cases ht : t' = t
    · subst ht
      simp [hd]
    · simp [ht]
  have howes : ∀ i, ({ s with next, failure }.goTo t d.body place).Owes i ↔ s.Owes i := by
    intro i
    unfold Owes
    rw [Option.isSome_iff_ne_none, Option.isSome_iff_ne_none, Ne, Ne, hnone]
    rfl
  refine
    { body_eq := h.body_eq
      tasks_eq := h.tasks_eq
      tasks_lt := h.tasks_lt
      awake := h.awake
      alive := h.alive
      caller := fun hn => h.caller ((hnone none).1 hn)
      own := fun t' d' hd' => ?_
      generation_lt := h.generation_lt
      seen := fun i => (h.seen i).imp_right fun hi => ⟨(hnone _).2 hi.1, hi.2⟩
      wakes_eq := fun i => ?_
      reports_eq := fun i => ?_
      running_eq := ?_
      next_eq := hnext
      failure_eq := hfailure
      busy_eq := fun t' => ?_
      done_next := fun t' d' hd' hdone' => ?_
      throwing := fun t' d' task x hd' hthrow' => ?_
      recorded := hrecord
      pending := fun hne => ?_
      returns_eq := by rw [returns_concat, hreturned, h.returns_eq]; rfl }
  · rcases hcases t' d' hd' with rfl | hd'
    · exact h.own t d hd
    · exact h.own t' d' hd'
  · rw [wakes_concat, hwoke, Option.toList_none, List.append_nil]
    exact h.wakes_eq i
  · rw [reports_concat, hreported, Option.toList_none, List.append_nil, h.reports_eq i]
    exact if_congr (howes i).symm rfl rfl
  · exact h.running_eq.trans (congrArg Finset.card (Finset.filter_congr fun i _ => (howes i).symm))
  · rw [busy_concat]
    by_cases ht : t' = t
    · subst ht
      simp [hbusy]
    · rw [hothers _ _ fun hi => ht (Thread.index_injective hi), h.busy_eq t', goTo_drain,
        Function.update_of_ne ht]
  · rcases hcases t' d' hd' with rfl | hd'
    · exact hdone hdone'
    · exact hkeep (h.done_next t' d' hd' hdone')
  · rcases hcases t' d' hd' with rfl | hd'
    · exact hthrow task x hthrow'
    · have := h.throwing t' d' task x hd' hthrow'
      rw [throws_concat]
      exact fun hnil => this (List.append_eq_nil_iff.1 hnil).1
  · rcases hpending hne with hr | ⟨task, x, rfl⟩ | ⟨t', ht', d', task, x, hd', hx⟩
    · exact Or.inl hr
    · exact Or.inr ⟨t, ⟨d.body, _⟩, task, x, by simp, rfl⟩
    · exact Or.inr ⟨t', d', task, x, by simp [ht', hd'], hx⟩

theorem Underway.records_eq_nil (h : s.Underway tasks body run) (hlt : s.next < s.tasks) :
    records run = [] := by
  by_contra hne
  have := h.next_eq
  rw [if_neg hne, ← h.tasks_eq] at this
  omega

/-- A section of `drainTasks`. -/
theorem Underway.drainTasks (h : s.Underway tasks body run) (hr : RunSpec tasks body run)
    {t : Thread n} {d : Drain β ε} (hd : s.drain t = some d)
    (hs : s.drainTasks t d = some (e, s')) :
    s'.Underway tasks body (run ++ [e]) ∧ RunSpec tasks body (run ++ [e]) := by
  have hbusy := h.busy_eq t
  rw [hd, Option.bind_some] at hbusy
  unfold WorkPool.drainTasks at hs
  split at hs
  · rename_i hplace
    have hfree : busy t.index run = none := by rw [hbusy, hplace]; rfl
    split_ifs at hs with hlt
    · -- a task is taken: nothing is recorded, or none would be left
      have hrec := h.records_eq_nil hlt
      have hnext : s.next = (calls run).length := by rw [h.next_eq, if_pos hrec]
      have htasks := h.tasks_lt
      have hltt : s.next < tasks := h.tasks_eq ▸ hlt
      rw [Option.some.injEq, Prod.mk.injEq] at hs
      obtain ⟨rfl, rfl⟩ := hs
      constructor
      · refine h.goTo hd ⟨rfl, rfl, rfl⟩ ?_ (fun hn => by omega) ?_ ?_ (fun w b hw => ?_)
          (fun hn => by cases hn) (fun _ _ hn => by cases hn) ?_ ?_
        · rw [add_eq (show s.next + 1 < 2 ^ 64 by omega), hnext]
          simp [PoolEvent.recorded?, PoolEvent.task?, hrec]
        · simp [PoolEvent.recorded?, h.failure_eq]
        · simp [busyAfter, Place.task?]
        · simp [busyAfter, hw.symm]
        · simp [PoolEvent.recorded?, hrec]
        · intro hne
          rcases h.pending (by simpa [PoolEvent.thrown?] using hne)
            with hr' | ⟨t', d', k, x, hd', hx⟩
          · exact absurd hrec hr'
          · refine Or.inr (Or.inr ⟨t', ?_, d', k, x, hd', hx⟩)
            rintro rfl
            rw [hd, Option.some.injEq] at hd'
            rw [hd', hx] at hplace
            cases hplace
      · refine hr.concat fun b task worker he => ?_
        rw [PoolEvent.called.injEq] at he
        obtain ⟨rfl, rfl, rfl⟩ := he
        exact ⟨h.own t d hd, hltt, hnext, hfree, hrec⟩
    · -- none is left
      have hnext : s.next = tasks := by
        have hle : s.next ≤ tasks := by
          rw [h.next_eq]
          obtain ⟨k, hk, hcalls⟩ := hr.once
          split_ifs
          · rw [hcalls, List.length_range]
            exact hk
          · exact le_rfl
        have := h.tasks_eq
        omega
      rw [Option.some.injEq, Prod.mk.injEq] at hs
      obtain ⟨rfl, rfl⟩ := hs
      constructor
      · refine h.goTo hd ⟨rfl, rfl, rfl⟩ ?_ id ?_ ?_ (fun _ _ _ => rfl) (fun _ => hnext)
          (fun _ _ hn => by cases hn) ?_ ?_
        · simpa [PoolEvent.recorded?, PoolEvent.task?] using h.next_eq
        · simpa [PoolEvent.recorded?] using h.failure_eq
        · simp [busyAfter, Place.task?, hfree]
        · simpa [PoolEvent.recorded?, PoolEvent.thrown?] using h.recorded
        · intro hne
          rcases h.pending (by simpa [PoolEvent.thrown?] using hne)
            with hr' | ⟨t', d', k, x, hd', hx⟩
          · exact Or.inl (by simpa [PoolEvent.recorded?] using hr')
          · refine Or.inr (Or.inr ⟨t', ?_, d', k, x, hd', hx⟩)
            rintro rfl
            rw [hd, Option.some.injEq] at hd'
            rw [hd', hx] at hplace
            cases hplace
      · exact hr.concat fun b task worker he => by cases he
  · rename_i task x hplace
    rw [Option.some.injEq, Prod.mk.injEq] at hs
    obtain ⟨rfl, rfl⟩ := hs
    have hthrows := h.throwing t d task x hd hplace
    constructor
    · refine h.goTo hd ⟨rfl, rfl, rfl⟩ ?_ (fun _ => h.tasks_eq) ?_ ?_ (fun _ _ _ => rfl)
        (fun _ => h.tasks_eq) (fun _ _ hn => by cases hn) ?_ ?_
      · simp [PoolEvent.recorded?, h.tasks_eq]
      · rw [h.failure_eq]
        cases hrec : records run <;> simp [PoolEvent.recorded?, hrec]
      · simp [busyAfter, Place.task?, hbusy, hplace]
      · exact fun _ => by simpa [PoolEvent.thrown?] using hthrows
      · exact fun _ => Or.inl (by simp [PoolEvent.recorded?])
    · exact hr.concat fun b task worker he => by cases he
  · cases hs
  · cases hs

/-- A body ends. -/
theorem Underway.bodyEnds (h : s.Underway tasks body run) (hr : RunSpec tasks body run)
    {t : Thread n} {d : Drain β ε} (hd : s.drain t = some d) {exception : Option ε}
    (hs : s.bodyEnds t d exception = some (e, s')) :
    s'.Underway tasks body (run ++ [e]) ∧ RunSpec tasks body (run ++ [e]) := by
  unfold WorkPool.bodyEnds at hs
  split at hs
  · rename_i task hplace
    rw [Option.some.injEq, Prod.mk.injEq] at hs
    obtain ⟨rfl, rfl⟩ := hs
    constructor
    · refine h.goTo hd ⟨rfl, rfl, rfl⟩ ?_ id ?_ ?_ (fun w b hw => ?_) (fun hn => by cases hn)
        (fun _ _ hn => by cases hn) ?_ ?_
      · simpa [PoolEvent.recorded?, PoolEvent.task?] using h.next_eq
      · simpa [PoolEvent.recorded?] using h.failure_eq
      · simp [busyAfter, Place.task?]
      · simp [busyAfter, hw.symm]
      · simpa [PoolEvent.recorded?, PoolEvent.thrown?] using h.recorded
      · intro hne
        rcases h.pending (by simpa [PoolEvent.thrown?] using hne) with hr' | ⟨t', d', k, x, hd', hx⟩
        · exact Or.inl (by simpa [PoolEvent.recorded?] using hr')
        · refine Or.inr (Or.inr ⟨t', ?_, d', k, x, hd', hx⟩)
          rintro rfl
          rw [hd, Option.some.injEq] at hd'
          rw [hd', hx] at hplace
          cases hplace
    · exact hr.concat fun b task worker he => by cases he
  · rename_i task x hplace
    rw [Option.some.injEq, Prod.mk.injEq] at hs
    obtain ⟨rfl, rfl⟩ := hs
    constructor
    · refine h.goTo hd ⟨rfl, rfl, rfl⟩ ?_ id ?_ ?_ (fun w b hw => ?_) (fun hn => by cases hn)
        (fun _ _ _ => ?_) (fun _ => ?_) (fun _ => Or.inr (Or.inl ⟨task, x, rfl⟩))
      · simpa [PoolEvent.recorded?, PoolEvent.task?] using h.next_eq
      · simpa [PoolEvent.recorded?] using h.failure_eq
      · simp [busyAfter, Place.task?]
      · simp [busyAfter, hw.symm]
      · simp [PoolEvent.thrown?]
      · simp [PoolEvent.thrown?]
    · exact hr.concat fun b task worker he => by cases he
  · cases hs

theorem Underway.seen_of_drain (h : s.Underway tasks body run) {i : Fin n} {d : Drain β ε}
    (hd : s.drain (some i) = some d) : s.seen i = s.generation := by
  rcases h.seen i with hseen | ⟨hnone, -⟩
  · exact hseen
  · rw [hd] at hnone
    cases hnone

/-- A worker wakes. -/
theorem Underway.takeBody (h : s.Underway tasks body run) {i : Fin n} (hd : s.drain (some i) = none)
    (hseen : s.generation ≠ s.seen i) :
    (s.takeBody i).Underway tasks body (run ++ [.woke i]) := by
  have hcases : ∀ t d, (s.takeBody i).drain t = some d → d = ⟨some body, .claiming⟩ ∨
      s.drain t = some d := by
    intro t d hd'
    by_cases ht : t = some i
    · subst ht
      rw [takeBody_drain, Function.update_self, h.body_eq, Option.some.injEq] at hd'
      exact Or.inl hd'.symm
    · rw [takeBody_drain, Function.update_of_ne ht] at hd'
      exact Or.inr hd'
  have howes : ∀ j, (s.takeBody i).Owes j ↔ s.Owes j := by
    intro j
    by_cases hj : j = i
    · subst hj
      exact iff_of_true (Or.inr (by simp)) (Or.inl hseen.symm)
    · have hj' : (some j : Thread n) ≠ some i := by simpa using hj
      simp only [Owes, takeBody_seen, takeBody_drain, Function.update_of_ne hj,
        Function.update_of_ne hj', takeBody_generation]
  refine
    { body_eq := h.body_eq
      tasks_eq := h.tasks_eq
      tasks_lt := h.tasks_lt
      awake := h.awake
      alive := h.alive
      caller := by simpa using h.caller
      own := fun t d hd' => ?_
      generation_lt := h.generation_lt
      seen := fun j => ?_
      wakes_eq := fun j => ?_
      reports_eq := fun j => ?_
      running_eq := ?_
      next_eq := by simpa [PoolEvent.recorded?, PoolEvent.task?] using h.next_eq
      failure_eq := by simpa [PoolEvent.recorded?] using h.failure_eq
      busy_eq := fun t => ?_
      done_next := fun t d hd' hdone => ?_
      throwing := fun t d task x hd' hthrow => ?_
      recorded := by simpa [PoolEvent.recorded?, PoolEvent.thrown?] using h.recorded
      pending := fun hne => ?_
      returns_eq := by simpa [PoolEvent.returned?] using h.returns_eq }
  · rcases hcases t d hd' with rfl | hd'
    · rfl
    · exact h.own t d hd'
  · by_cases hj : j = i
    · subst hj
      exact Or.inl (by simp)
    · refine (h.seen j).imp (fun hs => ?_) fun hs => ⟨?_, ?_⟩
      · simpa [hj] using hs
      · simpa [hj] using hs.1
      · simpa [hj] using hs.2
  · rw [wakes_concat, List.count_append, h.wakes_eq j]
    by_cases hj : j = i
    · subst hj
      simp [PoolEvent.woke?, hseen.symm]
    · have hj' : i ≠ j := Ne.symm hj
      simp [PoolEvent.woke?, hj, hj']
  · rw [reports_concat, List.count_append, h.reports_eq j, if_congr (howes j) rfl rfl]
    rfl
  · exact h.running_eq.trans (congrArg Finset.card (Finset.filter_congr fun j _ => (howes j).symm))
  · rw [busy_concat, show busyAfter t.index (busy t.index run) (.woke i) =
      busy t.index run from rfl,
      h.busy_eq t]
    by_cases ht : t = some i
    · subst ht
      simp [hd, Place.task?]
    · simp [ht]
  · rcases hcases t d hd' with rfl | hd'
    · cases hdone
    · exact h.done_next t d hd' hdone
  · rcases hcases t d hd' with rfl | hd'
    · cases hthrow
    · simpa [PoolEvent.thrown?] using h.throwing t d task x hd' hthrow
  · rcases h.pending (by simpa [PoolEvent.thrown?] using hne) with hr | ⟨t, d, task, x, hd', hx⟩
    · exact Or.inl (by simpa [PoolEvent.recorded?] using hr)
    · refine Or.inr ⟨t, d, task, x, ?_, hx⟩
      have ht : t ≠ some i := by
        rintro rfl
        rw [hd] at hd'
        cases hd'
      simpa [ht] using hd'

theorem Underway.running_pos (h : s.Underway tasks body run) {i : Fin n} (hi : s.Owes i) :
    0 < s.running := by
  rw [h.running_eq]
  exact Finset.card_pos.2 ⟨i, by simpa using hi⟩

/-- A worker reports. -/
theorem Underway.checkOut (hn : n < 2 ^ 64) (h : s.Underway tasks body run)
    {i : Fin n} {d : Drain β ε}
    (hd : s.drain (some i) = some d) (hplace : d.place = .done) {running : ℕ}
    (hrunning : running = sub s.running 1) :
    (s.checkOut i running).Underway tasks body (run ++ [.reported i]) := by
  have hseen := h.seen_of_drain hd
  have hi : s.Owes i := Or.inr (by rw [hd]; rfl)
  have hcases : ∀ t d', (s.checkOut i running).drain t = some d' → s.drain t = some d' := by
    intro t d' hd'
    by_cases ht : t = some i
    · subst ht
      simp at hd'
    · rwa [checkOut_drain, Function.update_of_ne ht] at hd'
  have howes : ∀ j, (s.checkOut i running).Owes j ↔ s.Owes j ∧ j ≠ i := by
    intro j
    by_cases hj : j = i
    · subst hj
      refine iff_of_false ?_ (by simp)
      rintro (hs | hs)
      · exact hs hseen
      · simp at hs
    · have hj' : (some j : Thread n) ≠ some i := by simpa using hj
      simp only [Owes, checkOut_drain, Function.update_of_ne hj', hj, ne_eq, not_false_eq_true,
        and_true, checkOut_seen, checkOut_generation]
  refine
    { body_eq := h.body_eq
      tasks_eq := h.tasks_eq
      tasks_lt := h.tasks_lt
      awake := h.awake
      alive := h.alive
      caller := by simpa using h.caller
      own := fun t d' hd' => h.own t d' (hcases t d' hd')
      generation_lt := h.generation_lt
      seen := fun j => ?_
      wakes_eq := fun j => ?_
      reports_eq := fun j => ?_
      running_eq := ?_
      next_eq := by simpa [PoolEvent.recorded?, PoolEvent.task?] using h.next_eq
      failure_eq := by simpa [PoolEvent.recorded?] using h.failure_eq
      busy_eq := fun t => ?_
      done_next := fun t d' hd' => h.done_next t d' (hcases t d' hd')
      throwing := fun t d' task x hd' hthrow => ?_
      recorded := by simpa [PoolEvent.recorded?, PoolEvent.thrown?] using h.recorded
      pending := fun hne => ?_
      returns_eq := by simpa [PoolEvent.returned?] using h.returns_eq }
  · rw [checkOut_seen, checkOut_generation]
    by_cases hj : j = i
    · subst hj
      exact Or.inl hseen
    · refine (h.seen j).imp_right fun hs => ⟨?_, hs.2⟩
      simpa [hj] using hs.1
  · rw [wakes_concat, List.count_append]
    exact h.wakes_eq j
  · rw [reports_concat, List.count_append, h.reports_eq j]
    by_cases hj : j = i
    · subst hj
      rw [if_pos hi, if_neg fun ho => ((howes j).1 ho).2 rfl]
      simp [PoolEvent.reported?]
    · have hj' : i ≠ j := Ne.symm hj
      rw [if_congr (show (s.checkOut i running).Owes j ↔ s.Owes j by simp [howes, hj]) rfl rfl]
      simp [PoolEvent.reported?, hj']
  · have hpos := h.running_pos hi
    have hle : (Finset.univ.filter s.Owes).card ≤ n := by
      simpa using Finset.card_filter_le Finset.univ s.Owes
    have herase : Finset.univ.filter (s.checkOut i running).Owes =
        (Finset.univ.filter s.Owes).erase i := by
      ext j
      simp [howes, and_comm]
    rw [herase, Finset.card_erase_of_mem (by simpa using hi), ← h.running_eq]
    exact hrunning.trans (sub_eq hpos (by rw [h.running_eq]; omega))
  · rw [busy_concat, show busyAfter t.index (busy t.index run) (.reported i) =
      busy t.index run from rfl,
      h.busy_eq t]
    by_cases ht : t = some i
    · subst ht
      simp [hd, hplace, Place.task?]
    · simp [ht]
  · simpa [PoolEvent.thrown?] using h.throwing t d' task x (hcases t d' hd') hthrow
  · rcases h.pending (by simpa [PoolEvent.thrown?] using hne) with hr | ⟨t, d', task, x, hd', hx⟩
    · exact Or.inl (by simpa [PoolEvent.recorded?] using hr)
    · refine Or.inr ⟨t, d', task, x, ?_, hx⟩
      have ht : t ≠ some i := by
        rintro rfl
        rw [hd, Option.some.injEq] at hd'
        rw [hd', hx] at hplace
        cases hplace
      simpa [ht] using hd'

/-- The call returns. -/
theorem Underway.retract (h : s.Underway tasks body run)
    (hr : RunSpec tasks body run) {d : Drain β ε}
    (hd : s.drain none = some d) (hplace : d.place = .done) (hrunning : s.running = 0) :
    s.retract.Idle ∧ Complete tasks (run ++ [.returned s.failure]) ∧
      RunSpec tasks body (run ++ [.returned s.failure]) := by
  -- no worker is left to report
  have hnot : ∀ i, ¬ s.Owes i := fun i hi => by
    have := h.running_pos hi
    omega
  have hworker : ∀ i, s.drain (some i) = none := fun i => by
    rw [← Option.not_isSome_iff_eq_none]
    exact fun hs => hnot i (Or.inr hs)
  have hseen : ∀ i, s.seen i = s.generation := fun i => by
    by_contra hs
    exact hnot i (Or.inl hs)
  have hdrain : ∀ t, s.retract.drain t = none := by
    intro t
    cases t with
    | none => simp
    | some i => simp [hworker]
  have hnext := h.done_next none d hd hplace
  -- a throw is recorded, for no thread is about to
  have hrec : throws run ≠ [] → records run ≠ [] := by
    intro hne
    rcases h.pending hne with hrec | ⟨t, d', task, x, hd', hx⟩
    · exact hrec
    · cases t with
      | none =>
        rw [hd, Option.some.injEq] at hd'
        rw [hd', hx] at hplace
        cases hplace
      | some i =>
        rw [hworker] at hd'
        cases hd'
  refine ⟨⟨rfl, rfl, hdrain, h.generation_lt, hseen, fun i hi => ?_⟩,
    ⟨?_, ?_, fun hnone => ?_, fun t => ?_, fun i => ?_⟩,
    hr.concat fun b task worker he => by cases he⟩
  · exact absurd hi (by rw [show s.retract.ended i = s.ended i from rfl, h.alive i]; simp)
  · simp [PoolEvent.returned?, PoolEvent.recorded?, h.returns_eq, h.failure_eq]
  · simpa [PoolEvent.thrown?, PoolEvent.recorded?] using hrec
  · have hnone' : throws run = [] := by simpa [PoolEvent.thrown?] using hnone
    have hnorec : records run = [] := by
      by_contra hne
      exact h.recorded hne hnone'
    obtain ⟨k, -, hcalls⟩ := hr.once
    have hk : k = tasks := by
      rw [← hnext, h.next_eq, if_pos hnorec, hcalls, List.length_range]
    simp [PoolEvent.task?, hcalls, hk]
  · rw [busy_concat, show busyAfter t.index (busy t.index run) (.returned s.failure) =
      busy t.index run from rfl, h.busy_eq t]
    cases t with
    | none => simp [hd, hplace, Place.task?]
    | some i => simp [hworker]
  · have h₁ := h.wakes_eq i
    have h₂ := h.reports_eq i
    rw [if_pos (hseen i)] at h₁
    rw [if_neg (hnot i)] at h₂
    simpa [PoolEvent.woke?, PoolEvent.reported?] using ⟨h₁, h₂⟩

end Steps

end WorkPool

end CartaZarr
