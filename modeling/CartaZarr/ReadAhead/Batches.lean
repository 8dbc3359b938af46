import CartaZarr.ReadAhead.ReadingAhead

/-!
# What reading ahead can be relied on for

`AheadInv` holds whatever frames are served, whenever the worker ends and whoever cancels: one batch
is under way at a time, only the last of the intervals can reach past the last frame served, and
what was decoded ahead last for an image is what `requested` says. `readingAhead_protocol` draws
what follows.
-/

namespace CartaZarr

/-! ## What happened -/

/-- What an event began to decode ahead. -/
def AheadEvent.batch : AheadEvent → List Ahead
  | .served _ _ _ _ batch => batch
  | _ => []

/-- Everything decoded ahead, in order. -/
def aheads (events : List AheadEvent) : List Ahead := events.flatMap AheadEvent.batch

/-- The runs of one image decoded ahead, in order. -/
def runsAhead (image : ℕ) (work : List Ahead) : List Run :=
  (work.filter fun ahead => ahead.image = image).map Ahead.run

/-- The intervals of the batches begun, each from its start to its end, if it is at it. -/
def intervalsAfter (intervals : List (ℕ × Option ℕ)) : AheadEvent → List (ℕ × Option ℕ)
  | .served at_ _ _ _ batch => if batch.isEmpty then intervals else intervals ++ [(at_, none)]
  | .ended at_ _ => intervals.map fun x => (x.1, some (x.2.getD at_))
  | .other => intervals

def intervals (events : List AheadEvent) : List (ℕ × Option ℕ) := events.foldl intervalsAfter []

theorem aheads_concat (events : List AheadEvent) (e : AheadEvent) :
    aheads (events ++ [e]) = aheads events ++ e.batch := by
  simp [aheads]

theorem intervals_concat (events : List AheadEvent) (e : AheadEvent) :
    intervals (events ++ [e]) = intervalsAfter (intervals events) e := by
  rw [intervals, List.foldl_append]
  rfl

theorem runsAhead_append (image : ℕ) (work work' : List Ahead) :
    runsAhead image (work ++ work') = runsAhead image work ++ runsAhead image work' := by
  simp [runsAhead]

/-- What was put in last for an image is its last run. -/
theorem lookup_entries (image : ℕ) (work : List Ahead) :
    ((work.map Ahead.entry).reverse).lookup image = (runsAhead image work).getLast? := by
  induction work using List.reverseRecOn with
  | nil => rfl
  | append_singleton work ahead ih =>
    rw [List.map_append, List.reverse_append, runsAhead_append]
    by_cases h : ahead.image = image
    · simp [Ahead.entry, runsAhead, h]
    · have h' : (image == ahead.image) = false := by simpa using Ne.symm h
      simp [Ahead.entry, runsAhead, h, List.lookup_cons, h', ih]

namespace ReadingAhead

variable {sources : List RunSource} {frames : List (List AnimatedPlane)}

/-! ## Looking ahead -/

theorem nextRun_spec {source : RunSource} {image : ℕ} {runNow : Run} {ahead : Ahead}
    (h : nextRun source image runNow frames = some ahead) :
    ahead.image = image ∧ ahead.run ≠ runNow ∧ source.runOf ahead.plane = ahead.run := by
  obtain ⟨planes, -, hplanes⟩ := List.exists_of_findSome?_eq_some h
  obtain ⟨plane, -, hplane⟩ := Option.bind_eq_some_iff.1 hplanes
  simp only at hplane
  split_ifs at hplane with hne
  rw [Option.some.injEq] at hplane
  rw [← hplane]
  exact ⟨rfl, hne, rfl⟩

/-- What looking ahead for the planes `shown` finds, where `requested` was decoded ahead before. -/
structure Found (sources : List RunSource) (requested : List (ℕ × Run)) (shown : List AnimatedPlane)
    (found : List (ℕ × Run) × List Ahead) : Prop where
  requested_eq : found.1 = (found.2.map Ahead.entry).reverse ++ requested
  image_nodup : (found.2.map Ahead.image).Nodup
  /-- It is for a plane shown, and neither the run shown nor the one decoded ahead last. -/
  new : ∀ ahead ∈ found.2, requested.lookup ahead.image ≠ some ahead.run ∧
    ∃ now ∈ shown, now.image = ahead.image ∧ ∃ source, sources[ahead.image]? = some source ∧
      source.runOf now.request ≠ ahead.run ∧ source.runOf ahead.plane = ahead.run

theorem lookAhead_found {requested : List (ℕ × Run)} {shown : List AnimatedPlane}
    {found : List (ℕ × Run) × List Ahead} (h : Found sources requested shown found)
    (now : AnimatedPlane) :
    Found sources requested (shown ++ [now]) (lookAhead sources frames found now) := by
  -- nothing is found for it
  have hsame : Found sources requested (shown ++ [now]) found :=
    ⟨h.requested_eq, h.image_nodup, fun ahead hahead => by
      obtain ⟨hreq, p, hp, hrest⟩ := h.new ahead hahead
      exact ⟨hreq, p, by simp [hp], hrest⟩⟩
  obtain ⟨requested', work⟩ := found
  unfold lookAhead
  simp only
  split
  · exact hsame
  · rename_i source hsource
    split_ifs with hany
    · exact hsame
    · split
      · exact hsame
      · rename_i ahead hnext
        split_ifs with hlast
        · exact hsame
        · obtain ⟨himage, hrun, hplane⟩ := nextRun_spec hnext
          have hreq : requested' = (work.map Ahead.entry).reverse ++ requested := h.requested_eq
          have hfresh : ∀ x ∈ work, x.image ≠ now.image := fun x hx hxi =>
            hany (List.any_eq_true.2 ⟨x, hx, by simpa using hxi⟩)
          -- so what was last decoded ahead for it is from before
          have hnone : ((work.map Ahead.entry).reverse).lookup now.image = none := by
            rw [lookup_entries, runsAhead, List.filter_eq_nil_iff.2 fun x hx => by
              simpa using hfresh x hx]
            rfl
          have hbefore : requested.lookup now.image ≠ some ahead.run := by
            rw [hreq, List.lookup_append, hnone, Option.none_or] at hlast
            exact hlast
          refine ⟨by simp [hreq], ?_, fun x hx => ?_⟩
          · rw [List.map_append, List.nodup_append]
            refine ⟨h.image_nodup, by simp, fun i hi j hj => ?_⟩
            obtain ⟨x, hx, rfl⟩ := List.mem_map.1 hi
            obtain rfl : j = ahead.image := by simpa using hj
            rw [himage]
            exact hfresh x hx
          · rcases List.mem_append.1 hx with hx | hx
            · exact hsame.new x hx
            · obtain rfl : x = ahead := by simpa using hx
              rw [himage]
              exact ⟨hbefore, now, by simp, rfl, source, hsource, hrun.symm, hplane⟩

theorem foldl_lookAhead_found (requested : List (ℕ × Run)) (shown : List AnimatedPlane) :
    Found sources requested shown (shown.foldl (lookAhead sources frames) (requested, [])) := by
  induction shown using List.reverseRecOn with
  | nil => exact ⟨by simp, by simp, by simp⟩
  | append_singleton shown now ih =>
    rw [List.foldl_append]
    exact lookAhead_found ih now

/-- A batch has at most one run of an image. -/
theorem Found.runsAhead_eq {requested : List (ℕ × Run)} {shown : List AnimatedPlane}
    {found : List (ℕ × Run) × List Ahead} (h : Found sources requested shown found) (image : ℕ) :
    runsAhead image found.2 = [] ∨
      ∃ run, runsAhead image found.2 = [run] ∧ requested.lookup image ≠ some run := by
  by_cases hex : ∃ ahead ∈ found.2, ahead.image = image
  · obtain ⟨ahead, hahead, rfl⟩ := hex
    refine Or.inr ⟨ahead.run, ?_, (h.new ahead hahead).1⟩
    have hfilter : (found.2.filter fun x => x.image = ahead.image) = [ahead] := by
      refine List.perm_singleton.1 ?_
      refine (List.perm_ext_iff_of_nodup (h.image_nodup.of_map.filter _) (by simp)).2 fun x => ?_
      simp only [List.mem_filter, decide_eq_true_eq, List.mem_singleton]
      constructor
      · rintro ⟨hx, hxi⟩
        exact List.inj_on_of_nodup_map h.image_nodup hx hahead hxi
      · rintro rfl
        exact ⟨hahead, rfl⟩
    rw [runsAhead, hfilter]
    rfl
  · push Not at hex
    refine Or.inl ?_
    rw [runsAhead, List.filter_eq_nil_iff.2 fun x hx => by simpa using hex x hx]
    rfl

/-! ## One action -/

/-- What a frame changes of what is under way. -/
theorem noteFrame_spec (sources : List RunSource) (s : ReadingAhead) (began : ℕ) (late : Bool)
    (shown : List AnimatedPlane) :
    ∃ caughtUp countedCatch, noteFrame sources s began late shown =
        { s with stopped := s.stopped || (late && s.overlapped began), caughtUp, countedCatch } ∧
      ((caughtUp = s.caughtUp ∧ countedCatch = s.countedCatch) ∨
        s.prefetching ≠ [] ∧ s.countedCatch = false ∧ caughtUp = (s.caughtUp + 1) % 2 ^ 32 ∧
          countedCatch = true) := by
  have hstop : (if (late && s.overlapped began) = true then { s with stopped := true } else s) =
      { s with stopped := s.stopped || (late && s.overlapped began) } := by
    cases h : late && s.overlapped began <;> simp
  unfold noteFrame
  simp only [hstop]
  split_ifs with hcatch
  · refine ⟨_, _, rfl, Or.inr ?_⟩
    simp only [Bool.and_eq_true, Bool.not_eq_true'] at hcatch
    refine ⟨?_, hcatch.1.2, rfl, rfl⟩
    have hover := hcatch.1.1
    simp only [overlapped, Bool.and_eq_true, Bool.not_eq_true', List.isEmpty_eq_false_iff] at hover
    exact hover.1.1
  · exact ⟨_, _, rfl, Or.inl ⟨rfl, rfl⟩⟩

/-- What serving a frame does: no batch is begun, or one is that looking ahead found. -/
theorem serve_cases (sources : List RunSource) (s : ReadingAhead) (at_ began : ℕ) (late : Bool)
    (shown : List AnimatedPlane) (upcoming : List (List AnimatedPlane)) :
    (serve sources s at_ began late shown upcoming = ([], noteFrame sources s began late shown)) ∨
    ∃ requested work, serve sources s at_ began late shown upcoming =
        (work, (noteFrame sources s began late shown).begin_ at_ requested work) ∧
      work ≠ [] ∧ Found sources s.requested shown (requested, work) ∧ s.underWay = false ∧
      s.cancelled = false ∧ (s.stopped || (late && s.overlapped began)) = false := by
  obtain ⟨caughtUp, countedCatch, hnote, -⟩ := noteFrame_spec sources s began late shown
  unfold serve
  simp only
  split_ifs with hquiet hempty
  · exact Or.inl rfl
  · have hfound : Found sources s.requested shown
        (shown.foldl (lookAhead sources (upcoming.take kUpcomingFrames)) (s.requested, [])) :=
      foldl_lookAhead_found s.requested shown
    refine Or.inl ?_
    rw [hnote] at hempty ⊢
    have hwork := List.isEmpty_iff.1 hempty
    have hreq := hfound.requested_eq
    rw [hwork] at hreq
    simp only [List.map_nil, List.reverse_nil, List.nil_append] at hreq
    simp only [hreq]
  · refine Or.inr ⟨_, _, rfl, ?_, ?_, ?_⟩
    · rwa [List.isEmpty_iff] at hempty
    · rw [hnote]
      exact foldl_lookAhead_found s.requested shown
    · rw [hnote] at hquiet
      simp only [Bool.or_eq_true, not_or, Bool.not_eq_true] at hquiet
      exact ⟨hquiet.2, hquiet.1.2, by simpa using hquiet.1.1⟩

/-- What holds whatever happened. -/
structure AheadInv (sources : List RunSource) (events : List AheadEvent)
    (s : ReadingAhead) : Prop where
  worker_iff : s.underWay = true ↔ s.worker ≠ .none
  lastServed_le : s.lastServed ≤ s.now
  finished_le : s.finished ≤ s.now
  /-- All intervals but the last ended before the last frame was served. -/
  intervals_eq : (s.prefetching = [] ∧ s.underWay = false ∧ intervals events = []) ∨
    ∃ old, s.prefetching ≠ [] ∧ (∀ x ∈ old, ∃ f ≤ s.lastServed, x.2 = some f) ∧
      intervals events = old ++ [(s.started, if s.underWay then none else some s.finished)]
  requested_eq : s.requested = ((aheads events).map Ahead.entry).reverse
  prefetches_eq : s.prefetches = (aheads events).length % 2 ^ 32
  batches_le : (intervals events).length ≤ (aheads events).length
  caughtUp_le : ∃ c, s.caughtUp = c % 2 ^ 32 ∧
    c + (if s.prefetching ≠ [] ∧ s.countedCatch = false then 1 else 0) ≤ (intervals events).length
  chain : ∀ image, (runsAhead image (aheads events)).IsChain (· ≠ ·)
  fresh : ∀ at_ began late shown batch, .served at_ began late shown batch ∈ events →
    ∀ ahead ∈ batch, ∀ now ∈ shown, now.image = ahead.image →
      ∃ source, sources[ahead.image]? = some source ∧ source.runOf now.request ≠ ahead.run

theorem aheadInv_nil (sources : List RunSource) : AheadInv sources [] {} where
  worker_iff := by simp
  lastServed_le := le_rfl
  finished_le := le_rfl
  intervals_eq := Or.inl ⟨rfl, rfl, rfl⟩
  requested_eq := rfl
  prefetches_eq := rfl
  batches_le := le_rfl
  caughtUp_le := ⟨0, rfl, le_rfl⟩
  chain _ := by simp [aheads, runsAhead]
  fresh _ _ _ _ _ h := by cases h

section Steps

variable {events : List AheadEvent} {s s' : ReadingAhead} {e : AheadEvent}

/-- What neither serves a frame nor ends a batch. -/
theorem AheadInv.other (h : AheadInv sources events s) (cancelled stopped : Bool)
    {worker : Prefetcher}
    (hworker : s.underWay = true ↔ worker ≠ .none) :
    AheadInv sources (events ++ [.other]) { s with cancelled, stopped, worker } := by
  have haheads : aheads (events ++ [.other]) = aheads events := by
    rw [aheads_concat]
    exact List.append_nil _
  have hintervals : intervals (events ++ [.other]) = intervals events := intervals_concat ..
  exact
    { worker_iff := hworker
      lastServed_le := h.lastServed_le
      finished_le := h.finished_le
      intervals_eq := by rw [hintervals]; exact h.intervals_eq
      requested_eq := by rw [haheads]; exact h.requested_eq
      prefetches_eq := by rw [haheads]; exact h.prefetches_eq
      batches_le := by rw [haheads, hintervals]; exact h.batches_le
      caughtUp_le := by rw [hintervals]; exact h.caughtUp_le
      chain := by rw [haheads]; exact h.chain
      fresh := fun at_ began late shown batch hmem =>
        h.fresh at_ began late shown batch (by simpa using hmem) }

/-- A batch comes to its end. -/
theorem AheadInv.end_ (h : AheadInv sources events s) {at_ : ℕ} (hunder : s.underWay = true)
    (hnow : s.now ≤ at_) (failed : Bool) :
    AheadInv sources (events ++ [.ended at_ failed]) (s.end_ at_ failed) := by
  have haheads : aheads (events ++ [.ended at_ failed]) = aheads events := by
    rw [aheads_concat]
    exact List.append_nil _
  have hintervals : intervals (events ++ [.ended at_ failed]) =
      (intervals events).map fun x => (x.1, some (x.2.getD at_)) := intervals_concat ..
  have hlen : (intervals (events ++ [.ended at_ failed])).length = (intervals events).length := by
    rw [hintervals, List.length_map]
  refine
    { worker_iff := by simp [ReadingAhead.end_]
      lastServed_le := h.lastServed_le.trans hnow
      finished_le := le_rfl
      intervals_eq := ?_
      requested_eq := by rw [haheads]; exact h.requested_eq
      prefetches_eq := by rw [haheads]; exact h.prefetches_eq
      batches_le := by rw [haheads, hlen]; exact h.batches_le
      caughtUp_le := by rw [hlen]; exact h.caughtUp_le
      chain := by rw [haheads]; exact h.chain
      fresh := fun at_' began late shown batch hmem =>
        h.fresh at_' began late shown batch (by simpa using hmem) }
  rcases h.intervals_eq with ⟨-, hnot, -⟩ | ⟨old, hne, hold, heq⟩
  · rw [hunder] at hnot
    cases hnot
  · refine Or.inr ⟨old, hne, hold, ?_⟩
    rw [hintervals, heq, List.map_append, hunder]
    congr 1
    refine (List.map_congr_left fun x hx => ?_).trans (List.map_id _)
    obtain ⟨f, -, hf⟩ := hold x hx
    rw [hf]
    exact Prod.ext rfl hf.symm

/-- A frame is served and no batch begun. -/
theorem AheadInv.noteFrame (h : AheadInv sources events s) {at_ began : ℕ} (hnow : s.now ≤ at_)
    (late : Bool) (shown : List AnimatedPlane) :
    AheadInv sources (events ++ [.served at_ began late shown []])
      { ReadingAhead.noteFrame sources s began late shown with now := at_, lastServed := at_ } := by
  have haheads : aheads (events ++ [.served at_ began late shown []]) = aheads events := by
    rw [aheads_concat]
    exact List.append_nil _
  have hintervals : intervals (events ++ [.served at_ began late shown []]) = intervals events :=
    intervals_concat ..
  obtain ⟨caughtUp, countedCatch, hnote, hcaught⟩ := noteFrame_spec sources s began late shown
  rw [hnote]
  refine
    { worker_iff := h.worker_iff
      lastServed_le := le_rfl
      finished_le := h.finished_le.trans hnow
      intervals_eq := ?_
      requested_eq := by rw [haheads]; exact h.requested_eq
      prefetches_eq := by rw [haheads]; exact h.prefetches_eq
      batches_le := by rw [haheads, hintervals]; exact h.batches_le
      caughtUp_le := ?_
      chain := by rw [haheads]; exact h.chain
      fresh := fun at_' began' late' shown' batch hmem ahead hahead => ?_ }
  · rw [hintervals]
    refine h.intervals_eq.imp_right ?_
    rintro ⟨old, hne, hold, heq⟩
    refine ⟨old, hne, fun x hx => ?_, heq⟩
    obtain ⟨f, hf, hxf⟩ := hold x hx
    exact ⟨f, hf.trans (h.lastServed_le.trans hnow), hxf⟩
  · obtain ⟨c, hc, hle⟩ := h.caughtUp_le
    rw [hintervals]
    rcases hcaught with ⟨rfl, rfl⟩ | ⟨hne, hcounted, rfl, rfl⟩
    · exact ⟨c, hc, hle⟩
    · refine ⟨c + 1, by rw [hc, Nat.mod_add_mod], ?_⟩
      rw [if_pos ⟨hne, hcounted⟩] at hle
      simpa using hle
  · rcases List.mem_append.1 hmem with hmem | hmem
    · exact h.fresh at_' began' late' shown' batch hmem ahead hahead
    · rw [List.mem_singleton, AheadEvent.served.injEq] at hmem
      rw [hmem.2.2.2.2] at hahead
      cases hahead

/-- A frame is served and a batch begun. -/
theorem AheadInv.begin_ (h : AheadInv sources events s) {at_ began : ℕ} (hnow : s.now ≤ at_)
    (late : Bool) {shown : List AnimatedPlane} (hshown : (shown.map AnimatedPlane.image).Nodup)
    {requested : List (ℕ × Run)} {work : List Ahead} (hwork : work ≠ [])
    (hfound : Found sources s.requested shown (requested, work)) (hunder : s.underWay = false) :
    AheadInv sources (events ++ [.served at_ began late shown work])
      { (ReadingAhead.noteFrame sources s began late shown).begin_ at_ requested work with
        now := at_, lastServed := at_ } := by
  have haheads : aheads (events ++ [.served at_ began late shown work]) = aheads events ++ work :=
    aheads_concat ..
  have hintervals : intervals (events ++ [.served at_ began late shown work]) =
      intervals events ++ [(at_, none)] := by
    rw [intervals_concat, intervalsAfter, if_neg (by simpa using hwork)]
  have hpos : 0 < work.length := List.length_pos_iff.2 hwork
  obtain ⟨caughtUp, countedCatch, hnote, hcaught⟩ := noteFrame_spec sources s began late shown
  rw [hnote]
  refine
    { worker_iff := by simp [ReadingAhead.begin_]
      lastServed_le := le_rfl
      finished_le := h.finished_le.trans hnow
      intervals_eq := Or.inr ⟨intervals events, by simpa [ReadingAhead.begin_] using hwork, ?_, ?_⟩
      requested_eq := ?_
      prefetches_eq := ?_
      batches_le := ?_
      caughtUp_le := ?_
      chain := fun image => ?_
      fresh := fun at_' began' late' shown' batch hmem ahead hahead now hmem' himage => ?_ }
  · -- the batch before has ended
    intro x hx
    rcases h.intervals_eq with ⟨-, -, hnil⟩ | ⟨old, -, hold, heq⟩
    · rw [hnil] at hx
      cases hx
    · rw [heq, hunder] at hx
      rcases List.mem_append.1 hx with hx | hx
      · obtain ⟨f, hf, hxf⟩ := hold x hx
        exact ⟨f, hf.trans (h.lastServed_le.trans hnow), hxf⟩
      · obtain rfl : x = (s.started, some s.finished) := by simpa using hx
        exact ⟨s.finished, h.finished_le.trans hnow, rfl⟩
  · rw [hintervals]
    rfl
  · rw [haheads, List.map_append, List.reverse_append, ← h.requested_eq]
    exact hfound.requested_eq
  · rw [haheads, List.length_append]
    change (s.prefetches + work.length) % 2 ^ 32 = _
    rw [h.prefetches_eq, Nat.mod_add_mod]
  · have := h.batches_le
    rw [haheads, hintervals, List.length_append, List.length_append, List.length_singleton]
    omega
  · obtain ⟨c, hc, hle⟩ := h.caughtUp_le
    rw [hintervals, List.length_append, List.length_singleton]
    rcases hcaught with ⟨rfl, rfl⟩ | ⟨hne, hcounted, rfl, rfl⟩
    · refine ⟨c, hc, ?_⟩
      split_ifs at hle ⊢ <;> omega
    · refine ⟨c + 1, ?_, ?_⟩
      · change (s.caughtUp + 1) % 2 ^ 32 = _
        rw [hc, Nat.mod_add_mod]
      · rw [if_pos ⟨hne, hcounted⟩] at hle
        split_ifs <;> omega
  · -- what comes next for an image is not what came last
    rw [haheads, runsAhead_append]
    rcases hfound.runsAhead_eq image with hnil | ⟨run, hrun, hlast⟩
    · rw [hnil, List.append_nil]
      exact h.chain image
    · rw [hrun, List.isChain_append]
      refine ⟨h.chain image, by simp, fun x hx y hy => ?_⟩
      obtain rfl : y = run := by simpa using hy.symm
      rw [h.requested_eq, lookup_entries, Option.mem_def.1 hx] at hlast
      exact fun hxy => hlast (by rw [hxy])
  · rcases List.mem_append.1 hmem with hmem | hmem
    · exact h.fresh at_' began' late' shown' batch hmem ahead hahead now hmem' himage
    · rw [List.mem_singleton, AheadEvent.served.injEq] at hmem
      obtain ⟨-, -, -, rfl, rfl⟩ := hmem
      obtain ⟨-, p, hp, hpi, source, hsource, hrun, -⟩ := hfound.new ahead hahead
      obtain rfl : now = p :=
        List.inj_on_of_nodup_map hshown hmem' hp (himage.trans hpi.symm)
      exact ⟨source, hsource, hrun⟩

/-- **Every action keeps it.** -/
theorem AheadInv.step (h : AheadInv sources events s) {a : AheadAction}
    (hs : step sources s a = some (e, s')) : AheadInv sources (events ++ [e]) s' := by
  cases a with
  | served at_ began late shown upcoming =>
    rw [ReadingAhead.step] at hs
    split_ifs at hs with hguard
    obtain ⟨-, hnow, -, -, hshown⟩ := hguard
    rcases serve_cases sources s at_ began late shown upcoming with
      hserve | ⟨requested, work, hserve, hwork, hfound, hunder, -⟩
    · simp only [hserve, Option.some.injEq, Prod.mk.injEq] at hs
      obtain ⟨rfl, rfl⟩ := hs
      exact h.noteFrame hnow late shown
    · simp only [hserve, Option.some.injEq, Prod.mk.injEq] at hs
      obtain ⟨rfl, rfl⟩ := hs
      exact h.begin_ hnow late hshown hwork hfound hunder
  | spawn =>
    rw [ReadingAhead.step] at hs
    split_ifs at hs with hstart
    rw [Option.some.injEq, Prod.mk.injEq] at hs
    obtain ⟨rfl, rfl⟩ := hs
    exact h.other s.cancelled s.stopped (by simp [h.worker_iff, hstart])
  | spawnFails at_ =>
    rw [ReadingAhead.step] at hs
    split_ifs at hs with hstart
    rw [Option.some.injEq, Prod.mk.injEq] at hs
    obtain ⟨rfl, rfl⟩ := hs
    exact h.end_ (h.worker_iff.2 (by simp [hstart.1])) hstart.2 true
  | finish at_ failed =>
    rw [ReadingAhead.step] at hs
    split_ifs at hs with hstart
    rw [Option.some.injEq, Prod.mk.injEq] at hs
    obtain ⟨rfl, rfl⟩ := hs
    exact h.end_ (h.worker_iff.2 (by simp [hstart.1])) hstart.2 failed
  | cancelling =>
    rw [ReadingAhead.step, Option.some.injEq, Prod.mk.injEq] at hs
    obtain ⟨rfl, rfl⟩ := hs
    exact h.other true s.stopped h.worker_iff
  | cancel =>
    rw [ReadingAhead.step] at hs
    split_ifs at hs
    rw [Option.some.injEq, Prod.mk.injEq] at hs
    obtain ⟨rfl, rfl⟩ := hs
    exact h.other s.cancelled true h.worker_iff

theorem aheadInv (h : Reaches (ReadingAhead.step sources) {} events s) :
    AheadInv sources events s :=
  h.invariant (aheadInv_nil sources) fun _ _ _ _ _ hi hs => hi.step hs

/-- Once stopped, nothing more is begun. -/
theorem step_stopped {a : AheadAction} (hs : step sources s a = some (e, s'))
    (hstop : s.stopped = true) :
    s'.stopped = true ∧ s'.prefetches = s.prefetches := by
  cases a with
  | served at_ began late shown upcoming =>
    obtain ⟨caughtUp, countedCatch, hnote, -⟩ := noteFrame_spec sources s began late shown
    rw [ReadingAhead.step] at hs
    split_ifs at hs
    rcases serve_cases sources s at_ began late shown upcoming with
      hserve | ⟨requested, work, -, -, -, -, -, hgo⟩
    · simp only [hserve, hnote, Option.some.injEq, Prod.mk.injEq] at hs
      obtain ⟨-, rfl⟩ := hs
      exact ⟨by simp [hstop], rfl⟩
    · rw [hstop] at hgo
      cases hgo
  | spawn =>
    rw [ReadingAhead.step] at hs
    split_ifs at hs
    cases hs
    exact ⟨hstop, rfl⟩
  | spawnFails at_ =>
    rw [ReadingAhead.step] at hs
    split_ifs at hs
    cases hs
    exact ⟨by simp [ReadingAhead.end_], rfl⟩
  | finish at_ failed =>
    rw [ReadingAhead.step] at hs
    split_ifs at hs
    cases hs
    exact ⟨by simp [ReadingAhead.end_, hstop], rfl⟩
  | cancelling =>
    cases hs
    exact ⟨hstop, rfl⟩
  | cancel =>
    rw [ReadingAhead.step] at hs
    split_ifs at hs
    cases hs
    exact ⟨rfl, rfl⟩

theorem reaches_stopped {later : List AheadEvent}
    (h : Reaches (ReadingAhead.step sources) s later s')
    (hstop : s.stopped = true) : s'.stopped = true ∧ s'.prefetches = s.prefetches := by
  induction h with
  | init => exact ⟨hstop, rfl⟩
  | step _ hs ih =>
    obtain ⟨hstop', hsame⟩ := step_stopped hs ih.1
    exact ⟨hstop', hsame.trans ih.2⟩

/-- A late frame that began in the interval of a batch stops it all. -/
theorem AheadInv.late_stops (h : AheadInv sources events s) {a : AheadAction} {at_ began : ℕ}
    {shown : List AnimatedPlane} {batch : List Ahead}
    (hs : ReadingAhead.step sources s a = some (.served at_ began true shown batch, s'))
    {x : ℕ × Option ℕ}
    (hx : x ∈ intervals events) (hstart : x.1 ≤ began) (hend : ∀ f, x.2 = some f → began < f) :
    s'.stopped = true := by
  cases a with
  | served at_' began' late' shown' upcoming =>
    rw [ReadingAhead.step] at hs
    split_ifs at hs with hguard
    obtain ⟨-, -, hlast, -⟩ := hguard
    simp only [Option.some.injEq, Prod.mk.injEq, AheadEvent.served.injEq] at hs
    obtain ⟨⟨rfl, rfl, rfl, rfl, -⟩, rfl⟩ := hs
    -- it is the last batch, for those before ended before the last frame was served
    have hover : s.overlapped began' = true := by
      rcases h.intervals_eq with ⟨-, -, hnil⟩ | ⟨old, hne, hold, heq⟩
      · rw [hnil] at hx
        cases hx
      · rw [heq] at hx
        rcases List.mem_append.1 hx with hx | hx
        · obtain ⟨f, hf, hxf⟩ := hold x hx
          have := hend f hxf
          omega
        · obtain rfl : x = (s.started, if s.underWay then none else some s.finished) := by
            simpa using hx
          have hne' : s.prefetching.isEmpty = false := by simpa using hne
          simp only [overlapped, hne', Bool.not_false, Bool.true_and, Bool.and_eq_true,
            decide_eq_true_eq, Bool.or_eq_true]
          refine ⟨hstart, ?_⟩
          cases hunder : s.underWay with
          | true => exact Or.inl rfl
          | false => exact Or.inr (hend s.finished (by simp [hunder]))
    obtain ⟨caughtUp, countedCatch, hnote, -⟩ := noteFrame_spec sources s began' true shown'
    rcases serve_cases sources s at_' began' true shown' upcoming with
      hserve | ⟨requested, work, -, -, -, -, -, hgo⟩
    · simp [hserve, hnote, hover]
    · simp [hover] at hgo
  | spawn => rw [ReadingAhead.step] at hs; split_ifs at hs; cases hs
  | spawnFails at_' => rw [ReadingAhead.step] at hs; split_ifs at hs; cases hs
  | finish at_' failed => rw [ReadingAhead.step] at hs; split_ifs at hs; cases hs
  | cancelling => cases hs
  | cancel => rw [ReadingAhead.step] at hs; split_ifs at hs; cases hs

/-- A batch that fails stops it all. -/
theorem failure_stops {a : AheadAction} {at_ : ℕ}
    (hs : step sources s a = some (.ended at_ true, s')) : s'.stopped = true := by
  cases a with
  | served at_' began late shown upcoming =>
    rw [ReadingAhead.step] at hs
    split_ifs at hs
    cases hs
  | spawnFails at_' =>
    rw [ReadingAhead.step] at hs
    split_ifs at hs
    cases hs
    simp [ReadingAhead.end_]
  | finish at_' failed =>
    rw [ReadingAhead.step] at hs
    split_ifs at hs
    cases hs
    simp [ReadingAhead.end_]
  | spawn => rw [ReadingAhead.step] at hs; split_ifs at hs; cases hs
  | cancelling => cases hs
  | cancel => rw [ReadingAhead.step] at hs; split_ifs at hs; cases hs

end Steps

end ReadingAhead

/-- What holds of reading ahead after these events. -/
structure AheadProtocol (sources : List RunSource) (events : List AheadEvent) (s : ReadingAhead) :
    Prop where
  /-- At most one batch is under way. -/
  one : ((intervals events).filter fun x => x.2.isNone).length ≤ 1
  /-- Stopped for good. -/
  stopped : s.stopped = true → ∀ later s', Reaches (ReadingAhead.step sources) s later s' →
    s'.stopped = true ∧ s'.prefetches = s.prefetches
  /-- A frame late while a batch begun before was under way stops it. -/
  late : ∀ before at_ began shown batch, events = before ++ [.served at_ began true shown batch] →
    ∀ x ∈ intervals before, x.1 ≤ began → (∀ f, x.2 = some f → began < f) → s.stopped = true
  /-- So does a batch that fails. -/
  failure : ∀ before at_, events = before ++ [.ended at_ true] → s.stopped = true
  /-- No batch is for the run an image shows. -/
  fresh : ∀ at_ began late shown batch, .served at_ began late shown batch ∈ events →
    ∀ ahead ∈ batch, ∀ now ∈ shown, now.image = ahead.image →
      ∃ source, sources[ahead.image]? = some source ∧ source.runOf now.request ≠ ahead.run
  /-- One run after another of an image is another run. -/
  chain : ∀ image, (runsAhead image (aheads events)).IsChain (· ≠ ·)
  caughtUp : s.caughtUp ≤ (intervals events).length
  /-- The count of runs wraps at `2 ^ 32`. -/
  prefetches : (intervals events).length ≤ (aheads events).length ∧
    s.prefetches = (aheads events).length % 2 ^ 32

/-- **Reading ahead, in every run.** -/
theorem readingAhead_protocol {sources : List RunSource}
    {events : List AheadEvent} {s : ReadingAhead}
    (h : Reaches (ReadingAhead.step sources) {} events s) : AheadProtocol sources events s := by
  have hinv := ReadingAhead.aheadInv h
  refine
    { one := ?_
      stopped := fun hstop later s' hs => ReadingAhead.reaches_stopped hs hstop
      late := fun before at_ began shown batch hevents x hx hstart hend => ?_
      failure := fun before at_ hevents => ?_
      fresh := hinv.fresh
      chain := hinv.chain
      caughtUp := ?_
      prefetches := ⟨hinv.batches_le, hinv.prefetches_eq⟩ }
  · rcases hinv.intervals_eq with ⟨-, -, hnil⟩ | ⟨old, -, hold, heq⟩
    · simp [hnil]
    · have hold' : (old.filter fun x => x.2.isNone) = [] := by
        refine List.filter_eq_nil_iff.2 fun x hx => ?_
        obtain ⟨f, -, hf⟩ := hold x hx
        simp [hf]
      rw [heq, List.filter_append, hold']
      exact List.length_filter_le _ _
  · subst hevents
    obtain ⟨s₁, a, h₁, hs⟩ := h.last
    exact (ReadingAhead.aheadInv h₁).late_stops hs hx hstart hend
  · subst hevents
    obtain ⟨s₁, a, -, hs⟩ := h.last
    exact ReadingAhead.failure_stops hs
  · obtain ⟨c, hc, hle⟩ := hinv.caughtUp_le
    have := Nat.mod_le c (2 ^ 32)
    omega

/-! ## Counting runs -/

/-- An image whose runs are those of its chunks, four channels deep. -/
def fourDeep : RunSource := ⟨runOf ⟨.spatialX, [2, 2, 4]⟩⟩

/-- Every image shows its first channel, and is to show its fifth. -/
def frameOf (images channel : ℕ) : List AnimatedPlane :=
  (List.range images).map fun image => ⟨image, planeRequest channel⟩

/-- The run of the fifth channel of an image. -/
def fifthChannel (image : ℕ) : Ahead := ⟨image, fourDeep.runOf (planeRequest 4), planeRequest 4⟩

theorem readingAhead_protocol_fourDeep :
    ∃ s, AheadProtocol [fourDeep] [.served 3 1 false (frameOf 1 0) [fifthChannel 0], .other,
      .ended 9 false] s := by
  have htakes : (takes (ReadingAhead.step [fourDeep]) {}
      [.served 3 1 false (frameOf 1 0) [frameOf 1 4], .spawn, .finish 9 false]).map Prod.fst =
      some [.served 3 1 false (frameOf 1 0) [fifthChannel 0], .other, .ended 9 false] := by decide
  obtain ⟨x, hx, hxe⟩ := Option.map_eq_some_iff.1 htakes
  exact ⟨x.2, hxe ▸ readingAhead_protocol (Reaches.of_takes hx)⟩

/-- The first `k` of the images shown are each decoded ahead. -/
theorem foldl_lookAhead_frameOf {images : ℕ} {k : ℕ} (hk : k ≤ images) :
    (frameOf k 0).foldl (ReadingAhead.lookAhead (List.replicate images fourDeep) [frameOf images 4])
      ([], []) =
    ((((List.range k).map fifthChannel).map Ahead.entry).reverse,
    (List.range k).map fifthChannel) := by
  induction k with
  | zero => rfl
  | succ k ih =>
    have hframe : frameOf (k + 1) 0 = frameOf k 0 ++ [⟨k, planeRequest 0⟩] := by
      simp [frameOf, List.range_succ]
    have hsource : (List.replicate images fourDeep)[k]? = some fourDeep := by
      rw [List.getElem?_replicate, if_pos (by omega)]
    have hany : ¬ ((List.range k).map fifthChannel).any (fun ahead => ahead.image = k) = true := by
      intro hany
      obtain ⟨ahead, hahead, himage⟩ := List.any_eq_true.1 hany
      obtain ⟨i, hi, rfl⟩ := List.mem_map.1 hahead
      have hik : i = k := of_decide_eq_true himage
      have := List.mem_range.1 hi
      omega
    have hfind : (frameOf images 4).find? (fun candidate => candidate.image = k) =
        some ⟨k, planeRequest 4⟩ := by
      rw [frameOf, List.find?_map, Option.map_eq_some_iff]
      refine ⟨k, ?_, rfl⟩
      rw [List.find?_range_eq_some]
      exact ⟨by simp, List.mem_range.2 hk, fun j hj => by simp; omega⟩
    have hnext : ReadingAhead.nextRun fourDeep k (fourDeep.runOf (planeRequest 0))
      [frameOf images 4] =
        some (fifthChannel k) := by
      rw [ReadingAhead.nextRun, List.findSome?_cons, hfind]
      rfl
    have hlookup : ((((List.range k).map fifthChannel).map Ahead.entry).reverse).lookup k =
        none := by
      rw [lookup_entries, runsAhead, List.filter_eq_nil_iff.2 fun x hx => ?_]
      · rfl
      · obtain ⟨i, hi, rfl⟩ := List.mem_map.1 hx
        have hik : i < k := List.mem_range.1 hi
        exact fun himage => hik.ne (of_decide_eq_true himage)
    rw [hframe, List.foldl_append, ih (by omega), List.foldl_cons, List.foldl_nil,
      ReadingAhead.lookAhead]
    simp only [hsource, if_neg hany, hnext, hlookup]
    rw [if_neg (by simp), List.range_succ]
    simp

/-- Serving a frame begins a batch for all its images. -/
theorem serve_frameOf {images : ℕ} (h : 0 < images) :
    ∃ s, ReadingAhead.step (List.replicate images fourDeep) {}
        (.served 0 0 false (frameOf images 0) [frameOf images 4]) =
      some (.served 0 0 false (frameOf images 0) ((List.range images).map fifthChannel), s) := by
  have hnodup : ((frameOf images 0).map AnimatedPlane.image).Nodup := by
    rw [frameOf, List.map_map]
    exact (List.map_id _).symm ▸ List.nodup_range
  have hwork : ((List.range images).map fifthChannel).isEmpty = false := by
    simpa using h.ne'
  have hserve : ReadingAhead.serve (List.replicate images fourDeep) {} 0 0 false (frameOf images 0)
      [frameOf images 4] = ((List.range images).map fifthChannel, ReadingAhead.begin_ {} 0
        (((List.range images).map fifthChannel).map Ahead.entry).reverse
        ((List.range images).map fifthChannel)) := by
    have htake : [frameOf images 4].take kUpcomingFrames = [frameOf images 4] := rfl
    rw [ReadingAhead.serve, show ReadingAhead.noteFrame (List.replicate images fourDeep) {} 0 false
      (frameOf images 0) = {} from rfl]
    simp only [htake, foldl_lookAhead_frameOf le_rfl, hwork, Bool.or_self,
      Bool.false_eq_true, if_false]
  rw [ReadingAhead.step, if_pos ⟨by simp, le_rfl, le_rfl, le_rfl, hnodup⟩, hserve]
  exact ⟨_, rfl⟩

/-- Serving one frame of `2 ^ 32` images begins a batch that is not counted; and a late frame that
began at the very moment a batch is begun stops nothing. -/
theorem readingAhead_wraps :
    (∃ events s, Reaches (ReadingAhead.step (List.replicate (2 ^ 32) fourDeep)) {} events s ∧
      s.prefetches < (intervals events).length) ∧
    ∃ events s, Reaches (ReadingAhead.step [fourDeep]) {} events s ∧
      events = [.served 5 5 true (frameOf 1 0) [fifthChannel 0]] ∧ (5, none) ∈ intervals events ∧
      s.stopped = false := by
  constructor
  · obtain ⟨s, hs⟩ := serve_frameOf (Nat.two_pow_pos 32)
    have hreach := Reaches.init.step hs
    refine ⟨_, s, hreach, ?_⟩
    have haheads : (aheads ([] ++ [.served 0 0 false (frameOf (2 ^ 32) 0)
        ((List.range (2 ^ 32)).map fifthChannel)])).length = 2 ^ 32 := by
      rw [aheads_concat, List.length_append, AheadEvent.batch, List.length_map, List.length_range]
      rfl
    have hintervals : intervals ([] ++ [.served 0 0 false (frameOf (2 ^ 32) 0)
        ((List.range (2 ^ 32)).map fifthChannel)]) = [(0, none)] := by
      rw [intervals_concat, intervalsAfter, if_neg (by simp)]
      rfl
    rw [(ReadingAhead.aheadInv hreach).prefetches_eq, haheads, hintervals, Nat.mod_self]
    exact Nat.one_pos
  · have htakes : (takes (ReadingAhead.step [fourDeep]) {}
        [.served 5 5 true (frameOf 1 0) [frameOf 1 4]]).map
        (fun x => (x.1, x.2.stopped)) =
        some ([.served 5 5 true (frameOf 1 0) [fifthChannel 0]], false) := by decide
    obtain ⟨x, hx, hxe⟩ := Option.map_eq_some_iff.1 htakes
    rw [Prod.mk.injEq] at hxe
    exact ⟨x.1, x.2, Reaches.of_takes hx, hxe.1, by rw [hxe.1]; decide, hxe.2⟩

end CartaZarr
