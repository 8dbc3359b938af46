import CartaZarr.Reduce.PassCover

/-!
# Reductions that hand over blocks

A reduction keeps a state of its own, which a pass prepares for a block, shows the slabs of the
block and hands over as it fills; what it hands over goes to a sink. `Underway` is a reduction
between two steps of its pass, with what its sink was given so far.

What a reduction comes to is said of the reads of a block. `Reduction.Reports` is to be shown of
each callback, of any reads; when a pass in blocks then succeeds, what was handed over is, one for
one, what its steps hand over, each of the reads of its block that were made before
(`Reduction.inBlocks_handed`).
-/

namespace CartaZarr

open Word

/-- A reduction under way: what it keeps, what its sink was given, and the world. -/
structure Underway (σ β ω : Type) where
  state : σ
  handed : List β
  world : ω

section Lift

variable {σ β ω α : Type}

/-- A call that changes the world alone. -/
def Underway.lift {γ : Type} (call : ω → γ × ω) (w : Underway σ β ω) : γ × Underway σ β ω :=
  ((call w.world).1, { w with world := (call w.world).2 })

/-- A source that is read beside a reduction. -/
def PixelSource.beside (σ β : Type)
    (source : PixelSource ω α) : PixelSource (Underway σ β ω) α where
  pixelAt := source.pixelAt
  flagAt := source.flagAt
  pixelFault s := Underway.lift (source.pixelFault s)
  maskFault s := Underway.lift (source.maskFault s)

def ReadControl.beside (σ β : Type) (control : ReadControl ω) : ReadControl (Underway σ β ω) where
  cancellationRequested := control.cancellationRequested.map Underway.lift
  deadlinePassed := Underway.lift control.deadlinePassed

def SlabWalk.beside (σ β : Type) (walk : SlabWalk ω α) : SlabWalk (Underway σ β ω) α :=
  ⟨walk.source.beside σ β, walk.plan, walk.control.beside σ β⟩

end Lift

/-- What a reduction does in a pass. `visit` may look at the world, which decides in what order
tasks run. -/
structure Reduction (φ σ β ω α : Type) where
  reset : ℕ → σ → σ
  visit : Option φ → Slab α → σ → ω → σ × ω
  handOver : ℕ → ℕ → Bool → ℚ → σ → β × σ
  sink : β → ω → Bool × ω

namespace Reduction

variable {φ σ β ω α : Type}

/-- What a pass calls for a reduction. -/
def callbacks (r : Reduction φ σ β ω α) : Callbacks φ (Underway σ β ω) α where
  reset length w := { w with state := r.reset length w.state }
  visit footprint slab w :=
    let (state, world) := r.visit footprint slab w.state w.world
    { w with state, world }
  handOver first length complete completeness w :=
    let (block, state) := r.handOver first length complete completeness w.state
    let (goOn, world) := r.sink block w.world
    (goOn, ⟨state, w.handed ++ [block], world⟩)
  progress _ w := (true, w)

/-- A pass in blocks for a reduction: how it ends, what was handed over, and the world then. -/
def inBlocks [Pixel α] [HasSlab φ] (r : Reduction φ σ β ω α)
    (pass : Pass φ (Underway σ β ω) α) (fuel : ℕ)
    (bytesPerChannel hint : ℕ) (state : σ) (world : ω) : Except (Halt Error) Unit × List β × ω :=
  let (ended, w) := pass.inBlocks fuel r.callbacks bytesPerChannel hint ⟨state, [], world⟩
  (ended, w.handed, w.world)

end Reduction

/-! ## What the steps hand over -/

/-- What is handed over in a step, and the reads of its block that were made before. -/
structure HandOver (φ : Type) where
  firstChannel : ℕ
  length : ℕ
  complete : Bool
  completeness : ℚ
  reads : List (SlabRead φ)

/-- What steps hand over after some reads of a block. -/
def handOversAfter {φ : Type} : List (SlabRead φ) → List (PassStep φ) → List (HandOver φ)
  | _, [] => []
  | _, .reset _ :: steps => handOversAfter [] steps
  | reads, .read r :: steps => handOversAfter (reads ++ [r]) steps
  | reads, .handOver first length complete completeness :: steps =>
    ⟨first, length, complete, completeness, reads⟩ :: handOversAfter reads steps
  | reads, .ask :: steps => handOversAfter reads steps
  | reads, .progress _ :: steps => handOversAfter reads steps

/-- What a pass in blocks hands over. -/
def Pass.handOvers {φ ω α : Type} [HasSlab φ] (pass : Pass φ ω α) (bytesPerChannel hint : ℕ) :
    List (HandOver φ) :=
  handOversAfter [] (pass.blockSteps bytesPerChannel hint)

section Steps

variable {φ : Type}

/-- The reads among steps. -/
abbrev readsOf (steps : List (PassStep φ)) : List (SlabRead φ) := steps.filterMap PassStep.read?

/-- Steps in which no block begins. -/
def NoReset (steps : List (PassStep φ)) : Prop := ∀ length, .reset length ∉ steps

theorem handOversAfter_append {steps : List (PassStep φ)} (h : NoReset steps)
    (reads : List (SlabRead φ))
    (rest : List (PassStep φ)) : handOversAfter reads (steps ++ rest) =
      handOversAfter reads steps ++ handOversAfter (reads ++ readsOf steps) rest := by
  induction steps generalizing reads with
  | nil => rw [readsOf, List.filterMap_nil, List.append_nil, List.nil_append]; rfl
  | cons step steps ih =>
    have hrest : NoReset steps := fun length hmem => h length (List.mem_cons_of_mem _ hmem)
    cases step with
    | reset length => exact absurd List.mem_cons_self (h length)
    | read r =>
      have hreads : readsOf (.read r :: steps) = r :: readsOf steps := rfl
      rw [List.cons_append, handOversAfter, handOversAfter, ih hrest, hreads, List.append_assoc,
        List.singleton_append]
    | handOver first length complete completeness =>
      rw [List.cons_append, handOversAfter, handOversAfter, ih hrest, List.cons_append]
      rfl
    | ask => exact ih hrest reads
    | progress q => exact ih hrest reads

end Steps

namespace Pass

variable {φ ω α : Type} [HasSlab φ] (pass : Pass φ ω α)

/-- The steps of a walk ask, tell and read. -/
theorem mem_walkSteps {tell : ℕ → PassStep φ} {b e : ℕ} {step : PassStep φ}
    (h : step ∈ pass.walkSteps tell b e) : step = .ask ∨ (∃ done, step = tell done) ∨
    ∃ read, step = .read read := by
  have hsteps : ∀ (reads : List (SlabRead φ)) (counters : Counters),
      step ∈ Attempt.steps (Counters.stepsOf tell) (Counters.after pass.plan) counters reads →
      step = .ask ∨ (∃ done, step = tell done) ∨ ∃ read, step = .read read := by
    intro reads
    induction reads with
    | nil => exact fun _ h => absurd h List.not_mem_nil
    | cons read reads ih =>
      intro counters h
      rw [Attempt.steps, List.mem_append, Counters.stepsOf, List.mem_append] at h
      rcases h with (h | h) | h
      · split_ifs at h
        · exact .inr (.inl ⟨_, List.mem_singleton.1 h⟩)
        · cases h
      · rcases List.mem_cons.1 h with rfl | h
        · exact .inl rfl
        · exact .inr (.inr ⟨read, List.mem_singleton.1 h⟩)
      · exact ih _ h
  rcases List.mem_cons.1 h with rfl | h
  · exact .inl rfl
  · exact hsteps _ _ h

theorem noReset_walkSteps (b e : ℕ) : NoReset (pass.walkSteps (pass.tellBlock b e) b e) := by
  intro length h
  rcases pass.mem_walkSteps h with h | ⟨_, h⟩ | ⟨_, h⟩ <;> cases h

/-- **What a walk hands over** of its block is not complete, and some of its reads, but not all of
them, were made before. -/
theorem mem_handOvers_walkSteps {b e : ℕ} {x : HandOver φ}
    (h : x ∈ handOversAfter [] (pass.walkSteps (pass.tellBlock b e) b e)) :
    x.firstChannel = b ∧ x.length = sub e b ∧ x.complete = false ∧
      ∃ k, 0 < k ∧ k < (pass.reads b e).length ∧ x.reads = (pass.reads b e).take k := by
  have hsteps : ∀ (rest before : List (SlabRead φ)) (counters : Counters),
    pass.reads b e = before ++ rest →
      (before = [] → counters.readsDone = 0) →
      x ∈ handOversAfter before (Attempt.steps (Counters.stepsOf (pass.tellBlock b e))
        (Counters.after pass.plan) counters rest) →
      x.firstChannel = b ∧ x.length = sub e b ∧ x.complete = false ∧
        ∃ k, 0 < k ∧ k < (pass.reads b e).length ∧ x.reads = (pass.reads b e).take k := by
    intro rest
    induction rest with
    | nil => exact fun _ _ _ _ h => absurd h List.not_mem_nil
    | cons read rest ih =>
      intro before counters hreads hzero h
      have hnext : pass.reads b e = (before ++ [read]) ++ rest := by
        rw [hreads, List.append_assoc, List.singleton_append]
      have hne : before ++ [read] = [] → (Counters.after pass.plan counters read).readsDone = 0 :=
        fun h => absurd h (by simp)
      rw [Attempt.steps, Counters.stepsOf] at h
      split_ifs at h with hdone
      · rcases List.mem_cons.1 h with rfl | h
        · refine ⟨rfl, rfl, rfl, before.length, ?_, ?_, ?_⟩
          · refine List.length_pos_iff.2 fun hnil => ?_
            rw [hzero hnil] at hdone
            exact absurd hdone (lt_irrefl 0)
          · rw [hreads, List.length_append, List.length_cons]
            omega
          · rw [hreads, List.take_left]
        · exact ih _ _ hnext hne h
      · exact ih _ _ hnext hne h
  exact hsteps _ [] ⟨0, 0⟩ rfl (fun _ => rfl) h

/-- What is handed over of a block. -/
def handOversOf (b e : ℕ) : List (HandOver φ) := handOversAfter [] (pass.stepsOfBlock b e)

/-- A block is handed over complete once, last, when all its reads are made. -/
theorem handOversOf_eq (b e : ℕ) : pass.handOversOf b e =
    handOversAfter [] (pass.walkSteps (pass.tellBlock b e) b e) ++
      [⟨b, sub e b, true, 1, pass.reads b e⟩] := by
  have hreads : readsOf (pass.walkSteps (pass.tellBlock b e) b e) = pass.reads b e := by
    have h := pass.reads_stepsOfBlock b e
    rw [stepsOfBlock, List.cons_append, List.filterMap_cons, List.filterMap_append] at h
    exact (List.append_nil _).symm.trans h
  rw [handOversOf, stepsOfBlock, List.cons_append, handOversAfter,
    handOversAfter_append (pass.noReset_walkSteps b e), hreads]
  rfl

/-- A pass hands over what its blocks do, one after another. -/
theorem handOvers_eq (bytesPerChannel hint : ℕ) : pass.handOvers bytesPerChannel hint =
    (pass.blocks bytesPerChannel hint).flatMap fun block => pass.handOversOf block.1 block.2 := by
  -- a block starts afresh, whatever was read before it
  have hblocks : ∀ (blocks : List (ℕ × ℕ)) (reads : List (SlabRead φ)),
      handOversAfter reads (blocks.flatMap fun block => pass.stepsOfBlock block.1 block.2) =
        blocks.flatMap fun block => pass.handOversOf block.1 block.2 := by
    intro blocks
    induction blocks with
    | nil => exact fun _ => rfl
    | cons block blocks ih =>
      intro reads
      have hblock : NoReset (pass.walkSteps (pass.tellBlock block.1 block.2) block.1 block.2 ++
          [.handOver block.1 (sub block.2 block.1) true 1]) := by
        intro length h
        rcases List.mem_append.1 h with h | h
        · exact pass.noReset_walkSteps _ _ length h
        · cases List.mem_singleton.1 h
      rw [List.flatMap_cons, List.flatMap_cons, handOversOf, stepsOfBlock,
        List.cons_append, List.cons_append,
        handOversAfter, handOversAfter_append hblock, ih]
      rfl
  exact hblocks _ []

/-- What a pass hands over is of one of its blocks, and of the first of its reads. -/
theorem mem_handOvers {bytesPerChannel hint : ℕ} {x : HandOver φ}
    (h : x ∈ pass.handOvers bytesPerChannel hint) :
    ∃ block ∈ pass.blocks bytesPerChannel hint, x.firstChannel = block.1 ∧
    x.length = sub block.2 block.1 ∧
      (∃ k, x.reads = (pass.reads block.1 block.2).take k) ∧
      (x.complete = true → x.reads = pass.reads block.1 block.2) := by
  rw [handOvers_eq] at h
  obtain ⟨block, hblock, h⟩ := List.mem_flatMap.1 h
  rw [handOversOf_eq, List.mem_append, List.mem_singleton] at h
  rcases h with h | rfl
  · obtain ⟨hfirst, hlength, hcomplete, k, -, -, hreads⟩ := pass.mem_handOvers_walkSteps h
    exact ⟨block, hblock, hfirst, hlength, ⟨k, hreads⟩, fun h => by rw [hcomplete] at h; cases h⟩
  · exact ⟨block, hblock, rfl, rfl, ⟨_, List.take_length.symm⟩, fun _ => rfl⟩

/-- What a pass hands over complete are its blocks, each with all its reads. -/
theorem filter_complete_handOvers (bytesPerChannel hint : ℕ) :
    (pass.handOvers bytesPerChannel hint).filter HandOver.complete =
      (pass.blocks bytesPerChannel hint).map fun block =>
        ⟨block.1, sub block.2 block.1, true, 1, pass.reads block.1 block.2⟩ := by
  have hblock : ∀ b e, (pass.handOversOf b e).filter HandOver.complete =
      [⟨b, sub e b, true, 1, pass.reads b e⟩] := by
    intro b e
    have hwalk : (handOversAfter [] (pass.walkSteps (pass.tellBlock b e) b e)).filter
        HandOver.complete = [] := by
      refine List.filter_eq_nil_iff.2 fun x hx => ?_
      rw [(pass.mem_handOvers_walkSteps hx).2.2.1]
      exact Bool.false_ne_true
    rw [handOversOf_eq, List.filter_append, hwalk]
    rfl
  rw [handOvers_eq, List.filter_flatMap]
  simp only [hblock]
  exact List.map_eq_flatMap.symm

/-- What a sink was handed complete spans the blocks of the pass. -/
theorem complete_spans {β : Type} {shows : HandOver φ → β → Prop}
    {bytesPerChannel hint : ℕ} {handed : List β}
    (h : List.Forall₂ shows (pass.handOvers bytesPerChannel hint) handed)
    {complete : β → Bool} {span : β → ℕ × ℕ}
    (hcomplete : ∀ x given, shows x given → complete given = x.complete)
    (hspan : ∀ x given, shows x given → span given = (x.firstChannel, x.firstChannel + x.length))
    (hblocks : ∀ block ∈ pass.blocks bytesPerChannel hint,
      block.1 + sub block.2 block.1 = block.2) :
    (handed.filter complete).map span = pass.blocks bytesPerChannel hint := by
  have hmap : ∀ {xs : List (HandOver φ)} {handed : List β}, List.Forall₂ shows xs handed →
      (handed.filter complete).map span =
        (xs.filter HandOver.complete).map fun x => (x.firstChannel, x.firstChannel + x.length) := by
    intro xs handed hxs
    induction hxs with
    | nil => rfl
    | cons hshow _ ih =>
      rw [List.filter_cons, List.filter_cons, hcomplete _ _ hshow]
      split_ifs
      · rw [List.map_cons, List.map_cons, ih, hspan _ _ hshow]
      · exact ih
  rw [hmap h, filter_complete_handOvers, List.map_map]
  refine (List.map_congr_left fun block hblock => ?_).trans (List.map_id _)
  rw [Function.comp_apply, id_eq, hblocks block hblock]

end Pass

/-! ## What a reduction keeps -/

/-- The image serves a read. -/
def SlabWalk.Accepts {φ ω α : Type} (walk : SlabWalk ω α) (read : SlabRead φ) : Prop :=
  ∃ s, buildSelection walk.plan.descriptor (walk.plan.readRequest read.request) .stored = .ok s

namespace Reduction

variable {φ σ β ω α : Type} [Pixel α]

/-- Each callback of a reduction keeps what it holds of the reads of a block, of those that fit it,
and hands over what shows them. A block is said by its first channel and its length. -/
structure Reports (r : Reduction φ σ β ω α) (walk : SlabWalk ω α) (fits : ℕ → ℕ → SlabRead φ → Prop)
    (ready : σ → Prop) (holds : ℕ → ℕ → List (SlabRead φ) → σ → Prop)
    (shows : HandOver φ → β → Prop) : Prop where
  reset : ∀ first length s, ready s → holds first length [] (r.reset length s)
  ready : ∀ first length reads s, holds first length reads s → ready s
  visit : ∀ first length reads read s w, fits first length read → walk.Accepts read →
    holds first length reads s →
    holds first length (reads ++ [read]) (r.visit read.footprint (walk.visited read) s w).1
  handOver : ∀ first length complete completeness reads s, holds first length reads s →
    shows ⟨first, length, complete, completeness, reads⟩
        (r.handOver first length complete completeness s).1 ∧
      holds first length reads (r.handOver first length complete completeness s).2

variable {r : Reduction φ σ β ω α} {walk : SlabWalk ω α} {pass : Pass φ (Underway σ β ω) α}
  (hpass : pass.toSlabWalk = walk.beside σ β)
include hpass

omit [Pixel α] in
/-- A reduction whose sink lets it go on refuses nothing that its walk does not. -/
theorem willing_beside {base : Pass φ ω α} (hbase : base.toSlabWalk = walk)
    {callbacks : Callbacks φ ω α} (hw : base.Willing callbacks)
    (hsink : ∀ block world, (r.sink block world).1 = true) : pass.Willing r.callbacks := by
  have hsource : pass.source = base.source.beside σ β := by
    rw [hbase]
    exact congrArg SlabWalk.source hpass
  have hcontrol : pass.control = base.control.beside σ β := by
    rw [hbase]
    exact congrArg SlabWalk.control hpass
  refine ⟨fun requested hrequested w => ?_, fun w => ?_, fun s w => ?_, fun s w => ?_,
    fun first length complete completeness w => ?_, fun _ _ => rfl⟩
  · rw [hcontrol] at hrequested
    obtain ⟨asked, hasked, rfl⟩ := Option.mem_map.1 hrequested
    exact hw.cancellation asked hasked w.world
  · rw [hcontrol]
    exact hw.deadline w.world
  · rw [hsource]
    exact hw.pixels s w.world
  · rw [hsource]
    exact hw.mask s w.world
  · exact hsink _ _

omit [Pixel α] in
/-- The control changes the world alone. -/
theorem allowed_beside (w : Underway σ β ω) :
    (pass.allowed w).2.state = w.state ∧ (pass.allowed w).2.handed = w.handed := by
  have hkeep : (checkReadControl
    (walk.control.beside σ β) pass.plan.descriptor.id w).2.state = w.state ∧
      (checkReadControl (walk.control.beside σ β) pass.plan.descriptor.id w).2.handed =
          w.handed := by
    unfold checkReadControl ReadControl.beside Underway.lift
    cases walk.control.cancellationRequested with
    | none => dsimp only [Option.map_none]; split_ifs <;> exact ⟨rfl, rfl⟩
    | some requested => dsimp only [Option.map_some]; split_ifs <;> exact ⟨rfl, rfl⟩
  have hcontrol : pass.control = walk.control.beside σ β := congrArg SlabWalk.control hpass
  unfold SlabWalk.allowed Attempt.halting
  rw [hcontrol]
  rcases h : checkReadControl (walk.control.beside σ β) pass.plan.descriptor.id w
    with ⟨_ | _, w'⟩ <;>
    · rw [h] at hkeep
      exact hkeep

/-- So does a read. -/
theorem readSlab_beside (request : SlabRequest) (w : Underway σ β ω) :
    (pass.readSlab request w).2.state = w.state ∧
    (pass.readSlab request w).2.handed = w.handed := by
  have hbuffer : ∀ s, ((walk.beside σ β).readBuffer s w).2.state = w.state ∧
      ((walk.beside σ β).readBuffer s w).2.handed = w.handed := by
    intro s
    unfold SlabWalk.readBuffer PixelSource.readPixels PixelSource.readMask
    simp only [List.length_replicate, lt_irrefl, if_false]
    unfold SlabWalk.beside PixelSource.beside Underway.lift
    dsimp only
    rcases walk.source.pixelFault s w.world with ⟨_ | ⟨e, written⟩, world⟩
    · dsimp only
      split_ifs
      · rcases walk.source.maskFault s world with ⟨_ | e, world'⟩ <;> exact ⟨rfl, rfl⟩
      · exact ⟨rfl, rfl⟩
    · exact ⟨rfl, rfl⟩
  rw [hpass]
  unfold SlabWalk.readSlab
  cases hs : buildSelection (walk.beside σ β).plan.descriptor
    ((walk.beside σ β).plan.readRequest request)
      .stored with
  | error e => exact ⟨rfl, rfl⟩
  | ok s =>
    rw [Attempt.ofExcept_ok, pure_bind, Attempt.bind_apply, Attempt.halting]
    have hkeep := hbuffer s
    rcases h : (walk.beside σ β).readBuffer s w with ⟨_ | _, w'⟩ <;>
      · rw [h] at hkeep
        exact hkeep

/-- **A read** fails before anything is visited, or is one the image serves, and its slab is
visited. -/
theorem read_cases (read : SlabRead φ) (w : Underway σ β ω) :
    ∃ w₁ : Underway σ β ω, (w₁.state = w.state ∧ w₁.handed = w.handed) ∧
      ((∃ e, ∀ callbacks, pass.perform callbacks (.read read) w = (.error e, w₁)) ∨
        walk.Accepts read ∧ ∀ callbacks : Callbacks φ (Underway σ β ω) α,
          pass.perform callbacks (.read read) w =
          (.ok (), callbacks.visit read.footprint (walk.visited read) w₁)) := by
  have hkeep := readSlab_beside hpass read.request w
  rcases hs : pass.readSlab read.request w with ⟨e | slab, w₁⟩
  · rw [hs] at hkeep
    exact ⟨w₁, hkeep, .inl ⟨e, fun _ => Attempt.bind_of_error hs⟩⟩
  · rw [hs] at hkeep
    obtain ⟨s, hsel, rfl⟩ := readSlab_ok hs
    rw [hpass] at hsel
    have hvisited : walk.visited read =
        { walk.slabOf read.request s with firstChannel := sub read.slabBegin read.blockBegin } := by
      have hsel' : buildSelection walk.plan.descriptor
        (walk.plan.readRequest read.request) .stored = .ok s := hsel
      rw [SlabWalk.visited, hsel']
    refine ⟨w₁, hkeep, .inr ⟨⟨s, hsel⟩, fun callbacks => ?_⟩⟩
    have hread : pass.perform callbacks (.read read) w = _ := Attempt.bind_of_ok hs
    rw [hread, hpass, hvisited]
    rfl

/-- A read that returns is one the image serves, and its slab is visited. -/
theorem read_ok {read : SlabRead φ} {w w' : Underway σ β ω}
    (h : pass.perform r.callbacks (.read read) w = (.ok (), w')) :
    walk.Accepts read ∧ w'.handed = w.handed ∧
      ∃ world, w'.state = (r.visit read.footprint (walk.visited read) w.state world).1 := by
  obtain ⟨w₁, ⟨hstate, hhanded⟩, ⟨e, hfails⟩ | ⟨haccepts, hvisits⟩⟩ := read_cases hpass read w
  · rw [hfails] at h
    cases h
  · rw [hvisits] at h
    cases h
    exact ⟨haccepts, hhanded, w₁.world, by rw [← hstate]; rfl⟩

variable {fits : ℕ → ℕ → SlabRead φ → Prop} {ready : σ → Prop} {holds : ℕ → ℕ →
  List (SlabRead φ) → σ → Prop}
  {shows : HandOver φ → β → Prop} (hr : r.Reports walk fits ready holds shows)
include hr

/-- Steps of a block that succeed hand over what they show, and have read what the image serves. -/
theorem steps_handed {steps : List (PassStep φ)} (hreset : NoReset steps) {first length : ℕ}
    (hblock : ∀ b n complete completeness, .handOver b n complete completeness ∈ steps →
      b = first ∧ n = length)
    (hfits : ∀ read ∈ readsOf steps, fits first length read) {reads : List (SlabRead φ)}
    {w w' : Underway σ β ω}
    (hholds : holds first length reads w.state)
    (h : Attempt.forEach (pass.perform r.callbacks) steps w = (.ok (), w')) :
    (∃ blocks, w'.handed = w.handed ++ blocks ∧
      List.Forall₂ shows (handOversAfter reads steps) blocks) ∧
      holds first length (reads ++ readsOf steps) w'.state ∧
      ∀ read ∈ readsOf steps, walk.Accepts read := by
  induction steps generalizing reads w with
  | nil =>
    cases h
    exact ⟨⟨[], (List.append_nil _).symm, .nil⟩, by simpa [readsOf] using hholds, by simp [readsOf]⟩
  | cons step steps ih =>
    have hreset' : NoReset steps := fun n hmem => hreset n (List.mem_cons_of_mem _ hmem)
    have hblock' : ∀ b n complete completeness, .handOver b n complete completeness ∈ steps →
        b = first ∧ n = length := fun _ _ _ _ hmem => hblock _ _ _ _ (List.mem_cons_of_mem _ hmem)
    obtain ⟨w₁, hstep, hrest⟩ : ∃ w₁, pass.perform r.callbacks step w = (.ok (), w₁) ∧
        Attempt.forEach (pass.perform r.callbacks) steps w₁ = (.ok (), w') := by
      rcases hs : pass.perform r.callbacks step w with ⟨e | ⟨⟩, w₁⟩
      · rw [Attempt.forEach, Attempt.bind_of_error hs] at h
        cases h
      · exact ⟨w₁, rfl, by rwa [Attempt.forEach, Attempt.bind_of_ok hs] at h⟩
    cases step with
    | reset n => exact absurd List.mem_cons_self (hreset n)
    | ask =>
      have hkeep := allowed_beside hpass w
      have hrun : pass.allowed w = (.ok (), w₁) := hstep
      rw [hrun] at hkeep
      obtain ⟨hstate, hhanded⟩ := hkeep
      dsimp only at hstate hhanded
      have := ih hreset' hblock' hfits (w := w₁) (hstate ▸ hholds) hrest
      rwa [hhanded] at this
    | progress q =>
      cases hstep
      exact ih hreset' hblock' hfits hholds hrest
    | handOver b n complete completeness =>
      obtain ⟨rfl, rfl⟩ := hblock _ _ _ _ List.mem_cons_self
      obtain ⟨hshows, hkept⟩ := hr.handOver b n complete completeness reads w.state hholds
      have hw₁ : w₁ = (r.callbacks.handOver b n complete completeness w).2 := by
        simp only [Pass.perform, Pass.unlessCancelled] at hstep
        rcases hsay : r.callbacks.handOver b n complete completeness w with ⟨_ | _, w₂⟩
        · rw [hsay] at hstep
          cases hstep
        · rw [hsay] at hstep
          cases hstep
          rfl
      subst hw₁
      obtain ⟨⟨blocks, hblocks, hall⟩, hholds', haccepts⟩ := ih hreset' hblock' hfits hkept hrest
      refine ⟨⟨_ :: blocks, ?_, .cons hshows hall⟩, hholds', haccepts⟩
      rw [hblocks]
      exact List.append_assoc _ _ _
    | read read =>
      have hreads : readsOf (.read read :: steps) = read :: readsOf steps := rfl
      rw [hreads] at hfits ⊢
      obtain ⟨haccept, hhanded, world, hstate⟩ := read_ok hpass hstep
      have hholds₁ : holds first length (reads ++ [read]) w₁.state := by
        rw [hstate]
        exact hr.visit _ _ _ _ _ _ (hfits read List.mem_cons_self) haccept hholds
      obtain ⟨⟨blocks, hblocks, hall⟩, hholds', haccepts⟩ := ih hreset' hblock'
        (fun read' hmem => hfits read' (List.mem_cons_of_mem _ hmem)) hholds₁ hrest
      refine ⟨⟨blocks, by rw [hblocks, hhanded], hall⟩, ?_, ?_⟩
      · rwa [List.append_assoc, List.singleton_append] at hholds'
      · rintro read' hmem
        rcases List.mem_cons.1 hmem with rfl | hmem
        · exact haccept
        · exact haccepts read' hmem

variable [HasSlab φ]

/-- So does a block. -/
theorem block_handed {b e : ℕ} (hfits : ∀ read ∈ pass.reads b e, fits b (sub e b) read)
    {w w' : Underway σ β ω}
    (hready : ready w.state)
    (h : Attempt.forEach (pass.perform r.callbacks) (pass.stepsOfBlock b e) w = (.ok (), w')) :
    (∃ blocks, w'.handed = w.handed ++ blocks ∧ List.Forall₂ shows (pass.handOversOf b e) blocks) ∧
      ready w'.state ∧ ∀ read ∈ pass.reads b e, walk.Accepts read := by
  have hreads : readsOf (pass.walkSteps (pass.tellBlock b e) b e ++
    [.handOver b (sub e b) true 1]) =
      pass.reads b e := pass.reads_stepsOfBlock b e
  have hreset : NoReset (pass.walkSteps (pass.tellBlock b e) b e ++
      [.handOver b (sub e b) true 1]) := by
    intro length hmem
    rcases List.mem_append.1 hmem with hmem | hmem
    · exact pass.noReset_walkSteps _ _ length hmem
    · cases List.mem_singleton.1 hmem
  have hblock : ∀ first n complete completeness, .handOver first n complete completeness ∈
      pass.walkSteps (pass.tellBlock b e) b e ++ [.handOver b (sub e b) true 1] →
          first = b ∧ n = sub e b := by
    intro first n complete completeness hmem
    rcases List.mem_append.1 hmem with hmem | hmem
    · rcases pass.mem_walkSteps hmem with hmem | ⟨_, hmem⟩ | ⟨_, hmem⟩ <;> cases hmem
      exact ⟨rfl, rfl⟩
    · cases List.mem_singleton.1 hmem
      exact ⟨rfl, rfl⟩
  have hrun : Attempt.forEach (pass.perform r.callbacks)
      (pass.walkSteps (pass.tellBlock b e) b e ++ [.handOver b (sub e b) true 1])
      (r.callbacks.reset (sub e b) w) = (.ok (), w') := h
  obtain ⟨⟨blocks, hblocks, hall⟩, hholds, haccepts⟩ := steps_handed hpass hr hreset hblock
    (by rw [hreads]; exact hfits) (hr.reset b (sub e b) w.state hready) hrun
  rw [hreads] at haccepts
  exact ⟨⟨blocks, hblocks, hall⟩, hr.ready _ _ _ _ hholds, haccepts⟩

/-- **What a pass that succeeds has handed over** shows, one for one, what its steps hand over. -/
theorem inBlocks_handed (h : pass.plan.InRange) {fuel : ℕ}
    (hfuel : pass.plan.planes.spectral.count ≤ fuel)
    {bytesPerChannel hint : ℕ} (hfits : ∀ block ∈ pass.blocks bytesPerChannel hint,
      ∀ read ∈ pass.reads block.1 block.2, fits block.1 (sub block.2 block.1) read)
    {state : σ} (hready : ready state) {world world' : ω} {handed : List β}
    (hrun : r.inBlocks pass fuel bytesPerChannel hint state world = (.ok (), handed, world')) :
    List.Forall₂ shows (pass.handOvers bytesPerChannel hint) handed ∧
      ∀ read ∈ pass.blockReads bytesPerChannel hint, walk.Accepts read := by
  have hblocks : ∀ (blocks : List (ℕ × ℕ)) (w w' : Underway σ β ω),
      (∀ block ∈ blocks, ∀ read ∈ pass.reads block.1 block.2,
        fits block.1 (sub block.2 block.1) read) →
      ready w.state →
      Attempt.forEach (pass.perform r.callbacks)
        (blocks.flatMap fun block => pass.stepsOfBlock block.1 block.2) w = (.ok (), w') →
      (∃ given, w'.handed = w.handed ++ given ∧
        List.Forall₂ shows (blocks.flatMap fun block => pass.handOversOf block.1 block.2) given) ∧
      ∀ block ∈ blocks, ∀ read ∈ pass.reads block.1 block.2, walk.Accepts read := by
    intro blocks
    induction blocks with
    | nil =>
      intro w w' _ _ hrun
      cases hrun
      exact ⟨⟨[], (List.append_nil _).symm, .nil⟩, by simp⟩
    | cons block blocks ih =>
      intro w w' hfits hready hrun
      rw [List.flatMap_cons, Attempt.forEach_append] at hrun
      rcases hs : Attempt.forEach (pass.perform r.callbacks)
          (pass.stepsOfBlock block.1 block.2) w with
        ⟨e | ⟨⟩, w₁⟩
      · rw [Attempt.bind_of_error hs] at hrun
        cases hrun
      · rw [Attempt.bind_of_ok hs] at hrun
        obtain ⟨⟨given, hgiven, hall⟩, hready₁, haccepts⟩ :=
          block_handed hpass hr (hfits block List.mem_cons_self) hready hs
        obtain ⟨⟨given', hgiven', hall'⟩, haccepts'⟩ :=
          ih w₁ w' (fun x hx => hfits x (List.mem_cons_of_mem _ hx)) hready₁ hrun
        refine ⟨⟨given ++ given', by rw [hgiven', hgiven, List.append_assoc], ?_⟩, ?_⟩
        · rw [List.flatMap_cons]
          exact List.rel_append hall hall'
        · intro x hx
          rcases List.mem_cons.1 hx with rfl | hx
          · exact haccepts
          · exact haccepts' x hx
  have hpassRun : pass.inBlocks fuel r.callbacks bytesPerChannel hint ⟨state, [], world⟩ =
      (.ok (), ⟨(pass.inBlocks fuel r.callbacks bytesPerChannel hint ⟨state, [],
        world⟩).2.state, handed,
        world'⟩) := by
    unfold inBlocks at hrun
    rcases hp : pass.inBlocks fuel r.callbacks bytesPerChannel hint
      ⟨state, [], world⟩ with ⟨ended, w⟩
    rw [hp] at hrun
    cases hrun
    rfl
  rw [Pass.inBlocks_eq h r.callbacks bytesPerChannel hint hfuel] at hpassRun
  obtain ⟨⟨given, hgiven, hall⟩, haccepts⟩ := hblocks _ _ _ hfits hready hpassRun
  rw [List.nil_append] at hgiven
  dsimp only at hgiven
  rw [pass.handOvers_eq, hgiven]
  refine ⟨hall, fun read hread => ?_⟩
  obtain ⟨block, hblock, hread⟩ := List.mem_flatMap.1 hread
  exact haccepts block hblock read hread

end Reduction

end CartaZarr
