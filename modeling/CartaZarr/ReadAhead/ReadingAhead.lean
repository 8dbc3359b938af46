import Mathlib.Data.List.Chain
import CartaZarr.Foundations.Trace
import CartaZarr.ReadAhead.Runs

/-!
# Reading ahead of an animation

`ReadingAhead` is told of every frame served. It looks among the frames to come for the first run of
each image that is not the one shown, and decodes those ahead, one batch at a time on a thread of
its own, until a frame was late while it did.

The sections that hold its mutex are the actions here: that of `served`, those that end a batch, and
that of `cancel`, which comes some time after `cancel` has set its flag. An action that reads the
clock says what it read. A frame begins no earlier than the frame before was served, and shows each
image once.
-/

namespace CartaZarr

/-- One plane a frame shows: of which image, by position, and the read of it. -/
structure AnimatedPlane where
  image : ℕ
  request : ReadRequest
  deriving DecidableEq, Repr

/-- What reading ahead asks of an image: which run a plane is in. -/
structure RunSource where
  runOf : ReadRequest → Run

/-- How many of the frames to come are looked at. -/
def kUpcomingFrames : ℕ := 64

/-- One run to decode ahead: for which image, and the read of a plane in it. -/
structure Ahead where
  image : ℕ
  run : Run
  plane : ReadRequest
  deriving DecidableEq, Repr

/-- The run it is for, as the maps by image keep it. -/
def Ahead.entry (ahead : Ahead) : ℕ × Run := (ahead.image, ahead.run)

/-- Where the thread that decodes ahead is. -/
inductive Prefetcher
  | none
  | starting
  | running
  deriving DecidableEq, Repr

/-- What is shared, and where the threads are. Maps by image are lists, what was put in last
first. -/
structure ReadingAhead where
  cancelled : Bool := false
  underWay : Bool := false
  started : ℕ := 0
  finished : ℕ := 0
  prefetching : List (ℕ × Run) := []
  countedCatch : Bool := false
  requested : List (ℕ × Run) := []
  /-- Counted modulo `2 ^ 32`. -/
  prefetches : ℕ := 0
  caughtUp : ℕ := 0
  stopped : Bool := false
  worker : Prefetcher := .none
  /-- The last the clock was read, and when the last frame was served. -/
  now : ℕ := 0
  lastServed : ℕ := 0
  deriving DecidableEq, Repr

/-- What may happen. -/
inductive AheadAction
  | served (at_ began : ℕ) (late : Bool) (shown : List AnimatedPlane)
      (upcoming : List (List AnimatedPlane))
  | spawn
  | spawnFails (at_ : ℕ)
  | finish (at_ : ℕ) (failed : Bool)
  | cancelling
  | cancel
  deriving DecidableEq, Repr

/-- What happened: a frame was served and `batch` begun, which is empty where none was; a batch came
to its end, on its thread or for want of one; or something else. -/
inductive AheadEvent
  | served (at_ began : ℕ) (late : Bool) (shown : List AnimatedPlane) (batch : List Ahead)
  | ended (at_ : ℕ) (failed : Bool)
  | other
  deriving DecidableEq, Repr

namespace ReadingAhead

/-- Whether a frame shared the machine with a prefetch: one had started by the time it began and had
not finished by then. -/
def overlapped (s : ReadingAhead) (began : ℕ) : Bool :=
  !s.prefetching.isEmpty && s.started ≤ began && (s.underWay || s.finished > began)

/-- Whether a frame shows a run that is being decoded ahead. -/
def catches (sources : List RunSource) (s : ReadingAhead) (shown : List AnimatedPlane) : Bool :=
  shown.any fun plane =>
    match s.prefetching.lookup plane.image, sources[plane.image]? with
    | some run, some source => source.runOf plane.request = run
    | _, _ => false

/-- The first run of an image among the frames to come that is not the one shown. -/
def nextRun (source : RunSource) (image : ℕ) (runNow : Run) (frames : List (List AnimatedPlane)) :
    Option Ahead :=
  frames.findSome? fun planes =>
    (planes.find? fun candidate => candidate.image = image).bind fun plane =>
      let run := source.runOf plane.request
      if run = runNow then none else some ⟨image, run, plane.request⟩

/-- What is to be decoded ahead for one image shown, unless it was the last decoded ahead for it. -/
def lookAhead (sources : List RunSource) (frames : List (List AnimatedPlane))
    (found : List (ℕ × Run) × List Ahead) (now : AnimatedPlane) : List (ℕ × Run) × List Ahead :=
  let (requested, work) := found
  match sources[now.image]? with
  | none => found
  | some source =>
    if work.any fun ahead => ahead.image = now.image then found
    else
      match nextRun source now.image (source.runOf now.request) frames with
      | none => found
      | some ahead =>
        if requested.lookup now.image = some ahead.run then found
        else (ahead.entry :: requested, work ++ [ahead])

/-- The frame as it bears on what is under way. -/
def noteFrame (sources : List RunSource) (s : ReadingAhead) (began : ℕ) (late : Bool)
    (shown : List AnimatedPlane) : ReadingAhead :=
  let overlapped := s.overlapped began
  let s := if late && overlapped then { s with stopped := true } else s
  if overlapped && !s.countedCatch && catches sources s shown then
    { s with caughtUp := (s.caughtUp + 1) % 2 ^ 32, countedCatch := true }
  else s

/-- A batch is begun. -/
def begin_ (s : ReadingAhead) (at_ : ℕ) (requested : List (ℕ × Run)) (work : List Ahead) :
    ReadingAhead :=
  { s with
    requested
    underWay := true
    started := at_
    prefetching := (work.map Ahead.entry).reverse
    countedCatch := false
    prefetches := (s.prefetches + work.length) % 2 ^ 32
    worker := .starting }

/-- The section of `served`. -/
def serve (sources : List RunSource) (s : ReadingAhead) (at_ began : ℕ) (late : Bool)
    (shown : List AnimatedPlane) (upcoming : List (List AnimatedPlane)) :
    List Ahead × ReadingAhead :=
  let s := noteFrame sources s began late shown
  if s.stopped || s.cancelled || s.underWay then ([], s)
  else
    let (requested, work) :=
      shown.foldl (lookAhead sources (upcoming.take kUpcomingFrames)) (s.requested, [])
    if work.isEmpty then ([], { s with requested }) else (work, s.begin_ at_ requested work)

/-- The batch under way is at its end. -/
def end_ (s : ReadingAhead) (at_ : ℕ) (failed : Bool) : ReadingAhead :=
  { s with
    underWay := false
    finished := at_
    stopped := s.stopped || failed
    worker := .none
    now := at_ }

/-- One action, where it can be taken. -/
def step (sources : List RunSource) (s : ReadingAhead) :
    AheadAction → Option (AheadEvent × ReadingAhead)
  | .served at_ began late shown upcoming =>
    if s.worker ≠ .starting ∧ s.now ≤ at_ ∧ s.lastServed ≤ began ∧ began ≤ at_ ∧
        (shown.map AnimatedPlane.image).Nodup then
      let (batch, s) := serve sources s at_ began late shown upcoming
      some (.served at_ began late shown batch, { s with now := at_, lastServed := at_ })
    else none
  | .spawn => if s.worker = .starting then some (.other, { s with worker := .running }) else none
  | .spawnFails at_ =>
    if s.worker = .starting ∧ s.now ≤ at_ then some (.ended at_ true, s.end_ at_ true) else none
  | .finish at_ failed =>
    if s.worker = .running ∧ s.now ≤ at_ then some (.ended at_ failed, s.end_ at_ failed) else none
  | .cancelling => some (.other, { s with cancelled := true })
  | .cancel => if s.cancelled then some (.other, { s with stopped := true }) else none

end ReadingAhead

end CartaZarr
