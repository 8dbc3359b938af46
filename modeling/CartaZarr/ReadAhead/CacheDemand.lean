import Mathlib.Data.List.ReduceOption
import CartaZarr.Foundations.Fallible
import CartaZarr.Foundations.OrderedMap
import CartaZarr.ReadAhead.PlaneRun
import CartaZarr.ReadAhead.ReadingAhead

/-!
# Whether the caches hold what is read ahead

Reading ahead is accepted when each cache holds two runs of every image that reads through it: the
one playing and the one decoded ahead (`readingAheadFor`). What a cache has to hold is summed over
its images in words; `readingAhead_keepsToCaches_iff` says when what is accepted does fit.
-/

namespace CartaZarr

open Word

/-- The cache an image's reads keep their chunks in, and how much it holds. -/
structure CacheShare where
  identity : ℕ
  bytes : ℕ
  deriving DecidableEq, Repr

/-- What accepting an image asks of it, beside its runs: what one holds, and what holds it. -/
structure CachedSource extends RunSource where
  planeRunBytes : ℕ
  cache : CacheShare
  name : String

/-- A size as a message says it: in MiB once there are any. -/
def sizeText (bytes : ℕ) : String :=
  if bytes < 2 ^ 20 then toString bytes ++ " bytes" else toString (bytes / 2 ^ 20) ++ " MiB"

/-- What a cache has to hold, what it holds, and of which images. -/
structure Demand where
  needed : ℕ := 0
  holds : ℕ := 0
  images : String := ""
  deriving DecidableEq, Repr

/-- One image more: two runs of it, the one playing and the one decoded ahead. -/
def Demand.of (source : CachedSource) (demand : Option Demand) : Demand :=
  let before := demand.getD {}
  { needed := add before.needed (mul 2 source.planeRunBytes)
    holds := source.cache.bytes
    images := before.images ++ (if before.images.isEmpty then "" else ", ") ++ source.name }

/-- One image more, which has to be one with a plane. -/
def addDemand (caches : OrderedMap ℕ Demand) (source : Option CachedSource) :
    Except Error (OrderedMap ℕ Demand) :=
  match source with
  | none => .error ⟨.invalidArgument,
      "Reading ahead needs a plane of every image, and one image has none", ""⟩
  | some source =>
    if source.planeRunBytes = 0 then .error ⟨.invalidArgument,
      "Reading ahead needs a plane of every image, and " ++ source.name ++ " has none", source.name⟩
    else .ok (caches.update source.cache.identity (Demand.of source))

/-- Reading ahead over images, or why not. -/
def readingAheadFor (sources : List (Option CachedSource)) : Except Error (List CachedSource) :=
  if sources.isEmpty then
    .error ⟨.invalidArgument, "Reading ahead needs an image to read ahead of", ""⟩
  else do
    let caches ← sources.foldlM addDemand .empty
    match caches.entries.find? fun entry => entry.2.holds < entry.2.needed with
    | some (_, demand) =>
      .error ⟨.bufferTooSmall, "Reading ahead needs room for two runs of chunks of each image " ++
        "in the cache it reads through: " ++ demand.images ++ " need " ++ sizeText demand.needed ++
        " and their cache holds " ++ sizeText demand.holds, ""⟩
    | none => .ok sources.reduceOption

/-! ## What is summed -/

section Sums

variable {sources : List (Option CachedSource)} {holds : ℕ → ℕ}

/-- An image without a plane, or none at all. -/
def Planeless (source : Option CachedSource) : Prop := ∀ s, source = some s → s.planeRunBytes = 0

/-- The images that read through a cache. -/
def sharing (sources : List (Option CachedSource)) (identity : ℕ) : List CachedSource :=
  sources.reduceOption.filter (·.cache.identity = identity)

/-- What the images of a cache need, as it is said. -/
def needed (sources : List (Option CachedSource)) (identity : ℕ) : ℕ :=
  ((sharing sources identity).map fun s => 2 * s.planeRunBytes).sum

theorem foldlM_addDemand_eq (caches : OrderedMap ℕ Demand) (sources : List (Option CachedSource)) :
    (∃ source ∈ sources, Planeless source) ∧
        (∃ e, sources.foldlM addDemand caches = .error e ∧ e.code = .invalidArgument) ∨
    (¬ ∃ source ∈ sources, Planeless source) ∧ sources.foldlM addDemand caches =
      .ok (sources.reduceOption.foldl
        (fun m s => m.update s.cache.identity (Demand.of s)) caches) := by
  induction sources generalizing caches with
  | nil => exact Or.inr ⟨by simp, rfl⟩
  | cons source sources ih =>
    cases source with
    | none => exact Or.inl ⟨⟨none, by simp, by simp [Planeless]⟩, _, rfl, rfl⟩
    | some s =>
      by_cases hs : s.planeRunBytes = 0
      · refine Or.inl ⟨⟨some s, by simp, by simpa [Planeless] using hs⟩, ?_⟩
        rw [List.foldlM_cons, addDemand, if_pos hs]
        exact ⟨_, rfl, rfl⟩
      · have hnext : (some s :: sources).foldlM addDemand caches =
            sources.foldlM addDemand (caches.update s.cache.identity (Demand.of s)) := by
          rw [List.foldlM_cons, addDemand, if_neg hs]
          rfl
        have hhead : (∃ source ∈ some s :: sources, Planeless source) ↔
            ∃ source ∈ sources, Planeless source := by
          simp [Planeless, hs]
        rw [hnext, hhead, List.reduceOption_cons_of_some, List.foldl_cons]
        exact ih _

/-- The demand of a cache, of the images that read through it. -/
theorem foldl_demand {bytes : ℕ} {shares : List CachedSource}
    (hbytes : ∀ s ∈ shares, s.cache.bytes = bytes)
    (hne : shares ≠ []) (demand : Option Demand) :
    ∃ after : Demand, shares.foldl (fun demand s => some (Demand.of s demand)) demand = some after ∧
      after.needed = ((demand.getD {}).needed +
        (shares.map fun s => 2 * s.planeRunBytes).sum) % 2 ^ 64 ∧
      after.holds = bytes := by
  induction shares generalizing demand with
  | nil => exact absurd rfl hne
  | cons s shares ih =>
    rw [List.foldl_cons]
    rcases eq_or_ne shares [] with rfl | hshares
    · refine ⟨_, rfl, ?_, hbytes s (by simp)⟩
      simp [Demand.of, add, mul]
    · obtain ⟨after, hafter, hneeded, hholds⟩ := ih (fun s hs => hbytes s (by simp [hs])) hshares
        (some (Demand.of s demand))
      refine ⟨after, hafter, ?_, hholds⟩
      rw [hneeded]
      simp [Demand.of, add, mul, Nat.add_assoc]

/-- **How reading ahead is accepted**: every image has a plane, and what is said of no cache's
images exceeds what it holds, modulo a word. -/
theorem readingAheadFor_cases (hholds : ∀ s, some s ∈ sources →
      s.cache.bytes = holds s.cache.identity) :
    ((sources = [] ∨ ∃ source ∈ sources, Planeless source) ∧
      ∃ e, readingAheadFor sources = .error e ∧ e.code = .invalidArgument) ∨
    ((¬ ∃ source ∈ sources, Planeless source) ∧ (∃ c, holds c < needed sources c % 2 ^ 64) ∧
      ∃ e, readingAheadFor sources = .error e ∧ e.code = .bufferTooSmall) ∨
    ((¬ ∃ source ∈ sources, Planeless source) ∧ (∀ c, needed sources c % 2 ^ 64 ≤ holds c) ∧
      readingAheadFor sources = .ok sources.reduceOption) := by
  unfold readingAheadFor
  rcases eq_or_ne sources [] with hempty | hne
  · exact Or.inl ⟨Or.inl hempty, by rw [hempty]; exact ⟨_, rfl, rfl⟩⟩
  rw [if_neg (by simpa using hne)]
  rcases foldlM_addDemand_eq .empty sources with ⟨hno, e, he, hcode⟩ | ⟨hplanes, hfold⟩
  · rw [he]
    exact Or.inl ⟨Or.inr hno, e, rfl, hcode⟩
  rw [hfold, ok_bind]
  set caches : OrderedMap ℕ Demand :=
    sources.reduceOption.foldl (fun m s => m.update s.cache.identity (Demand.of s)) .empty
  have hshares : ∀ c, ∀ s ∈ sharing sources c, s.cache.bytes = holds c := fun c s hs => by
    obtain ⟨hs, hc⟩ := List.mem_filter.1 hs
    rw [← of_decide_eq_true hc]
    exact hholds s (List.reduceOption_mem_iff.1 hs)
  have hfind : ∀ c, caches.find? c =
      (sharing sources c).foldl (fun demand s => some (Demand.of s demand)) none := fun c => by
    rw [OrderedMap.find?_foldl_update, OrderedMap.find?_empty]
    rfl
  have hdemand : ∀ c demand, caches.find? c = some demand →
      demand.needed = needed sources c % 2 ^ 64 ∧ demand.holds = holds c := fun c demand h => by
    have hne : sharing sources c ≠ [] := fun hnil => by
      rw [hfind, hnil] at h
      cases h
    obtain ⟨after, hafter, hneeded, hbytes⟩ := foldl_demand (hshares c) hne none
    rw [hfind, hafter] at h
    cases h
    refine ⟨?_, hbytes⟩
    rw [hneeded]
    simp [needed]
  cases hover : caches.entries.find? fun entry => entry.2.holds < entry.2.needed with
  | some entry =>
    obtain ⟨c, demand⟩ := entry
    obtain ⟨hneeded, hbytes⟩ := hdemand c demand
      (OrderedMap.mem_entries_iff.1 (List.mem_of_find?_eq_some hover))
    have hlt : demand.holds < demand.needed := by simpa using List.find?_some hover
    exact Or.inr (Or.inl ⟨hplanes, ⟨c, by rwa [← hneeded, ← hbytes]⟩, _, rfl, rfl⟩)
  | none =>
    refine Or.inr (Or.inr ⟨hplanes, fun c => ?_, rfl⟩)
    rcases eq_or_ne (sharing sources c) [] with hnil | hne
    · simp [needed, hnil]
    obtain ⟨demand, hafter, -, -⟩ := foldl_demand (hshares c) hne none
    rw [← hfind] at hafter
    obtain ⟨hneeded, hbytes⟩ := hdemand c demand hafter
    have hnot := List.find?_eq_none.1 hover _ (OrderedMap.mem_entries_iff.2 hafter)
    rw [← hneeded, ← hbytes]
    exact not_lt.1 fun h => hnot (decide_eq_true h)

end Sums

/-! ## Images -/

/-- What reading ahead is asked of an image: the image with its flag, the options its frames are
read with, and the cache they are read through. -/
structure ImageRuns where
  descriptor : ImageDescriptor
  geometry : ChunkGeometry
  flagGeometry : ChunkGeometry
  options : ReadOptions
  cache : CacheShare

namespace ImageRuns

variable (image : ImageRuns)

/-- Whether its frames are read with the mask. -/
abbrev applyMask : Bool := appliesPixelMask image.options image.descriptor

/-- What the image answers. -/
def source : CachedSource where
  runOf := runOf image.geometry
  planeRunBytes := planeRunBytes image.descriptor image.geometry image.flagGeometry image.applyMask
  cache := image.cache
  name := image.descriptor.id

/-- The layout its flag is read in. -/
abbrev flag : ChunkGeometry := flagOf image.geometry image.flagGeometry

/-- The spatial axes of a plane. -/
def Spatial (x y : ℕ) : Prop :=
  axisIndex image.descriptor.axes .spatialX = some x ∧
    axisIndex image.descriptor.axes .spatialY = some y

/-- A read of a plane of the image. -/
def IsPlane (p : ReadRequest) : Prop := ∃ x y, image.Spatial x y ∧ p.IsPlane image.descriptor x y

/-- What the run of a plane decodes to. -/
def runBytes (p : ReadRequest) : ℕ :=
  touchedBytes image.descriptor image.geometry image.flag image.applyMask
    (runRequest image.descriptor image.geometry p)

/-- The most that a run of a plane decodes to; nothing, where there is no plane. -/
def mostRunBytes : ℕ :=
  match axisIndex image.descriptor.axes .spatialX, axisIndex image.descriptor.axes .spatialY with
  | some x, some y =>
    exactRunBytes image.descriptor image.geometry image.flag image.applyMask x y
  | _, _ => 0

/-- Its lengths and chunks are extents above zero that fit 63 bits. -/
abbrev Fits : Prop := PlaneFits image.descriptor image.geometry image.flag

variable {image}

theorem mostRunBytes_eq {x y : ℕ} (h : image.Spatial x y) : image.mostRunBytes =
    exactRunBytes image.descriptor image.geometry image.flag image.applyMask x y := by
  rw [mostRunBytes, h.1, h.2]

theorem mostRunBytes_of_planeless (h : ¬ ∃ x y, image.Spatial x y) :
    image.mostRunBytes = 0 ∧ image.source.planeRunBytes = 0 := by
  unfold mostRunBytes source planeRunBytes
  cases hx : axisIndex image.descriptor.axes .spatialX with
  | none => exact ⟨rfl, rfl⟩
  | some x =>
    cases hy : axisIndex image.descriptor.axes .spatialY with
    | none => exact ⟨rfl, rfl⟩
    | some y => exact absurd ⟨x, y, hx, hy⟩ h

variable (hfits : image.Fits)
include hfits

/-- What is said of an image is enough for its runs exactly when the most of one fits a word. -/
theorem runBytes_le_iff : (∀ p, image.IsPlane p → image.runBytes p ≤ image.source.planeRunBytes) ↔
    image.mostRunBytes < 2 ^ 64 := by
  by_cases h : ∃ x y, image.Spatial x y
  · obtain ⟨x, y, hxy⟩ := h
    rw [mostRunBytes_eq hxy, ← CartaZarr.runBytes_le_iff hfits hxy.1 hxy.2 image.applyMask]
    constructor
    · exact fun h p hp => h p ⟨x, y, hxy, hp⟩
    · rintro h p ⟨x', y', hxy', hp⟩
      obtain rfl : x' = x := Option.some.inj (hxy'.1.symm.trans hxy.1)
      obtain rfl : y' = y := Option.some.inj (hxy'.2.symm.trans hxy.2)
      exact h p hp
  · rw [(mostRunBytes_of_planeless h).1]
    refine iff_of_true ?_ (by norm_num)
    rintro p ⟨x, y, hxy, -⟩
    exact absurd ⟨x, y, hxy⟩ h

theorem planeRunBytes_eq (h : image.mostRunBytes < 2 ^ 64) :
    image.source.planeRunBytes = image.mostRunBytes := by
  by_cases hplane : ∃ x y, image.Spatial x y
  · obtain ⟨x, y, hxy⟩ := hplane
    rw [mostRunBytes_eq hxy] at h ⊢
    exact CartaZarr.planeRunBytes_eq hfits hxy.1 hxy.2 h
  · rw [(mostRunBytes_of_planeless hplane).1, (mostRunBytes_of_planeless hplane).2]

/-- Of an image with a plane, what is said is not nothing. -/
theorem planeRunBytes_eq_zero_iff (h : image.mostRunBytes < 2 ^ 64) :
    image.source.planeRunBytes = 0 ↔ ¬ ∃ x y, image.Spatial x y := by
  refine ⟨?_, fun h => (mostRunBytes_of_planeless h).2⟩
  rintro hzero ⟨x, y, hxy⟩
  rw [planeRunBytes_eq hfits h, mostRunBytes_eq hxy] at hzero
  exact absurd hzero (exactRunBytes_pos hfits image.applyMask x y).ne'

/-- An image with a plane has a run that decodes to the most. -/
theorem exists_runBytes_eq (h : image.source.planeRunBytes ≠ 0) :
    ∃ p, image.IsPlane p ∧ image.runBytes p = image.mostRunBytes := by
  obtain ⟨x, y, hxy⟩ := not_not.1 (mt mostRunBytes_of_planeless (fun h' => h h'.2))
  obtain ⟨p, hp, hmost⟩ := CartaZarr.exists_runBytes_eq hfits x y image.applyMask
  exact ⟨p, ⟨x, y, hxy, hp⟩, hmost.trans (mostRunBytes_eq hxy).symm⟩

end ImageRuns

/-! ## What is accepted fits -/

section Accepted

variable {images : List (Option ImageRuns)} {holds : ℕ → ℕ}

/-- What the images ask with. -/
abbrev sourcesOf (images : List (Option ImageRuns)) : List (Option CachedSource) :=
  images.map (Option.map ImageRuns.source)

/-- Two runs of an image. -/
structure Play where
  image : ImageRuns
  first : ReadRequest
  second : ReadRequest

/-- What the two runs decode to. -/
def Play.bytes (play : Play) : ℕ := play.image.runBytes play.first + play.image.runBytes play.second

/-- What two runs of each image of a cache decode to. -/
def playedBytes (plays : List Play) (identity : ℕ) : ℕ :=
  ((plays.filter (·.image.cache.identity = identity)).map Play.bytes).sum

/-- What two runs of each image of a cache decode to at most. -/
def exactDemand (images : List (Option ImageRuns)) (identity : ℕ) : ℕ :=
  ((images.reduceOption.filter (·.cache.identity = identity)).map fun image =>
    2 * image.mostRunBytes).sum

/-- Reading ahead keeps to its caches: what is said of an image is enough for each of its runs;
where it is accepted, each cache holds any two runs of every image that reads through it; and where
it is declined for want of room, some cache does not hold twice what is said of its images. -/
structure KeepsToCaches (images : List (Option ImageRuns)) (holds : ℕ → ℕ) : Prop where
  run_le : ∀ image, some image ∈ images → ∀ p, image.IsPlane p →
    image.runBytes p ≤ image.source.planeRunBytes
  accepted : ∀ sources, readingAheadFor (sourcesOf images) = .ok sources → ∀ plays : List Play,
    plays.map Play.image = images.reduceOption →
    (∀ play ∈ plays, play.image.IsPlane play.first ∧ play.image.IsPlane play.second) →
    ∀ c, playedBytes plays c ≤ holds c
  declined : ∀ e, readingAheadFor (sourcesOf images) = .error e → e.code = .bufferTooSmall →
    ∃ c, holds c < needed (sourcesOf images) c

theorem sharing_sourcesOf (images : List (Option ImageRuns))
    (c : ℕ) : sharing (sourcesOf images) c =
    (images.reduceOption.filter (·.cache.identity = c)).map ImageRuns.source := by
  rw [sharing, List.reduceOption_map, List.filter_map]
  rfl

theorem needed_sourcesOf (hfits : ∀ image, some image ∈ images → image.Fits)
    (hmost : ∀ image, some image ∈ images → image.mostRunBytes < 2 ^ 64) (c : ℕ) :
    needed (sourcesOf images) c = exactDemand images c := by
  rw [needed, sharing_sourcesOf, exactDemand, List.map_map]
  congr 1
  refine List.map_congr_left fun image himage => ?_
  have himage := List.reduceOption_mem_iff.1 (List.mem_of_mem_filter himage)
  rw [Function.comp_apply, ImageRuns.planeRunBytes_eq (hfits image himage) (hmost image himage)]

/-- The two runs of each image decode to no more than is demanded. -/
theorem playedBytes_le {plays : List Play} (hplays : plays.map Play.image = images.reduceOption)
    (hle : ∀ play ∈ plays, play.bytes ≤ 2 * play.image.mostRunBytes) (c : ℕ) :
    playedBytes plays c ≤ exactDemand images c := by
  rw [exactDemand, ← hplays, List.filter_map, List.map_map]
  exact List.sum_le_sum fun play hplay => hle play (List.mem_of_mem_filter hplay)

/-- Images with a plane can be played so that they decode to all that is demanded. -/
theorem exists_playedBytes_eq (hfits : ∀ image, some image ∈ images → image.Fits)
    (hplane : ¬ ∃ source ∈ sourcesOf images, Planeless source) :
    ∃ plays : List Play, plays.map Play.image = images.reduceOption ∧
      (∀ play ∈ plays, play.image.IsPlane play.first ∧ play.image.IsPlane play.second) ∧
      ∀ c, playedBytes plays c = exactDemand images c := by
  have hrun : ∀ image, ∃ p, some image ∈ images → image.IsPlane p ∧
      image.runBytes p = image.mostRunBytes := by
    intro image
    by_cases himage : some image ∈ images
    · have hne : image.source.planeRunBytes ≠ 0 := fun h =>
        hplane ⟨some image.source, List.mem_map_of_mem himage, fun s hs => by cases hs; exact h⟩
      obtain ⟨p, hp⟩ := ImageRuns.exists_runBytes_eq (hfits image himage) hne
      exact ⟨p, fun _ => hp⟩
    · exact ⟨⟨[]⟩, fun h => absurd h himage⟩
  choose p hp using hrun
  refine ⟨images.reduceOption.map fun image => ⟨image, p image, p image⟩, ?_, ?_, fun c => ?_⟩
  · rw [List.map_map]
    exact List.map_id _
  · intro play hplay
    obtain ⟨image, himage, rfl⟩ := List.mem_map.1 hplay
    have h := (hp image (List.reduceOption_mem_iff.1 himage)).1
    exact ⟨h, h⟩
  · rw [playedBytes, exactDemand, List.filter_map, List.map_map]
    congr 1
    refine List.map_congr_left fun image himage => ?_
    have h := (hp image (List.reduceOption_mem_iff.1 (List.mem_of_mem_filter himage))).2
    rw [Function.comp_apply, Play.bytes, h, two_mul]

/-- What is said of the images has nothing of none where one has no plane. -/
theorem planeless_sourcesOf_iff (hfits : ∀ image, some image ∈ images → image.Fits)
    (hmost : ∀ image, some image ∈ images → image.mostRunBytes < 2 ^ 64) :
    (∃ source ∈ sourcesOf images, Planeless source) ↔
      ∃ source ∈ images, ∀ image, source = some image → ¬ ∃ x y, image.Spatial x y := by
  simp only [sourcesOf, List.mem_map, exists_exists_and_eq_and]
  refine exists_congr fun source => and_congr_right fun hsource => ?_
  cases source with
  | none => simp [Planeless]
  | some image =>
    have hzero := ImageRuns.planeRunBytes_eq_zero_iff (hfits image hsource) (hmost image hsource)
    constructor
    · rintro h image' ⟨⟩
      exact hzero.1 (h _ rfl)
    · rintro h s ⟨⟩
      exact hzero.2 (h image rfl)

/-- What a cache holds is a word, and so is what is demanded of it when it holds that. -/
theorem exactDemand_lt (hword : ∀ image, some image ∈ images → image.cache.bytes < 2 ^ 64)
    (hholds : ∀ image, some image ∈ images → image.cache.bytes = holds image.cache.identity) {c : ℕ}
    (h : exactDemand images c ≤ holds c) : exactDemand images c < 2 ^ 64 := by
  by_cases hc : ∃ image, some image ∈ images ∧ image.cache.identity = c
  · obtain ⟨image, himage, rfl⟩ := hc
    exact h.trans_lt (hholds image himage ▸ hword image himage)
  · have hnone : images.reduceOption.filter (·.cache.identity = c) = [] := by
      rw [List.filter_eq_nil_iff]
      intro image himage hidentity
      exact hc ⟨image, List.reduceOption_mem_iff.1 himage, of_decide_eq_true hidentity⟩
    rw [exactDemand, hnone]
    norm_num

/-- **Reading ahead keeps to its caches** exactly when a run of each image fits a word, and so does
what is demanded of each cache, or the images are declined: some cache does not hold even what is
left of its demand modulo a word, or some image has no plane. -/
theorem readingAhead_keepsToCaches_iff (hfits : ∀ image, some image ∈ images → image.Fits)
    (hword : ∀ image, some image ∈ images → image.cache.bytes < 2 ^ 64)
    (hholds : ∀ image, some image ∈ images → image.cache.bytes = holds image.cache.identity) :
    KeepsToCaches images holds ↔
      (∀ image, some image ∈ images → image.mostRunBytes < 2 ^ 64) ∧
      ((∀ c, exactDemand images c < 2 ^ 64) ∨ (∃ c, holds c < exactDemand images c % 2 ^ 64) ∨
        ∃ source ∈ images, ∀ image, source = some image → ¬ ∃ x y, image.Spatial x y) := by
  have hsources : ∀ s, some s ∈ sourcesOf images → s.cache.bytes = holds s.cache.identity := by
    intro s hs
    obtain ⟨source, hsource, h⟩ := List.mem_map.1 hs
    obtain ⟨image, rfl, rfl⟩ := Option.map_eq_some_iff.1 h
    exact hholds image hsource
  constructor
  · intro h
    have hmost : ∀ image, some image ∈ images → image.mostRunBytes < 2 ^ 64 := fun image himage =>
      (ImageRuns.runBytes_le_iff (hfits image himage)).1 (h.run_le image himage)
    have hneeded := needed_sourcesOf hfits hmost
    refine ⟨hmost, ?_⟩
    rw [← planeless_sourcesOf_iff hfits hmost]
    rcases readingAheadFor_cases hsources
      with ⟨hempty | hno, -⟩ | ⟨-, ⟨c, hc⟩, -⟩ | ⟨hplane, -, haccepted⟩
    · refine Or.inl fun c => ?_
      rw [List.map_eq_nil_iff.1 hempty]
      exact Nat.two_pow_pos 64
    · exact Or.inr (Or.inr hno)
    · exact Or.inr (Or.inl ⟨c, by rwa [← hneeded]⟩)
    · obtain ⟨plays, hplays, hplanes, hbytes⟩ := exists_playedBytes_eq hfits hplane
      refine Or.inl fun c => exactDemand_lt hword hholds ?_
      exact hbytes c ▸ h.accepted _ haccepted plays hplays hplanes c
  · rintro ⟨hmost, hdemand⟩
    have hneeded := needed_sourcesOf hfits hmost
    rw [← planeless_sourcesOf_iff hfits hmost] at hdemand
    have hle : ∀ image, some image ∈ images → ∀ p, image.IsPlane p →
        image.runBytes p ≤ image.source.planeRunBytes := fun image himage =>
      (ImageRuns.runBytes_le_iff (hfits image himage)).2 (hmost image himage)
    refine ⟨hle, fun sources hok plays hplays hplanes c => ?_, fun e herror hcode => ?_⟩
    · rcases readingAheadFor_cases hsources
        with ⟨-, e, he, -⟩ | ⟨-, -, e, he, -⟩ | ⟨hplane, hroom, -⟩
      · rw [he] at hok
        cases hok
      · rw [he] at hok
        cases hok
      have hexact : ∀ c, exactDemand images c ≤ holds c := by
        rcases hdemand with hall | ⟨c, hc⟩ | hno
        · intro c
          have hc := hroom c
          rwa [hneeded, Nat.mod_eq_of_lt (hall c)] at hc
        · exact absurd (hroom c) (by rw [hneeded]; exact not_le.2 hc)
        · exact absurd hno hplane
      refine (playedBytes_le hplays (fun play hplay => ?_) c).trans (hexact c)
      have himage : some play.image ∈ images := by
        rw [← List.reduceOption_mem_iff, ← hplays]
        exact List.mem_map_of_mem hplay
      have hsaid := ImageRuns.planeRunBytes_eq (hfits _ himage) (hmost _ himage)
      have hfirst := hle _ himage _ (hplanes play hplay).1
      have hsecond := hle _ himage _ (hplanes play hplay).2
      unfold Play.bytes
      omega
    · rcases readingAheadFor_cases hsources with ⟨-, e', he, hcode'⟩ | ⟨-, ⟨c, hc⟩, -⟩ | ⟨-, -, hok⟩
      · rw [he] at herror
        cases herror
        rw [hcode'] at hcode
        cases hcode
      · exact ⟨c, hc.trans_le (Nat.mod_le _ _)⟩
      · rw [hok] at herror
        cases herror

end Accepted

/-- The cube, read through a cache of two of its runs. -/
def smallCubeRuns : ImageRuns :=
  ⟨{ smallCube with hasPixelMask := true }, smallCubeChunks, smallCubeChunks, ⟨true, 0⟩, ⟨1, 640⟩⟩

theorem smallCubeRuns_fits : smallCubeRuns.Fits where
  pixels := ⟨rfl, by decide⟩
  flags := ⟨rfl, by decide⟩
  length_pos := by decide
  length_lt := by decide
  chunk_lt := by decide

/-- The cube on its own. -/
theorem readingAhead_keepsToCaches_iff_smallCube :
    KeepsToCaches [some smallCubeRuns] (fun _ => 640) ↔
    (∀ image, some image ∈ [some smallCubeRuns] → image.mostRunBytes < 2 ^ 64) ∧
    ((∀ c, exactDemand [some smallCubeRuns] c < 2 ^ 64) ∨
      (∃ c, 640 < exactDemand [some smallCubeRuns] c % 2 ^ 64) ∨
      ∃ source ∈ [some smallCubeRuns], ∀ image, source = some image → ¬ ∃ x y, image.Spatial x y) :=
  readingAhead_keepsToCaches_iff
    (fun image h => by
      obtain rfl : image = smallCubeRuns := by simpa using h
      exact smallCubeRuns_fits)
    (fun image h => by
      obtain rfl : image = smallCubeRuns := by simpa using h
      decide)
    fun image h => by
      obtain rfl : image = smallCubeRuns := by simpa using h
      rfl

/-! ### Where the demand wraps -/

/-- A plane of `2 ^ 30` pixels a side, `2 ^ 62` bytes, read through a cache that holds nothing. -/
def widePlaneRuns : ImageRuns where
  descriptor :=
    { id := "SKY", storedType := .float32, hasPixelMask := false
      axes := [⟨"l", .spatialX, 2 ^ 30, 1⟩, ⟨"m", .spatialY, 2 ^ 30, 0⟩] }
  geometry := ⟨.spatialX, [2 ^ 15, 2 ^ 15]⟩
  flagGeometry := ⟨.spatialX, []⟩
  options := ⟨false, 0⟩
  cache := ⟨1, 0⟩

theorem widePlaneRuns_fits : widePlaneRuns.Fits where
  pixels := ⟨rfl, by decide +kernel⟩
  flags := ⟨rfl, by decide +kernel⟩
  length_pos := by decide +kernel
  length_lt := by decide +kernel
  chunk_lt := by decide +kernel

/-- **Two such planes are accepted**: twice two runs of `2 ^ 62` bytes are said to need none. -/
theorem readingAhead_overcommits :
    (∀ image, some image ∈ [some widePlaneRuns, some widePlaneRuns] → image.Fits ∧
      image.mostRunBytes < 2 ^ 63 ∧ image.cache.bytes = 0) ∧
    (∃ sources, readingAheadFor (sourcesOf [some widePlaneRuns, some widePlaneRuns]) =
      .ok sources) ∧
    ∃ plays : List Play, plays.map Play.image = [widePlaneRuns, widePlaneRuns] ∧
      (∀ play ∈ plays, play.image.IsPlane play.first ∧ play.image.IsPlane play.second) ∧
      playedBytes plays 1 = 2 ^ 64 := by
  have hall : ∀ image, some image ∈ [some widePlaneRuns, some widePlaneRuns] →
      image = widePlaneRuns := by
    intro image h
    simpa using h
  have hfits : ∀ image, some image ∈ [some widePlaneRuns, some widePlaneRuns] →
      image.Fits := fun image h =>
    hall image h ▸ widePlaneRuns_fits
  have hmost : widePlaneRuns.mostRunBytes = 2 ^ 62 := by decide +kernel
  have hsaid : widePlaneRuns.source.planeRunBytes = 2 ^ 62 := by decide +kernel
  have hplane : ¬ ∃ source ∈ sourcesOf [some widePlaneRuns, some widePlaneRuns],
      Planeless source := by
    simp [Planeless, hsaid]
  have hneeded : ∀ c, needed (sourcesOf [some widePlaneRuns, some widePlaneRuns]) c %
      2 ^ 64 = 0 := by
    intro c
    rw [needed, sharing_sourcesOf]
    by_cases hc : widePlaneRuns.cache.identity = c <;> simp [hc, hsaid]
  have hbytes : ∀ s, some s ∈ sourcesOf [some widePlaneRuns, some widePlaneRuns] →
      s.cache.bytes = 0 := by
    intro s hs
    obtain rfl : s = widePlaneRuns.source := by simpa using hs
    rfl
  refine ⟨fun image h => ⟨hfits image h, ?_, ?_⟩, ?_, ?_⟩
  · rw [hall image h, hmost]
    decide
  · rw [hall image h]
    rfl
  · rcases @readingAheadFor_cases _ (fun _ => 0) hbytes with
      ⟨hempty | hno, -⟩ | ⟨-, ⟨c, hc⟩, -⟩ | ⟨-, -, hok⟩
    · cases hempty
    · exact absurd hno hplane
    · rw [hneeded] at hc
      cases hc
    · exact ⟨_, hok⟩
  · obtain ⟨plays, hplays, hplanes, hplayed⟩ := exists_playedBytes_eq hfits hplane
    refine ⟨plays, hplays, hplanes, ?_⟩
    rw [hplayed]
    decide +kernel

end CartaZarr
