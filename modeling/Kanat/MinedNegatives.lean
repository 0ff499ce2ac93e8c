import Kanat.DerivedTruth
import Kanat.NegativeTiles
import Mathlib.Logic.Function.Basic

/-! # Negatives mined from recordings (tools/mine_negatives.py: source, mine)

The Board's views, the thumbnails and how far two differ are what OpenCV makes of the frames. Numbers are formatted
exactly. -/
namespace Kanat.MinedNegatives
open GreedyChoice NegativeTiles PlainTexts
open Rounding (pyRound)

def dupMad : ℚ := 6
def minCorrelation : ℚ := 4 / 5
def maxCanvasPx : ℕ := 4096

structure Vision (Frame View Pixel Thumb : Type) where
  /-- `build_view` and `track_view`; nothing where they raise `cv2.error`. -/
  buildView : Frame → Option (View × ℚ)
  findTargets : Frame → Bool
  trackView : Frame → View → Option (View × ℚ)
  canvasSize : View → ℕ × ℕ
  /-- The rectified canvas with its `ground_mask`. -/
  canvas : View → Frame → Canvas Pixel
  black : Pixel
  thumbnail : (ℕ → ℕ → Pixel) → Thumb
  mad : Thumb → Thumb → ℚ

structure Entry where
  file : List Char
  captureSetup : List Char
  neverTrained : Bool

/-- A recording as it is given: `video` without its folder, `stem` without its ending. -/
structure Recording (Frame : Type) where
  video : List Char
  stem : List Char
  sha : List Char
  opened : Bool
  fps : ℚ
  frames : List Frame

structure Row where
  image : List Char
  sha : List Char
  file : List Char
  captureSetup : List Char
  frame : ℕ
  timeS : List Char
  x : ℕ
  y : ℕ
  w : ℕ
  h : ℕ
  groundFraction : List Char

/-- An image written, its pixels by row and column, and its row of `sources.csv`; its label file is empty. -/
structure Image (Pixel : Type) where
  row : Row
  tile : ℕ → ℕ → Pixel

inductive Failure where
  | refused (video : List Char)
  | cannotDecode (video : List Char) (fps : ℚ)
  | noFrame (video : List Char)

variable {Frame View Pixel Thumb : Type}

/-- `source`; none where the entry is refused. -/
def source (entries : List Char → Option Entry) (r : Recording Frame) : Option Entry :=
  match entries r.sha with
  | some entry => if entry.neverTrained then none else some entry
  | none => some ⟨r.video, [], false⟩

/-- What a recording shares its thumbnails under. -/
def setup (r : Recording Frame) (entry : Entry) : List Char :=
  if entry.captureSetup = [] then r.sha else entry.captureSetup

def usableFit (canvasSize : ℕ × ℕ) (correlation : ℚ) : Bool :=
  minCorrelation ≤ correlation ∧ max canvasSize.1 canvasSize.2 ≤ maxCanvasPx

/-- Every how many frames one is sampled: `step_s` apart, at least every frame. -/
def sampleStep (fps stepS : ℚ) : ℕ := max 1 (pyRound (fps * stepS)).toNat

/-- One frame: `last` after it, which is none until Board space is found, and the view to take tiles of. -/
def track (v : Vision Frame View Pixel Thumb) (last : Option View) (sampled : Bool) (frame : Frame) :
    Option View × Option View :=
  match last with
  | none =>
    if sampled then
      match v.buildView frame with
      | none => (none, none)
      | some (view, correlation) =>
        if usableFit (v.canvasSize view) correlation then (some view, some view) else (none, none)
    else (none, none)
  | some previous =>
    if v.findTargets frame then
      match v.trackView frame previous with
      | none => (some previous, none)
      | some (view, correlation) =>
        (some view, if sampled && usableFit (v.canvasSize view) correlation then some view else none)
    else (some previous, none)

/-- A tile of the canvas with all but its ground black, and black to its right and below to `TILE_PX`. -/
def padToTile (black : Pixel) (canvas : Canvas Pixel) (x y : ℕ) (j i : ℕ) : Pixel :=
  if j < min tilePx (canvas.height - y) ∧ i < min tilePx (canvas.width - x) ∧ canvas.ground (y + j) (x + i) then
    canvas.pixel (y + j) (x + i)
  else black

def lead (r : Recording Frame) : List Char := r.stem ++ '_' :: r.sha.take 12

def name (r : Recording Frame) (index x y : ℕ) : List Char :=
  lead r ++ '_' :: 'f' :: zeroPadded 5 index ++ '_' :: 'x' :: Nat.toDigits 10 x ++ '_' :: 'y' :: Nat.toDigits 10 y

def image (v : Vision Frame View Pixel Thumb) (r : Recording Frame) (entry : Entry) (index : ℕ)
    (canvas : Canvas Pixel) (t : Tile) : Image Pixel where
  row :=
    { image := name r index t.x t.y ++ ".jpg".toList
      sha := r.sha
      file := entry.file
      captureSetup := entry.captureSetup
      frame := index
      timeS := DerivedTruth.fixed 2 (index / r.fps)
      x := t.x
      y := t.y
      w := min tilePx (canvas.width - t.x)
      h := min tilePx (canvas.height - t.y)
      groundFraction := DerivedTruth.fixed 3 t.fraction }
  tile := padToTile v.black canvas t.x t.y

/-- The images written, and the thumbnails kept of each Capture Setup. -/
structure Dataset (Pixel Thumb : Type) where
  images : List (Image Pixel) := []
  kept : List Char → List Thumb := fun _ => []

def nearDuplicate (v : Vision Frame View Pixel Thumb) (thumb : Thumb) (kept : List Thumb) : Bool :=
  kept.any fun k => v.mad thumb k < dupMad

def offer (v : Vision Frame View Pixel Thumb) (key : List Char) (d : Dataset Pixel Thumb) (image : Image Pixel) :
    Dataset Pixel Thumb :=
  let thumb := v.thumbnail image.tile
  if nearDuplicate v thumb (d.kept key) then d
  else { images := d.images ++ [image], kept := Function.update d.kept key (d.kept key ++ [thumb]) }

def mineFrames (v : Vision Frame View Pixel Thumb) (stepS : ℚ) (r : Recording Frame) (entry : Entry) (index : ℕ)
    (last : Option View) (d : Dataset Pixel Thumb) : List Frame → Dataset Pixel Thumb
  | [] => d
  | frame :: frames =>
    let (last, view) := track v last (index % sampleStep r.fps stepS = 0) frame
    let d :=
      match view with
      | none => d
      | some view =>
        let canvas := v.canvas view frame
        ((pickTiles canvas tilePx minGround).map (image v r entry index canvas)).foldl (offer v (setup r entry)) d
    mineFrames v stepS r entry (index + 1) last d frames

def mine (v : Vision Frame View Pixel Thumb) (stepS : ℚ) (r : Recording Frame) (entry : Entry)
    (d : Dataset Pixel Thumb) : Option Failure × Dataset Pixel Thumb :=
  if ¬r.opened ∨ r.fps ≤ 0 then (some (.cannotDecode r.video r.fps), d)
  else if r.frames = [] then (some (.noFrame r.video), d)
  else (none, mineFrames v stepS r entry 0 none d r.frames)

def mineAll (v : Vision Frame View Pixel Thumb) (stepS : ℚ) (d : Dataset Pixel Thumb) :
    List (Recording Frame × Entry) → Option Failure × Dataset Pixel Thumb
  | [] => (none, d)
  | (r, entry) :: sources =>
    match mine v stepS r entry d with
    | (some failure, d) => (some failure, d)
    | (none, d) => mineAll v stepS d sources

/-- Every recording is looked up before the first is mined. -/
def sources (entries : List Char → Option Entry) :
    List (Recording Frame) → Except Failure (List (Recording Frame × Entry))
  | [] => .ok []
  | r :: rs =>
    match source entries r with
    | none => .error (.refused r.video)
    | some entry => (sources entries rs).map fun rest => (r, entry) :: rest

def run (v : Vision Frame View Pixel Thumb) (stepS : ℚ) (entries : List Char → Option Entry)
    (recordings : List (Recording Frame)) : Option Failure × Dataset Pixel Thumb :=
  match sources entries recordings with
  | .error failure => (some failure, {})
  | .ok sources => mineAll v stepS {} sources

/-- Tiles are taken of sampled frames only. -/
theorem track_sampled {v : Vision Frame View Pixel Thumb} {last : Option View} {sampled : Bool} {frame : Frame}
    {view : View} (h : (track v last sampled frame).2 = some view) : sampled := by
  cases sampled with
  | true => rfl
  | false =>
    cases last with
    | none => exact absurd h (by simp [track])
    | some previous =>
      rw [track] at h
      split_ifs at h
      split at h <;> exact absurd h (by simp)

/-- The images of one frame. -/
def framed (v : Vision Frame View Pixel Thumb) (r : Recording Frame) (entry : Entry) (index : ℕ) (view : View)
    (frame : Frame) : List (Image Pixel) :=
  (pickTiles (v.canvas view frame) tilePx minGround).map (image v r entry index (v.canvas view frame))

def offeredFrom (v : Vision Frame View Pixel Thumb) (stepS : ℚ) (r : Recording Frame) (entry : Entry) (index : ℕ)
    (last : Option View) : List Frame → List (Image Pixel)
  | [] => []
  | frame :: frames =>
    let next := track v last (index % sampleStep r.fps stepS = 0) frame
    next.2.toList.flatMap (framed v r entry index · frame) ++ offeredFrom v stepS r entry (index + 1) next.1 frames

/-- The images a recording offers, whatever is kept of others. -/
def offered (v : Vision Frame View Pixel Thumb) (stepS : ℚ) (source : Recording Frame × Entry) : List (Image Pixel) :=
  offeredFrom v stepS source.1 source.2 0 none source.1.frames

def Image.key (image : Image Pixel) : List Char :=
  if image.row.captureSetup = [] then image.row.sha else image.row.captureSetup

/-- Of one Capture Setup, the first nearly repeating the second. -/
def clash (v : Vision Frame View Pixel Thumb) (a b : Image Pixel) : Bool :=
  a.key = b.key ∧ v.mad (v.thumbnail a.tile) (v.thumbnail b.tile) < dupMad

/-- The thumbnails kept are those of the images written. -/
def Kept (v : Vision Frame View Pixel Thumb) (d : Dataset Pixel Thumb) : Prop :=
  ∀ key, d.kept key = (d.images.filter (·.key = key)).map fun image => v.thumbnail image.tile

def minable (source : Recording Frame × Entry) : Bool :=
  source.1.opened && 0 < source.1.fps && !source.1.frames.isEmpty

section

variable {v : Vision Frame View Pixel Thumb} {stepS : ℚ} {d : Dataset Pixel Thumb} {r : Recording Frame} {entry : Entry}
  {a b : Image Pixel} {key : List Char} {images : List (Image Pixel)} {entries : List Char → Option Entry}

private theorem nearDuplicate_eq (h : Kept v d) (ha : a.key = key) :
    nearDuplicate v (v.thumbnail a.tile) (d.kept key) = d.images.any (clash v a) := by
  rw [nearDuplicate, h key, List.any_map, List.any_filter]
  refine List.any_congr rfl fun b => ?_
  simp only [clash, Function.comp_apply, ha, eq_comm (a := key), Bool.decide_and]

private theorem images_offer (h : Kept v d) (ha : a.key = key) :
    (offer v key d a).images = choose (clash v) d.images [a] := by
  rw [offer, nearDuplicate_eq h ha, choose, choose, choose]
  split_ifs <;> rfl

private theorem kept_offer (h : Kept v d) (ha : a.key = key) : Kept v (offer v key d a) := by
  intro other
  unfold offer
  dsimp only
  split_ifs
  · exact h other
  · rw [List.filter_append, List.map_append, ← h other]
    by_cases hother : key = other
    · subst hother
      change Function.update d.kept key _ key = _
      rw [Function.update_self, List.filter_cons_of_pos (by simpa using ha)]
      rfl
    · change Function.update d.kept key _ other = _
      rw [Function.update_of_ne (Ne.symm hother), List.filter_cons_of_neg (by simpa [ha] using hother)]
      exact (List.append_nil _).symm

private theorem choose_cons (chosen : List (Image Pixel)) (a : Image Pixel) (images : List (Image Pixel)) :
    choose (clash v) chosen (a :: images) = choose (clash v) (choose (clash v) chosen [a]) images :=
  choose_append [a] images

private theorem foldl_offer (h : Kept v d) (himages : ∀ a ∈ images, a.key = key) :
    Kept v (images.foldl (offer v key) d) ∧
      (images.foldl (offer v key) d).images = choose (clash v) d.images images := by
  induction images generalizing d with
  | nil => exact ⟨h, rfl⟩
  | cons a images ih =>
    have ha := himages a List.mem_cons_self
    obtain ⟨hkept, heq⟩ := ih (kept_offer h ha) fun b hb => himages b (List.mem_cons_of_mem _ hb)
    refine ⟨hkept, ?_⟩
    rw [List.foldl_cons, heq, images_offer h ha]
    exact (choose_cons d.images a images).symm

private theorem key_image (index : ℕ) (canvas : Canvas Pixel) (t : Tile) :
    (image v r entry index canvas t).key = setup r entry := rfl

private theorem mineFrames_spec (h : Kept v d) (index : ℕ) (last : Option View) (frames : List Frame) :
    Kept v (mineFrames v stepS r entry index last d frames) ∧ (mineFrames v stepS r entry index last d frames).images =
      choose (clash v) d.images (offeredFrom v stepS r entry index last frames) := by
  induction frames generalizing d index last with
  | nil => exact ⟨h, rfl⟩
  | cons frame frames ih =>
    rw [mineFrames, offeredFrom]
    dsimp only
    cases (track v last (index % sampleStep r.fps stepS = 0) frame).2 with
    | none => exact ih h _ _
    | some view =>
      have hkeys : ∀ a ∈ framed v r entry index view frame, a.key = setup r entry := by
        intro a ha
        obtain ⟨t, -, rfl⟩ := List.mem_map.mp ha
        exact key_image index _ t
      obtain ⟨hkept, heq⟩ := foldl_offer h hkeys
      obtain ⟨hkept', heq'⟩ := ih hkept (index + 1) (track v last (index % sampleStep r.fps stepS = 0) frame).1
      refine ⟨hkept', ?_⟩
      rw [Option.toList_some, List.flatMap_singleton, choose_append, ← heq]
      exact heq'

private theorem mine_spec (stepS : ℚ) (h : Kept v d) (source : Recording Frame × Entry) :
    if minable source then
      (mine v stepS source.1 source.2 d).1 = none ∧ Kept v (mine v stepS source.1 source.2 d).2 ∧
        (mine v stepS source.1 source.2 d).2.images = choose (clash v) d.images (offered v stepS source)
    else ∃ failure, mine v stepS source.1 source.2 d = (some failure, d) := by
  obtain ⟨r, entry⟩ := source
  unfold mine minable
  by_cases hopen : ¬r.opened ∨ r.fps ≤ 0
  · have hnot : ¬(r.opened && 0 < r.fps && !r.frames.isEmpty) := by
      rcases hopen with hopen | hfps
      · simp [hopen]
      · simp [not_lt.mpr hfps]
    rw [if_neg hnot, if_pos hopen]
    exact ⟨_, rfl⟩
  · by_cases hframes : r.frames = []
    · rw [if_neg (by simp [hframes]), if_neg hopen, if_pos hframes]
      exact ⟨_, rfl⟩
    · obtain ⟨hopened, hfps⟩ := not_or.mp hopen
      have hyes : r.opened && 0 < r.fps && !r.frames.isEmpty := by
        simp only [Bool.and_eq_true, decide_eq_true_eq, Bool.not_eq_true', List.isEmpty_eq_false_iff]
        exact ⟨⟨not_not.mp hopened, not_le.mp hfps⟩, hframes⟩
      rw [if_pos hyes, if_neg hopen, if_neg hframes]
      exact ⟨rfl, mineFrames_spec h 0 none r.frames⟩

/-- The recordings up to the first that cannot be mined. -/
theorem mineAll_spec (h : Kept v d) (sources : List (Recording Frame × Entry)) :
    (mineAll v stepS d sources).2.images =
        choose (clash v) d.images ((sources.takeWhile minable).flatMap (offered v stepS)) ∧
      ((mineAll v stepS d sources).1 = none → sources.takeWhile minable = sources) := by
  induction sources generalizing d with
  | nil => exact ⟨rfl, fun _ => rfl⟩
  | cons source sources ih =>
    have hmine := mine_spec stepS h source
    rw [mineAll]
    split_ifs at hmine with hminable
    · obtain ⟨hnone, hkept, himages⟩ := hmine
      obtain ⟨heq, hall⟩ := ih hkept
      have hresult : mine v stepS source.1 source.2 d = (none, (mine v stepS source.1 source.2 d).2) :=
        Prod.ext hnone rfl
      rw [hresult, List.takeWhile_cons_of_pos hminable, List.flatMap_cons, choose_append, ← himages]
      exact ⟨heq, fun hfine => congrArg (source :: ·) (hall hfine)⟩
    · obtain ⟨failure, heq⟩ := hmine
      rw [heq, List.takeWhile_cons_of_neg hminable]
      exact ⟨rfl, nofun⟩

theorem sources_spec (entries : List Char → Option Entry) (recordings : List (Recording Frame)) :
    (∃ r ∈ recordings, source entries r = none) ∧ (∃ failure, sources entries recordings = .error failure) ∨
      ∃ found, sources entries recordings = .ok found ∧
        List.Forall₂ (fun r s => s.1 = r ∧ source entries r = some s.2) recordings found := by
  induction recordings with
  | nil => exact .inr ⟨[], rfl, .nil⟩
  | cons r recordings ih =>
    rw [sources]
    cases hsource : source entries r with
    | none => exact .inl ⟨⟨r, List.mem_cons_self, hsource⟩, _, rfl⟩
    | some entry =>
      dsimp only
      rcases ih with ⟨⟨r', hr', hnone⟩, failure, hfailure⟩ | ⟨found, hfound, hall⟩
      · exact .inl ⟨⟨r', List.mem_cons_of_mem _ hr', hnone⟩, failure, by rw [hfailure]; rfl⟩
      · exact .inr ⟨(r, entry) :: found, by rw [hfound]; rfl, .cons ⟨rfl, hsource⟩ hall⟩

theorem mem_offeredFrom {index : ℕ} {last : Option View} {frames : List Frame}
    (h : a ∈ offeredFrom v stepS r entry index last frames) :
    ∃ i view frame t, frames[i]? = some frame ∧ (index + i) % sampleStep r.fps stepS = 0 ∧
      t ∈ pickTiles (v.canvas view frame) tilePx minGround ∧
      a = image v r entry (index + i) (v.canvas view frame) t := by
  induction frames generalizing index last with
  | nil => exact absurd h List.not_mem_nil
  | cons frame frames ih =>
    rw [offeredFrom] at h
    rcases List.mem_append.mp h with h | h
    · obtain ⟨view, hview, ha⟩ := List.mem_flatMap.mp h
      obtain ⟨t, ht, rfl⟩ := List.mem_map.mp ha
      refine ⟨0, view, frame, t, rfl, ?_, ht, rfl⟩
      have hsampled := track_sampled (Option.mem_toList.mp hview)
      exact of_decide_eq_true hsampled
    · obtain ⟨i, view, frame', t, hframe, hstep, ht, rfl⟩ := ih h
      exact ⟨i + 1, view, frame', t, hframe, by rwa [add_comm i, ← add_assoc], ht, by rw [add_comm i, ← add_assoc]⟩

theorem exists_source {recordings : List (Recording Frame)} {found : List (Recording Frame × Entry)}
    (h : List.Forall₂ (fun r s => s.1 = r ∧ source entries r = some s.2) recordings found) :
    (∀ r ∈ recordings, ∃ entry, source entries r = some entry ∧ (r, entry) ∈ found) ∧
      ∀ s ∈ found, s.1 ∈ recordings ∧ source entries s.1 = some s.2 := by
  induction h with
  | nil => exact ⟨nofun, nofun⟩
  | @cons r s recordings found hs hrest ih =>
    obtain ⟨rfl, hsource⟩ := hs
    constructor
    · intro r' hr'
      rcases List.mem_cons.mp hr' with rfl | hr'
      · exact ⟨s.2, hsource, List.mem_cons_self⟩
      · obtain ⟨entry, heq, hmem⟩ := ih.1 r' hr'
        exact ⟨entry, heq, List.mem_cons_of_mem _ hmem⟩
    · intro s' hs'
      rcases List.mem_cons.mp hs' with rfl | hs'
      · exact ⟨List.mem_cons_self, hsource⟩
      · exact ⟨List.mem_cons_of_mem _ (ih.2 s' hs').1, (ih.2 s' hs').2⟩

theorem kept_empty (v : Vision Frame View Pixel Thumb) : Kept v ({} : Dataset Pixel Thumb) := fun _ => rfl

/-- Whatever recordings are mined, and wherever mining stops: nothing is written if one of them is refused; images of
one Capture Setup differ by `DUP_MAD`; each is a picked tile of a sampled frame of one of them; and when all have been
mined, each tile picked is written or nearly repeats one written of its Capture Setup. -/
theorem negatives_distinct (v : Vision Frame View Pixel Thumb) (stepS : ℚ) (entries : List Char → Option Entry)
    (recordings : List (Recording Frame)) :
    let result := run v stepS entries recordings
    ((∃ r ∈ recordings, source entries r = none) → result.2.images = []) ∧
    result.2.images.Pairwise (fun a b => b.key = a.key →
      dupMad ≤ v.mad (v.thumbnail b.tile) (v.thumbnail a.tile)) ∧
    (∀ a ∈ result.2.images, ∃ r ∈ recordings, ∃ entry, source entries r = some entry ∧ ∃ i view frame t,
      r.frames[i]? = some frame ∧ i % sampleStep r.fps stepS = 0 ∧ t ∈ pickTiles (v.canvas view frame) tilePx minGround ∧
      a = image v r entry i (v.canvas view frame) t) ∧
    (result.1 = none → ∀ r ∈ recordings, ∀ entry, source entries r = some entry → ∀ a ∈ offered v stepS (r, entry),
      a ∈ result.2.images ∨ ∃ b ∈ result.2.images, a.key = b.key ∧
        v.mad (v.thumbnail a.tile) (v.thumbnail b.tile) < dupMad) := by
  rcases sources_spec entries recordings with ⟨-, failure, hfailure⟩ | ⟨found, hfound, hall⟩
  · have hrun : run v stepS entries recordings = (some failure, {}) := by rw [run, hfailure]
    rw [hrun]
    exact ⟨fun _ => rfl, List.Pairwise.nil, nofun, nofun⟩
  · have hrun : run v stepS entries recordings = mineAll v stepS {} found := by rw [run, hfound]
    obtain ⟨himages, hfine⟩ := mineAll_spec (kept_empty v) found
    obtain ⟨hrecordings, hsources⟩ := exists_source hall
    rw [hrun]
    dsimp only
    rw [himages]
    refine ⟨?_, ?_, ?_, ?_⟩
    · rintro ⟨r, hr, hnone⟩
      obtain ⟨entry, hsome, -⟩ := hrecordings r hr
      rw [hnone] at hsome
      exact absurd hsome (by simp)
    · refine (choose_pairwise List.Pairwise.nil _).imp fun {a b} hclash hkey => ?_
      simp only [clash, Bool.decide_and, Bool.and_eq_true, decide_eq_true_eq, not_and, not_lt] at hclash
      exact hclash hkey
    · intro a ha
      obtain ⟨more, heq, hsub⟩ := choose_eq_append [] ((found.takeWhile minable).flatMap (offered v stepS))
      rw [heq, List.nil_append] at ha
      obtain ⟨s, hs, hoffered⟩ := List.mem_flatMap.mp (hsub.subset ha)
      obtain ⟨hmem, hsource⟩ := hsources s (List.takeWhile_subset _ hs)
      obtain ⟨i, view, frame, t, hframe, hstep, ht, ha⟩ := mem_offeredFrom hoffered
      rw [zero_add] at hstep ha
      exact ⟨s.1, hmem, s.2, hsource, i, view, frame, t, hframe, hstep, ht, ha⟩
    · intro hnone r hr entry hentry a ha
      obtain ⟨entry', hentry', hmem⟩ := hrecordings r hr
      obtain rfl := Option.some_inj.mp (hentry.symm.trans hentry')
      have hcandidate : a ∈ (found.takeWhile minable).flatMap (offered v stepS) := by
        rw [hfine hnone]
        exact List.mem_flatMap.mpr ⟨_, hmem, ha⟩
      have htrue : ((found.takeWhile minable).flatMap (offered v stepS)).Pairwise fun _ _ => True :=
        List.pairwise_of_forall fun _ _ => trivial
      rcases choose_maximal (fun _ hb => absurd hb List.not_mem_nil) htrue hcandidate with hchosen | ⟨b, hb, hclash, -⟩
      · exact .inl hchosen
      · simp only [clash, Bool.decide_and, Bool.and_eq_true, decide_eq_true_eq] at hclash
        exact .inr ⟨b, hb, hclash⟩

private theorem notMem_of_digits {c : Char} (hc : ¬c.isDigit) {l : List Char} (h : Digits l) : c ∉ l :=
  fun hmem => hc (h c hmem)

theorem append_eq_of_sep {sep : Char} {head head' tail tail' : List Char} (h : sep ∉ tail) (h' : sep ∉ tail')
    (heq : head ++ sep :: tail = head' ++ sep :: tail') : head = head' ∧ tail = tail' := by
  have hparts : rpartition sep (head ++ sep :: tail) = rpartition sep (head' ++ sep :: tail') := by rw [heq]
  rw [rpartition_append head h, rpartition_append head' h'] at hparts
  exact Prod.mk.inj hparts

theorem name_inj {r' : Recording Frame} {index index' x x' y y' : ℕ} (h : name r index x y = name r' index' x' y') :
    lead r = lead r' ∧ index = index' ∧ x = x' ∧ y = y' := by
  have hsep : ∀ c l, c ≠ '_' → Digits l → '_' ∉ c :: l := by
    intro c l hc hl hmem
    rcases List.mem_cons.mp hmem with heq | hmem
    · exact hc heq.symm
    · exact notMem_of_digits (by decide) hl hmem
  have hy : ∀ n, '_' ∉ 'y' :: Nat.toDigits 10 n := fun n => hsep _ _ (by decide) (digits_toDigits n)
  have hx : ∀ n, '_' ∉ 'x' :: Nat.toDigits 10 n := fun n => hsep _ _ (by decide) (digits_toDigits n)
  have hf : ∀ n, '_' ∉ 'f' :: zeroPadded 5 n := fun n => hsep _ _ (by decide) (digits_zeroPadded 5 n)
  obtain ⟨h, hy⟩ := append_eq_of_sep (hy y) (hy y') h
  obtain ⟨h, hx⟩ := append_eq_of_sep (hx x) (hx x') h
  obtain ⟨h, hf⟩ := append_eq_of_sep (hf index) (hf index') h
  have hvalue : ∀ {m n : ℕ}, Nat.toDigits 10 m = Nat.toDigits 10 n → m = n := fun {m n} heq => by
    rw [← valueOf_toDigits m, heq, valueOf_toDigits]
  refine ⟨h, ?_, hvalue (List.cons.inj hx).2, hvalue (List.cons.inj hy).2⟩
  rw [← valueOf_zeroPadded 5 index, (List.cons.inj hf).2, valueOf_zeroPadded]

theorem name_ne (h : a.row.image = b.row.image) {r' : Recording Frame} {entry' : Entry} {index index' : ℕ}
    {canvas canvas' : Canvas Pixel} {t t' : Tile} (ha : a = image v r entry index canvas t)
    (hb : b = image v r' entry' index' canvas' t') :
    lead r = lead r' ∧ index = index' ∧ t.x = t'.x ∧ t.y = t'.y := by
  subst ha hb
  exact name_inj (List.append_cancel_right h)

private theorem framed_names (index : ℕ) (view : View) (frame : Frame) :
    (framed v r entry index view frame).Pairwise fun a b => a.row.image ≠ b.row.image := by
  refine List.pairwise_map.mpr ((picks_apart _ tilePx (by norm_num [minGround])).imp fun {s t} hplace heq => hplace ?_)
  exact (name_ne heq rfl rfl).2.2

private theorem offeredFrom_names (index : ℕ) (last : Option View) (frames : List Frame) :
    (offeredFrom v stepS r entry index last frames).Pairwise fun a b => a.row.image ≠ b.row.image := by
  induction frames generalizing index last with
  | nil => exact List.Pairwise.nil
  | cons frame frames ih =>
    rw [offeredFrom]
    refine List.pairwise_append.mpr ⟨?_, ih _ _, fun a ha b hb heq => ?_⟩
    · cases (track v last (index % sampleStep r.fps stepS = 0) frame).2 with
      | none => exact List.Pairwise.nil
      | some view =>
        rw [Option.toList_some, List.flatMap_singleton]
        exact framed_names index view frame
    · obtain ⟨view, -, ha⟩ := List.mem_flatMap.mp ha
      obtain ⟨s, -, rfl⟩ := List.mem_map.mp ha
      obtain ⟨i, view', frame', t, -, -, -, hb⟩ := mem_offeredFrom hb
      have hindex := (name_ne heq rfl hb).2.1
      omega

/-- The same frames offer the same tiles under one Capture Setup, whatever they are called. -/
theorem offeredFrom_same {r' : Recording Frame} {entry' : Entry} (hfps : r.fps = r'.fps)
    (hsetup : setup r entry = setup r' entry') (index : ℕ) (last : Option View) (frames : List Frame) :
    (offeredFrom v stepS r entry index last frames).map (fun a => (a.key, a.tile)) =
      (offeredFrom v stepS r' entry' index last frames).map fun a => (a.key, a.tile) := by
  induction frames generalizing index last with
  | nil => rfl
  | cons frame frames ih =>
    rw [offeredFrom, offeredFrom, hfps, List.map_append, List.map_append, ih]
    refine congrArg (· ++ _) ?_
    cases (track v last (index % sampleStep r'.fps stepS = 0) frame).2 with
    | none => rfl
    | some view =>
      rw [Option.toList_some, List.flatMap_singleton, List.flatMap_singleton, framed, framed, List.map_map,
        List.map_map]
      refine List.map_congr_left fun t _ => ?_
      exact Prod.ext hsetup rfl

private theorem clash_congr {a' : Image Pixel} (hkey : a.key = a'.key) (htile : a.tile = a'.tile) (b : Image Pixel) :
    clash v a b = clash v a' b := by
  rw [clash, clash, hkey, htile]

/-- What holds after the recordings done. -/
structure Named (v : Vision Frame View Pixel Thumb) (stepS : ℚ) (finished : List (Recording Frame × Entry))
    (images : List (Image Pixel)) : Prop where
  names : images.Pairwise fun a b => a.row.image ≠ b.row.image
  offered : ∀ a ∈ images, ∃ s ∈ finished, a ∈ offered v stepS s
  clashes : ∀ s ∈ finished, ∀ a ∈ MinedNegatives.offered v stepS s, ∃ b ∈ images, clash v a b

private theorem exists_clash (hself : ∀ thumb, v.mad thumb thumb < dupMad) (images offered : List (Image Pixel))
    (h : a ∈ offered) : ∃ b ∈ choose (clash v) images offered, clash v a b := by
  have htrue : offered.Pairwise fun _ _ => True := List.pairwise_of_forall fun _ _ => trivial
  rcases choose_maximal (fun _ _ _ _ => trivial) htrue h with hchosen | ⟨b, hb, hclash, -⟩
  · exact ⟨a, hchosen, decide_eq_true ⟨rfl, hself _⟩⟩
  · exact ⟨b, hb, hclash⟩

/-- A recording under the names of one done before offers nothing new; another has names of its own. -/
theorem named_choose {finished : List (Recording Frame × Entry)} (hself : ∀ thumb, v.mad thumb thumb < dupMad)
    (h : Named v stepS finished images) {s : Recording Frame × Entry}
    (hsame : ∀ s' ∈ finished, lead s'.1 = lead s.1 →
      setup s.1 s.2 = setup s'.1 s'.2 ∧ s.1.fps = s'.1.fps ∧ s.1.frames = s'.1.frames) :
    Named v stepS (finished ++ [s]) (choose (clash v) images (offered v stepS s)) := by
  obtain ⟨more, heq, hsub⟩ : ∃ more, choose (clash v) images (offered v stepS s) = images ++ more ∧
      more.Sublist (offered v stepS s) := choose_eq_append images (offered v stepS s)
  refine ⟨?_, ?_, ?_⟩
  · by_cases hold : ∃ s' ∈ finished, lead s'.1 = lead s.1
    · obtain ⟨s', hs', hlead⟩ := hold
      obtain ⟨hsetup, hfps, hframes⟩ := hsame s' hs' hlead
      have hoffered : (offered v stepS s).map (fun a => (a.key, a.tile)) =
          (offered v stepS s').map fun a => (a.key, a.tile) := by
        rw [offered, offered, hframes]
        exact offeredFrom_same hfps hsetup 0 none s'.1.frames
      have hall : ∀ a ∈ offered v stepS s, ∃ b ∈ images, clash v a b := by
        intro a ha
        have hmem : (a.key, a.tile) ∈ (offered v stepS s).map fun a => (a.key, a.tile) :=
          List.mem_map.mpr ⟨a, ha, rfl⟩
        rw [hoffered] at hmem
        obtain ⟨a', ha', hpair⟩ := List.mem_map.mp hmem
        obtain ⟨hkey, htile⟩ := Prod.mk.inj hpair
        obtain ⟨b, hb, hclash⟩ := h.clashes s' hs' a' ha'
        exact ⟨b, hb, by rw [clash_congr hkey.symm htile.symm, hclash]⟩
      rw [choose_of_all hall]
      exact h.names
    · rw [heq]
      refine List.pairwise_append.mpr ⟨h.names, (offeredFrom_names 0 none s.1.frames).sublist hsub, ?_⟩
      intro a ha b hb hname
      obtain ⟨s', hs', ha⟩ := h.offered a ha
      obtain ⟨_, _, _, _, -, -, -, ha⟩ := mem_offeredFrom ha
      obtain ⟨_, _, _, _, -, -, -, hb⟩ := mem_offeredFrom (hsub.subset hb)
      exact hold ⟨s', hs', (name_ne hname ha hb).1⟩
  · intro a ha
    rw [heq] at ha
    rcases List.mem_append.mp ha with ha | ha
    · obtain ⟨s', hs', ha⟩ := h.offered a ha
      exact ⟨s', List.mem_append_left _ hs', ha⟩
    · exact ⟨s, List.mem_append_right _ List.mem_cons_self, hsub.subset ha⟩
  · intro s' hs' a ha
    rcases List.mem_append.mp hs' with hs' | hs'
    · obtain ⟨b, hb, hclash⟩ := h.clashes s' hs' a ha
      exact ⟨b, chosen_subset _ _ hb, hclash⟩
    · rw [List.mem_singleton.mp hs'] at ha
      exact exists_clash hself images _ ha

private theorem setup_of_source {r' : Recording Frame} {entry' : Entry} (h : source entries r = some entry)
    (h' : source entries r' = some entry') (hsha : r.sha = r'.sha) : setup r entry = setup r' entry' := by
  unfold source at h h'
  rw [hsha] at h
  rw [setup, setup, hsha]
  cases hentry : entries r'.sha with
  | none =>
    rw [hentry] at h h'
    rw [← Option.some_inj.mp h, ← Option.some_inj.mp h']
  | some listed =>
    rw [hentry] at h h'
    rw [Option.some_inj.mp (h.symm.trans h')]

theorem named_flatMap {finished found : List (Recording Frame × Entry)} (hself : ∀ thumb, v.mad thumb thumb < dupMad)
    (h : Named v stepS finished images)
    (hsame : ∀ s ∈ finished ++ found, ∀ s' ∈ finished ++ found, lead s'.1 = lead s.1 →
      setup s.1 s.2 = setup s'.1 s'.2 ∧ s.1.fps = s'.1.fps ∧ s.1.frames = s'.1.frames) :
    Named v stepS (finished ++ found) (choose (clash v) images (found.flatMap (offered v stepS))) := by
  induction found generalizing finished images with
  | nil => rwa [List.append_nil]
  | cons s found ih =>
    rw [List.flatMap_cons, choose_append, List.append_cons]
    rw [List.append_cons] at hsame
    refine ih (named_choose hself h fun s' hs' => hsame s (by simp) s' (by simp [hs'])) hsame

/-- No image is written over another, a recording given twice under one name included: the names are of a recording's
own, as its hash is, and a recording's second turn repeats all that its first one wrote. -/
theorem images_kept (v : Vision Frame View Pixel Thumb) (stepS : ℚ) (entries : List Char → Option Entry)
    (recordings : List (Recording Frame)) (hself : ∀ thumb, v.mad thumb thumb < dupMad)
    (hsame : ∀ r ∈ recordings, ∀ r' ∈ recordings, lead r' = lead r →
      r.sha = r'.sha ∧ r.fps = r'.fps ∧ r.frames = r'.frames) :
    ((run v stepS entries recordings).2.images.map (·.row.image)).Nodup := by
  rcases sources_spec entries recordings with ⟨-, failure, hfailure⟩ | ⟨found, hfound, hall⟩
  · rw [run, hfailure]
    exact List.nodup_nil
  · obtain ⟨himages, -⟩ := mineAll_spec (kept_empty v) found
    obtain ⟨-, hsources⟩ := exists_source hall
    have hstart : Named v stepS [] [] := ⟨List.Pairwise.nil, nofun, nofun⟩
    have hnamed : Named v stepS ([] ++ found.takeWhile minable) (choose (clash v) []
        ((found.takeWhile minable).flatMap (offered v stepS))) := named_flatMap hself hstart fun s hs s' hs' hlead => by
      obtain ⟨hmem, hsource⟩ := hsources s (List.takeWhile_subset _ hs)
      obtain ⟨hmem', hsource'⟩ := hsources s' (List.takeWhile_subset _ hs')
      obtain ⟨hsha, hfps, hframes⟩ := hsame s.1 hmem s'.1 hmem' hlead
      exact ⟨setup_of_source hsource hsource' hsha, hfps, hframes⟩
    rw [run, hfound]
    dsimp only
    rw [himages]
    exact List.pairwise_map.mpr hnamed.names

/-- One recording given twice. -/
theorem images_kept_twice :
    let v : Vision Unit Unit Bool Bool :=
      { buildView := fun _ => some ((), 1)
        findTargets := fun _ => true
        trackView := fun _ _ => some ((), 1)
        canvasSize := fun _ => (1, 1)
        canvas := fun _ _ => ⟨1, 1, fun _ _ => true, fun _ _ => true⟩
        black := false
        thumbnail := fun tile => tile 0 0
        mad := fun a b => if a = b then 0 else 9 }
    let r : Recording Unit := ⟨"a.mkv".toList, ['a'], "0f".toList, true, 25, [(), ()]⟩
    ((run v 1 (fun _ => none) [r, r]).2.images.map (·.row.image)).Nodup := by
  intro v r
  have hself : ∀ thumb, v.mad thumb thumb < dupMad := fun thumb => by
    change (if thumb = thumb then (0 : ℚ) else 9) < 6
    rw [if_pos rfl]
    norm_num
  have hone : ∀ r' ∈ [r, r], r' = r := fun r' hr' => by simpa using hr'
  refine images_kept v 1 (fun _ => none) [r, r] hself fun r₁ hr₁ r₂ hr₂ _ => ?_
  rw [hone r₁ hr₁, hone r₂ hr₂]
  exact ⟨rfl, rfl, rfl⟩

end

end Kanat.MinedNegatives
