import KFaceAuth.Lib.Checked
import KFaceAuth.Worker.VisionSession
import Mathlib.Algebra.Order.Ring.Nat

/-!
# Pixels

The vision worker goes through the pixels of an image twice: for the quality of
the image (`calculateQuality`), and to convert it for the detector
(`convertToBgr`). Each access to the bytes, each conversion to a smaller integer
and each sum is checked in the model, as in the code, and stops with a panic
where the check fails.

* `pixels_safe`: on an image that was accepted, both stop only where the control
  says so; the flags of the quality pass the check of the analysis; and the
  output has the pixels of the image, and zero around them.
-/

namespace KFaceAuth

namespace Vision

/-- How a function stops before its end. -/
inductive Stop
  | panic
  | error (error : VisionError)
  deriving DecidableEq, Repr

/-- `ProcessingControl::check`, by the number of the check: whether it is
    cancelled or late by then. -/
abbrev Control := ℕ → Option VisionError

def Control.check (control : Control) (k : ℕ) : Except Stop Unit :=
  match control k with
  | none => .ok ()
  | some error => .error (.error error)

/-! ## Operations that panic -/

/-- A sum or product of 64-bit numbers. -/
def word (n : ℕ) : Except Stop ℕ := if n < 2 ^ 64 then .ok n else .error .panic

/-- `u8::try_from(n).expect(..)` -/
def expectByte (n : ℕ) : Except Stop UInt8 := if n < 256 then .ok n.toUInt8 else .error .panic

/-- `bytes[i]` -/
def index (bytes : List UInt8) (i : ℕ) : Except Stop UInt8 :=
  match bytes[i]? with
  | some byte => .ok byte
  | none => .error .panic

/-- `&bytes[offset..]` -/
def sliceFrom (bytes : List UInt8) (offset : ℕ) : Except Stop (List UInt8) :=
  if offset ≤ bytes.length then .ok (bytes.drop offset) else .error .panic

/-- `bytes[i] = value` -/
def store (bytes : List UInt8) (i : ℕ) (value : UInt8) : Except Stop (List UInt8) :=
  if i < bytes.length then .ok (bytes.set i value) else .error .panic

/-- `bytes[i..i + 3].fill(value)` -/
def fill3 (bytes : List UInt8) (i : ℕ) (value : UInt8) : Except Stop (List UInt8) :=
  if i + 3 ≤ bytes.length then
    .ok (((bytes.set i value).set (i + 1) value).set (i + 2) value)
  else .error .panic

/-- `a / b` -/
def divide (a b : ℕ) : Except Stop ℕ := if b = 0 then .error .panic else .ok (a / b)

/-- `a - b` -/
def subtract (a b : UInt8) : Except Stop UInt8 := if a < b then .error .panic else .ok (a - b)

/-- `checked_mul` and `checked_add`, with `ok_or(InvalidRuntimeOutput)`. -/
def checked (n : ℕ) : Except Stop ℕ :=
  if n < 2 ^ 64 then .ok n else .error (.error .invalidRuntimeOutput)

/-! ## The quality of an image -/

/-- `pixel_luma` -/
def pixelLuma (format : PixelFormat) (bytes : List UInt8) : Except Stop UInt8 :=
  match format with
  | .rgb8 | .rgba8 => do
    let red ← index bytes 0
    let green ← index bytes 1
    let blue ← index bytes 2
    let weighted := red.toNat * 77 + green.toNat * 150 + blue.toNat * 29
    expectByte (weighted >>> 8)
  | .gray8 => index bytes 0

/-- What `calculate_quality` adds up over the pixels. -/
structure Sums where
  sum : ℕ
  minimum : UInt8
  maximum : UInt8
  differenceSum : ℕ
  differenceCount : ℕ

/-- `u8::abs_diff` -/
def absDiff (a b : UInt8) : UInt8 := if a < b then b - a else a - b

/-- One pass of the loop over the pixels of a row. -/
def addPixel (image : ImageView) (row : ℕ) (state : Sums × Option UInt8) (x : ℕ) :
    Except Stop (Sums × Option UInt8) := do
  let offset ← word (row + x * image.format.bytesPerPixel)
  let luma ← pixelLuma image.format (← sliceFrom image.bytes offset)
  let sums := state.1
  let sum ← word (sums.sum + luma.toNat)
  let sums := { sums with
    sum, minimum := min sums.minimum luma, maximum := max sums.maximum luma }
  match state.2 with
  | none => pure (sums, some luma)
  | some previous =>
    let differenceSum ← word (sums.differenceSum + (absDiff luma previous).toNat)
    let differenceCount ← word (sums.differenceCount + 1)
    pure ({ sums with differenceSum, differenceCount }, some luma)

/-- One pass of the loop over the rows. -/
def addRow (image : ImageView) (control : Control) (sums : Sums) (y : ℕ) : Except Stop Sums := do
  control.check y
  let row ← word (y * image.stride)
  let state ← (List.range image.width).foldlM (addPixel image row) (sums, none)
  pure state.1

/-- The sharpness: `checked_div` is `None` on zero. -/
def averageDifference (sums : Sums) : Except Stop UInt8 :=
  if sums.differenceCount = 0 then .ok 0
  else expectByte (sums.differenceSum / sums.differenceCount)

/-- `calculate_quality`, on 64-bit numbers. -/
def calculateQuality (image : ImageView) (control : Control) : Except Stop QualityMetrics := do
  let sums ← (List.range image.height).foldlM (addRow image control)
    { sum := 0, minimum := 255, maximum := 0, differenceSum := 0, differenceCount := 0 }
  control.check image.height
  let pixels ← word (image.width * image.height)
  let brightness ← expectByte (← divide sums.sum pixels)
  let contrast ← subtract sums.maximum sums.minimum
  let sharpness ← averageDifference sums
  let flags := (if brightness < 20 then qualityTooDark else 0) |||
    (if brightness > 220 then qualityTooBright else 0) |||
    (if contrast < 16 then qualityLowContrast else 0) |||
    (if sharpness < 1 then qualityLowSharpness else 0)
  pure { brightness, contrast, sharpness, flags }

/-! ## The input of the detector -/

/-- `YUNET_MINIMUM_RUNTIME_DIMENSION` -/
def minimumRuntimeDimension : ℕ := 64

structure RuntimeInput where
  bytes : List UInt8
  width : ℕ
  height : ℕ
  deriving DecidableEq, Repr

/-- The assignments for a pixel with colours. -/
def storeColours (bytes output : List UInt8) (source target : ℕ) : Except Stop (List UInt8) := do
  let output ← store output target (← index bytes (← word (source + 2)))
  let output ← store output (← word (target + 1)) (← index bytes (← word (source + 1)))
  store output (← word (target + 2)) (← index bytes source)

/-- One pass of the loop over the pixels of a row in `convert_to_bgr`. -/
def convertPixel (image : ImageView) (sourceRow outputRow : ℕ) (output : List UInt8) (x : ℕ) :
    Except Stop (List UInt8) := do
  let source ← checked (sourceRow + (← checked (x * image.format.bytesPerPixel)))
  let target ← checked (outputRow + (← checked (x * 3)))
  match image.format with
  | .rgb8 | .rgba8 => storeColours image.bytes output source target
  | .gray8 =>
    let value ← index image.bytes source
    fill3 output target value

/-- One pass of the loop over the rows in `convert_to_bgr`. -/
def convertRow (image : ImageView) (control : Control) (runtimeWidth : ℕ) (output : List UInt8)
    (y : ℕ) : Except Stop (List UInt8) := do
  control.check y
  let sourceRow ← checked (y * image.stride)
  let outputRow ← checked ((← checked (y * runtimeWidth)) * 3)
  (List.range image.width).foldlM (convertPixel image sourceRow outputRow) output

/-- `convert_to_bgr`, on 64-bit numbers. -/
def convertToBgr (image : ImageView) (control : Control) : Except Stop RuntimeInput := do
  let runtimeWidth := max image.width minimumRuntimeDimension
  let runtimeHeight := max image.height minimumRuntimeDimension
  let pixels ← checked (runtimeWidth * runtimeHeight)
  let outputSize ← checked (pixels * 3)
  let output ← (List.range image.height).foldlM (convertRow image control runtimeWidth)
    (List.replicate outputSize 0)
  pure { bytes := output, width := runtimeWidth, height := runtimeHeight }

/-! ## Bounds -/

/-- What `ImageView::new` checks. -/
structure Bounded (image : ImageView) : Prop where
  width : 0 < image.width ∧ image.width ≤ maxWidth
  height : 0 < image.height ∧ image.height ≤ maxHeight
  stride : image.width * image.format.bytesPerPixel ≤ image.stride
  length : image.bytes.length = image.stride * image.height
  size : image.stride * image.height ≤ maxFrameBytes

theorem bounded_of_new {format : PixelFormat} {width height stride : ℕ} {bytes : List UInt8}
    {image : ImageView} (h : ImageView.new format width height stride bytes = .ok image) :
    Bounded image := by
  unfold ImageView.new at h
  split_ifs at h with hdim _ hstride _ hsize hlen
  cases h
  exact ⟨by dsimp only; omega, by dsimp only; omega, Nat.not_lt.1 hstride, not_not.1 hlen,
    Nat.not_lt.1 hsize⟩

variable {image : ImageView} {control : Control}

/-- The last byte of a pixel is in the image. -/
theorem Bounded.offset_lt (h : Bounded image) {x y c : ℕ} (hx : x < image.width)
    (hy : y < image.height) (hc : c < image.format.bytesPerPixel) :
    y * image.stride + x * image.format.bytesPerPixel + c < image.bytes.length := by
  have hrow : (x + 1) * image.format.bytesPerPixel ≤ image.stride :=
    (Nat.mul_le_mul_right _ hx).trans h.stride
  have hrows : (y + 1) * image.stride ≤ image.height * image.stride := Nat.mul_le_mul_right _ hy
  rw [h.length, Nat.mul_comm image.stride]
  rw [Nat.add_mul, Nat.one_mul] at hrow hrows
  omega

theorem Bounded.length_lt (h : Bounded image) : image.bytes.length < 2 ^ 32 := by
  rw [h.length]
  exact h.size.trans_lt (by decide)

theorem Bounded.pixels_le (h : Bounded image) :
    image.width * image.height ≤ maxWidth * maxHeight :=
  Nat.mul_le_mul h.width.2 h.height.2

/-- The stop is one that the control asked for, by its check `n`. -/
def Asked (control : Control) (n : ℕ) (stop : Stop) : Prop :=
  ∃ k ≤ n, ∃ error, control k = some error ∧ stop = .error error

variable {E : Stop → Prop}

theorem meets_word {n : ℕ} (h : n < 2 ^ 64) : Meets E (· = n) (word n) := by
  rw [word, if_pos h]
  rfl

theorem meets_checked {n : ℕ} (h : n < 2 ^ 64) : Meets E (· = n) (checked n) := by
  rw [checked, if_pos h]
  rfl

theorem meets_expectByte {n : ℕ} (h : n < 256) : Meets E (·.toNat = n) (expectByte n) := by
  rw [expectByte, if_pos h]
  exact Nat.mod_eq_of_lt h

theorem meets_index {bytes : List UInt8} {i : ℕ} (h : i < bytes.length) :
    Meets E (· = bytes.getD i 0) (index bytes i) := by
  rw [index, List.getElem?_eq_getElem h]
  exact (List.getD_eq_getElem _ _ h).symm

theorem meets_store {bytes : List UInt8} {i : ℕ} (h : i < bytes.length) (value : UInt8) :
    Meets E (· = bytes.set i value) (store bytes i value) := by
  rw [store, if_pos h]
  rfl

theorem meets_check {n k : ℕ} (h : k ≤ n) :
    Meets (Asked control n) (fun _ => True) (control.check k) := by
  unfold Control.check
  cases hk : control k with
  | none => trivial
  | some error => exact ⟨k, h, error, hk, rfl⟩

/-! ## The quality is computed -/

theorem pixelLuma_meets {format : PixelFormat} {bytes : List UInt8}
    (h : format.bytesPerPixel ≤ bytes.length) :
    Meets E (fun _ => True) (pixelLuma format bytes) := by
  have hrgb : 3 ≤ bytes.length → Meets E (fun _ => True) (pixelLuma .rgb8 bytes) := fun h => by
    refine meets_bind (meets_index (by omega)) fun red _ => ?_
    refine meets_bind (meets_index (by omega)) fun green _ => ?_
    refine meets_bind (meets_index (by omega)) fun blue _ => ?_
    refine (meets_expectByte ?_).mono fun _ _ => trivial
    have hred := red.toNat_lt
    have hgreen := green.toNat_lt
    have hblue := blue.toNat_lt
    rw [Nat.shiftRight_eq_div_pow]
    omega
  cases format with
  | rgb8 => exact hrgb h
  | rgba8 => exact hrgb (Nat.le_of_succ_le h)
  | gray8 => exact (meets_index h).mono fun _ _ => trivial

/-- What the sums are bounded by after `n` pixels. -/
structure Sums.Bound (n : ℕ) (sums : Sums) : Prop where
  sum : sums.sum ≤ 255 * n
  count : sums.differenceCount ≤ n
  difference : sums.differenceSum ≤ 255 * sums.differenceCount
  order : 0 < n → sums.minimum ≤ sums.maximum

theorem min_le_max (a b c : UInt8) : min a c ≤ max b c := by
  rw [UInt8.le_iff_toNat_le]
  simp only [min, max, UInt8.le_iff_toNat_le]
  split_ifs <;> omega

theorem addPixel_meets (h : Bounded image) {x y : ℕ} (hx : x < image.width)
    (hy : y < image.height) {state : Sums × Option UInt8} {n : ℕ} (hn : n ≤ maxWidth * maxHeight)
    (hstate : state.1.Bound n) :
    Meets E (fun state => state.1.Bound (n + 1)) (addPixel image (y * image.stride) state x) := by
  have hsmall : maxWidth * maxHeight < 2 ^ 32 := by decide
  have hlength := h.length_lt
  have hpixel : 0 < image.format.bytesPerPixel := by cases image.format <;> decide
  have hlast := h.offset_lt hx hy (Nat.sub_lt hpixel Nat.one_pos)
  obtain ⟨hsum, hcount, hdiff, -⟩ := hstate
  refine meets_bind (meets_word (by omega)) fun offset hoffset => ?_
  refine meets_bind (P := fun bytes => image.format.bytesPerPixel ≤ bytes.length) ?_
    fun bytes hbytes => ?_
  · rw [sliceFrom, if_pos (by omega)]
    change _ ≤ (image.bytes.drop offset).length
    rw [List.length_drop]
    omega
  refine meets_bind (pixelLuma_meets hbytes) fun luma _ => ?_
  have hluma := luma.toNat_lt
  refine meets_bind (meets_word (by omega)) fun sum hsum' => ?_
  cases hprevious : state.2 with
  | none =>
    exact ⟨by dsimp only; omega, by dsimp only; omega, hdiff, fun _ => min_le_max _ _ _⟩
  | some previous =>
    have hbyte := (absDiff luma previous).toNat_lt
    refine meets_bind (meets_word (by dsimp only; omega)) fun differenceSum hds => ?_
    refine meets_bind (meets_word (by dsimp only; omega)) fun differenceCount hdc => ?_
    exact ⟨by dsimp only; omega, by dsimp only at hdc ⊢; omega, by dsimp only at hds hdc ⊢; omega,
      fun _ => min_le_max _ _ _⟩

theorem addRow_meets (h : Bounded image) {y : ℕ} (hy : y < image.height) {sums : Sums}
    (hsums : sums.Bound (y * image.width)) :
    Meets (Asked control image.height) (Sums.Bound ((y + 1) * image.width))
      (addRow image control sums y) := by
  have hpixels := h.pixels_le
  have hrow : (y + 1) * image.width ≤ image.width * image.height := by
    rw [Nat.mul_comm image.width]
    exact Nat.mul_le_mul_right _ hy
  have hstart : y * image.stride < 2 ^ 64 := by
    have := h.offset_lt h.width.1 hy (show 0 < image.format.bytesPerPixel by
      cases image.format <;> decide)
    have := h.length_lt
    omega
  rw [Nat.add_mul, Nat.one_mul] at hrow ⊢
  refine meets_bind (meets_check hy.le) fun _ _ => ?_
  refine meets_bind (meets_word hstart) fun row hrow' => ?_
  obtain rfl := hrow'
  refine meets_bind (P := fun state : Sums × Option UInt8 =>
    state.1.Bound (y * image.width + image.width)) ?_ fun state hstate => meets_pure hstate
  refine meets_range (I := fun x (state : Sums × Option UInt8) =>
    state.1.Bound (y * image.width + x)) hsums fun x hx state hstate => ?_
  exact addPixel_meets h hx hy (show y * image.width + x ≤ _ by omega) hstate

/-- The flags are known ones, and not those of a dark and of a bright image. -/
def FlagsOk (flags : UInt8) : Prop :=
  flags &&& ~~~(qualityTooDark ||| qualityTooBright ||| qualityLowContrast |||
    qualityLowSharpness) = 0 ∧ ¬ (flags &&& qualityTooDark ≠ 0 ∧ flags &&& qualityTooBright ≠ 0)

theorem flagsOk (brightness contrast sharpness : UInt8) :
    FlagsOk ((if brightness < 20 then qualityTooDark else 0) |||
      (if brightness > 220 then qualityTooBright else 0) |||
      (if contrast < 16 then qualityLowContrast else 0) |||
      (if sharpness < 1 then qualityLowSharpness else 0)) := by
  -- an image below 20 is not above 220
  have hdark : brightness < 20 → ¬ brightness > 220 := by
    simp only [UInt8.lt_iff_toNat_lt, gt_iff_lt]
    intro h h'
    exact absurd (h'.trans h) (by decide)
  unfold FlagsOk
  by_cases hb : brightness < 20
  · rw [if_pos hb, if_neg (hdark hb)]
    split_ifs <;> decide
  · rw [if_neg hb]
    split_ifs <;> decide

theorem calculateQuality_meets (h : Bounded image) :
    Meets (Asked control image.height) (fun quality => FlagsOk quality.flags)
      (calculateQuality image control) := by
  have hpixels := h.pixels_le
  have hpos : 0 < image.width * image.height := Nat.mul_pos h.width.1 h.height.1
  refine meets_bind (P := Sums.Bound (image.height * image.width)) ?_ fun sums hsums => ?_
  · refine meets_range (I := fun y => Sums.Bound (y * image.width)) ?_ fun y hy sums hsums =>
      addRow_meets h hy hsums
    exact ⟨Nat.zero_le _, Nat.zero_le _, Nat.le_refl _, fun h => by simp at h⟩
  rw [Nat.mul_comm] at hsums
  refine meets_bind (meets_check le_rfl) fun _ _ => ?_
  refine meets_bind (meets_word (hpixels.trans_lt (by decide))) fun pixels hp => ?_
  obtain rfl := hp
  refine meets_bind (P := (· = sums.sum / (image.width * image.height))) ?_ fun average ha => ?_
  · rw [divide, if_neg hpos.ne']
    rfl
  refine meets_bind (meets_expectByte ?_) fun brightness _ => ?_
  · rw [ha]
    exact (Nat.div_le_of_le_mul (hsums.sum.trans_eq (Nat.mul_comm _ _))).trans_lt (by decide)
  refine meets_bind (P := fun _ => True) ?_ fun contrast _ => ?_
  · rw [subtract, if_neg (by simpa using hsums.order hpos)]
    trivial
  refine meets_bind (P := fun _ => True) ?_ fun sharpness _ => ?_
  · unfold averageDifference
    split_ifs with hcount
    · trivial
    · refine (meets_expectByte ?_).mono fun _ _ => trivial
      exact (Nat.div_le_of_le_mul (hsums.difference.trans_eq (Nat.mul_comm _ _))).trans_lt
        (by decide)
  exact meets_pure (flagsOk brightness contrast sharpness)

/-! ## The image is converted -/

/-- The bytes of a pixel of the image: blue, green and red. -/
def bgr (image : ImageView) (x y : ℕ) : List UInt8 :=
  let byte c := image.bytes.getD (y * image.stride + x * image.format.bytesPerPixel + c) 0
  match image.format with
  | .rgb8 | .rgba8 => [byte 2, byte 1, byte 0]
  | .gray8 => [byte 0, byte 0, byte 0]

/-- Three bytes from `i` on. -/
def set3 (bytes : List UInt8) (i : ℕ) (triple : List UInt8) : List UInt8 :=
  ((bytes.set i (triple.getD 0 0)).set (i + 1) (triple.getD 1 0)).set (i + 2) (triple.getD 2 0)

@[simp] theorem length_set3 (bytes : List UInt8) (i : ℕ) (triple : List UInt8) :
    (set3 bytes i triple).length = bytes.length := by
  simp [set3]

theorem getD_set3 {bytes : List UInt8} {i c : ℕ} (h : i + 3 ≤ bytes.length) (hc : c < 3)
    (triple : List UInt8) : (set3 bytes i triple).getD (i + c) 0 = triple.getD c 0 := by
  have h0 : i < bytes.length := by omega
  have h1 : i + 1 < bytes.length := by omega
  have h2 : i + 2 < bytes.length := by omega
  rcases show c = 0 ∨ c = 1 ∨ c = 2 by omega with rfl | rfl | rfl <;>
    simp [set3, List.getD_eq_getElem?_getD, h0, h1, h2]

theorem getD_set3_of_ne {bytes : List UInt8} {i j : ℕ} (h : j < i ∨ i + 3 ≤ j)
    (triple : List UInt8) : (set3 bytes i triple).getD j 0 = bytes.getD j 0 := by
  simp only [set3, List.getD_eq_getElem?_getD]
  rw [List.getElem?_set_ne (by omega), List.getElem?_set_ne (by omega),
    List.getElem?_set_ne (by omega)]

/-- The offset of a pixel in the output. -/
def target (runtimeWidth x y : ℕ) : ℕ := y * runtimeWidth * 3 + x * 3

theorem target_inj {w x y x' y' c c' : ℕ} (hx : x < w) (hx' : x' < w) (hc : c < 3) (hc' : c' < 3)
    (h : target w x y + c = target w x' y' + c') : x = x' ∧ y = y' := by
  have hpixel : x + y * w = x' + y' * w := by
    unfold target at h
    omega
  have hpos : 0 < w := by omega
  have hdiv := congrArg (· / w) hpixel
  have hmod := congrArg (· % w) hpixel
  simp only [Nat.add_mul_div_right _ _ hpos, Nat.div_eq_of_lt hx, Nat.div_eq_of_lt hx',
    Nat.add_mul_mod_self_right, Nat.mod_eq_of_lt hx, Nat.mod_eq_of_lt hx'] at hdiv hmod
  exact ⟨hmod, by omega⟩

theorem target_lt {w h x y : ℕ} (hx : x < w) (hy : y < h) : target w x y + 3 ≤ w * h * 3 := by
  have hrows : (y + 1) * w ≤ h * w := Nat.mul_le_mul_right w hy
  rw [Nat.add_mul, Nat.one_mul, Nat.mul_comm h] at hrows
  unfold target
  omega

theorem storeColours_meets {bytes output : List UInt8} {source start : ℕ}
    (hsource : source + 2 < bytes.length) (hstart : start + 3 ≤ output.length)
    (hbytes : bytes.length < 2 ^ 32) (hsmall : output.length < 2 ^ 63) :
    Meets E (· = set3 output start
      [bytes.getD (source + 2) 0, bytes.getD (source + 1) 0, bytes.getD source 0])
      (storeColours bytes output source start) := by
  refine meets_bind (meets_word (by omega)) fun i hi => ?_
  refine meets_bind (meets_index (by omega)) fun blue hblue => ?_
  refine meets_bind (meets_store (by omega) _) fun output₁ h₁ => ?_
  refine meets_bind (meets_word (by omega)) fun j hj => ?_
  refine meets_bind (meets_word (by omega)) fun k hk => ?_
  refine meets_bind (meets_index (by omega)) fun green hgreen => ?_
  have hlen₁ : output₁.length = output.length := by rw [h₁, List.length_set]
  refine meets_bind (meets_store (by omega) _) fun output₂ h₂ => ?_
  refine meets_bind (meets_word (by omega)) fun l hl => ?_
  refine meets_bind (meets_index (by omega)) fun red hred => ?_
  have hlen₂ : output₂.length = output₁.length := by rw [h₂, List.length_set]
  refine (meets_store (by omega) _).mono fun output₃ h₃ => ?_
  rw [h₃, h₂, h₁, hred, hgreen, hblue, hi, hj, hk, hl]
  rfl

theorem convertPixel_meets (h : Bounded image) {x y w : ℕ} (hx : x < image.width)
    (hy : y < image.height) {output : List UInt8} (hout : target w x y + 3 ≤ output.length)
    (hsmall : output.length < 2 ^ 63) :
    Meets E (· = set3 output (target w x y) (bgr image x y))
      (convertPixel image (y * image.stride) (y * w * 3) output x) := by
  have hlength := h.length_lt
  have hbyte : ∀ c < image.format.bytesPerPixel,
      y * image.stride + x * image.format.bytesPerPixel + c < image.bytes.length :=
    fun c hc => h.offset_lt hx hy hc
  have hfirst := hbyte 0 (by cases image.format <;> decide)
  have htarget : target w x y = y * w * 3 + x * 3 := rfl
  refine meets_bind (meets_checked (by omega)) fun offset hoffset => ?_
  refine meets_bind (meets_checked (by omega)) fun source hsource => ?_
  refine meets_bind (meets_checked (by omega)) fun column hcolumn => ?_
  refine meets_bind (meets_checked (by omega)) fun start hstart => ?_
  obtain rfl : start = target w x y := by omega
  obtain rfl : source = y * image.stride + x * image.format.bytesPerPixel := by omega
  clear hstart hsource hcolumn hoffset
  unfold bgr
  cases hformat : image.format with
  | rgb8 =>
    rw [hformat] at hbyte
    exact storeColours_meets (hbyte 2 (by decide)) hout hlength hsmall
  | rgba8 =>
    rw [hformat] at hbyte
    exact storeColours_meets (hbyte 2 (by decide)) hout hlength hsmall
  | gray8 =>
    rw [hformat] at hbyte
    refine meets_bind (meets_index (hbyte 0 (by decide))) fun value hvalue => ?_
    rw [fill3, if_pos hout, hvalue]
    rfl

/-- The output when the rows before `y` are converted, and of row `y` the pixels
    before `x`. -/
structure Converted (image : ImageView) (w h x y : ℕ) (output : List UInt8) : Prop where
  length : output.length = w * h * 3
  pixels : ∀ x' < w, ∀ y' < h, ∀ c < 3, output.getD (target w x' y' + c) 0 =
    if x' < image.width ∧ (y' < y ∨ y' = y ∧ x' < x) then (bgr image x' y').getD c 0 else 0

variable {w h x y : ℕ} {output : List UInt8}

theorem Converted.set3 (hout : Converted image w h x y output) (hx : x < image.width)
    (hw : image.width ≤ w) (hy : y < h) :
    Converted image w h (x + 1) y (set3 output (target w x y) (bgr image x y)) := by
  refine ⟨by rw [length_set3, hout.length], fun x' hx' y' hy' c hc => ?_⟩
  have hlt := target_lt (hx.trans_le hw) hy
  by_cases hsame : x' = x ∧ y' = y
  · obtain ⟨rfl, rfl⟩ := hsame
    rw [getD_set3 (by rw [hout.length]; exact hlt) hc, if_pos ⟨hx, .inr ⟨rfl, Nat.lt_succ_self _⟩⟩]
  · rw [getD_set3_of_ne, hout.pixels x' hx' y' hy' c hc]
    · refine if_congr ?_ rfl rfl
      omega
    · by_contra hin
      have heq : target w x' y' + c = target w x y + (target w x' y' + c - target w x y) := by
        omega
      exact hsame (target_inj hx' (hx.trans_le hw) hc (by omega) heq)

theorem Converted.next (hout : Converted image w h image.width y output) :
    Converted image w h 0 (y + 1) output := by
  refine ⟨hout.length, fun x' hx' y' hy' c hc => ?_⟩
  rw [hout.pixels x' hx' y' hy' c hc]
  refine if_congr ?_ rfl rfl
  omega

theorem convertRow_meets (himage : Bounded image) (hw : image.width ≤ w) (hh : image.height ≤ h)
    (hsize : w * h * 3 < 2 ^ 63) (hy : y < image.height)
    (hout : Converted image w h 0 y output) :
    Meets (Asked control image.height) (Converted image w h 0 (y + 1))
      (convertRow image control w output y) := by
  have hsource := himage.offset_lt himage.width.1 hy (show 0 < image.format.bytesPerPixel by
    cases image.format <;> decide)
  have hlength := himage.length_lt
  have hrow := target_lt (himage.width.1.trans_le hw) (hy.trans_le hh)
  unfold target at hrow
  refine meets_bind (meets_check hy.le) fun _ _ => ?_
  refine meets_bind (meets_checked (by omega)) fun sourceRow hs => ?_
  refine meets_bind (meets_checked (by omega)) fun rows hr => ?_
  refine meets_bind (meets_checked (by omega)) fun outputRow ho => ?_
  obtain rfl := hr
  obtain rfl := ho
  obtain rfl := hs
  refine (meets_range (I := fun x => Converted image w h x y) hout fun x hx output hout => ?_).mono
    fun output hout => hout.next
  refine (convertPixel_meets himage hx hy ?_ ?_).mono fun output' houtput' => ?_
  · rw [hout.length]
    exact target_lt (hx.trans_le hw) (hy.trans_le hh)
  · rwa [hout.length]
  · rw [houtput']
    exact hout.set3 hx hw (hy.trans_le hh)

theorem convertToBgr_meets (himage : Bounded image) :
    Meets (Asked control image.height) (fun input =>
      input.width = max image.width minimumRuntimeDimension ∧
      input.height = max image.height minimumRuntimeDimension ∧
      Converted image input.width input.height 0 image.height input.bytes)
      (convertToBgr image control) := by
  have hsize : max image.width minimumRuntimeDimension * max image.height minimumRuntimeDimension ≤
      maxWidth * maxHeight :=
    Nat.mul_le_mul (max_le himage.width.2 (by decide)) (max_le himage.height.2 (by decide))
  have hsmall : maxWidth * maxHeight < 2 ^ 32 := by decide
  refine meets_bind (meets_checked (by omega)) fun pixels hpixels => ?_
  refine meets_bind (meets_checked (by omega)) fun size hsize' => ?_
  obtain rfl := hpixels
  obtain rfl := hsize'
  refine meets_bind (meets_range (I := fun y => Converted image
    (max image.width minimumRuntimeDimension) (max image.height minimumRuntimeDimension) 0 y) ?_
    fun y hy output hout => convertRow_meets himage (le_max_left _ _) (le_max_left _ _) (by omega)
      hy hout) fun output hout => meets_pure ⟨rfl, rfl, hout⟩
  refine ⟨List.length_replicate, fun x' hx' y' hy' c hc => ?_⟩
  rw [if_neg (by omega), List.getD_eq_getElem?_getD, List.getElem?_replicate]
  split_ifs <;> rfl

theorem length_bgr (image : ImageView) (x y : ℕ) : (bgr image x y).length = 3 := by
  unfold bgr
  cases image.format <;> rfl

/-- The pixels of the output, when all rows are converted. -/
theorem Converted.triple (hout : Converted image w h 0 image.height output) (hx : x < w)
    (hy : y < h) : (output.drop (target w x y)).take 3 =
      if x < image.width ∧ y < image.height then bgr image x y else [0, 0, 0] := by
  have hlt := target_lt hx hy
  have hlen : ((output.drop (target w x y)).take 3).length = 3 := by
    rw [List.length_take, List.length_drop, hout.length]
    omega
  refine List.ext_getElem (by split_ifs <;> simp [hlen, length_bgr]) fun c hc hc' => ?_
  have hpixel := hout.pixels x hx y hy c (hlen ▸ hc)
  rw [List.getD_eq_getElem _ _ (by rw [hout.length]; omega)] at hpixel
  rw [List.getElem_take, List.getElem_drop, hpixel]
  split_ifs with hin hin' hin'
  · exact List.getD_eq_getElem _ _ _
  · omega
  · omega
  · rcases show c = 0 ∨ c = 1 ∨ c = 2 by omega with rfl | rfl | rfl <;> rfl

/-- The flags are no reason for `valid_analysis` to refuse. -/
theorem validAnalysis_of_flagsOk {quality : QualityMetrics} (h : FlagsOk quality.flags)
    (faces : List FaceObservation) (image : ImageView) :
    validAnalysis { faces, quality } image =
      (decide (faces.length ≤ maxFaces) && faces.all fun face => validFace face image) := by
  unfold validAnalysis
  by_cases hfaces : faces.length ≤ maxFaces
  · rw [if_neg, decide_eq_true hfaces, Bool.true_and]
    rintro (hmany | hknown | hboth)
    · exact absurd hfaces (Nat.not_le.2 hmany)
    · exact hknown h.1
    · exact h.2 hboth
  · rw [if_pos (.inl (Nat.not_le.1 hfaces)), decide_eq_false hfaces, Bool.false_and]

/-- The quality and the conversion of an accepted image. -/
theorem pixels_safe {format : PixelFormat} {width height stride : ℕ} {bytes : List UInt8}
    {image : ImageView} (h : ImageView.new format width height stride bytes = .ok image)
    (control : Control) :
    (∀ stop, calculateQuality image control = .error stop → Asked control image.height stop) ∧
    (∀ stop, convertToBgr image control = .error stop → Asked control image.height stop) ∧
    (∀ quality, calculateQuality image control = .ok quality →
      ¬ (quality.flags &&& qualityTooDark ≠ 0 ∧ quality.flags &&& qualityTooBright ≠ 0) ∧
      ∀ faces, validAnalysis { faces, quality } image =
        (decide (faces.length ≤ maxFaces) && faces.all fun face => validFace face image)) ∧
    (∀ input, convertToBgr image control = .ok input →
      input.width = max image.width minimumRuntimeDimension ∧
      input.height = max image.height minimumRuntimeDimension ∧
      input.bytes.length = input.width * input.height * 3 ∧
      ∀ x < input.width, ∀ y < input.height, (input.bytes.drop (target input.width x y)).take 3 =
        if x < image.width ∧ y < image.height then bgr image x y else [0, 0, 0]) := by
  have hquality : Meets (Asked control image.height) _ (calculateQuality image control) :=
    calculateQuality_meets (bounded_of_new h)
  have hconvert : Meets (Asked control image.height) _ (convertToBgr image control) :=
    convertToBgr_meets (bounded_of_new h)
  refine ⟨fun stop hs => ?_, fun stop hs => ?_, fun quality hq => ?_, fun input hi => ?_⟩
  · rwa [hs] at hquality
  · rwa [hs] at hconvert
  · rw [hq] at hquality
    exact ⟨hquality.2, fun faces => validAnalysis_of_flagsOk hquality faces image⟩
  · rw [hi] at hconvert
    obtain ⟨hw, hh, hout⟩ := hconvert
    exact ⟨hw, hh, hout.length, fun x hx y hy => hout.triple hx hy⟩

/-- Two gray pixels, with one byte behind the row. -/
theorem pixels_safe_gray :
    calculateQuality ⟨.gray8, 2, 1, 3, [10, 250, 7]⟩ (fun _ => none) = .ok ⟨130, 240, 240, 0⟩ ∧
    ∀ input, convertToBgr ⟨.gray8, 2, 1, 3, [10, 250, 7]⟩ (fun _ => none) = .ok input →
      ∀ x < input.width, ∀ y < input.height, (input.bytes.drop (target input.width x y)).take 3 =
        if x < 2 ∧ y < 1 then bgr ⟨.gray8, 2, 1, 3, [10, 250, 7]⟩ x y else [0, 0, 0] :=
  ⟨by decide +kernel, fun input h =>
    ((pixels_safe (show ImageView.new .gray8 2 1 3 [10, 250, 7] = .ok _ from rfl) fun _ => none
      ).2.2.2 input h).2.2.2⟩

end Vision

end KFaceAuth
