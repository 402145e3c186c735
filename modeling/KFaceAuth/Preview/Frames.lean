import KFaceAuth.Preview.Parser
import KFaceAuth.Preview.Session
import KFaceAuth.Preview.Worker

/-!
# The pictures of the camera

`CameraProvider` takes a picture from the camera, makes it fit the size of the
protocol, and gives it to the worker twice: as the bytes of an RGB image, for the
shared memory, and as a JPEG image, for the record. The images of the library are
a parameter (`Images`), but for the bytes of an RGB image (`Rgb888`).

* `pixels_iff`: the session shows the pixels of the shared memory where they are
  exactly if the rows have no padding between them;
* `frameReady_iff`: the size in a record is that of its JPEG image exactly if the
  picture did not have to be made smaller.
-/

namespace KFaceAuth

namespace Preview

/-! ## RGB images -/

/-- The bytes of a row in memory: rows are padded to a multiple of four bytes. -/
def bytesPerLine (width : ℕ) : ℕ := (3 * width + 3) / 4 * 4

/-- A `QImage` in `Format_RGB888` that owns its bytes. -/
structure Rgb888 where
  width : ℕ
  height : ℕ
  bits : List UInt8
  length_bits : bits.length = bytesPerLine width * height

/-- The three bytes at an offset. -/
def rgbAt (bits : List UInt8) (i : ℕ) : UInt8 × UInt8 × UInt8 :=
  (bits.getD i 0, bits.getD (i + 1) 0, bits.getD (i + 2) 0)

/-- `QImage::pixel`, where rows take `stride` bytes. -/
def pixelAt (bits : List UInt8) (stride x y : ℕ) : UInt8 × UInt8 × UInt8 :=
  rgbAt bits (y * stride + 3 * x)

/-- The pixel of an image that owns its bytes. -/
def Rgb888.pixel (image : Rgb888) (x y : ℕ) : UInt8 × UInt8 × UInt8 :=
  pixelAt image.bits (bytesPerLine image.width) x y

/-! ## The shared memory -/

/-- The size of the shared memory that the session creates. -/
def sharedMemoryBytes : ℕ := maxRawBytes + 128

/-- The shared memory, of at least the size that was asked for. -/
structure SharedMemory where
  data : List UInt8
  le_length : sharedMemoryBytes ≤ data.length

/-- The copy of `rawFrameReady`, of bytes that fit. -/
def SharedMemory.write (memory : SharedMemory) (rgb : List UInt8) : SharedMemory :=
  if h : rgb.length ≤ memory.data.length then
    { data := rgb ++ memory.data.drop rgb.length
      le_length := by
        have := memory.le_length
        rw [List.length_append, List.length_drop]
        omega }
  else memory

/-- The pixel of the image that `handleFrame` of the session makes of the shared
    memory, for a record with the given width. -/
def SharedMemory.pixel (memory : SharedMemory) (width x y : ℕ) : UInt8 × UInt8 × UInt8 :=
  pixelAt memory.data (width * 3) x y

theorem bytesPerLine_le {width : ℕ} (h : width ≤ 1920) : bytesPerLine width ≤ 1920 * 3 := by
  unfold bytesPerLine
  omega

/-- An image of the size of the protocol fits the shared memory. -/
theorem length_bits_le {image : Rgb888} (hw : image.width ≤ maxWidth)
    (hh : image.height ≤ maxHeight) (memory : SharedMemory) :
    image.bits.length ≤ memory.data.length := by
  have hw : image.width ≤ 1920 := Int.ofNat_le.1 hw
  have hh : image.height ≤ 1080 := Int.ofNat_le.1 hh
  calc image.bits.length = bytesPerLine image.width * image.height := image.length_bits
    _ ≤ 1920 * 3 * 1080 := Nat.mul_le_mul (bytesPerLine_le hw) hh
    _ ≤ sharedMemoryBytes := by decide
    _ ≤ memory.data.length := memory.le_length

/-- The rows have no padding between them. -/
theorem bytesPerLine_eq_iff {width : ℕ} : bytesPerLine width = width * 3 ↔ 4 ∣ width := by
  unfold bytesPerLine
  omega

/-- The bytes of an image in the shared memory. -/
theorem rgbAt_write {memory : SharedMemory} {bits : List UInt8} {i : ℕ}
    (hfit : bits.length ≤ memory.data.length) (h : i + 2 < bits.length) :
    rgbAt (memory.write bits).data i = rgbAt bits i := by
  rw [SharedMemory.write, dif_pos hfit, rgbAt, rgbAt]
  rw [List.getD_append _ _ _ _ (by omega), List.getD_append _ _ _ _ (by omega),
    List.getD_append _ _ _ _ (by omega)]

/-- A pixel is within the bytes of its image. -/
theorem pixel_lt {image : Rgb888} {x y : ℕ} (hx : x < image.width) (hy : y < image.height) :
    y * bytesPerLine image.width + 3 * x + 2 < image.bits.length := by
  have hrow : 3 * x + 2 < bytesPerLine image.width := by
    unfold bytesPerLine
    omega
  have hrows : (y + 1) * bytesPerLine image.width ≤ image.height * bytesPerLine image.width :=
    Nat.mul_le_mul_right _ hy
  rw [image.length_bits, Nat.mul_comm (bytesPerLine _)]
  rw [Nat.succ_mul] at hrows
  omega

/-- An image with one bright byte. -/
def brightAt (width height i : ℕ) : Rgb888 where
  width
  height
  bits := (List.range (bytesPerLine width * height)).map fun j => if j = i then 1 else 0
  length_bits := by rw [List.length_map, List.length_range]

theorem brightAt_getD {width height i j : ℕ} (h : j < bytesPerLine width * height) :
    (brightAt width height i).bits.getD j 0 = if j = i then 1 else 0 := by
  unfold brightAt
  rw [List.getD_eq_getElem _ _ (by simpa using h), List.getElem_map, List.getElem_range]

/-- The images of a size are read as they were written exactly if their rows have no
    padding or there is only one row. -/
theorem write_pixel_iff {width height : ℕ} (hw : 0 < width ∧ width ≤ maxWidth)
    (hh : 0 < height ∧ height ≤ maxHeight) :
    (∀ (image : Rgb888) (memory : SharedMemory), image.width = width → image.height = height →
      ∀ x < width, ∀ y < height,
        (memory.write image.bits).pixel width x y = image.pixel x y) ↔
      4 ∣ width ∨ height = 1 := by
  constructor
  · intro h
    by_contra hpadded
    rw [not_or] at hpadded
    have hne := mt bytesPerLine_eq_iff.1 hpadded.1
    have hlt : width * 3 < bytesPerLine width := by
      unfold bytesPerLine at hne ⊢
      omega
    have hlong : bytesPerLine width * 2 ≤ bytesPerLine width * height :=
      Nat.mul_le_mul_left _ (by omega)
    -- the first byte of the second row is bright, and the session looks for it in the padding
    let image := brightAt width height (bytesPerLine width)
    let memory : SharedMemory := ⟨List.replicate sharedMemoryBytes 0, by simp⟩
    have hfit : image.bits.length ≤ memory.data.length := length_bits_le hw.2 hh.2 memory
    have hbits : image.bits.length = bytesPerLine width * height := image.length_bits
    have hshown : (memory.write image.bits).pixel width 0 1 = rgbAt image.bits (width * 3) := by
      rw [SharedMemory.pixel, pixelAt, Nat.one_mul, Nat.mul_zero, Nat.add_zero,
        rgbAt_write hfit (by omega)]
    have hthere : image.pixel 0 1 = rgbAt image.bits (bytesPerLine width) := by
      rw [Rgb888.pixel, pixelAt, Nat.one_mul, Nat.mul_zero, Nat.add_zero]
      rfl
    have hpixel := h image memory rfl rfl 0 hw.1 1 (by omega)
    rw [hshown, hthere] at hpixel
    have hbyte : image.bits.getD (width * 3) 0 = image.bits.getD (bytesPerLine width) 0 :=
      (Prod.mk.inj hpixel).1
    rw [brightAt_getD (by omega), brightAt_getD (by omega), if_neg (by omega), if_pos rfl] at hbyte
    exact absurd hbyte (by decide)
  · rintro hcond image memory rfl rfl x hx y hy
    have hindex : y * (image.width * 3) = y * bytesPerLine image.width := by
      rcases hcond with hdvd | hone
      · rw [bytesPerLine_eq_iff.2 hdvd]
      · obtain rfl : y = 0 := by omega
        rw [Nat.zero_mul, Nat.zero_mul]
    rw [SharedMemory.pixel, pixelAt, hindex,
      rgbAt_write (length_bits_le hw.2 hh.2 memory) (pixel_lt hx hy)]
    rfl

/-! ## JPEG images -/

/-- `QImage`, its conversion to RGB and its JPEG writer. -/
structure Images (I : Type) where
  width : I → ℕ
  height : I → ℕ
  /-- `QImage::scaled` with `Qt::KeepAspectRatio`, into a box, smoothly or not. -/
  scaled : I → ℕ → ℕ → Bool → I
  /-- `QImage::convertToFormat`, to `Format_RGB888`. -/
  rgb888 : I → Rgb888
  /-- The bytes that `QImage::save` writes at a quality, if it succeeds. -/
  save : I → ℕ → Option (List UInt8)

section

variable {I : Type} (images : Images I)

/-- `QImage::isNull`. -/
def Images.isNull (image : I) : Bool := images.width image = 0 || images.height image = 0

/-- The image is larger than the protocol allows. -/
def Images.oversized (image : I) : Bool :=
  maxWidth < images.width image || maxHeight < images.height image

/-- An image that is scaled is not null, and inside the box. -/
structure Images.Scales : Prop where
  not_isNull {image : I} (w h : ℕ) (smooth : Bool) (hnull : images.isNull image = false) :
    images.isNull (images.scaled image w h smooth) = false
  width_le (image : I) {w h : ℕ} (smooth : Bool) (hw : 0 < w) (hh : 0 < h) :
    images.width (images.scaled image w h smooth) ≤ w
  height_le (image : I) {w h : ℕ} (smooth : Bool) (hw : 0 < w) (hh : 0 < h) :
    images.height (images.scaled image w h smooth) ≤ h

/-- The image in the size of the protocol. -/
def bounded (smooth : Bool) (image : I) : I :=
  if images.oversized image then images.scaled image 1920 1080 smooth else image

/-- The qualities that `encodeFrame` tries. -/
def qualities : List ℕ := [75, 60, 45, 30]

/-- The JPEG image at a quality, if it fits. -/
def fitting (image : I) (quality : ℕ) : Option (List UInt8) :=
  (images.save image quality).filter (·.length ≤ maxJpegBytes)

/-- The next image that `encodeFrame` tries. -/
def rescaled (image : I) : I :=
  images.scaled image (max 1 (images.width image * 3 / 4))
    (max 1 (images.height image * 3 / 4)) true

/-- The attempts of `encodeFrame`, with the image that is encoded in the end. -/
def encodeAttempts : ℕ → I → Option (I × List UInt8)
  | 0, _ => none
  | attempts + 1, image =>
    match qualities.findSome? (fitting images image) with
    | some jpeg => some (image, jpeg)
    | none =>
      if images.width image ≤ 640 ∧ images.height image ≤ 480 then none
      else encodeAttempts attempts (rescaled images image)

/-- `encodeFrame`; `none` stands for the empty array. -/
def encodeFrame (source : I) : Option (I × List UInt8) :=
  if images.isNull source then none else encodeAttempts images 4 (bounded images true source)

/-- What `handleFrame` emits: the bytes of an RGB image, and a JPEG image, if there
    is one, with the image that it encodes. -/
structure Emitted (I : Type) where
  rawRgb : List UInt8
  jpeg : Option (I × List UInt8)
  width : ℕ
  height : ℕ
  spectrum : Spectrum

/-- The state of `CameraProvider` that `handleFrame` uses. -/
structure FrameState where
  spectrum : Spectrum
  consecutiveDarkFrames : ℕ := 0

def minimumInterval : ℕ := 1000 / 30

/-- `handleFrame`, of a valid frame; `dark` is `isDarkIrFrame`, and `elapsed` the time
    since the frame before, if there was one. -/
def handleFrame (p : FrameState) (image : I) (dark : Bool) (elapsed : Option ℕ) :
    FrameState × Option (Emitted I) :=
  if images.isNull image then (p, none)
  else if p.spectrum = .ir ∧ dark ∧ p.consecutiveDarkFrames + 1 < 15 then
    ({ p with consecutiveDarkFrames := p.consecutiveDarkFrames + 1 }, none)
  else
    let p := { p with consecutiveDarkFrames := 0 }
    if elapsed.any (· < minimumInterval) then (p, none)
    else
      let bounded := bounded images false image
      (p, some
        { rawRgb := (images.rgb888 bounded).bits
          jpeg := (encodeFrame images bounded).filter (·.2 ≠ [])
          width := images.width bounded
          height := images.height bounded
          spectrum := p.spectrum })

/-- The frame of the record that `rawFrameReady` and `frameReady` make. -/
def Emitted.frame {I : Type} (e : Emitted I) : Frame where
  shm := false
  rgb := none
  jpeg := none
  width := e.width
  height := e.height
  spectrum := e.spectrum
  dropped := 0

/-! ### Attempts -/

variable {images}

/-- An image that is smaller than another, and in neither direction larger. -/
def Shrunk (images : Images I) (image source : I) : Prop :=
  images.width image ≤ images.width source ∧ images.height image ≤ images.height source ∧
    (images.width image < images.width source ∨ images.height image < images.height source)

theorem isNull_eq_false {image : I} :
    images.isNull image = false ↔ 0 < images.width image ∧ 0 < images.height image := by
  unfold Images.isNull
  rw [Bool.or_eq_false_iff, decide_eq_false_iff_not, decide_eq_false_iff_not]
  omega

/-- An image that is scaled down in `encodeFrame` gets smaller. -/
theorem shrunk_rescaled (hscales : images.Scales) {image : I} (hnull : images.isNull image = false)
    (hlarge : ¬ (images.width image ≤ 640 ∧ images.height image ≤ 480)) :
    Shrunk images (rescaled images image) image := by
  have hw : images.width (rescaled images image) ≤ max 1 (images.width image * 3 / 4) :=
    hscales.width_le image true (by omega) (by omega)
  have hh : images.height (rescaled images image) ≤ max 1 (images.height image * 3 / 4) :=
    hscales.height_le image true (by omega) (by omega)
  have hpos := isNull_eq_false.1 hnull
  unfold Shrunk
  omega

theorem Shrunk.trans {a b c : I} (hab : Shrunk images a b) (hbc : Shrunk images b c) :
    Shrunk images a c := by
  unfold Shrunk at *
  omega

/-- The encoded image is the first one, if it fits at some quality, and else a
    smaller one. -/
theorem encodeAttempts_cases (hscales : images.Scales) {attempts : ℕ} {image encoded : I}
    {jpeg : List UInt8} (hnull : images.isNull image = false)
    (h : encodeAttempts images attempts image = some (encoded, jpeg)) :
    jpeg.length ≤ maxJpegBytes ∧
      ((∃ quality ∈ qualities, (fitting images image quality).isSome) ∧ encoded = image ∨
        (¬ ∃ quality ∈ qualities, (fitting images image quality).isSome) ∧
          Shrunk images encoded image) := by
  induction attempts generalizing image with
  | zero => cases h
  | succ attempts ih =>
    rw [encodeAttempts] at h
    split at h
    · -- Some quality fits, and the picture is the one that was given.
      rename_i found hfound
      obtain ⟨rfl, rfl⟩ := Prod.mk.inj (Option.some.inj h)
      obtain ⟨quality, hquality, hfit⟩ := List.exists_of_findSome?_eq_some hfound
      have hle := (Option.filter_eq_some_iff.1 hfit).2
      exact ⟨of_decide_eq_true hle, .inl ⟨⟨quality, hquality, by rw [hfit]; rfl⟩, rfl⟩⟩
    · rename_i hnone
      split at h
      · cases h
      · rename_i hlarge
        -- Every further attempt is about a smaller picture.
        have hshrunk := shrunk_rescaled hscales hnull hlarge
        obtain ⟨hle, hcases⟩ := ih (hscales.not_isNull _ _ _ hnull) h
        refine ⟨hle, .inr ⟨?_, ?_⟩⟩
        · rintro ⟨quality, hquality, hfit⟩
          rw [List.findSome?_eq_none_iff.1 hnone quality hquality] at hfit
          cases hfit
        · rcases hcases with ⟨-, rfl⟩ | ⟨-, hsmaller⟩
          · exact hshrunk
          · exact hsmaller.trans hshrunk

/-! ### Records -/

theorem oversized_eq_false {image : I} : images.oversized image = false ↔
    images.width image ≤ maxWidth ∧ images.height image ≤ maxHeight := by
  unfold Images.oversized
  rw [Bool.or_eq_false_iff, decide_eq_false_iff_not, decide_eq_false_iff_not]
  omega

/-- The image that is sent is not null, and in the size of the protocol. -/
theorem bounded_spec (hscales : images.Scales) (smooth : Bool) {image : I}
    (hnull : images.isNull image = false) :
    images.isNull (bounded images smooth image) = false ∧
      images.oversized (bounded images smooth image) = false := by
  unfold bounded
  split
  · refine ⟨hscales.not_isNull _ _ _ hnull, oversized_eq_false.2 ⟨?_, ?_⟩⟩
    · exact Int.ofNat_le.2 (hscales.width_le image smooth (by decide) (by decide))
    · exact Int.ofNat_le.2 (hscales.height_le image smooth (by decide) (by decide))
  · rename_i hsize
    exact ⟨hnull, Bool.eq_false_iff.2 hsize⟩

/-- What is emitted for an image. -/
theorem handleFrame_eq_some {p : FrameState} {image : I} {dark : Bool} {elapsed : Option ℕ}
    {e : Emitted I} (h : (handleFrame images p image dark elapsed).2 = some e) :
    images.isNull image = false ∧
      e.rawRgb = (images.rgb888 (bounded images false image)).bits ∧
      e.jpeg = (encodeFrame images (bounded images false image)).filter (·.2 ≠ []) ∧
      e.width = images.width (bounded images false image) ∧
      e.height = images.height (bounded images false image) := by
  unfold handleFrame at h
  split at h
  · cases h
  · rename_i hnull
    split at h
    · cases h
    · dsimp only at h
      split at h
      · cases h
      · obtain rfl := Option.some.inj h
        exact ⟨Bool.eq_false_iff.2 hnull, rfl, rfl, rfl, rfl⟩

/-- Images that are in `Format_RGB888` already. -/
structure Images.AreRgb888 (images : Images Rgb888) : Prop where
  width (image : Rgb888) : images.width image = image.width
  height (image : Rgb888) : images.height image = image.height
  rgb888 (image : Rgb888) : images.rgb888 image = image

/-- The images that are emitted as they are. -/
theorem handleFrame_rgb888 {images : Images Rgb888} (himages : images.AreRgb888) {p : FrameState}
    {image : Rgb888} {dark : Bool} {elapsed : Option ℕ} {e : Emitted Rgb888}
    (hw : image.width ≤ maxWidth) (hh : image.height ≤ maxHeight)
    (h : (handleFrame images p image dark elapsed).2 = some e) :
    e.rawRgb = image.bits ∧ e.width = image.width := by
  have hsize : images.oversized image = false := by
    rw [oversized_eq_false, himages.width, himages.height]
    exact ⟨hw, hh⟩
  have hbounded : bounded images false image = image := by
    rw [bounded, hsize]
    rfl
  obtain ⟨-, hraw, -, hwidth, -⟩ := handleFrame_eq_some h
  rw [hraw, hwidth, hbounded, himages.rgb888, himages.width]
  exact ⟨rfl, rfl⟩

/-- The images of this library, at which nothing is scaled and no JPEG is written. -/
def plainImages : Images Rgb888 where
  width := Rgb888.width
  height := Rgb888.height
  scaled image _ _ _ := image
  rgb888 image := image
  save _ _ := none

theorem plainImages_areRgb888 : plainImages.AreRgb888 := ⟨fun _ => rfl, fun _ => rfl, fun _ => rfl⟩

/-- Some record is made of every picture that is not null. -/
theorem exists_handleFrame_plain (image : Rgb888) (hw : 0 < image.width) (hh : 0 < image.height) :
    ∃ e, (handleFrame plainImages ⟨.rgb, 0⟩ image false none).2 = some e := by
  have hnull : plainImages.isNull image = false := isNull_eq_false.2 ⟨hw, hh⟩
  rw [handleFrame, hnull]
  exact ⟨_, rfl⟩

/-- Pictures of a size go through the shared memory as they are exactly if their rows
    have no padding or there is only one row. -/
theorem pixels_iff {width height : ℕ} (hw : 0 < width ∧ width ≤ maxWidth)
    (hh : 0 < height ∧ height ≤ maxHeight) :
    (∀ (images : Images Rgb888) (p : FrameState) (image : Rgb888) (dark : Bool)
        (elapsed : Option ℕ) (e : Emitted Rgb888) (memory : SharedMemory),
      images.AreRgb888 → image.width = width → image.height = height →
      (handleFrame images p image dark elapsed).2 = some e →
      ∀ x < width, ∀ y < height,
        (memory.write e.rawRgb).pixel e.width x y = image.pixel x y) ↔
      4 ∣ width ∨ height = 1 := by
  rw [← write_pixel_iff hw hh]
  constructor
  · rintro h image memory rfl rfl x hx y hy
    obtain ⟨e, he⟩ := exists_handleFrame_plain image hw.1 hh.1
    obtain ⟨hraw, hwidth⟩ := handleFrame_rgb888 plainImages_areRgb888 hw.2 hh.2 he
    have hpixel := h _ _ image _ _ e memory plainImages_areRgb888 rfl rfl he x hx y hy
    rwa [hraw, hwidth] at hpixel
  · rintro h images p image dark elapsed e memory himages rfl rfl he x hx y hy
    obtain ⟨hraw, hwidth⟩ := handleFrame_rgb888 himages hw.2 hh.2 he
    rw [hraw, hwidth]
    exact h image memory rfl rfl x hx y hy

/-- The first pixel of the second row, of rows of four pixels. -/
theorem pixels_iff_four :
    ∃ (e : Emitted Rgb888) (memory : SharedMemory),
      (handleFrame plainImages ⟨.rgb, 0⟩ (brightAt 4 3 12) false none).2 = some e ∧
        (memory.write e.rawRgb).pixel e.width 0 1 = (brightAt 4 3 12).pixel 0 1 := by
  obtain ⟨e, he⟩ := exists_handleFrame_plain (brightAt 4 3 12) (by decide) (by decide)
  have hw : 0 < 4 ∧ ((4 : ℕ) : ℤ) ≤ maxWidth := by decide
  have hh : 0 < 3 ∧ ((3 : ℕ) : ℤ) ≤ maxHeight := by decide
  have hall := (pixels_iff hw hh).2 (.inl (by decide))
  exact ⟨e, ⟨List.replicate sharedMemoryBytes 0, by simp⟩, he,
    hall _ _ _ _ _ e _ plainImages_areRgb888 rfl rfl he 0 (by decide) 1 (by decide)⟩

/-- The second of two rows of one pixel is read from the padding of the first. -/
theorem pixels_iff_fails :
    ∃ (e : Emitted Rgb888) (memory : SharedMemory),
      (handleFrame plainImages ⟨.rgb, 0⟩ (brightAt 1 2 4) false none).2 = some e ∧
        (memory.write e.rawRgb).pixel e.width 0 1 ≠ (brightAt 1 2 4).pixel 0 1 := by
  obtain ⟨e, he⟩ := exists_handleFrame_plain (brightAt 1 2 4) (by decide) (by decide)
  obtain ⟨hraw, hwidth⟩ := handleFrame_rgb888 plainImages_areRgb888 (by decide) (by decide) he
  refine ⟨e, ⟨List.replicate sharedMemoryBytes 0, by simp⟩, he, ?_⟩
  rw [hraw, hwidth, SharedMemory.pixel, pixelAt,
    rgbAt_write (length_bits_le (by decide) (by decide) _) (by decide)]
  decide

/-- A JPEG image of the right size is accepted while streaming. -/
theorem handleFrame_jpeg {s : Session} {decode : List UInt8 → Option (ℤ × ℤ)} {frame : Frame}
    {jpeg : List UInt8} (hs : s.state = .streaming)
    (hw : 0 < frame.width ∧ frame.width ≤ maxWidth)
    (hh : 0 < frame.height ∧ frame.height ≤ maxHeight) (hdropped : 0 ≤ frame.dropped)
    (hjpeg : frame.jpeg = some jpeg) (hne : jpeg ≠ []) (hle : jpeg.length ≤ maxJpegBytes)
    (hdecode : decode jpeg = some (frame.width, frame.height)) : s.handleFrame decode frame := by
  have hshows : s.showsFrame decode frame := by
    simp [Session.showsFrame, hjpeg, hne, hle, hdecode]
  simp [Session.handleFrame, hs, hw, hh, hdropped, hshows]

/-- The record of a JPEG image has its size, and is accepted, exactly if the picture
    fits at some quality as it is. -/
theorem frameReady_iff (hscales : images.Scales) {p : FrameState} {image encoded : I}
    {dark : Bool} {elapsed : Option ℕ} {e : Emitted I} {jpeg : List UInt8}
    (he : (handleFrame images p image dark elapsed).2 = some e)
    (hjpeg : e.jpeg = some (encoded, jpeg)) {decode : List UInt8 → Option (ℤ × ℤ)}
    (hdecode : decode jpeg = some ((images.width encoded : ℤ), (images.height encoded : ℤ)))
    {w : Worker} (hw : w.attached = false) {s : Session} (hs : s.state = .streaming) :
    ∃ frame, (w.frameReady e.frame jpeg).pendingFrame = some (w.baseRecord (.frame frame)) ∧
      frame.jpeg = some jpeg ∧
      (frame.width = images.width encoded ∧ frame.height = images.height encoded ∧
          jpeg.length ≤ maxJpegBytes ∧ s.handleFrame decode frame ↔
        ∃ quality ∈ qualities, (fitting images (bounded images false image) quality).isSome) := by
  obtain ⟨hnull, -, hemitted, hwidth, hheight⟩ := handleFrame_eq_some he
  obtain ⟨hnull', hsize⟩ := bounded_spec hscales false hnull
  rw [hjpeg] at hemitted
  obtain ⟨hencode, hnonempty⟩ := Option.filter_eq_some_iff.1 hemitted.symm
  have hne : jpeg ≠ [] := of_decide_eq_true hnonempty
  have hattempts : encodeAttempts images 4 (bounded images false image) = some (encoded, jpeg) := by
    rw [encodeFrame, if_neg (by rw [hnull']; decide)] at hencode
    rwa [show bounded images true (bounded images false image) = bounded images false image by
      rw [bounded, if_neg (by rw [hsize]; decide)]] at hencode
  obtain ⟨hle, hcases⟩ := encodeAttempts_cases hscales hnull' hattempts
  have hframe : w.frameReady e.frame jpeg =
      w.queueFrame { e.frame with shm := false, rgb := none, jpeg := some jpeg } := by
    rw [Worker.frameReady, hw, if_neg (by decide), if_neg hne]
  refine ⟨_, by rw [hframe]; rfl, rfl, ?_⟩
  rcases hcases with ⟨hfit, rfl⟩ | ⟨hunfit, hshrunk⟩
  · refine iff_of_true ⟨congrArg Nat.cast hwidth, congrArg Nat.cast hheight, hle, ?_⟩ hfit
    obtain ⟨hwpos, hhpos⟩ := isNull_eq_false.1 hnull'
    obtain ⟨hwle, hhle⟩ := oversized_eq_false.1 hsize
    rw [← hwidth] at hwpos hwle hdecode
    rw [← hheight] at hhpos hhle hdecode
    exact handleFrame_jpeg hs ⟨Int.ofNat_lt.2 hwpos, hwle⟩ ⟨Int.ofNat_lt.2 hhpos, hhle⟩
      (Int.natCast_nonneg _) rfl hne hle hdecode
  · -- The record has the size from before the picture was made smaller.
    refine iff_of_false ?_ hunfit
    rintro ⟨hw', hh', -, -⟩
    have hw' : e.width = images.width encoded := Int.ofNat_inj.1 hw'
    have hh' : e.height = images.height encoded := Int.ofNat_inj.1 hh'
    unfold Shrunk at hshrunk
    omega

end

/-! ### A picture that is made smaller -/

/-- `QSize::scaled` with `Qt::KeepAspectRatio`, of at least one pixel. -/
def scaledSize (size : ℕ × ℕ) (w h : ℕ) : ℕ × ℕ :=
  if h * size.1 / size.2 ≤ w then (max 1 (h * size.1 / size.2), max 1 h)
  else (max 1 w, max 1 (w * size.2 / size.1))

/-- Images whose JPEG images are too large above 960 pixels in a row. -/
def wideImages : Images (ℕ × ℕ) where
  width := Prod.fst
  height := Prod.snd
  scaled image w h _ := scaledSize image w h
  rgb888 image := brightAt image.1 image.2 0
  save image _ :=
    some (if 960 < image.1 then List.replicate (maxJpegBytes + 1) 0 else [0xff, 0xd8])

theorem wideImages_scales : wideImages.Scales where
  not_isNull {image} w h _ _ := by
    refine isNull_eq_false.2 ?_
    simp only [wideImages, scaledSize]
    split <;> omega
  width_le image w h _ hw hh := by
    simp only [wideImages, scaledSize]
    split <;> omega
  height_le image w h _ hw hh := by
    simp only [wideImages, scaledSize]
    split
    · omega
    · rename_i hlt
      have hmul : w * image.2 ≤ image.1 * h :=
        calc w * image.2 ≤ h * image.1 / image.2 * image.2 := Nat.mul_le_mul_right _ (by omega)
          _ ≤ h * image.1 := Nat.div_mul_le_self _ _
          _ = image.1 * h := Nat.mul_comm _ _
      have hdiv : w * image.2 / image.1 ≤ h := Nat.div_le_of_le_mul hmul
      omega

theorem fitting_wide {image : ℕ × ℕ} (h : 960 < image.1) (quality : ℕ) :
    fitting wideImages image quality = none := by
  rw [fitting, Option.filter_eq_none_iff]
  rintro jpeg hjpeg
  obtain rfl := Option.some.inj hjpeg
  rw [if_pos h, List.length_replicate]
  decide

theorem fitting_narrow {image : ℕ × ℕ} (h : ¬ 960 < image.1) (quality : ℕ) :
    fitting wideImages image quality = some [0xff, 0xd8] := by
  have hsave : wideImages.save image quality = some [0xff, 0xd8] := congrArg some (if_neg h)
  rw [fitting, hsave]
  decide

/-- A decoder that finds an image of the given size. -/
def decodeAs (size : ℤ × ℤ) (_ : List UInt8) : Option (ℤ × ℤ) := some size

/-- What is emitted for a picture of 640 by 480. -/
def narrowEmitted : Emitted (ℕ × ℕ) :=
  ⟨(brightAt 640 480 0).bits, some ((640, 480), [0xff, 0xd8]), 640, 480, .rgb⟩

theorem frameReady_iff_narrow :
    ∃ frame, (({} : Worker).frameReady narrowEmitted.frame [0xff, 0xd8]).pendingFrame =
        some (({} : Worker).baseRecord (.frame frame)) ∧
      frame.width = 640 ∧ frame.height = 480 ∧
      ({ state := .streaming } : Session).handleFrame (decodeAs (640, 480)) frame := by
  have hemitted : (handleFrame wideImages ⟨.rgb, 0⟩ (640, 480) false none).2 =
      some narrowEmitted := rfl
  have hjpeg : narrowEmitted.jpeg = some ((640, 480), [0xff, 0xd8]) := rfl
  have hdecode : decodeAs (640, 480) [0xff, 0xd8] =
      some ((wideImages.width (640, 480) : ℤ), (wideImages.height (640, 480) : ℤ)) := rfl
  have hattached : ({} : Worker).attached = false := rfl
  have hstate : ({ state := .streaming } : Session).state = .streaming := rfl
  obtain ⟨frame, hframe, -, hiff⟩ := frameReady_iff wideImages_scales hemitted hjpeg
    hdecode hattached hstate
  obtain ⟨hwidth, hheight, -, haccepted⟩ := hiff.2
    ⟨75, by decide, by rw [fitting_narrow (by decide)]; rfl⟩
  exact ⟨frame, hframe, hwidth, hheight, haccepted⟩

/-- What is emitted for a picture of 1280 by 720. -/
def wideEmitted : Emitted (ℕ × ℕ) :=
  ⟨(brightAt 1280 720 0).bits, some ((960, 540), [0xff, 0xd8]), 1280, 720, .rgb⟩

theorem handleFrame_wide :
    (handleFrame wideImages ⟨.rgb, 0⟩ (1280, 720) false none).2 = some wideEmitted := by
  have hnone : qualities.findSome? (fitting wideImages (1280, 720)) = none :=
    List.findSome?_eq_none_iff.2 fun quality _ => fitting_wide (by decide) quality
  have hsome : qualities.findSome? (fitting wideImages (960, 540)) = some [0xff, 0xd8] := by
    rw [qualities, List.findSome?_cons, fitting_narrow (by decide)]
  have hencode : encodeFrame wideImages (1280, 720) = some ((960, 540), [0xff, 0xd8]) := by
    have hrescaled : rescaled wideImages (1280, 720) = (960, 540) := by decide
    rw [encodeFrame, if_neg (by decide), bounded, if_neg (by decide), encodeAttempts, hnone]
    dsimp only
    rw [if_neg (by decide), hrescaled, encodeAttempts, hsome]
  have hbounded : bounded wideImages false (1280, 720) = (1280, 720) := by decide
  rw [handleFrame, if_neg (by decide), if_neg (by decide)]
  dsimp only
  rw [if_neg (by decide), hbounded, hencode]
  rfl

/-- A picture that had to be made smaller is sent under its size from before, and
    the session rejects it. -/
theorem frameReady_iff_fails :
    (handleFrame wideImages ⟨.rgb, 0⟩ (1280, 720) false none).2 = some wideEmitted ∧
      ∃ frame, (({} : Worker).frameReady wideEmitted.frame [0xff, 0xd8]).pendingFrame =
          some (({} : Worker).baseRecord (.frame frame)) ∧
        frame.width ≠ wideImages.width (960, 540) ∧
        ¬ ({ state := .streaming } : Session).handleFrame (decodeAs (960, 540)) frame :=
  ⟨handleFrame_wide, _, rfl, by decide, by decide⟩

end Preview

end KFaceAuth
