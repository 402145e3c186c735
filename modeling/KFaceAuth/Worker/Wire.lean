import KFaceAuth.Lib.Bytes

/-!
# Frames and images

What the vision and the identity worker have in common: they read one frame
after another (`readFrame`), and check the images in them (`ImageView.new`). An
image of the application is a `QImage`.
-/

namespace KFaceAuth

/-! ## Frames -/

/-- `FrameError`. -/
inductive FrameError
  | io
  | emptyFrame
  | frameTooLarge
  | trailingData
  deriving DecidableEq, Repr

/-- `read_frame`, from all the bytes of a stream: the payload, and the bytes after it. -/
def readFrame (maximum : ℕ) : List UInt8 → Except FrameError (List UInt8 × List UInt8)
  | h₀ :: h₁ :: h₂ :: h₃ :: stream =>
    let length := ofBe [h₀, h₁, h₂, h₃]
    if length = 0 then .error .emptyFrame
    else if maximum < length then .error .frameTooLarge
    else if stream.length < length then .error .io
    else .ok (stream.take length, stream.drop length)
  | _ => .error .io

/-- A frame that fits is read back. -/
theorem readFrame_framed {maximum : ℕ} {payload : List UInt8} (rest : List UInt8)
    (hne : payload ≠ []) (hmax : payload.length ≤ maximum) (hlen : payload.length < 2 ^ 32) :
    readFrame maximum (framed payload ++ rest) = .ok (payload, rest) := by
  have hvalue : ofBe (be32 payload.length) = payload.length := ofBe_be32 hlen
  have hpos : payload.length ≠ 0 := fun h => hne (List.length_eq_zero_iff.mp h)
  simp only [framed, be32, List.cons_append, List.nil_append, readFrame] at hvalue ⊢
  rw [hvalue, if_neg hpos, if_neg (Nat.not_lt.mpr hmax), if_neg (by simp), List.take_left,
    List.drop_left]

/-! ## Images that a worker accepts -/

def maxWidth : ℕ := 1920
def maxHeight : ℕ := 1080
def maxFrameBytes : ℕ := 1920 * 1080 * 4

inductive PixelFormat
  | rgb8
  | rgba8
  | gray8
  deriving DecidableEq, Repr

/-- `bytes_per_pixel`. -/
def PixelFormat.bytesPerPixel : PixelFormat → ℕ
  | rgb8 => 3
  | rgba8 => 4
  | gray8 => 1

inductive ImageError
  | unsupportedPixelFormat
  | invalidDimensions
  | invalidStride
  | arithmeticOverflow
  | frameTooLarge
  | lengthMismatch
  deriving DecidableEq, Repr

/-- `PixelFormat::try_from`. -/
def PixelFormat.ofByte (value : UInt8) : Except ImageError PixelFormat :=
  if value = 1 then .ok .rgb8
  else if value = 2 then .ok .rgba8
  else if value = 3 then .ok .gray8
  else .error .unsupportedPixelFormat

structure ImageView where
  format : PixelFormat
  width : ℕ
  height : ℕ
  stride : ℕ
  bytes : List UInt8
  deriving DecidableEq, Repr

/-- `ImageView::new`, on 32-bit numbers. -/
def ImageView.new (format : PixelFormat) (width height stride : ℕ) (bytes : List UInt8) :
    Except ImageError ImageView :=
  if width = 0 ∨ height = 0 ∨ maxWidth < width ∨ maxHeight < height then
    .error .invalidDimensions
  else if width * format.bytesPerPixel ≥ 2 ^ 32 then .error .arithmeticOverflow
  else if stride < width * format.bytesPerPixel then .error .invalidStride
  else if stride * height ≥ 2 ^ 32 then .error .arithmeticOverflow
  else if stride * height > maxFrameBytes then .error .frameTooLarge
  else if bytes.length ≠ stride * height then .error .lengthMismatch
  else .ok { format, width, height, stride, bytes }

/-- An image within the bounds is accepted, with as many bytes as its rows take. -/
theorem ImageView.new_ok {width height stride : ℕ} {bytes : List UInt8}
    (hw : 0 < width ∧ width ≤ maxWidth) (hh : 0 < height ∧ height ≤ maxHeight)
    (hstride : width * 3 ≤ stride) (hbytes : bytes.length = stride * height)
    (hsize : stride * height ≤ maxFrameBytes) :
    ImageView.new .rgb8 width height stride bytes =
      .ok { format := .rgb8, width, height, stride, bytes } := by
  have hsmall : stride * height < 2 ^ 32 := Nat.lt_of_le_of_lt hsize (by decide)
  have hrow : ¬ width * PixelFormat.rgb8.bytesPerPixel ≥ 2 ^ 32 :=
    Nat.not_le.mpr (Nat.lt_of_le_of_lt (Nat.mul_le_mul_right 3 hw.2) (by decide))
  have hmin : ¬ stride < width * PixelFormat.rgb8.bytesPerPixel := Nat.not_lt.mpr hstride
  unfold ImageView.new
  rw [if_neg (by omega), if_neg hrow, if_neg hmin, if_neg (Nat.not_le.mpr hsmall),
    if_neg (Nat.not_lt.mpr hsize), if_neg (not_not.mpr hbytes)]

/-! ## Images of the application -/

/-- A `QImage`, by its pixels in the format RGB888: rows of three bytes for each
    pixel, perhaps with bytes behind them. -/
structure QImage where
  width : ℕ
  height : ℕ
  bytesPerLine : ℕ
  bits : List UInt8
  wide : width * 3 ≤ bytesPerLine
  size : bits.length = bytesPerLine * height

namespace QImage

/-- `constScanLine`. -/
def scanLine (image : QImage) (row : ℕ) : List UInt8 :=
  (image.bits.drop (row * image.bytesPerLine)).take image.bytesPerLine

/-- The pixels of the image, without what is behind the rows. -/
def pixels (image : QImage) : List UInt8 :=
  (List.range image.height).flatMap fun row => (image.scanLine row).take (image.width * 3)

theorem length_scanLine (image : QImage) {row : ℕ} (h : row < image.height) :
    (image.scanLine row).length = image.bytesPerLine := by
  refine length_field ?_
  rw [image.size]
  calc row * image.bytesPerLine + image.bytesPerLine = (row + 1) * image.bytesPerLine := by
        rw [Nat.succ_mul]
    _ ≤ image.bytesPerLine * image.height := by
        rw [Nat.mul_comm]
        exact Nat.mul_le_mul_left _ h

theorem length_pixels (image : QImage) :
    image.pixels.length = image.width * 3 * image.height := by
  have hrows : ∀ row ∈ List.range image.height,
      ((image.scanLine row).take (image.width * 3)).length = image.width * 3 := by
    intro row hrow
    rw [List.length_take, image.length_scanLine (List.mem_range.mp hrow)]
    exact Nat.min_eq_left image.wide
  rw [pixels, List.length_flatMap, List.map_congr_left hrows, List.map_const', List.length_range,
    List.sum_replicate_nat, Nat.mul_comm]

end QImage

end KFaceAuth
