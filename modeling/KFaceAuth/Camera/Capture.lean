import KFaceAuth.Daemon.Protocol
import KFaceAuth.Lib.Checked
import KFaceAuth.Worker.Wire
import Mathlib.Algebra.Order.Ring.Nat

/-!
# Capture of a frame

`kfaceauth_v4l2_capture` takes a frame of a camera: it negotiates a format, maps the
buffers of the driver, and makes up to six attempts at a frame that is not dark. Every
size comes from the driver. `capture_camera_frame` calls it with a buffer of its own.

The model answers the calls with what a `Driver` gives, whatever that is, and stops with
a fault where memory is touched that does not belong to the frame or to the buffer.

* `capture_exact`: there is no fault; after a success the buffer begins with the luma of
  the last frame that was complete, and `captureCameraFrame` returns just that; after a
  failure a buffer of zeros is still one.
-/

namespace KFaceAuth

namespace Capture

/-! ## Memory -/

/-- What must not happen to memory. -/
inductive Fault
  | readOutsideMapping
  | readPastUsed
  | readOutsideBuffer
  | writeOutsideBuffer
  deriving DecidableEq, Repr

/-- A value of `size_t`. -/
def size (n : ℕ) : ℕ := n % 2 ^ 64

/-- A buffer of the driver that is dequeued: the length of its mapping, the bytes that are
    used, and what the mapping holds. -/
structure Dequeued where
  length : ℕ
  used : ℕ
  memory : ℕ → UInt8

/-- Bytes of the mapping. -/
def Dequeued.read (d : Dequeued) (offset n : ℕ) : Except Fault (List UInt8) :=
  if d.length < offset + n then .error .readOutsideMapping
  else if d.used < offset + n then .error .readPastUsed
  else .ok ((List.range n).map fun i => d.memory (offset + i))

/-- Bytes of the buffer. -/
def write (buffer : List UInt8) (offset : ℕ) (bytes : List UInt8) : Except Fault (List UInt8) :=
  if buffer.length < offset + bytes.length then .error .writeOutsideBuffer
  else .ok (buffer.take offset ++ bytes ++ buffer.drop (offset + bytes.length))

/-- `memcpy(buffer + dst, mapping + src, n)` -/
def memcpy (d : Dequeued) (buffer : List UInt8) (dst src n : ℕ) : Except Fault (List UInt8) := do
  let bytes ← d.read src n
  write buffer dst bytes

/-- `buffer[p]` -/
def readBuffer (buffer : List UInt8) (p : ℕ) : Except Fault UInt8 :=
  match buffer[p]? with
  | some byte => .ok byte
  | none => .error .readOutsideBuffer

/-! ## The driver -/

def pixFmtGrey : UInt32 := 0x59455247
def pixFmtYuyv : UInt32 := 0x56595559
def capVideoCapture : UInt32 := 0x00000001
def capStreaming : UInt32 := 0x04000000
def capDeviceCaps : UInt32 := 0x80000000

/-- The fields of `v4l2_pix_format` that are read. -/
structure PixFormat where
  pixelformat : UInt32
  width : UInt32
  height : UInt32
  bytesperline : UInt32

/-- What an attempt at a frame meets. -/
structure Attempt where
  /-- The milliseconds to the deadline. -/
  remainingMs : ℤ
  /-- Whether `poll` finds a frame. -/
  poll : Bool
  /-- The index and `bytesused` of the buffer that `VIDIOC_DQBUF` gives. -/
  dequeue : Option (UInt32 × UInt32)
  /-- What its mapping holds as long as it is dequeued. -/
  memory : ℕ → UInt8

/-- The answers of the system: a call that fails gives nothing. -/
structure Driver where
  /-- The path that `auto_detect_camera` finds, or none. -/
  autoDetect : List UInt8
  opens : List UInt8 → Bool
  /-- `capabilities` and `device_caps`. -/
  queryCap : Option (UInt32 × UInt32)
  setGrey : Option PixFormat
  setYuyv : Option PixFormat
  getFormat : Option PixFormat
  requestBuffers : Option UInt32
  queryBuffer : ℕ → Option UInt32
  mmap : ℕ → Bool
  queueBuffer : ℕ → Bool
  streamOn : Bool
  attempt : ℕ → Attempt

/-! ## `kfaceauth_v4l2_capture` -/

inductive Status
  | ok
  | invalidArgument
  | providerFailure
  deriving DecidableEq, Repr

/-- The buffer and the other outputs, `capture_status` and `frame_attempt`. -/
structure State where
  buffer : List UInt8
  widthOut : UInt32
  heightOut : UInt32
  formatOut : UInt32
  captureStatus : Status
  frameAttempt : ℕ

/-- The format that is negotiated: grey, else YUYV, else the one that is set. -/
def negotiate (driver : Driver) : Option PixFormat :=
  match driver.setGrey with
  | some fmt => if fmt.pixelformat = pixFmtGrey then some fmt else fallback
  | none => fallback
where
  fallback := match driver.setYuyv with
    | some fmt => some fmt
    | none => driver.getFormat

/-- The format, if it is one that can be captured into the buffer. -/
def geometry (driver : Driver) (bufferSize : ℕ) : Option PixFormat :=
  match negotiate driver with
  | none => none
  | some fmt =>
    if fmt.pixelformat ≠ pixFmtGrey ∧ fmt.pixelformat ≠ pixFmtYuyv then none
    else if fmt.width = 0 ∨ fmt.height = 0 ∨ fmt.width > 1920 ∨ fmt.height > 1080 ∨
        size (fmt.width.toNat * fmt.height.toNat) > bufferSize then none
    else some fmt

/-- The loop that maps the buffers: the lengths of the mappings in the order of their
    index, at most `n` more. -/
def mapBuffers (driver : Driver) (count : UInt32) : ℕ → List ℕ → List ℕ
  | 0, mappings => mappings
  | n + 1, mappings =>
    let i := mappings.length
    if i < count.toNat then
      match driver.queryBuffer i with
      | none => mappings
      | some length =>
        if !driver.mmap i then mappings
        else if !driver.queueBuffer i then mappings ++ [length.toNat]
        else mapBuffers driver count n (mappings ++ [length.toNat])
    else mappings

/-- The branch for grey frames: the buffer with the frame, if that is complete. -/
def convertGrey (fmt : PixFormat) (d : Dequeued) (buffer : List UInt8) :
    Except Fault (Option (List UInt8)) :=
  let bytesperline := if fmt.bytesperline < fmt.width then fmt.width else fmt.bytesperline
  let minNeeded := size (bytesperline.toNat * (fmt.height - 1).toNat + fmt.width.toNat)
  if minNeeded ≤ d.length ∧ d.used ≥ minNeeded ∧
      buffer.length ≥ size (fmt.width.toNat * fmt.height.toNat) then do
    let buffer ← (List.range fmt.height.toNat).foldlM (fun buffer y =>
      memcpy d buffer (size (y * fmt.width.toNat)) (size (y * bytesperline.toNat))
        fmt.width.toNat) buffer
    .ok (some buffer)
  else .ok none

/-- The branch for YUYV frames: every second byte is luma. -/
def convertYuyv (fmt : PixFormat) (d : Dequeued) (buffer : List UInt8) :
    Except Fault (Option (List UInt8)) :=
  let bytesperline := if fmt.bytesperline < fmt.width * 2 then fmt.width * 2 else fmt.bytesperline
  let minNeeded := size (bytesperline.toNat * (fmt.height - 1).toNat + size (fmt.width.toNat * 2))
  if minNeeded ≤ d.length ∧ d.used ≥ minNeeded ∧
      buffer.length ≥ size (fmt.width.toNat * fmt.height.toNat) then do
    let buffer ← (List.range fmt.height.toNat).foldlM (fun buffer y =>
      let rowSrc := size (y * bytesperline.toNat)
      let rowDst := size (y * fmt.width.toNat)
      (List.range fmt.width.toNat).foldlM (fun buffer x =>
        memcpy d buffer (rowDst + x) (rowSrc + x * 2 % 2 ^ 32) 1) buffer) buffer
    .ok (some buffer)
  else .ok none

def convert (fmt : PixFormat) (d : Dequeued) (buffer : List UInt8) :
    Except Fault (Option (List UInt8)) :=
  if fmt.pixelformat = pixFmtGrey then convertGrey fmt d buffer
  else if fmt.pixelformat = pixFmtYuyv then convertYuyv fmt d buffer
  else .ok none

/-- The sum of every sixteenth pixel, and their number. -/
def sample (s : State) : Except Fault (ℕ × ℕ) :=
  let needed := size (s.widthOut.toNat * s.heightOut.toNat)
  (List.range ((needed + 15) / 16)).foldlM (fun acc i => do
    let byte ← readBuffer s.buffer (16 * i)
    .ok ((acc.1 + byte.toNat) % 2 ^ 64, acc.2 + 1)) (0, 0)

/-- Whether the frame is dark, and there may be another attempt. -/
def isDark (s : State) : Except Fault Bool :=
  if s.captureStatus = .ok ∧ s.formatOut = 3 then do
    let (sum, count) ← sample s
    .ok (decide (count > 0) && decide (sum / count < 8) && decide (s.frameAttempt < 5))
  else .ok false

/-- The buffer that an attempt dequeues, after the checks of its index and its bytes. -/
def dequeue (mappings : List ℕ) (a : Attempt) : Option Dequeued :=
  if a.remainingMs ≤ 0 ∨ !a.poll then none
  else
    match a.dequeue with
    | none => none
    | some (index, bytesused) =>
      match mappings[index.toNat]? with
      | none => none
      | some length =>
        if bytesused.toNat > length then none else some ⟨length, bytesused.toNat, a.memory⟩

/-- The body of the loop over the attempts, and whether it goes on. -/
def tryFrame (fmt : PixFormat) (mappings : List ℕ) (a : Attempt) (s : State) :
    Except Fault (State × Bool) :=
  match dequeue mappings a with
  | none => .ok (s, false)
  | some d => do
    let converted ← convert fmt d s.buffer
    let s := match converted with
      | none => s
      | some buffer =>
        { s with buffer, widthOut := fmt.width, heightOut := fmt.height, formatOut := 3,
                 captureStatus := .ok }
    let dark ← isDark s
    .ok (s, dark)

/-- The loop over the attempts, at most `n` from attempt `k` on. -/
def frames (driver : Driver) (fmt : PixFormat) (mappings : List ℕ) :
    ℕ → ℕ → State → Except Fault State
  | 0, _, s => .ok s
  | n + 1, k, s => do
    let (s, again) ← tryFrame fmt mappings (driver.attempt k) { s with frameAttempt := k }
    if again then frames driver fmt mappings n (k + 1) s else .ok s

/-- The path of the camera, if there is one, or how the search ends. -/
def resolvePath (driver : Driver) (devicePath : Option (List UInt8)) :
    Except Status (List UInt8) :=
  match devicePath with
  | some path =>
    if path = [] then detected
    else if path.length ≥ 128 then .error .invalidArgument
    else .ok path
  | none => detected
where
  detected := if driver.autoDetect = [] then .error .providerFailure else .ok driver.autoDetect

/-- What is there when the stream is on: the format and the mappings. -/
def prepare (driver : Driver) (devicePath : Option (List UInt8)) (bufferSize : ℕ) :
    Except Status (PixFormat × List ℕ) :=
  match resolvePath driver devicePath with
  | .error status => .error status
  | .ok path =>
    if !driver.opens path then .error .providerFailure
    else
      match driver.queryCap with
      | none => .error .providerFailure
      | some (capabilities, deviceCaps) =>
        let caps := if capabilities &&& capDeviceCaps ≠ 0 then deviceCaps else capabilities
        if caps &&& capVideoCapture = 0 ∨ caps &&& capStreaming = 0 then .error .providerFailure
        else
          match geometry driver bufferSize, driver.requestBuffers with
          | some fmt, some count =>
            if count < 1 then .error .providerFailure
            else
              let mappings := mapBuffers driver count 4 []
              if mappings = [] ∨ !driver.streamOn then .error .providerFailure
              else .ok (fmt, mappings)
          | _, _ => .error .providerFailure

/-- `kfaceauth_v4l2_capture`, on the outputs of the caller. -/
def v4l2Capture (driver : Driver) (devicePath : Option (List UInt8)) (out : State) :
    Except Fault State :=
  if out.buffer.length = 0 then .ok { out with captureStatus := .invalidArgument }
  else
    match prepare driver devicePath out.buffer.length with
    | .error status => .ok { out with captureStatus := status }
    | .ok (fmt, mappings) => do
      let s ← frames driver fmt mappings 6 0 { out with captureStatus := .providerFailure }
      if s.captureStatus ≠ .ok then
        .ok { s with buffer := List.replicate s.buffer.length 0 }
      else .ok s

/-! ## `capture_camera_frame` -/

structure CapturedFrame where
  width : UInt32
  height : UInt32
  stride : UInt32
  format : UInt8
  bytes : List UInt8

/-- The outputs as the caller makes them. -/
def fresh (n : ℕ) : State := ⟨List.replicate n 0, 0, 0, 0, .providerFailure, 0⟩

/-- `u32::checked_mul` -/
def checkedMul (a b : UInt32) : Option UInt32 :=
  if a.toNat * b.toNat < 2 ^ 32 then some (a * b) else none

def captureCameraFrame (driver : Driver) (devicePath : Option (List UInt8)) :
    Except Fault (Except UInt8 CapturedFrame) :=
  -- `CString::new` fails on a path with a zero
  if devicePath.any (0 ∈ ·) then .ok (.error statusDeviceBusy)
  else do
    let s ← v4l2Capture driver devicePath (fresh maxFrameBytes)
    if s.captureStatus ≠ .ok then .ok (.error statusDeviceBusy)
    else if s.formatOut.toNat ≥ 256 then .ok (.error statusDeviceBusy)
    else
      let format := s.formatOut.toNat.toUInt8
      let bpp : UInt32 := if format = 3 then 1 else if format = 2 then 4 else 3
      match checkedMul s.widthOut bpp with
      | none => .ok (.error statusDeviceBusy)
      | some stride =>
        match checkedMul stride s.heightOut with
        | none => .ok (.error statusDeviceBusy)
        | some expectedLen =>
          if s.buffer.length < expectedLen.toNat then .ok (.error statusDeviceBusy)
          else
            .ok (.ok ⟨s.widthOut, s.heightOut, stride, format,
              s.buffer.take expectedLen.toNat⟩)

/-! ## Complete frames -/

namespace PixFormat

variable (fmt : PixFormat) (memory : ℕ → UInt8)

/-- The bytes of a pixel. -/
def step : ℕ := if fmt.pixelformat = pixFmtGrey then 1 else 2

/-- The bytes from a row to the next: as many as the driver says, but at least those of
    the row. -/
def stride : ℕ := max fmt.bytesperline.toNat (fmt.step * fmt.width.toNat)

/-- The bytes up to the end of the last row. -/
def extent : ℕ := fmt.stride * (fmt.height.toNat - 1) + fmt.step * fmt.width.toNat

/-- The luma of a row. -/
def row (y : ℕ) : List UInt8 :=
  (List.range fmt.width.toNat).map fun x => memory (y * fmt.stride + fmt.step * x)

/-- The luma of the first rows. -/
def rows (n : ℕ) : List UInt8 := (List.range n).flatMap (fmt.row memory)

/-- The luma of a frame. -/
def image : List UInt8 := fmt.rows memory fmt.height.toNat

/-- A format that can be captured into a buffer of some size. -/
structure Fits (n : ℕ) : Prop where
  known : fmt.pixelformat = pixFmtGrey ∨ fmt.pixelformat = pixFmtYuyv
  width_pos : 0 < fmt.width.toNat
  height_pos : 0 < fmt.height.toNat
  width_le : fmt.width.toNat ≤ 1920
  height_le : fmt.height.toNat ≤ 1080
  area_le : fmt.width.toNat * fmt.height.toNat ≤ n

variable {fmt memory} {n : ℕ}

theorem rows_succ (y : ℕ) : fmt.rows memory (y + 1) = fmt.rows memory y ++ fmt.row memory y := by
  rw [rows, List.range_succ, List.flatMap_append, List.flatMap_singleton]
  rfl

theorem length_row (y : ℕ) : (fmt.row memory y).length = fmt.width.toNat := by
  rw [row, List.length_map, List.length_range]

theorem length_rows (y : ℕ) : (fmt.rows memory y).length = y * fmt.width.toNat := by
  induction y with
  | zero => rw [rows, List.range_zero, List.flatMap_nil, List.length_nil, Nat.zero_mul]
  | succ y ih => rw [rows_succ, List.length_append, ih, length_row, Nat.succ_mul]

theorem length_image : (fmt.image memory).length = fmt.width.toNat * fmt.height.toNat := by
  rw [image, length_rows, Nat.mul_comm]

theorem step_le : fmt.step ≤ 2 := by
  unfold step
  split_ifs <;> decide

/-- The end of a row is within the frame. -/
theorem row_le_extent {y : ℕ} (hy : y < fmt.height.toNat) :
    y * fmt.stride + fmt.step * fmt.width.toNat ≤ fmt.extent := by
  have hrow : y * fmt.stride ≤ fmt.stride * (fmt.height.toNat - 1) := by
    rw [Nat.mul_comm]
    exact Nat.mul_le_mul_left _ (by omega)
  exact Nat.add_le_add_right hrow _

theorem row_le_area {y : ℕ} (h : fmt.Fits n) (hy : y < fmt.height.toNat) :
    y * fmt.width.toNat + fmt.width.toNat ≤ n := by
  have hrow : (y + 1) * fmt.width.toNat ≤ fmt.height.toNat * fmt.width.toNat :=
    Nat.mul_le_mul_right _ hy
  rw [Nat.succ_mul] at hrow
  exact hrow.trans (by rw [Nat.mul_comm]; exact h.area_le)

theorem stride_lt (h : fmt.Fits n) : fmt.stride < 2 ^ 32 := by
  have hline := fmt.bytesperline.toNat_lt
  have hrow : fmt.step * fmt.width.toNat ≤ 2 * 1920 := Nat.mul_le_mul step_le h.width_le
  exact max_lt hline (by omega)

theorem extent_lt (h : fmt.Fits n) : fmt.extent < 2 ^ 64 := by
  have hrow : fmt.step * fmt.width.toNat ≤ 2 * 1920 := Nat.mul_le_mul step_le h.width_le
  have hrows : fmt.stride * (fmt.height.toNat - 1) ≤ 2 ^ 32 * 1080 :=
    Nat.mul_le_mul (Nat.le_of_lt (stride_lt h)) (by have := h.height_le; omega)
  rw [extent]
  omega

end PixFormat

theorem size_of_lt {n : ℕ} (h : n < 2 ^ 64) : size n = n := Nat.mod_eq_of_lt h

theorem geometry_fits {driver : Driver} {n : ℕ} {fmt : PixFormat}
    (h : geometry driver n = some fmt) : fmt.Fits n := by
  unfold geometry at h
  split at h
  · cases h
  · next other _ =>
    split_ifs at h with hknown hsize
    cases h
    simp only [not_or, not_and_or, not_not, gt_iff_lt, UInt32.lt_iff_toNat_lt, Nat.not_lt]
      at hknown hsize
    obtain ⟨hwidth, hheight, hwidth', hheight', harea⟩ := hsize
    change fmt.width.toNat ≤ 1920 at hwidth'
    change fmt.height.toNat ≤ 1080 at hheight'
    have hproduct : fmt.width.toNat * fmt.height.toNat ≤ 1920 * 1080 :=
      Nat.mul_le_mul hwidth' hheight'
    rw [size_of_lt (by omega)] at harea
    refine ⟨hknown, Nat.pos_of_ne_zero fun heq => hwidth ?_,
      Nat.pos_of_ne_zero fun heq => hheight ?_, hwidth', hheight', harea⟩
    · exact UInt32.toNat_inj.mp heq
    · exact UInt32.toNat_inj.mp heq

/-! ## Copying -/

section Copying

variable {fmt : PixFormat} {d : Dequeued} {buffer front : List UInt8}

/-- A copy behind what has been copied. -/
theorem meets_memcpy {dst src n : ℕ} (hused : d.used ≤ d.length) (hsrc : src + n ≤ d.used)
    (hdst : dst = front.length) (hroom : dst + n ≤ buffer.length) (hfront : front <+: buffer) :
    Meets (fun _ : Fault => False) (fun b => b.length = buffer.length ∧
      front ++ (List.range n).map (fun i => d.memory (src + i)) <+: b)
      (memcpy d buffer dst src n) := by
  have hread : d.read src n = .ok ((List.range n).map fun i => d.memory (src + i)) := by
    rw [Dequeued.read, if_neg (by omega), if_neg (by omega)]
  have htake : buffer.take dst = front := by
    rw [hdst]
    exact (List.prefix_iff_eq_take.mp hfront).symm
  rw [memcpy, hread]
  simp only [bind, Except.bind, write, List.length_map, List.length_range, htake]
  rw [if_neg (by omega)]
  refine ⟨?_, List.prefix_append _ _⟩
  simp only [List.length_append, List.length_map, List.length_range, List.length_drop]
  omega

/-- The length checks say that the frame is complete. -/
theorem checks_iff {minNeeded : ℕ} (hfits : fmt.Fits buffer.length)
    (hused : d.used ≤ d.length) (hneeded : minNeeded = fmt.extent) :
    (minNeeded ≤ d.length ∧ d.used ≥ minNeeded ∧
      buffer.length ≥ size (fmt.width.toNat * fmt.height.toNat)) ↔ fmt.extent ≤ d.used := by
  have harea : fmt.width.toNat * fmt.height.toNat ≤ 1920 * 1080 :=
    Nat.mul_le_mul hfits.width_le hfits.height_le
  have hroom := hfits.area_le
  rw [hneeded, size_of_lt (by omega)]
  omega

theorem toNat_height_sub_one (hfits : fmt.Fits buffer.length) :
    (fmt.height - 1).toNat = fmt.height.toNat - 1 := by
  have hpos := hfits.height_pos
  exact UInt32.toNat_sub_of_le _ _ (UInt32.le_iff_toNat_le.mpr hpos)

/-- What a conversion must do: nothing with a frame that is not complete, and else write
    its luma. -/
def Converts (fmt : PixFormat) (d : Dequeued) (buffer : List UInt8)
    (r : Option (List UInt8)) : Prop :=
  (fmt.extent ≤ d.used → ∃ b, r = some b ∧ b.length = buffer.length ∧
    fmt.image d.memory <+: b) ∧ (¬ fmt.extent ≤ d.used → r = none)

/-- A conversion that makes the checks, and goes through the rows. -/
theorem meets_convert {checks : Prop} [Decidable checks]
    {row : List UInt8 → ℕ → Except Fault (List UInt8)}
    (hchecks : checks ↔ fmt.extent ≤ d.used)
    (hrow : ∀ y < fmt.height.toNat, ∀ b : List UInt8, fmt.extent ≤ d.used →
      b.length = buffer.length → fmt.rows d.memory y <+: b →
      Meets (fun _ : Fault => False) (fun b' => b'.length = buffer.length ∧
        fmt.rows d.memory y ++ fmt.row d.memory y <+: b') (row b y)) :
    Meets (fun _ : Fault => False) (Converts fmt d buffer)
      (if checks then do
        let buffer ← (List.range fmt.height.toNat).foldlM row buffer
        .ok (some buffer)
      else .ok none) := by
  by_cases h : checks
  · have hextent := hchecks.mp h
    rw [if_pos h]
    refine meets_bind (P := fun b => b.length = buffer.length ∧ fmt.image d.memory <+: b) ?_
      fun b hb => ⟨fun _ => ⟨b, rfl, hb⟩, fun hnot => absurd hextent hnot⟩
    refine meets_range (I := fun y b => b.length = buffer.length ∧ fmt.rows d.memory y <+: b)
      ⟨rfl, List.nil_prefix⟩ fun y hy b hb => ?_
    rw [PixFormat.rows_succ]
    exact hrow y hy b hextent hb.1 hb.2
  · rw [if_neg h]
    exact ⟨fun hextent => absurd (hchecks.mpr hextent) h, fun _ => rfl⟩

variable (hfits : fmt.Fits buffer.length) (hbuffer : buffer.length < 2 ^ 64)
  (hused : d.used ≤ d.length)

include hfits in
theorem size_row_src {y : ℕ} (hy : y < fmt.height.toNat) :
    size (y * fmt.stride) = y * fmt.stride := by
  have hrow := PixFormat.row_le_extent hy
  have hextent := PixFormat.extent_lt hfits
  exact size_of_lt (by omega)

include hfits hbuffer in
theorem size_row_dst {y : ℕ} (hy : y < fmt.height.toNat) :
    size (y * fmt.width.toNat) = y * fmt.width.toNat := by
  have hrow := PixFormat.row_le_area hfits hy
  exact size_of_lt (by omega)

include hfits hbuffer hused in
theorem meets_convertGrey (hgrey : fmt.pixelformat = pixFmtGrey) :
    Meets (fun _ : Fault => False) (Converts fmt d buffer) (convertGrey fmt d buffer) := by
  have hstep : fmt.step = 1 := if_pos hgrey
  have hline : (if fmt.bytesperline < fmt.width then fmt.width else fmt.bytesperline).toNat =
      fmt.stride := by
    rw [PixFormat.stride, hstep, Nat.one_mul]
    split_ifs with h
    · exact (max_eq_right (Nat.le_of_lt (UInt32.lt_iff_toNat_lt.mp h))).symm
    · exact (max_eq_left (Nat.not_lt.mp fun h' => h (UInt32.lt_iff_toNat_lt.mpr h'))).symm
  have hextent : fmt.extent = fmt.stride * (fmt.height.toNat - 1) + fmt.width.toNat := by
    rw [PixFormat.extent, hstep, Nat.one_mul]
  unfold convertGrey
  simp only [hline]
  refine meets_convert (checks_iff hfits hused ?_) fun y hy b hcomplete hlength hfront => ?_
  · rw [toNat_height_sub_one hfits, ← hextent, size_of_lt (PixFormat.extent_lt hfits)]
  · -- a row is copied at once
    have hsrc := PixFormat.row_le_extent hy
    have hdst := PixFormat.row_le_area hfits hy
    have hrow : fmt.row d.memory y = (List.range fmt.width.toNat).map
        fun x => d.memory (y * fmt.stride + x) := by
      simp only [PixFormat.row, hstep, Nat.one_mul]
    rw [hstep, Nat.one_mul] at hsrc
    rw [size_row_src hfits hy, size_row_dst hfits hbuffer hy, hrow, ← hlength]
    exact meets_memcpy hused (by omega) (PixFormat.length_rows y).symm (by omega) hfront

include hfits hbuffer hused in
theorem meets_convertYuyv (hyuyv : fmt.pixelformat = pixFmtYuyv) :
    Meets (fun _ : Fault => False) (Converts fmt d buffer) (convertYuyv fmt d buffer) := by
  have hstep : fmt.step = 2 := if_neg (by rw [hyuyv]; decide)
  have hwidth := hfits.width_le
  have hdouble : (fmt.width * 2).toNat = 2 * fmt.width.toNat := by
    rw [UInt32.toNat_mul, Nat.mul_comm]
    exact Nat.mod_eq_of_lt (by change 2 * _ < _; omega)
  have hline : (if fmt.bytesperline < fmt.width * 2 then fmt.width * 2
      else fmt.bytesperline).toNat = fmt.stride := by
    rw [PixFormat.stride, hstep, ← hdouble]
    split_ifs with h
    · exact (max_eq_right (Nat.le_of_lt (UInt32.lt_iff_toNat_lt.mp h))).symm
    · exact (max_eq_left (Nat.not_lt.mp fun h' => h (UInt32.lt_iff_toNat_lt.mpr h'))).symm
  have hextent : fmt.extent = fmt.stride * (fmt.height.toNat - 1) + fmt.width.toNat * 2 := by
    rw [PixFormat.extent, hstep, Nat.mul_comm 2]
  unfold convertYuyv
  simp only [hline]
  refine meets_convert (checks_iff hfits hused ?_) fun y hy b hcomplete hlength hfront => ?_
  · rw [toNat_height_sub_one hfits, size_of_lt (n := fmt.width.toNat * 2) (by omega), ← hextent,
      size_of_lt (PixFormat.extent_lt hfits)]
  · -- a row is copied pixel by pixel
    have hsrc := PixFormat.row_le_extent hy
    have hdst := PixFormat.row_le_area hfits hy
    rw [hstep] at hsrc
    simp only [size_row_src hfits hy, size_row_dst hfits hbuffer hy]
    refine meets_range (I := fun x b' => b'.length = buffer.length ∧ fmt.rows d.memory y ++
      (List.range x).map (fun x => d.memory (y * fmt.stride + fmt.step * x)) <+: b')
      ⟨hlength, by rwa [List.range_zero, List.map_nil, List.append_nil]⟩ fun x hx b' hb' => ?_
    have hpixel : x * 2 % 2 ^ 32 = fmt.step * x := by
      rw [hstep, Nat.mul_comm 2]
      exact Nat.mod_eq_of_lt (by omega)
    rw [hpixel, List.range_succ, List.map_append, ← List.append_assoc, ← hb'.1]
    refine (meets_memcpy hused (n := 1) ?_ ?_ ?_ hb'.2).mono fun b'' hb'' => hb''
    · rw [hstep]
      omega
    · rw [List.length_append, List.length_map, List.length_range, PixFormat.length_rows]
    · omega

include hfits hbuffer hused in
theorem meets_convert_frame :
    Meets (fun _ : Fault => False) (Converts fmt d buffer) (convert fmt d buffer) := by
  unfold convert
  rcases hfits.known with hgrey | hyuyv
  · rw [if_pos hgrey]
    exact meets_convertGrey hfits hbuffer hused hgrey
  · rw [if_neg (by rw [hyuyv]; decide), if_pos hyuyv]
    exact meets_convertYuyv hfits hbuffer hused hyuyv

end Copying

/-! ## Attempts -/

section Attempts

variable {driver : Driver} {fmt : PixFormat} {mappings : List ℕ} {s : State} {n k : ℕ}

/-- An attempt dequeues a complete frame. -/
def Delivered (driver : Driver) (fmt : PixFormat) (mappings : List ℕ) (k : ℕ) (d : Dequeued) :
    Prop :=
  dequeue mappings (driver.attempt k) = some d ∧ fmt.extent ≤ d.used

/-- The last complete frame of the attempts before some attempt. -/
def IsLast (driver : Driver) (fmt : PixFormat) (mappings : List ℕ) (k : ℕ) (d : Dequeued) : Prop :=
  ∃ j < k, Delivered driver fmt mappings j d ∧
    ∀ i, j < i → i < k → ∀ other, ¬ Delivered driver fmt mappings i other

/-- The outputs before an attempt: a success means that they hold the last complete
    frame. -/
structure Holds (driver : Driver) (fmt : PixFormat) (mappings : List ℕ) (n k : ℕ) (s : State) :
    Prop where
  length : s.buffer.length = n
  frame : s.captureStatus = .ok → ∃ d, IsLast driver fmt mappings k d ∧
    s.widthOut = fmt.width ∧ s.heightOut = fmt.height ∧ s.formatOut = 3 ∧
      fmt.image d.memory <+: s.buffer

theorem dequeue_used {a : Attempt} {d : Dequeued} (h : dequeue mappings a = some d) :
    d.used ≤ d.length := by
  unfold dequeue at h
  split_ifs at h
  split at h
  · cases h
  · split at h
    · cases h
    · split_ifs at h with hused
      cases h
      exact Nat.not_lt.mp hused

/-- An attempt without a complete frame leaves the outputs. -/
theorem Holds.next (h : Holds driver fmt mappings n k s)
    (hnone : ∀ d, ¬ Delivered driver fmt mappings k d) : Holds driver fmt mappings n (k + 1) s := by
  refine ⟨h.length, fun hok => ?_⟩
  obtain ⟨d, ⟨j, hj, hdelivered, hlast⟩, hout⟩ := h.frame hok
  refine ⟨d, ⟨j, by omega, hdelivered, fun i hi hik => ?_⟩, hout⟩
  rcases Nat.lt_succ_iff_lt_or_eq.mp hik with hik | rfl
  · exact hlast i hi hik
  · exact hnone

theorem meets_isDark (hfits : fmt.Fits n) (h : Holds driver fmt mappings n k s) :
    Meets (fun _ : Fault => False) (fun _ => True) (isDark s) := by
  unfold isDark
  by_cases hok : s.captureStatus = .ok ∧ s.formatOut = 3
  · rw [if_pos hok]
    obtain ⟨d, -, hwidth, hheight, -, hprefix⟩ := h.frame hok.1
    have harea : fmt.width.toNat * fmt.height.toNat ≤ s.buffer.length := by
      rw [h.length]
      exact hfits.area_le
    refine meets_bind (P := fun _ => True) ?_ fun acc _ => trivial
    unfold sample
    rw [hwidth, hheight]
    refine meets_range (I := fun _ _ => True) trivial fun i hi acc _ => ?_
    have hindex : 16 * i < s.buffer.length := by
      have hle : size (fmt.width.toNat * fmt.height.toNat) ≤
          fmt.width.toNat * fmt.height.toNat := Nat.mod_le _ _
      omega
    rw [readBuffer, List.getElem?_eq_getElem hindex]
    exact trivial
  · rw [if_neg hok]
    exact trivial

/-- What an attempt keeps. -/
theorem meets_tryFrame (hfits : fmt.Fits n) (hn : n < 2 ^ 64)
    (h : Holds driver fmt mappings n k s) (hk : s.frameAttempt = k) :
    Meets (fun _ : Fault => False)
      (fun r => Holds driver fmt mappings n (k + 1) r.1 ∧ r.1.frameAttempt = k)
      (tryFrame fmt mappings (driver.attempt k) s) := by
  unfold tryFrame
  cases hd : dequeue mappings (driver.attempt k) with
  | none =>
    refine ⟨h.next fun d hdelivered => ?_, hk⟩
    rw [hdelivered.1] at hd
    cases hd
  | some d =>
    subst hk
    have hlength := h.length
    have hconvert := meets_convert_frame (by rwa [hlength]) (by rwa [hlength]) (dequeue_used hd)
    refine meets_bind hconvert fun r hr => ?_
    by_cases hcomplete : fmt.extent ≤ d.used
    · obtain ⟨b, rfl, hb, hprefix⟩ := hr.1 hcomplete
      have hlast : IsLast driver fmt mappings (s.frameAttempt + 1) d :=
        ⟨s.frameAttempt, Nat.lt_succ_self _, ⟨hd, hcomplete⟩, fun i hi hik => by omega⟩
      have hnext : Holds driver fmt mappings n (s.frameAttempt + 1)
          ⟨b, fmt.width, fmt.height, 3, .ok, s.frameAttempt⟩ :=
        ⟨hb.trans hlength, fun _ => ⟨d, hlast, rfl, rfl, rfl, hprefix⟩⟩
      exact meets_bind (meets_isDark hfits hnext) fun _ _ => ⟨hnext, rfl⟩
    · have hnext : Holds driver fmt mappings n (s.frameAttempt + 1) s := by
        refine h.next fun other hdelivered => hcomplete ?_
        have hsame := hdelivered.1
        rw [hd, Option.some.injEq] at hsame
        rw [hsame]
        exact hdelivered.2
      rw [hr.2 hcomplete]
      exact meets_bind (meets_isDark hfits hnext) fun _ _ => ⟨hnext, rfl⟩

/-- What the whole loop keeps. -/
theorem meets_frames (hfits : fmt.Fits n) (hn : n < 2 ^ 64) (m : ℕ)
    (h : Holds driver fmt mappings n k s) (hm : m = 0 → s.frameAttempt + 1 = k) :
    Meets (fun _ : Fault => False)
      (fun s' => Holds driver fmt mappings n (s'.frameAttempt + 1) s')
      (frames driver fmt mappings m k s) := by
  induction m generalizing k s with
  | zero =>
    rw [← hm rfl] at h
    exact h
  | succ m ih =>
    have hstart : Holds driver fmt mappings n k { s with frameAttempt := k } := ⟨h.length, h.frame⟩
    refine meets_bind (meets_tryFrame hfits hn hstart rfl) fun r hr => ?_
    obtain ⟨s', again⟩ := r
    obtain ⟨hnext, hk⟩ := hr
    cases again with
    | true => exact ih hnext fun _ => by rw [hk]
    | false =>
      dsimp only at hnext hk
      rw [← hk] at hnext
      exact hnext

end Attempts

/-! ## The capture -/

theorem prepare_fits {driver : Driver} {devicePath : Option (List UInt8)} {n : ℕ}
    {fmt : PixFormat} {mappings : List ℕ}
    (h : prepare driver devicePath n = .ok (fmt, mappings)) : fmt.Fits n := by
  unfold prepare at h
  split at h
  · cases h
  split_ifs at h
  split at h
  · cases h
  dsimp only at h
  split_ifs at h
  all_goals
    split at h
    · next hgeometry _ =>
      split_ifs at h
      cases h
      exact geometry_fits hgeometry
    · cases h

theorem prepare_error {driver : Driver} {devicePath : Option (List UInt8)} {n : ℕ}
    {status : Status} (h : prepare driver devicePath n = .error status) : status ≠ .ok := by
  unfold prepare at h
  split at h
  · next hresolve =>
    cases h
    unfold resolvePath resolvePath.detected at hresolve
    split at hresolve <;> split_ifs at hresolve <;> cases hresolve <;> nofun
  split_ifs at h
  · cases h
    nofun
  split at h
  · cases h
    nofun
  dsimp only at h
  split_ifs at h
  all_goals
    first
    | cases h; nofun
    | split at h
      · split_ifs at h
        all_goals cases h; nofun
      · cases h
        nofun

/-- What the caller makes of a success. -/
theorem captureCameraFrame_eq {driver : Driver} {devicePath : Option (List UInt8)} {s : State}
    {fmt : PixFormat} (hpath : devicePath.any (0 ∈ ·) = false)
    (h : v4l2Capture driver devicePath (fresh maxFrameBytes) = .ok s)
    (hok : s.captureStatus = .ok) (hwidth : s.widthOut = fmt.width)
    (hheight : s.heightOut = fmt.height) (hformat : s.formatOut = 3)
    (hfits : fmt.Fits s.buffer.length) :
    captureCameraFrame driver devicePath = .ok (.ok ⟨fmt.width, fmt.height, fmt.width, 3,
      s.buffer.take (fmt.width.toNat * fmt.height.toNat)⟩) := by
  have harea : fmt.width.toNat * fmt.height.toNat ≤ 1920 * 1080 :=
    Nat.mul_le_mul hfits.width_le hfits.height_le
  have hproduct : (fmt.width * fmt.height).toNat = fmt.width.toNat * fmt.height.toNat := by
    rw [UInt32.toNat_mul]
    exact Nat.mod_eq_of_lt (by omega)
  have hstride : checkedMul fmt.width 1 = some fmt.width := by
    rw [checkedMul, if_pos, UInt32.mul_one]
    exact (Nat.mul_one _).trans_lt fmt.width.toNat_lt
  have hexpected : checkedMul fmt.width fmt.height = some (fmt.width * fmt.height) := by
    rw [checkedMul, if_pos (by omega)]
  have hroom := hfits.area_le
  rw [captureCameraFrame, if_neg (by rw [hpath]; exact Bool.false_ne_true), h]
  simp only [bind, Except.bind, hok, hformat, hwidth, hheight]
  rw [if_neg (fun hne => hne rfl), if_neg (by decide)]
  have hthree : ((3 : UInt32).toNat.toUInt8 : UInt8) = 3 := rfl
  simp only [hthree, if_true, hstride, hexpected, hproduct]
  rw [if_neg (by omega)]

/-- The capture stays in bounds, and is exact: a success is the last complete frame, and
    a failure leaves nothing in the buffer. -/
theorem capture_exact (driver : Driver) (devicePath : Option (List UInt8)) (out : State)
    (hsize : out.buffer.length < 2 ^ 64) :
    ∃ s, v4l2Capture driver devicePath out = .ok s ∧ s.buffer.length = out.buffer.length ∧
      (s.captureStatus = .ok → ∃ fmt mappings d,
        prepare driver devicePath out.buffer.length = .ok (fmt, mappings) ∧
        IsLast driver fmt mappings (s.frameAttempt + 1) d ∧
        s.widthOut = fmt.width ∧ s.heightOut = fmt.height ∧
        s.buffer.take (fmt.width.toNat * fmt.height.toNat) = fmt.image d.memory ∧
        (out = fresh maxFrameBytes → devicePath.any (0 ∈ ·) = false →
          captureCameraFrame driver devicePath =
            .ok (.ok ⟨fmt.width, fmt.height, fmt.width, 3, fmt.image d.memory⟩))) ∧
      (s.captureStatus ≠ .ok → (∀ byte ∈ out.buffer, byte = 0) → ∀ byte ∈ s.buffer, byte = 0) := by
  by_cases hempty : out.buffer.length = 0
  · refine ⟨{ out with captureStatus := .invalidArgument }, if_pos hempty, rfl, ?_, ?_⟩
    · intro hok
      cases hok
    · exact fun _ hzero => hzero
  unfold v4l2Capture
  rw [if_neg hempty]
  cases hprepare : prepare driver devicePath out.buffer.length with
  | error status =>
    refine ⟨{ out with captureStatus := status }, rfl, rfl, fun hok => ?_, fun _ hzero => hzero⟩
    exact absurd hok (prepare_error hprepare)
  | ok prepared =>
    obtain ⟨fmt, mappings⟩ := prepared
    have hfits := prepare_fits hprepare
    have hstart : Holds driver fmt mappings out.buffer.length 0
        { out with captureStatus := .providerFailure } := by
      refine ⟨rfl, fun hok => ?_⟩
      cases hok
    obtain ⟨s, hrun, hs⟩ := (meets_frames hfits hsize 6 hstart nofun).exists_ok fun _ h => h
    simp only [hrun, bind, Except.bind]
    by_cases hok : s.captureStatus = .ok
    · rw [if_neg (not_not.mpr hok)]
      obtain ⟨d, hlast, hwidth, hheight, hformat, hprefix⟩ := hs.frame hok
      have htake : s.buffer.take (fmt.width.toNat * fmt.height.toNat) = fmt.image d.memory := by
        rw [← PixFormat.length_image]
        exact (List.prefix_iff_eq_take.mp hprefix).symm
      refine ⟨s, rfl, hs.length, fun _ => ⟨fmt, mappings, d, rfl, hlast, hwidth, hheight, htake,
        fun hfresh hpath => ?_⟩, fun hne => absurd hok hne⟩
      rw [← htake]
      refine captureCameraFrame_eq hpath ?_ hok hwidth hheight hformat (by rwa [hs.length])
      rw [← hfresh, v4l2Capture, if_neg hempty, hprepare]
      simp only [hrun, bind, Except.bind]
      rw [if_neg (not_not.mpr hok)]
    · rw [if_pos hok]
      refine ⟨_, rfl, ?_, fun h => absurd h hok, fun _ _ byte hbyte => ?_⟩
      · rw [← hs.length]
        exact List.length_replicate
      · exact List.eq_of_mem_replicate hbyte

/-- A camera with grey frames of two rows of two pixels, each row padded by a byte. The
    first frame is dark. -/
def strobe : Driver where
  autoDetect := [47]
  opens _ := true
  queryCap := some (capVideoCapture ||| capStreaming, 0)
  setGrey := some ⟨pixFmtGrey, 2, 2, 3⟩
  setYuyv := none
  getFormat := none
  requestBuffers := some 1
  queryBuffer _ := some 5
  mmap _ := true
  queueBuffer _ := true
  streamOn := true
  attempt k := ⟨100, true, some (0, 5), fun i => if k = 0 then 0 else (8 + i).toUInt8⟩

/-- The second frame of the camera is captured, without the padding. -/
theorem capture_exact_strobe :
    (fresh 5).buffer.length < 2 ^ 64 ∧
    v4l2Capture strobe none (fresh 5) = .ok ⟨[8, 9, 11, 12, 0], 2, 2, 3, .ok, 1⟩ ∧
    ∃ fmt mappings d, prepare strobe none 5 = .ok (fmt, mappings) ∧
      IsLast strobe fmt mappings 2 d ∧ [8, 9, 11, 12] = fmt.image d.memory := by
  have hrun : v4l2Capture strobe none (fresh 5) =
      .ok ⟨[8, 9, 11, 12, 0], 2, 2, 3, .ok, 1⟩ := rfl
  obtain ⟨s, hs, -, hframe, -⟩ := capture_exact strobe none (fresh 5) (by decide)
  rw [hrun, Except.ok.injEq] at hs
  subst hs
  obtain ⟨fmt, mappings, d, hprepare, hlast, hwidth, hheight, himage, -⟩ := hframe rfl
  rw [← hwidth, ← hheight] at himage
  exact ⟨by decide, hrun, fmt, mappings, d, hprepare, hlast, himage⟩

end Capture

end KFaceAuth
