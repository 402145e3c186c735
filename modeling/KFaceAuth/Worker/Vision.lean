import Mathlib.Data.List.Basic
import KFaceAuth.Worker.Wire

/-!
# The protocol of the vision worker

The application sends a frame of the camera to the vision worker
(`Vision.analyzeCurrentFrame`), which parses it (`Vision.parseRequest`),
analyses the image and sends what it found (`Vision.encodeAnalysis`), if that is
within the image (`Vision.validAnalysis`). The application parses the response
(`Vision.parseResponse`).

The application also asks that the landmarks of a face are within its
rectangle, which the worker does not check here but where it converts the
output of the detector.

* `parseRequest_analyzeCurrentFrame`: a frame is parsed to the image it was
  built from;
* `parseResponse_encodeAnalysis`: a valid analysis with its landmarks within the
  faces is parsed to what was encoded, and no other valid analysis is.
-/

namespace KFaceAuth

namespace Vision

/-! ## Constants -/

def protocolVersion : ℕ := 2
def opAnalyze : UInt8 := 1
def responseAnalysis : UInt8 := 0x81
def responseError : UInt8 := 0xff
def requestHeaderBytes : ℕ := 24
def maxRequestPayload : ℕ := maxFrameBytes + requestHeaderBytes
def minTimeoutMs : ℕ := 1
def maxTimeoutMs : ℕ := 5000
def inferenceTimeoutMs : ℕ := 2000
def maxFaces : ℕ := 8
def successHeaderBytes : ℕ := 16
def faceObservationBytes : ℕ := 8 + 20

def qualityTooDark : UInt8 := 1
def qualityTooBright : UInt8 := 2
def qualityLowContrast : UInt8 := 4
def qualityLowSharpness : UInt8 := 8
def knownQualityFlags : UInt8 := 0x0f

/-! ## The worker -/

inductive WorkerErrorCode
  | invalidRequest
  | unsupportedVersion
  | unsupportedOperation
  | unsupportedPixelFormat
  | invalidDimensions
  | invalidStride
  | invalidFrameSize
  | invalidTimeout
  | cancelled
  | deadlineExceeded
  | modelUnavailable
  | internalError
  | faceAtEdge
  | invalidRuntimeOutput
  | runtimeFailure
  deriving DecidableEq, Repr

/-- The number of an error code. -/
def WorkerErrorCode.toByte : WorkerErrorCode → UInt8
  | invalidRequest => 1
  | unsupportedVersion => 2
  | unsupportedOperation => 3
  | unsupportedPixelFormat => 4
  | invalidDimensions => 5
  | invalidStride => 6
  | invalidFrameSize => 7
  | invalidTimeout => 8
  | cancelled => 9
  | deadlineExceeded => 10
  | modelUnavailable => 11
  | internalError => 12
  | faceAtEdge => 13
  | invalidRuntimeOutput => 14
  | runtimeFailure => 15

structure FaceRectangle where
  x : UInt16
  y : UInt16
  width : UInt16
  height : UInt16
  deriving DecidableEq, Repr

/-- A face: its rectangle, and its five landmarks. -/
structure FaceObservation where
  rectangle : FaceRectangle
  landmarks : List (UInt16 × UInt16)
  five : landmarks.length = 5
  deriving DecidableEq

structure QualityMetrics where
  brightness : UInt8
  contrast : UInt8
  sharpness : UInt8
  flags : UInt8
  deriving DecidableEq, Repr

structure VisionAnalysis where
  faces : List FaceObservation
  quality : QualityMetrics
  deriving DecidableEq

/-- The check of a face in `valid_analysis`. -/
def validFace (face : FaceObservation) (image : ImageView) : Bool :=
  face.rectangle.width > 0 && face.rectangle.height > 0 &&
    face.rectangle.x.toNat + face.rectangle.width.toNat ≤ image.width &&
    face.rectangle.y.toNat + face.rectangle.height.toNat ≤ image.height &&
    face.landmarks.all fun point => point.1.toNat < image.width && point.2.toNat < image.height

/-- `valid_analysis`. -/
def validAnalysis (analysis : VisionAnalysis) (image : ImageView) : Bool :=
  if analysis.faces.length > maxFaces ∨
      analysis.quality.flags &&&
        ~~~(qualityTooDark ||| qualityTooBright ||| qualityLowContrast ||| qualityLowSharpness) ≠ 0 ∨
      (analysis.quality.flags &&& qualityTooDark ≠ 0 ∧
        analysis.quality.flags &&& qualityTooBright ≠ 0) then false
  else analysis.faces.all fun face => validFace face image

structure AnalyzeRequest where
  generation : UInt64
  timeoutMs : ℕ
  image : ImageView
  deriving DecidableEq

structure RequestError where
  code : WorkerErrorCode
  generation : UInt64
  deriving DecidableEq

/-- `map_image_error`. -/
def mapImageError : ImageError → WorkerErrorCode
  | .unsupportedPixelFormat => .unsupportedPixelFormat
  | .invalidDimensions => .invalidDimensions
  | .invalidStride => .invalidStride
  | .arithmeticOverflow | .frameTooLarge | .lengthMismatch => .invalidFrameSize

/-- `parse_request`. -/
def parseRequest (payload : List UInt8) : Except RequestError AnalyzeRequest :=
  let generation := if payload.length < 12 then 0 else UInt64.ofNat (ofBe ((payload.drop 4).take 8))
  let timeoutMs := ofBe ((payload.drop 12).take 4)
  if payload.length < requestHeaderBytes then .error ⟨.invalidRequest, generation⟩
  else if ofBe ((payload.drop 0).take 2) ≠ protocolVersion then
    .error ⟨.unsupportedVersion, generation⟩
  else if generation = 0 then .error ⟨.invalidRequest, generation⟩
  else if payload.getD 2 0 ≠ opAnalyze then .error ⟨.unsupportedOperation, generation⟩
  else
    match PixelFormat.ofByte (payload.getD 3 0) with
    | .error _ => .error ⟨.unsupportedPixelFormat, generation⟩
    | .ok format =>
      if timeoutMs < minTimeoutMs ∨ maxTimeoutMs < timeoutMs then
        .error ⟨.invalidTimeout, generation⟩
      else
        match ImageView.new format (ofBe ((payload.drop 16).take 2))
          (ofBe ((payload.drop 18).take 2)) (ofBe ((payload.drop 20).take 4))
          (payload.drop requestHeaderBytes) with
        | .error e => .error ⟨mapImageError e, generation⟩
        | .ok image => .ok ⟨generation, timeoutMs, image⟩

/-- `encode_error`. -/
def encodeError (code : WorkerErrorCode) (generation : UInt64) : List UInt8 :=
  be16 protocolVersion ++ [responseError] ++ [code.toByte] ++ be64 generation.toNat

/-- A face, in a response. -/
def encodeFace (face : FaceObservation) : List UInt8 :=
  be16 face.rectangle.x.toNat ++ be16 face.rectangle.y.toNat ++ be16 face.rectangle.width.toNat ++
    be16 face.rectangle.height.toNat ++
    face.landmarks.flatMap fun point => be16 point.1.toNat ++ be16 point.2.toNat

/-- `encode_analysis`. -/
def encodeAnalysis (generation : UInt64) (analysis : VisionAnalysis) : List UInt8 :=
  let faceCount := min analysis.faces.length 255
  if faceCount > maxFaces then encodeError .invalidRuntimeOutput generation
  else be16 protocolVersion ++ [responseAnalysis] ++ [faceCount.toUInt8] ++
    be64 generation.toNat ++ [analysis.quality.brightness] ++ [analysis.quality.contrast] ++
    [analysis.quality.sharpness] ++ [analysis.quality.flags] ++ analysis.faces.flatMap encodeFace

/-! ## The application -/

/-- The fields of `VisionAnalysisSession` that a request sets. -/
structure Session where
  generation : UInt64
  requestWidth : UInt16
  requestHeight : UInt16
  deriving DecidableEq, Repr

/-- `analyzeCurrentFrame`, from the frame in the format RGB888: the request, or
    nothing for an invalid frame. -/
def analyzeCurrentFrame (session : Session) (rgb : QImage) : Option (Session × List UInt8) :=
  let stride := rgb.bytesPerLine
  let frameSize := stride * rgb.height
  if rgb.width = 0 ∨ maxWidth < rgb.width ∨ rgb.height = 0 ∨ maxHeight < rgb.height then none
  else if stride < rgb.width * 3 ∨ rgb.width * 4 < stride ∨ frameSize = 0 ∨
      maxRequestPayload - requestHeaderBytes < frameSize ∨ 2 ^ 32 - 1 < frameSize then none
  else
    let generation := session.generation + 1
    let payload := be16 protocolVersion ++ [opAnalyze] ++ [1] ++ be64 generation.toNat ++
      be32 inferenceTimeoutMs ++ be16 rgb.width ++ be16 rgb.height ++ be32 stride ++ rgb.bits
    if maxRequestPayload < payload.length then none
    else some (⟨generation, rgb.width.toUInt16, rgb.height.toUInt16⟩, framed payload)

/-- `Result`. -/
structure Result where
  faceCount : UInt8
  quality : QualityMetrics
  rectangle : FaceRectangle
  frameWidth : UInt16
  frameHeight : UInt16
  landmarks : List (UInt16 × UInt16)
  deriving DecidableEq, Repr

/-- `readU16`. -/
def readU16 (bytes : List UInt8) (offset : ℕ) : UInt16 :=
  UInt16.ofNat (ofBe ((bytes.drop offset).take 2))

/-- The rectangle of a face, at its offset. -/
def rectangleAt (payload : List UInt8) (offset : ℕ) : FaceRectangle :=
  ⟨readU16 payload offset, readU16 payload (offset + 2), readU16 payload (offset + 4),
    readU16 payload (offset + 6)⟩

/-- The landmarks of a face, at its offset. -/
def landmarksAt (payload : List UInt8) (offset : ℕ) : List (UInt16 × UInt16) :=
  (List.range 5).map fun lm =>
    (readU16 payload (offset + 8 + lm * 4), readU16 payload (offset + 8 + lm * 4 + 2))

/-- A landmark within a rectangle. -/
def FaceRectangle.contains (r : FaceRectangle) (point : UInt16 × UInt16) : Bool :=
  r.x ≤ point.1 && r.y ≤ point.2 && point.1.toNat < r.x.toNat + r.width.toNat &&
    point.2.toNat < r.y.toNat + r.height.toNat

/-- The check of a face in `parseResponse`. -/
def acceptsFace (session : Session) (r : FaceRectangle) (landmarks : List (UInt16 × UInt16)) :
    Bool :=
  r.width ≠ 0 && r.height ≠ 0 && r.x.toNat + r.width.toNat ≤ session.requestWidth.toNat &&
    r.y.toNat + r.height.toNat ≤ session.requestHeight.toNat &&
    landmarks.all fun point =>
      point.1 < session.requestWidth && point.2 < session.requestHeight && r.contains point

/-- `parseResponse`, with the code of the error, which may be empty. -/
def parseResponse (session : Session) (payload : List UInt8) : Except String Result :=
  let byte i := payload.getD i 0
  let faceCount := (byte 3).toNat
  let offset index := successHeaderBytes + index * faceObservationBytes
  if payload.length < 12 ∨ ofBe ((payload.drop 0).take 2) ≠ protocolVersion then .error ""
  else if ofBe ((payload.drop 4).take 8) ≠ session.generation.toNat then .error "stale-response"
  else if byte 2 = responseError then
    if payload.length ≠ 12 ∨ byte 3 = 0 then .error ""
    else .error ("analysis-error-" ++ toString faceCount)
  else if byte 2 ≠ responseAnalysis ∨ payload.length < successHeaderBytes then .error ""
  else if faceCount > maxFaces ∨
      payload.length ≠ successHeaderBytes + faceCount * faceObservationBytes then .error ""
  else if byte 15 &&& ~~~knownQualityFlags ≠ 0 ∨ byte 15 &&& 0x03 = 0x03 then .error ""
  else if session.requestWidth = 0 ∨ session.requestHeight = 0 then .error ""
  else if (List.range faceCount).all fun index =>
      acceptsFace session (rectangleAt payload (offset index))
        (landmarksAt payload (offset index)) then
    .ok {
      faceCount := byte 3
      quality := ⟨byte 12, byte 13, byte 14, byte 15⟩
      rectangle := if faceCount = 0 then ⟨0, 0, 0, 0⟩ else rectangleAt payload (offset 0)
      frameWidth := session.requestWidth
      frameHeight := session.requestHeight
      landmarks := if faceCount = 0 then [] else landmarksAt payload (offset 0) }
  else .error ""

/-! ## Requests -/

/-- The image that the worker is to see. -/
def view (rgb : QImage) : ImageView :=
  { format := .rgb8, width := rgb.width, height := rgb.height, stride := rgb.bytesPerLine
    bytes := rgb.bits }

/-- A request that is built is of an image within the bounds. -/
theorem analyzeCurrentFrame_cases {session session' : Session} {rgb : QImage} {frame : List UInt8}
    (h : analyzeCurrentFrame session rgb = some (session', frame)) :
    (0 < rgb.width ∧ rgb.width ≤ maxWidth) ∧ (0 < rgb.height ∧ rgb.height ≤ maxHeight) ∧
      rgb.bytesPerLine * rgb.height ≤ maxFrameBytes ∧ rgb.bytesPerLine ≤ rgb.width * 4 ∧
      session' = ⟨session.generation + 1, rgb.width.toUInt16, rgb.height.toUInt16⟩ ∧
      frame = framed (be16 protocolVersion ++ [opAnalyze] ++ [1] ++
        be64 (session.generation + 1).toNat ++ be32 inferenceTimeoutMs ++ be16 rgb.width ++
        be16 rgb.height ++ be32 rgb.bytesPerLine ++ rgb.bits) := by
  unfold analyzeCurrentFrame at h
  simp only at h
  split at h
  · cases h
  split at h
  · cases h
  next hbounds hsize =>
  split at h
  · cases h
  cases h
  have hmax : maxRequestPayload - requestHeaderBytes = maxFrameBytes := rfl
  rw [hmax] at hsize
  exact ⟨by omega, by omega, by omega, by omega, rfl, rfl⟩

/-- A request is not longer than the worker reads. -/
theorem length_le_of_analyzeCurrentFrame {session session' : Session} {rgb : QImage}
    {payload : List UInt8} (h : analyzeCurrentFrame session rgb = some (session', framed payload)) :
    payload.length ≤ maxRequestPayload := by
  obtain ⟨-, -, hsize, -, -, hframe⟩ := analyzeCurrentFrame_cases h
  have hlen := congrArg List.length hframe
  simp only [framed, List.length_append, length_be16, length_be32, length_be64,
    List.length_singleton, rgb.size] at hlen
  unfold maxRequestPayload requestHeaderBytes
  omega

/-- A frame is parsed to the image it was built from. -/
theorem parseRequest_analyzeCurrentFrame {session session' : Session} {rgb : QImage}
    {frame : List UInt8} (h : analyzeCurrentFrame session rgb = some (session', frame))
    (hgeneration : session'.generation ≠ 0) :
    ∃ payload, frame = framed payload ∧
      parseRequest payload = .ok ⟨session'.generation, inferenceTimeoutMs, view rgb⟩ := by
  obtain ⟨hw, hh, hsize, hstride, hsession, hframe⟩ := analyzeCurrentFrame_cases h
  have hwmax : rgb.width ≤ 1920 := hw.2
  have hhmax : rgb.height ≤ 1080 := hh.2
  refine ⟨_, hframe, ?_⟩
  have hgen : session'.generation = session.generation + 1 := by rw [hsession]
  rw [← hgen]
  generalize hp : be16 protocolVersion ++ [opAnalyze] ++ [1] ++ be64 session'.generation.toNat ++
    be32 inferenceTimeoutMs ++ be16 rgb.width ++ be16 rgb.height ++ be32 rgb.bytesPerLine ++
    rgb.bits = payload
  have hlen : payload.length = 24 + rgb.bits.length := by
    rw [← hp]
    simp only [List.length_append, length_be16, length_be32, length_be64, List.length_singleton]
  have hversion : (payload.drop 0).take 2 = be16 protocolVersion :=
    field_of_eq_append (a := []) (by rw [← hp]; simp only [List.append_assoc]; rfl) rfl rfl
  have hop : payload.getD 2 0 = opAnalyze := by
    rw [← hp]
    rfl
  have hformat : PixelFormat.ofByte (payload.getD 3 0) = .ok .rgb8 := by
    rw [← hp]
    rfl
  have hgenField : (payload.drop 4).take 8 = be64 session'.generation.toNat :=
    field_of_eq_append (a := be16 protocolVersion ++ [opAnalyze] ++ [1])
      (by rw [← hp]; simp only [List.append_assoc]; rfl) rfl rfl
  have htimeout : (payload.drop 12).take 4 = be32 inferenceTimeoutMs :=
    field_of_eq_append
      (a := be16 protocolVersion ++ [opAnalyze] ++ [1] ++ be64 session'.generation.toNat)
      (by rw [← hp]; simp only [List.append_assoc]; rfl) rfl rfl
  have hwidth : (payload.drop 16).take 2 = be16 rgb.width :=
    field_of_eq_append
      (a := be16 protocolVersion ++ [opAnalyze] ++ [1] ++ be64 session'.generation.toNat ++
        be32 inferenceTimeoutMs) (by rw [← hp]; simp only [List.append_assoc]; rfl) rfl rfl
  have hheight : (payload.drop 18).take 2 = be16 rgb.height :=
    field_of_eq_append
      (a := be16 protocolVersion ++ [opAnalyze] ++ [1] ++ be64 session'.generation.toNat ++
        be32 inferenceTimeoutMs ++ be16 rgb.width)
      (by rw [← hp]; simp only [List.append_assoc]; rfl) rfl rfl
  have hstrideField : (payload.drop 20).take 4 = be32 rgb.bytesPerLine :=
    field_of_eq_append
      (a := be16 protocolVersion ++ [opAnalyze] ++ [1] ++ be64 session'.generation.toNat ++
        be32 inferenceTimeoutMs ++ be16 rgb.width ++ be16 rgb.height)
      (by rw [← hp]; simp only [List.append_assoc]; rfl) rfl rfl
  have hbits : payload.drop requestHeaderBytes = rgb.bits := by
    rw [← hp]
    rfl
  have hvalue : UInt64.ofNat (ofBe (be64 session'.generation.toNat)) = session'.generation := by
    rw [ofBe_be64 session'.generation.toNat_lt, UInt64.ofNat_toNat]
  have himage : ImageView.new .rgb8 rgb.width rgb.height rgb.bytesPerLine rgb.bits =
      .ok (view rgb) := ImageView.new_ok hw hh rgb.wide rgb.size hsize
  have hlong : ¬ payload.length < 12 := by omega
  have hwidthValue : ofBe (be16 rgb.width) = rgb.width := ofBe_be16 (by omega)
  have hheightValue : ofBe (be16 rgb.height) = rgb.height := ofBe_be16 (by omega)
  have hstrideValue : ofBe (be32 rgb.bytesPerLine) = rgb.bytesPerLine := ofBe_be32 (by omega)
  have htimeoutValue : ofBe (be32 inferenceTimeoutMs) = inferenceTimeoutMs := by decide
  unfold parseRequest
  simp only [hversion, hop, hformat, hgenField, htimeout, hwidth, hheight, hstrideField, hbits,
    hvalue, if_neg hlong, hwidthValue, hheightValue, hstrideValue, htimeoutValue, himage]
  rw [if_neg (by rw [hlen]; unfold requestHeaderBytes; omega), if_neg (by decide),
    if_neg hgeneration, if_neg (by decide), if_neg (by decide)]

/-! ## Responses -/

/-- A number of two bytes, read back. -/
theorem readU16_of_eq {payload a c : List UInt8} {value : UInt16} {offset : ℕ}
    (h : payload = a ++ (be16 value.toNat ++ c)) (ha : a.length = offset) :
    readU16 payload offset = value := by
  rw [readU16, field_of_eq_append h ha (length_be16 _), ofBe_be16 value.toNat_lt, UInt16.ofNat_toNat]

theorem length_encodeFace (face : FaceObservation) :
    (encodeFace face).length = faceObservationBytes := by
  have hpoints : (face.landmarks.flatMap fun point => be16 point.1.toNat ++ be16 point.2.toNat).length
      = 20 := by
    rw [List.length_flatMap]
    simp only [List.length_append, length_be16, List.map_const', List.sum_replicate_nat, face.five]
  simp only [encodeFace, List.length_append, length_be16, hpoints]
  rfl

/-- The numbers of two bytes of a face, in their order. -/
def FaceObservation.words (face : FaceObservation) : List UInt16 :=
  [face.rectangle.x, face.rectangle.y, face.rectangle.width, face.rectangle.height] ++
    face.landmarks.flatMap fun point => [point.1, point.2]

theorem encodeFace_eq (face : FaceObservation) :
    encodeFace face = face.words.flatMap fun word => be16 word.toNat := by
  simp only [encodeFace, FaceObservation.words, List.flatMap_append, List.flatMap_assoc,
    List.flatMap_cons, List.flatMap_nil, List.append_nil, List.append_assoc]

/-- Numbers of two bytes in a row, read back. -/
theorem readU16_words {payload c : List UInt8} (words : List UInt16) :
    ∀ {a : List UInt8} {i : ℕ}, payload = a ++ (words.flatMap (fun word => be16 word.toNat) ++ c) →
      i < words.length → readU16 payload (a.length + 2 * i) = words.getD i 0 := by
  induction words with
  | nil =>
    intro a i _ hi
    exact absurd hi (Nat.not_lt_zero i)
  | cons word words ih =>
    intro a i h hi
    rw [List.flatMap_cons, List.append_assoc] at h
    cases i with
    | zero => exact readU16_of_eq h rfl
    | succ i =>
      have hoffset : a.length + 2 * (i + 1) = (a ++ be16 word.toNat).length + 2 * i := by
        rw [List.length_append, length_be16]
        omega
      rw [hoffset, List.getD_cons_succ]
      exact ih (by rw [h, List.append_assoc]) (Nat.lt_of_succ_lt_succ hi)

theorem FaceObservation.length_words (face : FaceObservation) : face.words.length = 14 := by
  rw [FaceObservation.words, List.length_append, List.length_flatMap]
  simp only [List.length_cons, List.length_nil, List.map_const', List.sum_replicate_nat, face.five]

/-- A face, read back. -/
theorem faceAt_eq {payload a c : List UInt8} {face : FaceObservation} {offset : ℕ}
    (h : payload = a ++ (encodeFace face ++ c)) (ha : a.length = offset) :
    rectangleAt payload offset = face.rectangle ∧ landmarksAt payload offset = face.landmarks := by
  subst ha
  rw [encodeFace_eq] at h
  have hword : ∀ i < 14, readU16 payload (a.length + 2 * i) = face.words.getD i 0 :=
    fun i hi => readU16_words _ h (by rwa [face.length_words])
  have hlandmarks : landmarksAt payload a.length = (List.range 5).map fun lm =>
      (face.words.getD (4 + 2 * lm) 0, face.words.getD (5 + 2 * lm) 0) := by
    refine List.map_congr_left fun lm hlm => ?_
    rw [List.mem_range] at hlm
    rw [← hword (4 + 2 * lm) (by omega), ← hword (5 + 2 * lm) (by omega)]
    congr 2 <;> omega
  obtain ⟨⟨x, y, width, height⟩, landmarks, five⟩ := face
  obtain ⟨p₀, p₁, p₂, p₃, p₄, rfl⟩ : ∃ p₀ p₁ p₂ p₃ p₄, landmarks = [p₀, p₁, p₂, p₃, p₄] := by
    obtain ⟨p₀, rest, rfl⟩ := List.exists_cons_of_length_eq_add_one five
    obtain ⟨p₁, p₂, p₃, p₄, rfl⟩ := List.length_eq_four.mp (Nat.succ.inj five)
    exact ⟨p₀, p₁, p₂, p₃, p₄, rfl⟩
  refine ⟨?_, hlandmarks⟩
  exact congr (congr (congr (congrArg FaceRectangle.mk (hword 0 (by decide)))
    (hword 1 (by decide))) (hword 2 (by decide))) (hword 3 (by decide))

/-- The bytes of faces take the same room for each. -/
theorem length_encodeFaces (faces : List FaceObservation) :
    (faces.flatMap encodeFace).length = faces.length * faceObservationBytes := by
  rw [List.length_flatMap, List.map_congr_left fun face _ => length_encodeFace face,
    List.map_const', List.sum_replicate_nat]

/-- The faces of a response, read back at their offsets. -/
theorem faceAt_encodeFaces {payload a : List UInt8} {faces : List FaceObservation} {i : ℕ}
    (h : payload = a ++ faces.flatMap encodeFace) (ha : a.length = successHeaderBytes)
    (hi : i < faces.length) :
    rectangleAt payload (successHeaderBytes + i * faceObservationBytes) = faces[i].rectangle ∧
      landmarksAt payload (successHeaderBytes + i * faceObservationBytes) = faces[i].landmarks := by
  refine faceAt_eq (a := a ++ (faces.take i).flatMap encodeFace)
    (c := (faces.drop (i + 1)).flatMap encodeFace) ?_ ?_
  · have hsplit : faces = faces.take i ++ (faces[i] :: faces.drop (i + 1)) := by
      rw [List.getElem_cons_drop, List.take_append_drop]
    calc payload = a ++ (faces.take i ++ (faces[i] :: faces.drop (i + 1))).flatMap encodeFace := by
          rw [← hsplit, h]
      _ = _ := by
          rw [List.flatMap_append, List.flatMap_cons, List.append_assoc]
  · rw [List.length_append, length_encodeFaces, List.length_take, Nat.min_eq_left (Nat.le_of_lt hi),
      ha]

/-- The flags that the worker accepts are those that the application accepts. -/
theorem flags_agree {flags : UInt8} (hknown : flags &&&
      ~~~(qualityTooDark ||| qualityTooBright ||| qualityLowContrast ||| qualityLowSharpness) = 0)
    (hboth : ¬ (flags &&& qualityTooDark ≠ 0 ∧ flags &&& qualityTooBright ≠ 0)) :
    ¬ (flags &&& ~~~knownQualityFlags ≠ 0 ∨ flags &&& 0x03 = 0x03) := by
  rintro (hne | hthree)
  · exact hne hknown
  · have hdark : flags &&& qualityTooDark = 1 := by
      have : flags &&& 0x03 &&& 1 = 1 := by rw [hthree]; rfl
      rwa [UInt8.and_assoc] at this
    have hbright : flags &&& qualityTooBright = 2 := by
      have : flags &&& 0x03 &&& 2 = 2 := by rw [hthree]; rfl
      rwa [UInt8.and_assoc] at this
    rw [hdark, hbright] at hboth
    exact hboth (by decide)

/-- The landmarks of a face are within its rectangle. -/
def FaceObservation.landmarksInside (face : FaceObservation) : Bool :=
  face.landmarks.all face.rectangle.contains

/-- Of a face that the worker accepts, the application only asks that its
    landmarks are within its rectangle. -/
theorem acceptsFace_of_validFace {session : Session} {image : ImageView} {face : FaceObservation}
    (hw : session.requestWidth.toNat = image.width) (hh : session.requestHeight.toNat = image.height)
    (h : validFace face image) :
    acceptsFace session face.rectangle face.landmarks = face.landmarksInside := by
  simp only [validFace, Bool.and_eq_true, decide_eq_true_eq, List.all_eq_true, gt_iff_lt] at h
  obtain ⟨⟨⟨⟨hwidth, hheight⟩, hx⟩, hy⟩, hpoints⟩ := h
  have hall : (face.landmarks.all fun point => point.1 < session.requestWidth &&
      point.2 < session.requestHeight && face.rectangle.contains point) =
      face.landmarks.all face.rectangle.contains := by
    rw [Bool.eq_iff_iff, List.all_eq_true, List.all_eq_true]
    refine forall₂_congr fun point hpoint => ?_
    obtain ⟨hpx, hpy⟩ := hpoints point hpoint
    have hpx : point.1 < session.requestWidth := UInt16.lt_iff_toNat_lt.mpr (by rwa [hw])
    have hpy : point.2 < session.requestHeight := UInt16.lt_iff_toNat_lt.mpr (by rwa [hh])
    rw [decide_eq_true hpx, decide_eq_true hpy, Bool.true_and, Bool.true_and]
  unfold acceptsFace FaceObservation.landmarksInside
  rw [hw, hh, hall, decide_eq_true hx, decide_eq_true hy, decide_eq_true (UInt16.ne_of_lt hwidth).symm,
    decide_eq_true (UInt16.ne_of_lt hheight).symm]
  rfl

/-- What a response of faces is parsed to. -/
def shown (session : Session) (analysis : VisionAnalysis) : Result where
  faceCount := analysis.faces.length.toUInt8
  quality := analysis.quality
  rectangle := (analysis.faces.head?.map (·.rectangle)).getD ⟨0, 0, 0, 0⟩
  frameWidth := session.requestWidth
  frameHeight := session.requestHeight
  landmarks := (analysis.faces.head?.map (·.landmarks)).getD []

/-- A valid analysis is parsed to what was encoded if the landmarks are within
    the faces, and is refused otherwise. -/
theorem parseResponse_encodeAnalysis {session : Session} {image : ImageView}
    {analysis : VisionAnalysis} (hw : session.requestWidth.toNat = image.width)
    (hh : session.requestHeight.toNat = image.height) (hwpos : 0 < image.width)
    (hhpos : 0 < image.height) (h : validAnalysis analysis image) :
    parseResponse session (encodeAnalysis session.generation analysis) =
      if analysis.faces.all (·.landmarksInside) then .ok (shown session analysis)
      else .error "" := by
  unfold validAnalysis at h
  split at h
  · cases h
  next hchecks =>
  rw [not_or, not_or, gt_iff_lt, Nat.not_lt, not_not] at hchecks
  obtain ⟨hcount, hknown, hboth⟩ := hchecks
  have hcount : analysis.faces.length ≤ 8 := hcount
  have hmin : min analysis.faces.length 255 = analysis.faces.length := by omega
  unfold encodeAnalysis
  simp only [hmin, gt_iff_lt, maxFaces, if_neg (Nat.not_lt.mpr hcount)]
  generalize hp : be16 protocolVersion ++ [responseAnalysis] ++ [analysis.faces.length.toUInt8] ++
    be64 session.generation.toNat ++ [analysis.quality.brightness] ++ [analysis.quality.contrast] ++
    [analysis.quality.sharpness] ++ [analysis.quality.flags] ++ analysis.faces.flatMap encodeFace =
      payload
  have hlen : payload.length = successHeaderBytes + analysis.faces.length * faceObservationBytes := by
    rw [← hp, List.length_append, length_encodeFaces]
    rfl
  have hversion : ofBe ((payload.drop 0).take 2) = protocolVersion := by
    rw [← hp]
    rfl
  have hgen : (payload.drop 4).take 8 = be64 session.generation.toNat := by
    rw [← hp]
    rfl
  have hkind : payload.getD 2 0 = responseAnalysis := by
    rw [← hp]
    rfl
  have hfaces : payload.getD 3 0 = analysis.faces.length.toUInt8 := by
    rw [← hp]
    rfl
  have hfacesNat : (payload.getD 3 0).toNat = analysis.faces.length := by
    rw [hfaces]
    exact Nat.mod_eq_of_lt (by omega)
  have hquality : (⟨payload.getD 12 0, payload.getD 13 0, payload.getD 14 0, payload.getD 15 0⟩ :
      QualityMetrics) = analysis.quality := by
    rw [← hp]
    rfl
  have hflags : payload.getD 15 0 = analysis.quality.flags := by
    rw [← hp]
    rfl
  have hface : ∀ i (hi : i < analysis.faces.length),
      rectangleAt payload (successHeaderBytes + i * faceObservationBytes) =
        analysis.faces[i].rectangle ∧
      landmarksAt payload (successHeaderBytes + i * faceObservationBytes) =
        analysis.faces[i].landmarks := fun i hi => faceAt_encodeFaces hp.symm rfl hi
  have haccept : ((List.range analysis.faces.length).all fun index =>
      acceptsFace session (rectangleAt payload (successHeaderBytes + index * faceObservationBytes))
        (landmarksAt payload (successHeaderBytes + index * faceObservationBytes))) =
      analysis.faces.all (·.landmarksInside) := by
    rw [Bool.eq_iff_iff, List.all_eq_true, List.all_eq_true,
      List.forall_mem_iff_getElem (l := analysis.faces)]
    refine forall_congr' fun i => ?_
    rw [List.mem_range]
    refine forall_congr' fun hi => ?_
    have hvalid : validFace analysis.faces[i] image :=
      List.all_eq_true.mp h _ (List.getElem_mem hi)
    rw [(hface i hi).1, (hface i hi).2, acceptsFace_of_validFace hw hh hvalid]
  have hfirst : (if analysis.faces.length = 0 then ⟨0, 0, 0, 0⟩
        else rectangleAt payload (successHeaderBytes + 0 * faceObservationBytes)) =
        (shown session analysis).rectangle ∧
      (if analysis.faces.length = 0 then []
        else landmarksAt payload (successHeaderBytes + 0 * faceObservationBytes)) =
        (shown session analysis).landmarks := by
    rcases analysis with ⟨_ | ⟨face, faces⟩, quality⟩
    · exact ⟨rfl, rfl⟩
    · exact hface 0 (Nat.succ_pos _)
  have hwidth : session.requestWidth ≠ 0 := by
    intro hzero
    rw [hzero] at hw
    exact absurd hw (Nat.ne_of_lt hwpos)
  have hheight : session.requestHeight ≠ 0 := by
    intro hzero
    rw [hzero] at hh
    exact absurd hh (Nat.ne_of_lt hhpos)
  have hlong : ¬ payload.length < 12 := by
    rw [hlen]
    unfold successHeaderBytes
    omega
  have hlongEnough : ¬ payload.length < successHeaderBytes := by omega
  unfold parseResponse
  simp only [hversion, hgen, ofBe_be64 session.generation.toNat_lt, hkind, hfacesNat, hquality,
    haccept]
  rw [if_neg (by simp [hlong]), if_neg (by simp), if_neg (by decide), if_neg (by simp [hlongEnough]),
    if_neg (by simp [hlen, hcount, maxFaces]), hflags, if_neg (flags_agree hknown hboth),
    if_neg (by simp [hwidth, hheight]), hfaces]
  rw [hfirst.1, hfirst.2]
  rfl

/-! ## Both directions -/

/-- The application and the worker agree on requests, and on the responses whose
    landmarks are within the faces. -/
theorem vision_protocol_agrees {session session' : Session} {rgb : QImage} {frame : List UInt8}
    (h : analyzeCurrentFrame session rgb = some (session', frame))
    (hgeneration : session'.generation ≠ 0) :
    (∃ payload, frame = framed payload ∧
      readFrame maxRequestPayload frame = .ok (payload, []) ∧
      parseRequest payload = .ok ⟨session'.generation, inferenceTimeoutMs, view rgb⟩) ∧
    ∀ analysis, validAnalysis analysis (view rgb) →
      parseResponse session' (encodeAnalysis session'.generation analysis) =
        if analysis.faces.all (·.landmarksInside) then .ok (shown session' analysis)
        else .error "" := by
  obtain ⟨hw, hh, hsize, -, rfl, hframe⟩ := analyzeCurrentFrame_cases h
  constructor
  · obtain ⟨payload, hpayload, hparse⟩ := parseRequest_analyzeCurrentFrame h hgeneration
    refine ⟨payload, hpayload, ?_, hparse⟩
    have hbound : payload.length ≤ maxRequestPayload :=
      length_le_of_analyzeCurrentFrame (hpayload ▸ h)
    have hne : payload ≠ [] := by
      rintro rfl
      cases hparse
    rw [hpayload, ← List.append_nil (framed _)]
    exact readFrame_framed [] hne hbound (Nat.lt_of_le_of_lt hbound (by decide))
  · intro analysis hvalid
    have hwidth : rgb.width ≤ 1920 := hw.2
    have hheight : rgb.height ≤ 1080 := hh.2
    have hwidthNat : rgb.width.toUInt16.toNat = (view rgb).width := Nat.mod_eq_of_lt (by omega)
    have hheightNat : rgb.height.toUInt16.toNat = (view rgb).height := Nat.mod_eq_of_lt (by omega)
    exact parseResponse_encodeAnalysis hwidthNat hheightNat hw.1 hh.1 hvalid

/-- A frame of four by two pixels. -/
def eightPixels : QImage where
  width := 4
  height := 2
  bytesPerLine := 12
  bits := List.replicate 24 7
  wide := by decide
  size := by decide

/-- A face whose landmarks are at a point. -/
def faceWithLandmarks (point : UInt16 × UInt16) : FaceObservation where
  rectangle := ⟨1, 0, 2, 2⟩
  landmarks := List.replicate 5 point
  five := rfl

theorem vision_protocol_agrees_eightPixels :
    parseResponse ⟨8, 4, 2⟩
      (encodeAnalysis 8 ⟨[faceWithLandmarks (2, 1)], ⟨100, 50, 20, 8⟩⟩) =
        .ok ⟨1, ⟨100, 50, 20, 8⟩, ⟨1, 0, 2, 2⟩, 4, 2, List.replicate 5 (2, 1)⟩ := by
  obtain ⟨frame, hframe⟩ : ∃ frame, analyzeCurrentFrame ⟨7, 0, 0⟩ eightPixels =
      some (⟨8, 4, 2⟩, frame) := ⟨_, rfl⟩
  exact (vision_protocol_agrees hframe (by decide)).2 _ (by decide)

/-- A valid analysis with a landmark outside of the face is refused, and so is
    the request that the counter of requests reaches zero with. -/
theorem refuses_landmark_outside :
    (validAnalysis ⟨[faceWithLandmarks (0, 1)], ⟨100, 50, 20, 8⟩⟩ (view eightPixels) = true ∧
      parseResponse ⟨8, 4, 2⟩ (encodeAnalysis 8 ⟨[faceWithLandmarks (0, 1)], ⟨100, 50, 20, 8⟩⟩) =
        .error "") ∧
    ∃ frame payload, analyzeCurrentFrame ⟨18446744073709551615, 0, 0⟩ eightPixels =
        some (⟨0, 4, 2⟩, frame) ∧
      readFrame maxRequestPayload frame = .ok (payload, []) ∧
      parseRequest payload = .error ⟨.invalidRequest, 0⟩ :=
  ⟨⟨by decide, by decide⟩, _, _, rfl, rfl, rfl⟩

end Vision

end KFaceAuth
