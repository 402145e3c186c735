import KFaceAuth.Vault.Format
import KFaceAuth.Worker.Wire

/-!
# The protocol of the identity worker

The application builds a request (`BuilderCall.frame`), the worker parses it
(`Identity.parseRequest`), carries it out and encodes a response
(`Identity.processRequest`), and the application parses that
(`Identity.parseResponse`). What the worker finds when it carries out a request
is given from outside (`Identity.Replies`).

* `parseRequest_frame`: every frame that the application builds is parsed to
  what it was built from;
* `processRequest_eq`: the worker encodes the answer to each request
  (`Request.answer`);
* `identity_protocol_agrees`: the response is parsed to the kind, the code and the
  body of that answer.
-/

namespace KFaceAuth

namespace Identity

/-! ## Constants -/

def protocolVersion : ℕ := 1
def embeddingBytes : ℕ := 4 * embeddingDimension
def maxRequestBytes : ℕ := 64 + maxFrameBytes + maximumProfileSamples * embeddingDimension * 4
def maxResponseBytes : ℕ := 64 + embeddingDimension * 4
def minTimeoutMs : ℕ := 1
def maxTimeoutMs : ℕ := 10000
def defaultTimeoutMs : ℕ := 5000

def opStatus : UInt8 := 1
def opExtractEnrollmentSample : UInt8 := 2
def opCommitEnrollment : UInt8 := 3
def opListProfileSummary : UInt8 := 4
def opVerifyOneFrame : UInt8 := 5
def opDeleteProfile : UInt8 := 6
def opRotateVaultKey : UInt8 := 7
def opValidateVault : UInt8 := 8
def opResetUnreadable : UInt8 := 9
def opGenerateKey : UInt8 := 10

def responseStatus : UInt8 := 0x81
def responseSample : UInt8 := 0x82
def responseAck : UInt8 := 0x83
def responseVerification : UInt8 := 0x84
def responseKey : UInt8 := 0x85
def responseError : UInt8 := 0xff

/-! ## The worker: requests -/

inductive WorkerErrorCode
  | invalidRequest
  | unsupportedVersion
  | unsupportedOperation
  | invalidGeneration
  | invalidTimeout
  | invalidFrame
  | noFace
  | multipleFaces
  | poorQuality
  | faceGeometry
  | duplicateSample
  | profileBounds
  | noProfile
  | vaultLocked
  | vaultCorrupt
  | modelMismatch
  | keyUnavailable
  | cancelled
  | deadlineExceeded
  | modelUnavailable
  | rateLimited
  | internalFailure
  | spoofDetected
  deriving DecidableEq, Repr

/-- The number of an error code. -/
def WorkerErrorCode.toByte : WorkerErrorCode → UInt8
  | invalidRequest => 1
  | unsupportedVersion => 2
  | unsupportedOperation => 3
  | invalidGeneration => 4
  | invalidTimeout => 5
  | invalidFrame => 6
  | noFace => 7
  | multipleFaces => 8
  | poorQuality => 9
  | faceGeometry => 10
  | duplicateSample => 11
  | profileBounds => 12
  | noProfile => 13
  | vaultLocked => 14
  | vaultCorrupt => 15
  | modelMismatch => 16
  | keyUnavailable => 17
  | cancelled => 18
  | deadlineExceeded => 19
  | modelUnavailable => 20
  | rateLimited => 21
  | internalFailure => 22
  | spoofDetected => 23

/-- `Request`. Samples are the little-endian bytes of their values. -/
inductive Request
  | status (key : Option MasterKey)
  | extract (prior : List (List UInt8)) (image : ImageView)
  | commit (key : MasterKey) (samples : List (List UInt8))
  | summary (key : MasterKey)
  | verify (key : MasterKey) (image : ImageView)
  | delete (key : MasterKey)
  | rotate (oldKey newKey : MasterKey)
  | validate (key : MasterKey)
  | resetUnreadable
  | generateKey

structure ParsedRequest where
  generation : UInt64
  timeoutMs : ℕ
  request : Request

structure RequestError where
  code : WorkerErrorCode
  generation : UInt64

/-- `MasterKey::from_bytes`, of bytes that may not be as many. -/
def masterKey (bytes : List UInt8) : Except WorkerErrorCode MasterKey :=
  if len : bytes.length = keyBytes then .ok ⟨bytes, len⟩ else .error .invalidRequest

/-- `parse_image`. -/
def parseImage (data : List UInt8) : Except WorkerErrorCode ImageView :=
  if data.length < 8 then .error .invalidFrame
  else
    match PixelFormat.ofByte (data.getD 0 0) with
    | .error _ => .error .invalidFrame
    | .ok format =>
      if data.getD 1 0 ≠ 0 then .error .invalidFrame
      else
        match ImageView.new format (ofBe ((data.drop 2).take 2)) (ofBe ((data.drop 4).take 2))
          (ofBe ((data.drop 6).take 2)) (data.drop 8) with
        | .error _ => .error .invalidFrame
        | .ok image => .ok image

section

variable (isNormalized : List UInt8 → Bool)

/-- The loop of `parse_embeddings`. -/
def parseSamples : ℕ → List UInt8 → Except WorkerErrorCode (List (List UInt8))
  | 0, _ => .ok []
  | n + 1, data =>
    if isNormalized (data.take embeddingBytes) then do
      return data.take embeddingBytes :: (← parseSamples n (data.drop embeddingBytes))
    else .error .invalidRequest

/-- `parse_embeddings`. -/
def parseEmbeddings : List UInt8 → Except WorkerErrorCode (List (List UInt8))
  | [] => .error .invalidRequest
  | count :: data =>
    if maximumProfileSamples < count.toNat then .error .profileBounds
    else if 1 + data.length ≠ 1 + count.toNat * embeddingDimension * 4 then .error .invalidRequest
    else parseSamples isNormalized count.toNat data

/-- `parse_enrollment_image`. -/
def parseEnrollmentImage :
    List UInt8 → Except WorkerErrorCode (List (List UInt8) × ImageView)
  | [] => .error .invalidRequest
  | count :: data =>
    let embeddings := count.toNat * embeddingDimension * 4
    if count.toNat ≥ maximumProfileSamples then .error .profileBounds
    else if 1 + data.length ≤ 1 + embeddings then .error .invalidRequest
    else do
      let prior ← parseEmbeddings isNormalized (count :: data.take embeddings)
      return (prior, ← parseImage (data.drop embeddings))

/-- The operation of `parse_request`. -/
def parseOperation (operation flags : UInt8) (data : List UInt8) :
    Except WorkerErrorCode Request :=
  if operation = opStatus then
    if flags = 0 ∧ data = [] then .ok (.status none)
    else if flags = 1 ∧ data.length = keyBytes then return .status (some (← masterKey data))
    else .error .invalidRequest
  else if operation = opExtractEnrollmentSample then
    if flags = 0 then do
      let (prior, image) ← parseEnrollmentImage isNormalized data
      return .extract prior image
    else .error .invalidRequest
  else if operation = opCommitEnrollment then
    if flags = 0 then
      if data.length < keyBytes + 1 then .error .invalidRequest
      else do
        let key ← masterKey (data.take keyBytes)
        return .commit key (← parseEmbeddings isNormalized (data.drop keyBytes))
    else .error .invalidRequest
  else if operation = opListProfileSummary then
    if flags = 0 ∧ data.length = keyBytes then return .summary (← masterKey data)
    else .error .invalidRequest
  else if operation = opVerifyOneFrame then
    if flags = 0 ∧ keyBytes < data.length then do
      let key ← masterKey (data.take keyBytes)
      return .verify key (← parseImage (data.drop keyBytes))
    else .error .invalidRequest
  else if operation = opDeleteProfile then
    if flags = 0 ∧ data.length = keyBytes then return .delete (← masterKey data)
    else .error .invalidRequest
  else if operation = opRotateVaultKey then
    if flags = 0 ∧ data.length = keyBytes * 2 then
      return .rotate (← masterKey (data.take keyBytes)) (← masterKey (data.drop keyBytes))
    else .error .invalidRequest
  else if operation = opValidateVault then
    if flags = 0 ∧ data.length = keyBytes then return .validate (← masterKey data)
    else .error .invalidRequest
  else if operation = opResetUnreadable then
    if flags = 0 ∧ data = [] then .ok .resetUnreadable else .error .invalidRequest
  else if operation = opGenerateKey then
    if flags = 0 ∧ data = [] then .ok .generateKey else .error .invalidRequest
  else .error .unsupportedOperation

/-- `parse_request`. -/
def parseRequest (payload : List UInt8) : Except RequestError ParsedRequest :=
  let generation := if payload.length < 12 then 0 else UInt64.ofNat (ofBe ((payload.drop 4).take 8))
  let timeoutMs := ofBe ((payload.drop 12).take 4)
  if payload.length < 16 then .error ⟨.invalidRequest, generation⟩
  else if ofBe ((payload.drop 0).take 2) ≠ protocolVersion then
    .error ⟨.unsupportedVersion, generation⟩
  else if generation = 0 then .error ⟨.invalidGeneration, generation⟩
  else if timeoutMs < minTimeoutMs ∨ maxTimeoutMs < timeoutMs then
    .error ⟨.invalidTimeout, generation⟩
  else
    match parseOperation isNormalized (payload.getD 2 0) (payload.getD 3 0) (payload.drop 16) with
    | .error code => .error ⟨code, generation⟩
    | .ok request => .ok ⟨generation, timeoutMs, request⟩

end

/-! ## The worker: responses -/

/-- `response_header`. -/
def responseHeader (kind code : UInt8) (generation : UInt64) : List UInt8 :=
  be16 protocolVersion ++ [kind] ++ [code] ++ be64 generation.toNat

structure ProfileSummary where
  enrolled : Bool
  sampleCount : UInt8

inductive VaultStatus
  | absent
  | ready (summary : ProfileSummary)
  | corrupt
  | modelMismatch
  | unavailable

/-- `NormalizedEmbedding`, by its little-endian bytes. -/
structure Embedding where
  bytes : List UInt8
  len : bytes.length = embeddingBytes

inductive VerificationResult
  | isMatch
  | noMatch
  | ambiguous

inductive IdentityError
  | cancelled
  | deadlineExceeded
  | noFace
  | multipleFaces
  | poorQuality
  | faceGeometry
  | livenessUnavailable
  | spoofDetected
  | invalidEmbedding
  | runtime

/-- `encode_status`. -/
def encodeStatus (generation : UInt64) : VaultStatus → List UInt8
  | .absent => responseHeader responseStatus 0 generation ++ [0]
  | .ready summary => responseHeader responseStatus 1 generation ++ [summary.sampleCount]
  | .corrupt => responseHeader responseStatus 2 generation ++ [0]
  | .modelMismatch => responseHeader responseStatus 3 generation ++ [0]
  | .unavailable => responseHeader responseStatus 4 generation ++ [0]

/-- `encode_sample`. -/
def encodeSample (generation : UInt64) (embedding : Embedding) : List UInt8 :=
  responseHeader responseSample 0 generation ++ embedding.bytes

/-- `encode_ack`. -/
def encodeAck (generation : UInt64) : List UInt8 := responseHeader responseAck 0 generation

/-- `encode_verification`. -/
def encodeVerification (generation : UInt64) : VerificationResult → List UInt8
  | .isMatch => responseHeader responseVerification 1 generation
  | .noMatch => responseHeader responseVerification 2 generation
  | .ambiguous => responseHeader responseVerification 3 generation

/-- `encode_key`. -/
def encodeKey (generation : UInt64) (key : MasterKey) : List UInt8 :=
  responseHeader responseKey 0 generation ++ key.bytes

/-- `encode_error`. -/
def encodeError (code : WorkerErrorCode) (generation : UInt64) : List UInt8 :=
  responseHeader responseError code.toByte generation

/-- `map_identity_error`. -/
def mapIdentityError : IdentityError → WorkerErrorCode
  | .cancelled => .cancelled
  | .deadlineExceeded => .deadlineExceeded
  | .noFace => .noFace
  | .multipleFaces => .multipleFaces
  | .poorQuality => .poorQuality
  | .faceGeometry => .faceGeometry
  | .livenessUnavailable => .internalFailure
  | .spoofDetected => .spoofDetected
  | .invalidEmbedding | .runtime => .internalFailure

/-- `map_vault_error`. -/
def mapVaultError : VaultError → WorkerErrorCode
  | .notFound => .noProfile
  | .crypto _ | .corrupt | .unknownSchema | .wrongUid | .invalidEmbedding => .vaultCorrupt
  | .modelMismatch => .modelMismatch
  | .profileBounds => .profileBounds
  | .keyProvider => .keyUnavailable
  | .io | .unavailable | .unsafeFilesystem | .lockTimeout | .oversized => .internalFailure

/-- What the worker finds when it carries out a request. -/
structure Replies where
  /-- The deadline could be set. -/
  control : Bool
  /-- `IdentityProvider::from_model_root` succeeded, now or before. -/
  provider : Bool
  /-- `Vault::production`. -/
  production : Except VaultError Unit
  /-- `Vault::status`. -/
  status : VaultStatus
  /-- `IdentityProvider::extract`. -/
  extract : Except IdentityError Embedding
  /-- The sample is a duplicate of a prior one. -/
  duplicate : Bool
  /-- The operation on the vault. -/
  vault : Except VaultError Unit
  /-- `Vault::open_profile`, up to the profile. -/
  opened : Except VaultError Unit
  /-- `Profile::verify`. -/
  verification : VerificationResult
  /-- `Vault::validate_integrity`. -/
  validated : Except VaultError ProfileSummary
  /-- `MasterKey::generate`. -/
  generated : Except VaultError MasterKey

/-- An acknowledgement, or the error of an operation on the vault. -/
def acknowledge (generation : UInt64) (r : Replies) : List UInt8 :=
  match r.production with
  | .error e => encodeError (mapVaultError e) generation
  | .ok () =>
    match r.vault with
    | .error e => encodeError (mapVaultError e) generation
    | .ok () => encodeAck generation

/-- `process_request`. -/
def processRequest (request : ParsedRequest) (r : Replies) : List UInt8 :=
  let generation := request.generation
  if !r.control then encodeError .deadlineExceeded generation
  else
    match request.request with
    | .status _ =>
      if !r.provider then encodeError .modelUnavailable generation
      else
        match r.production with
        | .error e => encodeError (mapVaultError e) generation
        | .ok () => encodeStatus generation r.status
    | .extract _ _ =>
      if !r.provider then encodeError .modelUnavailable generation
      else
        match r.extract with
        | .ok sample =>
          if r.duplicate then encodeError .duplicateSample generation
          else encodeSample generation sample
        | .error e => encodeError (mapIdentityError e) generation
    | .commit _ samples =>
      match Profile.new samples with
      | .error e => encodeError (mapVaultError e) generation
      | .ok _ => acknowledge generation r
    | .summary _ =>
      match r.production with
      | .error e => encodeError (mapVaultError e) generation
      | .ok () => encodeStatus generation r.status
    | .verify _ _ =>
      match r.production with
      | .error e => encodeError (mapVaultError e) generation
      | .ok () =>
        match r.opened with
        | .error e => encodeError (mapVaultError e) generation
        | .ok () =>
          if !r.provider then encodeError .modelUnavailable generation
          else
            match r.extract with
            | .ok _ => encodeVerification generation r.verification
            | .error e => encodeError (mapIdentityError e) generation
    | .delete _ => acknowledge generation r
    | .rotate _ _ => acknowledge generation r
    | .validate _ =>
      match r.production with
      | .error e => encodeError (mapVaultError e) generation
      | .ok () =>
        match r.validated with
        | .error e => encodeError (mapVaultError e) generation
        | .ok summary => encodeStatus generation (.ready summary)
    | .resetUnreadable => acknowledge generation r
    | .generateKey =>
      match r.generated with
      | .error e => encodeError (mapVaultError e) generation
      | .ok key => encodeKey generation key

/-! ## The application -/

/-- `IdentityProtocol::Operation`. -/
inductive Operation
  | status
  | extractEnrollmentSample
  | commitEnrollment
  | listProfileSummary
  | verifyOneFrame
  | deleteProfile
  | rotateVaultKey
  | validateVault
  | resetUnreadable
  deriving DecidableEq, Repr

def Operation.toByte : Operation → UInt8
  | status => 1
  | extractEnrollmentSample => 2
  | commitEnrollment => 3
  | listProfileSummary => 4
  | verifyOneFrame => 5
  | deleteProfile => 6
  | rotateVaultKey => 7
  | validateVault => 8
  | resetUnreadable => 9

/-- The payload of `request`. -/
def requestPayload (operation : Operation) (generation : UInt64) (flags : UInt8)
    (data : List UInt8) : List UInt8 :=
  be16 protocolVersion ++ [operation.toByte] ++ [flags] ++ be64 generation.toNat ++
    be32 defaultTimeoutMs ++ data

/-- `request`. A request that cannot be built is empty. -/
def request (operation : Operation) (generation : UInt64) (flags : UInt8) (data : List UInt8) :
    List UInt8 :=
  if generation = 0 then [] else framed (requestPayload operation generation flags data)

/-- The null image. -/
def nullImage : QImage := ⟨0, 0, 0, [], Nat.le_refl 0, rfl⟩

/-- `encodedFrame`. The conversion to RGB888 gives a null image if there is no
    memory for it. -/
def encodedFrame (source : QImage) (converted : Bool) : List UInt8 :=
  let frame := if converted then source else nullImage
  let stride := frame.width * 3
  if source.width = 0 ∨ source.height = 0 ∨ maxWidth < source.width ∨ maxHeight < source.height then
    []
  else if stride = 0 ∨ 65535 < stride then []
  else [1] ++ [0] ++ be16 frame.width ++ be16 frame.height ++ be16 stride ++
    (List.range frame.height).flatMap fun row => (frame.scanLine row).take stride

/-- A call of one of the functions that build a request. -/
inductive BuilderCall
  | statusRequest (key : List UInt8)
  | extractSampleRequest (priorEmbeddings : List UInt8) (sampleCount : UInt8) (frame : QImage)
      (converted : Bool)
  | commitRequest (key embeddings : List UInt8) (sampleCount : UInt8)
  | summaryRequest (key : List UInt8)
  | verifyRequest (key : List UInt8) (frame : QImage) (converted : Bool)
  | keyRequest (operation : Operation) (key : List UInt8)
  | resetRequest

/-- `statusRequest`, `extractSampleRequest`, `commitRequest`, `summaryRequest`,
    `verifyRequest`, `keyRequest` and `resetRequest`. -/
def BuilderCall.frame (generation : UInt64) : BuilderCall → List UInt8
  | statusRequest key =>
    if key ≠ [] ∧ key.length ≠ keyBytes then []
    else request .status generation (if key = [] then 0 else 1) key
  | extractSampleRequest priorEmbeddings sampleCount frame converted =>
    if sampleCount ≥ 8 ∨ priorEmbeddings.length ≠ sampleCount.toNat * embeddingBytes then []
    else
      let image := encodedFrame frame converted
      if image = [] then []
      else request .extractEnrollmentSample generation 0
        ([sampleCount] ++ priorEmbeddings ++ image)
  | commitRequest key embeddings sampleCount =>
    if key.length ≠ keyBytes ∨ sampleCount < 3 ∨ sampleCount > 8 ∨
        embeddings.length ≠ sampleCount.toNat * embeddingBytes then []
    else request .commitEnrollment generation 0 (key ++ [sampleCount] ++ embeddings)
  | summaryRequest key =>
    if key.length ≠ keyBytes then [] else request .listProfileSummary generation 0 key
  | verifyRequest key frame converted =>
    if key.length ≠ keyBytes then []
    else
      let image := encodedFrame frame converted
      if image = [] then [] else request .verifyOneFrame generation 0 (key ++ image)
  | keyRequest operation key =>
    if key.length ≠ keyBytes ∨ (operation ≠ .deleteProfile ∧ operation ≠ .validateVault) then []
    else request operation generation 0 key
  | resetRequest => request .resetUnreadable generation 0 []

/-- `ResponseKind`. -/
inductive ResponseKind
  | status
  | sample
  | ack
  | verification
  | error
  deriving DecidableEq, Repr

/-- `Response`. -/
structure Response where
  kind : ResponseKind
  code : UInt8
  generation : UInt64
  sensitivePayload : List UInt8
  deriving DecidableEq, Repr

/-- The kinds that `parseResponse` knows, by their number. -/
def ResponseKind.toByte : ResponseKind → UInt8
  | status => 0x81
  | sample => 0x82
  | ack => 0x83
  | verification => 0x84
  | error => 0xff

/-- The kind of a response that is valid with a code and a body of this size. -/
def validKind (kind code : UInt8) (bodySize : ℕ) : Option ResponseKind :=
  if kind = ResponseKind.status.toByte ∧ code ≤ 4 ∧ bodySize = 1 then some .status
  else if kind = ResponseKind.sample.toByte ∧ code = 0 ∧ bodySize = embeddingBytes then some .sample
  else if kind = ResponseKind.ack.toByte ∧ code = 0 ∧ bodySize = 0 then some .ack
  else if kind = ResponseKind.verification.toByte ∧ 1 ≤ code ∧ code ≤ 3 ∧ bodySize = 0 then
    some .verification
  else if kind = ResponseKind.error.toByte ∧ 1 ≤ code ∧ code ≤ 32 ∧ bodySize = 0 then some .error
  else none

/-- `parseResponse`. -/
def parseResponse (payload : List UInt8) (expectedGeneration : UInt64) : Option Response :=
  if payload.length < 12 ∨ maxResponseBytes < payload.length ∨
      ofBe ((payload.drop 0).take 2) ≠ protocolVersion ∨
      ofBe ((payload.drop 4).take 8) ≠ expectedGeneration.toNat then none
  else
    (validKind (payload.getD 2 0) (payload.getD 3 0) (payload.length - 12)).map fun kind =>
      { kind, code := payload.getD 3 0, generation := expectedGeneration
        sensitivePayload := payload.drop 12 }

/-! ## Requests are parsed to what they were built from -/

section

variable {isNormalized : List UInt8 → Bool}

/-- The header of a request, read back. -/
theorem parseRequest_requestPayload {operation : Operation} {generation : UInt64} {flags : UInt8}
    {data : List UInt8} {request : Request} (hgeneration : generation ≠ 0)
    (h : parseOperation isNormalized operation.toByte flags data = .ok request) :
    parseRequest isNormalized (requestPayload operation generation flags data) =
      .ok ⟨generation, defaultTimeoutMs, request⟩ := by
  obtain ⟨payload, hp⟩ : ∃ payload, payload = requestPayload operation generation flags data :=
    ⟨_, rfl⟩
  have hlen : payload.length = 16 + data.length := by
    simp only [hp, requestPayload, List.length_append, length_be16, length_be32, length_be64,
      List.length_singleton]
  rw [← hp]
  simp only [requestPayload] at hp
  have hversion : (payload.drop 0).take 2 = be16 protocolVersion :=
    field_of_eq_append (a := []) (by rw [hp]; simp only [List.append_assoc]; rfl) rfl rfl
  have hop : payload.getD 2 0 = operation.toByte :=
    getD_of_eq_append (a := be16 protocolVersion)
      (by rw [hp]; simp only [List.append_assoc]; rfl) rfl
  have hflags : payload.getD 3 0 = flags :=
    getD_of_eq_append (a := be16 protocolVersion ++ [operation.toByte])
      (by rw [hp]; simp only [List.append_assoc]; rfl) rfl
  have hgen : (payload.drop 4).take 8 = be64 generation.toNat :=
    field_of_eq_append (a := be16 protocolVersion ++ [operation.toByte] ++ [flags])
      (by rw [hp]; simp only [List.append_assoc]; rfl) rfl rfl
  have htimeout : (payload.drop 12).take 4 = be32 defaultTimeoutMs :=
    field_of_eq_append
      (a := be16 protocolVersion ++ [operation.toByte] ++ [flags] ++ be64 generation.toNat)
      (by rw [hp]; simp only [List.append_assoc]; rfl) rfl rfl
  have hdata : payload.drop 16 = data := by
    rw [hp]
    rfl
  have hvalue : UInt64.ofNat (ofBe (be64 generation.toNat)) = generation := by
    rw [ofBe_be64 generation.toNat_lt, UInt64.ofNat_toNat]
  have hlong : ¬ payload.length < 12 := by omega
  unfold parseRequest
  simp only [hversion, hop, hflags, hgen, htimeout, hdata, hvalue, h, if_neg hlong]
  rw [if_neg (by omega), if_neg (by decide), if_neg hgeneration, if_neg (by decide)]
  rfl

/-- The samples that `parse_embeddings` takes apart. -/
def samplesOf : ℕ → List UInt8 → List (List UInt8)
  | 0, _ => []
  | n + 1, data => data.take embeddingBytes :: samplesOf n (data.drop embeddingBytes)

theorem length_samplesOf (n : ℕ) (data : List UInt8) : (samplesOf n data).length = n := by
  induction n generalizing data with
  | zero => rfl
  | succ n ih => rw [samplesOf, List.length_cons, ih]

theorem flatten_samplesOf {n : ℕ} {data : List UInt8} (h : data.length = n * embeddingBytes) :
    (samplesOf n data).flatten = data := by
  induction n generalizing data with
  | zero =>
    rw [Nat.zero_mul] at h
    rw [List.length_eq_zero_iff.mp h]
    rfl
  | succ n ih =>
    rw [samplesOf, List.flatten_cons, ih, List.take_append_drop]
    rw [List.length_drop, h, Nat.succ_mul, Nat.add_sub_cancel]

theorem parseSamples_ok {n : ℕ} {data : List UInt8}
    (h : ∀ sample ∈ samplesOf n data, isNormalized sample = true) :
    parseSamples isNormalized n data = .ok (samplesOf n data) := by
  induction n generalizing data with
  | zero => rfl
  | succ n ih =>
    rw [parseSamples, if_pos (h _ List.mem_cons_self),
      ih fun sample hs => h sample (List.mem_cons_of_mem _ hs)]
    rfl

theorem mul_embeddingBytes (n : ℕ) : n * embeddingBytes = n * embeddingDimension * 4 := by
  rw [embeddingBytes, Nat.mul_comm 4, Nat.mul_assoc]

theorem mul_embeddingBytes_le {n : ℕ} (h : n ≤ maximumProfileSamples) :
    n * embeddingBytes ≤ maximumProfileSamples * embeddingDimension * 4 := by
  rw [mul_embeddingBytes]
  exact Nat.mul_le_mul_right 4 (Nat.mul_le_mul_right _ h)

theorem parseEmbeddings_ok {count : UInt8} {data : List UInt8}
    (hcount : count.toNat ≤ maximumProfileSamples)
    (hlen : data.length = count.toNat * embeddingBytes)
    (h : ∀ sample ∈ samplesOf count.toNat data, isNormalized sample = true) :
    parseEmbeddings isNormalized (count :: data) = .ok (samplesOf count.toNat data) := by
  have hbytes : ¬ 1 + data.length ≠ 1 + count.toNat * embeddingDimension * 4 := by
    rw [hlen, mul_embeddingBytes, not_not]
  rw [parseEmbeddings, if_neg (Nat.not_lt.mpr hcount), if_neg hbytes, parseSamples_ok h]

/-- The image that the worker sees is the frame. -/
def Shows (image : ImageView) (frame : QImage) : Prop :=
  image = { format := .rgb8, width := frame.width, height := frame.height
            stride := frame.width * 3, bytes := frame.pixels }

/-- An encoded frame, by its fields. -/
theorem encodedFrame_eq {frame : QImage} {converted : Bool} (h : encodedFrame frame converted ≠ []) :
    (0 < frame.width ∧ frame.width ≤ maxWidth) ∧ (0 < frame.height ∧ frame.height ≤ maxHeight) ∧
      encodedFrame frame converted = [1] ++ [0] ++ be16 frame.width ++ be16 frame.height ++
        be16 (frame.width * 3) ++ frame.pixels := by
  unfold encodedFrame at h ⊢
  cases converted with
  | false => exact absurd (by simp [nullImage]) h
  | true =>
    simp only [if_true] at h ⊢
    split at h
    · exact absurd rfl h
    next hbounds =>
    split at h
    · exact absurd rfl h
    next hstride =>
    rw [if_neg hbounds, if_neg hstride]
    exact ⟨by omega, by omega, rfl⟩

theorem length_pixels_le {width height : ℕ} (hw : width ≤ maxWidth) (hh : height ≤ maxHeight) :
    width * 3 * height ≤ maxFrameBytes :=
  Nat.le_trans (Nat.mul_le_mul (Nat.mul_le_mul_right 3 hw) hh) (by decide)

theorem parseImage_encodedFrame {frame : QImage} {converted : Bool}
    (h : encodedFrame frame converted ≠ []) :
    ∃ image, parseImage (encodedFrame frame converted) = .ok image ∧ Shows image frame := by
  obtain ⟨hw, hh, hdata⟩ := encodedFrame_eq h
  generalize encodedFrame frame converted = data at hdata
  have hwidth : (data.drop 2).take 2 = be16 frame.width :=
    field_of_eq_append (a := [1] ++ [0]) (by rw [hdata]; simp only [List.append_assoc]; rfl) rfl rfl
  have hheight : (data.drop 4).take 2 = be16 frame.height :=
    field_of_eq_append (a := [1] ++ [0] ++ be16 frame.width)
      (by rw [hdata]; simp only [List.append_assoc]; rfl) rfl rfl
  have hstride : (data.drop 6).take 2 = be16 (frame.width * 3) :=
    field_of_eq_append (a := [1] ++ [0] ++ be16 frame.width ++ be16 frame.height)
      (by rw [hdata]; simp only [List.append_assoc]; rfl) rfl rfl
  have hpixels : data.drop 8 = frame.pixels := by
    rw [hdata]
    rfl
  have hlen : ¬ data.length < 8 := by
    have hfield : ((data.drop 6).take 2).length = 2 := by rw [hstride]; rfl
    rw [List.length_take, List.length_drop] at hfield
    omega
  have hformat : PixelFormat.ofByte (data.getD 0 0) = .ok .rgb8 := by
    rw [hdata]
    rfl
  have hzero : data.getD 1 0 = 0 := by
    rw [hdata]
    rfl
  have hwmax : frame.width ≤ 1920 := hw.2
  have hhmax : frame.height ≤ 1080 := hh.2
  refine ⟨_, ?_, rfl⟩
  unfold parseImage
  rw [if_neg hlen, hformat]
  simp only
  rw [if_neg (not_not.mpr hzero), hwidth, hheight, hstride, hpixels, ofBe_be16 (by omega),
    ofBe_be16 (by omega), ofBe_be16 (by omega),
    ImageView.new_ok hw hh (Nat.le_refl _) frame.length_pixels (length_pixels_le hw.2 hh.2)]

/-- The request of the worker that a call stands for. -/
def BuilderCall.Matches : BuilderCall → Request → Prop
  | .statusRequest key, .status none => key = []
  | .statusRequest key, .status (some k) => k.bytes = key
  | .extractSampleRequest priorEmbeddings sampleCount frame _, .extract prior image =>
    prior.length = sampleCount.toNat ∧ prior.flatten = priorEmbeddings ∧ Shows image frame
  | .commitRequest key embeddings sampleCount, .commit k samples =>
    k.bytes = key ∧ samples.length = sampleCount.toNat ∧ samples.flatten = embeddings
  | .summaryRequest key, .summary k => k.bytes = key
  | .verifyRequest key frame _, .verify k image => k.bytes = key ∧ Shows image frame
  | .keyRequest operation key, .delete k => operation = .deleteProfile ∧ k.bytes = key
  | .keyRequest operation key, .validate k => operation = .validateVault ∧ k.bytes = key
  | .resetRequest, .resetUnreadable => True
  | _, _ => False

/-- The embeddings of a call are ones that `from_normalized` accepts. -/
def BuilderCall.Normalized (isNormalized : List UInt8 → Bool) : BuilderCall → Prop
  | .extractSampleRequest embeddings sampleCount _ _ | .commitRequest _ embeddings sampleCount =>
    ∀ sample ∈ samplesOf sampleCount.toNat embeddings, isNormalized sample = true
  | _ => True

/-- What a call gives: the operation and its data, within the size of a request. -/
structure Built (isNormalized : List UInt8 → Bool) (generation : UInt64) (call : BuilderCall)
    (request : Request) (operation : Operation) (flags : UInt8) (data : List UInt8) : Prop where
  frame : call.frame generation = Identity.request operation generation flags data
  parsed : parseOperation isNormalized operation.toByte flags data = .ok request
  same : call.Matches request
  size : 16 + data.length ≤ maxRequestBytes

theorem masterKey_ok (key : MasterKey) : masterKey key.bytes = .ok key := dif_pos key.len

/-- The operations that take a key and nothing else. -/
theorem parseOperation_key (key : MasterKey) :
    parseOperation isNormalized opStatus 1 key.bytes = .ok (.status (some key)) ∧
      parseOperation isNormalized opListProfileSummary 0 key.bytes = .ok (.summary key) ∧
      parseOperation isNormalized opDeleteProfile 0 key.bytes = .ok (.delete key) ∧
      parseOperation isNormalized opValidateVault 0 key.bytes = .ok (.validate key) := by
  have hread (make : MasterKey → Request) :
      (if (0 : UInt8) = 0 ∧ key.bytes.length = keyBytes then
        (do return make (← masterKey key.bytes) : Except WorkerErrorCode Request)
      else .error .invalidRequest) = .ok (make key) := by
    rw [if_pos ⟨rfl, key.len⟩, masterKey_ok]
    rfl
  refine ⟨?_, hread .summary, hread .delete, hread .validate⟩
  have hstatus : parseOperation isNormalized opStatus 1 key.bytes =
      if (1 : UInt8) = 1 ∧ key.bytes.length = keyBytes then
        (do return .status (some (← masterKey key.bytes)) : Except WorkerErrorCode Request)
      else .error .invalidRequest := rfl
  rw [hstatus, if_pos ⟨rfl, key.len⟩, masterKey_ok]
  rfl

/-- A key and what follows it. -/
theorem take_drop_key (key : MasterKey) (rest : List UInt8) :
    (key.bytes ++ rest).take keyBytes = key.bytes ∧ (key.bytes ++ rest).drop keyBytes = rest := by
  rw [← key.len, List.take_left, List.drop_left]
  exact ⟨rfl, rfl⟩

theorem parseOperation_commit (key : MasterKey) {count : UInt8} {embeddings : List UInt8}
    (hcount : count.toNat ≤ maximumProfileSamples)
    (hlen : embeddings.length = count.toNat * embeddingBytes)
    (hnorm : ∀ sample ∈ samplesOf count.toNat embeddings, isNormalized sample = true) :
    parseOperation isNormalized opCommitEnrollment 0 (key.bytes ++ count :: embeddings) =
      .ok (.commit key (samplesOf count.toNat embeddings)) := by
  obtain ⟨htake, hdrop⟩ := take_drop_key key (count :: embeddings)
  have hlong : ¬ (key.bytes ++ count :: embeddings).length < keyBytes + 1 := by
    rw [List.length_append, key.len, List.length_cons]
    omega
  have hparse : parseOperation isNormalized opCommitEnrollment 0
      (key.bytes ++ count :: embeddings) =
      if (key.bytes ++ count :: embeddings).length < keyBytes + 1 then .error .invalidRequest
      else (do
        let k ← masterKey ((key.bytes ++ count :: embeddings).take keyBytes)
        return .commit k (← parseEmbeddings isNormalized
          ((key.bytes ++ count :: embeddings).drop keyBytes))) := rfl
  rw [hparse, if_neg hlong, htake, hdrop, masterKey_ok, parseEmbeddings_ok hcount hlen hnorm]
  rfl

theorem parseOperation_verify (key : MasterKey) {data : List UInt8} {image : ImageView}
    (hne : data ≠ []) (himage : parseImage data = .ok image) :
    parseOperation isNormalized opVerifyOneFrame 0 (key.bytes ++ data) =
      .ok (.verify key image) := by
  obtain ⟨htake, hdrop⟩ := take_drop_key key data
  have hlong : keyBytes < (key.bytes ++ data).length := by
    rw [List.length_append, key.len]
    exact Nat.lt_add_of_pos_right (List.length_pos_iff.mpr hne)
  have hparse : parseOperation isNormalized opVerifyOneFrame 0 (key.bytes ++ data) =
      if (0 : UInt8) = 0 ∧ keyBytes < (key.bytes ++ data).length then (do
        let k ← masterKey ((key.bytes ++ data).take keyBytes)
        return .verify k (← parseImage ((key.bytes ++ data).drop keyBytes)))
      else .error .invalidRequest := rfl
  rw [hparse, if_pos ⟨rfl, hlong⟩, htake, hdrop, masterKey_ok, himage]
  rfl

theorem parseOperation_extract {count : UInt8} {embeddings data : List UInt8} {image : ImageView}
    (hcount : count.toNat < maximumProfileSamples)
    (hlen : embeddings.length = count.toNat * embeddingBytes)
    (hnorm : ∀ sample ∈ samplesOf count.toNat embeddings, isNormalized sample = true)
    (hne : data ≠ []) (himage : parseImage data = .ok image) :
    parseOperation isNormalized opExtractEnrollmentSample 0 (count :: (embeddings ++ data)) =
      .ok (.extract (samplesOf count.toNat embeddings) image) := by
  have hbytes : embeddings.length = count.toNat * embeddingDimension * 4 := by
    rw [hlen, mul_embeddingBytes]
  have hlong : ¬ 1 + (embeddings ++ data).length ≤ 1 + count.toNat * embeddingDimension * 4 := by
    have := List.length_pos_iff.mpr hne
    rw [List.length_append, hbytes]
    omega
  have himages : parseEnrollmentImage isNormalized (count :: (embeddings ++ data)) =
      .ok (samplesOf count.toNat embeddings, image) := by
    unfold parseEnrollmentImage
    simp only
    rw [if_neg (Nat.not_le.mpr hcount), if_neg hlong, ← hbytes, List.take_left, List.drop_left,
      parseEmbeddings_ok (Nat.le_of_lt hcount) hlen hnorm, himage]
    rfl
  have hparse : parseOperation isNormalized opExtractEnrollmentSample 0
      (count :: (embeddings ++ data)) = (do
        let (prior, image) ← parseEnrollmentImage isNormalized (count :: (embeddings ++ data))
        return .extract prior image) := rfl
  rw [hparse, himages]
  rfl

theorem length_encodedFrame_le {frame : QImage} {converted : Bool}
    (h : encodedFrame frame converted ≠ []) :
    (encodedFrame frame converted).length ≤ 8 + maxFrameBytes := by
  obtain ⟨hw, hh, hdata⟩ := encodedFrame_eq h
  rw [hdata, List.length_append, frame.length_pixels]
  exact Nat.add_le_add_left (length_pixels_le hw.2 hh.2) 8

/-- Every call that gives a frame gives one that is parsed. -/
theorem built_of_frame {generation : UInt64} {call : BuilderCall}
    (hnorm : call.Normalized isNormalized) (h : call.frame generation ≠ []) :
    ∃ request operation flags data,
      Built isNormalized generation call request operation flags data := by
  have hkeySize : ∀ key : List UInt8, key.length = keyBytes → 16 + key.length ≤ maxRequestBytes := by
    intro key hlen
    rw [hlen]
    decide
  cases call with
  | statusRequest key =>
    simp only [BuilderCall.frame] at h
    split at h
    · exact absurd rfl h
    next hkey =>
    by_cases hempty : key = []
    · subst hempty
      exact ⟨.status none, .status, 0, [], ⟨rfl, rfl, rfl, by decide⟩⟩
    · have hlen : key.length = keyBytes := by
        by_contra hne
        exact hkey ⟨hempty, hne⟩
      refine ⟨.status (some ⟨key, hlen⟩), .status, 1, key,
        ⟨?_, (parseOperation_key ⟨key, hlen⟩).1, rfl, hkeySize key hlen⟩⟩
      simp only [BuilderCall.frame]
      rw [if_neg hkey, if_neg hempty]
  | extractSampleRequest priorEmbeddings sampleCount frame converted =>
    simp only [BuilderCall.frame] at h
    split at h
    · exact absurd rfl h
    next hvalid =>
    split at h
    · exact absurd rfl h
    next himage =>
    have hframe : (BuilderCall.extractSampleRequest priorEmbeddings sampleCount frame
        converted).frame generation = Identity.request .extractEnrollmentSample generation 0
          (sampleCount :: (priorEmbeddings ++ encodedFrame frame converted)) := by
      simp only [BuilderCall.frame]
      rw [if_neg hvalid, if_neg himage]
      rfl
    rw [not_or, not_not, ge_iff_le, UInt8.not_le] at hvalid
    obtain ⟨hcount, hlen⟩ := hvalid
    have hcount : sampleCount.toNat < maximumProfileSamples := hcount
    obtain ⟨image, hparse, hshows⟩ := parseImage_encodedFrame himage
    refine ⟨_, .extractEnrollmentSample, 0, _, ⟨hframe,
      parseOperation_extract hcount hlen hnorm himage hparse,
      ⟨length_samplesOf _ _, flatten_samplesOf hlen, hshows⟩, ?_⟩⟩
    have hsamples := mul_embeddingBytes_le (Nat.le_of_lt hcount)
    have hpixels := length_encodedFrame_le himage
    rw [List.length_cons, List.length_append, hlen]
    unfold maxRequestBytes
    omega
  | commitRequest key embeddings sampleCount =>
    simp only [BuilderCall.frame] at h
    split at h
    · exact absurd rfl h
    next hvalid =>
    have hframe : (BuilderCall.commitRequest key embeddings sampleCount).frame generation =
        Identity.request .commitEnrollment generation 0 (key ++ sampleCount :: embeddings) := by
      simp only [BuilderCall.frame]
      rw [if_neg hvalid, List.append_assoc]
      rfl
    rw [not_or, not_not, not_or, not_or, not_not] at hvalid
    obtain ⟨hkey, -, hcount, hlen⟩ := hvalid
    have hcount : sampleCount.toNat ≤ maximumProfileSamples := UInt8.not_lt.mp hcount
    refine ⟨_, .commitEnrollment, 0, _, ⟨hframe,
      parseOperation_commit ⟨key, hkey⟩ hcount hlen hnorm,
      ⟨rfl, length_samplesOf _ _, flatten_samplesOf hlen⟩, ?_⟩⟩
    have hsamples := mul_embeddingBytes_le hcount
    have hkey : key.length = 32 := hkey
    rw [List.length_append, List.length_cons, hlen, hkey]
    unfold maxRequestBytes
    omega
  | summaryRequest key =>
    simp only [BuilderCall.frame] at h
    split at h
    · exact absurd rfl h
    next hkey =>
    rw [not_not] at hkey
    refine ⟨.summary ⟨key, hkey⟩, .listProfileSummary, 0, key,
      ⟨?_, (parseOperation_key ⟨key, hkey⟩).2.1, rfl, hkeySize key hkey⟩⟩
    simp only [BuilderCall.frame]
    rw [if_neg (not_not.mpr hkey)]
  | verifyRequest key frame converted =>
    simp only [BuilderCall.frame] at h
    split at h
    · exact absurd rfl h
    next hkey =>
    split at h
    · exact absurd rfl h
    next himage =>
    have hframe : (BuilderCall.verifyRequest key frame converted).frame generation =
        Identity.request .verifyOneFrame generation 0 (key ++ encodedFrame frame converted) := by
      simp only [BuilderCall.frame]
      rw [if_neg hkey, if_neg himage]
    rw [not_not] at hkey
    obtain ⟨image, hparse, hshows⟩ := parseImage_encodedFrame himage
    refine ⟨_, .verifyOneFrame, 0, _, ⟨hframe,
      parseOperation_verify ⟨key, hkey⟩ himage hparse, ⟨rfl, hshows⟩, ?_⟩⟩
    have hpixels := length_encodedFrame_le himage
    have hkey : key.length = 32 := hkey
    rw [List.length_append, hkey]
    unfold maxRequestBytes
    omega
  | keyRequest operation key =>
    simp only [BuilderCall.frame] at h
    split at h
    · exact absurd rfl h
    next hvalid =>
    have hframe : (BuilderCall.keyRequest operation key).frame generation =
        Identity.request operation generation 0 key := by
      simp only [BuilderCall.frame]
      rw [if_neg hvalid]
    rw [not_or, not_not, not_and_or, not_not, not_not] at hvalid
    obtain ⟨hkey, rfl | rfl⟩ := hvalid
    · exact ⟨.delete ⟨key, hkey⟩, .deleteProfile, 0, key,
        ⟨hframe, (parseOperation_key ⟨key, hkey⟩).2.2.1, ⟨rfl, rfl⟩, hkeySize key hkey⟩⟩
    · exact ⟨.validate ⟨key, hkey⟩, .validateVault, 0, key,
        ⟨hframe, (parseOperation_key ⟨key, hkey⟩).2.2.2, ⟨rfl, rfl⟩, hkeySize key hkey⟩⟩
  | resetRequest => exact ⟨.resetUnreadable, .resetUnreadable, 0, [], ⟨rfl, rfl, trivial, by decide⟩⟩

/-- A frame that the application builds is read as one frame and parsed to what
    it was built from. -/
theorem parseRequest_frame {generation : UInt64} {call : BuilderCall} (hgeneration : generation ≠ 0)
    (hnorm : call.Normalized isNormalized) (h : call.frame generation ≠ []) :
    ∃ payload request, call.frame generation = framed payload ∧
      readFrame maxRequestBytes (call.frame generation) = .ok (payload, []) ∧
      parseRequest isNormalized payload = .ok ⟨generation, defaultTimeoutMs, request⟩ ∧
      call.Matches request := by
  obtain ⟨request, operation, flags, data, hbuilt⟩ := built_of_frame hnorm h
  have hframe : call.frame generation = framed (requestPayload operation generation flags data) := by
    rw [hbuilt.frame, Identity.request, if_neg hgeneration]
  have hlen : (requestPayload operation generation flags data).length = 16 + data.length := by
    simp only [requestPayload, List.length_append, length_be16, length_be32, length_be64,
      List.length_singleton]
  have hsize := hbuilt.size
  refine ⟨_, request, hframe, ?_, parseRequest_requestPayload hgeneration hbuilt.parsed,
    hbuilt.same⟩
  rw [hframe, ← List.append_nil (framed _)]
  refine readFrame_framed [] (List.length_pos_iff.mp (by omega)) (by omega) ?_
  rw [hlen]
  exact Nat.lt_of_le_of_lt hsize (by decide)

end

/-! ## Responses are parsed to what was encoded -/

/-- What the worker answers to a request. -/
inductive Answer
  | status (status : VaultStatus)
  | sample (embedding : Embedding)
  | ack
  | verification (result : VerificationResult)
  | key (key : MasterKey)
  | error (code : WorkerErrorCode)

namespace Answer

/-- The kind of the response. -/
def kind : Answer → UInt8
  | status _ => responseStatus
  | sample _ => responseSample
  | ack => responseAck
  | verification _ => responseVerification
  | key _ => responseKey
  | error _ => responseError

/-- Its code. -/
def code : Answer → UInt8
  | status .absent => 0
  | status (.ready _) => 1
  | status .corrupt => 2
  | status .modelMismatch => 3
  | status .unavailable => 4
  | sample _ | ack | key _ => 0
  | verification .isMatch => 1
  | verification .noMatch => 2
  | verification .ambiguous => 3
  | error errorCode => errorCode.toByte

/-- What follows its header. -/
def body : Answer → List UInt8
  | status (.ready summary) => [summary.sampleCount]
  | status _ => [0]
  | sample embedding => embedding.bytes
  | key masterKey => masterKey.bytes
  | ack | verification _ | error _ => []

/-- The response, by its encoder. -/
def encode (generation : UInt64) : Answer → List UInt8
  | status vaultStatus => encodeStatus generation vaultStatus
  | sample embedding => encodeSample generation embedding
  | ack => encodeAck generation
  | verification result => encodeVerification generation result
  | key masterKey => encodeKey generation masterKey
  | error errorCode => encodeError errorCode generation

/-- The encoders write the kind, the code and what follows the header. -/
theorem encode_eq (generation : UInt64) (answer : Answer) :
    answer.encode generation =
      responseHeader answer.kind answer.code generation ++ answer.body := by
  cases answer with
  | status status => cases status <;> rfl
  | sample => rfl
  | ack => exact (List.append_nil _).symm
  | verification result => cases result <;> exact (List.append_nil _).symm
  | key => rfl
  | error => exact (List.append_nil _).symm

theorem length_body_le (answer : Answer) : answer.body.length ≤ embeddingBytes := by
  cases answer with
  | status status => cases status <;> exact Nat.le_of_ble_eq_true rfl
  | sample embedding => exact Nat.le_of_eq embedding.len
  | key key =>
    rw [body, key.len]
    decide
  | ack => exact Nat.zero_le _
  | verification => exact Nat.zero_le _
  | error => exact Nat.zero_le _

/-- The application knows the kind of every answer but a key. -/
theorem validKind_eq {answer : Answer} (h : ∀ key, answer ≠ .key key) :
    ∃ kind : ResponseKind, kind.toByte = answer.kind ∧
      validKind answer.kind answer.code answer.body.length = some kind := by
  cases answer with
  | status status => exact ⟨.status, rfl, by cases status <;> rfl⟩
  | sample embedding =>
    refine ⟨.sample, rfl, ?_⟩
    rw [body, embedding.len]
    rfl
  | ack => exact ⟨.ack, rfl, rfl⟩
  | verification result => exact ⟨.verification, rfl, by cases result <;> rfl⟩
  | key key => exact absurd rfl (h key)
  | error code => exact ⟨.error, rfl, by cases code <;> rfl⟩

end Answer

theorem parseResponse_responseHeader {generation : UInt64} {kind : ResponseKind} {code : UInt8}
    {body : List UInt8} (hvalid : validKind kind.toByte code body.length = some kind)
    (hsize : body.length ≤ embeddingBytes) :
    parseResponse (responseHeader kind.toByte code generation ++ body) generation =
      some { kind, code, generation, sensitivePayload := body } := by
  obtain ⟨response, heq⟩ : ∃ response, response = responseHeader kind.toByte code generation ++ body :=
    ⟨_, rfl⟩
  rw [← heq]
  simp only [responseHeader] at heq
  have hlen : response.length = 12 + body.length := by
    rw [heq]
    simp only [List.length_append, length_be16, length_be64, List.length_singleton]
  have hversion : (response.drop 0).take 2 = be16 protocolVersion :=
    field_of_eq_append (a := []) (by rw [heq]; simp only [List.append_assoc]; rfl) rfl rfl
  have hkind : response.getD 2 0 = kind.toByte :=
    getD_of_eq_append (a := be16 protocolVersion)
      (by rw [heq]; simp only [List.append_assoc]; rfl) rfl
  have hcode : response.getD 3 0 = code :=
    getD_of_eq_append (a := be16 protocolVersion ++ [kind.toByte])
      (by rw [heq]; simp only [List.append_assoc]; rfl) rfl
  have hgen : (response.drop 4).take 8 = be64 generation.toNat :=
    field_of_eq_append (a := be16 protocolVersion ++ [kind.toByte] ++ [code])
      (by rw [heq]; simp only [List.append_assoc]; rfl) rfl rfl
  have hbody : response.drop 12 = body := by
    rw [heq]
    rfl
  have hmax : response.length ≤ maxResponseBytes := by
    rw [hlen]
    unfold maxResponseBytes
    unfold embeddingBytes at hsize
    omega
  unfold parseResponse
  rw [hversion, hkind, hcode, hgen, hbody, ofBe_be64 generation.toNat_lt, hlen,
    Nat.add_sub_cancel_left, hvalid]
  rw [hlen] at hmax
  have hversionValue : ofBe (be16 protocolVersion) = protocolVersion := by decide
  rw [if_neg]
  · rfl
  · rw [hversionValue]
    omega

/-! ### What each request is answered -/

/-- An operation on the vault. -/
def Replies.inVault {α : Type} (result : Except VaultError α) : Except WorkerErrorCode α :=
  result.mapError mapVaultError

/-- The models are loaded. -/
def Replies.loaded (r : Replies) : Except WorkerErrorCode Unit :=
  if r.provider then .ok () else .error .modelUnavailable

/-- What a request asks for, or the first thing that goes wrong. -/
def Request.outcome (r : Replies) : Request → Except WorkerErrorCode Answer
  | .status _ => do
    r.loaded
    Replies.inVault r.production
    return .status r.status
  | .extract _ _ => do
    r.loaded
    let sample ← r.extract.mapError mapIdentityError
    if r.duplicate then throw .duplicateSample
    return .sample sample
  | .commit _ samples => do
    let _ ← Replies.inVault (Profile.new samples)
    Replies.inVault r.production
    Replies.inVault r.vault
    return .ack
  | .summary _ => do
    Replies.inVault r.production
    return .status r.status
  | .verify _ _ => do
    Replies.inVault r.production
    Replies.inVault r.opened
    r.loaded
    let _ ← r.extract.mapError mapIdentityError
    return .verification r.verification
  | .delete _ | .rotate _ _ | .resetUnreadable => do
    Replies.inVault r.production
    Replies.inVault r.vault
    return .ack
  | .validate _ => do
    Replies.inVault r.production
    return .status (.ready (← Replies.inVault r.validated))
  | .generateKey => return .key (← Replies.inVault r.generated)

/-- What went wrong is answered too. -/
def Answer.ofOutcome : Except WorkerErrorCode Answer → Answer
  | .ok answer => answer
  | .error code => .error code

/-- The answer to a request. -/
def Request.answer (r : Replies) (request : Request) : Answer :=
  if r.control then .ofOutcome (request.outcome r) else .error .deadlineExceeded

/-- An operation on the vault that is acknowledged. -/
theorem acknowledge_eq (generation : UInt64) (r : Replies) :
    acknowledge generation r = (Answer.ofOutcome do
      Replies.inVault r.production
      Replies.inVault r.vault
      return .ack).encode generation := by
  unfold acknowledge
  rcases r.production with e | ⟨⟩
  · rfl
  · rcases r.vault with e | ⟨⟩ <;> rfl

/-- The worker encodes the answer to a request. -/
theorem processRequest_eq (request : ParsedRequest) (r : Replies) :
    processRequest request r = (request.request.answer r).encode request.generation := by
  obtain ⟨generation, timeoutMs, request⟩ := request
  simp only [processRequest, Request.answer]
  cases r.control with
  | false => rfl
  | true =>
    cases request with
    | status key =>
      simp only [Request.outcome, Replies.loaded]
      cases r.provider with
      | false => rfl
      | true => rcases r.production with e | ⟨⟩ <;> rfl
    | extract prior image =>
      simp only [Request.outcome, Replies.loaded]
      cases r.provider with
      | false => rfl
      | true =>
        rcases r.extract with e | sample
        · rfl
        · cases r.duplicate <;> rfl
    | commit key samples =>
      simp only [Request.outcome]
      rcases Profile.new samples with e | profile
      · rfl
      · exact acknowledge_eq generation r
    | summary key =>
      simp only [Request.outcome]
      rcases r.production with e | ⟨⟩ <;> rfl
    | verify key image =>
      simp only [Request.outcome, Replies.loaded]
      rcases r.production with e | ⟨⟩
      · rfl
      · rcases r.opened with e | ⟨⟩
        · rfl
        · cases r.provider with
          | false => rfl
          | true => rcases r.extract with e | sample <;> rfl
    | delete key => exact acknowledge_eq generation r
    | rotate oldKey newKey => exact acknowledge_eq generation r
    | validate key =>
      simp only [Request.outcome]
      rcases r.production with e | ⟨⟩
      · rfl
      · rcases r.validated with e | summary <;> rfl
    | resetUnreadable => exact acknowledge_eq generation r
    | generateKey =>
      simp only [Request.outcome]
      rcases r.generated with e | key <;> rfl

theorem ofOutcome_bind_ne {α : Type} {key : MasterKey} {x : Except WorkerErrorCode α}
    {f : α → Except WorkerErrorCode Answer} (h : ∀ a, Answer.ofOutcome (f a) ≠ .key key) :
    Answer.ofOutcome (x >>= f) ≠ .key key := by
  cases x with
  | error e => rintro ⟨⟩
  | ok a => exact h a

/-- Only the request for a new key is answered with a key. -/
theorem Request.answer_ne_key {request : Request} (h : request ≠ .generateKey) (r : Replies)
    (key : MasterKey) : request.answer r ≠ .key key := by
  have hstatus : ∀ status : VaultStatus, Answer.ofOutcome (pure (.status status)) ≠ .key key := by
    rintro _ ⟨⟩
  have hack : Answer.ofOutcome (do
      Replies.inVault r.production
      Replies.inVault r.vault
      return .ack) ≠ .key key :=
    ofOutcome_bind_ne fun _ => ofOutcome_bind_ne fun _ => by rintro ⟨⟩
  unfold Request.answer
  split
  swap
  · rintro ⟨⟩
  cases request with
  | status => exact ofOutcome_bind_ne fun _ => ofOutcome_bind_ne fun _ => hstatus _
  | extract prior image =>
    refine ofOutcome_bind_ne fun _ => ofOutcome_bind_ne fun sample => ?_
    cases r.duplicate with
    | false => rintro ⟨⟩
    | true => rintro ⟨⟩
  | commit key samples => exact ofOutcome_bind_ne fun _ => hack
  | summary => exact ofOutcome_bind_ne fun _ => hstatus _
  | verify key image =>
    exact ofOutcome_bind_ne fun _ => ofOutcome_bind_ne fun _ => ofOutcome_bind_ne fun _ =>
      ofOutcome_bind_ne fun _ => by rintro ⟨⟩
  | delete | rotate | resetUnreadable => exact hack
  | validate => exact ofOutcome_bind_ne fun _ => ofOutcome_bind_ne fun _ => hstatus _
  | generateKey => exact absurd rfl h

/-- The application and the worker agree: a request that the application builds is parsed to
    what it was built from, and the response to it is parsed to the kind, the code and the
    body of the answer that the worker encoded. -/
theorem identity_protocol_agrees (isNormalized : List UInt8 → Bool) (generation : UInt64)
    (hgeneration : generation ≠ 0) (call : BuilderCall) (hnorm : call.Normalized isNormalized)
    (h : call.frame generation ≠ []) :
    ∃ payload request, call.frame generation = framed payload ∧
      readFrame maxRequestBytes (call.frame generation) = .ok (payload, []) ∧
      parseRequest isNormalized payload = .ok ⟨generation, defaultTimeoutMs, request⟩ ∧
      call.Matches request ∧
      ∀ r : Replies,
        processRequest ⟨generation, defaultTimeoutMs, request⟩ r =
          responseHeader (request.answer r).kind (request.answer r).code generation ++
            (request.answer r).body ∧
        ∃ kind : ResponseKind, kind.toByte = (request.answer r).kind ∧
          parseResponse (processRequest ⟨generation, defaultTimeoutMs, request⟩ r) generation =
            some { kind, code := (request.answer r).code, generation,
                   sensitivePayload := (request.answer r).body } := by
  obtain ⟨payload, request, hframe, hread, hparse, hmatches⟩ :=
    parseRequest_frame hgeneration hnorm h
  refine ⟨payload, request, hframe, hread, hparse, hmatches, fun r => ?_⟩
  have hkey : request ≠ .generateKey := by
    rintro rfl
    cases call <;> exact hmatches
  have hresponse : processRequest ⟨generation, defaultTimeoutMs, request⟩ r =
      responseHeader (request.answer r).kind (request.answer r).code generation ++
        (request.answer r).body :=
    (processRequest_eq _ r).trans (Answer.encode_eq _ _)
  obtain ⟨kind, hkind, hvalid⟩ := Answer.validKind_eq (Request.answer_ne_key hkey r)
  refine ⟨hresponse, kind, hkind, ?_⟩
  rw [hresponse, ← hkind]
  exact parseResponse_responseHeader (hkind ▸ hvalid) (Answer.length_body_le _)

/-- A frame of two pixels, with two bytes behind them. -/
def twoPixels : QImage where
  width := 2
  height := 1
  bytesPerLine := 8
  bits := [10, 20, 30, 40, 50, 60, 0, 0]
  wide := by decide
  size := by decide

/-- A worker that finds an embedding of norm one in the frame. -/
def foundSample : Replies where
  control := true
  provider := true
  production := .ok ()
  status := .absent
  extract := .ok ⟨unitEmbedding 1, length_unitEmbedding 1⟩
  duplicate := false
  vault := .ok ()
  opened := .ok ()
  verification := .noMatch
  validated := .error .notFound
  generated := .error .keyProvider

/-- The sample that is found beside an earlier one is sent. -/
theorem identity_protocol_agrees_twoPixels :
    let call := BuilderCall.extractSampleRequest (unitEmbedding 0) 1 twoPixels true
    ∃ payload request, call.frame 7 = framed payload ∧
      parseRequest (· == unitEmbedding 0) payload = .ok ⟨7, defaultTimeoutMs, request⟩ ∧
      call.Matches request ∧
      parseResponse (processRequest ⟨7, defaultTimeoutMs, request⟩ foundSample) 7 =
        some ⟨.sample, 0, 7, unitEmbedding 1⟩ := by
  intro call
  have hlen : (unitEmbedding 0).length = embeddingBytes := length_unitEmbedding 0
  have hframe : call.frame 7 ≠ [] := by
    simp only [call, BuilderCall.frame]
    rw [if_neg (by rw [hlen]; decide), if_neg (by decide), request, if_neg (by decide), framed]
    exact List.cons_ne_nil _ _
  have hnorm : call.Normalized (· == unitEmbedding 0) := by
    intro sample hsample
    have heq : sample = (unitEmbedding 0).take embeddingBytes := List.mem_singleton.mp hsample
    rw [heq, List.take_of_length_le (Nat.le_of_eq hlen)]
    exact beq_self_eq_true _
  obtain ⟨payload, request, hpayload, -, hparse, hmatches, hresponse⟩ :=
    identity_protocol_agrees (· == unitEmbedding 0) 7 (by decide) call hnorm hframe
  refine ⟨payload, request, hpayload, hparse, hmatches, ?_⟩
  cases request with
  | extract prior image =>
    obtain ⟨-, kind, hkind, hparsed⟩ := hresponse foundSample
    have hkind : kind.toByte = responseSample := hkind
    obtain rfl : kind = .sample := by
      revert hkind
      cases kind <;> decide
    exact hparsed
  | _ => exact hmatches.elim

end Identity

end KFaceAuth
