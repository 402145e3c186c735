import KFaceAuth.Worker.Stream
import KFaceAuth.Worker.Vision

/-!
# Sessions of the vision worker

The worker serves requests one after the other, with a provider that it has from
the start (`serveSessionWithProvider`) or one that it makes for the first request
(`serveSessionWithProviderFactory`). It is the second that the worker runs. It
makes the provider only for a request that it could parse, and goes on only with
a provider, so that a first request that is malformed is also the last.

* `factory_eq_provider_iff`: the two write the same and end in the same way unless
  the first request is malformed, its response was written, and the stream does
  not end there.
-/

namespace KFaceAuth

namespace Vision

def maxResponsePayload : ℕ := 16 + maxFaces * (8 + 20)

/-! ## Responses -/

inductive VisionError
  | cancelled
  | deadlineExceeded
  | faceAtEdge
  | runtimeFailure
  | invalidRuntimeOutput
  deriving DecidableEq, Repr

/-- `map_vision_error`. -/
def mapVisionError : VisionError → WorkerErrorCode
  | .cancelled => .cancelled
  | .deadlineExceeded => .deadlineExceeded
  | .faceAtEdge => .faceAtEdge
  | .invalidRuntimeOutput => .invalidRuntimeOutput
  | .runtimeFailure => .runtimeFailure

/-- A deterministic `VisionProvider`, with the deadlines it is called with. -/
structure Provider where
  /-- `ProcessingControl::with_timeout`, of milliseconds. -/
  withTimeout : ℕ → Except VisionError Unit
  /-- `analyze`, with as many milliseconds. -/
  analyze : ImageView → ℕ → Except VisionError VisionAnalysis

/-- `process_request`. -/
def processRequest (provider : Provider) (request : AnalyzeRequest) : List UInt8 :=
  match provider.withTimeout request.timeoutMs with
  | .error e => encodeError (mapVisionError e) request.generation
  | .ok () =>
    match provider.analyze request.image request.timeoutMs with
    | .ok analysis =>
      if validAnalysis analysis request.image then encodeAnalysis request.generation analysis
      else encodeError .invalidRuntimeOutput request.generation
    | .error e => encodeError (mapVisionError e) request.generation

/-! ## Sessions -/

/-- `serve_session_with_provider`. -/
def serveSessionWithProvider (provider : Provider) (reader : Reader) (writer : Writer) :
    Except FrameError Unit × Writer :=
  match _h : readFrameOrEof maxRequestPayload reader with
  | (.error e, _) => (.error e, writer)
  | (.ok none, _) => (.ok (), writer)
  | (.ok (some payload), reader') =>
    let response := match parseRequest payload with
      | .ok request => processRequest provider request
      | .error e => encodeError e.code e.generation
    match writer.writeFrame response maxResponsePayload with
    | (.error e, writer) => (.error e, writer)
    | (.ok (), writer) => serveSessionWithProvider provider reader' writer
  termination_by reader.size
  decreasing_by exact size_readFrameOrEof_lt _h

/-- `serve_session_with_provider_factory`, with what the factory gives. -/
def serveSessionWithProviderFactory (factory : Except WorkerErrorCode Provider) (reader : Reader)
    (writer : Writer) : Except FrameError Unit × Writer :=
  match readFrameOrEof maxRequestPayload reader with
  | (.error e, _) => (.error e, writer)
  | (.ok none, _) => (.ok (), writer)
  | (.ok (some payload), reader) =>
    let (provider, response) := match parseRequest payload with
      | .ok request =>
        match factory with
        | .ok provider => (some provider, processRequest provider request)
        | .error code => (none, encodeError code request.generation)
      | .error e => (none, encodeError e.code e.generation)
    match writer.writeFrame response maxResponsePayload with
    | (.error e, writer) => (.error e, writer)
    | (.ok (), writer) =>
      match provider with
      | some provider => serveSessionWithProvider provider reader writer
      | none => (.ok (), writer)

/-- The first request is malformed, its response is written, and the stream does
    not end there. -/
def MalformedFirst (reader : Reader) (writer : Writer) : Prop :=
  ∃ payload reader' e, readFrameOrEof maxRequestPayload reader = (.ok (some payload), reader') ∧
    parseRequest payload = .error e ∧
    (writer.writeFrame (encodeError e.code e.generation) maxResponsePayload).1 = .ok () ∧
    (readFrameOrEof maxRequestPayload reader').1 ≠ .ok none

variable {provider : Provider} {reader reader' : Reader} {writer writer' : Writer}

/-- A session does not take back what was written. -/
theorem written_prefix_serveSession (provider : Provider) (reader : Reader) (writer : Writer) :
    writer.written <+: (serveSessionWithProvider provider reader writer).2.written := by
  fun_induction serveSessionWithProvider provider reader writer with
  | case1 => exact List.prefix_rfl
  | case2 => exact List.prefix_rfl
  | case3 reader writer payload reader' hread response e writer' hwrite =>
    have hprefix := written_prefix_writeFrame writer response maxResponsePayload
    rwa [hwrite] at hprefix
  | case4 reader writer payload reader' hread response writer' hwrite ih =>
    have hprefix := written_prefix_writeFrame writer response maxResponsePayload
    rw [hwrite] at hprefix
    exact hprefix.trans ih

/-- A session that ends well without writing was at the end of its stream. -/
theorem end_of_serveSession {result : Except FrameError Unit}
    (h : serveSessionWithProvider provider reader writer = (result, writer))
    (hok : result = .ok ()) : (readFrameOrEof maxRequestPayload reader).1 = .ok none := by
  rw [serveSessionWithProvider] at h
  split at h
  · cases h
    cases hok
  · next hread => rw [hread]
  next payload reader' hread =>
  simp only at h
  split at h
  · cases h
    cases hok
  next writer' hwrite =>
  -- A response was written, and would still be there.
  have hprefix := (written_prefix_serveSession provider reader' writer').length_le
  rw [h, written_writeFrame hwrite, List.length_append] at hprefix
  simp only [framed, List.length_append, length_be32] at hprefix
  omega

/-- After a malformed first request, both have written its response. Then one ends
    and the other goes on. -/
theorem serve_malformed (provider : Provider) {payload : List UInt8} {e : RequestError}
    (hread : readFrameOrEof maxRequestPayload reader = (.ok (some payload), reader'))
    (hparse : parseRequest payload = .error e)
    (hwrite : writer.writeFrame (encodeError e.code e.generation) maxResponsePayload =
      (.ok (), writer')) :
    serveSessionWithProviderFactory (.ok provider) reader writer = (.ok (), writer') ∧
      serveSessionWithProvider provider reader writer =
        serveSessionWithProvider provider reader' writer' := by
  constructor
  · simp only [serveSessionWithProviderFactory, hread, hparse, hwrite]
  · rw [serveSessionWithProvider, hread]
    simp only [hparse, hwrite]

/-- With a provider that is made for the first request the worker writes the same
    and ends in the same way as with one from the start, unless the first request
    is malformed, its response is written, and the stream does not end there. -/
theorem factory_eq_provider_iff (provider : Provider) (reader : Reader) (writer : Writer) :
    serveSessionWithProviderFactory (.ok provider) reader writer =
        serveSessionWithProvider provider reader writer ↔
      ¬ MalformedFirst reader writer := by
  constructor
  · rintro h ⟨payload, reader', e, hread, hparse, hok, hmore⟩
    rcases hwrite : writer.writeFrame (encodeError e.code e.generation) maxResponsePayload with
      ⟨result, writer'⟩
    rw [hwrite] at hok
    cases hok
    obtain ⟨hlazy, heager⟩ := serve_malformed provider hread hparse hwrite
    exact hmore (end_of_serveSession (heager.symm.trans (h.symm.trans hlazy)) rfl)
  · intro h
    rcases hread : readFrameOrEof maxRequestPayload reader with ⟨_ | _ | payload, reader'⟩
    · rw [serveSessionWithProvider, serveSessionWithProviderFactory, hread]
    · rw [serveSessionWithProvider, serveSessionWithProviderFactory, hread]
    rcases hparse : parseRequest payload with e | request
    · rcases hwrite : writer.writeFrame (encodeError e.code e.generation) maxResponsePayload with
        ⟨_ | _, writer'⟩
      · rw [serveSessionWithProvider, serveSessionWithProviderFactory, hread]
        simp only [hparse, hwrite]
      · -- The response was written, so that the stream ends here.
        have hend : (readFrameOrEof maxRequestPayload reader').1 = .ok none := by
          by_contra hmore
          exact h ⟨payload, reader', e, hread, hparse, by rw [hwrite], hmore⟩
        obtain ⟨hlazy, heager⟩ := serve_malformed provider hread hparse hwrite
        rw [hlazy, heager, serveSessionWithProvider]
        rcases hnext : readFrameOrEof maxRequestPayload reader' with ⟨result, reader₂⟩
        rw [hnext] at hend
        cases hend
        rfl
    · rw [serveSessionWithProvider, serveSessionWithProviderFactory, hread]
      simp only [hparse]

/-- A provider that finds no face. -/
def noFaces : Provider where
  withTimeout _ := .ok ()
  analyze _ _ := .ok ⟨[], ⟨128, 64, 64, 0⟩⟩

/-- A request for an image of one pixel. -/
def onePixel : List UInt8 :=
  be16 protocolVersion ++ [opAnalyze, 3] ++ be64 5 ++ be32 1000 ++ be16 1 ++ be16 1 ++ be32 1 ++ [9]

/-- Two payloads, of which the first is too short for a request. -/
def malformedThenValid : Reader := ⟨framed [7] ++ framed onePixel, []⟩

/-- After a malformed first request a valid one is no longer answered. -/
theorem factory_ne_provider :
    ¬ ∀ (provider : Provider) (reader : Reader) (writer : Writer),
      serveSessionWithProviderFactory (.ok provider) reader writer =
        serveSessionWithProvider provider reader writer := by
  intro h
  have hworks : malformedThenValid.Works := List.not_mem_nil
  obtain ⟨answers, hanswers, hread⟩ : ∃ answers, ReadAnswer.fails ∉ answers ∧
      readFrameOrEof maxRequestPayload malformedThenValid =
        (.ok (some [7]), ⟨framed onePixel, answers⟩) :=
    readFrameOrEof_framed hworks (by decide) (by decide) (by decide) rfl
  have hwrite : Writer.working.writeFrame (encodeError .invalidRequest 0) maxResponsePayload =
      (.ok (), ⟨framed (encodeError .invalidRequest 0), []⟩) :=
    writeFrame_ok [] (by decide) (by decide) (by decide)
  obtain ⟨hlazy, heager⟩ := serve_malformed noFaces hread (e := ⟨.invalidRequest, 0⟩) rfl hwrite
  have hend := end_of_serveSession (heager.symm.trans ((h noFaces _ _).symm.trans hlazy)) rfl
  have hworks' : Reader.Works ⟨framed onePixel, answers⟩ := hanswers
  obtain ⟨answers', -, hnext⟩ : ∃ answers', ReadAnswer.fails ∉ answers' ∧
      readFrameOrEof maxRequestPayload ⟨framed onePixel, answers⟩ =
        (.ok (some onePixel), ⟨[], answers'⟩) :=
    readFrameOrEof_framed hworks' (by decide) (by decide) (by decide) (List.append_nil _).symm
  rw [hnext] at hend
  cases hend

end Vision

end KFaceAuth
