import Mathlib.Data.List.Forall2
import KFaceAuth.Worker.Identity
import KFaceAuth.Worker.Stream

/-!
# Sessions of the identity worker

The worker serves one request (`serveOnce`) or, in a session, one after the other
(`serveSession`). What it calls to carry out a request acts on a state from
outside, such as the files of the vault (`Services`). A session keeps the models
that it loaded for one request for the later ones (`getProvider`).

* `uncached_processRequestWithCache`: the response to a request and the state that
  it leaves do not depend on what is kept;
* `serveSession_eq`: a session answers each request as `serveOnce` does on the
  state that the earlier ones left.
-/

namespace KFaceAuth

namespace Identity

/-! ## Carrying out requests -/

/-- What the worker calls, on a state `σ`, with providers `P`, vaults `V` and
    controls `C`. Loading the models gives the same each time. -/
structure Services (σ P V C : Type) where
  /-- `ProcessingControl::with_timeout`. -/
  withTimeout : ℕ → StateM σ (Option C)
  /-- `IdentityProvider::from_model_root`. -/
  fromModelRoot : Option P
  /-- `IdentityProvider::extract`. -/
  extract : P → ImageView → C → StateM σ (Except IdentityError Embedding)
  /-- The cosine similarity of a sample to a prior one reaches the threshold. -/
  duplicate : List (List UInt8) → Embedding → Bool
  /-- `Vault::production`. -/
  production : StateM σ (Except VaultError V)
  /-- `Vault::status`. -/
  status : V → Option MasterKey → StateM σ VaultStatus
  /-- `Vault::commit_profile`. -/
  commitProfile : V → MasterKey → Profile → StateM σ (Except VaultError Unit)
  /-- `Vault::open_profile`. -/
  openProfile : V → MasterKey → StateM σ (Except VaultError Profile)
  /-- `Profile::verify`. -/
  verify : Profile → Embedding → VerificationResult
  /-- `Vault::delete_profile`. -/
  deleteProfile : V → MasterKey → StateM σ (Except VaultError Unit)
  /-- `Vault::rotate_key`. -/
  rotateKey : V → MasterKey → MasterKey → StateM σ (Except VaultError Unit)
  /-- `Vault::validate_integrity`. -/
  validateIntegrity : V → MasterKey → StateM σ (Except VaultError ProfileSummary)
  /-- `Vault::reset_unreadable`. -/
  resetUnreadable : V → StateM σ (Except VaultError Unit)
  /-- `MasterKey::generate`. -/
  generate : StateM σ (Except VaultError MasterKey)

/-- The worker within a session: it may keep a provider. -/
abbrev Worker (σ P : Type) := StateT (Option P) (StateM σ)

namespace Services

variable {σ P V C : Type} (services : Services σ P V C)

/-- `get_provider`. -/
def getProvider : Worker σ P (Option P) := do
  match ← get with
  | some provider => return some provider
  | none =>
    match services.fromModelRoot with
    | none => return none
    | some provider =>
      set (some provider)
      return some provider

/-- A vault, and an operation on it that is acknowledged. -/
def acknowledged (generation : UInt64) (operation : V → StateM σ (Except VaultError Unit)) :
    Worker σ P (List UInt8) := do
  match ← liftM services.production with
  | .error e => return encodeError (mapVaultError e) generation
  | .ok vault =>
    match ← liftM (operation vault) with
    | .ok () => return encodeAck generation
    | .error e => return encodeError (mapVaultError e) generation

/-- `process_request_with_cache`. -/
def processRequestWithCache (request : ParsedRequest) : Worker σ P (List UInt8) := do
  let generation := request.generation
  match ← liftM (services.withTimeout request.timeoutMs) with
  | none => return encodeError .deadlineExceeded generation
  | some control =>
    match request.request with
    | .status key =>
      match ← services.getProvider with
      | none => return encodeError .modelUnavailable generation
      | some _ =>
        match ← liftM services.production with
        | .error e => return encodeError (mapVaultError e) generation
        | .ok vault => return encodeStatus generation (← liftM (services.status vault key))
    | .extract prior image =>
      match ← services.getProvider with
      | none => return encodeError .modelUnavailable generation
      | some provider =>
        match ← liftM (services.extract provider image control) with
        | .ok sample =>
          if services.duplicate prior sample then return encodeError .duplicateSample generation
          else return encodeSample generation sample
        | .error e => return encodeError (mapIdentityError e) generation
    | .commit key samples =>
      match Profile.new samples with
      | .error e => return encodeError (mapVaultError e) generation
      | .ok profile =>
        services.acknowledged generation fun vault => services.commitProfile vault key profile
    | .summary key =>
      match ← liftM services.production with
      | .error e => return encodeError (mapVaultError e) generation
      | .ok vault => return encodeStatus generation (← liftM (services.status vault (some key)))
    | .verify key image =>
      match ← liftM services.production with
      | .error e => return encodeError (mapVaultError e) generation
      | .ok vault =>
        match ← liftM (services.openProfile vault key) with
        | .error e => return encodeError (mapVaultError e) generation
        | .ok profile =>
          match ← services.getProvider with
          | none => return encodeError .modelUnavailable generation
          | some provider =>
            match ← liftM (services.extract provider image control) with
            | .ok candidate =>
              return encodeVerification generation (services.verify profile candidate)
            | .error e => return encodeError (mapIdentityError e) generation
    | .delete key => services.acknowledged generation fun vault => services.deleteProfile vault key
    | .rotate oldKey newKey =>
      services.acknowledged generation fun vault => services.rotateKey vault oldKey newKey
    | .validate key =>
      match ← liftM services.production with
      | .error e => return encodeError (mapVaultError e) generation
      | .ok vault =>
        match ← liftM (services.validateIntegrity vault key) with
        | .ok summary => return encodeStatus generation (.ready summary)
        | .error e => return encodeError (mapVaultError e) generation
    | .resetUnreadable => services.acknowledged generation services.resetUnreadable
    | .generateKey =>
      match ← liftM services.generate with
      | .ok key => return encodeKey generation key
      | .error e => return encodeError (mapVaultError e) generation

/-- `process_request`. -/
def processRequest (request : ParsedRequest) : StateM σ (List UInt8) :=
  (services.processRequestWithCache request).run' none

/-! ## Serving -/

variable (isNormalized : List UInt8 → Bool)

/-- The response of `serve_once` to a payload: to a request, or an error. -/
def respondAlone (payload : List UInt8) : StateM σ (List UInt8) :=
  match parseRequest isNormalized payload with
  | .ok request => services.processRequest request
  | .error e => pure (encodeError e.code e.generation)

/-- The response of `serve_session` to a payload. -/
def respond (payload : List UInt8) : Worker σ P (List UInt8) :=
  match parseRequest isNormalized payload with
  | .ok request => services.processRequestWithCache request
  | .error e => pure (encodeError e.code e.generation)

/-- `serve_once`. -/
def serveOnce (reader : Reader) (writer : Writer) :
    StateM σ (Except FrameError Unit × Writer) := do
  match readOneFrame maxRequestBytes reader with
  | (.error e, _) => return (.error e, writer)
  | (.ok payload, reader) =>
    match (requireEnd reader).1 with
    | .error e => return (.error e, writer)
    | .ok () =>
      let response ← services.respondAlone isNormalized payload
      return writer.writeFrame response maxResponseBytes

/-- The loop of `serve_session`. -/
def serveLoop (reader : Reader) (writer : Writer) (cache : Option P) (s : σ) :
    (Except FrameError Unit × Writer) × σ :=
  match _h : readFrameOrEof maxRequestBytes reader with
  | (.error e, _) => ((.error e, writer), s)
  | (.ok none, _) => ((.ok (), writer), s)
  | (.ok (some payload), reader') =>
    let ((response, cache), s) := services.respond isNormalized payload cache s
    match writer.writeFrame response maxResponseBytes with
    | (.error e, writer) => ((.error e, writer), s)
    | (.ok (), writer) => serveLoop reader' writer cache s
  termination_by reader.size
  decreasing_by exact size_readFrameOrEof_lt _h

/-- `serve_session`. -/
def serveSession (reader : Reader) (writer : Writer) :
    StateM σ (Except FrameError Unit × Writer) :=
  services.serveLoop isNormalized reader writer none

/-- `serve_once` for each request alone, on the state left by the earlier ones:
    what it writes for each. A request has the answers of its reader with it. -/
def serveEach :
    List (List UInt8 × List ReadAnswer) → StateM σ (Except FrameError (List (List UInt8)))
  | [] => return .ok []
  | (payload, answers) :: requests => do
    match ← services.serveOnce isNormalized ⟨framed payload, answers⟩ .working with
    | (.error e, _) => return .error e
    | (.ok (), writer) =>
      match ← serveEach requests with
      | .error e => return .error e
      | .ok written => return .ok (writer.written :: written)

/-! ## What is kept does not matter -/

/-- What may be kept: nothing, or what loading gives. -/
def Kept (cache : Option P) : Prop := cache = none ∨ cache = services.fromModelRoot

/-- A part of the worker whose result and effect do not depend on what is kept,
    with what holds of the result. -/
def Uncached {α : Type} (p : α → Prop) (part : Worker σ P α) : Prop :=
  ∀ cache cache₀ s, services.Kept cache → services.Kept cache₀ →
    ∃ a cache' cache₀' s', part cache s = ((a, cache'), s') ∧ part cache₀ s = ((a, cache₀'), s') ∧
      services.Kept cache' ∧ services.Kept cache₀' ∧ p a

variable {services}

theorem uncached_pure {α : Type} {p : α → Prop} {a : α} (h : p a) :
    services.Uncached p (pure a : Worker σ P α) :=
  fun cache cache₀ s hcache hcache₀ => ⟨a, cache, cache₀, s, rfl, rfl, hcache, hcache₀, h⟩

theorem uncached_liftM {α : Type} (operation : StateM σ α) :
    services.Uncached (fun _ => True) (liftM operation : Worker σ P α) :=
  fun cache cache₀ s h h₀ =>
    ⟨(operation s).1, cache, cache₀, (operation s).2, rfl, rfl, h, h₀, trivial⟩

theorem uncached_bind {α β : Type} {p : β → Prop} {part : Worker σ P α} {next : α → Worker σ P β}
    (hpart : services.Uncached (fun _ => True) part)
    (hnext : ∀ a, services.Uncached p (next a)) : services.Uncached p (part >>= next) := by
  intro cache cache₀ s h h₀
  obtain ⟨a, cache₁, cache₂, s₁, hrun, hrun₀, h₁, h₂, -⟩ := hpart cache cache₀ s h h₀
  obtain ⟨b, cache₃, cache₄, s₂, hrun', hrun₀', h₃, h₄, hp⟩ := hnext a cache₁ cache₂ s₁ h₁ h₂
  refine ⟨b, cache₃, cache₄, s₂, ?_, ?_, h₃, h₄, hp⟩
  · rw [← hrun']
    exact congrArg (fun r => next r.1.1 r.1.2 r.2) hrun
  · rw [← hrun₀']
    exact congrArg (fun r => next r.1.1 r.1.2 r.2) hrun₀

theorem Uncached.mono {α : Type} {p q : α → Prop} {part : Worker σ P α}
    (h : services.Uncached p part) (hpq : ∀ a, p a → q a) : services.Uncached q part := by
  intro cache cache₀ s hcache hcache₀
  obtain ⟨a, cache', cache₀', s', hrun, hrun₀, h', h₀', hp⟩ := h cache cache₀ s hcache hcache₀
  exact ⟨a, cache', cache₀', s', hrun, hrun₀, h', h₀', hpq a hp⟩

/-- From what may be kept, `get_provider` gives what loading gives, and keeps it. -/
theorem getProvider_eq {cache : Option P} (h : services.Kept cache) (s : σ) :
    services.getProvider cache s = ((services.fromModelRoot, services.fromModelRoot), s) := by
  rcases hload : services.fromModelRoot with _ | provider
  · have hnone : cache = none := by
      rcases h with h | h
      · exact h
      · rw [h, hload]
    subst hnone
    simp only [getProvider, bind, StateT.bind, get, getThe, MonadStateOf.get, StateT.get, hload]
    rfl
  · rcases h with rfl | rfl
    · simp only [getProvider, bind, StateT.bind, get, getThe, MonadStateOf.get, StateT.get, hload]
      rfl
    · simp only [getProvider, bind, StateT.bind, get, getThe, MonadStateOf.get, StateT.get, hload]
      rfl

theorem uncached_getProvider : services.Uncached (fun _ => True) services.getProvider :=
  fun _ _ s h h₀ => ⟨services.fromModelRoot, services.fromModelRoot, services.fromModelRoot, s,
    getProvider_eq h s, getProvider_eq h₀ s, .inr rfl, .inr rfl, trivial⟩

/-- Replies of which each case below changes some. -/
def replies : Replies where
  control := true
  provider := true
  production := .ok ()
  status := .absent
  extract := .error .runtime
  duplicate := false
  vault := .ok ()
  opened := .ok ()
  verification := .noMatch
  validated := .error .corrupt
  generated := .error .corrupt

theorem uncached_acknowledged (generation : UInt64)
    (operation : V → StateM σ (Except VaultError Unit)) :
    services.Uncached (fun response => ∃ r, r.control = true ∧ response = acknowledge generation r)
      (services.acknowledged generation operation) := by
  refine uncached_bind (uncached_liftM _) fun production => ?_
  rcases production with e | vault
  · exact uncached_pure ⟨{ replies with production := .error e }, rfl, rfl⟩
  · refine uncached_bind (uncached_liftM _) fun result => ?_
    rcases result with e | _
    · exact uncached_pure ⟨{ replies with vault := .error e }, rfl, rfl⟩
    · exact uncached_pure ⟨replies, rfl, rfl⟩

/-- The response to a request and its effect do not depend on what is kept, and
    the response is one to what the worker found. -/
theorem uncached_processRequestWithCache (request : ParsedRequest) :
    services.Uncached (fun response => ∃ r, response = Identity.processRequest request r)
      (services.processRequestWithCache request) := by
  obtain ⟨generation, timeoutMs, request⟩ := request
  refine uncached_bind (uncached_liftM _) fun control => ?_
  rcases control with _ | control
  · exact uncached_pure ⟨{ replies with control := false }, rfl⟩
  have hacknowledge : ∀ response, (∀ r, r.control = true → acknowledge generation r =
      Identity.processRequest ⟨generation, timeoutMs, request⟩ r) →
      (∃ r, r.control = true ∧ response = acknowledge generation r) →
      ∃ r, response = Identity.processRequest ⟨generation, timeoutMs, request⟩ r := by
    rintro response heq ⟨r, hcontrol, rfl⟩
    exact ⟨r, heq r hcontrol⟩
  rcases request with key | ⟨prior, image⟩ | ⟨key, samples⟩ | key | ⟨key, image⟩ | key |
    ⟨oldKey, newKey⟩ | key | _ | _
  · -- status
    refine uncached_bind uncached_getProvider fun provider => ?_
    rcases provider with _ | provider
    · exact uncached_pure ⟨{ replies with provider := false }, rfl⟩
    refine uncached_bind (uncached_liftM _) fun production => ?_
    rcases production with e | vault
    · exact uncached_pure ⟨{ replies with production := .error e }, rfl⟩
    · exact uncached_bind (uncached_liftM _) fun status =>
        uncached_pure ⟨{ replies with status := status }, rfl⟩
  · -- extract
    refine uncached_bind uncached_getProvider fun provider => ?_
    rcases provider with _ | provider
    · exact uncached_pure ⟨{ replies with provider := false }, rfl⟩
    refine uncached_bind (uncached_liftM _) fun sample => ?_
    rcases sample with e | sample
    · exact uncached_pure ⟨{ replies with extract := .error e }, rfl⟩
    · dsimp only
      split
      · exact uncached_pure ⟨{ replies with extract := .ok sample, duplicate := true }, rfl⟩
      · exact uncached_pure ⟨{ replies with extract := .ok sample }, rfl⟩
  · -- commit
    dsimp only
    split
    · next e hprofile =>
      refine uncached_pure ⟨replies, ?_⟩
      simp only [Identity.processRequest, hprofile]
      rfl
    · next profile hprofile =>
      refine (uncached_acknowledged _ _).mono fun response => hacknowledge response fun r hr => ?_
      simp only [Identity.processRequest, hprofile, hr]
      rfl
  · -- summary
    refine uncached_bind (uncached_liftM _) fun production => ?_
    rcases production with e | vault
    · exact uncached_pure ⟨{ replies with production := .error e }, rfl⟩
    · exact uncached_bind (uncached_liftM _) fun status =>
        uncached_pure ⟨{ replies with status := status }, rfl⟩
  · -- verify
    refine uncached_bind (uncached_liftM _) fun production => ?_
    rcases production with e | vault
    · exact uncached_pure ⟨{ replies with production := .error e }, rfl⟩
    refine uncached_bind (uncached_liftM _) fun profile => ?_
    rcases profile with e | profile
    · exact uncached_pure ⟨{ replies with opened := .error e }, rfl⟩
    refine uncached_bind uncached_getProvider fun provider => ?_
    rcases provider with _ | provider
    · exact uncached_pure ⟨{ replies with provider := false }, rfl⟩
    refine uncached_bind (uncached_liftM _) fun candidate => ?_
    rcases candidate with e | candidate
    · exact uncached_pure ⟨{ replies with extract := .error e }, rfl⟩
    · exact uncached_pure ⟨{ replies with
        extract := .ok candidate, verification := services.verify profile candidate }, rfl⟩
  · -- delete
    refine (uncached_acknowledged _ _).mono fun response => hacknowledge response fun r hr => ?_
    simp only [Identity.processRequest, hr]
    rfl
  · -- rotate
    refine (uncached_acknowledged _ _).mono fun response => hacknowledge response fun r hr => ?_
    simp only [Identity.processRequest, hr]
    rfl
  · -- validate
    refine uncached_bind (uncached_liftM _) fun production => ?_
    rcases production with e | vault
    · exact uncached_pure ⟨{ replies with production := .error e }, rfl⟩
    refine uncached_bind (uncached_liftM _) fun summary => ?_
    rcases summary with e | summary
    · exact uncached_pure ⟨{ replies with validated := .error e }, rfl⟩
    · exact uncached_pure ⟨{ replies with validated := .ok summary }, rfl⟩
  · -- reset
    refine (uncached_acknowledged _ _).mono fun response => hacknowledge response fun r hr => ?_
    simp only [Identity.processRequest, hr]
    rfl
  · -- a new key
    refine uncached_bind (uncached_liftM _) fun key => ?_
    rcases key with e | key
    · exact uncached_pure ⟨{ replies with generated := .error e }, rfl⟩
    · exact uncached_pure ⟨{ replies with generated := .ok key }, rfl⟩

/-! ## A session is its requests one by one -/

/-- A response can be sent. -/
def Sendable (response : List UInt8) : Prop :=
  response ≠ [] ∧ response.length ≤ maxResponseBytes ∧ response.length < 2 ^ 32

theorem sendable_header {kind code : UInt8} {generation : UInt64} {body : List UInt8}
    (h : body.length ≤ embeddingBytes) :
    Sendable (responseHeader kind code generation ++ body) := by
  have hlen : (responseHeader kind code generation ++ body).length = 12 + body.length := by
    simp only [responseHeader, List.length_append, length_be16, length_be64, List.length_singleton]
  have hmax : 12 + embeddingBytes ≤ maxResponseBytes := by decide
  have hsmall : maxResponseBytes < 2 ^ 32 := by decide
  exact ⟨List.length_pos_iff.mp (by omega), by omega, by omega⟩

theorem sendable_processRequest (request : ParsedRequest) (r : Replies) :
    Sendable (Identity.processRequest request r) := by
  rw [processRequest_eq, Answer.encode_eq]
  exact sendable_header (Answer.length_body_le _)

/-- The response to a payload does not depend on what is kept, and can be sent. -/
theorem uncached_respond (payload : List UInt8) :
    services.Uncached Sendable (services.respond isNormalized payload) := by
  rw [respond]
  split
  · refine (uncached_processRequestWithCache _).mono fun response => ?_
    rintro ⟨r, rfl⟩
    exact sendable_processRequest _ r
  · refine uncached_pure ?_
    rw [encodeError, ← List.append_nil (responseHeader _ _ _)]
    exact sendable_header (Nat.zero_le _)

theorem respondAlone_eq (payload : List UInt8) :
    services.respondAlone isNormalized payload =
      (services.respond isNormalized payload).run' none := by
  rw [respondAlone, respond]
  split
  · rfl
  · rfl

variable (services) in
/-- A request alone is answered as `respond` does with nothing kept. -/
theorem serveOnce_framed {payload : List UInt8} {answers : List ReadAnswer} (s : σ)
    (hne : payload ≠ []) (hmax : payload.length ≤ maxRequestBytes)
    (hanswers : ReadAnswer.fails ∉ answers) :
    ∃ response cache s', services.respond isNormalized payload none s = ((response, cache), s') ∧
      Sendable response ∧
      services.serveOnce isNormalized ⟨framed payload, answers⟩ .working s =
        ((.ok (), ⟨framed response, []⟩), s') := by
  have hlen : payload.length < 2 ^ 32 := Nat.lt_of_le_of_lt hmax (by decide)
  have hworks : Reader.Works ⟨framed payload, answers⟩ := hanswers
  obtain ⟨reader, hread, hend⟩ := readOneFrame_framed hworks hne hmax hlen rfl
  obtain ⟨response, cache, -, s', hrespond, -, -, -, hsend⟩ :=
    uncached_respond isNormalized payload none none s (.inl rfl) (.inl rfl)
  refine ⟨response, cache, s', hrespond, hsend, ?_⟩
  have halone : services.respondAlone isNormalized payload s = (response, s') := by
    rw [respondAlone_eq]
    exact congrArg (fun r => (r.1.1, r.2)) hrespond
  obtain ⟨hne', hmax', hlen'⟩ := hsend
  have hwrite := writeFrame_ok [] hne' hmax' hlen'
  simp only [serveOnce, hread, hend, bind, StateT.bind, halone, Writer.working]
  rw [hwrite]
  rfl

/-- The loop answers each request as `serve_once` does, whatever it keeps. -/
theorem serveLoop_eq {requests : List (List UInt8 × List ReadAnswer)} {reader : Reader}
    {cache : Option P} (written : List UInt8) (s : σ)
    (hfit : ∀ request ∈ requests, request.1 ≠ [] ∧ request.1.length ≤ maxRequestBytes)
    (hanswers : ∀ request ∈ requests, ReadAnswer.fails ∉ request.2) (hworks : reader.Works)
    (hbytes : reader.bytes = requests.flatMap fun request => framed request.1)
    (hcache : services.Kept cache) :
    ∃ responses s', services.serveEach isNormalized requests s = (.ok responses, s') ∧
      services.serveLoop isNormalized reader ⟨written, []⟩ cache s =
        ((.ok (), ⟨written ++ responses.flatten, []⟩), s') := by
  -- By induction on the requests, whatever was written, kept and left before.
  induction requests generalizing reader written cache s with
  | nil =>
    obtain ⟨answers, -, hread⟩ := readFrameOrEof_end maxRequestBytes hworks hbytes
    refine ⟨[], s, rfl, ?_⟩
    rw [serveLoop, hread, List.flatten_nil, List.append_nil]
  | cons request requests ih =>
    obtain ⟨payload, answers⟩ := request
    obtain ⟨hne, hmax⟩ := hfit _ List.mem_cons_self
    have hlen : payload.length < 2 ^ 32 := Nat.lt_of_le_of_lt hmax (by decide)
    rw [List.flatMap_cons] at hbytes
    obtain ⟨answers', hanswers', hread⟩ := readFrameOrEof_framed hworks hne hmax hlen hbytes
    obtain ⟨response, cache₀, s₁, hrespond₀, hsend, honce⟩ :=
      services.serveOnce_framed isNormalized s hne hmax (hanswers _ List.mem_cons_self)
    obtain ⟨response', cache', _, s₁', hrespond, hrespond₀', hcache', -, -⟩ :=
      uncached_respond isNormalized payload cache none s hcache (.inl rfl)
    have hsame := hrespond₀.symm.trans hrespond₀'
    obtain ⟨rfl, rfl⟩ : response = response' ∧ s₁ = s₁' :=
      ⟨congrArg (fun r => r.1.1) hsame, congrArg Prod.snd hsame⟩
    have hworks' : Reader.Works ⟨requests.flatMap fun request => framed request.1, answers'⟩ :=
      hanswers'
    obtain ⟨responses, s₂, heach, hloop⟩ := ih (written ++ framed response) s₁
      (fun p hp => hfit p (List.mem_cons_of_mem _ hp))
      (fun p hp => hanswers p (List.mem_cons_of_mem _ hp)) hworks' rfl hcache'
    refine ⟨framed response :: responses, s₂, ?_, ?_⟩
    · simp only [serveEach, bind, StateT.bind, honce, heach]
      rfl
    · rw [serveLoop, hread]
      simp only [hrespond, writeFrame_ok written hsend.1 hsend.2.1 hsend.2.2, hloop]
      rw [List.flatten_cons, List.append_assoc]

variable (services) in
/-- Frames are read back as they were written, and a session writes what
    `serve_once` does for each request alone, on the state left by the earlier
    ones, however the reads split the stream. -/
theorem session_eq_requests :
    (∀ (maximum : ℕ) (payloads : List (List UInt8)),
      (∀ payload ∈ payloads, payload ≠ [] ∧ payload.length ≤ min maximum (2 ^ 32 - 1)) →
      ∃ frames, List.Forall₂ (fun payload frame =>
          Writer.working.writeFrame payload maximum = (.ok (), ⟨frame, []⟩)) payloads frames ∧
        ∀ reader : Reader, reader.Works → reader.bytes = frames.flatten →
          reads maximum (payloads.length + 1) reader =
            payloads.map (fun payload => .ok (some payload)) ++ [Except.ok none]) ∧
    ∀ (requests : List (List UInt8 × List ReadAnswer)) (reader : Reader) (s : σ),
      (∀ request ∈ requests, request.1 ≠ [] ∧ request.1.length ≤ maxRequestBytes) →
      (∀ request ∈ requests, ReadAnswer.fails ∉ request.2) → reader.Works →
      reader.bytes = requests.flatMap (fun request => framed request.1) →
      ∃ responses s', services.serveEach isNormalized requests s = (.ok responses, s') ∧
        services.serveSession isNormalized reader .working s =
          ((.ok (), ⟨responses.flatten, []⟩), s') := by
  constructor
  · intro maximum payloads hfit
    have hfit' : ∀ payload ∈ payloads,
        payload ≠ [] ∧ payload.length ≤ maximum ∧ payload.length < 2 ^ 32 := by
      intro payload hpayload
      obtain ⟨hne, hlen⟩ := hfit payload hpayload
      exact ⟨hne, by omega, by omega⟩
    refine ⟨payloads.map framed, ?_, fun reader hworks hbytes => ?_⟩
    · rw [List.forall₂_map_right_iff, List.forall₂_same]
      intro payload hpayload
      obtain ⟨hne, hmax, hlen⟩ := hfit' payload hpayload
      exact writeFrame_ok [] hne hmax hlen
    · exact reads_framed hfit' hworks (hbytes.trans (List.flatMap_def ..).symm)
  · intro requests reader s hfit hanswers hworks hbytes
    exact serveLoop_eq isNormalized [] s hfit hanswers hworks hbytes (.inl rfl)

end Services

/-- Services on a state that counts the profiles that were committed. -/
def counting : Services ℕ Unit Unit Unit where
  withTimeout _ := return some ()
  fromModelRoot := some ()
  extract _ _ _ := return .error .noFace
  duplicate _ _ := false
  production := return .ok ()
  status _ _ := return .ready ⟨true, (← get).toUInt8⟩
  commitProfile _ _ _ := do
    modify (· + 1)
    return .ok ()
  openProfile _ _ := return .error .notFound
  verify _ _ := .noMatch
  deleteProfile _ _ := return .error .notFound
  rotateKey _ _ _ := return .error .notFound
  validateIntegrity _ _ := return .error .notFound
  resetUnreadable _ := return .error .unavailable
  generate := return .error .keyProvider

/-- Two frames over a reader that splits them, and a session with a request, a
    payload that is none and the request again. -/
theorem session_eq_requests_counting :
    reads 10 3 ⟨[0, 0, 0, 1, 7, 0, 0, 0, 2, 8, 9], [.short 1, .interrupted, .short 0]⟩ =
      [.ok (some [7]), .ok (some [8, 9]), .ok none] ∧
    ∃ responses s',
      counting.serveEach (fun _ => true) [(requestPayload .status 1 0 [], []),
        ([7], [.interrupted, .short 2]), (requestPayload .status 2 0 [], [.short 0])] 3 =
          (.ok responses, s') ∧
      counting.serveSession (fun _ => true) ⟨framed (requestPayload .status 1 0 []) ++
        (framed [7] ++ framed (requestPayload .status 2 0 [])), [.short 5, .interrupted]⟩
          .working 3 = ((.ok (), ⟨responses.flatten, []⟩), s') := by
  have h := Services.session_eq_requests counting fun _ => true
  constructor
  · obtain ⟨frames, hframes, hreads⟩ := h.1 10 [[7], [8, 9]] (by decide)
    obtain ⟨frame, rest, hfirst, hrest, rfl⟩ := List.forall₂_cons_left_iff.mp hframes
    obtain ⟨frame', last, hsecond, hlast, rfl⟩ := List.forall₂_cons_left_iff.mp hrest
    obtain rfl := List.forall₂_nil_left_iff.mp hlast
    obtain ⟨-, -, -, rfl⟩ := writeFrame_working hfirst
    obtain ⟨-, -, -, rfl⟩ := writeFrame_working hsecond
    exact hreads ⟨[0, 0, 0, 1, 7, 0, 0, 0, 2, 8, 9], [.short 1, .interrupted, .short 0]⟩
      (by unfold Reader.Works; decide) (by decide)
  · refine h.2 _ _ 3 ?_ (by decide) (by unfold Reader.Works; decide) ?_
    · decide
    · rfl

end Identity

end KFaceAuth
