import KFaceAuth.Lib.Bytes
import KFaceAuth.Preview.Protocol

/-!
# The records of the preview as bytes

A record goes over the pipe as its CBOR bytes behind their length (`encode`), and
`Parser` takes the frames off the bytes that it is given, in whatever chunks they
arrive. The CBOR of the library is a parameter (`Cbor`).

* `consume_append`: what a chunk leaves in the buffer stands for all the bytes
  before it;
* `deliver_encodings`: the records of a stream arrive as they were sent exactly if
  no chunk overfills the buffer;
* `readCommands_malformed`: at a malformed frame the worker has handled the
  commands of the chunks before, and answers an error.
-/

namespace KFaceAuth

namespace Preview

/-! ## Encoding -/

def maxRawBytes : ℕ := 1920 * 1080 * 3
def maxRecordBytes : ℕ := maxRawBytes + 4096

/-- `QCborValue`, at maps: `fromCbor` fails at bytes that are not those of a map. -/
structure Cbor (M : Type) where
  toCbor : M → List UInt8
  fromCbor : List UInt8 → Option M

/-- `fromCbor` undoes `toCbor`. -/
def Cbor.Undoes {M : Type} (cbor : Cbor M) : Prop := ∀ m, cbor.fromCbor (cbor.toCbor m) = some m

variable {M : Type} (cbor : Cbor M)

/-- `encode`; no bytes, for a record that is not accepted. -/
def encode (record : M) : List UInt8 :=
  let payload := cbor.toCbor record
  if payload = [] ∨ maxRecordBytes < payload.length then [] else framed payload

/-- The records that `encode` accepts. -/
def Accepted (record : M) : Prop := encode cbor record ≠ []

/-- The bytes of a sequence of records. -/
def encodings (records : List M) : List UInt8 := (records.map (encode cbor)).flatten

/-! ## The parser -/

structure Parser where
  buffer : List UInt8 := []
  deriving DecidableEq, Repr

/-- What `append` returns, and what it leaves. -/
structure Appended (M : Type) where
  ok : Bool
  parser : Parser
  records : List M
  deriving DecidableEq

/-- The records that were there before. -/
def Appended.after (r : Appended M) (records : List M) : Appended M :=
  { r with records := records ++ r.records }

/-- A `protocol-error`: the buffer is cleared. -/
def Appended.protocolError : Appended M := ⟨false, {}, []⟩

/-- The loop of `append`, over the frames in the buffer. -/
def consume (buffer : List UInt8) : Appended M :=
  if 4 ≤ buffer.length then
    let payloadSize := ofBe (buffer.take 4)
    if payloadSize = 0 ∨ maxRecordBytes < payloadSize then .protocolError
    else if buffer.length < 4 + payloadSize then ⟨true, ⟨buffer⟩, []⟩
    else
      match cbor.fromCbor ((buffer.drop 4).take payloadSize) with
      | none => .protocolError
      | some record => (consume (buffer.drop (4 + payloadSize))).after [record]
  else ⟨true, ⟨buffer⟩, []⟩
termination_by buffer.length
decreasing_by
  rw [List.length_drop]
  omega

/-- What the buffer may hold. -/
def maxBufferBytes : ℕ := maxRecordBytes * 2 + 4

/-- `Parser::append`. -/
def Parser.append (p : Parser) (bytes : List UInt8) : Appended M :=
  let buffer := p.buffer ++ bytes
  if maxBufferBytes < buffer.length then .protocolError else consume cbor buffer

/-- The records of a stream that arrives in chunks, if `append` succeeds on every
    chunk. -/
def Parser.deliver (p : Parser) : List (List UInt8) → Option (List M)
  | [] => some []
  | chunk :: chunks =>
    let r := p.append cbor chunk
    if r.ok then (r.parser.deliver chunks).map (r.records ++ ·) else none

/-! ## The commands of the worker -/

/-- What one `read` gives: some bytes, as many as the buffer of `readCommands` takes. -/
structure Chunk where
  bytes : List UInt8
  ne_nil : bytes ≠ []
  le : bytes.length ≤ 8192

/-- What `readCommands` does at a chunk, for each command in it or for an error. -/
inductive Handled (M : Type)
  | handleCommand (command : M)
  | sendError
  deriving DecidableEq

/-- `readCommands`, at the chunks that it reads one after the other. -/
def Parser.readCommands (p : Parser) : List Chunk → List (Handled M)
  | [] => []
  | chunk :: chunks =>
    let r := p.append cbor chunk.bytes
    (if r.ok then r.records.map .handleCommand else [.sendError]) ++
      r.parser.readCommands chunks

/-! ## Chunks -/

variable {cbor}

@[simp] theorem Appended.after_nil (r : Appended M) : r.after [] = r := rfl

@[simp] theorem Appended.after_ok (r : Appended M) (records : List M) :
    (r.after records).ok = r.ok := rfl

@[simp] theorem Appended.after_parser (r : Appended M) (records : List M) :
    (r.after records).parser = r.parser := rfl

@[simp] theorem Appended.after_records (r : Appended M) (records : List M) :
    (r.after records).records = records ++ r.records := rfl

theorem Appended.after_after (r : Appended M) (records records' : List M) :
    (r.after records').after records = r.after (records ++ records') := by
  simp only [after, List.append_assoc]

/-- The frame at the front is taken off. -/
theorem consume_frame {payload rest : List UInt8} (hpos : payload ≠ [])
    (hle : payload.length ≤ maxRecordBytes) :
    consume cbor (framed payload ++ rest) =
      match cbor.fromCbor payload with
      | none => .protocolError
      | some record => (consume cbor rest).after [record] := by
  have hsize : ofBe (be32 payload.length) = payload.length := by
    refine ofBe_be32 (Nat.lt_of_le_of_lt hle ?_)
    decide
  have htake : (framed payload ++ rest).take 4 = be32 payload.length := by
    rw [framed, List.append_assoc]
    exact List.take_left' (length_be32 _)
  have hpayload : ((framed payload ++ rest).drop 4).take payload.length = payload := by
    rw [framed, List.append_assoc]
    exact List.take_left
  have hrest : (framed payload ++ rest).drop (4 + payload.length) = rest := by
    refine List.drop_left' ?_
    rw [framed, List.length_append, length_be32]
  have hlen : (framed payload ++ rest).length = 4 + payload.length + rest.length := by
    simp [framed, Nat.add_assoc]
  have hne : payload.length ≠ 0 := fun h => hpos (List.eq_nil_of_length_eq_zero h)
  rw [consume, if_pos (by omega)]
  simp only [htake, hsize, hpayload, hrest]
  rw [if_neg (by omega), if_neg (by omega)]

/-- The bytes of a stream may arrive in two parts: what the first part leaves in
    the buffer stands for all of it. -/
theorem consume_append (a b : List UInt8) :
    consume cbor (a ++ b) =
      if (consume cbor a).ok then
        (consume cbor ((consume cbor a).parser.buffer ++ b)).after (consume cbor a).records
      else consume cbor a := by
  fun_induction consume cbor a with
  -- By the frames of `a`: one that is bad is so whatever follows, and the last one, which
  -- is not complete, is what `b` is appended to.
  | case1 a h payloadSize hbad =>
    rw [if_neg (by simp [Appended.protocolError]), consume,
      if_pos (by rw [List.length_append]; omega), List.take_append_of_le_length h]
    exact if_pos hbad
  | case2 a h payloadSize hgood hshort => rfl
  | case3 a h payloadSize hgood hlong hnone =>
    rw [if_neg (by simp [Appended.protocolError]), consume,
      if_pos (by rw [List.length_append]; omega), List.take_append_of_le_length h]
    have hdrop : ((a ++ b).drop 4).take payloadSize = (a.drop 4).take payloadSize := by
      rw [List.drop_append_of_le_length h, List.take_append_of_le_length]
      rw [List.length_drop]
      omega
    rw [if_neg hgood, if_neg (by rw [List.length_append]; omega), hdrop, hnone]
  | case4 a h payloadSize hgood hlong record hsome ih =>
    have hdrop : ((a ++ b).drop 4).take payloadSize = (a.drop 4).take payloadSize := by
      rw [List.drop_append_of_le_length h, List.take_append_of_le_length]
      rw [List.length_drop]
      omega
    rw [consume, if_pos (by rw [List.length_append]; omega), List.take_append_of_le_length h,
      if_neg hgood, if_neg (by rw [List.length_append]; omega), hdrop, hsome]
    dsimp only
    rw [List.drop_append_of_le_length (by omega), ih]
    by_cases hok : (consume cbor (a.drop (4 + payloadSize))).ok
    · rw [if_pos hok, Appended.after_after]
      exact (if_pos hok).symm
    · rw [if_neg hok]
      exact (if_neg hok).symm
  | case5 a h => rfl

/-! ## The frames of a stream -/

/-- An accepted record is the frame of its CBOR bytes. -/
theorem encode_of_accepted {record : M} (h : Accepted cbor record) :
    cbor.toCbor record ≠ [] ∧ (cbor.toCbor record).length ≤ maxRecordBytes ∧
      encode cbor record = framed (cbor.toCbor record) := by
  rw [Accepted, encode] at h
  split at h
  · exact absurd rfl h
  · rename_i hp
    rw [not_or] at hp
    exact ⟨hp.1, Nat.le_of_not_lt hp.2, by rw [encode, if_neg (not_or.2 hp)]⟩

/-- An accepted record is taken off the front. -/
theorem consume_encode (hcbor : cbor.Undoes) {record : M} (h : Accepted cbor record)
    (rest : List UInt8) :
    consume cbor (encode cbor record ++ rest) = (consume cbor rest).after [record] := by
  obtain ⟨hne, hle, heq⟩ := encode_of_accepted h
  rw [heq, consume_frame hne hle, hcbor record]

theorem consume_encodings (hcbor : cbor.Undoes) {records : List M}
    (h : ∀ record ∈ records, Accepted cbor record) (rest : List UInt8) :
    consume cbor (encodings cbor records ++ rest) = (consume cbor rest).after records := by
  induction records with
  | nil => rfl
  | cons record records ih =>
    have hrecord := h record (List.mem_cons_self ..)
    have hrecords := fun r hr => h r (List.mem_cons_of_mem _ hr)
    rw [encodings, List.map_cons, List.flatten_cons, List.append_assoc,
      consume_encode hcbor hrecord, ← encodings, ih hrecords, Appended.after_after]
    rfl

theorem consume_nil : consume cbor [] = ⟨true, {}, []⟩ := by
  rw [consume]
  rfl

/-- A part of a frame stays in the buffer. -/
theorem consume_part {payload part : List UInt8} (hne : payload ≠ [])
    (hle : payload.length ≤ maxRecordBytes) (hpart : part <+: framed payload)
    (hlt : part.length < (framed payload).length) :
    consume cbor part = ⟨true, ⟨part⟩, []⟩ := by
  rw [consume]
  split
  · rename_i h4
    have hsize : ofBe (part.take 4) = payload.length := by
      obtain ⟨rest, hrest⟩ := hpart
      have htake : part.take 4 = be32 payload.length := by
        rw [← List.take_append_of_le_length h4, hrest, framed]
        exact List.take_left' (length_be32 _)
      rw [htake]
      refine ofBe_be32 (Nat.lt_of_le_of_lt hle ?_)
      decide
    have hpos : payload.length ≠ 0 := fun h => hne (List.eq_nil_of_length_eq_zero h)
    rw [framed, List.length_append, length_be32] at hlt
    simp only [hsize]
    rw [if_neg (by omega), if_pos hlt]
  · rfl

/-- The records of a stream whose frames end within the first `n` bytes. -/
def complete (cbor : Cbor M) : List M → ℕ → List M
  | [], _ => []
  | record :: records, n =>
    if (encode cbor record).length ≤ n then
      record :: complete cbor records (n - (encode cbor record).length)
    else []

/-- How many of the first `n` bytes of a stream belong to a frame that has not
    ended. -/
def unfinished (cbor : Cbor M) : List M → ℕ → ℕ
  | [], n => n
  | record :: records, n =>
    if (encode cbor record).length ≤ n then
      unfinished cbor records (n - (encode cbor record).length)
    else n

/-- What the parser makes of the first bytes of a stream. -/
theorem consume_start (hcbor : cbor.Undoes) {records : List M}
    (h : ∀ record ∈ records, Accepted cbor record) {start : List UInt8}
    (hstart : start <+: encodings cbor records) :
    (consume cbor start).ok = true ∧
      (consume cbor start).records = complete cbor records start.length ∧
      (consume cbor start).parser.buffer.length = unfinished cbor records start.length := by
  induction records generalizing start with
  | nil =>
    obtain rfl := List.prefix_nil.1 hstart
    rw [consume_nil]
    exact ⟨rfl, rfl, rfl⟩
  | cons record records ih =>
    have hrecord := h record (List.mem_cons_self ..)
    have hrecords := fun r hr => h r (List.mem_cons_of_mem _ hr)
    rw [encodings, List.map_cons, List.flatten_cons, ← encodings] at hstart
    rw [complete, unfinished]
    by_cases hle : (encode cbor record).length ≤ start.length
    · -- the first frame ends: the rest is the start of the other records
      obtain ⟨rest, rfl⟩ := List.prefix_of_prefix_length_le (List.prefix_append _ _) hstart hle
      rw [List.prefix_append_right_inj] at hstart
      obtain ⟨hok, hcomplete, hunfinished⟩ := ih hrecords hstart
      rw [if_pos hle, if_pos hle, consume_encode hcbor hrecord, List.length_append,
        Nat.add_sub_cancel_left]
      exact ⟨hok, congrArg (record :: ·) hcomplete, hunfinished⟩
    · -- the first frame does not end, and is the buffer
      have hpart := List.prefix_of_prefix_length_le hstart (List.prefix_append _ _)
        (Nat.le_of_lt (Nat.lt_of_not_le hle))
      obtain ⟨hne, hmax, heq⟩ := encode_of_accepted hrecord
      rw [if_neg hle, if_neg hle,
        consume_part hne hmax (heq ▸ hpart) (heq ▸ Nat.lt_of_not_le hle)]
      exact ⟨rfl, rfl, rfl⟩

/-! ## Delivery -/

/-- The parser after some bytes of a stream, at the next chunk. -/
theorem append_eq {pre chunk : List UInt8} (hok : (consume cbor pre).ok)
    (hle : (consume cbor pre).parser.buffer.length + chunk.length ≤ maxBufferBytes) :
    ((consume cbor pre).parser.append cbor chunk).after (consume cbor pre).records =
      consume cbor (pre ++ chunk) := by
  rw [consume_append, if_pos hok, Parser.append, if_neg]
  rw [List.length_append]
  omega

/-- A chunk that overfills the buffer. -/
theorem deliver_overfull {p : Parser} {chunk : List UInt8} {chunks : List (List UInt8)}
    (h : maxBufferBytes < p.buffer.length + chunk.length) :
    p.deliver cbor (chunk :: chunks) = none := by
  rw [← List.length_append] at h
  rw [Parser.deliver, Parser.append, if_pos h]
  rfl

/-- The chunks of a list, each with those before it. -/
theorem forall_split_cons {α : Type} {P : List α → α → Prop} {x : α} {xs : List α} :
    (∀ a c b, x :: xs = a ++ c :: b → P a c) ↔
      P [] x ∧ ∀ a c b, xs = a ++ c :: b → P (x :: a) c := by
  constructor
  · intro h
    exact ⟨h [] x xs rfl, fun a c b hxs => h (x :: a) c b (by rw [hxs]; rfl)⟩
  · rintro ⟨hx, hxs⟩ a c b heq
    rcases a with _ | ⟨y, a⟩
    · obtain ⟨rfl, rfl⟩ := List.cons.inj heq
      exact hx
    · obtain ⟨rfl, htail⟩ := List.cons.inj heq
      exact hxs a c b htail

/-- The rest of a stream, from the parser that some of its bytes leave. -/
theorem deliver_rest (hcbor : cbor.Undoes) {records : List M}
    (h : ∀ record ∈ records, Accepted cbor record) (pre : List UInt8)
    {chunks : List (List UInt8)} (hpre : pre ++ chunks.flatten = encodings cbor records) :
    ((consume cbor pre).parser.deliver cbor chunks).map ((consume cbor pre).records ++ ·) =
        some records ↔
      ∀ a chunk b, chunks = a ++ chunk :: b →
        unfinished cbor records (pre ++ a.flatten).length + chunk.length ≤ maxBufferBytes := by
  induction chunks generalizing pre with
  | nil =>
    have hall : (consume cbor pre).records = records := by
      have := consume_encodings hcbor h []
      rw [← hpre, List.append_nil, consume_nil] at this
      rw [← List.append_nil pre, ← List.flatten_nil, this]
      exact List.append_nil _
    refine iff_of_true ?_ fun a chunk b hnil => ?_
    · rw [Parser.deliver, Option.map_some, List.append_nil, hall]
    · exact absurd hnil (by simp)
  | cons chunk chunks ih =>
    rw [List.flatten_cons, ← List.append_assoc] at hpre
    obtain ⟨hok, -, hbuffer⟩ := consume_start hcbor h
      ((List.prefix_append pre chunk).trans ⟨_, hpre⟩)
    obtain ⟨hok', -, -⟩ := consume_start hcbor h ⟨_, hpre⟩
    rw [forall_split_cons, List.flatten_nil, List.append_nil, ← hbuffer]
    by_cases hle : (consume cbor pre).parser.buffer.length + chunk.length ≤ maxBufferBytes
    · -- The chunk fits, and the parser is then the one that `pre ++ chunk` leaves.
      have happend := append_eq hok hle
      have hrest := ih _ hpre
      rw [← happend] at hrest hok'
      rw [Appended.after_ok] at hok'
      rw [Parser.deliver, if_pos hok', Option.map_map]
      simp only [List.flatten_cons, ← List.append_assoc, hle, true_and]
      rw [← hrest]
      simp only [Appended.after_parser, Appended.after_records, Function.comp_def,
        List.append_assoc]
    · refine iff_of_false ?_ fun hall => hle hall.1
      rw [deliver_overfull (Nat.lt_of_not_le hle)]
      simp

/-! ## Malformed frames -/

/-- A header that no record has, or a payload that is not a map in CBOR. -/
inductive Malformed (cbor : Cbor M) : List UInt8 → Prop
  | size {header : List UInt8} (hlen : header.length = 4)
      (h : ofBe header = 0 ∨ maxRecordBytes < ofBe header) : Malformed cbor header
  | payload {payload : List UInt8} (hne : payload ≠ []) (hle : payload.length ≤ maxRecordBytes)
      (h : cbor.fromCbor payload = none) : Malformed cbor (framed payload)

theorem Malformed.consume {bad : List UInt8} (h : Malformed cbor bad) (rest : List UInt8) :
    consume cbor (bad ++ rest) = .protocolError := by
  rcases h with ⟨hlen, hsize⟩ | ⟨hne, hle, hnone⟩
  · rw [Preview.consume, if_pos (by rw [List.length_append]; omega), List.take_left' hlen]
    exact if_pos hsize
  · rw [consume_frame hne hle, hnone]

theorem Malformed.consume_part {bad part : List UInt8} (h : Malformed cbor bad)
    (hpart : part <+: bad) (hlt : part.length < bad.length) :
    Preview.consume cbor part = ⟨true, ⟨part⟩, []⟩ := by
  rcases h with ⟨hlen, hsize⟩ | ⟨hne, hle, hnone⟩
  · rw [Preview.consume, if_neg (by omega)]
  · exact Preview.consume_part hne hle hpart hlt

/-- A part of a frame in the buffer is shorter than the longest frame. -/
theorem length_buffer_lt {bytes : List UInt8} :
    (consume cbor bytes).parser.buffer.length < maxRecordBytes + 4 := by
  fun_induction consume cbor bytes with
  | case1 => exact Nat.succ_pos _
  | case2 bytes h payloadSize hgood hshort =>
    have : payloadSize ≤ maxRecordBytes := by omega
    exact Nat.lt_of_lt_of_le hshort (by omega)
  | case3 => exact Nat.succ_pos _
  | case4 bytes h payloadSize hgood hlong record hsome ih => exact ih
  | case5 bytes h => exact Nat.lt_of_lt_of_le (Nat.lt_of_not_le h) (Nat.le_add_left _ _)

theorem consume_ok_of_append {a b : List UInt8} (h : (consume cbor (a ++ b)).ok) :
    (consume cbor a).ok := by
  rw [consume_append] at h
  split at h
  · assumption
  · exact h

/-- The bytes that were read. -/
def bytes (chunks : List Chunk) : List UInt8 := (chunks.map Chunk.bytes).flatten

/-- A read never overfills the buffer. -/
theorem append_chunk {pre : List UInt8} (hok : (consume cbor pre).ok) (chunk : Chunk) :
    ((consume cbor pre).parser.append cbor chunk.bytes).after (consume cbor pre).records =
      consume cbor (pre ++ chunk.bytes) := by
  refine append_eq hok ?_
  have hbuffer : (consume cbor pre).parser.buffer.length < maxRecordBytes + 4 := length_buffer_lt
  have hchunk := chunk.le
  have hmax : maxRecordBytes + 3 + 8192 ≤ maxBufferBytes := by decide
  omega

/-- The commands of the chunks up to one where the parser still succeeds. -/
theorem readCommands_append (pre : List UInt8) {a : List Chunk} (b : List Chunk)
    (hok : (consume cbor (pre ++ bytes a)).ok) :
    (consume cbor pre).records.map .handleCommand ++
        (consume cbor pre).parser.readCommands cbor (a ++ b) =
      (consume cbor (pre ++ bytes a)).records.map .handleCommand ++
        (consume cbor (pre ++ bytes a)).parser.readCommands cbor b := by
  induction a generalizing pre with
  | nil => rw [bytes, List.map_nil, List.flatten_nil, List.append_nil, List.nil_append]
  | cons chunk a ih =>
    rw [bytes, List.map_cons, List.flatten_cons, ← List.append_assoc, ← bytes] at hok ⊢
    have hchunk : (consume cbor (pre ++ chunk.bytes)).ok := consume_ok_of_append hok
    have hpre : (consume cbor pre).ok := consume_ok_of_append hchunk
    have happend := append_chunk hpre chunk
    rw [← ih _ hok, ← happend]
    rw [← happend, Appended.after_ok] at hchunk
    rw [List.cons_append, Parser.readCommands, if_pos hchunk]
    simp only [Appended.after_records, Appended.after_parser, List.map_append, List.append_assoc]

theorem complete_of_le {records : List M} {n : ℕ} (h : (encodings cbor records).length ≤ n) :
    complete cbor records n = records := by
  induction records generalizing n with
  | nil => rfl
  | cons record records ih =>
    rw [encodings, List.map_cons, List.flatten_cons, List.length_append, ← encodings] at h
    rw [complete, if_pos (by omega), ih (by omega)]

/-- The bytes of a stream before the end of a malformed frame. -/
theorem consume_before (hcbor : cbor.Undoes) {records : List M}
    (h : ∀ record ∈ records, Accepted cbor record) {bad pre : List UInt8}
    (hbad : Malformed cbor bad) (hpre : pre <+: encodings cbor records ++ bad)
    (hlt : pre.length < (encodings cbor records ++ bad).length) :
    (consume cbor pre).ok ∧
      (consume cbor pre).records = complete cbor records pre.length := by
  rcases Nat.le_total pre.length (encodings cbor records).length with hle | hle
  · have hstart := List.prefix_of_prefix_length_le hpre (List.prefix_append _ _) hle
    obtain ⟨hok, hrecords, -⟩ := consume_start hcbor h hstart
    exact ⟨hok, hrecords⟩
  · -- every record is complete, and the rest is a part of the malformed frame
    obtain ⟨part, rfl⟩ := List.prefix_of_prefix_length_le (List.prefix_append _ _) hpre hle
    rw [List.prefix_append_right_inj] at hpre
    rw [List.length_append, List.length_append, Nat.add_lt_add_iff_left] at hlt
    rw [consume_encodings hcbor h, hbad.consume_part hpre hlt, complete_of_le hle]
    exact ⟨rfl, List.append_nil _⟩

/-- Before the end of a malformed frame, the complete commands have been handled. -/
theorem readCommands_before (hcbor : cbor.Undoes) {records : List M}
    (h : ∀ record ∈ records, Accepted cbor record) {bad rest : List UInt8}
    (hbad : Malformed cbor bad) {a b : List Chunk}
    (hbytes : bytes (a ++ b) = encodings cbor records ++ bad ++ rest)
    (hbefore : (bytes a).length < (encodings cbor records ++ bad).length) :
    (consume cbor (bytes a)).ok ∧
      ({} : Parser).readCommands cbor (a ++ b) =
        (complete cbor records (bytes a).length).map .handleCommand ++
          (consume cbor (bytes a)).parser.readCommands cbor b := by
  have hprefix : bytes a <+: encodings cbor records ++ bad ++ rest := by
    rw [← hbytes, bytes, bytes, List.map_append, List.flatten_append]
    exact List.prefix_append _ _
  obtain ⟨hok, hrecords⟩ := consume_before hcbor h hbad
    (List.prefix_of_prefix_length_le hprefix (List.prefix_append _ _) (Nat.le_of_lt hbefore))
    hbefore
  have hread := readCommands_append [] b hok
  rw [consume_nil, List.map_nil, List.nil_append, List.nil_append, hrecords] at hread
  exact ⟨hok, hread⟩

/-- At a malformed frame, the commands of the chunks before have been handled, and
    an error is sent. Those that end in the chunk of the malformed frame are lost. -/
theorem readCommands_malformed (hcbor : cbor.Undoes) {records : List M}
    (h : ∀ record ∈ records, Accepted cbor record) {bad rest : List UInt8}
    (hbad : Malformed cbor bad) {a b : List Chunk} {chunk : Chunk}
    (hbytes : bytes (a ++ chunk :: b) = encodings cbor records ++ bad ++ rest)
    (hbefore : (bytes a).length < (encodings cbor records ++ bad).length)
    (hafter : (encodings cbor records ++ bad).length ≤ (bytes a ++ chunk.bytes).length) :
    ({} : Parser).readCommands cbor (a ++ chunk :: b) =
      (complete cbor records (bytes a).length).map .handleCommand ++
        .sendError :: ({} : Parser).readCommands cbor b := by
  obtain ⟨hok, hread⟩ := readCommands_before hcbor h hbad hbytes hbefore
  have hsplit : bytes a ++ chunk.bytes ++ bytes b = encodings cbor records ++ bad ++ rest := by
    rw [← hbytes]
    simp [bytes]
  have hfail : ((consume cbor (bytes a)).parser.append cbor chunk.bytes).after
      (consume cbor (bytes a)).records = Appended.protocolError.after records := by
    obtain ⟨more, hmore⟩ := List.prefix_of_prefix_length_le (List.prefix_append _ rest)
      (hsplit ▸ List.prefix_append _ (bytes b)) hafter
    rw [append_chunk hok chunk, ← hmore, List.append_assoc, consume_encodings hcbor h,
      hbad.consume]
  have hnotok : ((consume cbor (bytes a)).parser.append cbor chunk.bytes).ok = false :=
    congrArg Appended.ok hfail
  have hcleared : ((consume cbor (bytes a)).parser.append cbor chunk.bytes).parser = {} :=
    congrArg Appended.parser hfail
  rw [hread, Parser.readCommands, hnotok, hcleared]
  rfl

/-- A stream of accepted records is delivered as it was sent exactly if no chunk
    overfills the buffer behind the frame that has not ended; and at a malformed
    frame the worker has handled every command of the chunks before. -/
theorem parser_of_stream (hcbor : cbor.Undoes) {records : List M}
    (h : ∀ record ∈ records, Accepted cbor record) :
    (∀ chunks : List (List UInt8), chunks.flatten = encodings cbor records →
      (({} : Parser).deliver cbor chunks = some records ↔
        ∀ a chunk b, chunks = a ++ chunk :: b →
          unfinished cbor records a.flatten.length + chunk.length ≤ maxBufferBytes)) ∧
    ∀ (bad rest : List UInt8) (a b : List Chunk), Malformed cbor bad →
      bytes (a ++ b) = encodings cbor records ++ bad ++ rest →
      (bytes a).length < (encodings cbor records ++ bad).length →
      (complete cbor records (bytes a).length).map .handleCommand <+:
        ({} : Parser).readCommands cbor (a ++ b) := by
  constructor
  · intro chunks hchunks
    have hrest := deliver_rest hcbor h [] hchunks
    rw [consume_nil] at hrest
    simpa using hrest
  · intro bad rest a b hbad hbytes hbefore
    rw [(readCommands_before hcbor h hbad hbytes hbefore).2]
    exact List.prefix_append _ _

/-! ### The commands of one chunk -/

/-- A discovery, as the session sends it. -/
def discoverBytes : List UInt8 :=
  0xa4 :: 0x68 :: ascii "protocol" ++ 0x02 :: 0x67 :: ascii "session" ++ 0x61 :: ascii "s" ++
    0x68 :: ascii "sequence" ++ 0x01 :: 0x64 :: ascii "type" ++ 0x68 :: ascii "discover"

/-- The CBOR of this one command. -/
def discoverCbor : Cbor Unit where
  toCbor _ := discoverBytes
  fromCbor bs := if bs = discoverBytes then some () else none

theorem discoverCbor_undoes : discoverCbor.Undoes := fun _ => rfl

theorem discoverCbor_accepted (records : List Unit) :
    ∀ record ∈ records, Accepted discoverCbor record := by
  intro record _
  exact (by decide : encode discoverCbor () ≠ [])

def discoverChunk : Chunk := ⟨encode discoverCbor (), by decide, by decide⟩

/-- An empty frame. -/
def emptyChunk : Chunk := ⟨[0, 0, 0, 0], by decide, by decide⟩

/-- The command and the empty frame in one read. -/
def bothChunk : Chunk := ⟨encode discoverCbor () ++ [0, 0, 0, 0], by decide, by decide⟩

theorem parser_of_stream_discover :
    ({} : Parser).deliver discoverCbor
        [(encode discoverCbor ()).take 2, (encode discoverCbor ()).drop 2] = some [()] ∧
      [.handleCommand ()] <+:
        ({} : Parser).readCommands discoverCbor [discoverChunk, emptyChunk] := by
  obtain ⟨hdeliver, hread⟩ :=
    parser_of_stream discoverCbor_undoes (discoverCbor_accepted [()])
  refine ⟨(hdeliver _ (by decide)).2 ?_, ?_⟩
  · rw [forall_split_cons, forall_split_cons]
    refine ⟨by decide, by decide, fun a chunk b h => absurd h (by simp)⟩
  · exact hread [0, 0, 0, 0] [] [discoverChunk] [emptyChunk]
      (.size (by decide) (.inl (by decide))) (by decide) (by decide)

/-- Many commands in one chunk are refused, and the commands of the chunk in which a
    malformed frame is found are lost. -/
theorem parser_of_stream_fails :
    (¬ ∀ (records : List Unit) (chunks : List (List UInt8)),
      (∀ record ∈ records, Accepted discoverCbor record) →
      chunks.flatten = encodings discoverCbor records →
      ({} : Parser).deliver discoverCbor chunks = some records) ∧
    ¬ ∀ (records : List Unit) (bad : List UInt8) (chunks : List Chunk),
      (∀ record ∈ records, Accepted discoverCbor record) → Malformed discoverCbor bad →
      bytes chunks = encodings discoverCbor records ++ bad →
      records.map .handleCommand <+: ({} : Parser).readCommands discoverCbor chunks := by
  constructor
  · intro h
    have hdeliver := h (List.replicate 300000 ())
      [encodings discoverCbor (List.replicate 300000 ())] (discoverCbor_accepted _)
      (List.append_nil _)
    have hlength : (encodings discoverCbor (List.replicate 300000 ())).length = 300000 * 49 := by
      rw [encodings, List.map_replicate, List.length_flatten, List.map_replicate,
        List.sum_replicate_nat]
      rfl
    rw [deliver_overfull (by rw [hlength]; decide)] at hdeliver
    cases hdeliver
  · intro h
    have hread := h [()] [0, 0, 0, 0] [bothChunk] (discoverCbor_accepted _)
      (.size (by decide) (.inl (by decide))) (by decide)
    have hmalformed : ({} : Parser).readCommands discoverCbor ([] ++ bothChunk :: []) = _ :=
      readCommands_malformed discoverCbor_undoes (discoverCbor_accepted [()])
        (.size rfl (.inl rfl)) (List.append_nil _).symm (by decide) (by decide)
    have hnone : complete discoverCbor [()] (bytes []).length = [] := by decide
    rw [← List.nil_append [bothChunk], hmalformed, hnone] at hread
    exact absurd hread (by decide)

end Preview

end KFaceAuth
