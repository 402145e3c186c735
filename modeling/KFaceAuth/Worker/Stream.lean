import KFaceAuth.Worker.Wire

/-!
# Frames over a stream

A worker reads its requests from a pipe, which may give fewer bytes than asked
for, be interrupted or fail at any read (`Reader.read`), and writes its responses
to one, which may fail at any write (`Writer.call`). A frame is read in two loops
(`fill`), of the header and of the payload, and both go on after a short read and
after an interruption.

* `fill_eq`: from a reader that does not fail, a loop takes the next bytes of the
  stream, however the reads split it;
* `reads_framed`: frames are read one after the other, and then the end of the
  stream.
-/

namespace KFaceAuth

/-! ## Readers -/

/-- How a reader answers a read. -/
inductive ReadAnswer
  /-- At most this many bytes and one more. -/
  | short (n : ℕ)
  /-- `ErrorKind::Interrupted`. -/
  | interrupted
  /-- Another error. -/
  | fails
  deriving DecidableEq, Repr

/-- What a read gives. -/
inductive ReadResult
  | ok (bytes : List UInt8)
  | interrupted
  | failed

/-- A reader: the bytes that are left, and its answers to the next reads. A read
    after those gives all that is asked for. -/
structure Reader where
  bytes : List UInt8
  answers : List ReadAnswer

/-- `read`, into a buffer of `n` bytes. -/
def Reader.read (reader : Reader) (n : ℕ) : ReadResult × Reader :=
  match reader.answers with
  | [] => (.ok (reader.bytes.take n), ⟨reader.bytes.drop n, []⟩)
  | .short k :: answers =>
    (.ok (reader.bytes.take (min (k + 1) n)), ⟨reader.bytes.drop (min (k + 1) n), answers⟩)
  | .interrupted :: answers => (.interrupted, ⟨reader.bytes, answers⟩)
  | .fails :: answers => (.failed, ⟨reader.bytes, answers⟩)

/-- A reader that does not fail. -/
def Reader.Works (reader : Reader) : Prop := ReadAnswer.fails ∉ reader.answers

/-- What is left of a reader: bytes that were read, and answers that were used. -/
def Reader.size (reader : Reader) : ℕ := reader.bytes.length + reader.answers.length

/-- The three things that can happen at a read: some of the bytes are given, or
    an answer is used up. -/
theorem Reader.read_cases (reader : Reader) {n : ℕ} (hn : 0 < n) :
    (∃ k answers, 0 < k ∧ k ≤ n ∧
      reader.read n = (.ok (reader.bytes.take k), ⟨reader.bytes.drop k, answers⟩) ∧
      answers.length ≤ reader.answers.length ∧ (reader.Works → ReadAnswer.fails ∉ answers)) ∨
    (∃ answers, reader.read n = (.interrupted, ⟨reader.bytes, answers⟩) ∧
      answers.length < reader.answers.length ∧ (reader.Works → ReadAnswer.fails ∉ answers)) ∨
    (∃ answers, reader.read n = (.failed, ⟨reader.bytes, answers⟩) ∧ ¬ reader.Works) := by
  obtain ⟨bytes, answers⟩ := reader
  rcases answers with _ | ⟨_ | _ | _, answers⟩
  · exact .inl ⟨n, [], hn, Nat.le_refl n, rfl, Nat.le_refl 0, id⟩
  · refine .inl ⟨min (_ + 1) n, answers, by omega, by omega, rfl, Nat.le_succ _, fun h hmem => ?_⟩
    exact h (List.mem_cons_of_mem _ hmem)
  · exact .inr (.inl ⟨answers, rfl, Nat.lt_succ_self _, fun h hmem =>
      h (List.mem_cons_of_mem _ hmem)⟩)
  · exact .inr (.inr ⟨answers, rfl, fun h => h List.mem_cons_self⟩)

/-- A read leaves no more than there was. -/
theorem Reader.size_read_le {reader reader' : Reader} {n : ℕ} {result : ReadResult}
    (h : reader.read n = (result, reader')) : reader'.size ≤ reader.size := by
  have hreader : (reader.read n).2 = reader' := by rw [h]
  obtain ⟨bytes, answers⟩ := reader
  subst hreader
  rcases answers with _ | ⟨_ | _ | _, answers⟩
  · simp [Reader.size, Reader.read]
  · simp only [Reader.size, Reader.read, List.length_drop, List.length_cons]
    omega
  · simp [Reader.size, Reader.read]
  · simp [Reader.size, Reader.read]

/-- A read leaves less, unless it ends the loop. -/
theorem Reader.size_read_lt {reader reader' : Reader} {n : ℕ} {result : ReadResult} (hn : 0 < n)
    (h : reader.read n = (result, reader')) (hend : result ≠ .ok []) (hfail : result ≠ .failed) :
    reader'.size < reader.size := by
  rcases reader.read_cases hn with ⟨k, answers, hk, -, hread, hlen, -⟩ | ⟨answers, hread, hlen, -⟩ |
    ⟨answers, hread, -⟩
  · rw [hread] at h
    cases h
    have hpos : 0 < reader.bytes.length := by
      refine List.length_pos_iff.mpr fun hnil => hend ?_
      rw [hnil, List.take_nil]
    simp only [Reader.size, List.length_drop]
    omega
  · rw [hread] at h
    cases h
    simp only [Reader.size]
    omega
  · rw [hread] at h
    cases h
    exact absurd rfl hfail

/-! ## Loops of reads -/

/-- How a loop of reads ends: with all the bytes, at the end of the stream with
    those before it, or with an error. -/
inductive Filled
  | full (bytes : List UInt8)
  | ended (bytes : List UInt8)
  | failed
  deriving DecidableEq, Repr

/-- The loop of `read_frame_or_eof` over the header and that of `read_exact`: reads
    until there are `n` bytes, of which it has `got`. -/
def fill (n : ℕ) (got : List UInt8) (reader : Reader) : Filled × Reader :=
  if _hn : n ≤ got.length then (.full got, reader)
  else
    match _h : reader.read (n - got.length) with
    | (.ok [], reader') => (.ended got, reader')
    | (.ok (b :: bytes), reader') => fill n (got ++ b :: bytes) reader'
    | (.interrupted, reader') => fill n got reader'
    | (.failed, reader') => (.failed, reader')
  termination_by reader.size
  decreasing_by
    all_goals exact Reader.size_read_lt (Nat.sub_pos_of_lt (Nat.not_le.mp _hn)) _h nofun nofun

/-- A loop leaves no more than there was. -/
theorem size_fill_le (n : ℕ) (got : List UInt8) (reader : Reader) :
    (fill n got reader).2.size ≤ reader.size := by
  fun_induction fill n got reader with
  | case1 => exact Nat.le_refl _
  | case2 got reader hn reader' h => exact Reader.size_read_le h
  | case3 got reader hn b bytes reader' h ih => exact Nat.le_trans ih (Reader.size_read_le h)
  | case4 got reader hn reader' h ih => exact Nat.le_trans ih (Reader.size_read_le h)
  | case5 got reader hn reader' h => exact Reader.size_read_le h

/-- A loop that gets bytes leaves less than there was. -/
theorem size_fill_lt {n : ℕ} {got bytes : List UInt8} {reader reader' : Reader}
    (hn : got.length < n) (h : fill n got reader = (.full bytes, reader')) :
    reader'.size < reader.size := by
  have hpos : 0 < n - got.length := Nat.sub_pos_of_lt hn
  rw [fill, dif_neg (Nat.not_le.mpr hn)] at h
  split at h
  next => cases h
  next b bytes reader₁ hread =>
    have hle := size_fill_le n (got ++ b :: bytes) reader₁
    rw [h] at hle
    exact Nat.lt_of_le_of_lt hle (Reader.size_read_lt hpos hread nofun nofun)
  next reader₁ hread =>
    have hle := size_fill_le n got reader₁
    rw [h] at hle
    exact Nat.lt_of_le_of_lt hle (Reader.size_read_lt hpos hread nofun nofun)
  next => cases h

/-- What a loop over a reader that does not fail ends with, by what it has and
    what is left of the stream. -/
def fillOf (n : ℕ) (stream : List UInt8) : Filled :=
  if n ≤ stream.length then .full (stream.take n) else .ended stream

/-- A loop over a reader that does not fail takes what is missing from the
    stream, however the stream is split. -/
theorem fill_eq (n : ℕ) (got : List UInt8) {reader : Reader} (hgot : got.length ≤ n)
    (hworks : reader.Works) :
    ∃ answers, ReadAnswer.fails ∉ answers ∧ fill n got reader =
      (fillOf n (got ++ reader.bytes), ⟨(got ++ reader.bytes).drop n, answers⟩) := by
  -- By induction on what is left of the reader. A read moves bytes from the
  -- stream to what the loop has, so that both together stay the same.
  induction hsize : reader.size using Nat.strongRecOn generalizing got reader with
  | ind size ih =>
  subst hsize
  rw [fill]
  split
  case isTrue hn =>
    have hlen : got.length = n := Nat.le_antisymm hgot hn
    refine ⟨reader.answers, hworks, ?_⟩
    rw [fillOf, if_pos (by rw [List.length_append]; omega), ← hlen, List.take_left, List.drop_left]
  case isFalse hn =>
  have hpos : 0 < n - got.length := Nat.sub_pos_of_lt (Nat.not_le.mp hn)
  rcases reader.read_cases hpos with ⟨k, answers, hk, hkn, hread, -, hstill⟩ |
    ⟨answers, hread, hlen, hstill⟩ | ⟨answers, hread, hfails⟩
  · rcases hbytes : reader.bytes.take k with _ | ⟨b, bytes⟩
    · -- Nothing was read: there is nothing left.
      have hnil : reader.bytes = [] := by
        rcases List.take_eq_nil_iff.mp hbytes with hzero | hnil
        · omega
        · exact hnil
      rw [hbytes, hnil, List.drop_nil] at hread
      refine ⟨answers, hstill hworks, ?_⟩
      rw [hread, hnil, List.append_nil, fillOf, if_neg hn, List.drop_eq_nil_of_le hgot]
    · have hlt := Reader.size_read_lt hpos hread (by rw [hbytes]; simp) (by simp)
      have hmove : got ++ b :: bytes ++ reader.bytes.drop k = got ++ reader.bytes := by
        rw [← hbytes, List.append_assoc, List.take_append_drop]
      have hlen : (got ++ b :: bytes).length ≤ n := by
        rw [← hbytes, List.length_append, List.length_take]
        omega
      rw [hbytes] at hread
      have hworks' : Reader.Works ⟨reader.bytes.drop k, answers⟩ := hstill hworks
      have hrest := ih _ hlt _ hlen hworks' rfl
      rw [hmove] at hrest
      rw [hread]
      exact hrest
  · have hlt := Reader.size_read_lt hpos hread (by simp) (by simp)
    rw [hread]
    have hworks' : Reader.Works ⟨reader.bytes, answers⟩ := hstill hworks
    exact ih _ hlt _ hgot hworks' rfl
  · exact absurd hworks hfails

/-! ## Reading frames -/

/-- `read_frame_or_eof`. -/
def readFrameOrEof (maximum : ℕ) (reader : Reader) :
    Except FrameError (Option (List UInt8)) × Reader :=
  match fill 4 [] reader with
  | (.failed, reader) => (.error .io, reader)
  | (.ended [], reader) => (.ok none, reader)
  | (.ended _, reader) => (.error .io, reader)
  | (.full header, reader) =>
    let length := ofBe header
    if length = 0 then (.error .emptyFrame, reader)
    else if length > maximum then (.error .frameTooLarge, reader)
    else
      match fill length [] reader with
      | (.full payload, reader) => (.ok (some payload), reader)
      | (_, reader) => (.error .io, reader)

/-- A frame that is read leaves less than there was. -/
theorem size_readFrameOrEof_lt {maximum : ℕ} {payload : List UInt8} {reader reader' : Reader}
    (h : readFrameOrEof maximum reader = (.ok (some payload), reader')) :
    reader'.size < reader.size := by
  unfold readFrameOrEof at h
  split at h
  case h_4 header reader₁ hheader =>
    have hlt := size_fill_lt (by simp) hheader
    simp only at h
    split at h
    · cases h
    split at h
    · cases h
    split at h
    next payload' reader₂ hpayload =>
      cases h
      have hle := size_fill_le (ofBe header) [] reader₁
      rw [hpayload] at hle
      exact Nat.lt_of_le_of_lt hle hlt
    · cases h
  all_goals cases h

/-- A reader at the end of its stream gives no frame. -/
theorem readFrameOrEof_end (maximum : ℕ) {reader : Reader} (hworks : reader.Works)
    (h : reader.bytes = []) :
    ∃ answers, ReadAnswer.fails ∉ answers ∧
      readFrameOrEof maximum reader = (.ok none, ⟨[], answers⟩) := by
  obtain ⟨answers, hanswers, hfill⟩ := fill_eq 4 [] (Nat.zero_le 4) hworks
  refine ⟨answers, hanswers, ?_⟩
  rw [readFrameOrEof, hfill, h]
  rfl

/-- The next frame of a stream is read, however the stream is split. -/
theorem readFrameOrEof_framed {maximum : ℕ} {payload rest : List UInt8} {reader : Reader}
    (hworks : reader.Works) (hne : payload ≠ []) (hmax : payload.length ≤ maximum)
    (hlen : payload.length < 2 ^ 32) (h : reader.bytes = framed payload ++ rest) :
    ∃ answers, ReadAnswer.fails ∉ answers ∧
      readFrameOrEof maximum reader = (.ok (some payload), ⟨rest, answers⟩) := by
  have hpos : payload.length ≠ 0 := fun h => hne (List.length_eq_zero_iff.mp h)
  have hvalue : ofBe (be32 payload.length) = payload.length := ofBe_be32 hlen
  obtain ⟨answers, hanswers, hheader⟩ := fill_eq 4 [] (Nat.zero_le 4) hworks
  have hworks' : Reader.Works ⟨payload ++ rest, answers⟩ := hanswers
  obtain ⟨answers', hanswers', hpayload⟩ :=
    fill_eq payload.length [] (Nat.zero_le _) hworks'
  rw [List.nil_append, fillOf, if_pos (by simp), List.take_left, List.drop_left] at hpayload
  refine ⟨answers', hanswers', ?_⟩
  rw [readFrameOrEof, hheader, List.nil_append, h, framed, List.append_assoc, fillOf,
    if_pos (by simp), ← length_be32 payload.length, List.take_left, List.drop_left]
  simp only [hvalue]
  rw [if_neg hpos, if_neg (Nat.not_lt.mpr hmax), hpayload]

/-- `read_frame`. -/
def readOneFrame (maximum : ℕ) (reader : Reader) : Except FrameError (List UInt8) × Reader :=
  match readFrameOrEof maximum reader with
  | (.ok (some payload), reader) => (.ok payload, reader)
  | (.ok none, reader) => (.error .io, reader)
  | (.error e, reader) => (.error e, reader)

/-- `require_eof`, of a reader. -/
def requireEnd (reader : Reader) : Except FrameError Unit × Reader :=
  match fill 1 [] reader with
  | (.full _, reader) => (.error .trailingData, reader)
  | (.ended _, reader) => (.ok (), reader)
  | (.failed, reader) => (.error .io, reader)

/-- A request that is alone on its stream is read, and nothing after it. -/
theorem readOneFrame_framed {maximum : ℕ} {payload : List UInt8} {reader : Reader}
    (hworks : reader.Works) (hne : payload ≠ []) (hmax : payload.length ≤ maximum)
    (hlen : payload.length < 2 ^ 32) (h : reader.bytes = framed payload) :
    ∃ reader', readOneFrame maximum reader = (.ok payload, reader') ∧
      (requireEnd reader').1 = .ok () := by
  rw [← List.append_nil (framed payload)] at h
  obtain ⟨answers, hanswers, hread⟩ := readFrameOrEof_framed hworks hne hmax hlen h
  refine ⟨⟨[], answers⟩, by rw [readOneFrame, hread], ?_⟩
  have hworks' : Reader.Works ⟨[], answers⟩ := hanswers
  obtain ⟨answers', -, hend⟩ := fill_eq 1 [] (Nat.zero_le 1) hworks'
  rw [requireEnd, hend]
  rfl

/-- The results of as many calls of `read_frame_or_eof`. -/
def reads (maximum : ℕ) : ℕ → Reader → List (Except FrameError (Option (List UInt8)))
  | 0, _ => []
  | n + 1, reader =>
    let (result, reader) := readFrameOrEof maximum reader
    result :: reads maximum n reader

/-! ## Writing frames -/

/-- A writer: what was written, and for each of the next calls whether it fails,
    and after how many bytes. A call after those succeeds. -/
structure Writer where
  written : List UInt8
  answers : List (Option ℕ)
  deriving DecidableEq, Repr

/-- `write_all`, or `flush` without bytes: whether it succeeds. -/
def Writer.call (writer : Writer) (bytes : List UInt8) : Bool × Writer :=
  match writer.answers with
  | [] => (true, ⟨writer.written ++ bytes, []⟩)
  | none :: answers => (true, ⟨writer.written ++ bytes, answers⟩)
  | some n :: answers => (false, ⟨writer.written ++ bytes.take n, answers⟩)

/-- A writer that does not fail. -/
def Writer.working : Writer := ⟨[], []⟩

/-- The writes of `write_frame`. -/
def Writer.calls : List (List UInt8) → Writer → Except FrameError Unit × Writer
  | [], writer => (.ok (), writer)
  | bytes :: rest, writer =>
    match writer.call bytes with
    | (true, writer) => Writer.calls rest writer
    | (false, writer) => (.error .io, writer)

/-- `write_frame`. -/
def Writer.writeFrame (writer : Writer) (payload : List UInt8) (maximum : ℕ) :
    Except FrameError Unit × Writer :=
  if payload = [] then (.error .emptyFrame, writer)
  else if payload.length > maximum then (.error .frameTooLarge, writer)
  else if payload.length ≥ 2 ^ 32 then (.error .frameTooLarge, writer)
  else Writer.calls [be32 payload.length, payload, []] writer

/-- A payload that fits is written behind its length. -/
theorem writeFrame_ok {payload : List UInt8} {maximum : ℕ} (written : List UInt8)
    (hne : payload ≠ []) (hmax : payload.length ≤ maximum) (hlen : payload.length < 2 ^ 32) :
    Writer.writeFrame ⟨written, []⟩ payload maximum = (.ok (), ⟨written ++ framed payload, []⟩) := by
  rw [Writer.writeFrame, if_neg hne, if_neg (Nat.not_lt.mpr hmax), if_neg (Nat.not_le.mpr hlen)]
  simp [Writer.calls, Writer.call, framed]

/-- A payload that is written fits, and stands behind its length. -/
theorem writeFrame_working {payload frame : List UInt8} {maximum : ℕ}
    (h : Writer.working.writeFrame payload maximum = (.ok (), ⟨frame, []⟩)) :
    payload ≠ [] ∧ payload.length ≤ maximum ∧ payload.length < 2 ^ 32 ∧ frame = framed payload := by
  by_cases hne : payload = []
  · rw [Writer.writeFrame, if_pos hne] at h
    cases h
  by_cases hmax : payload.length > maximum
  · rw [Writer.writeFrame, if_neg hne, if_pos hmax] at h
    cases h
  by_cases hlen : payload.length ≥ 2 ^ 32
  · rw [Writer.writeFrame, if_neg hne, if_neg hmax, if_pos hlen] at h
    cases h
  have hok := writeFrame_ok [] hne (Nat.not_lt.mp hmax) (Nat.not_le.mp hlen)
  rw [Writer.working, hok] at h
  refine ⟨hne, Nat.not_lt.mp hmax, Nat.not_le.mp hlen, ?_⟩
  cases h
  rfl

/-- A writer does not take back what was written. -/
theorem Writer.written_prefix_calls (parts : List (List UInt8)) (writer : Writer) :
    writer.written <+: (Writer.calls parts writer).2.written := by
  induction parts generalizing writer with
  | nil => exact List.prefix_rfl
  | cons bytes parts ih =>
    obtain ⟨written, answers⟩ := writer
    rcases answers with _ | ⟨_ | n, answers⟩
    · exact (List.prefix_append written bytes).trans (ih ⟨written ++ bytes, []⟩)
    · exact (List.prefix_append written bytes).trans (ih ⟨written ++ bytes, answers⟩)
    · exact List.prefix_append _ _

theorem Writer.calls_ok {parts : List (List UInt8)} {writer writer' : Writer}
    (h : Writer.calls parts writer = (.ok (), writer')) :
    writer'.written = writer.written ++ parts.flatten := by
  induction parts generalizing writer with
  | nil =>
    cases h
    rw [List.flatten_nil, List.append_nil]
  | cons bytes parts ih =>
    obtain ⟨written, answers⟩ := writer
    rw [List.flatten_cons, ← List.append_assoc]
    rcases answers with _ | ⟨_ | n, answers⟩
    · exact ih h
    · exact ih h
    · cases h

/-- What was written before a frame stays. -/
theorem written_prefix_writeFrame (writer : Writer) (payload : List UInt8) (maximum : ℕ) :
    writer.written <+: (writer.writeFrame payload maximum).2.written := by
  unfold Writer.writeFrame
  split
  · exact List.prefix_rfl
  split
  · exact List.prefix_rfl
  split
  · exact List.prefix_rfl
  · exact Writer.written_prefix_calls _ _

/-- A frame that is written stands behind what was written before. -/
theorem written_writeFrame {writer writer' : Writer} {payload : List UInt8} {maximum : ℕ}
    (h : writer.writeFrame payload maximum = (.ok (), writer')) :
    writer'.written = writer.written ++ framed payload := by
  unfold Writer.writeFrame at h
  split at h
  · cases h
  split at h
  · cases h
  split at h
  · cases h
  · rw [Writer.calls_ok h, framed, List.flatten_cons, List.flatten_cons, List.flatten_cons,
      List.flatten_nil, List.append_nil, List.append_nil]

/-- Frames are read one after the other, and then the end of the stream. -/
theorem reads_framed {maximum : ℕ} {payloads : List (List UInt8)} {reader : Reader}
    (hfit : ∀ payload ∈ payloads,
      payload ≠ [] ∧ payload.length ≤ maximum ∧ payload.length < 2 ^ 32)
    (hworks : reader.Works) (h : reader.bytes = payloads.flatMap framed) :
    reads maximum (payloads.length + 1) reader =
      payloads.map (fun payload => .ok (some payload)) ++ [Except.ok none] := by
  induction payloads generalizing reader with
  | nil =>
    obtain ⟨answers, -, hread⟩ := readFrameOrEof_end maximum hworks h
    simp only [reads, List.length_nil, hread]
    rfl
  | cons payload payloads ih =>
    obtain ⟨hne, hmax, hlen⟩ := hfit payload List.mem_cons_self
    rw [List.flatMap_cons] at h
    obtain ⟨answers, hanswers, hread⟩ := readFrameOrEof_framed hworks hne hmax hlen h
    have hworks' : Reader.Works ⟨payloads.flatMap framed, answers⟩ := hanswers
    have hrest := ih (fun p hp => hfit p (List.mem_cons_of_mem _ hp)) hworks' rfl
    rw [List.length_cons, reads, hread, List.map_cons, List.cons_append, ← hrest]

end KFaceAuth
