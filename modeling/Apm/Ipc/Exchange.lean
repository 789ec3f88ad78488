import Apm.Ipc.Server

/-!
A request and its response over a connection: `sendRequest` of `src/apm/ipc_client.cpp`,
`sendRequestAuto` of `src/apm/transport.cpp`, and `handleClient` and `sendResponseMessage` of
`src/apmd/ipc_server.cpp`, joined.

A connection hands on what is written in reads of any size, with interrupts between them, and may
fail anywhere. It does not change what it hands on.

## Main results

* `exchanged`: a request is handled as it is read back or not at all, and the client has the
  response as it is read back or an error;
* `sendRequest_whole`: over a connection that does not fail, it has the response.
-/

namespace Apm.Ipc

open Apm.Repo (Fields getField)
open Apm.Lib Apm.Lib.Text

/-! ### Connections -/

/-- What is read of a text that was written: what arrives is its beginning. -/
structure Cut where
  reads : ByteString → List ReadResult
  begins : ∀ text, arrived (reads text) <+: text

/-- A connection of a client that waits for its response. -/
structure Connection where
  /-- The error of `socket`, `connect` or `write`. -/
  fails : Option ByteString := none
  request : Cut
  waits : ∀ text, closes (request.reads text) = false
  response : Cut

/-- Everything arrives. -/
structure Connection.Whole (k : Connection) : Prop where
  connects : k.fails = none
  request : ∀ text, arrived (k.request.reads text) = text
  response : ∀ text, arrived (k.response.reads text) = text

section Exchange

variable {σ : Type} (dispatch : Request → σ → Response × σ)

/-- `handleClient`: what is written back, and what becomes of the server. -/
def serve (reads : List ReadResult) (s : σ) : ByteString × σ :=
  match handleClient reads with
  | .dropped => ([], s)
  | .refused message => (serializeResponse { message }, s)
  | .dispatched req => (serializeResponse (dispatch req s).1, (dispatch req s).2)

def sendRequest (k : Connection) (req : Request) (s : σ) : Except ByteString Response × σ :=
  match k.fails with
  | some errorMsg => (.error errorMsg, s)
  | none =>
      let served := serve dispatch (k.request.reads (serializeRequest req)) s
      ((receive ({}, []) (k.response.reads served.1)).2, served.2)

/-- The response with the transport that it came by. -/
def withTransport (resp : Response) : Response :=
  { resp with rawFields := resp.rawFields.insert (str "transport") (str "ipc") }

def sendRequestAuto (k : Connection) (req : Request) (s : σ) :
    Except ByteString Response × σ :=
  let sent := sendRequest dispatch k req s
  (sent.1.map withTransport, sent.2)

/-- What the server reads of a request that arrives. -/
def Reaches (req req' : Request) : Prop :=
  parseRequest (serializeRequest req) = .ok req' ∧ (serializeRequest req).length ≤ kMaxRequestBytes

/-- What can become of a request: it is handled as it is read back, or it is not. -/
inductive Exchanged (req : Request) (s : σ) : Except ByteString Response → σ → Prop where
  | unhandled (errorMsg : ByteString) : Exchanged req s (.error errorMsg) s
  | refused {resp : Response} (fails : resp.success = false)
      (why : ∃ parseErr, resp.message = readBack (str "Bad request: " ++ parseErr)) :
      Exchanged req s (.ok resp) s
  | lost {req' : Request} (reaches : Reaches req req') (errorMsg : ByteString) :
      Exchanged req s (.error errorMsg) (dispatch req' s).2
  | answered {req' : Request} {resp : Response} (reaches : Reaches req req')
      (read : parseResponse (serializeResponse (dispatch req' s).1) = .ok resp) :
      Exchanged req s (.ok resp) (dispatch req' s).2

end Exchange

/-! ### Reading the response -/

/-- A final response whose raw fields have plain names that are not those of its slots. -/
structure Response.Plain (resp : Response) : Prop where
  final : resp.status = .Unknown
  keys : ∀ kv ∈ resp.rawFields.entries, kv.1 ≠ [] ∧ trim kv.1 = kv.1 ∧ KeyFits kv.1 ∧
    kv.1 ∉ [str "status", str "id", str "message"]

/-- The response as the client has it. -/
structure ReadAs (resp out : Response) : Prop where
  final : out.status ≠ .Progress
  success : out.success = resp.success
  id : out.id = readBack resp.id
  message : out.message = readBack resp.message
  fields : ∀ key ∉ [str "status", str "id", str "message"],
    out.rawFields.lookup key = (resp.rawFields.lookup key).map readBack

theorem responseSlots_keys (resp : Response) :
    (responseSlots resp).map Prod.fst = [str "status", str "id", str "message"] := rfl

theorem responseSlots_nodup (resp : Response) : ((responseSlots resp).map Prod.fst).Nodup := by
  rw [responseSlots_keys]
  decide

theorem Response.Plain.keysFit {resp : Response} (plain : resp.Plain) : KeysFit resp :=
  fun kv mem => ⟨(plain.keys kv mem).1, (plain.keys kv mem).2.2.1⟩

theorem Response.Plain.nodup {resp : Response} (plain : resp.Plain) :
    (responseHeaders resp).NodupKeys := by
  rw [List.NodupKeys, List.keys, responseHeaders, List.map_append, List.nodup_append]
  refine ⟨Assoc.slotEntries_nodupKeys (responseSlots_nodup resp), resp.rawFields.nodupKeys, ?_⟩
  rintro key own _ raw rfl
  obtain ⟨kv, mem, rfl⟩ := List.mem_map.mp raw
  exact (plain.keys kv mem).2.2.2 ((Assoc.slotEntries_keys_sublist _).subset own)

theorem Response.Plain.trimmed {resp : Response} (plain : resp.Plain) :
    ∀ header ∈ responseHeaders resp, trim header.1 = header.1 ∧ trim header.1 ≠ [] := by
  intro header mem
  rcases List.mem_append.mp mem with own | raw
  · have slot : header.1 ∈ [str "status", str "id", str "message"] :=
      (Assoc.slotEntries_keys_sublist (responseSlots resp)).subset (List.mem_map_of_mem own)
    have all : ∀ key ∈ [str "status", str "id", str "message"], trim key = key ∧ trim key ≠ [] := by
      decide
    exact all _ slot
  · obtain ⟨filled, trimmed, -⟩ := plain.keys header raw
    exact ⟨trimmed, trimmed.symm ▸ filled⟩

/-- A slot of a response, as it is read. -/
theorem lookup_responseSlot {resp : Response} (plain : resp.Plain)
    {slot : ByteString × ByteString} (mem : slot ∈ responseSlots resp) :
    (((responseHeaders resp).foldl readHeader ∅).lookup slot.1).getD [] = readBack slot.2 := by
  have absent : resp.rawFields.entries.dlookup slot.1 = none := by
    refine List.dlookup_eq_none.mpr fun raw => ?_
    obtain ⟨kv, inside, same⟩ := List.mem_map.mp raw
    have own : slot.1 ∈ [str "status", str "id", str "message"] := List.mem_map_of_mem mem
    exact (plain.keys kv inside).2.2.2 (same ▸ own)
  rw [lookup_foldl_readHeader (fun _ inside => (plain.trimmed _ inside).1) plain.nodup,
    responseHeaders, List.dlookup_append, absent, Option.or_none,
    ← Assoc.dlookup_slotEntries (responseSlots_nodup resp) mem]
  cases (Assoc.slotEntries (responseSlots resp)).dlookup slot.1 <;> rfl

/-- **The client has the response** without the blanks at the ends of its values. -/
theorem readResponse_serialized {resp : Response} (plain : resp.Plain) :
    ∃ out, parseResponse (serializeResponse resp) = .ok out ∧ ReadAs resp out := by
  have parsed : parseKeyValueLines (serializeResponse resp) =
      .ok ((responseHeaders resp).foldl readHeader ∅) :=
    parseKeyValueLines_headers (responseHeaders_fit plain.keysFit)
      fun header mem => (plain.trimmed header mem).2
  have slots : ∀ slot ∈ responseSlots resp,
      (((responseHeaders resp).foldl readHeader ∅).lookup slot.1).getD [] = readBack slot.2 :=
    fun slot mem => lookup_responseSlot plain mem
  have extras : ∀ key ∉ [str "status", str "id", str "message"],
      ((responseHeaders resp).foldl readHeader ∅).lookup key =
        (resp.rawFields.lookup key).map readBack := by
    intro key free
    have absent : (Assoc.slotEntries (responseSlots resp)).dlookup key = none :=
      List.dlookup_eq_none.mpr fun own => free ((Assoc.slotEntries_keys_sublist _).subset own)
    rw [lookup_foldl_readHeader (fun _ inside => (plain.trimmed _ inside).1) plain.nodup,
      responseHeaders, List.dlookup_append, absent, Option.none_or]
    rfl
  generalize (responseHeaders resp).foldl readHeader ∅ = fields at parsed slots extras
  simp only [responseSlots, List.forall_mem_cons] at slots
  obtain ⟨status, id, message, -⟩ := slots
  have filled : fields.entries.isEmpty = false := by
    cases entries : fields.entries with
    | nil =>
      rw [AList.lookup, entries] at status
      revert status
      unfold statusStr
      rw [plain.final]
      cases resp.success <;> decide
    | cons _ _ => rfl
  have reads : ∃ out, readStatus fields = some out ∧ out.status ≠ .Progress ∧
      out.success = resp.success := by
    unfold readStatus
    rw [getField, status, statusStr, plain.final]
    cases resp.success
    · exact ⟨_, rfl, (by decide : ResponseStatus.Error ≠ .Progress), rfl⟩
    · exact ⟨_, rfl, (by decide : ResponseStatus.Ok ≠ .Progress), rfl⟩
  obtain ⟨out, read, final, success⟩ := reads
  have found : parseResponse (serializeResponse resp) = .ok { out with
      id := getField fields "id"
      message := getField fields "message"
      rawFields := ((fields.erase (str "status")).erase (str "id")).erase (str "message") } := by
    rw [parseResponse, parsed]
    simp only [bind, Except.bind, filled, Bool.false_eq_true, if_false, readResponse, read]
  refine ⟨_, found, final, success, id, message, fun key free => ?_⟩
  have all := free
  simp only [List.mem_cons, List.not_mem_nil, or_false, not_or] at all
  rw [AList.lookup_erase_ne all.2.2, AList.lookup_erase_ne all.2.1, AList.lookup_erase_ne all.1]
  exact extras key free

/-! ### What arrives at the client -/

/-- A beginning of a frame with a blank line is the frame. -/
theorem eq_of_begins {frame text : ByteString} (isFrame : Frames.IsFrame terminator text)
    (long : terminator.length ≤ text.length) (begins : frame <+: text) {pos : Nat}
    (found : Frames.find terminator frame = some pos) : frame = text := by
  obtain ⟨rest, rfl⟩ := begins
  have whole := isFrame.find long []
  rw [List.append_nil, Frames.find_append found rest] at whole
  have room := Frames.find_length found
  have same := Option.some.inj whole
  have none : rest = [] := by
    rw [← List.length_eq_zero_iff]
    rw [List.length_append] at same long
    omega
  rw [none, List.append_nil]

/-- The client has the response if all of it arrives, and else an error. -/
theorem receive_begins {text : ByteString} (isFrame : Frames.IsFrame terminator text)
    (long : terminator.length ≤ text.length)
    (final : ∀ chunk, parseResponse text = .ok chunk → chunk.status ≠ .Progress)
    {reads : List ReadResult} {x : Client} {buffer : ByteString}
    (begins : buffer ++ arrived reads <+: text)
    (unended : Frames.find terminator buffer = none) :
    buffer ++ arrived reads = text ∧ (receive (x, buffer) reads).2 = parseResponse text ∨
      buffer ++ arrived reads ≠ text ∧ ∃ errorMsg, (receive (x, buffer) reads).2 =
        .error errorMsg := by
  have short : buffer ≠ text := by
    rintro rfl
    have whole := isFrame.find long []
    rw [List.append_nil, unended] at whole
    cases whole
  induction reads generalizing buffer x with
  | nil => exact .inr ⟨by rwa [arrived, List.append_nil], _, rfl⟩
  | cons read reads ih =>
    cases read with
    | interrupted => exact ih begins unended short
    | failed error => exact .inr ⟨by rwa [arrived, List.append_nil], _, rfl⟩
    | data bytes =>
      rw [arrived] at begins ⊢
      rw [receive]
      by_cases ends : bytes.isEmpty = true
      · rw [if_pos ends, List.append_nil]
        refine .inr ⟨short, ?_⟩
        split
        · exact ⟨_, rfl⟩
        · rw [List.isEmpty_iff.mp ends, List.append_nil, drainBuffer,
            Frames.drain_none handleFrame terminator_ne_nil unended]
          exact ⟨_, rfl⟩
      · rw [if_neg ends, ← List.append_assoc] at begins ⊢
        rw [if_neg (by simp [ends])]
        cases found : Frames.find terminator (buffer ++ bytes) with
        | none =>
          have differs : buffer ++ bytes ≠ text := by
            intro same
            have whole := isFrame.find long []
            rw [List.append_nil, ← same, found] at whole
            cases whole
          rw [drainBuffer, Frames.drain_none handleFrame terminator_ne_nil found]
          dsimp only
          rw [if_neg ends]
          exact ih begins found differs
        | some pos =>
          have same := eq_of_begins isFrame long ((List.prefix_append _ _).trans begins) found
          have nothing : arrived reads = [] := by
            have length := begins.length_le
            rw [same, List.length_append] at length
            exact List.length_eq_zero_iff.mp (by omega)
          rw [nothing, List.append_nil, same]
          refine .inl ⟨rfl, ?_⟩
          have drained : drainBuffer (x, text) = .inl ({ x with frames := x.frames ++ [text] },
              parseResponse text) := by
            have one : Frames.drain handleFrame terminator_ne_nil (x, [text].flatten) = _ :=
              Frames.drain_frames terminator_ne_nil
                (List.forall_mem_singleton.mpr ⟨isFrame, long⟩) x
            rw [List.flatten_cons, List.flatten_nil, List.append_nil, Frames.receiveFrames,
              handleFrame] at one
            rw [drainBuffer, one]
            cases parsed : parseResponse text with
            | error errorMsg => rfl
            | ok chunk =>
              dsimp only
              rw [if_neg (final chunk parsed)]
          rw [drained]

/-- Without a byte the client has an error. -/
theorem receive_nothing {reads : List ReadResult} (nothing : arrived reads = []) (x : Client) :
    ∃ errorMsg, (receive (x, []) reads).2 = .error errorMsg := by
  induction reads with
  | nil => exact ⟨_, rfl⟩
  | cons read reads ih =>
    cases read with
    | interrupted => exact ih nothing
    | failed error => exact ⟨_, rfl⟩
    | data bytes =>
      have ends : bytes.isEmpty = true := by
        rw [arrived] at nothing
        split at nothing
        · assumption
        · rw [List.isEmpty_iff]
          exact (List.append_eq_nil_iff.mp nothing).1
      rw [receive, if_pos (by simp [ends])]
      exact ⟨_, rfl⟩

/-! ### What arrives at the server -/

theorem serializeRequest_isFrame {req : Request} (h : WellFormed req) :
    Frames.IsFrame terminator (serializeRequest req) := by
  refine serializeHeaders_isFrame (fun empty => ?_)
    fun header mem => (requestHeaders_keys h mem).1
  have type : (⟨str "type", typeToString req.type⟩ : Header) ∈ requestHeaders req :=
    List.mem_append_left _ (Assoc.mem_slotEntries.mpr ⟨List.mem_cons_self,
      typeToString_ne_nil req.type⟩)
  rw [empty] at type
  cases type

theorem terminator_le_serializeRequest (req : Request) :
    terminator.length ≤ (serializeRequest req).length := by
  have type : (⟨str "type", typeToString req.type⟩ : Header) ∈ requestHeaders req :=
    List.mem_append_left _ (Assoc.mem_slotEntries.mpr ⟨List.mem_cons_self,
      typeToString_ne_nil req.type⟩)
  obtain ⟨header, headers, cons⟩ := List.exists_cons_of_ne_nil (List.ne_nil_of_mem type)
  rw [serializeRequest, cons]
  simp [serializeHeaders, unlines, terminator, str]
  omega

/-- **A request is handled as it is read back**, if it is handled. -/
theorem handleClient_dispatched {req req' : Request} (h : WellFormed req) {reads : List ReadResult}
    (begins : arrived reads <+: serializeRequest req) (waits : closes reads = false)
    (dispatched : handleClient reads = .dispatched req') : Reaches req req' := by
  unfold handleClient at dispatched
  split at dispatched
  · split at dispatched <;> cases dispatched
  · rename_i text read
    obtain ⟨small, begins', ended⟩ := readRequestFrame_ok (Nat.zero_le _) read
    rw [waits] at ended
    obtain ⟨pos, found⟩ := Option.isSome_iff_exists.mp
      (ended.resolve_right fun both => Bool.false_ne_true both.1)
    obtain rfl := eq_of_begins (serializeRequest_isFrame h) (terminator_le_serializeRequest req)
      (begins'.trans begins) found
    split at dispatched
    · cases dispatched
    · rename_i parsed
      cases dispatched
      exact ⟨parsed, small⟩

theorem handleClient_refused {reads : List ReadResult} {message : ByteString}
    (refused : handleClient reads = .refused message) :
    ∃ parseErr, message = str "Bad request: " ++ parseErr := by
  unfold handleClient at refused
  split at refused
  · split at refused
    · cases refused
      exact ⟨str "request too large", rfl⟩
    · cases refused
  · split at refused
    · cases refused
      exact ⟨_, rfl⟩
    · cases refused

/-- All of a request that is not too large is read. -/
theorem readRequestFrame_whole {text : ByteString} (isFrame : Frames.IsFrame terminator text)
    (long : terminator.length ≤ text.length) (small : text.length ≤ kMaxRequestBytes)
    {reads : List ReadResult} {buffer : ByteString} (whole : buffer ++ arrived reads = text)
    (unended : Frames.find terminator buffer = none) : readRequestFrame buffer reads = .ok text := by
  have ended : Frames.find terminator text = some (text.length - terminator.length) := by
    have found := isFrame.find long []
    rwa [List.append_nil] at found
  have short : buffer ≠ text := by
    rintro rfl
    rw [unended] at ended
    cases ended
  induction reads generalizing buffer with
  | nil => exact absurd ((List.append_nil buffer).symm.trans whole) short
  | cons read reads ih =>
    cases read with
    | interrupted => exact ih whole unended short
    | failed error => exact absurd ((List.append_nil buffer).symm.trans whole) short
    | data bytes =>
      rw [arrived] at whole
      rw [readRequestFrame]
      by_cases ends : bytes.isEmpty = true
      · rw [if_pos ends, List.append_nil] at whole
        exact absurd whole short
      · rw [if_neg ends, ← List.append_assoc] at whole
        have fits : ¬ buffer.length + bytes.length > kMaxRequestBytes := by
          rw [← whole, List.length_append, List.length_append] at small
          omega
        rw [if_neg ends, if_neg fits, contains_terminator]
        cases found : Frames.find terminator (buffer ++ bytes) with
        | none =>
          have differs : buffer ++ bytes ≠ text := by
            rintro rfl
            rw [ended] at found
            cases found
          exact ih whole found differs
        | some pos =>
          have begins : buffer ++ bytes <+: text := whole ▸ List.prefix_append _ _
          rw [eq_of_begins isFrame long begins found]
          rfl

/-! ### The exchange -/

section Exchanges

variable {σ : Type} {dispatch : Request → σ → Response × σ} {k : Connection} {req : Request}
  {s : σ}

/-- A response that begins to arrive is had, or an error. -/
theorem receive_cut {resp : Response} (plain : resp.Plain) (cut : Cut) :
    (∃ errorMsg, (receive ({}, []) (cut.reads (serializeResponse resp))).2 = .error errorMsg) ∨
      (receive ({}, []) (cut.reads (serializeResponse resp))).2 =
        parseResponse (serializeResponse resp) := by
  obtain ⟨out, parsed, as⟩ := readResponse_serialized plain
  have final : ∀ chunk, parseResponse (serializeResponse resp) = .ok chunk →
      chunk.status ≠ .Progress := by
    intro chunk read
    obtain rfl : out = chunk := Except.ok.inj (parsed.symm.trans read)
    exact as.final
  have begins : [] ++ arrived (cut.reads (serializeResponse resp)) <+: serializeResponse resp :=
    cut.begins _
  rcases receive_begins (serializeResponse_isFrame plain.keysFit)
      (terminator_le_serializeResponse resp) final (x := {}) begins (by decide) with
    ⟨-, all⟩ | ⟨-, error⟩
  · exact .inr all
  · exact .inl error

theorem badRequest_plain (message : ByteString) : ({ message } : Response).Plain :=
  ⟨rfl, List.forall_mem_nil _⟩

/-- **A request is handled as it is read back or not at all**, and the client has the response as
it is read back or an error. -/
theorem exchanged (h : WellFormed req)
    (plain : ∀ req', Reaches req req' → (dispatch req' s).1.Plain) :
    Exchanged dispatch req s (sendRequest dispatch k req s).1 (sendRequest dispatch k req s).2 := by
  unfold sendRequest
  split
  · exact .unhandled _
  · dsimp only
    unfold serve
    split
    · have nothing : arrived (k.response.reads []) = [] :=
        List.prefix_nil.mp (k.response.begins [])
      obtain ⟨errorMsg, error⟩ := receive_nothing nothing {}
      rw [error]
      exact .unhandled errorMsg
    · rename_i message refused
      dsimp only
      rcases receive_cut (badRequest_plain message) k.response with ⟨errorMsg, error⟩ | all
      · rw [error]
        exact .unhandled errorMsg
      · obtain ⟨out, parsed, as⟩ := readResponse_serialized (badRequest_plain message)
        obtain ⟨parseErr, rfl⟩ := handleClient_refused refused
        rw [all, parsed]
        exact .refused as.success ⟨parseErr, as.message⟩
    · rename_i req' dispatched
      have reaches := handleClient_dispatched h (k.request.begins _) (k.waits _) dispatched
      dsimp only
      rcases receive_cut (plain req' reaches) k.response with ⟨errorMsg, error⟩ | all
      · rw [error]
        exact .lost reaches errorMsg
      · obtain ⟨out, read, -⟩ := readResponse_serialized (plain req' reaches)
        rw [all, read]
        exact .answered reaches read

/-- **Over a connection that does not fail** a request that is not too large is answered. -/
theorem sendRequest_whole (h : WellFormed req) (whole : k.Whole) {req' : Request}
    (reaches : Reaches req req') (plain : (dispatch req' s).1.Plain) :
    sendRequest dispatch k req s =
      (parseResponse (serializeResponse (dispatch req' s).1), (dispatch req' s).2) := by
  have arrives : [] ++ arrived (k.request.reads (serializeRequest req)) = serializeRequest req :=
    whole.request _
  have read := readRequestFrame_whole (serializeRequest_isFrame h)
    (terminator_le_serializeRequest req) reaches.2 arrives (by decide)
  have dispatched : handleClient (k.request.reads (serializeRequest req)) = .dispatched req' := by
    unfold handleClient
    rw [read]
    dsimp only
    rw [reaches.1]
  obtain ⟨out, parsed', as⟩ := readResponse_serialized plain
  have final : ∀ chunk, parseResponse (serializeResponse (dispatch req' s).1) = .ok chunk →
      chunk.status ≠ .Progress := by
    intro chunk read
    obtain rfl : out = chunk := Except.ok.inj (parsed'.symm.trans read)
    exact as.final
  have begins : [] ++ arrived (k.response.reads (serializeResponse (dispatch req' s).1)) <+:
      serializeResponse (dispatch req' s).1 := k.response.begins _
  have all := receive_begins (serializeResponse_isFrame plain.keysFit)
    (terminator_le_serializeResponse _) final (x := {}) begins (by decide)
  unfold sendRequest
  rw [whole.connects]
  dsimp only
  unfold serve
  rw [dispatched]
  dsimp only
  exact Prod.ext (all.resolve_right fun other => other.1 (whole.response _)).2 rfl

end Exchanges

end Apm.Ipc
