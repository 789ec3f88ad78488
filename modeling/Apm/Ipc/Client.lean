import Apm.Ipc.Protocol
import Apm.Lib.Frames

/-!
Responses, and the receive loop of the client: `parseResponse` and `serializeResponse` of
`src/apmd/protocol.cpp`, and the reading part of `sendRequest` in `src/apm/ipc_client.cpp`.

## Main results

* `client_receives_iff`: however a stream of responses is cut into reads, the client cuts out
  exactly the serialized responses, provided no progress response reads as another one
  through a raw field named `status` or one with a blank name;
* `statusField_endsEarly`: a raw field `status` ends the client's loop early.
-/

namespace Apm.Ipc

open Apm.Repo (Fields getField)
open Apm.Lib Apm.Lib.Text

/-! ### Responses -/

inductive ResponseStatus where
  | Unknown | Ok | Error | Progress
deriving DecidableEq

structure Response where
  status : ResponseStatus := .Unknown
  success : Bool := false
  message : ByteString := []
  id : ByteString := []
  rawFields : Fields := ∅

def statusStr (resp : Response) : ByteString :=
  match resp.status with
  | .Ok => str "ok"
  | .Error => str "error"
  | .Progress => str "progress"
  | .Unknown => str (if resp.success then "ok" else "error")

/-- The fields with keys of their own. Empty ones are left out; the status never is. -/
def responseSlots (resp : Response) : List (ByteString × ByteString) :=
  [(str "status", statusStr resp), (str "id", resp.id), (str "message", resp.message)]

def responseHeaders (resp : Response) : List Header :=
  Assoc.slotEntries (responseSlots resp) ++ resp.rawFields.entries

def serializeResponse (resp : Response) : ByteString := serializeHeaders (responseHeaders resp)

/-- The response of a status. -/
def readStatus (fields : Fields) : Option Response :=
  let status := getField fields "status"
  if status == str "ok" then some { status := .Ok, success := true }
  else if status == str "error" then some { status := .Error }
  else if status == str "progress" then some { status := .Progress }
  else none

def readResponse (fields : Fields) : Except ByteString Response :=
  match readStatus fields with
  | none => .error (str "Unknown status in response")
  | some out => .ok { out with
      id := getField fields "id"
      message := getField fields "message"
      rawFields :=
        ((fields.erase (str "status")).erase (str "id")).erase (str "message") }

/-- `parseResponse`. A text without fields is rejected without a message. -/
def parseResponse (raw : ByteString) : Except ByteString Response := do
  let fields ← parseKeyValueLines raw
  if fields.entries.isEmpty then throw [] else readResponse fields

/-! ### The client -/

/-- What a `read` on the connection gives: bytes, none at its end, an interrupt, or an
error with its text. -/
inductive ReadResult where
  | data (bytes : ByteString)
  | interrupted
  | failed (text : ByteString)

/-- The frames that were cut out, and the progress that was handed on. -/
structure Client where
  frames : List ByteString := []
  progress : List Response := []

def terminator : ByteString := str "\n\n"

theorem terminator_ne_nil : terminator ≠ [] := by decide

/-- A frame of the buffer: the loop goes on, or it has the final response or an error. -/
def handleFrame (x : Client) (frame : ByteString) :
    Client ⊕ (Client × Except ByteString Response) :=
  let x := { x with frames := x.frames ++ [frame] }
  match parseResponse frame with
  | .error errorMsg => .inr (x, .error errorMsg)
  | .ok chunk =>
      if chunk.status = .Progress then .inl { x with progress := x.progress ++ [chunk] }
      else .inr (x, .ok chunk)

/-- The inner loop: the frames that are complete. -/
def drainBuffer (x : Client × ByteString) :
    (Client × Except ByteString Response) ⊕ (Client × ByteString) :=
  Frames.drain handleFrame terminator_ne_nil x

def closedMsg : ByteString := str "Connection closed before receiving final response"

/-- The outer loop of `sendRequest`, over the reads; the connection ends behind the last. -/
def receive : Client × ByteString → List ReadResult → Client × Except ByteString Response
  | (x, _), [] => (x, .error closedMsg)
  | x, .interrupted :: reads => receive x reads
  | (x, _), .failed text :: _ => (x, .error (str "read() failed: " ++ text))
  | (x, buffer), .data bytes :: reads =>
      if bytes.isEmpty && buffer.isEmpty then (x, .error closedMsg)
      else
        match drainBuffer (x, buffer ++ bytes) with
        | .inl result => result
        | .inr x => if bytes.isEmpty then (x.1, .error closedMsg) else receive x reads

/-! ### Serialized responses are frames -/

/-- The keys of the raw fields are nonempty and fit in a line. -/
def KeysFit (resp : Response) : Prop :=
  ∀ kv ∈ resp.rawFields.entries, kv.1 ≠ [] ∧ KeyFits kv.1

/-- The names of the slots fit in a line, and only one is read as the status. -/
theorem responseSlots_key {key : ByteString}
    (h : key ∈ [str "status", str "id", str "message"]) :
    KeyFits key ∧ trim key ≠ [] ∧ (trim key = str "status" → key = str "status") := by
  simp only [List.mem_cons, List.not_mem_nil, or_false] at h
  rcases h with rfl | rfl | rfl <;> exact ⟨⟨by decide, by decide, by decide⟩, by decide, by decide⟩

theorem mem_responseSlots_key {resp : Response} {header : Header}
    (h : header ∈ Assoc.slotEntries (responseSlots resp)) :
    KeyFits header.1 ∧ trim header.1 ≠ [] ∧
      (trim header.1 = str "status" → header.2 = statusStr resp) := by
  obtain ⟨slot, -⟩ := Assoc.mem_slotEntries.mp h
  have key : header.1 ∈ (responseSlots resp).map Prod.fst := List.mem_map.mpr ⟨_, slot, rfl⟩
  obtain ⟨fits, named, status⟩ := responseSlots_key key
  refine ⟨fits, named, fun read => ?_⟩
  have nodup : ((responseSlots resp).map Prod.fst).Nodup :=
    (by decide : [str "status", str "id", str "message"].Nodup)
  have same : ((header.1, header.2) : ByteString × ByteString) = (str "status", statusStr resp) :=
    List.inj_on_of_nodup_map nodup slot List.mem_cons_self (status read)
  exact congrArg Prod.snd same

theorem statusStr_nonempty (resp : Response) : statusStr resp ≠ [] := by
  unfold statusStr
  cases resp.status with
  | Unknown => cases resp.success <;> decide
  | _ => exact List.cons_ne_nil _ _

theorem statusHeader_mem (resp : Response) :
    (⟨str "status", statusStr resp⟩ : Header) ∈ Assoc.slotEntries (responseSlots resp) :=
  Assoc.mem_slotEntries.mpr ⟨List.mem_cons_self, statusStr_nonempty resp⟩

theorem responseHeaders_fit {resp : Response} (h : KeysFit resp) :
    ∀ header ∈ responseHeaders resp, KeyFits header.1 := by
  intro header mem
  rcases List.mem_append.mp mem with own | raw
  · exact (mem_responseSlots_key own).1
  · exact (h header raw).2

/-- **The blank line of headers is at their end** and nowhere else. -/
theorem serializeHeaders_isFrame {headers : List Header} (nonempty : headers ≠ [])
    (h : ∀ header ∈ headers, KeyFits header.1) :
    Frames.IsFrame terminator (serializeHeaders headers) := by
  apply Frames.isFrame_unlines
  · simpa using nonempty
  · intro l mem
    obtain ⟨header, inside, rfl⟩ := List.mem_map.mp mem
    exact ⟨by simp [headerLine, str], headerLine_noNewline (h header inside)⟩

theorem serializeResponse_isFrame {resp : Response} (h : KeysFit resp) :
    Frames.IsFrame terminator (serializeResponse resp) :=
  serializeHeaders_isFrame
    (List.ne_nil_of_mem (List.mem_append_left _ (statusHeader_mem resp))) (responseHeaders_fit h)

theorem terminator_le_serializeResponse (resp : Response) :
    terminator.length ≤ (serializeResponse resp).length := by
  obtain ⟨header, headers, cons⟩ := List.exists_cons_of_ne_nil
    (List.ne_nil_of_mem (List.mem_append_left resp.rawFields.entries (statusHeader_mem resp)))
  rw [serializeResponse, responseHeaders, cons]
  simp [serializeHeaders, unlines, terminator, str]
  omega

/-! ### Reading a response back -/

/-- A header with a blank key spoils the text. -/
theorem parseLines_blankKey {headers : List Header} (h : ∀ header ∈ headers, KeyFits header.1)
    (blank : ∃ header ∈ headers, trim header.1 = []) (rest : List ByteString)
    (fields : Fields) :
    ∃ errorMsg, parseLines (headers.map headerLine ++ rest) fields = .error errorMsg := by
  induction headers generalizing fields with
  | nil => simp at blank
  | cons header headers ih =>
    obtain ⟨fits, othersFit⟩ := List.forall_mem_cons.mp h
    rw [List.map_cons, List.cons_append, parseLines_header fits]
    by_cases here : trim header.1 = []
    · rw [if_pos (by simpa using here)]
      exact ⟨_, rfl⟩
    · rw [if_neg (by simpa using here)]
      apply ih othersFit
      simpa [here] using blank

/-- The last header of a key counts. -/
theorem lookup_foldl_lastHeader (headers : List Header) (key : ByteString) :
    (headers.foldl readHeader ∅).lookup key =
      (headers.reverse.find? fun header => trim header.1 == key).map fun header =>
        readBack header.2 := by
  induction headers using List.reverseRecOn with
  | nil => rfl
  | append_singleton headers header ih =>
    rw [List.foldl_append, List.reverse_append, List.foldl_cons, List.foldl_nil, readHeader,
      List.reverse_singleton, List.singleton_append, List.find?_cons]
    by_cases same : trim header.1 = key
    · subst same
      rw [AList.lookup_insert, beq_self_eq_true]
      rfl
    · rw [AList.lookup_insert_ne (Ne.symm same), beq_eq_false_iff_ne.mpr same, ih]

/-- The raw field that is read as the status, if there is one. -/
def statusField (resp : Response) : Option ByteString :=
  (resp.rawFields.entries.reverse.find? fun kv => trim kv.1 == str "status").map (·.2)

/-- No raw field has a blank name, and one that is read as the status says `progress`. -/
structure StatusKept (resp : Response) : Prop where
  named : ∀ kv ∈ resp.rawFields.entries, trim kv.1 ≠ []
  status : ∀ value ∈ statusField resp, readBack value = str "progress"

theorem getField_status {resp : Response} (progress : resp.status = .Progress) :
    getField ((responseHeaders resp).foldl readHeader ∅) "status" =
      ((statusField resp).map readBack).getD (str "progress") := by
  rw [getField, lookup_foldl_lastHeader, responseHeaders, List.reverse_append, List.find?_append]
  unfold statusField
  cases resp.rawFields.entries.reverse.find? fun kv => trim kv.1 == str "status" with
  | some kv => rfl
  | none =>
    have found : ((Assoc.slotEntries (responseSlots resp)).reverse.find? fun header =>
        trim header.1 == str "status").isSome :=
      List.find?_isSome.mpr ⟨_, List.mem_reverse.mpr (statusHeader_mem resp),
        (by decide : (trim (str "status") == str "status") = true)⟩
    obtain ⟨header, last⟩ := Option.isSome_iff_exists.mp found
    have mem := List.mem_reverse.mp (List.mem_of_find?_eq_some last)
    have named : trim header.1 = str "status" := by simpa using List.find?_some last
    have value := (mem_responseSlots_key mem).2.2 named
    rw [Option.none_or, last, Option.map_some, Option.getD_some, value]
    simp only [statusStr, progress]
    decide

/-- The client reads the frame as a progress response. -/
def ReadsAsProgress (frame : ByteString) : Prop :=
  ∃ chunk, parseResponse frame = .ok chunk ∧ chunk.status = .Progress

theorem responseHeaders_named {resp : Response}
    (named : ∀ kv ∈ resp.rawFields.entries, trim kv.1 ≠ []) :
    ∀ header ∈ responseHeaders resp, trim header.1 ≠ [] := by
  intro header mem
  rcases List.mem_append.mp mem with own | raw
  · exact (mem_responseSlots_key own).2.1
  · exact named header raw

theorem readStatus_progress_iff (fields : Fields) :
    (∃ out, readStatus fields = some out ∧ out.status = .Progress) ↔
      getField fields "status" = str "progress" := by
  unfold readStatus
  constructor
  · rintro ⟨out, read, progress⟩
    dsimp only at read
    split at read
    · cases read
      cases progress
    split at read
    · cases read
      cases progress
    split at read
    · rename_i same
      exact beq_iff_eq.mp same
    · cases read
  · intro status
    rw [status]
    exact ⟨_, rfl, rfl⟩

theorem parseFields_progress_iff (fields : Fields) :
    (∃ chunk, (do if fields.entries.isEmpty then throw [] else readResponse fields :
        Except ByteString Response) = .ok chunk ∧ chunk.status = .Progress) ↔
      ∃ out, readStatus fields = some out ∧ out.status = .Progress := by
  by_cases empty : fields.entries = []
  · have noStatus : readStatus fields = none := by
      rw [readStatus, getField, AList.lookup, empty]
      decide
    simp [empty, noStatus]
  · rw [if_neg (by simpa using empty), readResponse]
    cases readStatus fields with
    | none => simp
    | some out => simp

/-- **A progress response is read as one** exactly when its raw fields keep its status. -/
theorem readsAsProgress_iff {resp : Response} (h : KeysFit resp)
    (progress : resp.status = .Progress) :
    ReadsAsProgress (serializeResponse resp) ↔ StatusKept resp := by
  have fits := responseHeaders_fit h
  by_cases named : ∀ kv ∈ resp.rawFields.entries, trim kv.1 ≠ []
  · have parsed : parseKeyValueLines (serializeResponse resp) =
        .ok ((responseHeaders resp).foldl readHeader ∅) :=
      parseKeyValueLines_headers fits (responseHeaders_named named)
    have status := getField_status progress
    generalize (responseHeaders resp).foldl readHeader ∅ = fields at parsed status
    have asStatus : ReadsAsProgress (serializeResponse resp) ↔
        getField fields "status" = str "progress" := by
      rw [← readStatus_progress_iff]
      unfold ReadsAsProgress parseResponse
      rw [parsed]
      exact parseFields_progress_iff fields
    rw [asStatus, status]
    constructor
    · intro same
      refine ⟨named, fun value given => ?_⟩
      rw [Option.mem_def.mp given] at same
      exact same
    · intro kept
      cases given : statusField resp with
      | none => rfl
      | some value => exact kept.status value given
  · constructor
    · rintro ⟨chunk, read, -⟩
      have blank : ∃ header ∈ responseHeaders resp, trim header.1 = [] := by
        push Not at named
        obtain ⟨kv, mem, blank⟩ := named
        exact ⟨kv, List.mem_append_right _ mem, blank⟩
      obtain ⟨errorMsg, failed⟩ := parseLines_blankKey fits blank [[]] ∅
      have : parseKeyValueLines (serializeResponse resp) = .error errorMsg := by
        rw [parseKeyValueLines, serializeResponse, getlines_serializeHeaders fits, failed]
      rw [parseResponse, this] at read
      cases read
    · intro kept
      exact absurd kept.named named

/-! ### No value adds a field -/

/-- Every field that is read from the response is one of its headers. -/
def OwnFields (resp : Response) : Prop :=
  ∀ fields, parseKeyValueLines (serializeResponse resp) = .ok fields →
    ∀ key value, fields.lookup key = some value →
      ∃ header ∈ responseHeaders resp, key = trim header.1 ∧ value = readBack header.2

theorem ownFields {resp : Response} (h : KeysFit resp) : OwnFields resp := by
  intro fields parsed key value found
  have fits := responseHeaders_fit h
  by_cases named : ∀ header ∈ responseHeaders resp, trim header.1 ≠ []
  · have parsed' := parseKeyValueLines_headers fits named
    obtain rfl : _ = fields := Except.ok.inj (parsed'.symm.trans parsed)
    rw [lookup_foldl_lastHeader] at found
    obtain ⟨header, last, rfl⟩ := Option.map_eq_some_iff.mp found
    have := List.find?_some last
    exact ⟨header, List.mem_reverse.mp (List.mem_of_find?_eq_some last),
      (beq_iff_eq.mp this).symm, rfl⟩
  · push Not at named
    obtain ⟨errorMsg, failed⟩ := parseLines_blankKey fits named [[]] ∅
    rw [parseKeyValueLines, serializeResponse, getlines_serializeHeaders fits, failed] at parsed
    cases parsed

/-! ### Receiving -/

/-- A read that brings bytes, or is interrupted. -/
def ReadResult.Brings : ReadResult → Prop
  | .data bytes => bytes ≠ []
  | .interrupted => True
  | .failed _ => False

def ReadResult.bytes : ReadResult → ByteString
  | .data bytes => bytes
  | _ => []

/-- **Reads do not matter**: the client drains the whole text. -/
theorem receive_eq_drain {reads : List ReadResult} (h : ∀ read ∈ reads, read.Brings)
    {x : Client × ByteString} (drained : Frames.find terminator x.2 = none) :
    receive x reads =
      match drainBuffer (x.1, x.2 ++ reads.flatMap ReadResult.bytes) with
      | .inl result => result
      | .inr x' => (x'.1, .error closedMsg) := by
  induction reads generalizing x with
  | nil =>
    rw [List.flatMap_nil, List.append_nil, drainBuffer, Frames.drain_none _ _ drained]
    rfl
  | cons read reads ih =>
    obtain ⟨brings, others⟩ := List.forall_mem_cons.mp h
    cases read with
    | interrupted => exact ih others drained
    | failed text => exact brings.elim
    | data bytes =>
      have nonempty : bytes.isEmpty = false := by simpa [ReadResult.Brings] using brings
      rw [List.flatMap_cons, ReadResult.bytes, ← List.append_assoc, drainBuffer,
        Frames.drain_append handleFrame terminator_ne_nil (x.1, x.2 ++ bytes), receive]
      simp only [nonempty, Bool.false_and, Bool.false_eq_true, if_false, drainBuffer]
      cases rest : Frames.drain handleFrame terminator_ne_nil (x.1, x.2 ++ bytes) with
      | inl result => rfl
      | inr x' => exact ih others (Frames.drain_rest _ _ rest)

/-- The client after some frames. -/
def clientAfter (r : (Client × Except ByteString Response) ⊕ Client) : Client :=
  match r with
  | .inl result => result.1
  | .inr x => x

theorem handleFrame_frames (x : Client) (frame : ByteString) :
    match handleFrame x frame with
    | .inl x' => x'.frames = x.frames ++ [frame] ∧ ReadsAsProgress frame
    | .inr r => r.1.frames = x.frames ++ [frame] ∧ ¬ ReadsAsProgress frame := by
  unfold handleFrame ReadsAsProgress
  cases parseResponse frame with
  | error errorMsg => simp
  | ok chunk => by_cases progress : chunk.status = .Progress <;> simp [progress]

/-- The frames before the last are all cut out when each one is read as progress. -/
theorem receiveFrames_frames (before : List ByteString) (last : ByteString) (x : Client) :
    (clientAfter (Frames.receiveFrames handleFrame (before ++ [last]) x)).frames =
        x.frames ++ (before ++ [last]) ↔ ∀ frame ∈ before, ReadsAsProgress frame := by
  induction before generalizing x with
  | nil =>
    have first := handleFrame_frames x last
    rw [List.nil_append, Frames.receiveFrames]
    cases handled : handleFrame x last with
    | inl x' =>
      rw [handled] at first
      simpa [clientAfter, Frames.receiveFrames] using first.1
    | inr r =>
      rw [handled] at first
      simpa [clientAfter] using first.1
  | cons frame before ih =>
    have first := handleFrame_frames x frame
    rw [List.cons_append, Frames.receiveFrames, List.forall_mem_cons]
    cases handled : handleFrame x frame with
    | inl x' =>
      rw [handled] at first
      simp only [first.2, true_and]
      rw [← ih x', first.1, List.append_assoc, List.singleton_append]
    | inr r =>
      rw [handled] at first
      simp only [first.2, false_and, iff_false, clientAfter]
      rw [first.1, List.append_cancel_left_eq]
      simp

/-- **The client cuts out the responses** as they were serialized, however they arrive, when
every progress response keeps its status; and the blank line of each is its end, and no value
adds a field to it. -/
theorem client_receives_iff (before : List Response) (last : Response)
    (progress : ∀ resp ∈ before, resp.status = .Progress)
    (keys : ∀ resp ∈ before ++ [last], KeysFit resp) (reads : List ReadResult)
    (brings : ∀ read ∈ reads, read.Brings)
    (text : reads.flatMap ReadResult.bytes =
      ((before ++ [last]).map serializeResponse).flatten) :
    ((receive ({}, []) reads).1.frames = (before ++ [last]).map serializeResponse ∧
      ∀ resp ∈ before ++ [last],
        Frames.IsFrame terminator (serializeResponse resp) ∧ OwnFields resp) ↔
      ∀ resp ∈ before, StatusKept resp := by
  have frames : ∀ frame ∈ (before ++ [last]).map serializeResponse,
      Frames.IsFrame terminator frame ∧ terminator.length ≤ frame.length := by
    intro frame mem
    obtain ⟨resp, inside, rfl⟩ := List.mem_map.mp mem
    exact ⟨serializeResponse_isFrame (keys resp inside), terminator_le_serializeResponse resp⟩
  have safe : ∀ resp ∈ before ++ [last],
      Frames.IsFrame terminator (serializeResponse resp) ∧ OwnFields resp :=
    fun resp mem => ⟨serializeResponse_isFrame (keys resp mem), ownFields (keys resp mem)⟩
  have received : (receive ({}, []) reads).1 = clientAfter
      (Frames.receiveFrames handleFrame ((before ++ [last]).map serializeResponse) {}) := by
    rw [receive_eq_drain brings (by decide), List.nil_append, text, drainBuffer,
      Frames.drain_frames terminator_ne_nil frames]
    cases Frames.receiveFrames handleFrame ((before ++ [last]).map serializeResponse) {} <;> rfl
  have cut := receiveFrames_frames (before.map serializeResponse) (serializeResponse last) {}
  have asProgress : (∀ frame ∈ before.map serializeResponse, ReadsAsProgress frame) ↔
      ∀ resp ∈ before, StatusKept resp := by
    rw [List.forall_mem_map]
    exact forall₂_congr fun resp mem =>
      readsAsProgress_iff (keys resp (List.mem_append_left _ mem)) (progress resp mem)
  rw [← asProgress, ← cut, received, List.map_append, List.map_singleton]
  constructor
  · exact fun h => h.1
  · exact fun h => ⟨h, safe⟩

/-! ### Two streams -/

/-- A progress response with one raw field. -/
def progressWith (key value : String) : Response where
  status := .Progress
  message := str "half\n\nstatus:ok"
  rawFields := AList.singleton (str key) (str value)

def doneResponse : Response where
  status := .Ok
  success := true

theorem progressWith_keysFit {key : String}
    (h : str key ≠ [] ∧ chr ':' ∉ str key ∧ chr '\n' ∉ str key ∧ chr '\r' ∉ str key)
    (value : String) : ∀ resp ∈ [progressWith key value] ++ [doneResponse], KeysFit resp := by
  intro resp mem
  rcases List.mem_cons.mp mem with rfl | mem
  · intro kv inside
    obtain rfl := List.mem_singleton.mp inside
    exact ⟨h.1, ⟨h.2.1, h.2.2.1, h.2.2.2⟩⟩
  · obtain rfl := List.mem_singleton.mp mem
    exact fun kv inside => (nomatch inside)

/-- The stream in two pieces, with an interrupt between them. -/
def twoReads (stream : ByteString) : List ReadResult :=
  [.data (stream.take 17), .interrupted, .data (stream.drop 17)]

def streamWith (key value : String) : ByteString :=
  (([progressWith key value] ++ [doneResponse]).map serializeResponse).flatten

theorem client_receives_iff_stage :
    (receive ({}, []) (twoReads (streamWith "stage" " x"))).1.frames =
        ([progressWith "stage" " x"] ++ [doneResponse]).map serializeResponse ∧
      ∀ resp ∈ [progressWith "stage" " x"] ++ [doneResponse],
        Frames.IsFrame terminator (serializeResponse resp) ∧ OwnFields resp := by
  refine (client_receives_iff [progressWith "stage" " x"] doneResponse (by simp [progressWith])
    (progressWith_keysFit (by decide) _) (twoReads (streamWith "stage" " x")) ?_
    (by decide +kernel)).mpr ?_
  · intro read mem
    simp only [twoReads, List.mem_cons, List.not_mem_nil, or_false] at mem
    rcases mem with rfl | rfl | rfl
    · exact (by decide +kernel : (streamWith "stage" " x").take 17 ≠ [])
    · trivial
    · exact (by decide +kernel : (streamWith "stage" " x").drop 17 ≠ [])
  · intro resp mem
    obtain rfl := List.mem_singleton.mp mem
    constructor
    · intro kv inside
      obtain rfl := List.mem_singleton.mp inside
      exact (by decide : trim (str "stage") ≠ [])
    · have : statusField (progressWith "stage" " x") = none := by decide
      simp [this]

/-- **A raw field `status` ends the loop early**: the response behind it is not cut out. -/
theorem statusField_endsEarly :
    (∀ resp ∈ [progressWith "status" "ok"] ++ [doneResponse], KeysFit resp) ∧
      (receive ({}, []) (twoReads (streamWith "status" "ok"))).1.frames ≠
        ([progressWith "status" "ok"] ++ [doneResponse]).map serializeResponse :=
  ⟨progressWith_keysFit (by decide) _, by decide +kernel⟩

end Apm.Ipc
