import Apm.Core.StanzaText
import Apm.Ipc.Client
import Apm.Ipc.Request

/-!
The reading part of the servers: `readRequestFrame` and the start of `handleClient` of
`src/apmd/ipc_server.cpp` and `src/amsd/ipc_server.cpp`, which are the same text.

## Main results

* `dispatched_framed_iff`: only complete frames are dispatched, and by their bytes alone,
  unless a client closes the connection behind a text that can be read as a request.
-/

namespace Apm.Ipc

open Apm.Lib Apm.Lib.Text
open Apm.Repo (getlines_unlines)

/-! ### Reading a request -/

def kMaxRequestBytes : Nat := 64 * 1024

structure ReadFailure where
  tooLarge : Bool := false
  message : ByteString

/-- `readRequestFrame`, over the reads; the deadline passes behind the last. -/
def readRequestFrame : ByteString → List ReadResult → Except ReadFailure ByteString
  | _, [] => .error { message := str "socket I/O timed out" }
  | buffer, .interrupted :: reads => readRequestFrame buffer reads
  | _, .failed text :: _ => .error { message := text }
  | buffer, .data bytes :: reads =>
      if bytes.isEmpty then .ok buffer
      else if buffer.length + bytes.length > kMaxRequestBytes then
        .error { tooLarge := true, message := str "request too large" }
      else if contains (buffer ++ bytes) terminator then .ok (buffer ++ bytes)
      else readRequestFrame (buffer ++ bytes) reads

/-- What becomes of a connection. -/
inductive Handled where
  | dispatched (req : Request)
  | refused (message : ByteString)
  | dropped

/-- `handleClient`, up to the dispatch. -/
def handleClient (reads : List ReadResult) : Handled :=
  match readRequestFrame [] reads with
  | .error failure =>
      if failure.tooLarge then .refused (str "Bad request: request too large") else .dropped
  | .ok buffer =>
      match parseRequest buffer with
      | .error parseErr => .refused (str "Bad request: " ++ parseErr)
      | .ok req => .dispatched req

/-! ### What arrives -/

/-- The bytes that arrive before the connection ends or fails. -/
def arrived : List ReadResult → ByteString
  | .interrupted :: reads => arrived reads
  | .data bytes :: reads => if bytes.isEmpty then [] else bytes ++ arrived reads
  | .failed _ :: _ | [] => []

/-- The client closes the connection, before it fails or the deadline passes. -/
def closes : List ReadResult → Bool
  | .interrupted :: reads => closes reads
  | .data bytes :: reads => bytes.isEmpty || closes reads
  | .failed _ :: _ | [] => false

/-- The text has a blank line, and begins with this frame, which ends with the first one. -/
def FirstFrame (text frame : ByteString) : Prop :=
  frame <+: text ∧ Frames.find terminator text = some (frame.length - terminator.length) ∧
    terminator.length ≤ frame.length

/-- The requests that are dispatched are complete frames within the limit, read by their
bytes alone. -/
def DispatchesFrames (reads : List ReadResult) : Prop :=
  ∀ req, handleClient reads = .dispatched req →
    ∃ frame, FirstFrame (arrived reads) frame ∧ frame.length ≤ kMaxRequestBytes ∧
      parseRequest frame = .ok req

/-- The client closes the connection before a blank line, behind a text that can be read as a
request. -/
def CutShort (reads : List ReadResult) : Prop :=
  closes reads = true ∧ Frames.find terminator (arrived reads) = none ∧
    (arrived reads).length ≤ kMaxRequestBytes ∧ ∃ req, parseRequest (arrived reads) = .ok req

theorem contains_terminator (text : ByteString) :
    contains text terminator = (Frames.find terminator text).isSome := by
  rw [Frames.find, List.findIdx?_isSome]
  rfl

/-- What is read is a first part of what arrives, within the limit: one with a blank line, or
everything up to the end of the connection. -/
theorem readRequestFrame_ok {buffer text : ByteString} {reads : List ReadResult}
    (small : buffer.length ≤ kMaxRequestBytes)
    (read : readRequestFrame buffer reads = .ok text) :
    text.length ≤ kMaxRequestBytes ∧ text <+: buffer ++ arrived reads ∧
      ((Frames.find terminator text).isSome ∨
        closes reads = true ∧ text = buffer ++ arrived reads) := by
  induction reads generalizing buffer with
  | nil => cases read
  | cons first reads ih =>
    cases first with
    | interrupted => exact ih small read
    | failed _ => cases read
    | data bytes =>
      rw [readRequestFrame] at read
      rw [arrived, closes]
      split at read
      · rename_i closed
        cases read
        rw [if_pos closed, List.append_nil]
        exact ⟨small, List.prefix_refl _, .inr ⟨by rw [closed]; rfl, rfl⟩⟩
      · rename_i bytesThere
        rw [if_neg bytesThere]
        split at read
        · cases read
        · rename_i fits
          have small : (buffer ++ bytes).length ≤ kMaxRequestBytes := by
            rw [List.length_append]
            omega
          split at read
          · rename_i complete
            cases read
            rw [contains_terminator] at complete
            refine ⟨small, ?_, .inl complete⟩
            rw [← List.append_assoc]
            exact List.prefix_append _ _
          · obtain ⟨limit, begins, which⟩ := ih small read
            rw [List.append_assoc] at begins which
            refine ⟨limit, begins, which.imp_right fun ⟨closed, all⟩ => ⟨?_, all⟩⟩
            rw [closed, Bool.or_true]

/-- Text without a blank line, within the limit, is read to the end of the connection. -/
theorem readRequestFrame_closed {buffer : ByteString} {reads : List ReadResult}
    (closed : closes reads = true)
    (unended : Frames.find terminator (buffer ++ arrived reads) = none)
    (small : (buffer ++ arrived reads).length ≤ kMaxRequestBytes) :
    readRequestFrame buffer reads = .ok (buffer ++ arrived reads) := by
  induction reads generalizing buffer with
  | nil => cases closed
  | cons first reads ih =>
    cases first with
    | interrupted => exact ih closed unended small
    | failed _ => cases closed
    | data bytes =>
      rw [arrived] at unended small ⊢
      rw [closes] at closed
      rw [readRequestFrame]
      by_cases ends : bytes.isEmpty
      · rw [if_pos ends, if_pos ends, List.append_nil]
      · rw [if_neg ends] at unended small ⊢
        rw [if_neg ends]
        rw [← List.append_assoc] at unended small ⊢
        have closed : closes reads = true := by simpa [ends] using closed
        have fits : ¬ buffer.length + bytes.length > kMaxRequestBytes := by
          rw [List.length_append, List.length_append] at small
          omega
        have incomplete : contains (buffer ++ bytes) terminator = false := by
          rw [contains_terminator]
          cases found : Frames.find terminator (buffer ++ bytes) with
          | none => rfl
          | some pos =>
            rw [Frames.find_append found] at unended
            cases unended
        rw [if_neg fits, incomplete]
        exact ih closed unended small


/-! ### A request by its frame -/

/-- Lines behind an empty one are not looked at. -/
theorem parseLines_blank (lines rest : List ByteString) (fields : Repo.Fields) :
    parseLines (lines ++ [] :: rest) fields = parseLines (lines ++ [[]]) fields := by
  induction lines generalizing fields with
  | nil => rfl
  | cons line lines ih =>
    rw [List.cons_append, List.cons_append, parseLines, parseLines]
    dsimp only
    simp only [ih]

/-- **A text is read by its first frame.** -/
theorem parseRequest_frame {text frame : ByteString} (first : FirstFrame text frame) :
    parseRequest text = parseRequest frame := by
  obtain ⟨⟨rest, rfl⟩, found, long⟩ := first
  obtain ⟨here, -, -⟩ := Frames.find_eq_some_iff.mp found
  obtain ⟨body, rfl⟩ : ∃ body, frame = body ++ terminator := by
    refine ⟨frame.take (frame.length - terminator.length), ?_⟩
    have ends : frame.drop (frame.length - terminator.length) = terminator := by
      apply List.IsPrefix.eq_of_length_le _ _ |>.symm
      · rw [List.drop_append_of_le_length (Nat.sub_le _ _)] at here
        exact List.prefix_of_prefix_length_le here (List.prefix_append _ _)
          (by rw [List.length_drop]; omega)
      · rw [List.length_drop]
        omega
    exact (List.take_append_drop _ frame).symm.trans (congrArg _ ends)
  obtain ⟨lines, last, rfl, clean, lastClean⟩ := exists_lines (chr '\n') body
  have lined : ∀ rest, unlines (chr '\n') lines ++ last ++ terminator ++ rest =
      unlines (chr '\n') (lines ++ [last] ++ [[]]) ++ rest := by
    intro rest
    simp [unlines, terminator, str, chr]
  have allClean : ∀ line ∈ lines ++ [last] ++ [[]], chr '\n' ∉ line := by
    intro line mem
    simp only [List.mem_append, List.mem_singleton] at mem
    rcases mem with (mem | rfl) | rfl
    · exact clean line mem
    · exact lastClean
    · exact List.not_mem_nil
  have fields : ∀ rest,
      parseKeyValueLines (unlines (chr '\n') lines ++ last ++ terminator ++ rest) =
        parseLines (lines ++ [last] ++ [[]]) ∅ := by
    intro rest
    rw [parseKeyValueLines, lined, getlines_unlines allClean, List.append_assoc _ [[]],
      List.singleton_append, parseLines_blank]
  have alone := fields []
  rw [List.append_nil] at alone
  rw [parseRequest, parseRequest, fields, alone]

/-- A text with a blank line has a first frame. -/
theorem exists_firstFrame {text : ByteString} (h : (Frames.find terminator text).isSome) :
    ∃ frame, FirstFrame text frame := by
  obtain ⟨pos, found⟩ := Option.isSome_iff_exists.mp h
  have room := Frames.find_length found
  have length : (text.take (pos + terminator.length)).length = pos + terminator.length := by
    rw [List.length_take]
    omega
  refine ⟨text.take (pos + terminator.length), List.take_prefix _ _, ?_, ?_⟩
  · rw [length, Nat.add_sub_cancel, found]
  · rw [length]
    exact Nat.le_add_left _ _

theorem FirstFrame.of_prefix {text more frame : ByteString} (h : FirstFrame text frame)
    (begins : text <+: more) : FirstFrame more frame := by
  obtain ⟨starts, found, long⟩ := h
  refine ⟨starts.trans begins, ?_, long⟩
  obtain ⟨rest, rfl⟩ := begins
  exact Frames.find_append found rest

/-- **Requests are complete frames.** A server dispatches only complete frames within the
limit, by their bytes alone, if and only if the client does not close the connection behind a
text without a blank line that can be read as a request. -/
theorem dispatched_framed_iff (reads : List ReadResult) :
    DispatchesFrames reads ↔ ¬ CutShort reads := by
  constructor
  · rintro frames ⟨closed, unended, small, req, parsed⟩
    have read : readRequestFrame [] reads = .ok ([] ++ arrived reads) :=
      readRequestFrame_closed closed unended small
    rw [List.nil_append] at read
    have dispatched : handleClient reads = .dispatched req := by
      rw [handleClient, read]
      dsimp only
      rw [parsed]
    obtain ⟨frame, ⟨starts, found, -⟩, -⟩ := frames req dispatched
    rw [unended] at found
    cases found
  · intro whole req dispatched
    rw [handleClient] at dispatched
    cases read : readRequestFrame [] reads with
    | error failure =>
      rw [read] at dispatched
      dsimp only at dispatched
      split at dispatched <;> cases dispatched
    | ok text =>
      rw [read] at dispatched
      dsimp only at dispatched
      cases parsed : parseRequest text with
      | error _ =>
        rw [parsed] at dispatched
        cases dispatched
      | ok req' =>
        rw [parsed] at dispatched
        cases dispatched
        obtain ⟨small, begins, which⟩ := readRequestFrame_ok (Nat.zero_le _) read
        rw [List.nil_append] at begins which
        cases complete : (Frames.find terminator text).isSome with
        | true =>
          obtain ⟨frame, first⟩ := exists_firstFrame complete
          refine ⟨frame, first.of_prefix begins, first.1.length_le.trans small, ?_⟩
          rw [← parseRequest_frame first]
          exact parsed
        | false =>
          obtain ⟨closed, rfl⟩ := which.resolve_left (by rw [complete]; exact Bool.false_ne_true)
          have unended := Option.isSome_eq_false_iff.mp complete
          exact absurd ⟨closed, Option.isNone_iff_eq_none.mp unended, small, req, parsed⟩ whole

/-- **A request is cut in a value**, and the package of another name removed. -/
theorem cutRequest_dispatched :
    (∃ req, handleClient [.data (str "type:REMOVE\nsession:t\npackage:lib"), .data []] =
        .dispatched req ∧ req.packageName = str "lib") ∧
      ¬ DispatchesFrames [.data (str "type:REMOVE\nsession:t\npackage:lib"), .data []] := by
  constructor
  · exact ⟨_, rfl, rfl⟩
  · intro frames
    obtain ⟨frame, ⟨-, found, -⟩, -⟩ := frames _ rfl
    have unended : Frames.find terminator
        (arrived [.data (str "type:REMOVE\nsession:t\npackage:lib"), .data []]) = none := by decide
    rw [unended] at found
    cases found

end Apm.Ipc
