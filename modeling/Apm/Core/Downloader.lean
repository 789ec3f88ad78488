import Apm.Lib.Run
import Apm.Util.Path
import Mathlib.Data.List.Nodup

/-!
Parallel downloads: `downloadFiles` of `src/core/downloader.cpp`.

How the start of each transfer goes is arbitrary, and so is what the multi interface reports in
each turn of the loop. A transfer is known by the index of its request, which it carries. The
files, the progress that is shown and the log are left out.

## Main results

* `downloadFiles_complete`: whatever the order of the reports, each request is started once, the
  limit is kept, the loop ends, and the results are those of the requests, each at its index.
-/

namespace Apm.Net

open Apm.Fs

structure DownloadRequest where
  url : ByteString
  destination : ByteString
deriving DecidableEq

structure DownloadResult where
  url : ByteString := []
  destination : ByteString := []
  success : Bool := false
  errorMsg : ByteString := []
deriving DecidableEq

/-- What the start of a transfer meets. An error is given by its text. -/
structure Setup where
  createDirs : Bool := true
  fopen : Option ByteString := none
  easyInit : Bool := true
  addHandle : Option ByteString := none

/-- The libraries, by the index of a request. -/
structure Curl where
  multiInit : Bool := true
  setup : Nat → Setup

/-- What `curl_multi_info_read` returns: a transfer that is done, with the text of its error if it
failed, or something that the loop passes over. -/
inductive Message where
  | done (requestIndex : Nat) (error : Option ByteString)
  | other
deriving DecidableEq

/-- The transfers that a list of messages reports as done. -/
def reported (messages : List Message) : List Nat :=
  messages.filterMap fun
    | .done requestIndex _ => some requestIndex
    | .other => none

/-- A call that matters for the transfers: `startTransfer`, and what adds a handle to the multi
interface and removes it. -/
inductive Call where
  | start (requestIndex : Nat)
  | add (requestIndex : Nat)
  | remove (requestIndex : Nat)
deriving DecidableEq

structure State where
  results : List DownloadResult
  active : List Nat := []
  allOk : Bool := true
  nextIndex : Nat := 0
  /-- What was called so far. -/
  calls : List Call := []

def prepareOutputFile (setup : Setup) (dest : ByteString) : Option ByteString :=
  if chr '/' ∈ dest && !setup.createDirs then
    some (str "Failed to create directory: " ++ parentOf dest)
  else
    setup.fopen.map fun error =>
      str "Failed to open destination '" ++ dest ++ str "': " ++ error

/-- Why a transfer is not started. -/
def startError (setup : Setup) (req : DownloadRequest) : Option ByteString :=
  if req.url.isEmpty || req.destination.isEmpty then some (str "URL or dest is empty")
  else
    match prepareOutputFile setup req.destination with
    | some error => some error
    | none =>
        if !setup.easyInit then some (str "curl_easy_init() failed")
        else setup.addHandle.map (str "curl_multi_add_handle() failed: " ++ ·)

variable (curl : Curl) (requests : List DownloadRequest) (maxParallel : Nat)

def startTransfer (s : State) (idx : Nat) : State :=
  match requests[idx]? with
  | none => s
  | some req =>
      let res : DownloadResult := { url := req.url, destination := req.destination }
      match startError (curl.setup idx) req with
      | some errorMsg =>
          { s with results := s.results.set idx { res with errorMsg }, allOk := false,
                   calls := s.calls ++ [.start idx] }
      | none =>
          { s with results := s.results.set idx res, active := s.active ++ [idx],
                   calls := s.calls ++ [.start idx, .add idx] }

def parallel : Nat := max 1 (min 3 maxParallel)

/-- The fuel is how many requests there are from `nextIndex` on. -/
def launch : Nat → State → State
  | 0, s => s
  | fuel + 1, s =>
      if s.nextIndex < requests.length && s.active.length < parallel maxParallel then
        launch fuel { startTransfer curl requests s s.nextIndex with nextIndex := s.nextIndex + 1 }
      else s

def launchAvailable (s : State) : State :=
  launch curl requests maxParallel (requests.length - s.nextIndex) s

def handleMessage (s : State) : Message → State
  | .other => s
  | .done idx error =>
      let s :=
        match error with
        | some text =>
            { s with results := s.results.modify idx fun res =>
                       { res with errorMsg := str "curl_easy_perform() failed: " ++ text },
                     allOk := false }
        | none =>
            { s with results := s.results.modify idx fun res =>
                       { res with success := true, errorMsg := [] } }
      { s with active := s.active.erase idx, calls := s.calls ++ [.remove idx] }

/-- One turn of the loop. -/
def turn (s : State) (messages : List Message) : State :=
  if s.active.isEmpty then s
  else launchAvailable curl requests maxParallel (messages.foldl handleMessage s)

/-- Before the turn of that number, or where the loop ended before. -/
def stateAt (schedule : Nat → List Message) : Nat → State
  | 0 => launchAvailable curl requests maxParallel
      { results := requests.map fun _ => {} }
  | k + 1 => turn curl requests maxParallel (stateAt schedule k) (schedule k)

/-- What the caller gets, and what was called. -/
structure Returned where
  allOk : Bool
  results : List DownloadResult
  errorMsg : Option ByteString := none
  calls : List Call := []

/-- `none` means that the loop has not ended after so many turns. -/
def downloadFiles (schedule : Nat → List Message) (turns : Nat) : Option Returned :=
  if requests.isEmpty then some { allOk := true, results := [] }
  else if !curl.multiInit then
    some { allOk := false, results := requests.map fun _ => {},
           errorMsg := some (str "curl_multi_init() failed") }
  else
    let s := stateAt curl requests maxParallel schedule turns
    if s.active.isEmpty then
      some { allOk := s.allOk, results := s.results, calls := s.calls,
             errorMsg := if s.allOk then none
               else (s.results.find? fun res => !res.success && !res.errorMsg.isEmpty).map
                 (·.errorMsg) }
    else none

/-! ### What is meant -/

/-- The transfers that are active after some calls. -/
def activeAfter (calls : List Call) : List Nat :=
  calls.foldl (fun active call =>
    match call with
    | .start _ => active
    | .add idx => active ++ [idx]
    | .remove idx => active.erase idx) []

/-- The requests that are started, in their order. -/
def startsOf (calls : List Call) : List Nat :=
  calls.filterMap fun
    | .start idx => some idx
    | _ => none

/-- At no time are more transfers active than the limit allows. -/
def Limited (limit : Nat) (calls : List Call) : Prop :=
  ∀ before, before <+: calls → (activeAfter before).length ≤ limit

def DownloadRequest.failed (req : DownloadRequest) (errorMsg : ByteString) : DownloadResult :=
  { url := req.url, destination := req.destination, errorMsg }

def DownloadRequest.succeeded (req : DownloadRequest) : DownloadResult :=
  { url := req.url, destination := req.destination, success := true }

/-- The result of a request, by what is reported about its transfer. -/
def DownloadRequest.finished (req : DownloadRequest) : Option ByteString → DownloadResult
  | some text => req.failed (str "curl_easy_perform() failed: " ++ text)
  | none => req.succeeded

/-- The result is that of the request: its start failed, or its transfer is reported as done. -/
def Settles (seen : List Message) (idx : Nat) (req : DownloadRequest) (res : DownloadResult) :
    Prop :=
  match startError (curl.setup idx) req with
  | some errorMsg => res = req.failed errorMsg
  | none => ∃ error, Message.done idx error ∈ seen ∧ res = req.finished error

/-- The messages of a turn are about active transfers, and about each at most once. -/
structure Reports (active : List Nat) (messages : List Message) : Prop where
  once : (reported messages).Nodup
  active : ∀ idx ∈ reported messages, idx ∈ active

/-- **What the multi interface promises**: each transfer that was added is reported as done once,
at some time. -/
structure Delivers (schedule : Nat → List Message) : Prop where
  reports : ∀ k, (stateAt curl requests maxParallel schedule k).active ≠ [] →
    Reports (stateAt curl requests maxParallel schedule k).active (schedule k)
  eventually : ∀ k, ∀ idx ∈ (stateAt curl requests maxParallel schedule k).active,
    ∃ j, k ≤ j ∧ idx ∈ reported (schedule j)

/-- The messages that are read before the turn of that number. -/
def seenAt (schedule : Nat → List Message) : Nat → List Message
  | 0 => []
  | k + 1 =>
      if (stateAt curl requests maxParallel schedule k).active.isEmpty then seenAt schedule k
      else seenAt schedule k ++ schedule k

/-- Each request is started once, and each result is that of the request at its index. -/
structure Complete (seen : List Message) (returned : Returned) : Prop where
  starts : startsOf returned.calls = List.range requests.length
  results : ∀ idx req, requests[idx]? = some req →
    ∃ res, returned.results[idx]? = some res ∧ Settles curl seen idx req res

/-! ### Calls -/

section Calls

variable {limit : Nat} {calls : List Call}

theorem activeAfter_append (calls : List Call) (call : Call) :
    activeAfter (calls ++ [call]) =
      match call with
      | .start _ => activeAfter calls
      | .add idx => activeAfter calls ++ [idx]
      | .remove idx => (activeAfter calls).erase idx := by
  rw [activeAfter, List.foldl_append]
  rfl

theorem startsOf_append (calls calls' : List Call) :
    startsOf (calls ++ calls') = startsOf calls ++ startsOf calls' := List.filterMap_append

theorem mem_activeAfter {idx : Nat} (mem : idx ∈ activeAfter calls) : .add idx ∈ calls := by
  induction calls using List.reverseRecOn with
  | nil => cases mem
  | append_singleton calls call ih =>
    rw [activeAfter_append] at mem
    rw [List.mem_append]
    cases call with
    | start _ => exact .inl (ih mem)
    | remove _ => exact .inl (ih (List.mem_of_mem_erase mem))
    | add other =>
      rcases List.mem_append.mp mem with mem | here
      · exact .inl (ih mem)
      · rw [List.mem_singleton.mp here]
        exact .inr List.mem_cons_self

/-- One more call keeps the limit if it does so at its time. -/
theorem Limited.append (h : Limited limit calls) {call : Call}
    (now : (activeAfter (calls ++ [call])).length ≤ limit) : Limited limit (calls ++ [call]) := by
  intro before part
  rcases List.prefix_concat_iff.mp part with rfl | part
  · exact now
  · exact h before part

theorem Limited.length_le (h : Limited limit calls) : (activeAfter calls).length ≤ limit :=
  h calls (List.prefix_refl calls)

end Calls

/-! ### One turn -/

/-- What holds between the turns, after the messages that were seen. -/
structure Inv (seen : List Message) (s : State) : Prop where
  size : s.results.length = requests.length
  next : s.nextIndex ≤ requests.length
  starts : startsOf s.calls = List.range s.nextIndex
  active : activeAfter s.calls = s.active
  limited : Limited (parallel maxParallel) s.calls
  nodup : s.active.Nodup
  waiting : ∀ idx ∈ s.active, idx < s.nextIndex ∧ ∃ req, requests[idx]? = some req ∧
    startError (curl.setup idx) req = none ∧
    s.results[idx]? = some { url := req.url, destination := req.destination }
  settled : ∀ idx req, requests[idx]? = some req → idx < s.nextIndex → idx ∉ s.active →
    ∃ res, s.results[idx]? = some res ∧ Settles curl seen idx req res
  ok : s.allOk = true ↔ ∀ idx < s.nextIndex, idx ∉ s.active →
    ∀ res, s.results[idx]? = some res → res.success = true
  seen : ∀ idx ∈ reported seen, idx < s.nextIndex ∧ idx ∉ s.active
  added : ∀ idx, .add idx ∈ s.calls → idx < s.nextIndex ∧
    ∀ req, requests[idx]? = some req → startError (curl.setup idx) req = none

section Turn

variable {curl requests maxParallel} {seen : List Message} {s : State}

theorem reported_append (messages messages' : List Message) :
    reported (messages ++ messages') = reported messages ++ reported messages' :=
  List.filterMap_append

theorem Settles.mono {seen' : List Message} (sub : seen ⊆ seen') {idx : Nat}
    {req : DownloadRequest} {res : DownloadResult} (h : Settles curl seen idx req res) :
    Settles curl seen' idx req res := by
  unfold Settles at h ⊢
  split
  · rename_i errorMsg refused
    rwa [refused] at h
  · rename_i started
    rw [started] at h
    obtain ⟨error, mem, eq⟩ := h
    exact ⟨error, sub mem, eq⟩

/-- A request that is started leaves the results before it. -/
theorem getElem?_set_before {results : List DownloadResult} {idx next : Nat} (less : idx < next)
    (res : DownloadResult) : (results.set next res)[idx]? = results[idx]? :=
  List.getElem?_set_ne (Nat.ne_of_gt less)

/-- The state after the next request is started. -/
theorem inv_start (h : Inv curl requests maxParallel seen s) (more : s.nextIndex < requests.length)
    (room : s.active.length < parallel maxParallel) :
    Inv curl requests maxParallel seen
      { startTransfer curl requests s s.nextIndex with nextIndex := s.nextIndex + 1 } := by
  obtain ⟨req, found⟩ : ∃ req, requests[s.nextIndex]? = some req :=
    ⟨_, List.getElem?_eq_getElem more⟩
  have fresh : s.nextIndex ∉ s.active := fun mem => Nat.lt_irrefl _ (h.waiting _ mem).1
  have inside : s.nextIndex < s.results.length := h.size ▸ more
  have limitedStart : Limited (parallel maxParallel) (s.calls ++ [.start s.nextIndex]) := by
    apply h.limited.append
    rw [activeAfter_append]
    exact h.limited.length_le
  have waiting : ∀ res, ∀ idx ∈ s.active, idx < s.nextIndex + 1 ∧ ∃ req,
      requests[idx]? = some req ∧ startError (curl.setup idx) req = none ∧
      (s.results.set s.nextIndex res)[idx]? =
        some { url := req.url, destination := req.destination } := by
    intro res idx mem
    obtain ⟨less, req, found, started, waiting⟩ := h.waiting idx mem
    refine ⟨Nat.lt_succ_of_lt less, req, found, started, ?_⟩
    rw [getElem?_set_before less]
    exact waiting
  unfold startTransfer
  rw [found]
  dsimp only
  cases refused : startError (curl.setup s.nextIndex) req with
  | some errorMsg =>
    dsimp only
    refine ⟨by simpa using h.size, more, ?_, ?_, limitedStart, h.nodup, waiting _, ?_, ?_, ?_, ?_⟩
    · change startsOf (s.calls ++ [_]) = List.range (s.nextIndex + 1)
      rw [startsOf_append, h.starts, List.range_succ]
      rfl
    · change activeAfter (s.calls ++ [_]) = s.active
      rw [activeAfter_append]
      exact h.active
    · intro idx req' found' less idle
      rcases Nat.lt_succ_iff_lt_or_eq.mp less with less | rfl
      · dsimp only
        rw [getElem?_set_before less]
        exact h.settled idx req' found' less idle
      · rw [found] at found'
        obtain rfl := Option.some.inj found'
        refine ⟨_, List.getElem?_set_self inside, ?_⟩
        unfold Settles
        rw [refused]
        rfl
    · simp only [Bool.false_eq_true, false_iff]
      intro all
      have success := all s.nextIndex (Nat.lt_succ_self _) fresh _ (List.getElem?_set_self inside)
      exact Bool.false_ne_true success
    · intro idx mem
      exact (h.seen idx mem).imp_left Nat.lt_succ_of_lt
    · intro idx mem
      rcases List.mem_append.mp mem with mem | here
      · exact (h.added idx mem).imp_left Nat.lt_succ_of_lt
      · cases List.mem_singleton.mp here
  | none =>
    dsimp only
    have twice : s.calls ++ [.start s.nextIndex, .add s.nextIndex] =
        s.calls ++ [.start s.nextIndex] ++ [.add s.nextIndex] := List.append_cons ..
    have idle_iff : ∀ idx, idx ∉ s.active ++ [s.nextIndex] ↔ idx ∉ s.active ∧ idx ≠ s.nextIndex := by
      intro idx
      rw [List.mem_append, not_or, List.mem_singleton]
    have before : ∀ idx, idx < s.nextIndex + 1 → idx ≠ s.nextIndex → idx < s.nextIndex :=
      fun idx less other => Nat.lt_of_le_of_ne (Nat.le_of_lt_succ less) other
    refine ⟨by simpa using h.size, more, ?_, ?_, ?_, ?_, ?_, ?_, ?_, ?_, ?_⟩
    · change startsOf (s.calls ++ [_, _]) = List.range (s.nextIndex + 1)
      rw [startsOf_append, h.starts, List.range_succ]
      rfl
    · change activeAfter (s.calls ++ [_, _]) = s.active ++ [s.nextIndex]
      rw [twice, activeAfter_append, activeAfter_append]
      exact congrArg (· ++ [s.nextIndex]) h.active
    · change Limited (parallel maxParallel) (s.calls ++ [_, _])
      rw [twice]
      apply limitedStart.append
      rw [activeAfter_append, activeAfter_append]
      dsimp only
      rw [h.active, List.length_append]
      exact room
    · apply List.Nodup.append h.nodup (List.nodup_singleton _)
      intro idx mem here
      rw [List.mem_singleton.mp here] at mem
      exact fresh mem
    · intro idx mem
      rcases List.mem_append.mp mem with mem | here
      · exact waiting _ idx mem
      · rw [List.mem_singleton.mp here]
        exact ⟨Nat.lt_succ_self _, req, found, refused, List.getElem?_set_self inside⟩
    · intro idx req' found' less idle
      obtain ⟨idle, other⟩ := (idle_iff idx).mp idle
      have less := before idx less other
      dsimp only
      rw [getElem?_set_before less]
      exact h.settled idx req' found' less idle
    · dsimp only
      rw [h.ok]
      constructor
      · intro all idx less idle res there
        obtain ⟨idle, other⟩ := (idle_iff idx).mp idle
        have less := before idx less other
        rw [getElem?_set_before less] at there
        exact all idx less idle res there
      · intro all idx less idle res there
        apply all idx (Nat.lt_succ_of_lt less) ((idle_iff idx).mpr ⟨idle, Nat.ne_of_lt less⟩)
        rw [getElem?_set_before less]
        exact there
    · intro idx mem
      obtain ⟨less, idle⟩ := h.seen idx mem
      exact ⟨Nat.lt_succ_of_lt less, (idle_iff idx).mpr ⟨idle, Nat.ne_of_lt less⟩⟩
    · intro idx mem
      change _ ∈ s.calls ++ [_, _] at mem
      rw [twice] at mem
      rcases List.mem_append.mp mem with mem | here
      · rcases List.mem_append.mp mem with mem | here
        · exact (h.added idx mem).imp_left Nat.lt_succ_of_lt
        · cases List.mem_singleton.mp here
      · cases List.mem_singleton.mp here
        refine ⟨Nat.lt_succ_self _, fun req' found' => ?_⟩
        rw [found] at found'
        exact Option.some.inj found' ▸ refused

/-- Requests are started until there is none left or no room. -/
theorem inv_launch {fuel : Nat} (h : Inv curl requests maxParallel seen s)
    (enough : requests.length - s.nextIndex ≤ fuel) :
    Inv curl requests maxParallel seen (launch curl requests maxParallel fuel s) ∧
      ((launch curl requests maxParallel fuel s).active = [] →
        (launch curl requests maxParallel fuel s).nextIndex = requests.length) := by
  induction fuel generalizing s with
  | zero =>
    refine ⟨h, fun _ => ?_⟩
    have := h.next
    unfold launch
    omega
  | succ fuel ih =>
    unfold launch
    split
    · rename_i goes
      simp only [Bool.and_eq_true, decide_eq_true_eq] at goes
      apply ih (inv_start h goes.1 goes.2)
      dsimp only
      omega
    · rename_i stops
      refine ⟨h, fun none => ?_⟩
      have room : s.active.length < parallel maxParallel := by
        rw [none, List.length_nil]
        unfold parallel
        omega
      have := h.next
      simp only [Bool.and_eq_true, decide_eq_true_eq] at stops
      omega

/-- A report about an active transfer. -/
theorem inv_handle (h : Inv curl requests maxParallel seen s) {idx : Nat} (mem : idx ∈ s.active)
    (error : Option ByteString) :
    Inv curl requests maxParallel (seen ++ [.done idx error])
      (handleMessage s (.done idx error)) := by
  obtain ⟨less, req, found, started, pending⟩ := h.waiting idx mem
  have active_iff : ∀ other, other ∈ s.active.erase idx ↔ other ≠ idx ∧ other ∈ s.active :=
    fun other => h.nodup.mem_erase_iff
  have erased : activeAfter (s.calls ++ [.remove idx]) = s.active.erase idx := by
    rw [activeAfter_append]
    exact congrArg (·.erase idx) h.active
  have limited : Limited (parallel maxParallel) (s.calls ++ [.remove idx]) := by
    apply h.limited.append
    rw [erased]
    exact (List.length_erase_le).trans (h.active ▸ h.limited.length_le)
  have starts : startsOf (s.calls ++ [.remove idx]) = List.range s.nextIndex := by
    rw [startsOf_append, h.starts]
    exact List.append_nil _
  -- The results change at the index of the transfer only, and there it is settled.
  obtain ⟨results, allOk, changed, size, other, own, success⟩ : ∃ results allOk,
      handleMessage s (.done idx error) = { s with
        results, allOk, active := s.active.erase idx, calls := s.calls ++ [.remove idx] } ∧
      results.length = s.results.length ∧
      (∀ other, other ≠ idx → results[other]? = s.results[other]?) ∧
      results[idx]? = some (req.finished error) ∧
      (allOk = true ↔ s.allOk = true ∧ (req.finished error).success = true) := by
    cases error with
    | some text =>
      refine ⟨_, _, rfl, List.length_modify .., fun other differs => ?_, ?_, ?_⟩
      · exact List.getElem?_modify_ne _ _ (Ne.symm differs)
      · rw [List.getElem?_modify_eq, pending]
        rfl
      · simp [DownloadRequest.finished, DownloadRequest.failed]
    | none =>
      refine ⟨_, _, rfl, List.length_modify .., fun other differs => ?_, ?_, ?_⟩
      · exact List.getElem?_modify_ne _ _ (Ne.symm differs)
      · rw [List.getElem?_modify_eq, pending]
        rfl
      · simp [DownloadRequest.finished, DownloadRequest.succeeded]
  rw [changed]
  refine ⟨size.trans h.size, h.next, starts, erased, limited, h.nodup.erase idx, ?_, ?_, ?_, ?_, ?_⟩
  · intro idx' mem'
    obtain ⟨differs, mem'⟩ := (active_iff idx').mp mem'
    dsimp only
    rw [other idx' differs]
    exact h.waiting idx' mem'
  · intro idx' req' found' less' idle
    dsimp only
    by_cases same : idx' = idx
    · subst same
      rw [found] at found'
      obtain rfl := Option.some.inj found'
      refine ⟨_, own, ?_⟩
      unfold Settles
      rw [started]
      exact ⟨error, List.mem_append_right _ List.mem_cons_self, rfl⟩
    · rw [other idx' same]
      have idle : idx' ∉ s.active := fun mem' => idle ((active_iff idx').mpr ⟨same, mem'⟩)
      obtain ⟨res, there, settles⟩ := h.settled idx' req' found' less' idle
      exact ⟨res, there, settles.mono (List.subset_append_left _ _)⟩
  · dsimp only
    rw [success, h.ok]
    constructor
    · rintro ⟨all, success⟩ idx' less' idle res there
      by_cases same : idx' = idx
      · subst same
        rw [own] at there
        exact Option.some.inj there ▸ success
      · rw [other idx' same] at there
        exact all idx' less' (fun mem' => idle ((active_iff idx').mpr ⟨same, mem'⟩)) res there
    · intro all
      constructor
      · intro idx' less' idle res there
        have same : idx' ≠ idx := fun same => idle (same ▸ mem)
        apply all idx' less' (fun mem' => idle ((active_iff idx').mp mem').2) res
        rw [other idx' same]
        exact there
      · exact all idx less (fun mem' => ((active_iff idx).mp mem').1 rfl) _ own
  · intro idx' mem'
    rw [reported_append, List.mem_append] at mem'
    rcases mem' with mem' | here
    · obtain ⟨less', idle⟩ := h.seen idx' mem'
      exact ⟨less', fun mem' => idle ((active_iff idx').mp mem').2⟩
    · rw [List.mem_singleton.mp here]
      exact ⟨less, fun mem' => ((active_iff idx).mp mem').1 rfl⟩
  · intro idx' mem'
    rcases List.mem_append.mp mem' with mem' | here
    · exact h.added idx' mem'
    · cases List.mem_singleton.mp here

/-- A message that is passed over. -/
theorem Inv.pass (h : Inv curl requests maxParallel seen s) :
    Inv curl requests maxParallel (seen ++ [.other]) s := by
  have same : reported (seen ++ [.other]) = reported seen := by
    rw [reported_append]
    exact List.append_nil _
  refine { h with settled := ?_, seen := same ▸ h.seen }
  intro idx req found less idle
  obtain ⟨res, there, settles⟩ := h.settled idx req found less idle
  exact ⟨res, there, settles.mono (List.subset_append_left _ _)⟩

theorem active_handle (s : State) (message : Message) :
    (handleMessage s message).active =
      (reported [message]).foldl (fun active idx => active.erase idx) s.active := by
  cases message with
  | other => rfl
  | done idx error => cases error <;> rfl

/-- The other messages are about the transfers that are left. -/
theorem Reports.tail {idx : Nat} {error : Option ByteString} {messages : List Message}
    (h : Reports s.active (.done idx error :: messages)) :
    idx ∈ s.active ∧ Reports (handleMessage s (.done idx error)).active messages := by
  obtain ⟨own, once⟩ := List.nodup_cons.mp h.once
  refine ⟨h.active idx List.mem_cons_self, once, fun other mem => ?_⟩
  rw [active_handle]
  have differs : other ≠ idx := fun same => own (same ▸ mem)
  exact (List.mem_erase_of_ne differs).mpr (h.active other (List.mem_cons_of_mem _ mem))

/-- The reports of a turn. -/
theorem inv_reports {messages : List Message} (h : Inv curl requests maxParallel seen s)
    (reports : Reports s.active messages) :
    Inv curl requests maxParallel (seen ++ messages) (messages.foldl handleMessage s) := by
  induction messages generalizing seen s with
  | nil =>
    rw [List.append_nil]
    exact h
  | cons message messages ih =>
    rw [List.append_cons, List.foldl_cons]
    cases message with
    | other =>
      exact ih h.pass ⟨reports.once, reports.active⟩
    | done idx error =>
      obtain ⟨mem, others⟩ := reports.tail
      exact ih (inv_handle h mem error) others

theorem inv_turn {messages : List Message} (h : Inv curl requests maxParallel seen s)
    (reports : Reports s.active messages) (goes : s.active ≠ []) :
    Inv curl requests maxParallel (seen ++ messages) (turn curl requests maxParallel s messages) ∧
      ((turn curl requests maxParallel s messages).active = [] →
        (turn curl requests maxParallel s messages).nextIndex = requests.length) := by
  unfold turn
  rw [List.isEmpty_eq_false_iff.mpr goes]
  exact inv_launch (inv_reports h reports) (Nat.le_refl _)

theorem turn_ended {messages : List Message} (ended : s.active = []) :
    turn curl requests maxParallel s messages = s := by
  unfold turn
  rw [ended]
  rfl

/-- What is left to do: the requests that are not started, and the transfers that are active. -/
def rest (requests : List DownloadRequest) (s : State) : Nat :=
  requests.length - s.nextIndex + s.active.length

theorem rest_launch {fuel : Nat} :
    rest requests (launch curl requests maxParallel fuel s) ≤ rest requests s := by
  induction fuel generalizing s with
  | zero => exact Nat.le_refl _
  | succ fuel ih =>
    unfold launch
    split
    · rename_i goes
      simp only [Bool.and_eq_true, decide_eq_true_eq] at goes
      apply ih.trans
      have one : (startTransfer curl requests s s.nextIndex).active.length ≤ s.active.length + 1 := by
        unfold startTransfer
        split
        · exact Nat.le_succ _
        · dsimp only
          split
          · exact Nat.le_succ _
          · exact (List.length_append ..).le
      unfold rest
      dsimp only
      omega
    · exact Nat.le_refl _

theorem rest_reports {messages : List Message} (reports : Reports s.active messages) :
    rest requests (messages.foldl handleMessage s) + (reported messages).length =
      rest requests s := by
  induction messages generalizing s with
  | nil => rfl
  | cons message messages ih =>
    rw [List.foldl_cons]
    cases message with
    | other => exact ih ⟨reports.once, reports.active⟩
    | done idx error =>
      obtain ⟨mem, others⟩ := reports.tail
      have left := ih others
      have next : (handleMessage s (.done idx error)).nextIndex = s.nextIndex := by
        cases error <;> rfl
      have length : (handleMessage s (.done idx error)).active.length + 1 = s.active.length := by
        rw [active_handle]
        exact List.length_erase_add_one mem
      unfold rest at left ⊢
      change _ + ((reported messages).length + 1) = _
      omega

theorem rest_turn {messages : List Message} (reports : Reports s.active messages)
    (goes : s.active ≠ []) :
    rest requests (turn curl requests maxParallel s messages) + (reported messages).length ≤
      rest requests s := by
  unfold turn
  rw [List.isEmpty_eq_false_iff.mpr goes, ← rest_reports reports]
  exact Nat.add_le_add_right rest_launch _

end Turn

/-! ### The loop -/

section Loop

variable {curl requests maxParallel} {schedule : Nat → List Message}

theorem stateAt_succ (k : Nat) : stateAt curl requests maxParallel schedule (k + 1) =
    turn curl requests maxParallel (stateAt curl requests maxParallel schedule k) (schedule k) :=
  rfl

theorem inv_init : Inv curl requests maxParallel [] { results := requests.map fun _ => {} } where
  size := List.length_map _
  next := Nat.zero_le _
  starts := rfl
  active := rfl
  limited := by
    intro before part
    rw [List.prefix_nil.mp part]
    exact Nat.zero_le _
  nodup := List.nodup_nil
  waiting := nofun
  settled := nofun
  ok := ⟨fun _ => nofun, fun _ => rfl⟩
  seen := nofun
  added := nofun

/-- The invariant holds between any two turns, and a loop that ends has started all requests. -/
theorem inv_stateAt (delivers : Delivers curl requests maxParallel schedule) (k : Nat) :
    Inv curl requests maxParallel (seenAt curl requests maxParallel schedule k)
        (stateAt curl requests maxParallel schedule k) ∧
      ((stateAt curl requests maxParallel schedule k).active = [] →
        (stateAt curl requests maxParallel schedule k).nextIndex = requests.length) := by
  induction k with
  | zero => exact inv_launch inv_init (Nat.le_refl _)
  | succ k ih =>
    rw [stateAt_succ, seenAt]
    by_cases ended : (stateAt curl requests maxParallel schedule k).active = []
    · rw [turn_ended ended, List.isEmpty_iff.mpr ended]
      exact ih
    · rw [List.isEmpty_eq_false_iff.mpr ended]
      exact inv_turn ih.1 (delivers.reports k ended) ended

/-- **The loop ends.** Each report leaves less to do. -/
theorem exists_ended (delivers : Delivers curl requests maxParallel schedule) :
    ∃ turns, (stateAt curl requests maxParallel schedule turns).active = [] := by
  have never_rises : ∀ k, rest requests (stateAt curl requests maxParallel schedule (k + 1)) ≤
      rest requests (stateAt curl requests maxParallel schedule k) := by
    intro k
    rw [stateAt_succ]
    by_cases ended : (stateAt curl requests maxParallel schedule k).active = []
    · rw [turn_ended ended]
    · exact Nat.le_of_add_right_le (rest_turn (delivers.reports k ended) ended)
  have falls : ∀ k, ∃ j, k ≤ j ∧ ((stateAt curl requests maxParallel schedule j).active = [] ∨
      rest requests (stateAt curl requests maxParallel schedule (j + 1)) <
        rest requests (stateAt curl requests maxParallel schedule j)) := by
    intro k
    cases active : (stateAt curl requests maxParallel schedule k).active with
    | nil => exact ⟨k, Nat.le_refl _, .inl active⟩
    | cons idx others =>
      obtain ⟨j, le, mem⟩ := delivers.eventually k idx (active ▸ List.mem_cons_self)
      refine ⟨j, le, ?_⟩
      by_cases ended : (stateAt curl requests maxParallel schedule j).active = []
      · exact .inl ended
      · have less : rest requests (turn curl requests maxParallel _ _) + _ ≤ _ :=
          rest_turn (delivers.reports j ended) ended
        have some := List.length_pos_of_mem mem
        right
        rw [stateAt_succ]
        omega
  obtain ⟨turns, -, ended⟩ := Lib.Run.exists_of_falls
    (fun k => rest requests (stateAt curl requests maxParallel schedule k))
    (fun k => (stateAt curl requests maxParallel schedule k).active = []) never_rises falls 0
  exact ⟨turns, ended⟩

/-- A loop has ended when each transfer that was added is reported. -/
theorem ended_iff (delivers : Delivers curl requests maxParallel schedule) (turns : Nat) :
    (stateAt curl requests maxParallel schedule turns).active = [] ↔
      ∀ idx, .add idx ∈ (stateAt curl requests maxParallel schedule turns).calls →
        idx ∈ reported (seenAt curl requests maxParallel schedule turns) := by
  obtain ⟨inv, -⟩ := inv_stateAt delivers turns
  constructor
  · intro ended idx mem
    obtain ⟨less, started⟩ := inv.added idx mem
    have inside : idx < requests.length := Nat.lt_of_lt_of_le less inv.next
    have found := List.getElem?_eq_getElem inside
    obtain ⟨res, -, settles⟩ := inv.settled idx _ found less (ended ▸ List.not_mem_nil)
    unfold Settles at settles
    rw [started _ found] at settles
    obtain ⟨error, mem, -⟩ := settles
    exact List.mem_filterMap.mpr ⟨_, mem, rfl⟩
  · intro all
    by_contra goes
    obtain ⟨idx, mem⟩ := List.exists_mem_of_ne_nil _ goes
    have added := mem_activeAfter (inv.active ▸ mem)
    exact (inv.seen idx (all idx added)).2 mem

/-- Where the loop has ended. -/
theorem complete_of_ended (delivers : Delivers curl requests maxParallel schedule) {turns : Nat}
    (ended : (stateAt curl requests maxParallel schedule turns).active = [])
    {errorMsg : Option ByteString} :
    Complete curl requests (seenAt curl requests maxParallel schedule turns)
      { allOk := (stateAt curl requests maxParallel schedule turns).allOk
        results := (stateAt curl requests maxParallel schedule turns).results
        calls := (stateAt curl requests maxParallel schedule turns).calls, errorMsg } := by
  obtain ⟨inv, all⟩ := inv_stateAt delivers turns
  have all := all ended
  constructor
  · exact all ▸ inv.starts
  · intro idx req found
    apply inv.settled idx req found
    · rw [all]
      exact (List.getElem?_eq_some_iff.mp found).1
    · rw [ended]
      exact List.not_mem_nil

theorem allOk_of_ended (delivers : Delivers curl requests maxParallel schedule) {turns : Nat}
    (ended : (stateAt curl requests maxParallel schedule turns).active = []) :
    (stateAt curl requests maxParallel schedule turns).allOk = true ↔
      ∀ res ∈ (stateAt curl requests maxParallel schedule turns).results, res.success = true := by
  obtain ⟨inv, all⟩ := inv_stateAt delivers turns
  rw [inv.ok, all ended, ended]
  constructor
  · intro ok res mem
    obtain ⟨idx, there⟩ := List.mem_iff_getElem?.mp mem
    have inside := (List.getElem?_eq_some_iff.mp there).1
    exact ok idx (inv.size ▸ inside) List.not_mem_nil res there
  · intro ok idx _ _ res there
    exact ok res (List.mem_of_getElem? there)

theorem none_active (turns : Nat) : (stateAt curl [] maxParallel schedule turns).active = [] := by
  induction turns with
  | zero => rfl
  | succ turns ih => rw [stateAt_succ, turn_ended ih, ih]

theorem isSome_downloadFiles (multi : curl.multiInit = true) (turns : Nat) :
    (downloadFiles curl requests maxParallel schedule turns).isSome ↔
      (stateAt curl requests maxParallel schedule turns).active = [] := by
  unfold downloadFiles
  split
  · rename_i empty
    obtain rfl := List.isEmpty_iff.mp empty
    simp [none_active turns]
  · simp [multi]

/-- What the caller gets: nothing is done, or the loop has ended. -/
theorem downloadFiles_cases {turns : Nat} {returned : Returned}
    (h : downloadFiles curl requests maxParallel schedule turns = some returned) :
    requests = [] ∧ returned = { allOk := true, results := [] } ∨
      curl.multiInit = false ∧ requests ≠ [] ∧
        returned.allOk = false ∧ returned.results = requests.map (fun _ => {}) ∨
      (stateAt curl requests maxParallel schedule turns).active = [] ∧
        ∃ errorMsg, returned =
          { allOk := (stateAt curl requests maxParallel schedule turns).allOk
            results := (stateAt curl requests maxParallel schedule turns).results
            calls := (stateAt curl requests maxParallel schedule turns).calls, errorMsg } := by
  unfold downloadFiles at h
  split at h
  · rename_i empty
    exact .inl ⟨List.isEmpty_iff.mp empty, (Option.some.inj h).symm⟩
  · rename_i filled
    have filled : requests ≠ [] := fun empty => filled (List.isEmpty_iff.mpr empty)
    split at h
    · rename_i failed
      obtain rfl := Option.some.inj h
      exact .inr (.inl ⟨Bool.not_eq_true' _ ▸ failed, filled, rfl, rfl⟩)
    · dsimp only at h
      split at h
      · rename_i ended
        exact .inr (.inr ⟨List.isEmpty_iff.mp ended, _, (Option.some.inj h).symm⟩)
      · cases h

end Loop

/-- **Parallel downloads are complete.** Whatever the multi interface reports and whenever, the
limit is kept, `downloadFiles` returns, and the caller gets `true` just when all requests
succeeded. If there is a multi interface, the loop ends just when each transfer that was added is
reported; then each request was started once, and each result is that of the request at its
index. -/
theorem downloadFiles_complete {curl : Curl} {requests : List DownloadRequest} {maxParallel : Nat}
    {schedule : Nat → List Message} (delivers : Delivers curl requests maxParallel schedule) :
    (∀ turns, Limited (parallel maxParallel)
      (stateAt curl requests maxParallel schedule turns).calls) ∧
    (∃ turns, (downloadFiles curl requests maxParallel schedule turns).isSome) ∧
    (∀ turns returned, downloadFiles curl requests maxParallel schedule turns = some returned →
      returned.results.length = requests.length ∧
      (returned.allOk = true ↔ ∀ res ∈ returned.results, res.success = true)) ∧
    (curl.multiInit = true →
      (∀ turns, (downloadFiles curl requests maxParallel schedule turns).isSome ↔
        ∀ idx, .add idx ∈ (stateAt curl requests maxParallel schedule turns).calls →
          idx ∈ reported (seenAt curl requests maxParallel schedule turns)) ∧
      ∀ turns returned, downloadFiles curl requests maxParallel schedule turns = some returned →
        Complete curl requests (seenAt curl requests maxParallel schedule turns) returned) := by
  refine ⟨fun turns => (inv_stateAt delivers turns).1.limited, ?_, ?_, fun multi => ⟨?_, ?_⟩⟩
  · cases multi : curl.multiInit with
    | true =>
      obtain ⟨turns, ended⟩ := exists_ended delivers
      exact ⟨turns, (isSome_downloadFiles multi turns).mpr ended⟩
    | false =>
      refine ⟨0, ?_⟩
      unfold downloadFiles
      simp [multi, apply_ite Option.isSome]
  · intro turns returned result
    obtain ⟨rfl, rfl⟩ | ⟨-, filled, failed, results⟩ | ⟨ended, errorMsg, rfl⟩ :=
      downloadFiles_cases result
    · exact ⟨rfl, fun _ => nofun, fun _ => rfl⟩
    · rw [failed, results]
      refine ⟨List.length_map _, by simp, fun all => ?_⟩
      obtain ⟨req, mem⟩ := List.exists_mem_of_ne_nil _ filled
      exact absurd (all _ (List.mem_map.mpr ⟨req, mem, rfl⟩)) Bool.false_ne_true
    · exact ⟨(inv_stateAt delivers turns).1.size, allOk_of_ended delivers ended⟩
  · exact fun turns => (isSome_downloadFiles multi turns).trans (ended_iff delivers turns)
  · intro turns returned result
    obtain ⟨rfl, rfl⟩ | ⟨failed, -⟩ | ⟨ended, errorMsg, rfl⟩ := downloadFiles_cases result
    · exact ⟨rfl, nofun⟩
    · exact absurd (multi.symm.trans failed) nofun
    · exact complete_of_ended delivers ended

/-- A request without a URL, and two with one. -/
def threeRequests : List DownloadRequest :=
  [⟨[], str "/data/a"⟩, ⟨str "https://host/b", str "/data/b"⟩, ⟨str "https://host/c", str "/data/c"⟩]

/-- The second transfer fails. -/
def twoReports : Nat → List Message
  | 0 => [.other, .done 1 none]
  | 1 => [.done 2 (some (str "Timeout was reached"))]
  | _ => []

theorem twoReports_delivers : Delivers ⟨true, fun _ => {}⟩ threeRequests 1 twoReports := by
  have active : ∀ k, (stateAt ⟨true, fun _ => {}⟩ threeRequests 1 twoReports (k + 2)).active = [] := by
    intro k
    induction k with
    | zero => decide +kernel
    | succ k ih => rw [stateAt_succ, turn_ended ih, ih]
  constructor
  · intro k goes
    match k with
    | 0 => exact ⟨by decide +kernel, by decide +kernel⟩
    | 1 => exact ⟨by decide +kernel, by decide +kernel⟩
    | k + 2 => exact absurd (active k) goes
  · intro k idx mem
    match k with
    | 0 =>
      refine ⟨0, Nat.le_refl _, ?_⟩
      revert idx
      decide +kernel
    | 1 =>
      refine ⟨1, Nat.le_refl _, ?_⟩
      revert idx
      decide +kernel
    | k + 2 =>
      rw [active k] at mem
      cases mem

/-- All three are started, and the caller learns that not all succeeded. -/
theorem downloadFiles_complete_three : ∃ turns returned,
    downloadFiles ⟨true, fun _ => {}⟩ threeRequests 1 twoReports turns = some returned ∧
      startsOf returned.calls = [0, 1, 2] ∧ returned.allOk = false := by
  obtain ⟨-, ⟨turns, returns⟩, caller, complete⟩ := downloadFiles_complete twoReports_delivers
  obtain ⟨returned, result⟩ := Option.isSome_iff_exists.mp returns
  obtain ⟨starts, results⟩ := (complete rfl).2 turns returned result
  refine ⟨turns, returned, result, starts, Bool.eq_false_iff.mpr fun allOk => ?_⟩
  obtain ⟨res, there, settles⟩ := results 0 _ rfl
  have refused : res.success = false := by
    rw [show res = _ from settles]
    rfl
  have success := (caller turns returned result).2.mp allOk res (List.mem_of_getElem? there)
  exact Bool.false_ne_true (refused.symm.trans success)

end Apm.Net
