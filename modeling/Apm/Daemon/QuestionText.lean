import Apm.Daemon.Handling
import Apm.Util.LineText

/-!
The text of the security questions: what `persistSecurityQuestions` of
`src/apmd/security_manager.cpp` seals, and what `loadStoredQuestions` reads of it.

## Main results

* `securityQuestions_roundTrip`: three questions that are stored are read back, whatever their
  prompts say.
-/

namespace Apm.Daemon

open Apm.Lib.Effect Apm.Lib.Text Apm.Security
open Apm.Repo (getlines_unlines)

/-! ### Bytes in hexadecimal -/

theorem decodeNibble_hexDigit : ∀ n < 16, decodeNibble (hexDigit n) = some n := by decide

theorem bytesToHex_cons (b : UInt8) (bytes : ByteString) :
    bytesToHex (b :: bytes) =
      hexDigit (b.toNat / 16) :: hexDigit (b.toNat % 16) :: bytesToHex bytes := rfl

theorem hexToBytes_bytesToHex (bytes : ByteString) :
    hexToBytes (bytesToHex bytes) = some bytes := by
  induction bytes with
  | nil => rfl
  | cons b bytes ih =>
    have small := b.toNat_lt
    have high := decodeNibble_hexDigit (b.toNat / 16) (by omega)
    have low := decodeNibble_hexDigit (b.toNat % 16) (by omega)
    have byte : UInt8.ofNat (16 * (b.toNat / 16) + b.toNat % 16) = b := by
      rw [Nat.div_add_mod, UInt8.ofNat_toNat]
    rw [bytesToHex_cons, hexToBytes, high, low, ih]
    change some (UInt8.ofNat (16 * (b.toNat / 16) + b.toNat % 16) :: bytes) = _
    rw [byte]

theorem plainLine_bytesToHex (bytes : ByteString) : PlainLine (bytesToHex bytes) := by
  have digit : ∀ n < 16, hexDigit n ≠ chr '\n' ∧ hexDigit n ≠ chr '\r' := by decide
  induction bytes with
  | nil => exact ⟨List.not_mem_nil, List.not_mem_nil⟩
  | cons b bytes ih =>
    have small := b.toNat_lt
    have high := digit (b.toNat / 16) (by omega)
    have low := digit (b.toNat % 16) (by omega)
    rw [bytesToHex_cons]
    constructor
    · simp [high.1.symm, low.1.symm, ih.noLf]
    · simp [high.2.symm, low.2.symm, ih.noCr]

/-! ### The text of the questions -/

/-- A question that can be stored: a line of a prompt, and a salt and a hash of their lengths. -/
structure StoredQuestion.Fits (q : StoredQuestion) : Prop where
  filled : q.prompt ≠ []
  oneLine : PlainLine q.prompt
  salt : q.salt.length = kSaltLen
  answerHash : q.answerHash.length = kDerivedLen

/-- The lines of a question. -/
def questionLines (q : StoredQuestion) : List ByteString :=
  [str "question:" ++ q.prompt, str "salt:" ++ bytesToHex q.salt,
    str "answer:" ++ bytesToHex q.answerHash, []]

/-- The text of some questions. -/
def questionsText (stored : List StoredQuestion) : ByteString :=
  unlines (chr '\n') (stored.flatMap questionLines)

theorem questionLines_plain {q : StoredQuestion} (fits : q.Fits) :
    ∀ line ∈ questionLines q, PlainLine line := by
  have question : PlainLine (str "question:") := by decide
  have salt : PlainLine (str "salt:") := by decide
  have answer : PlainLine (str "answer:") := by decide
  simp only [questionLines, List.forall_mem_cons, List.not_mem_nil, false_implies, implies_true,
    and_true]
  exact ⟨question.append fits.oneLine, salt.append (plainLine_bytesToHex _),
    answer.append (plainLine_bytesToHex _), by decide⟩

/-- What a line with one of the keys says. -/
theorem questionLine_key (key value : ByteString) (plain : chr ':' ∉ key)
    (oneLine : PlainLine (key ++ chr ':' :: value)) (x : List StoredQuestion × StoredQuestion) :
    questionLine x (key ++ chr ':' :: value) =
      if key == str "question" then .ok (x.1, { x.2 with prompt := value })
      else if key == str "salt" then
        match hexToBytes value with
        | none => .error (str "Malformed salt in security question file")
        | some salt => .ok (x.1, { x.2 with salt })
      else if key == str "answer" then
        match hexToBytes value with
        | none => .error (str "Malformed answer in security question file")
        | some answerHash => .ok (x.1, { x.2 with answerHash })
      else .error (str "Unknown field in security question file") := by
  have filled : (key ++ chr ':' :: value).isEmpty = false := by cases key <;> rfl
  have colon : (key ++ chr ':' :: value).contains (chr ':') = true :=
    List.contains_iff_mem.mpr (List.mem_append_right _ List.mem_cons_self)
  rw [questionLine, dropCr_plain oneLine]
  dsimp only
  rw [filled, colon, upTo_key plain, tail_key plain]
  rfl

/-- **A question is read back** from its lines. -/
theorem foldlM_questionLines {q : StoredQuestion} (fits : q.Fits) (done : List StoredQuestion) :
    (questionLines q).foldlM questionLine (done, {}) = .ok (done ++ [q], {}) := by
  have plain := questionLines_plain fits
  simp only [questionLines, List.forall_mem_cons] at plain
  obtain ⟨question, salt, answer, -⟩ := plain
  have first : ∀ x, questionLine x (str "question:" ++ q.prompt) =
      .ok (x.1, { x.2 with prompt := q.prompt }) := fun x =>
    questionLine_key (str "question") q.prompt (by decide) question x
  have second : ∀ x, questionLine x (str "salt:" ++ bytesToHex q.salt) =
      .ok (x.1, { x.2 with salt := q.salt }) := by
    intro x
    have line := questionLine_key (str "salt") (bytesToHex q.salt) (by decide) salt x
    rw [hexToBytes_bytesToHex] at line
    exact line
  have third : ∀ x, questionLine x (str "answer:" ++ bytesToHex q.answerHash) =
      .ok (x.1, { x.2 with answerHash := q.answerHash }) := by
    intro x
    have line := questionLine_key (str "answer") (bytesToHex q.answerHash) (by decide) answer x
    rw [hexToBytes_bytesToHex] at line
    exact line
  have last : questionLine (done, q) [] = .ok (done ++ [q], {}) := by
    have filled : q.prompt.isEmpty = false := List.isEmpty_eq_false_iff.mpr fits.filled
    simp [questionLine, dropCr, finalizeCurrent, filled, fits.salt, fits.answerHash]
  simp only [questionLines, List.foldlM_cons, List.foldlM_nil, first, second, third, bind,
    Except.bind, last]
  rfl

theorem foldlM_questions {stored : List StoredQuestion} (fits : ∀ q ∈ stored, q.Fits)
    (done : List StoredQuestion) :
    (stored.flatMap questionLines).foldlM questionLine (done, {}) = .ok (done ++ stored, {}) := by
  induction stored generalizing done with
  | nil => rw [List.append_nil]; rfl
  | cons q stored ih =>
    obtain ⟨first, others⟩ := List.forall_mem_cons.mp fits
    rw [List.flatMap_cons, List.foldlM_append, foldlM_questionLines first]
    exact (ih others (done ++ [q])).trans (by rw [← List.append_cons])

/-- **Questions are read back** from their text. -/
theorem parseQuestions_questionsText {stored : List StoredQuestion} (fits : ∀ q ∈ stored, q.Fits)
    (three : stored.length = SECURITY_QUESTION_COUNT) :
    parseQuestions (questionsText stored) = .ok stored := by
  have clean : ∀ line ∈ stored.flatMap questionLines, chr '\n' ∉ line := by
    intro line mem
    obtain ⟨q, known, inside⟩ := List.mem_flatMap.mp mem
    exact (questionLines_plain (fits q known) line inside).noLf
  have lines : getlines (chr '\n') (questionsText stored) = stored.flatMap questionLines := by
    have read := getlines_unlines clean []
    rw [List.append_nil] at read
    exact read.trans (List.append_nil _)
  rw [parseQuestions, lines, foldlM_questions fits, List.nil_append]
  change (if stored.length != SECURITY_QUESTION_COUNT then _ else _) = _
  rw [three]
  rfl

/-! ### What is sealed -/

section Sealed

variable (c : Crypto)

/-- The questions as they are stored, from the draw of the first salt on. -/
def storedQuestions : Nat → List (ByteString × ByteString) → List StoredQuestion
  | _, [] => []
  | draw, qa :: questions =>
      let salt := c.random draw kSaltLen
      ⟨qa.1, salt, c.pbkdf2 qa.2 salt⟩ :: storedQuestions (draw + 1) questions

theorem length_storedQuestions (draw : Nat) (questions : List (ByteString × ByteString)) :
    (storedQuestions c draw questions).length = questions.length := by
  induction questions generalizing draw with
  | nil => rfl
  | cons qa questions ih => exact congrArg Nat.succ (ih _)

theorem storedQuestions_fits {questions : List (ByteString × ByteString)}
    (storable : ∀ qa ∈ questions, Storable qa) (draw : Nat) :
    ∀ q ∈ storedQuestions c draw questions, q.Fits := by
  induction questions generalizing draw with
  | nil => exact nofun
  | cons qa questions ih =>
    obtain ⟨⟨filled, -, noLf, noCr⟩, others⟩ := List.forall_mem_cons.mp storable
    rw [storedQuestions, List.forall_mem_cons]
    exact ⟨⟨filled, ⟨noLf, noCr⟩, c.random_length _ _, c.pbkdf2_length _ _⟩, ih others _⟩

/-- The loop of `persistSecurityQuestions` builds the text of the questions. -/
theorem exec_writeQuestions {questions : List (ByteString × ByteString)}
    (storable : ∀ qa ∈ questions, Storable qa) (plain : ByteString) (d : Apmd) :
    (exec (forEach (writeQuestion c) questions plain) d).1 =
      .ok (plain ++ questionsText (storedQuestions c d.draws questions)) := by
  induction questions generalizing plain d with
  | nil => exact congrArg Except.ok (List.append_nil plain).symm
  | cons qa questions ih =>
    obtain ⟨⟨filled, answered, noLf, noCr⟩, others⟩ := List.forall_mem_cons.mp storable
    have one : exec (writeQuestion c qa plain) d =
        (.ok (plain ++ questionsText [⟨qa.1, c.random d.draws kSaltLen,
          c.pbkdf2 qa.2 (c.random d.draws kSaltLen)⟩]), { d with draws := d.draws + 1 }) := by
      unfold writeQuestion
      rw [if_neg (by simp [filled, answered]), if_neg (by simp [noLf, noCr]), exec_bind,
        randomBytes, exec_update]
      simp [questionsText, questionLines, unlines, str, chr]
    rw [forEach, exec_bind, one]
    dsimp only
    rw [ih others, storedQuestions, questionsText, questionsText, questionsText,
      List.flatMap_cons, List.flatMap_cons, List.flatMap_nil, List.append_nil, unlines, unlines,
      unlines, List.flatMap_append, List.append_assoc]

end Sealed

/-- **Three questions that are stored are read back**, in their order and with their salts and
hashes, and the plaintext that is sealed is their text. Bytes survive hexadecimal. -/
theorem securityQuestions_roundTrip (stored : List StoredQuestion)
    (three : stored.length = SECURITY_QUESTION_COUNT) (fits : ∀ q ∈ stored, q.Fits)
    (bytes : ByteString) :
    parseQuestions (questionsText stored) = .ok stored ∧
    (∀ (c : Crypto) (d : Apmd) (questions : List (ByteString × ByteString)),
      questions.length = SECURITY_QUESTION_COUNT → (∀ qa ∈ questions, Storable qa) →
      ∃ plain, (exec (forEach (writeQuestion c) questions []) d).1 = .ok plain ∧
        plain = questionsText (storedQuestions c d.draws questions) ∧
        parseQuestions plain = .ok (storedQuestions c d.draws questions)) ∧
    hexToBytes (bytesToHex bytes) = some bytes := by
  refine ⟨parseQuestions_questionsText fits three, ?_, hexToBytes_bytesToHex bytes⟩
  intro c d questions length storable
  refine ⟨_, exec_writeQuestions c storable [] d, rfl, ?_⟩
  apply parseQuestions_questionsText (storedQuestions_fits c storable _)
  rw [length_storedQuestions, length]

/-- Prompts that look like fields of the file. -/
def fieldLikePrompts : List StoredQuestion :=
  [⟨str "answer:00", List.replicate 32 1, List.replicate 32 2⟩,
    ⟨str " salt: a:b ", List.replicate 32 3, List.replicate 32 4⟩,
    ⟨str ":", List.replicate 32 5, List.replicate 32 6⟩]

theorem securityQuestions_roundTrip_fieldLike :
    parseQuestions (questionsText fieldLikePrompts) = .ok fieldLikePrompts := by
  refine (securityQuestions_roundTrip fieldLikePrompts rfl ?_ []).1
  intro q mem
  simp only [fieldLikePrompts, List.mem_cons, List.not_mem_nil, or_false] at mem
  rcases mem with rfl | rfl | rfl <;> exact ⟨by decide, by decide, rfl, rfl⟩

end Apm.Daemon
