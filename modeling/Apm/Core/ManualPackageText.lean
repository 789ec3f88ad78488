import Apm.Core.ManualPackage
import Apm.Core.Number
import Apm.Core.StanzaText

/-!
The reader of package-info files on what the writer wrote (`src/core/manual_package.cpp`).

## Main results

* `packageInfo_roundTrips`: a record that is written is read back as it was.
-/

namespace Apm.Manual

open Apm.Ams (skipWhitespace peek unescape)
open Apm.Repo (digitsValue intercalate_cons)

/-! ### Blanks -/

/-- The text does not begin with a blank of JSON. -/
def Starts (s : ByteString) : Prop := skipWhitespace s = s

theorem starts_cons {c : UInt8} (h : (c == chr ' ' || c == chr '\n' || c == chr '\r' ||
    c == chr '\t') = false) (s : ByteString) : Starts (c :: s) := by
  unfold Starts skipWhitespace
  rw [List.dropWhile_cons_of_neg (by simpa using h)]

theorem starts_quote (s : ByteString) : Starts (chr '"' :: s) := starts_cons (by decide) s

/-- Blanks before a text are skipped. -/
theorem skipWhitespace_append {blanks s : ByteString}
    (h : ∀ c ∈ blanks, (c == chr ' ' || c == chr '\n' || c == chr '\r' || c == chr '\t') = true)
    (starts : Starts s) : skipWhitespace (blanks ++ s) = s := by
  have skipped : skipWhitespace (blanks ++ s) = skipWhitespace s :=
    List.dropWhile_append_of_pos h
  rw [skipped, starts]

/-! ### Strings -/

/-- What a byte is written as is read as the byte. -/
theorem stringBody_escapeByte (c : UInt8) (acc rest : ByteString) :
    stringBody acc (escapeByte c ++ rest) = stringBody (acc ++ [c]) rest := by
  have special : ∀ esc b, unescape esc = some b →
      stringBody acc (chr '\\' :: esc :: rest) = stringBody (acc ++ [b]) rest := by
    intro esc b known
    have notQuote : (chr '\\' == chr '"') = false := by decide
    rw [stringBody, notQuote, known]
    simp
  by_cases slash : c = chr '\\'
  · subst slash
    exact special (chr '\\') (chr '\\') (by decide)
  by_cases quote : c = chr '"'
  · subst quote
    exact special (chr '"') (chr '"') (by decide)
  by_cases back : c = 8
  · subst back
    exact special (chr 'b') 8 (by decide)
  by_cases feed : c = 12
  · subst feed
    exact special (chr 'f') 12 (by decide)
  by_cases newline : c = chr '\n'
  · subst newline
    exact special (chr 'n') 10 (by decide)
  by_cases carriage : c = chr '\r'
  · subst carriage
    exact special (chr 'r') 13 (by decide)
  by_cases tab : c = chr '\t'
  · subst tab
    exact special (chr 't') 9 (by decide)
  · have plain : escapeByte c = [c] := by
      simp [escapeByte, slash, quote, back, feed, newline, carriage, tab]
    rw [plain, List.singleton_append, stringBody.eq_def]
    simp [slash, quote]

/-- An escaped text is read up to the closing quote. -/
theorem stringBody_escaped (text acc rest : ByteString) :
    stringBody acc (escapeJsonString text ++ chr '"' :: rest) = .ok (acc ++ text, rest) := by
  induction text generalizing acc with
  | nil =>
    have empty : escapeJsonString [] = [] := rfl
    rw [empty, List.nil_append, stringBody.eq_def]
    simp
  | cons c text ih =>
    have first : escapeJsonString (c :: text) = escapeByte c ++ escapeJsonString text := rfl
    rw [first, List.append_assoc, stringBody_escapeByte, ih]
    simp

theorem quoted_append (text rest : ByteString) :
    quoted text ++ rest = chr '"' :: (escapeJsonString text ++ chr '"' :: rest) := by
  simp [quoted, str, chr]

theorem starts_quoted (text rest : ByteString) : Starts (quoted text ++ rest) := by
  rw [quoted_append]
  exact starts_quote _

/-- A quoted text is read back, behind any blanks. -/
theorem parseString_quoted {s : ByteString} (text rest : ByteString)
    (h : skipWhitespace s = quoted text ++ rest) : parseString s = .ok (text, rest) := by
  have first : peek (quoted text ++ rest) = chr '"' := by
    rw [quoted_append]
    rfl
  unfold parseString
  dsimp only
  rw [h, first, quoted_append, List.tail_cons, stringBody_escaped]
  rfl

/-! ### Numbers -/

/-- One more digit fits if the number it makes does. -/
theorem pushDigit_eq {value : Nat} {c : UInt8} (digit : isdigit c) :
    pushDigit value c =
      if 10 * value + (c.toNat - 48) ≤ uint64Max then .ok (10 * value + (c.toNat - 48))
      else .error (str "Numeric overflow in package-info JSON") := by
  have small : c.toNat - 48 ≤ 9 := by
    have bounds : 48 ≤ c.toNat ∧ c.toNat ≤ 57 := by
      simpa [isdigit, UInt8.le_iff_toNat_le] using digit
    omega
  have max : uint64Max = 18446744073709551615 := rfl
  have fits : value > (uint64Max - (c.toNat - 48)) / 10 ↔
      ¬ 10 * value + (c.toNat - 48) ≤ uint64Max := by omega
  unfold pushDigit
  by_cases under : 10 * value + (c.toNat - 48) ≤ uint64Max
  · simp [fits, under, Nat.mul_comm value 10]
  · simp [fits, under]

/-- More digits make no smaller number. -/
theorem le_foldl_digits (digits : ByteString) (n : Nat) :
    n ≤ digits.foldl (fun n c => 10 * n + (c.toNat - 48)) n := by
  induction digits generalizing n with
  | nil => exact Nat.le_refl n
  | cons c digits ih =>
    have rest := ih (10 * n + (c.toNat - 48))
    rw [List.foldl_cons]
    omega

/-- A run of digits is read as its value, if that is one of 64 bits. -/
theorem foldlM_pushDigit {digits : ByteString} (h : ∀ c ∈ digits, isdigit c) {value : Nat}
    (small : value ≤ uint64Max) :
    digits.foldlM pushDigit value =
      if digits.foldl (fun n c => 10 * n + (c.toNat - 48)) value ≤ uint64Max then
        .ok (digits.foldl (fun n c => 10 * n + (c.toNat - 48)) value)
      else .error (str "Numeric overflow in package-info JSON") := by
  induction digits generalizing value with
  | nil =>
    rw [List.foldlM_nil, List.foldl_nil, if_pos small]
    rfl
  | cons c digits ih =>
    obtain ⟨first, others⟩ := List.forall_mem_cons.mp h
    rw [List.foldlM_cons, pushDigit_eq first, List.foldl_cons]
    by_cases here : 10 * value + (c.toNat - 48) ≤ uint64Max
    · rw [if_pos here, ← ih others here]
      rfl
    · have overflows : ¬ digits.foldl (fun n c => 10 * n + (c.toNat - 48))
          (10 * value + (c.toNat - 48)) ≤ uint64Max :=
        fun fits => here ((le_foldl_digits digits _).trans fits)
      rw [if_neg here, if_neg overflows]
      rfl

theorem starts_decimal (n : Nat) (rest : ByteString) : Starts (decimal n ++ rest) := by
  obtain ⟨c, digits, text⟩ := List.exists_cons_of_ne_nil (decimal_ne_nil n)
  have first : isdigit c := decimal_isdigit n c (text ▸ List.mem_cons_self)
  rw [text]
  apply starts_cons
  rw [Bool.eq_false_iff]
  intro blank
  simp only [Bool.or_eq_true, beq_iff_eq] at blank
  rcases blank with ((same | same) | same) | same
  all_goals
    rw [same] at first
    exact absurd first (by decide)

/-- A decimal number is read back. -/
theorem parseUint64_decimal {n : Nat} (small : n < 2 ^ 64) {rest : ByteString}
    (stops : ∀ c ∈ rest.head?, ¬ isdigit c) : parseUint64 (decimal n ++ rest) = .ok (n, rest) := by
  have starts : skipWhitespace (decimal n ++ rest) = decimal n ++ rest := starts_decimal n rest
  have taken : (decimal n ++ rest).takeWhile isdigit = decimal n := by
    rw [List.takeWhile_append_of_pos (decimal_isdigit n)]
    cases rest with
    | nil => simp
    | cons d rest => simp [stops d rfl]
  have dropped : (decimal n ++ rest).dropWhile isdigit = rest := by
    rw [List.dropWhile_append_of_pos (decimal_isdigit n)]
    cases rest with
    | nil => rfl
    | cons d rest => simp [stops d rfl]
  have value : (decimal n).foldl (fun n c => 10 * n + (c.toNat - 48)) 0 = n :=
    digitsValue_decimal n
  have read : (decimal n).foldlM pushDigit 0 = .ok n := by
    have fits : n ≤ uint64Max := by
      unfold uint64Max
      omega
    rw [foldlM_pushDigit (decimal_isdigit n) (Nat.zero_le _), value, if_pos fits]
  unfold parseUint64
  dsimp only
  rw [starts, taken, dropped, read, isEmpty_decimal]
  rfl

/-! ### Arrays -/

/-- The files behind the first one, and the end of the array. -/
def restLines (files : List ByteString) : ByteString :=
  files.flatMap (fun file => str ",\n    " ++ quoted file) ++ str "\n  ]"

theorem parseItems_step {s s' entry : ByteString} (turns : Nat) (out : List ByteString)
    (h : parseString s = .ok (entry, s')) :
    parseItems (turns + 1) out s =
      if peek (skipWhitespace s') == chr ',' then
        parseItems turns (out ++ [entry]) (skipWhitespace s').tail
      else if peek (skipWhitespace s') == chr ']' then
        .ok (out ++ [entry], (skipWhitespace s').tail)
      else .error (str "Malformed array in package-info JSON") := by
  rw [parseItems, h]
  rfl

/-- The loop reads the files one by one, with enough turns. -/
theorem parseItems_lines (file : ByteString) (files out : List ByteString) (rest : ByteString)
    {turns : Nat} (enough : files.length < turns) {s : ByteString}
    (h : skipWhitespace s = quoted file ++ (restLines files ++ rest)) :
    parseItems turns out s = .ok (out ++ file :: files, rest) := by
  induction files generalizing file out turns s with
  | nil =>
    obtain ⟨turns, rfl⟩ := Nat.exists_eq_add_of_lt enough
    have ended : skipWhitespace (restLines [] ++ rest) = chr ']' :: rest :=
      skipWhitespace_append (by decide : ∀ c ∈ str "\n  ", _) (starts_cons (by decide) rest)
    rw [List.length_nil, Nat.zero_add, parseItems_step _ _ (parseString_quoted _ _ h), ended]
    rfl
  | cons next files ih =>
    obtain ⟨turns, rfl⟩ := Nat.exists_eq_add_of_lt enough
    have comma : restLines (next :: files) ++ rest =
        chr ',' :: (str "\n    " ++ (quoted next ++ (restLines files ++ rest))) := by
      simp [restLines, str, chr]
    have going : skipWhitespace (restLines (next :: files) ++ rest) =
        restLines (next :: files) ++ rest := by
      rw [comma]
      exact starts_cons (by decide) _
    have indent : skipWhitespace (str "\n    " ++ (quoted next ++ (restLines files ++ rest))) =
        quoted next ++ (restLines files ++ rest) :=
      skipWhitespace_append (by decide) (starts_quoted _ _)
    rw [parseItems_step _ _ (parseString_quoted _ _ h), going, comma]
    have more : files.length < (next :: files).length + turns := by
      rw [List.length_cons]
      omega
    have later := ih next (out ++ [file]) more indent
    rw [List.append_assoc, List.singleton_append] at later
    exact later

/-- The lines of the files are those of the array. -/
theorem fileLines_cons (file : ByteString) (files : List ByteString) :
    fileLines (file :: files) ++ str "  ]" = str "    " ++ quoted file ++ restLines files := by
  have filled : (file :: files).isEmpty = false := rfl
  rw [fileLines, filled, List.map_cons, intercalate_cons, restLines, List.flatMap_map]
  simp [str]

theorem length_le_restLines (files : List ByteString) :
    files.length ≤ (restLines files).length := by
  unfold restLines
  induction files with
  | nil => exact Nat.zero_le _
  | cons file files ih =>
    rw [List.flatMap_cons]
    simp only [List.length_append, List.length_cons] at ih ⊢
    have indent : (str ",\n    ").length = 6 := rfl
    omega

theorem parseStringArray_step {s s' : ByteString} (out : List ByteString)
    (h : consume (chr '[') (skipWhitespace s) = .ok s') :
    parseStringArray out s =
      if peek (skipWhitespace s') == chr ']' then .ok (out, (skipWhitespace s').tail)
      else parseItems (skipWhitespace s').length out (skipWhitespace s') := by
  rw [parseStringArray, h]
  rfl

/-- The array of the files is read back. -/
theorem parseStringArray_lines (files : List ByteString) (rest : ByteString) :
    parseStringArray [] (str "[\n" ++ fileLines files ++ str "  ]" ++ rest) =
      .ok (files, rest) := by
  cases files with
  | nil => rfl
  | cons file files =>
    have text : str "[\n" ++ fileLines (file :: files) ++ str "  ]" ++ rest =
        chr '[' :: (str "\n    " ++ (quoted file ++ (restLines files ++ rest))) := by
      rw [List.append_assoc (str "[\n"), fileLines_cons]
      simp [str, chr]
    have opens : skipWhitespace (chr '[' ::
        (str "\n    " ++ (quoted file ++ (restLines files ++ rest)))) =
          chr '[' :: (str "\n    " ++ (quoted file ++ (restLines files ++ rest))) :=
      starts_cons (by decide) _
    have indent : skipWhitespace (str "\n    " ++ (quoted file ++ (restLines files ++ rest))) =
        quoted file ++ (restLines files ++ rest) :=
      skipWhitespace_append (by decide) (starts_quoted _ _)
    have again : skipWhitespace (quoted file ++ (restLines files ++ rest)) =
        quoted file ++ (restLines files ++ rest) := starts_quoted _ _
    have enough : files.length < (quoted file ++ (restLines files ++ rest)).length := by
      have lines := length_le_restLines files
      rw [quoted_append]
      simp only [List.length_cons, List.length_append]
      omega
    have read := parseItems_lines file files [] rest enough again
    have consumed : consume (chr '[') (skipWhitespace (chr '[' ::
        (str "\n    " ++ (quoted file ++ (restLines files ++ rest))))) =
          .ok (str "\n    " ++ (quoted file ++ (restLines files ++ rest))) := by
      unfold consume
      dsimp only
      rw [opens, opens]
      rfl
    have notClose : (peek (quoted file ++ (restLines files ++ rest)) == chr ']') = false := by
      rw [quoted_append]
      rfl
    rw [text, parseStringArray_step _ consumed, indent, notClose, if_neg Bool.false_ne_true,
      read]
    rfl

/-! ### Fields -/

/-- What stands before a field. -/
def fieldStart (firstField : Bool) : ByteString := if firstField then str "\n  " else str ",\n  "

/-- One turn of the loop reads a field. -/
theorem parseFields_field {firstField : Bool} {info info' : PackageInfo}
    {key text rest : ByteString} (turns : Nat) (starts : Starts (text ++ rest))
    (read : parseField key info (text ++ rest) = .ok (info', rest)) :
    parseFields (turns + 1) firstField info
        (fieldStart firstField ++ quoted key ++ str ": " ++ text ++ rest) =
      parseFields turns false info' rest := by
  have colon : consume (chr ':') (skipWhitespace (str ": " ++ (text ++ rest))) =
      .ok (str " " ++ (text ++ rest)) := by
    have here : skipWhitespace (str ": " ++ (text ++ rest)) = str ": " ++ (text ++ rest) :=
      starts_cons (by decide) _
    unfold consume
    dsimp only
    rw [here, here]
    rfl
  have value : skipWhitespace (str " " ++ (text ++ rest)) = text ++ rest :=
    skipWhitespace_append (by decide) starts
  have blank : skipWhitespace (str "\n  " ++ (quoted key ++ (str ": " ++ (text ++ rest)))) =
      quoted key ++ (str ": " ++ (text ++ rest)) :=
    skipWhitespace_append (by decide) (starts_quoted _ _)
  have again : skipWhitespace (quoted key ++ (str ": " ++ (text ++ rest))) =
      quoted key ++ (str ": " ++ (text ++ rest)) := starts_quoted _ _
  have notClose : (peek (quoted key ++ (str ": " ++ (text ++ rest))) == chr '}') = false := by
    rw [quoted_append]
    rfl
  simp only [List.append_assoc]
  cases firstField with
  | true =>
    have front : fieldStart true = str "\n  " := rfl
    rw [front, parseFields]
    simp only [blank, notClose, Bool.false_eq_true, if_false, if_true, bind, Except.bind,
      parseString_quoted _ _ again, colon, value, read]
  | false =>
    have front : fieldStart false ++ (quoted key ++ (str ": " ++ (text ++ rest))) =
        chr ',' :: (str "\n  " ++ (quoted key ++ (str ": " ++ (text ++ rest)))) := rfl
    have here : skipWhitespace
        (chr ',' :: (str "\n  " ++ (quoted key ++ (str ": " ++ (text ++ rest))))) =
          chr ',' :: (str "\n  " ++ (quoted key ++ (str ": " ++ (text ++ rest)))) :=
      starts_cons (by decide) _
    have comma : consume (chr ',')
        (chr ',' :: (str "\n  " ++ (quoted key ++ (str ": " ++ (text ++ rest))))) =
          .ok (str "\n  " ++ (quoted key ++ (str ": " ++ (text ++ rest)))) := by
      unfold consume
      dsimp only
      rw [here]
      rfl
    have notClose : (peek (chr ',' :: (str "\n  " ++
        (quoted key ++ (str ": " ++ (text ++ rest))))) == chr '}') = false := rfl
    rw [front, parseFields]
    simp only [here, notClose, Bool.false_eq_true, if_false, bind, Except.bind, comma,
      parseString_quoted _ _ blank, colon, value, read]

/-- The record as its fields, one behind the other. -/
theorem serializePackageInfo_eq (info : PackageInfo) :
    serializePackageInfo info = chr '{' ::
      (fieldStart true ++ quoted (str "package") ++ str ": " ++ quoted info.name ++
        (fieldStart false ++ quoted (str "version") ++ str ": " ++ quoted info.version ++
          (fieldStart false ++ quoted (str "install_time") ++ str ": " ++
            decimal info.installTime ++
            (fieldStart false ++ quoted (str "prefix") ++ str ": " ++ quoted info.prefixDir ++
              (fieldStart false ++ quoted (str "installed_files") ++ str ": " ++
                (str "[\n" ++ fileLines info.installedFiles ++ str "  ]") ++
                  str "\n\x7d\n"))))) := by
  simp [serializePackageInfo, fieldStart, quoted, escapeJsonString, escapeByte, str, chr]

/-- A field that is a string is set to what was written. -/
theorem parseField_quoted {key text : ByteString} (info : PackageInfo) (rest : ByteString)
    (set : PackageInfo → ByteString → PackageInfo)
    (reads : ∀ s, parseField key info s = (do
      let (text, s) ← parseString s
      .ok (set info text, s))) :
    parseField key info (quoted text ++ rest) = .ok (set info text, rest) := by
  rw [reads, parseString_quoted _ _ (starts_quoted _ _)]
  rfl

theorem parseField_time {n : Nat} (small : n < 2 ^ 64) (info : PackageInfo) {rest : ByteString}
    (stops : ∀ c ∈ rest.head?, ¬ isdigit c) :
    parseField (str "install_time") info (decimal n ++ rest) =
      .ok ({ info with installTime := n }, rest) := by
  have step : ∀ s, parseField (str "install_time") info s =
      (parseUint64 s).bind fun read => .ok ({ info with installTime := read.1 }, read.2) :=
    fun _ => rfl
  rw [step, parseUint64_decimal small stops]
  rfl

theorem parseField_files (info : PackageInfo) (files : List ByteString) (rest : ByteString)
    (fresh : info.installedFiles = []) :
    parseField (str "installed_files") info
        (str "[\n" ++ fileLines files ++ str "  ]" ++ rest) =
      .ok ({ info with installedFiles := files }, rest) := by
  have step : ∀ s, parseField (str "installed_files") info s =
      (parseStringArray info.installedFiles s).bind fun read =>
        .ok ({ info with installedFiles := read.1 }, read.2) := fun _ => rfl
  rw [step, fresh, parseStringArray_lines]
  rfl

/-- A written record is read back. -/
theorem parsePackageInfo_written {info : PackageInfo} (named : info.name ≠ [])
    (placed : info.prefixDir ≠ []) (time : info.installTime < 2 ^ 64) :
    parsePackageInfo (serializePackageInfo info) = .ok info := by
  obtain ⟨name, version, installTime, prefixDir, installedFiles⟩ := info
  dsimp only at named placed time
  rw [serializePackageInfo_eq]
  dsimp only
  generalize fields : fieldStart true ++ quoted (str "package") ++ _ ++ _ ++ _ = body
  have long : 5 ≤ body.length := by
    have first : (fieldStart true ++ quoted (str "package")).length = 12 := by decide
    rw [← fields]
    simp only [List.length_append] at first ⊢
    omega
  obtain ⟨turns, enough⟩ := Nat.exists_eq_add_of_le' long
  have read : parseFields (turns + 6) true {} body =
      .ok ⟨name, version, installTime, prefixDir, installedFiles⟩ := by
    rw [← fields]
    refine (parseFields_field _ (starts_quoted _ _)
      (parseField_quoted _ _ (fun i text => { i with name := text }) fun _ => rfl)).trans ?_
    refine (parseFields_field _ (starts_quoted _ _)
      (parseField_quoted _ _ (fun i text => { i with version := text }) fun _ => rfl)).trans ?_
    refine (parseFields_field _ (starts_decimal _ _)
      (parseField_time time _ (by simp [fieldStart, str, isdigit]))).trans ?_
    refine (parseFields_field _ (starts_quoted _ _)
      (parseField_quoted _ _ (fun i text => { i with prefixDir := text }) fun _ => rfl)).trans ?_
    refine (parseFields_field _ (starts_cons (by decide) _)
      (parseField_files _ _ _ rfl)).trans ?_
    rfl
  have opened : consume (chr '{') (skipWhitespace (chr '{' :: body)) = .ok body := by
    have here : skipWhitespace (chr '{' :: body) = chr '{' :: body := starts_cons (by decide) _
    unfold consume
    dsimp only
    rw [here, here]
    rfl
  unfold parsePackageInfo
  rw [opened]
  simp only [bind, Except.bind, enough, read]
  rw [if_neg (by simpa using named), if_neg (by simpa using placed)]

/-- **The reader inverts the writer** on every record with a name and a prefix, whatever bytes its
texts hold. -/
theorem packageInfo_roundTrips (name version prefixDir : ByteString) (installTime : UInt64)
    (installedFiles : List ByteString) (named : name ≠ []) (placed : prefixDir ≠ []) :
    parsePackageInfo (serializePackageInfo
      { name, version, installTime := installTime.toNat, prefixDir, installedFiles }) =
      .ok { name, version, installTime := installTime.toNat, prefixDir, installedFiles } := by
  apply parsePackageInfo_written
  · exact named
  · exact placed
  · exact installTime.toNat_lt

/-- A record with quotes, a NUL, a line break and the latest time. -/
theorem packageInfo_roundTrips_escapes :
    parsePackageInfo (serializePackageInfo
      ⟨str "a\"b", [0, 255], (0 - 1 : UInt64).toNat, str "/opt\n", [[], str "\""]⟩) =
      .ok ⟨str "a\"b", [0, 255], (0 - 1 : UInt64).toNat, str "/opt\n", [[], str "\""]⟩ :=
  packageInfo_roundTrips (str "a\"b") [0, 255] (str "/opt\n") (0 - 1) [[], str "\""] (by decide)
    (by decide)

end Apm.Manual
