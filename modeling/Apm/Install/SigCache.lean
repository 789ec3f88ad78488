import Apm.Lib.Assoc
import Apm.Lib.Loop
import Apm.Util.Path
import Mathlib.Data.List.TakeWhile

/-!
The signature cache of `src/apmd/install_manager.cpp`: `storeSigCache` prints the
map by concatenation, `loadSigCache` reads it back with a scanner over quotes,
colons, commas and braces.

## Main results

* `parseSigCache_total` — the scanner ends on every text;
* `parseSigCache_json_iff` — what is printed reads back as the same map exactly
  when every entry carries its key and no field holds a quote.
-/

namespace Apm.Install

open Apm.Lib

/-! ### The cache and its scanner -/

structure SigCacheEntry where
  sha256 : ByteString := []
  sigType : ByteString := []
  sigSource : ByteString := []
  sigPath : ByteString := []
  verifiedBy : ByteString := []
deriving DecidableEq

abbrev SigCache := AList fun _ : ByteString => SigCacheEntry

def quote : UInt8 := chr '"'

/-- The lambda `nextString`: the next quoted string and what follows it; nothing,
at the end of the text, when a quote is missing. -/
def nextString (s : ByteString) : ByteString × ByteString :=
  match s.dropWhile (· != quote) with
  | [] => ([], [])
  | _ :: s =>
      match s.dropWhile (· != quote) with
      | [] => ([], [])
      | _ :: rest => (s.takeWhile (· != quote), rest)

def SigCacheEntry.set (e : SigCacheEntry) (field value : ByteString) : SigCacheEntry :=
  if field == str "sigType" then { e with sigType := value }
  else if field == str "sigSource" then { e with sigSource := value }
  else if field == str "sigPath" then { e with sigPath := value }
  else if field == str "verifiedBy" then { e with verifiedBy := value }
  else e

/-- Skip the byte if it comes next. -/
def skipByte (c : UInt8) (s : ByteString) : ByteString := if s.head? == some c then s.tail else s

/-- What a turn of the loop over an object's fields reads: a field name, a value,
and the rest behind the next comma or before the closing brace. -/
def readField (s : ByteString) : ByteString × ByteString × ByteString :=
  let field := nextString s
  let value := nextString (field.2.dropWhile (· != chr ':')).tail
  (field.1, value.1,
    skipByte (chr ',') (value.2.dropWhile fun b => b != chr ',' && b != chr '}'))

/-- The loop over an object's fields stops before `}` or at the end. -/
def fieldStep (x : SigCacheEntry × ByteString) :
    (SigCacheEntry × ByteString) ⊕ (SigCacheEntry × ByteString) :=
  if x.2.head?.all (· == chr '}') then .inr x
  else
    let r := readField x.2
    .inl (x.1.set r.1 r.2.1, r.2.2)

theorem nextString_length (s : ByteString) :
    (nextString s).2.length ≤ s.length ∧ (s ≠ [] → (nextString s).2.length < s.length) := by
  unfold nextString
  have outer := List.length_dropWhile_le (· != quote) s
  split
  · exact ⟨Nat.zero_le _, fun h => List.length_pos_iff.mpr h⟩
  · rename_i b s' hs
    rw [hs, List.length_cons] at outer
    have inner := List.length_dropWhile_le (· != quote) s'
    split
    · exact ⟨Nat.zero_le _, fun _ => Nat.lt_of_lt_of_le (Nat.succ_pos _) outer⟩
    · rename_i hs'
      rw [hs', List.length_cons] at inner
      exact ⟨by dsimp only; omega, fun _ => by dsimp only; omega⟩

theorem skipByte_length (c : UInt8) (s : ByteString) : (skipByte c s).length ≤ s.length := by
  unfold skipByte
  split
  · rw [List.length_tail]
    exact Nat.sub_le _ _
  · exact Nat.le_refl _

theorem readField_length {s : ByteString} (h : s ≠ []) : (readField s).2.2.length < s.length := by
  unfold readField
  have field := (nextString_length s).2 h
  have colon := List.length_dropWhile_le (· != chr ':') (nextString s).2
  have tail := List.length_tail (l := (nextString s).2.dropWhile (· != chr ':'))
  have value := (nextString_length ((nextString s).2.dropWhile (· != chr ':')).tail).1
  have stop := List.length_dropWhile_le (fun b => b != chr ',' && b != chr '}')
    (nextString ((nextString s).2.dropWhile (· != chr ':')).tail).2
  refine Nat.lt_of_le_of_lt (skipByte_length _ _) ?_
  omega

theorem fieldStep_descends : Loop.Descends (fun x => x.2.length) fieldStep := by
  rintro ⟨entry, s⟩ s' h
  unfold fieldStep at h
  split at h
  · cases h
  · rename_i go
    cases h
    refine readField_length ?_
    rintro rfl
    exact go rfl

/-- The inner loop of `loadSigCache`. -/
def parseFields (entry : SigCacheEntry) (s : ByteString) : SigCacheEntry × ByteString :=
  Loop.run fieldStep_descends (entry, s)

/-- One turn of the outer loop of `loadSigCache`. It stops at the end of the text,
at an empty key, and where no `{` follows a key. -/
def entryStep (x : SigCache × ByteString) : (SigCache × ByteString) ⊕ SigCache :=
  match x.2 with
  | [] => .inr x.1
  | c :: s =>
      if c == quote then
        let key := nextString (c :: s)
        if key.1.isEmpty then .inr x.1
        else
          match key.2.dropWhile (· != chr '{') with
          | [] => .inr x.1
          | _ :: object =>
              let entry := parseFields { sha256 := key.1 } object
              .inl (x.1.insert key.1 entry.1, skipByte (chr '}') entry.2)
      else .inl (x.1, s)

theorem parseFields_length (entry : SigCacheEntry) (s : ByteString) :
    (parseFields entry s).2.length ≤ s.length := by
  refine Loop.run_invariant fieldStep_descends (fun x => x.2.length ≤ s.length)
    (fun x => x.2.length ≤ s.length) ?_ ?_ (Nat.le_refl _)
  · intro x x' le h
    exact Nat.le_of_lt (Nat.lt_of_lt_of_le (fieldStep_descends x x' h) le)
  · intro x r le h
    unfold fieldStep at h
    split at h
    · cases h
      exact le
    · cases h

/-- What a turn of the outer loop does when it goes on: it skips a byte, or it reads
an object under a key. -/
theorem entryStep_next {x x' : SigCache × ByteString} (h : entryStep x = .inl x') :
    (x'.1 = x.1 ∧ ∃ c, x.2 = c :: x'.2) ∨
      ∃ b object, x.2 ≠ [] ∧
        (nextString x.2).2.dropWhile (· != chr '{') = b :: object ∧
        x'.1 = x.1.insert (nextString x.2).1
          (parseFields { sha256 := (nextString x.2).1 } object).1 ∧
        x'.2 = skipByte (chr '}') (parseFields { sha256 := (nextString x.2).1 } object).2 := by
  obtain ⟨out, s⟩ := x
  cases s with
  | nil => cases h
  | cons c s =>
    simp only [entryStep] at h
    split at h
    · split at h
      · cases h
      split at h
      · cases h
      · rename_i b object hobject
        cases h
        exact .inr ⟨b, object, List.cons_ne_nil c s, hobject, rfl, rfl⟩
    · cases h
      exact .inl ⟨rfl, c, rfl⟩

theorem entryStep_stop {x : SigCache × ByteString} {r : SigCache} (h : entryStep x = .inr r) :
    r = x.1 := by
  obtain ⟨out, s⟩ := x
  cases s with
  | nil =>
    cases h
    rfl
  | cons c s =>
    simp only [entryStep] at h
    split at h
    · split at h
      · cases h
        rfl
      split at h
      · cases h
        rfl
      · cases h
    · cases h

theorem entryStep_descends : Loop.Descends (fun x => x.2.length) entryStep := by
  intro x x' h
  dsimp only
  rcases entryStep_next h with ⟨-, c, hx⟩ | ⟨b, object, nonempty, hobject, -, hx'⟩
  · rw [hx]
    exact Nat.lt_succ_self _
  · have key := (nextString_length x.2).2 nonempty
    have brace := List.length_dropWhile_le (· != chr '{') (nextString x.2).2
    rw [hobject, List.length_cons] at brace
    have fields := parseFields_length { sha256 := (nextString x.2).1 } object
    have close := skipByte_length (chr '}')
      (parseFields { sha256 := (nextString x.2).1 } object).2
    rw [hx']
    omega

/-- The map that `loadSigCache` reads from the text of the file. -/
def parseSigCache (raw : ByteString) : SigCache := Loop.run entryStep_descends (∅, raw)

/-- `loadSigCache`: the flag and the map, from the file's text if it can be read. -/
def loadSigCache (file : Option ByteString) : Bool × SigCache :=
  match file with
  | none => (false, ∅)
  | some raw => (true, parseSigCache raw)

/-! ### What is written -/

/-- One entry of the file; `sha256` is not written. -/
def entryJson (key : ByteString) (e : SigCacheEntry) : ByteString :=
  str "  \"" ++ key ++ str "\": \x7b\n" ++
  str "    \"sigType\": \"" ++ e.sigType ++ str "\",\n" ++
  str "    \"sigSource\": \"" ++ e.sigSource ++ str "\",\n" ++
  str "    \"sigPath\": \"" ++ e.sigPath ++ str "\",\n" ++
  str "    \"verifiedBy\": \"" ++ e.verifiedBy ++ str "\"\n" ++
  str "  \x7d"

/-- The text `storeSigCache` writes. The iteration order is the map's. -/
def sigCacheJson (map : SigCache) : ByteString :=
  str "\x7b\n" ++ (str ",\n").intercalate (map.entries.map fun kv => entryJson kv.1 kv.2) ++
    str "\n\x7d\n"

/-! ### Reading back -/

/-- The text holds no quote. -/
def Unquoted (s : ByteString) : Prop := quote ∉ s

instance (s : ByteString) : Decidable (Unquoted s) := inferInstanceAs (Decidable (¬ _ ∈ s))

theorem dropWhile_until {stop : UInt8} {a : ByteString} (h : stop ∉ a) (s : ByteString) :
    (a ++ stop :: s).dropWhile (· != stop) = stop :: s := by
  rw [List.dropWhile_append_of_pos, List.dropWhile_cons_of_neg (by simp)]
  intro b hb
  simp only [bne_iff_ne]
  rintro rfl
  exact h hb

theorem takeWhile_until {stop : UInt8} {a : ByteString} (h : stop ∉ a) (s : ByteString) :
    (a ++ stop :: s).takeWhile (· != stop) = a := by
  rw [List.takeWhile_append_of_pos, List.takeWhile_cons_of_neg (by simp), List.append_nil]
  intro b hb
  simp only [bne_iff_ne]
  rintro rfl
  exact h hb

/-- A quoted string is read back. -/
theorem nextString_quoted {a v : ByteString} (ha : Unquoted a) (hv : Unquoted v)
    (s : ByteString) : nextString (a ++ quote :: (v ++ quote :: s)) = (v, s) := by
  unfold nextString
  rw [dropWhile_until ha]
  dsimp only
  rw [dropWhile_until hv, takeWhile_until hv]

/-- What the scanner reads holds no quote. -/
theorem nextString_unquoted (s : ByteString) : Unquoted (nextString s).1 := by
  unfold nextString
  split
  · exact List.not_mem_nil
  split
  · exact List.not_mem_nil
  · intro h
    simpa using List.mem_takeWhile_imp h

/-- An entry that survives printing and reading under its key. -/
structure Printable (key : ByteString) (e : SigCacheEntry) : Prop where
  sha256 : e.sha256 = key
  sigType : Unquoted e.sigType
  sigSource : Unquoted e.sigSource
  sigPath : Unquoted e.sigPath
  verifiedBy : Unquoted e.verifiedBy

/-- A printed field, from the end of the line before it to its closing quote. -/
def fieldJson (name value : ByteString) : ByteString :=
  str "\n    " ++ quote :: (name ++ quote :: chr ':' :: chr ' ' :: quote :: (value ++ [quote]))

/-- The fields of a printed entry and what stands between them. -/
theorem entryJson_eq (key : ByteString) (e : SigCacheEntry) (s : ByteString) :
    entryJson key e ++ s =
      str "  " ++ quote :: (key ++ quote :: (str ": " ++ chr '{' ::
        (fieldJson (str "sigType") e.sigType ++ chr ',' ::
          (fieldJson (str "sigSource") e.sigSource ++ chr ',' ::
            (fieldJson (str "sigPath") e.sigPath ++ chr ',' ::
              (fieldJson (str "verifiedBy") e.verifiedBy ++ (str "\n  " ++ chr '}' :: s))))))) := by
  simp only [entryJson, fieldJson, List.append_assoc, List.cons_append]
  rfl

/-- A printed field is read back, up to the byte that ends it. -/
theorem readField_json {name value between : ByteString} {stop : UInt8} (hname : Unquoted name)
    (hvalue : Unquoted value) (hbetween : between.all fun b => b != chr ',' && b != chr '}')
    (hstop : stop = chr ',' ∨ stop = chr '}') (s : ByteString) :
    readField (fieldJson name value ++ (between ++ stop :: s)) =
      (name, value, skipByte (chr ',') (stop :: s)) := by
  have indent : Unquoted (str "\n    ") := by decide
  have blank : Unquoted [chr ' '] := by decide
  have readName := nextString_quoted indent hname
    (chr ':' :: chr ' ' :: quote :: (value ++ quote :: (between ++ stop :: s)))
  have colon : (chr ':' :: chr ' ' :: quote :: (value ++ quote :: (between ++ stop :: s))).dropWhile
      (· != chr ':') = chr ':' :: chr ' ' :: quote :: (value ++ quote :: (between ++ stop :: s)) :=
    List.dropWhile_cons_of_neg (by simp)
  have readValue := nextString_quoted blank hvalue (between ++ stop :: s)
  rw [List.singleton_append] at readValue
  have rest : (between ++ stop :: s).dropWhile (fun b => b != chr ',' && b != chr '}') =
      stop :: s := by
    rw [List.dropWhile_append_of_pos, List.dropWhile_cons_of_neg]
    · rcases hstop with rfl | rfl <;> simp
    · exact fun b hb => List.all_eq_true.mp hbetween b hb
  unfold readField fieldJson
  simp only [List.append_assoc, List.cons_append, List.nil_append]
  rw [readName, colon, List.tail_cons, readValue, rest]

/-- Reading a printed field in the loop over an object's fields. -/
theorem parseFields_step (entry : SigCacheEntry) {name value between : ByteString} {stop : UInt8}
    (hname : Unquoted name) (hvalue : Unquoted value)
    (hbetween : between.all fun b => b != chr ',' && b != chr '}')
    (hstop : stop = chr ',' ∨ stop = chr '}') (s : ByteString) :
    parseFields entry (fieldJson name value ++ (between ++ stop :: s)) =
      parseFields (entry.set name value) (skipByte (chr ',') (stop :: s)) := by
  refine Loop.run_next fieldStep_descends ?_
  have read := readField_json hname hvalue hbetween hstop s
  unfold fieldStep
  rw [if_neg, read]
  simp [fieldJson, str, chr]

theorem parseFields_close (entry : SigCacheEntry) (s : ByteString) :
    parseFields entry (chr '}' :: s) = (entry, chr '}' :: s) :=
  Loop.run_stop fieldStep_descends (by simp [fieldStep])

/-- **The fields of a printed object are read back.** -/
theorem parseFields_json {key : ByteString} {e : SigCacheEntry} (h : Printable key e)
    (s : ByteString) :
    parseFields { sha256 := key }
        (fieldJson (str "sigType") e.sigType ++ chr ',' ::
          (fieldJson (str "sigSource") e.sigSource ++ chr ',' ::
            (fieldJson (str "sigPath") e.sigPath ++ chr ',' ::
              (fieldJson (str "verifiedBy") e.verifiedBy ++ (str "\n  " ++ chr '}' :: s))))) =
      (e, chr '}' :: s) := by
  have comma (entry : SigCacheEntry) {name value : ByteString} (hname : Unquoted name)
      (hvalue : Unquoted value) (s : ByteString) :
      parseFields entry (fieldJson name value ++ chr ',' :: s) =
        parseFields (entry.set name value) s := by
    have step := @parseFields_step entry name value [] (chr ',') hname hvalue rfl (.inl rfl) s
    exact step
  rw [comma _ (by decide) h.sigType, comma _ (by decide) h.sigSource,
    comma _ (by decide) h.sigPath,
    parseFields_step _ (by decide) h.verifiedBy rfl (.inr rfl)]
  refine (parseFields_close _ s).trans ?_
  rw [← h.sha256]
  rfl

/-! ### The outer loop over printed entries -/

/-- Text without quotes is skipped. -/
theorem run_skip (out : SigCache) {a : ByteString} (ha : Unquoted a) (s : ByteString) :
    Loop.run entryStep_descends (out, a ++ s) = Loop.run entryStep_descends (out, s) := by
  induction a with
  | nil => rfl
  | cons c a ih =>
    obtain ⟨hc, ha⟩ := not_or.mp (mt List.mem_cons.mpr ha)
    rw [← ih ha]
    refine Loop.run_next entryStep_descends ?_
    simp [entryStep, Ne.symm hc]

/-- A printed entry is read back. -/
theorem run_entry (out : SigCache) {key : ByteString} {e : SigCacheEntry} (nonempty : key ≠ [])
    (hkey : Unquoted key) (h : Printable key e) (s : ByteString) :
    Loop.run entryStep_descends (out, entryJson key e ++ s) =
      Loop.run entryStep_descends (out.insert key e, s) := by
  have readKey := fun s => nextString_quoted (a := []) List.not_mem_nil hkey s
  simp only [List.nil_append] at readKey
  have open' : ∀ s, (str ": " ++ chr '{' :: s).dropWhile (· != chr '{') = chr '{' :: s :=
    dropWhile_until (by decide)
  rw [entryJson_eq, run_skip out (by decide)]
  refine Loop.run_next entryStep_descends ?_
  unfold entryStep
  simp only [beq_self_eq_true, if_true, readKey, open', parseFields_json h]
  rw [if_neg (by simpa using nonempty)]
  rfl

/-- **The printed map is read back** entry by entry. -/
theorem run_entries {l : List (Sigma fun _ : ByteString => SigCacheEntry)}
    (keys : ∀ kv ∈ l, kv.1 ≠ [] ∧ Unquoted kv.1) (printable : ∀ kv ∈ l, Printable kv.1 kv.2)
    (out : SigCache) :
    Loop.run entryStep_descends
        (out, (str ",\n").intercalate (l.map fun kv => entryJson kv.1 kv.2) ++ str "\n\x7d\n") =
      l.foldl (fun m kv => m.insert kv.1 kv.2) out := by
  have done : ∀ out, Loop.run entryStep_descends (out, str "\n\x7d\n") = out := by
    intro out
    rw [← List.append_nil (str "\n\x7d\n"), run_skip out (by decide)]
    exact Loop.run_stop entryStep_descends rfl
  induction l generalizing out with
  | nil => exact done out
  | cons kv l ih =>
    obtain ⟨nonempty, hkey⟩ := keys kv List.mem_cons_self
    have entry := run_entry out nonempty hkey (printable kv List.mem_cons_self)
    have ih := ih (fun x hx => keys x (List.mem_cons_of_mem _ hx))
      (fun x hx => printable x (List.mem_cons_of_mem _ hx)) (out.insert kv.1 kv.2)
    cases l with
    | nil =>
      simp only [List.map_cons, List.map_nil, List.intercalate_singleton, List.foldl_cons]
      rw [entry]
      exact ih
    | cons kv' l =>
      simp only [List.map_cons, List.intercalate_cons_cons, List.append_assoc, List.foldl_cons]
        at ih ⊢
      rw [entry, run_skip _ (by decide)]
      exact ih

/-! ### What can be read at all -/

theorem Printable.new (key : ByteString) : Printable key { sha256 := key } :=
  ⟨rfl, List.not_mem_nil, List.not_mem_nil, List.not_mem_nil, List.not_mem_nil⟩

theorem Printable.set {key field value : ByteString} {e : SigCacheEntry} (h : Printable key e)
    (hvalue : Unquoted value) : Printable key (e.set field value) := by
  unfold SigCacheEntry.set
  split
  · exact { h with sigType := hvalue }
  split
  · exact { h with sigSource := hvalue }
  split
  · exact { h with sigPath := hvalue }
  split
  · exact { h with verifiedBy := hvalue }
  · exact h

/-- Reading the fields of an object keeps its entry printable. -/
theorem parseFields_printable {key : ByteString} {entry : SigCacheEntry}
    (h : Printable key entry) (s : ByteString) : Printable key (parseFields entry s).1 := by
  refine Loop.run_invariant fieldStep_descends (fun x => Printable key x.1)
    (fun x => Printable key x.1) ?_ ?_ h
  · intro x x' hx step
    unfold fieldStep at step
    split at step
    · cases step
    · cases step
      exact hx.set (nextString_unquoted _)
  · intro x r hx step
    unfold fieldStep at step
    split at step
    · cases step
      exact hx
    · cases step

/-- **Whatever the text, only printable entries are read.** -/
theorem parseSigCache_printable (raw : ByteString) {key : ByteString} {e : SigCacheEntry}
    (h : (parseSigCache raw).lookup key = some e) : Printable key e := by
  revert key e
  refine Loop.run_invariant entryStep_descends
    (fun x => ∀ {key e}, x.1.lookup key = some e → Printable key e)
    (fun out => ∀ {key e}, out.lookup key = some e → Printable key e) ?_ ?_ (by simp)
  · intro x x' inv step key e found
    rcases entryStep_next step with ⟨same, -⟩ | ⟨b, object, -, -, hx', -⟩
    · exact inv (same ▸ found)
    · rw [hx'] at found
      by_cases same : key = (nextString x.2).1
      · subst same
        rw [AList.lookup_insert] at found
        cases found
        exact parseFields_printable (.new _) _
      · rw [AList.lookup_insert_ne same] at found
        exact inv found
  · intro x r inv step
    rw [entryStep_stop step]
    exact inv

/-! ### Main results -/

/-- A key as the cache uses it: nonempty and hexadecimal. -/
def HexKeyed (map : SigCache) : Prop := ∀ key ∈ map, key ≠ [] ∧ ∀ c ∈ key, isxdigit c

theorem unquoted_of_hex {key : ByteString} (h : ∀ c ∈ key, isxdigit c) : Unquoted key :=
  fun hq => absurd (h quote hq) (by decide)

/-- Reading the printed text gives the map back: the same entry, or none, for every key. -/
def ReadsBack (map : SigCache) : Prop :=
  ∀ key, (loadSigCache (some (sigCacheJson map))).2.lookup key = map.lookup key

/-- The scanner's two loops end on every text, with one turn per byte at most. -/
def Terminates : Prop :=
  (∀ raw fuel, raw.length < fuel →
    Loop.iterate entryStep fuel (∅, raw) = some (parseSigCache raw)) ∧
  ∀ entry s fuel, s.length < fuel →
    Loop.iterate fieldStep fuel (entry, s) = some (parseFields entry s)

theorem parseSigCache_total : Terminates :=
  ⟨fun _ _ enough => Loop.iterate_eq_run entryStep_descends enough,
    fun _ _ _ enough => Loop.iterate_eq_run fieldStep_descends enough⟩

/-- **When the signature cache survives a round trip.** The scanner always ends, and a
map with hexadecimal keys reads back exactly when each entry carries its key and no
field holds a quote. -/
theorem sigCache_reads_back_iff (map : SigCache) (keys : HexKeyed map) :
    (ReadsBack map ∧ Terminates) ↔ ∀ key e, map.lookup key = some e → Printable key e := by
  constructor
  · rintro ⟨same, -⟩ key e found
    rw [← same key] at found
    exact parseSigCache_printable _ found
  · intro printable
    refine ⟨fun key => ?_, parseSigCache_total⟩
    have entries : ∀ kv ∈ map.entries, map.lookup kv.1 = some kv.2 := fun kv hkv =>
      AList.mem_lookup_iff.mpr hkv
    have read := run_entries (l := map.entries)
      (fun kv hkv => by
        have hex := keys kv.1 (AList.lookup_isSome.mp (by simp [entries kv hkv]))
        exact ⟨hex.1, unquoted_of_hex hex.2⟩)
      (fun kv hkv => printable kv.1 kv.2 (entries kv hkv)) ∅
    have brace : Unquoted (str "\x7b\n") := by decide
    rw [loadSigCache, parseSigCache, sigCacheJson, List.append_assoc, run_skip ∅ brace, read,
      Assoc.lookup_foldl_insert map.nodupKeys, AList.lookup_empty, Option.or_none]
    rfl

/-- The map with one entry. -/
def singleCache (key : ByteString) (e : SigCacheEntry) : SigCache := (∅ : SigCache).insert key e

theorem mem_singleCache {key k : ByteString} {e : SigCacheEntry} (h : k ∈ singleCache key e) :
    k = key :=
  ((AList.mem_insert _).mp h).resolve_right (by simp)

theorem hexKeyed_singleCache {key : ByteString} (nonempty : key ≠ [])
    (hex : key.all isxdigit) (e : SigCacheEntry) : HexKeyed (singleCache key e) :=
  fun _ hk => mem_singleCache hk ▸ ⟨nonempty, List.all_eq_true.mp hex⟩

/-- The entry of a verified package. -/
def plainEntry : SigCacheEntry where
  sha256 := str "beef"
  sigType := str "asc"
  sigSource := str "repo"
  sigPath := str "/data/apm/pkgs/p_1_arm64.deb.asc"

theorem sigCache_reads_back_iff_plain :
    (ReadsBack (singleCache (str "beef") plainEntry) ∧ Terminates) ↔
      ∀ key e, (singleCache (str "beef") plainEntry).lookup key = some e → Printable key e :=
  sigCache_reads_back_iff _ (hexKeyed_singleCache (by decide) rfl _)

/-- The entry of a verified package `p` whose version string, `1"},"f00d":{"x":"`,
closes its entry and opens another one. -/
def forgingEntry : SigCacheEntry :=
  { plainEntry with sigPath := str "/data/apm/pkgs/p_1\"\x7d,\"f00d\":\x7b\"x\":\"_arm64.deb.asc" }

/-- A key that was never stored reads back. -/
theorem forgingEntry_not_readsBack :
    HexKeyed (singleCache (str "beef") forgingEntry) ∧ forgingEntry.sha256 = str "beef" ∧
      ¬ ReadsBack (singleCache (str "beef") forgingEntry) ∧
      str "f00d" ∉ singleCache (str "beef") forgingEntry ∧
      str "f00d" ∈ (loadSigCache
        (some (sigCacheJson (singleCache (str "beef") forgingEntry)))).2 := by
  have forged : str "f00d" ∈
      (loadSigCache (some (sigCacheJson (singleCache (str "beef") forgingEntry)))).2 := by
    decide +kernel
  have absent : str "f00d" ∉ singleCache (str "beef") forgingEntry := by decide +kernel
  refine ⟨hexKeyed_singleCache (by decide) rfl _, rfl, fun same => ?_, absent, forged⟩
  have := AList.lookup_isSome.mpr forged
  rw [same, AList.lookup_eq_none.mpr absent] at this
  cases this

end Apm.Install
