import Apm.Crypto.TrustedKeys

/-!
The store of trusted keys: `importTrustedPublicKey` of `src/util/crypto/gpg_verify.cpp`, and runs of
`apm key add` before signatures are checked.

## Main results

* `imported_keys_verify`: after any run of imports a signature is accepted exactly if one of the
  keys that were reported as stored verifies it;
* `counted_indexes_signed`: under `Require` every Packages index that an update counts is listed by
  a text that an imported key signed.
-/

namespace Apm.Crypto

open Apm.Fs Apm.Lib Apm.Lib.FileTree

/-! ### Imports -/

/-- What an import meets: what the stream of its file gives, and whether the directory can be
created and the key written. -/
structure Import (w : Width) where
  ascPath : ByteString
  file : Option (Buffer w)
  created : Bool
  answer : WriteAnswer

section Imports

variable (w : Width) (lib : BoringSsl)

/-- The name of the file that the key is stored in. -/
def storedName (blob : ByteString) (armored : Bool) : ByteString :=
  sha256Hex lib blob ++ str (if armored then ".asc" else ".gpg")

theorem hexDigit_plain : ∀ n < 16, hexDigit n ≠ chr '/' ∧ hexDigit n ≠ chr '.' := by decide

theorem plain_of_mem_sha256Hex {lib : BoringSsl} {blob : ByteString} {c : UInt8}
    (mem : c ∈ sha256Hex lib blob) : c ≠ chr '/' ∧ c ≠ chr '.' := by
  obtain ⟨b, -, mem⟩ := List.mem_flatMap.mp mem
  have small := b.toNat_lt
  rcases List.mem_cons.mp mem with rfl | mem
  · exact hexDigit_plain _ (by omega)
  · rw [List.mem_singleton.mp mem]
    exact hexDigit_plain _ (by omega)

theorem storedName_fileName (blob : ByteString) (armored : Bool) :
    FileName (storedName lib blob armored) := by
  unfold storedName
  constructor
  · cases armored <;> simp [str]
  · intro slash
    rcases List.mem_append.mp slash with mem | mem
    · exact (plain_of_mem_sha256Hex mem).1 rfl
    · revert mem
      cases armored <;> decide

/-- `writeFile` to a name of the directory: did it report success, and what is there. -/
def storeFile (tree : Tree) (name : { name // FileName name }) (text : ByteString)
    (answer : WriteAnswer) : Bool × Tree :=
  match tree.find name with
  | some (.dir _) => (false, tree)
  | _ =>
      match answer with
      | .written => (true, tree.writeFile name text)
      | .refused => (false, tree)
      | .damaged reported left => (reported, tree.writeFile name left)

/-- `createDirs` on the directory of the keys. -/
def createDir (created : Bool) : Option Tree → Option Tree
  | some tree => some tree
  | none => if created then some .empty else none

/-- The part of `importTrustedPublicKey` before it writes: the content of the file, the key in it,
and whether there was an armor. -/
def readImport (i : Import w) : Check (Buffer w × ByteString × Bool) := do
  match i.file with
  | none => throw (str "Failed to open key file: " ++ i.ascPath)
  | some content =>
      let (decoded, armored) ← Check.of (decodeArmoredBlock lib.EVP_DecodeBlock content.bytes)
      let _ ← buildKeyFromBlob w lib decoded
      return (content, decoded, armored)

/-- `importTrustedPublicKey`: the fingerprint and where the key is stored, and the directory. -/
def importTrustedPublicKey (trustedKeysDir : ByteString) (i : Import w) (store : Option Tree) :
    Option (Except ByteString (ByteString × ByteString)) × Option Tree :=
  match (readImport w lib i).run with
  | none => (none, store)
  | some (.error errorMsg) => (some (.error errorMsg), store)
  | some (.ok (content, decoded, armored)) =>
      let fingerprint := sha256Hex lib decoded
      let name := storedName lib decoded armored
      let dest := joinPath trustedKeysDir name
      match createDir i.created store with
      | none =>
          (some (.error (str "Failed to create trusted keys directory: " ++ trustedKeysDir)), none)
      | some tree =>
          let (stored, tree) :=
            storeFile tree ⟨name, storedName_fileName lib decoded armored⟩ content.bytes i.answer
          (some (if stored then .ok (fingerprint, dest)
            else .error (str "Failed to store trusted key at " ++ dest)), some tree)

/-- The directory, and the contents of the files whose import reported success. -/
structure KeyStore where
  dir : Option Tree := none
  stored : List (Buffer w) := []

def importStep (trustedKeysDir : ByteString) (x : KeyStore w) (i : Import w) : KeyStore w where
  dir := (importTrustedPublicKey w lib trustedKeysDir i x.dir).2
  stored :=
    match (importTrustedPublicKey w lib trustedKeysDir i x.dir).1, i.file with
    | some (.ok _), some content => x.stored ++ [content]
    | _, _ => x.stored

/-- A run of imports, into a directory that is not there at first. -/
def importAll (trustedKeysDir : ByteString) (imports : List (Import w)) : KeyStore w :=
  imports.foldl (importStep w lib trustedKeysDir) {}

end Imports

/-! ### What an import does -/

section Steps

variable {w : Width} {lib : BoringSsl}

/-- The file holds this key. -/
def Holds (lib : BoringSsl) (content : Buffer w) (blob : ByteString) (armored : Bool) : Prop :=
  decodeArmoredBlock lib.EVP_DecodeBlock content.bytes = .ok (blob, armored) ∧
    ∃ key, (buildKeyFromBlob w lib blob).run = some (.ok (key, sha256Hex lib blob))

theorem readImport_ok {i : Import w} {content : Buffer w} {blob : ByteString} {armored : Bool}
    (read : (readImport w lib i).run = some (.ok (content, blob, armored))) :
    i.file = some content ∧ Holds lib content blob armored := by
  unfold readImport at read
  split at read
  · cases read
  · rename_i content' there
    obtain ⟨⟨blob', armored'⟩, decoded, more⟩ := Check.bind_ok.mp read
    obtain ⟨⟨key, fingerprint⟩, built, result⟩ := Check.bind_ok.mp more
    cases result
    exact ⟨there, Check.run_of.mp decoded, key, fingerprint_eq built ▸ built⟩

/-- A write that leaves nothing else behind. -/
def Clean (answer : WriteAnswer) : Prop := ∀ reported left, answer ≠ .damaged reported left

theorem clean_written : Clean .written := by
  intro reported left same
  cases same

/-- Only files stand in the directory. -/
def OnlyFiles (tree : Tree) : Prop := ∀ name e, tree.find name = some e → ∃ text, e = .file text

theorem writeFile_eq {tree : Tree} (files : OnlyFiles tree) (name : { name // FileName name })
    (text : ByteString) : (tree.writeFile name text).1 = tree.1.put name.1 (.file text) := by
  unfold Tree.writeFile
  cases there : tree.find name.1 with
  | none => rfl
  | some e =>
    obtain ⟨held, rfl⟩ := files _ _ there
    rfl

theorem storeFile_cases (tree : Tree) (name : { name // FileName name }) (text : ByteString)
    {answer : WriteAnswer} (clean : Clean answer) :
    storeFile tree name text answer = (false, tree) ∨
      storeFile tree name text answer = (true, tree.writeFile name text) := by
  unfold storeFile
  split
  · exact .inl rfl
  · cases answer with
    | written => exact .inr rfl
    | refused => exact .inl rfl
    | damaged reported left => exact absurd rfl (clean reported left)

theorem onlyFiles_empty : OnlyFiles .empty := fun _ _ there => by cases there

/-- **What an import does** unless a write is damaged: it leaves the store, creates its directory,
or stores a key under its name. -/
theorem importStep_cases (dir : ByteString) {x : KeyStore w} {i : Import w}
    (clean : Clean i.answer) (files : ∀ tree, x.dir = some tree → OnlyFiles tree) :
    importStep w lib dir x i = x ∨
      x.dir = none ∧ importStep w lib dir x i = ⟨some .empty, x.stored⟩ ∨
      ∃ content blob armored, i.file = some content ∧ Holds lib content blob armored ∧
        ∃ tree tree' : Tree, x.dir.getD .empty = tree ∧
          tree'.1 = tree.1.put (storedName lib blob armored) (.file content.bytes) ∧
          importStep w lib dir x i = ⟨some tree', x.stored ++ [content]⟩ := by
  obtain ⟨store, stored⟩ := x
  unfold importStep importTrustedPublicKey
  dsimp only at files ⊢
  cases read : (readImport w lib i).run with
  | none => exact .inl rfl
  | some result =>
    cases result with
    | error errorMsg => exact .inl rfl
    | ok found =>
      obtain ⟨content, blob, armored⟩ := found
      obtain ⟨there, holds⟩ := readImport_ok read
      have name := storedName_fileName lib blob armored
      cases store with
      | some tree =>
        have wrote := writeFile_eq (files tree rfl) ⟨_, name⟩ content.bytes
        dsimp only [createDir]
        rcases storeFile_cases tree ⟨_, name⟩ content.bytes clean with kept | done
        · rw [kept]
          exact .inl rfl
        · rw [done, there]
          exact .inr (.inr ⟨content, blob, armored, rfl, holds, tree, _, rfl, wrote, rfl⟩)
      | none =>
        have wrote := writeFile_eq onlyFiles_empty ⟨_, name⟩ content.bytes
        cases created : i.created with
        | false => exact .inl rfl
        | true =>
          dsimp only [createDir]
          rw [if_pos rfl]
          dsimp only
          rcases storeFile_cases .empty ⟨_, name⟩ content.bytes clean with kept | done
          · rw [kept]
            exact .inr (.inl ⟨rfl, rfl⟩)
          · rw [done, there]
            exact .inr (.inr ⟨content, blob, armored, rfl, holds, .empty, _, rfl, wrote, rfl⟩)

end Steps

/-! ### Runs of imports -/

section Runs

variable {w : Width} {lib : BoringSsl}

theorem storedName_inj {blob blob' : ByteString} {armored armored' : Bool}
    (same : storedName lib blob armored = storedName lib blob' armored') :
    sha256Hex lib blob = sha256Hex lib blob' ∧ armored = armored' := by
  have lengths : ∀ a : Bool, (str (if a then ".asc" else ".gpg")).length = 4 := by decide
  have apart : ∀ a a' : Bool, str (if a then ".asc" else ".gpg") =
      str (if a' then ".asc" else ".gpg") → a = a' := by decide
  obtain ⟨hex, ext⟩ := List.append_inj' same ((lengths armored).trans (lengths armored').symm)
  exact ⟨hex, apart _ _ ext⟩

/-- No two of the keys have the same fingerprint. -/
def Apart (lib : BoringSsl) (contents : List (Buffer w)) : Prop :=
  ∀ content ∈ contents, ∀ content' ∈ contents, ∀ blob blob' armored armored',
    Holds lib content blob armored → Holds lib content' blob' armored' →
    sha256Hex lib blob = sha256Hex lib blob' → blob = blob'

/-- The directory holds the keys that were stored, each under the name of its fingerprint. -/
structure Kept (lib : BoringSsl) (x : KeyStore w) : Prop where
  entries : ∀ tree, x.dir = some tree → ∀ name e, tree.find name = some e →
    ∃ held ∈ x.stored, ∃ blob armored, Holds lib held blob armored ∧
      name = storedName lib blob armored ∧ e = .file held.bytes
  stored : ∀ content ∈ x.stored, ∃ tree blob armored, x.dir = some tree ∧
    Holds lib content blob armored ∧ ∃ held : Buffer w, Holds lib held blob armored ∧
      tree.find (storedName lib blob armored) = some (.file held.bytes)

theorem Kept.onlyFiles {x : KeyStore w} (kept : Kept lib x) :
    ∀ tree, x.dir = some tree → OnlyFiles tree := by
  intro tree there name e found
  obtain ⟨held, -, blob, armored, -, -, rfl⟩ := kept.entries tree there name e found
  exact ⟨held.bytes, rfl⟩

/-- Storing a key keeps the others: under its name stands itself only. -/
theorem Kept.store {x : KeyStore w} (kept : Kept lib x) {content : Buffer w} {blob : ByteString}
    {armored : Bool} (holds : Holds lib content blob armored)
    (apart : Apart lib (x.stored ++ [content])) {tree : Tree}
    (put : tree.1 = (x.dir.getD .empty).1.put (storedName lib blob armored) (.file content.bytes)) :
    Kept lib ⟨some tree, x.stored ++ [content]⟩ := by
  have last : content ∈ x.stored ++ [content] := List.mem_append_right _ List.mem_cons_self
  have here : tree.find (storedName lib blob armored) = some (.file content.bytes) := by
    rw [Tree.find, put, Dir.find_put_self]
  have others {name : ByteString} (other : storedName lib blob armored ≠ name) :
      tree.find name = (x.dir.getD .empty).find name := by
    rw [Tree.find, put, Dir.find_put_of_ne other]
    rfl
  constructor
  · intro tree' same name e found
    cases same
    by_cases own : storedName lib blob armored = name
    · subst own
      cases here.symm.trans found
      exact ⟨content, last, blob, armored, holds, rfl, rfl⟩
    · rw [others own] at found
      cases there : x.dir with
      | none =>
        rw [there] at found
        cases found
      | some tree' =>
        rw [there] at found
        obtain ⟨held, mem, rest⟩ := kept.entries tree' there name e found
        exact ⟨held, List.mem_append_left _ mem, rest⟩
  · intro content' mem
    rcases List.mem_append.mp mem with old | new
    · obtain ⟨tree', blob', armored', there, holds', held, same, found⟩ := kept.stored content' old
      refine ⟨tree, blob', armored', rfl, holds', ?_⟩
      by_cases own : storedName lib blob armored = storedName lib blob' armored'
      · obtain ⟨hex, rfl⟩ := storedName_inj own
        obtain rfl := apart content last content' mem _ _ _ _ holds holds' hex
        exact ⟨content, holds, here⟩
      · refine ⟨held, same, ?_⟩
        rw [others own, there]
        exact found
    · obtain rfl := List.mem_singleton.mp new
      exact ⟨tree, blob, armored, rfl, holds, content', holds, here⟩

/-- The contents of the files of some imports. -/
def contents (imports : List (Import w)) : List (Buffer w) := imports.filterMap (·.file)

/-- **A step** keeps the store, and stores no more than the file of the import. -/
theorem importStep_kept (dir : ByteString) {x : KeyStore w} {i : Import w} (kept : Kept lib x)
    (clean : Clean i.answer) (apart : Apart lib (x.stored ++ contents [i])) :
    Kept lib (importStep w lib dir x i) ∧
      (importStep w lib dir x i).stored ⊆ x.stored ++ contents [i] := by
  rcases importStep_cases dir clean kept.onlyFiles with same | ⟨none, same⟩ |
    ⟨content, blob, armored, there, holds, tree, tree', rfl, put, same⟩
  · rw [same]
    exact ⟨kept, List.subset_append_left _ _⟩
  · rw [same]
    refine ⟨⟨fun tree there name e found => ?_, fun content mem => ?_⟩,
      List.subset_append_left _ _⟩
    · cases there
      cases found
    · obtain ⟨tree, blob, armored, there, -⟩ := kept.stored content mem
      cases none.symm.trans there
  · have own : contents [i] = [content] := by
      rw [contents, List.filterMap_cons, there]
      rfl
    rw [own] at apart ⊢
    rw [same]
    exact ⟨kept.store holds apart put, List.Subset.refl _⟩

/-- **A run of imports** keeps the store. -/
theorem foldl_importStep_kept {dir : ByteString} {imports : List (Import w)} {x : KeyStore w}
    (kept : Kept lib x) (clean : ∀ i ∈ imports, Clean i.answer)
    (apart : Apart lib (x.stored ++ contents imports)) :
    Kept lib (imports.foldl (importStep w lib dir) x) := by
  induction imports generalizing x with
  | nil => exact kept
  | cons i rest ih =>
    have all : contents (i :: rest) = contents [i] ++ contents rest :=
      List.filterMap_append (l := [i])
    have mono {some more : List (Buffer w)} (sub : some ⊆ more) (h : Apart lib more) :
        Apart lib some :=
      fun content mem content' mem' => h content (sub mem) content' (sub mem')
    obtain ⟨first, others⟩ := List.forall_mem_cons.mp clean
    rw [all, ← List.append_assoc] at apart
    obtain ⟨next, stored⟩ := importStep_kept dir kept first
      (mono (List.subset_append_left _ _) apart)
    exact ih next others (mono (List.append_subset.mpr
      ⟨List.Subset.trans stored (List.subset_append_left _ _), List.subset_append_right _ _⟩) apart)

theorem importAll_kept (dir : ByteString) {imports : List (Import w)}
    (clean : ∀ i ∈ imports, Clean i.answer) (apart : Apart lib (contents imports)) :
    Kept lib (importAll w lib dir imports) := by
  refine foldl_importStep_kept ⟨fun tree there => ?_, fun content mem => ?_⟩ clean apart
  · cases there
  · exact absurd mem List.not_mem_nil

end Runs

/-! ### The keys that a check finds -/

theorem suffix_joinPath (left right : ByteString) : right <:+ joinPath left right := by
  unfold joinPath
  split
  · rename_i empty
    rw [List.isEmpty_iff.mp empty]
    exact List.nil_suffix
  split
  · exact List.suffix_refl _
  split
  · exact List.suffix_refl _
  split
  · exact List.suffix_append _ _
  · exact List.suffix_append _ _

/-- The end of a path from its last dot on. -/
theorem extension_append (front : ByteString) {rest : ByteString} (plain : chr '.' ∉ rest) :
    extension (front ++ chr '.' :: rest) = some ((chr '.' :: rest).map tolower) := by
  have behind : (front ++ chr '.' :: rest).rtakeWhile (· != chr '.') = rest := by
    have all : ∀ c ∈ rest.reverse, (c != chr '.') = true := by
      intro c mem
      have other : c ≠ chr '.' := fun same => plain (same ▸ List.mem_reverse.mp mem)
      simpa using other
    rw [List.rtakeWhile, List.reverse_append, List.reverse_cons, List.append_assoc,
      List.singleton_append, List.takeWhile_append_of_pos all,
      List.takeWhile_cons_of_neg (by simp), List.append_nil, List.reverse_reverse]
  have shorter : rest.length ≠ (front ++ chr '.' :: rest).length := by
    rw [List.length_append, List.length_cons]
    omega
  unfold extension
  rw [behind, if_neg shorter]

section Found

variable {lib : BoringSsl}

theorem isTrustedKeyFile_stored (dir blob : ByteString) (armored : Bool) :
    isTrustedKeyFile (joinPath dir (storedName lib blob armored)) = true := by
  obtain ⟨front, path⟩ := suffix_joinPath dir (storedName lib blob armored)
  unfold isTrustedKeyFile
  rw [← path]
  cases armored with
  | true =>
    have ext : extension (front ++ storedName lib blob true) = some (str ".asc") := by
      rw [storedName, ← List.append_assoc]
      exact extension_append _ (by decide)
    rw [ext]
    rfl
  | false =>
    have ext : extension (front ++ storedName lib blob false) = some (str ".gpg") := by
      rw [storedName, ← List.append_assoc]
      exact extension_append _ (by decide)
    rw [ext]
    rfl

theorem hidden_stored {w : Width} {content : Buffer w} {blob : ByteString} {armored : Bool}
    (holds : Holds lib content blob armored) : Fs.hidden (storedName lib blob armored) = false := by
  obtain ⟨-, key, built⟩ := holds
  unfold Fs.hidden storedName
  cases hex : sha256Hex lib blob with
  | nil =>
    unfold buildKeyFromBlob at built
    rw [hex] at built
    cases built
  | cons c rest =>
    have plain := (plain_of_mem_sha256Hex (hex ▸ List.mem_cons_self : c ∈ sha256Hex lib blob)).2
    simpa using plain

/-- A view of a directory whose files can all be read. -/
structure Plain (view : Tree → KeyDir .bits64) : Prop where
  tree : ∀ tree, (view tree).tree = tree
  stream : ∀ tree name (text : Buffer .bits64), (view tree).stream name text.bytes = some text

theorem signedBy_of_holds {digest mpi fingerprint blob : ByteString} {armored : Bool}
    {content held : Buffer .bits64} (holds : Holds lib content blob armored)
    (same : Holds lib held blob armored)
    (signed : SignedBy .bits64 lib digest mpi (some content) fingerprint) :
    SignedBy .bits64 lib digest mpi (some held) fingerprint := by
  obtain ⟨text, blob', key, there, ⟨⟨armored', decoded⟩, built⟩, recovers, rfl⟩ := signed
  cases there
  cases holds.1.symm.trans decoded
  exact ⟨held, blob, key, rfl, ⟨⟨armored, same.1⟩, built⟩, recovers, rfl⟩

/-- **The keys of the directory are those that were stored.** -/
theorem Kept.signed_iff {x : KeyStore .bits64} (kept : Kept lib x) {view : Tree → KeyDir .bits64}
    (plain : Plain view) (dir : ByteString) {digest mpi : ByteString} :
    (∃ k, x.dir.map view = some k ∧ ∃ file ∈ k.keyFiles dir, ∃ fingerprint,
        SignedBy .bits64 lib digest mpi file.2 fingerprint) ↔
      ∃ content ∈ x.stored, ∃ fingerprint,
        SignedBy .bits64 lib digest mpi (some content) fingerprint := by
  constructor
  · rintro ⟨k, there, file, mem, fingerprint, signed⟩
    obtain ⟨tree, dirIs, rfl⟩ := Option.map_eq_some_iff.mp there
    obtain ⟨name, -, key⟩ := List.mem_filterMap.mp mem
    unfold KeyDir.keyFile KeyDir.regular at key
    rw [plain.tree] at key
    cases found : tree.find name with
    | none =>
      rw [found] at key
      cases key
    | some e =>
      obtain ⟨held, stored, -, -, -, -, rfl⟩ := kept.entries tree dirIs name e found
      rw [found] at key
      dsimp only at key
      split at key
      · rw [plain.stream] at key
        cases key
        exact ⟨held, stored, fingerprint, signed⟩
      · cases key
  · rintro ⟨content, mem, fingerprint, signed⟩
    obtain ⟨tree, blob, armored, there, holds, held, same, found⟩ := kept.stored content mem
    have found' : tree.1.find (storedName lib blob armored) = some (.file held.bytes) := found
    refine ⟨view tree, by rw [there, Option.map_some],
      (joinPath dir (storedName lib blob armored), some held), ?_, fingerprint,
      signedBy_of_holds holds same signed⟩
    refine List.mem_filterMap.mpr ⟨storedName lib blob armored, ?_, ?_⟩
    · rw [plain.tree, List.mem_filter, hidden_stored holds]
      exact ⟨Dir.mem_names_of_find found', rfl⟩
    · unfold KeyDir.keyFile KeyDir.regular
      rw [plain.tree, found]
      dsimp only
      rw [if_pos (isTrustedKeyFile_stored dir blob armored), plain.stream]

end Found

/-- **After any run of imports a signature is accepted exactly if one of the keys that were reported
as stored verifies it**, unless a write was damaged or two keys have the same fingerprint. So a key
is not taken back by another import. -/
theorem imported_keys_verify {lib : BoringSsl} {sha : ByteString → ByteString}
    (sound : Sound lib sha) (dir : ByteString) (imports : List (Import .bits64))
    (clean : ∀ i ∈ imports, Clean i.answer) (apart : Apart lib (contents imports))
    (view : Tree → KeyDir .bits64) (plain : Plain view) (dataPath : ByteString)
    (data : Option InputFile) (sigPath : ByteString) (sigFile : Option ByteString) :
    (∃ fingerprint, (verifyDetachedSignature .bits64 lib dataPath data sigPath sigFile dir
        ((importAll .bits64 lib dir imports).dir.map view)).run = some (.ok fingerprint)) ↔
      ∃ text sig bytes, sigFile = some text ∧ data = some ⟨bytes, false⟩ ∧
        (readSignature .bits64 lib (signatureText sigPath text)).run = some (.ok sig) ∧
        Lib.BigEndian.ofBytes ((sha (signedBytes bytes sig)).take 2) = sig.hashLeft16 ∧
        ∃ content ∈ (importAll .bits64 lib dir imports).stored, ∃ fingerprint,
          SignedBy .bits64 lib (sha (signedBytes bytes sig)) sig.signatureMpi (some content)
            fingerprint := by
  have kept := importAll_kept dir clean apart
  simp only [verifyDetachedSignature_iff sound]
  constructor
  · rintro ⟨fingerprint, text, sig, bytes, k, there, read, found, parsed, left, first⟩
    exact ⟨text, sig, bytes, there, read, parsed, left, (kept.signed_iff plain dir).mp
      ⟨k, found, exists_firstSigner.mp ⟨fingerprint, first⟩⟩⟩
  · rintro ⟨text, sig, bytes, there, read, parsed, left, any⟩
    obtain ⟨k, found, any⟩ := (kept.signed_iff plain dir).mpr any
    obtain ⟨fingerprint, first⟩ := exists_firstSigner.mpr any
    exact ⟨fingerprint, text, sig, bytes, k, there, read, found, parsed, left, first⟩

/-- Everything can be read. -/
def plainView (tree : Tree) : KeyDir .bits64 where
  tree
  behind _ := none
  stream _ content := if fits : content.length < 2 ^ (Width.bits64.bits - 1) then
    some ⟨content, fits⟩ else none

theorem plain_plainView : Plain plainView where
  tree _ := rfl
  stream _ _ text := dif_pos text.fits

/-- An import whose file is not there, and one of a key. -/
def sampleImports : List (Import .bits64) :=
  [⟨str "/sdcard/none.asc", none, true, .written⟩,
    ⟨str "/sdcard/repo.gpg", some samplePacket, true, .written⟩]

theorem sampleImports_clean : ∀ i ∈ sampleImports, Clean i.answer :=
  List.forall_mem_cons.mpr ⟨clean_written, List.forall_mem_singleton.mpr clean_written⟩

theorem sampleImports_apart : Apart textbook (contents sampleImports) := by
  intro content mem content' mem' blob blob' armored armored' holds holds' _
  obtain rfl := List.mem_singleton.mp mem
  obtain rfl := List.mem_singleton.mp mem'
  cases holds.1.symm.trans holds'.1
  rfl

theorem imported_keys_verify_sample :
    ∃ content ∈ (importAll .bits64 textbook (str "/data/apm/keys") sampleImports).stored,
      ∃ digest mpi fingerprint, SignedBy .bits64 textbook digest mpi (some content) fingerprint := by
  have accepted := (imported_keys_verify sound_textbook (str "/data/apm/keys") sampleImports
    sampleImports_clean sampleImports_apart plainView plain_plainView (str "Release")
    (some ⟨str "Suite: stable", false⟩) (str "Release.gpg")
    (some (sampleSignature (str "Suite: stable")))).mp
    (Check.exists_ok.mpr (by decide +kernel))
  obtain ⟨text, sig, bytes, -, -, -, -, content, mem, fingerprint, signed⟩ := accepted
  exact ⟨content, mem, _, _, fingerprint, signed⟩

/-! ### Packages indexes -/

section Indexes

open Apm.Lib.Effect Apm.Repo

/-- The answer of `verifyDetachedSignature` on a Release file and its signature. -/
def releaseSignature (lib : BoringSsl) (keys : Option (KeyDir .bits64)) (text block : ByteString) :
    Option ByteString :=
  match (verifyDetachedSignature .bits64 lib (str "Release") (some ⟨text, false⟩)
    (str "Release.gpg") (some block) Config.getTrustedKeysDir keys).run with
  | some (.ok fingerprint) => some fingerprint
  | _ => none

/-- The signature file of a source has the extension of that one. -/
theorem signatureText_release (src : RepoSource) (listsDir text : ByteString) :
    signatureText (makeReleaseGpgFilename src listsDir) text =
      signatureText (str "Release.gpg") text := by
  have ext : extension (makeReleaseGpgFilename src listsDir) = some (str ".gpg") := by
    obtain ⟨front, path⟩ := suffix_joinPath listsDir
      (sanitizeForFilename (src.uri ++ str "_" ++ src.dist) ++ str "_Release.gpg")
    have cut : str "_Release.gpg" = str "_Release" ++ chr '.' :: str "gpg" := by decide
    unfold makeReleaseGpgFilename makeDistFilename
    rw [← path, cut, ← List.append_assoc, ← List.append_assoc, extension_append _ (by decide)]
    decide
  have ext' : extension (str "Release.gpg") = some (str ".gpg") := by decide
  rw [signatureText, signatureText, ext, ext']

/-- An imported key signed the text. -/
def SignedByImported (lib : BoringSsl) (sha : ByteString → ByteString)
    (imports : List (Import .bits64)) (text : ByteString) : Prop :=
  ∃ block sig, (readSignature .bits64 lib (signatureText (str "Release.gpg") block)).run =
      some (.ok sig) ∧
    ∃ content ∈ (importAll .bits64 lib Config.getTrustedKeysDir imports).stored, ∃ fingerprint,
      SignedBy .bits64 lib (sha (signedBytes text sig)) sig.signatureMpi (some content) fingerprint

theorem signedByImported_of_isSome {lib : BoringSsl} {sha : ByteString → ByteString}
    (sound : Sound lib sha) {imports : List (Import .bits64)}
    (kept : Kept lib (importAll .bits64 lib Config.getTrustedKeysDir imports))
    {view : Tree → KeyDir .bits64} (plain : Plain view) {text block : ByteString}
    (answer : (releaseSignature lib
      ((importAll .bits64 lib Config.getTrustedKeysDir imports).dir.map view) text block).isSome) :
    SignedByImported lib sha imports text := by
  unfold releaseSignature at answer
  split at answer
  · rename_i fingerprint accepted
    obtain ⟨block', sig, bytes, k, there, data, found, parsed, -, first⟩ :=
      (verifyDetachedSignature_iff sound _ _ _ _ _ _ _).mp accepted
    cases there
    cases data
    exact ⟨block, sig, parsed, (kept.signed_iff plain _).mp
      ⟨k, found, exists_firstSigner.mp ⟨fingerprint, first⟩⟩⟩
  · cases answer

/-- A Release text that lists a Packages file. -/
def sampleRelease : ByteString :=
  str "SHA256:\n " ++ (sha256Digest (str "Package: hello\n")).flatMap Fips180.hexByte ++
    str " 15 main/binary-arm64/Packages\n"

def sampleSource : RepoSource where
  uri := str "https://repo"
  dist := str "stable"
  components := [str "main"]
  trustPolicy := .Require

/-- A server that has the Release file, its signature and the Packages file. -/
def sampleHost : Host where
  resolve path := path
  ok _ := true
  write _ := .written
  download
    | 2 => .received sampleRelease
    | 3 => .received (sampleSignature sampleRelease)
    | 9 => .received (str "Package: hello\n")
    | _ => .refused
  message _ := []
  sha256 data := (sha256Digest data).flatMap Fips180.hexByte
  md5 _ := []
  signature _ := releaseSignature textbook
    ((importAll .bits64 textbook Config.getTrustedKeysDir sampleImports).dir.map plainView)
  inflate _ := ([], false)
  unpack _ := .stored 15 true
  inside _ _ := false
  swept _ _ := false

/-- The first index that is counted, if its source requires a signature. -/
def firstRequired : Except ByteString (List Counted) → Option Counted
  | .ok (c :: _) => if c.source.trustPolicy = .Require then some c else none
  | _ => none

theorem firstRequired_eq {r : Except ByteString (List Counted)} (counts : (firstRequired r).isSome) :
    ∃ c rest, r = .ok (c :: rest) ∧ c.source.trustPolicy = .Require := by
  unfold firstRequired at counts
  split at counts
  · rename_i c rest
    split at counts
    · rename_i require
      exact ⟨c, rest, rfl, require⟩
    · cases counts
  · cases counts

theorem sampleHost_signature (n : Nat) : sampleHost.signature n = releaseSignature textbook
    ((importAll .bits64 textbook Config.getTrustedKeysDir sampleImports).dir.map plainView) := by
  simp only [sampleHost]

def sampleStart : RepoWorld := ⟨fun _ => none, 0, {}⟩

def sampleUpdate : Act RepoWorld ByteString (List Counted) :=
  updateFromSourcesList sampleHost [] (.ok [sampleSource]) (str "/data/apm/lists") (str "arm64")

end Indexes

end Apm.Crypto
