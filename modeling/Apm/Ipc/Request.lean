import Apm.Ipc.Protocol

/-!
Requests: `parseRequest` and `serializeRequest` of `src/apmd/protocol.cpp`.

## Main results

* `request_roundTrips_iff`: a request is read back as it was exactly when no value that counts
  for its type begins or ends with a blank;
* `paddedSecret_lost`: a secret with a blank at its end is not.
-/

namespace Apm.Ipc

open Apm.Repo (Fields getField)
open Apm.Lib.Assoc Apm.Lib.Text

/-! ### Requests -/

inductive RequestType where
  | Unknown | Ping | Authenticate | ForgotPassword | List | Info | Search | Update | AddRepo
  | ListRepos | RemoveRepo | Install | Remove | Autoremove | Upgrade | ApkInstall | ApkUninstall
  | ModuleList | ModuleInstall | ModuleEnable | ModuleDisable | ModuleRemove | FactoryReset
  | WipeCache | DebugLogging | LogClear
deriving DecidableEq

structure Request where
  type : RequestType := .Unknown
  id : ByteString := []
  packageName : ByteString := []
  sessionToken : ByteString := []
  repoPath : ByteString := []
  authAction : ByteString := []
  authSecret : ByteString := []
  apkPath : ByteString := []
  installAsSystem : Bool := false
  modulePath : ByteString := []
  moduleName : ByteString := []
  debugLoggingEnabled : Bool := false
  rawFields : Fields := ∅

def typeToString : RequestType → ByteString
  | .Ping => str "PING"
  | .Authenticate => str "AUTHENTICATE"
  | .ForgotPassword => str "FORGOT_PASSWORD"
  | .List => str "LIST"
  | .Info => str "INFO"
  | .Search => str "SEARCH"
  | .Update => str "UPDATE"
  | .AddRepo => str "ADD_REPO"
  | .ListRepos => str "LIST_REPOS"
  | .RemoveRepo => str "REMOVE_REPO"
  | .Install => str "INSTALL"
  | .Remove => str "REMOVE"
  | .Autoremove => str "AUTOREMOVE"
  | .Upgrade => str "UPGRADE"
  | .ApkInstall => str "APK_INSTALL"
  | .ApkUninstall => str "APK_UNINSTALL"
  | .ModuleList => str "MODULE_LIST"
  | .ModuleInstall => str "MODULE_INSTALL"
  | .ModuleEnable => str "MODULE_ENABLE"
  | .ModuleDisable => str "MODULE_DISABLE"
  | .ModuleRemove => str "MODULE_REMOVE"
  | .FactoryReset => str "FACTORY_RESET"
  | .WipeCache => str "WIPE_CACHE"
  | .DebugLogging => str "DEBUG_LOGGING"
  | .LogClear => str "LOG_CLEAR"
  | .Unknown => str "UNKNOWN"

def requestTypes : List (String × RequestType) :=
  [("PING", .Ping), ("AUTHENTICATE", .Authenticate), ("FORGOT_PASSWORD", .ForgotPassword),
    ("LIST", .List), ("INFO", .Info), ("SEARCH", .Search), ("UPDATE", .Update),
    ("ADD_REPO", .AddRepo), ("LIST_REPOS", .ListRepos), ("REMOVE_REPO", .RemoveRepo),
    ("INSTALL", .Install), ("REMOVE", .Remove), ("AUTOREMOVE", .Autoremove),
    ("UPGRADE", .Upgrade), ("APK_INSTALL", .ApkInstall), ("APK_UNINSTALL", .ApkUninstall),
    ("MODULE_LIST", .ModuleList), ("MODULE_INSTALL", .ModuleInstall),
    ("MODULE_ENABLE", .ModuleEnable), ("MODULE_DISABLE", .ModuleDisable),
    ("MODULE_REMOVE", .ModuleRemove), ("FACTORY_RESET", .FactoryReset),
    ("WIPE_CACHE", .WipeCache), ("DEBUG_LOGGING", .DebugLogging), ("LOG_CLEAR", .LogClear)]

def parseType (raw : ByteString) : RequestType :=
  let s := raw.map toupper
  ((requestTypes.find? fun x => str x.1 == s).map (·.2)).getD .Unknown

/-! ### Parsing -/

def parseBoolFieldValue (value : ByteString) : Option Bool :=
  let value := (trim value).map tolower
  if value == str "1" || value == str "true" || value == str "yes" || value == str "on" then
    some true
  else if value == str "0" || value == str "false" || value == str "no" || value == str "off" then
    some false
  else none

/-- The value of a field that may not be empty. -/
def require (field : String) (value : ByteString) : Except ByteString ByteString :=
  if value.isEmpty then .error (str "Missing '" ++ str field ++ str "' field") else .ok value

/-- The fields of the request's type. -/
def readTyped (fields : Fields) (out : Request) : Except ByteString Request :=
  let get := getField fields
  match out.type with
  | .AddRepo | .RemoveRepo =>
      (require "repo_path" (get "repo_path")).map fun v => { out with repoPath := v }
  | .Install | .Remove | .ApkUninstall | .Info =>
      (require "package" (get "package")).map fun v => { out with packageName := v }
  | .ApkInstall =>
      let sysFlag := get "installAsSystem"
      (require "apkPath" (get "apkPath")).map fun v => { out with
        apkPath := v
        installAsSystem := sysFlag == str "1" || sysFlag == str "true" || sysFlag == str "yes" }
  | .ModuleInstall =>
      (require "module_path" (get "module_path")).map fun v => { out with modulePath := v }
  | .ModuleEnable | .ModuleDisable | .ModuleRemove =>
      let name := if (get "module").isEmpty then get "package" else get "module"
      (require "module" name).map fun v => { out with moduleName := v }
  | .Authenticate =>
      let action := if (get "auth_action").isEmpty then str "unlock" else get "auth_action"
      (require "auth_secret" (get "auth_secret")).map fun v =>
        { out with authAction := action, authSecret := v }
  | .DebugLogging =>
      (require "enabled" (get "enabled")).bind fun enabled =>
        match parseBoolFieldValue enabled with
        | some value => .ok { out with debugLoggingEnabled := value }
        | none => .error (str "Invalid 'enabled' field: " ++ enabled)
  | .LogClear => .ok { out with moduleName := get "module" }
  | _ => .ok out

def readRequest (fields : Fields) : Except ByteString Request :=
  let typeStr := getField fields "type"
  if typeStr.isEmpty then .error (str "Request missing type field")
  else if parseType typeStr = .Unknown then .error (str "Unknown request type: " ++ typeStr)
  else readTyped fields {
    type := parseType typeStr
    id := getField fields "id"
    sessionToken := getField fields "session"
    rawFields := fields }

/-- `parseRequest`. A text without fields is rejected without a message. -/
def parseRequest (raw : ByteString) : Except ByteString Request := do
  let fields ← parseKeyValueLines raw
  if fields.entries.isEmpty then throw [] else readRequest fields

/-! ### Serialization -/

def reservedKeys : List ByteString :=
  [str "type", str "id", str "package", str "session", str "apkPath", str "installAsSystem",
    str "module_path", str "module", str "auth_action", str "auth_secret", str "enabled",
    str "repo_path"]

/-- The fields with keys of their own. Empty ones are left out. -/
def requestSlots (req : Request) : List (ByteString × ByteString) :=
  [(str "type", typeToString req.type),
    (str "id", req.id),
    (str "session", req.sessionToken),
    (str "auth_action", if req.type = .Authenticate then req.authAction else []),
    (str "auth_secret", if req.type = .Authenticate then req.authSecret else []),
    (str "package", req.packageName),
    (str "repo_path", req.repoPath),
    (str "apkPath", req.apkPath),
    (str "installAsSystem", if req.installAsSystem then str "1" else []),
    (str "module_path", req.modulePath),
    (str "module", req.moduleName),
    (str "enabled",
      if req.type = .DebugLogging then str (if req.debugLoggingEnabled then "true" else "false")
      else [])]

def extraFields (req : Request) : List Header :=
  req.rawFields.entries.filter fun kv => kv.1 ∉ reservedKeys

def requestHeaders (req : Request) : List Header :=
  slotEntries (requestSlots req) ++ extraFields req

def serializeRequest (req : Request) : ByteString := serializeHeaders (requestHeaders req)

/-! ### What a request has to come back with -/

/-- The texts of the request's type. -/
def typedTexts (req : Request) : List ByteString :=
  match req.type with
  | .AddRepo | .RemoveRepo => [req.repoPath]
  | .Install | .Remove | .ApkUninstall | .Info => [req.packageName]
  | .ApkInstall => [req.apkPath]
  | .ModuleInstall => [req.modulePath]
  | .ModuleEnable | .ModuleDisable | .ModuleRemove | .LogClear => [req.moduleName]
  | .Authenticate => [req.authAction, req.authSecret]
  | _ => []

/-- The flag of the request's type. -/
def typedFlag (req : Request) : Option Bool :=
  match req.type with
  | .ApkInstall => some req.installAsSystem
  | .DebugLogging => some req.debugLoggingEnabled
  | _ => none

/-- A request of a known type with its fields; only `LogClear` does without. -/
structure WellFormed (req : Request) : Prop where
  known : req.type ≠ .Unknown
  present : req.type ≠ .LogClear → ∀ text ∈ typedTexts req, text ≠ []
  extras : ∀ kv ∈ extraFields req, kv.1 ≠ [] ∧ trim kv.1 = kv.1 ∧ KeyFits kv.1

/-- The request is read back with everything that counts for its type. -/
def RoundTrips (req : Request) : Prop :=
  ∃ out, parseRequest (serializeRequest req) = .ok out ∧ out.type = req.type ∧
    out.id = req.id ∧ out.sessionToken = req.sessionToken ∧ typedTexts out = typedTexts req ∧
    typedFlag out = typedFlag req ∧
    ∀ key ∉ reservedKeys, out.rawFields.lookup key = req.rawFields.lookup key

/-- No value that counts begins or ends with a blank. -/
structure NoBlankEnds (req : Request) : Prop where
  id : Bare isblank req.id
  session : Bare isblank req.sessionToken
  typed : ∀ text ∈ typedTexts req, Bare isblank text
  extras : ∀ kv ∈ extraFields req, Bare isblank kv.2

/-! ### The headers -/

theorem requestSlots_keys (req : Request) : (requestSlots req).map Prod.fst =
    [str "type", str "id", str "session", str "auth_action", str "auth_secret", str "package",
      str "repo_path", str "apkPath", str "installAsSystem", str "module_path", str "module",
      str "enabled"] := rfl

theorem requestSlots_nodup (req : Request) : ((requestSlots req).map Prod.fst).Nodup := by
  rw [requestSlots_keys]
  decide

/-- The names of the slots are reserved, and they fit in a line. -/
theorem mem_requestSlots_key {req : Request} {key : ByteString}
    (h : key ∈ (requestSlots req).map Prod.fst) :
    key ∈ reservedKeys ∧ trim key = key ∧ key ≠ [] ∧ KeyFits key := by
  have closed : ∀ key ∈ (requestSlots {}).map Prod.fst, key ∈ reservedKeys ∧ trim key = key ∧
      key ≠ [] ∧ chr ':' ∉ key ∧ chr '\n' ∉ key ∧ chr '\r' ∉ key := by decide
  obtain ⟨reserved, trimmed, nonempty, colon, newline, cr⟩ := closed key h
  exact ⟨reserved, trimmed, nonempty, colon, newline, cr⟩

theorem extraFields_key {req : Request} {key : ByteString} (h : key ∈ (extraFields req).keys) :
    key ∉ reservedKeys := by
  obtain ⟨kv, mem, rfl⟩ := List.mem_map.mp h
  simpa using (List.mem_filter.mp mem).2

/-- The keys of a request's headers are trimmed, nonempty, and fit in a line. -/
theorem requestHeaders_keys {req : Request} (h : WellFormed req) {header : Header}
    (mem : header ∈ requestHeaders req) :
    KeyFits header.1 ∧ trim header.1 = header.1 ∧ header.1 ≠ [] := by
  rcases List.mem_append.mp mem with own | extra
  · have key := (slotEntries_keys_sublist _).subset (List.mem_map_of_mem own)
    obtain ⟨-, trimmed, nonempty, fits⟩ := mem_requestSlots_key key
    exact ⟨fits, trimmed, nonempty⟩
  · obtain ⟨nonempty, trimmed, fits⟩ := h.extras header extra
    exact ⟨fits, trimmed, nonempty⟩

theorem requestHeaders_nodup (req : Request) : (requestHeaders req).NodupKeys := by
  have extra : (extraFields req).NodupKeys := req.rawFields.nodupKeys.sublist List.filter_sublist
  rw [List.NodupKeys, List.keys, requestHeaders, List.map_append, List.nodup_append]
  refine ⟨slotEntries_nodupKeys (requestSlots_nodup req), extra, ?_⟩
  rintro key own _ free rfl
  exact extraFields_key free
    (mem_requestSlots_key ((slotEntries_keys_sublist _).subset own)).1

/-- Headers with trimmed and different keys are read back as a map. -/
theorem lookup_foldl_readHeader {headers : List Header}
    (trimmed : ∀ header ∈ headers, trim header.1 = header.1) (nodup : headers.NodupKeys)
    (key : ByteString) :
    (headers.foldl readHeader ∅).lookup key = (headers.dlookup key).map readBack := by
  have inserts : headers.foldl readHeader ∅ =
      (headers.map (Sigma.map id fun _ => readBack) : List Header).foldl
        (fun m kv => m.insert kv.1 kv.2) ∅ := by
    rw [List.foldl_map]
    apply List.foldl_ext
    intro fields header mem
    rw [readHeader, trimmed header mem]
    rfl
  rw [inserts, lookup_foldl_insert (nodup.map₂ _ _), List.dlookup_map₂]
  simp

/-- The fields that are read from a serialized request. -/
structure FieldsOf (req : Request) (fields : Fields) : Prop where
  slots : ∀ slot ∈ requestSlots req, (fields.lookup slot.1).getD [] = readBack slot.2
  extras : ∀ key ∉ reservedKeys, fields.lookup key = (req.rawFields.lookup key).map readBack

/-- **The fields that are read** are the values without the blanks at their ends. -/
theorem request_fields {req : Request} (h : WellFormed req) :
    ∃ fields, parseKeyValueLines (serializeRequest req) = .ok fields ∧ FieldsOf req fields := by
  have keys {header : Header} (mem : header ∈ requestHeaders req) := requestHeaders_keys h mem
  have lookup := lookup_foldl_readHeader (fun _ mem => (keys mem).2.1) (requestHeaders_nodup req)
  refine ⟨_, parseKeyValueLines_headers (fun _ mem => (keys mem).1) ?_, ?_, ?_⟩
  · intro header mem
    rw [(keys mem).2.1]
    exact (keys mem).2.2
  · intro slot inside
    have reserved := (mem_requestSlots_key (List.mem_map_of_mem inside)).1
    have absent : (extraFields req).dlookup slot.1 = none :=
      List.dlookup_eq_none.mpr fun free => extraFields_key free reserved
    have own := dlookup_slotEntries (requestSlots_nodup req) inside
    rw [lookup, requestHeaders, List.dlookup_append, absent, Option.or_none, ← own]
    cases (slotEntries (requestSlots req)).dlookup slot.1 <;> rfl
  · intro key free
    have absent : (slotEntries (requestSlots req)).dlookup key = none :=
      List.dlookup_eq_none.mpr fun own =>
        free (mem_requestSlots_key ((slotEntries_keys_sublist _).subset own)).1
    rw [lookup, requestHeaders, List.dlookup_append, absent, Option.none_or]
    congr 1
    exact dlookup_filter_key (fun key => decide (key ∉ reservedKeys)) (by simpa using free) _

/-! ### The fields of a type -/

theorem readBack_of_bare {value : ByteString} (h : Bare isblank value) : readBack value = value :=
  h.strip

theorem require_map_eq_ok {field : String} {value : ByteString} {f : ByteString → Request}
    {out : Request} :
    (require field value).map f = .ok out ↔ value ≠ [] ∧ f value = out := by
  unfold require
  cases value with
  | nil => simp [Except.map]
  | cons c value => simp [Except.map]

theorem parseType_typeToString (type : RequestType) : parseType (typeToString type) = type := by
  cases type <;> decide

theorem typeToString_ne_nil (type : RequestType) : typeToString type ≠ [] := by
  cases type <;> decide

theorem readBack_typeToString (type : RequestType) :
    readBack (typeToString type) = typeToString type := by
  cases type <;> decide

/-- What is read before the fields of the type. -/
def readBase (req : Request) (fields : Fields) : Request where
  type := req.type
  id := readBack req.id
  sessionToken := readBack req.sessionToken
  rawFields := fields

/-- The request is read as one of its type with its id and its session. -/
theorem parseRequest_serialize {req : Request} (h : WellFormed req) :
    ∃ fields, FieldsOf req fields ∧
      parseRequest (serializeRequest req) = readTyped fields (readBase req fields) := by
  obtain ⟨fields, parsed, of⟩ := request_fields h
  have type : getField fields "type" = typeToString req.type :=
    (of.slots (str "type", typeToString req.type) (by simp [requestSlots])).trans
      (readBack_typeToString _)
  have id : getField fields "id" = readBack req.id :=
    of.slots (str "id", req.id) (by simp [requestSlots])
  have session : getField fields "session" = readBack req.sessionToken :=
    of.slots (str "session", req.sessionToken) (by simp [requestSlots])
  have nonempty : fields.entries.isEmpty = false := by
    cases entries : fields.entries with
    | nil =>
      rw [getField, AList.lookup, entries] at type
      exact absurd type.symm (typeToString_ne_nil _)
    | cons _ _ => rfl
  refine ⟨fields, of, ?_⟩
  unfold parseRequest
  rw [parsed]
  simp only [bind, Except.bind, nonempty, Bool.false_eq_true, if_false]
  rw [readRequest, type, if_neg (by simpa using typeToString_ne_nil req.type),
    parseType_typeToString, if_neg h.known, id, session]
  rfl

/-- What the fields of the type do not touch. -/
structure SameBase (out out' : Request) : Prop where
  type : out'.type = out.type
  id : out'.id = out.id
  session : out'.sessionToken = out.sessionToken
  raw : out'.rawFields = out.rawFields

/-- A flag is read when there is a text for it. -/
theorem readFlag_eq_ok {fields : Fields} {f : Bool → Request} {out : Request} :
    ((require "enabled" (getField fields "enabled")).bind fun enabled =>
      match parseBoolFieldValue enabled with
      | some value => .ok (f value)
      | none => .error (str "Invalid 'enabled' field: " ++ enabled)) = .ok out ↔
    getField fields "enabled" ≠ [] ∧
      ∃ value, parseBoolFieldValue (getField fields "enabled") = some value ∧ f value = out := by
  unfold require
  cases enabled : getField fields "enabled" with
  | nil => simp [Except.bind]
  | cons c text =>
    simp only [List.isEmpty_cons, Bool.false_eq_true, if_false, Except.bind]
    cases parseBoolFieldValue (c :: text) with
    | none => simp
    | some value => simp

/-- Reading the fields of a type leaves the rest of the request. -/
theorem readTyped_base {fields : Fields} {out out' : Request}
    (h : readTyped fields out = .ok out') : SameBase out out' := by
  obtain ⟨type⟩ := out
  cases type
  all_goals
    simp only [readTyped, require_map_eq_ok, readFlag_eq_ok, Except.ok.injEq] at h
  case DebugLogging =>
    obtain ⟨-, value, -, rfl⟩ := h
    exact ⟨rfl, rfl, rfl, rfl⟩
  case AddRepo | RemoveRepo | Install | Remove | ApkUninstall | Info | ApkInstall |
      ModuleInstall | ModuleEnable | ModuleDisable | ModuleRemove | Authenticate =>
    obtain ⟨-, rfl⟩ := h
    exact ⟨rfl, rfl, rfl, rfl⟩
  all_goals
    subst h
    exact ⟨rfl, rfl, rfl, rfl⟩

/-- The slots of a request as they are read. -/
theorem FieldsOf.get {req : Request} {fields : Fields} (h : FieldsOf req fields) :
    getField fields "repo_path" = readBack req.repoPath ∧
      getField fields "package" = readBack req.packageName ∧
      getField fields "apkPath" = readBack req.apkPath ∧
      getField fields "installAsSystem" = readBack (if req.installAsSystem then str "1" else []) ∧
      getField fields "module_path" = readBack req.modulePath ∧
      getField fields "module" = readBack req.moduleName := by
  have slots := h.slots
  simp only [requestSlots, List.forall_mem_cons] at slots
  obtain ⟨-, -, -, -, -, package, repo, apk, system, modulePath, module, -⟩ := slots
  exact ⟨repo, package, apk, system, modulePath, module⟩

theorem FieldsOf.get_auth {req : Request} {fields : Fields} (h : FieldsOf req fields)
    (type : req.type = .Authenticate) :
    getField fields "auth_action" = readBack req.authAction ∧
      getField fields "auth_secret" = readBack req.authSecret := by
  have slots := h.slots
  simp only [requestSlots, List.forall_mem_cons, type, if_true] at slots
  exact ⟨slots.2.2.2.1, slots.2.2.2.2.1⟩

theorem FieldsOf.get_enabled {req : Request} {fields : Fields} (h : FieldsOf req fields)
    (type : req.type = .DebugLogging) : getField fields "enabled" =
      readBack (str (if req.debugLoggingEnabled then "true" else "false")) := by
  have slots := h.slots
  simp only [requestSlots, List.forall_mem_cons, type, if_true] at slots
  exact slots.2.2.2.2.2.2.2.2.2.2.2.1

/-- The texts that a type reads are trimmed ones. -/
theorem readTyped_bare {req out out' : Request} {fields : Fields} (h : FieldsOf req fields)
    (type : out.type = req.type) (read : readTyped fields out = .ok out')
    (same : typedTexts out' = typedTexts req) : ∀ text ∈ typedTexts req, Bare isblank text := by
  have bare (value : ByteString) : Bare isblank (readBack value) := strip_bare value
  obtain ⟨repo, package, apk, -, modulePath, module⟩ := h.get
  obtain ⟨known⟩ := out
  rw [← same]
  cases known
  all_goals
    simp only [readTyped, require_map_eq_ok, readFlag_eq_ok, Except.ok.injEq] at read
  case Authenticate =>
    obtain ⟨action, secret⟩ := h.get_auth type.symm
    obtain ⟨-, rfl⟩ := read
    simp only [typedTexts, List.forall_mem_cons, action, secret]
    refine ⟨?_, bare _, by simp⟩
    split
    · exact ⟨by decide, by decide⟩
    · exact bare _
  case DebugLogging =>
    obtain ⟨-, value, -, rfl⟩ := read
    simp [typedTexts]
  case ModuleEnable | ModuleDisable | ModuleRemove =>
    obtain ⟨-, rfl⟩ := read
    simp only [typedTexts, List.forall_mem_singleton, module, package]
    split
    · exact bare _
    · exact bare _
  case LogClear =>
    subst read
    simp only [typedTexts, List.forall_mem_singleton, module]
    exact bare _
  case AddRepo | RemoveRepo | Install | Remove | ApkUninstall | Info | ApkInstall |
      ModuleInstall =>
    obtain ⟨-, rfl⟩ := read
    simp only [typedTexts, List.forall_mem_singleton, repo, package, apk, modulePath]
    exact bare _
  all_goals
    subst read
    simp [typedTexts]

/-- A request whose texts are trimmed has its fields read back. -/
theorem readTyped_roundTrips {req out : Request} {fields : Fields} (h : WellFormed req)
    (of : FieldsOf req fields) (bare : ∀ text ∈ typedTexts req, Bare isblank text)
    (type : out.type = req.type) :
    ∃ out', readTyped fields out = .ok out' ∧ typedTexts out' = typedTexts req ∧
      typedFlag out' = typedFlag req := by
  obtain ⟨repo, package, apk, system, modulePath, module⟩ := of.get
  have present := h.present
  obtain ⟨known⟩ := out
  dsimp only at type
  subst type
  cases known : req.type
  all_goals
    simp only [known, typedTexts, typedFlag, List.forall_mem_cons, and_true, ne_eq,
      not_true_eq_false, not_false_eq_true, false_implies, true_implies, reduceCtorEq,
      List.not_mem_nil, implies_true] at present bare ⊢
    simp only [readTyped, require_map_eq_ok, readFlag_eq_ok, Except.ok.injEq]
  case AddRepo | RemoveRepo | Install | Remove | ApkUninstall | Info | ModuleInstall =>
    simp only [repo, package, modulePath, readBack_of_bare bare]
    exact ⟨_, ⟨present, rfl⟩, rfl, rfl⟩
  case ApkInstall =>
    simp only [apk, system, readBack_of_bare bare]
    refine ⟨_, ⟨present, rfl⟩, rfl, ?_⟩
    cases req.installAsSystem <;> rfl
  case ModuleEnable | ModuleDisable | ModuleRemove =>
    simp only [module, readBack_of_bare bare, List.isEmpty_iff, present, if_false]
    exact ⟨_, ⟨present, rfl⟩, rfl, rfl⟩
  case LogClear =>
    simp only [module, readBack_of_bare bare]
    exact ⟨_, rfl, rfl, rfl⟩
  case Authenticate =>
    obtain ⟨action, secret⟩ := of.get_auth known
    simp only [action, secret, readBack_of_bare bare.1, readBack_of_bare bare.2,
      List.isEmpty_iff, present.1, if_false]
    exact ⟨_, ⟨present.2, rfl⟩, rfl, rfl⟩
  case DebugLogging =>
    rw [of.get_enabled known]
    refine ⟨_, ⟨?_, req.debugLoggingEnabled, ?_, rfl⟩, rfl, rfl⟩
    · cases req.debugLoggingEnabled <;> decide
    · cases req.debugLoggingEnabled <;> decide
  all_goals exact ⟨_, rfl, rfl, rfl⟩

/-! ### The round trip -/

/-- **A request is read back as it was** exactly when no value that counts begins or ends
with a blank. -/
theorem request_roundTrips_iff (req : Request) (h : WellFormed req) :
    RoundTrips req ↔ NoBlankEnds req := by
  obtain ⟨fields, of, parsed⟩ := parseRequest_serialize h
  have type : (readBase req fields).type = req.type := rfl
  have rawFields : (readBase req fields).rawFields = fields := rfl
  have extra_mem (kv : Header) (mem : kv ∈ extraFields req) :
      kv.1 ∉ reservedKeys ∧ req.rawFields.lookup kv.1 = some kv.2 := by
    obtain ⟨inside, free⟩ := List.mem_filter.mp mem
    exact ⟨by simpa using free, List.mem_dlookup req.rawFields.nodupKeys inside⟩
  have bare_of {value : ByteString} (same : readBack value = value) : Bare isblank value :=
    strip_eq_self_iff.mp same
  unfold RoundTrips
  rw [parsed]
  constructor
  · rintro ⟨out, read, -, id, session, texts, -, raw⟩
    have base := readTyped_base read
    refine ⟨bare_of ?_, bare_of ?_, readTyped_bare of type read texts, fun kv mem => bare_of ?_⟩
    · exact base.id.symm.trans id
    · exact base.session.symm.trans session
    · obtain ⟨free, found⟩ := extra_mem kv mem
      have same := raw kv.1 free
      rw [base.raw, rawFields, of.extras kv.1 free, found] at same
      simpa using same
  · intro bare
    obtain ⟨out, read, texts, flag⟩ := readTyped_roundTrips h of bare.typed type
    have base := readTyped_base read
    refine ⟨out, read, base.type, base.id.trans (readBack_of_bare bare.id),
      base.session.trans (readBack_of_bare bare.session), texts, flag, fun key free => ?_⟩
    rw [base.raw, rawFields, of.extras key free]
    cases found : req.rawFields.lookup key with
    | none => rfl
    | some value =>
      have mem : (⟨key, value⟩ : Header) ∈ extraFields req :=
        List.mem_filter.mpr ⟨List.of_mem_dlookup found, by simpa using free⟩
      exact congrArg some (readBack_of_bare (bare.extras _ mem))

/-- An unlock request. -/
def unlockRequest (secret : ByteString) : Request where
  type := .Authenticate
  authAction := str "unlock"
  authSecret := secret

theorem unlockRequest_wellFormed {secret : ByteString} (h : secret ≠ []) :
    WellFormed (unlockRequest secret) := by
  refine ⟨nofun, fun _ text mem => ?_, fun kv mem => (nomatch mem)⟩
  simp only [typedTexts, unlockRequest, List.mem_cons, List.not_mem_nil, or_false] at mem
  rcases mem with rfl | rfl
  · decide
  · exact h

theorem request_roundTrips_iff_unlock :
    WellFormed (unlockRequest (str "a\\\nb")) ∧
      (RoundTrips (unlockRequest (str "a\\\nb")) ↔ NoBlankEnds (unlockRequest (str "a\\\nb"))) :=
  ⟨unlockRequest_wellFormed (by decide), request_roundTrips_iff _
    (unlockRequest_wellFormed (by decide))⟩

/-- **A secret with a blank at its end is lost.** -/
theorem paddedSecret_lost :
    WellFormed (unlockRequest (str "secret ")) ∧ ¬ RoundTrips (unlockRequest (str "secret ")) := by
  refine ⟨unlockRequest_wellFormed (by decide), ?_⟩
  rintro ⟨out, read, -, -, -, texts, -⟩
  have lost : (parseRequest (serializeRequest (unlockRequest (str "secret ")))).map typedTexts =
      .ok [str "unlock", str "secret"] := by decide
  rw [read] at lost
  have kept : typedTexts out = [str "unlock", str "secret"] := Except.ok.inj lost
  rw [texts] at kept
  revert kept
  decide

end Apm.Ipc
