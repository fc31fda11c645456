/-
This file models the configuration of the server: the fields of `servcfg.h`, how `load_cfg` and
`save_cfg` turn them into a JSON file and back, and the control commands that change them while the
server runs. It proves which settings survive a restart.

What `load_cfg` accepts is narrower than what the commands store. A flag is only ever set to 0 or 1,
and every other field keeps the value it was loaded with, so all of them are in the range that the
next start checks. `filesize` is the exception: it stores any number of 64 bits, and one below the
minimum of the field is written to the file and refused when it is read. Numbers from `2 ^ 63` on
are negative in the file and come back unchanged.

The JSON library is a parameter. A file is read as the object that it holds, and of the library only
one thing is assumed: an integer and a string that were written under a name are read back.
-/

import Lwmsg.Bytes

namespace Bytes

/-! ### Numbers in text -/

/-- `isspace` in the C locale. -/
def isSpace (byte : UInt8) : Bool := byte = 32 ∨ (9 ≤ byte ∧ byte ≤ 13)

/-- `isdigit`. -/
def isDigit (byte : UInt8) : Bool := 48 ≤ byte ∧ byte ≤ 57

/-- The number that a row of digits spells. -/
def decimalValue (digits : Bytes) : Nat :=
  digits.foldl (fun value digit => value * 10 + (digit.toNat - 48)) 0

/-- The number at the start of a string, behind white space: whether it has a minus sign, the value
of its digits, and what follows it. -/
def decimalPrefix (text : Bytes) : Option (Bool × Nat × Bytes) :=
  let body := text.dropWhile isSpace
  let negative := body.head? = some 45
  let unsigned := if body.head? = some 45 ∨ body.head? = some 43 then body.tail else body
  let digits := unsigned.takeWhile isDigit
  if digits = [] then none else some (negative, decimalValue digits, unsigned.dropWhile isDigit)

/-- `strtol` in base 10, with what its end pointer points to. -/
def strtol (text : Bytes) : Int × Bytes :=
  match decimalPrefix text with
  | none => (0, text)
  | some (negative, magnitude, endptr) =>
    let value : Int := if negative then -magnitude else magnitude
    (max (-2 ^ 63) (min (2 ^ 63 - 1) value), endptr)

/-- `strtoull` in base 10, with what its end pointer points to and whether it set `ERANGE`. A minus
sign negates the value as an unsigned number. -/
def strtoull (text : Bytes) : UInt64 × Bytes × Bool :=
  match decimalPrefix text with
  | none => (0, text, false)
  | some (negative, magnitude, endptr) =>
    if 2 ^ 64 ≤ magnitude then (UInt64.ofNat (2 ^ 64 - 1), endptr, true)
    else (if negative then -UInt64.ofNat magnitude else UInt64.ofNat magnitude, endptr, false)

end Bytes

namespace Lwmsg

open Bytes

/-! ### The JSON library -/

/-- A JSON value, as the getters of the library answer for it. An `int` holds what
`json_object_get_int64` returns. -/
inductive JsonValue
  | int (value : Int64)
  | boolean (value : Bool)
  | string (text : Bytes)
  | other

/-- A JSON object, as `json_object_object_get_ex` looks a name up in it. -/
abbrev JsonObject := String → Option JsonValue

/-- The files of the JSON library: what `json_object_from_file` reads in one, and what
`json_object_to_file_ext` writes for the members that were added to an object. -/
structure JsonC (File : Type) where
  objectFromFile : File → Option JsonObject
  objectToFileExt : List (String × JsonValue) → File

/-- A value that `save_cfg` can write: an integer, or a C string, which holds no NUL. -/
def JsonValue.Writable : JsonValue → Prop
  | .int _ => True
  | .string text => ∀ byte ∈ text, byte ≠ 0
  | .boolean _ | .other => False

/-- An integer and a string that were written under a name are read back unchanged. -/
def JsonC.ReadsBack {File : Type} (json : JsonC File) : Prop :=
  ∀ members : List (String × JsonValue), (members.map Prod.fst).Nodup →
    (∀ member ∈ members, member.2.Writable) →
    ∃ object, json.objectFromFile (json.objectToFileExt members) = some object ∧
      ∀ member ∈ members, object member.1 = some member.2

/-- `IS_INTEGRAL` and `json_object_get_int64`. -/
def JsonValue.integral : JsonValue → Option Int64
  | .int value => some value
  | .boolean value => some (if value then 1 else 0)
  | .string _ | .other => none

/-- `json_object_is_type` with `json_type_string`, and the string with its length. -/
def JsonValue.text : JsonValue → Option Bytes
  | .string text => some text
  | .int _ | .boolean _ | .other => none

/-! ### The fields of the configuration -/

/-- The fields of `CFG_INT_FIELDS`. -/
inductive CfgIntField
  | maxFilesizeB
  | regPort
  | genPort
  | ctrlPort
  | nrWorkerThreads
  | clHtableSizePow2
  | clHtableExpansionPow2
  | clHtableLoadfactorExpThres
  | clHtableLocksPow2
  | autoconfNrThreads
  | useTls
  | useAuth
  | allowRegistrations
  | allowFileTransfers
  | useIpWhitelist
deriving DecidableEq

/-- The columns of `CFG_INT_FIELDS`; the type of a field is given by its width. -/
structure CfgIntColumns where
  name : String
  bits : Nat
  min : UInt64
  max : UInt64
  default : UInt64

/-- `CFG_INT_FIELDS`. -/
def CfgIntField.columns : CfgIntField → CfgIntColumns
  | .maxFilesizeB => ⟨"max_filesize_b", 64, 200, 18446744073709551615, 4194304⟩
  | .regPort => ⟨"reg_port", 16, 6500, 7000, 6671⟩
  | .genPort => ⟨"gen_port", 16, 7001, 65535, 7228⟩
  | .ctrlPort => ⟨"ctrl_port", 16, 1024, 65535, 6777⟩
  | .nrWorkerThreads => ⟨"nr_worker_threads", 8, 1, 128, 4⟩
  | .clHtableSizePow2 => ⟨"cl_htable_size_pow2", 8, 1, 21, 12⟩
  | .clHtableExpansionPow2 => ⟨"cl_htable_expansion_pow2", 8, 1, 12, 2⟩
  | .clHtableLoadfactorExpThres => ⟨"cl_htable_loadfactor_exp_thres", 8, 1, 255, 70⟩
  | .clHtableLocksPow2 => ⟨"cl_htable_locks_pow2", 8, 1, 21, 12⟩
  | .autoconfNrThreads => ⟨"autoconf_nr_threads", 8, 0, 1, 0⟩
  | .useTls => ⟨"use_tls", 8, 0, 1, 1⟩
  | .useAuth => ⟨"use_auth", 8, 0, 1, 1⟩
  | .allowRegistrations => ⟨"allow_registrations", 8, 0, 1, 1⟩
  | .allowFileTransfers => ⟨"allow_file_transfers", 8, 0, 1, 1⟩
  | .useIpWhitelist => ⟨"use_ip_whitelist", 8, 0, 1, 0⟩

/-- The fields in the order in which the macro lists them. -/
def cfgIntFields : List CfgIntField :=
  [.maxFilesizeB, .regPort, .genPort, .ctrlPort, .nrWorkerThreads, .clHtableSizePow2,
    .clHtableExpansionPow2, .clHtableLoadfactorExpThres, .clHtableLocksPow2, .autoconfNrThreads,
    .useTls, .useAuth, .allowRegistrations, .allowFileTransfers, .useIpWhitelist]

/-- The fields of `CFG_STR_FIELDS`. -/
inductive CfgStrField
  | certChainPath
  | privateKeyPath
  | dbFilePath
  | ipWhitelistPath
  | ipBlacklistPath
  | zlogConfigPath
  | genInterface

/-- The columns of `CFG_STR_FIELDS`; the maximum of a field is the size of its array. -/
structure CfgStrColumns where
  name : String
  max : Nat
  default : Bytes

/-- `CFG_STR_FIELDS`. -/
def CfgStrField.columns : CfgStrField → CfgStrColumns
  | .certChainPath => ⟨"cert_chain_path", 32, ofLiteral "fullchain.cer"⟩
  | .privateKeyPath => ⟨"private_key_path", 32, ofLiteral "lwmsg.duckdns.org.key"⟩
  | .dbFilePath => ⟨"db_file_path", 32, ofLiteral "database.db"⟩
  | .ipWhitelistPath => ⟨"ip_whitelist_path", 32, ofLiteral "ip_whitelist.json"⟩
  | .ipBlacklistPath => ⟨"ip_blacklist_path", 32, ofLiteral "ip_blacklist.json"⟩
  | .zlogConfigPath => ⟨"zlog_config_path", 32, ofLiteral "zlog.conf"⟩
  | .genInterface => ⟨"gen_interface", 16, ofLiteral "0.0.0.0"⟩

/-- The fields in the order in which the macro lists them. -/
def cfgStrFields : List CfgStrField :=
  [.certChainPath, .privateKeyPath, .dbFilePath, .ipWhitelistPath, .ipBlacklistPath,
    .zlogConfigPath, .genInterface]

/-- `serv_cfg` without the network functions, which are not part of the file. -/
@[ext] structure ServCfg where
  int : CfgIntField → UInt64
  str : CfgStrField → Bytes

/-- The value of a field after an assignment, which cuts it to the width of the field. -/
def CfgIntField.narrow (field : CfgIntField) (value : UInt64) : UInt64 :=
  UInt64.ofNat (value.toNat % 2 ^ field.columns.bits)

/-- An assignment to a field of `g_server_cfg`. -/
def ServCfg.storeInt (cfg : ServCfg) (field : CfgIntField) (value : UInt64) : ServCfg :=
  { cfg with int := Function.update cfg.int field (field.narrow value) }

/-! ### Loading and saving -/

/-- `get_default_cfg`. -/
def getDefaultCfg : ServCfg where
  int field := field.narrow field.columns.default
  str field := strncpy field.columns.max field.columns.default

/-- `X_LD_INT`. -/
def ldInt (cfgJson : JsonObject) (field : CfgIntField) : UInt64 :=
  match (cfgJson field.columns.name).bind JsonValue.integral with
  | none => field.narrow field.columns.default
  | some value =>
    if value.toUInt64 < field.columns.min ∨ field.columns.max < value.toUInt64 then
      field.narrow field.columns.default
    else field.narrow value.toUInt64

/-- `X_LD_STR`. -/
def ldStr (cfgJson : JsonObject) (field : CfgStrField) : Bytes :=
  match (cfgJson field.columns.name).bind JsonValue.text with
  | none => strncpy field.columns.max field.columns.default
  | some text =>
    if field.columns.max - 1 < text.length then strncpy field.columns.max field.columns.default
    else strncpy field.columns.max text

/-- The last check of `load_cfg`: there are no more locks than buckets. -/
def ServCfg.reduceLocks (cfg : ServCfg) : ServCfg :=
  if cfg.int .clHtableSizePow2 < cfg.int .clHtableLocksPow2 then
    cfg.storeInt .clHtableLocksPow2 (cfg.int .clHtableSizePow2)
  else cfg

/-- `load_cfg`; there is no file where the path is empty or nothing can be read. -/
def loadCfg {File : Type} (json : JsonC File) (cfgFile : Option File) : ServCfg :=
  match cfgFile.bind json.objectFromFile with
  | none => getDefaultCfg
  | some cfgJson => ServCfg.reduceLocks { int := ldInt cfgJson, str := ldStr cfgJson }

/-- `X_ST_INT`. -/
def stInt (cfg : ServCfg) (field : CfgIntField) : String × JsonValue :=
  (field.columns.name, .int (cfg.int field).toInt64)

/-- `X_ST_STR`. -/
def stStr (cfg : ServCfg) (field : CfgStrField) : String × JsonValue :=
  (field.columns.name, .string (cString (cfg.str field)))

/-- The members that `save_cfg` adds to its object. -/
def cfgMembers (cfg : ServCfg) : List (String × JsonValue) :=
  cfgIntFields.map (stInt cfg) ++ cfgStrFields.map (stStr cfg)

/-- `save_cfg`, with the file that it writes. -/
def saveCfg {File : Type} (json : JsonC File) (cfg : ServCfg) : File :=
  json.objectToFileExt (cfgMembers cfg)

/-! ### The control commands -/

/-- `enum cmds`. -/
inductive Cmd
  | help
  | shutdownServer
  | registrations
  | «show»
  | stdIpblock
  | stdUnblock
  | regIpblock
  | regUnblock
  | whitelist
  | unwhitelist
  | filesize
  | filetransfers
  | whitelistUse
  | setLog
deriving DecidableEq

/-- The names in `commands`, in their order. -/
def commands : List (Cmd × Bytes) :=
  [(.help, ofLiteral "help"), (.shutdownServer, ofLiteral "shutdown_server"),
    (.registrations, ofLiteral "registrations"), (.«show», ofLiteral "show"),
    (.stdIpblock, ofLiteral "std_ipblock"), (.stdUnblock, ofLiteral "std_unblock"),
    (.regIpblock, ofLiteral "reg_ipblock"), (.regUnblock, ofLiteral "reg_unblock"),
    (.whitelist, ofLiteral "whitelist"), (.unwhitelist, ofLiteral "unwhitelist"),
    (.filesize, ofLiteral "filesize"), (.filetransfers, ofLiteral "filetransfers"),
    (.whitelistUse, ofLiteral "whitelist_use"), (.setLog, ofLiteral "set_log")]

/-- The command that the first token names. -/
def commandOf (tokens : List Bytes) : Option Cmd := do
  let name ← tokens.head?
  let entry ← commands.find? fun entry => cString name = entry.2
  return entry.1

/-- `handle_generic_flag_change`; `none` is `ERROR`. -/
def handleGenericFlagChange (flag : UInt64) (tokens : List Bytes) : Option Int := do
  let token ← tokens[1]?
  let (arg, endptr) := strtol token
  if token = endptr ∨ (arg ≠ 0 ∧ arg ≠ 1) then none
  else if arg = flag.toNat then none
  else some arg

/-- A command that changes the flag in `field`. -/
def handleCtrlFlag (field : CfgIntField) (cfg : ServCfg) (tokens : List Bytes) : ServCfg :=
  match handleGenericFlagChange (cfg.int field) tokens with
  | none => cfg
  | some arg => cfg.storeInt field (UInt64.ofInt arg)

/-- `handle_ctrl_registrations`. -/
def handleCtrlRegistrations : ServCfg → List Bytes → ServCfg := handleCtrlFlag .allowRegistrations

/-- `handle_ctrl_filetransfers`. -/
def handleCtrlFiletransfers : ServCfg → List Bytes → ServCfg := handleCtrlFlag .allowFileTransfers

/-- `handle_ctrl_whitelist_use`. -/
def handleCtrlWhitelistUse : ServCfg → List Bytes → ServCfg := handleCtrlFlag .useIpWhitelist

/-- The number that `handle_ctrl_filesize` accepts as its argument. -/
def filesizeArg (tokens : List Bytes) : Option UInt64 := do
  let token ← tokens[1]?
  let (arg, endptr, erange) := strtoull token
  if token = endptr ∨ cString endptr ≠ [] ∨ erange then none else some arg

/-- `handle_ctrl_filesize`. -/
def handleCtrlFilesize (cfg : ServCfg) (tokens : List Bytes) : ServCfg :=
  match filesizeArg tokens with
  | none => cfg
  | some arg => cfg.storeInt .maxFilesizeB arg

/-- `ctrl_process_cmd`, as far as it changes the configuration. -/
def ctrlProcessCmd (cfg : ServCfg) (tokens : List Bytes) : ServCfg :=
  match commandOf tokens with
  | some .registrations => handleCtrlRegistrations cfg tokens
  | some .filesize => handleCtrlFilesize cfg tokens
  | some .filetransfers => handleCtrlFiletransfers cfg tokens
  | some .whitelistUse => handleCtrlWhitelistUse cfg tokens
  -- The other commands print, or work on the tables, the logger and the shutdown event.
  | _ => cfg

/-- The configuration after a sequence of commands. -/
def ctrlProcessCmds (cfg : ServCfg) (lines : List (List Bytes)) : ServCfg :=
  lines.foldl ctrlProcessCmd cfg

/-! ### What every reachable configuration satisfies -/

/-- The range check of `X_LD_INT`. -/
def CfgIntField.InRange (field : CfgIntField) (value : UInt64) : Prop :=
  field.columns.min ≤ value ∧ value ≤ field.columns.max

instance (field : CfgIntField) (value : UInt64) : Decidable (field.InRange value) :=
  inferInstanceAs (Decidable (_ ∧ _))

/-- The minimum is the only bound of `max_filesize_b`. -/
theorem CfgIntField.inRange_maxFilesizeB (value : UInt64) :
    CfgIntField.maxFilesizeB.InRange value ↔ 200 ≤ value :=
  and_iff_left (UInt64.le_iff_toNat_le.mpr (Nat.le_of_lt_succ value.toNat_lt))

theorem CfgIntField.max_lt (field : CfgIntField) :
    field.columns.max.toNat < 2 ^ field.columns.bits := by
  cases field <;> decide

theorem CfgIntField.narrow_of_lt {field : CfgIntField} {value : UInt64}
    (fits : value.toNat < 2 ^ field.columns.bits) : field.narrow value = value := by
  rw [narrow, Nat.mod_eq_of_lt fits, UInt64.ofNat_toNat]

theorem CfgIntField.narrow_of_inRange {field : CfgIntField} {value : UInt64}
    (inRange : field.InRange value) : field.narrow value = value :=
  narrow_of_lt (lt_of_le_of_lt (UInt64.le_iff_toNat_le.mp inRange.2) field.max_lt)

/-- Every default passes the check of its own field. -/
theorem CfgIntField.inRange_default (field : CfgIntField) :
    field.InRange field.columns.default := by
  cases field <;> decide

/-- A default string leaves room for its terminator. -/
theorem CfgStrField.default_fits (field : CfgStrField) :
    (cString field.columns.default).length < field.columns.max := by
  cases field <;> decide

/-- A configuration whose fields, `max_filesize_b` apart, pass the checks of `load_cfg`. -/
structure ServCfg.Loadable (cfg : ServCfg) : Prop where
  inRange : ∀ field : CfgIntField, field ≠ .maxFilesizeB → field.InRange (cfg.int field)
  locks : cfg.int .clHtableLocksPow2 ≤ cfg.int .clHtableSizePow2
  text : ∀ field, ∃ text, (cString text).length < field.columns.max ∧
    cfg.str field = strncpy field.columns.max text

theorem ldInt_inRange (cfgJson : JsonObject) (field : CfgIntField) :
    field.InRange (ldInt cfgJson field) := by
  have fallback : field.InRange (field.narrow field.columns.default) := by
    rw [CfgIntField.narrow_of_inRange field.inRange_default]
    exact field.inRange_default
  unfold ldInt
  split
  · exact fallback
  · rename_i value _
    by_cases refused :
        value.toUInt64 < field.columns.min ∨ field.columns.max < value.toUInt64
    · rw [if_pos refused]
      exact fallback
    · have inRange : field.InRange value.toUInt64 :=
        ⟨UInt64.not_lt.mp fun low => refused (.inl low),
          UInt64.not_lt.mp fun high => refused (.inr high)⟩
      rw [if_neg refused, CfgIntField.narrow_of_inRange inRange]
      exact inRange

theorem ldStr_text (cfgJson : JsonObject) (field : CfgStrField) :
    ∃ text, (cString text).length < field.columns.max ∧
      ldStr cfgJson field = strncpy field.columns.max text := by
  have room : 0 < field.columns.max := Nat.zero_lt_of_lt field.default_fits
  unfold ldStr
  split
  · exact ⟨_, field.default_fits, rfl⟩
  · rename_i text _
    by_cases long : field.columns.max - 1 < text.length
    · rw [if_pos long]
      exact ⟨_, field.default_fits, rfl⟩
    · have short := length_cString_le text
      rw [if_neg long]
      exact ⟨text, by omega, rfl⟩

theorem ServCfg.storeInt_self (cfg : ServCfg) (field : CfgIntField) (value : UInt64) :
    (cfg.storeInt field value).int field = field.narrow value :=
  Function.update_self ..

theorem ServCfg.storeInt_of_ne (cfg : ServCfg) {field other : CfgIntField} (different : other ≠ field)
    (value : UInt64) : (cfg.storeInt field value).int other = cfg.int other :=
  Function.update_of_ne different ..

/-- An assignment within the range of its field keeps the configuration loadable, unless the field
is one of the two that are compared. -/
theorem ServCfg.Loadable.storeInt {cfg : ServCfg} (loadable : cfg.Loadable) {field : CfgIntField}
    {value : UInt64} (inRange : field ≠ .maxFilesizeB → field.InRange value)
    (notLocks : field ≠ .clHtableLocksPow2) (notSize : field ≠ .clHtableSizePow2) :
    (cfg.storeInt field value).Loadable where
  inRange other notFilesize := by
    by_cases same : other = field
    · subst same
      rw [storeInt_self, CfgIntField.narrow_of_inRange (inRange notFilesize)]
      exact inRange notFilesize
    · rw [cfg.storeInt_of_ne same]
      exact loadable.inRange other notFilesize
  locks := by
    rw [cfg.storeInt_of_ne notLocks.symm, cfg.storeInt_of_ne notSize.symm]
    exact loadable.locks
  text := loadable.text

theorem loadable_getDefaultCfg : getDefaultCfg.Loadable where
  inRange field _ := by
    show field.InRange (field.narrow field.columns.default)
    rw [CfgIntField.narrow_of_inRange field.inRange_default]
    exact field.inRange_default
  locks := by decide
  text field := ⟨_, field.default_fits, rfl⟩

theorem ServCfg.reduceLocks_of_le {cfg : ServCfg}
    (locks : cfg.int .clHtableLocksPow2 ≤ cfg.int .clHtableSizePow2) : cfg.reduceLocks = cfg :=
  if_neg (UInt64.not_lt.mpr locks)

theorem ServCfg.reduceLocks_int (cfg : ServCfg) {field : CfgIntField}
    (different : field ≠ .clHtableLocksPow2) : cfg.reduceLocks.int field = cfg.int field := by
  unfold reduceLocks
  split
  · exact cfg.storeInt_of_ne different _
  · rfl

/-- The number of locks is checked against the same range as the number of buckets, so it may be
reduced to it. -/
theorem ServCfg.loadable_reduceLocks {cfg : ServCfg}
    (inRange : ∀ field : CfgIntField, field.InRange (cfg.int field))
    (text : ∀ field : CfgStrField, ∃ text, (cString text).length < field.columns.max ∧
      cfg.str field = strncpy field.columns.max text) : cfg.reduceLocks.Loadable := by
  by_cases locks : cfg.int .clHtableLocksPow2 ≤ cfg.int .clHtableSizePow2
  · rw [reduceLocks_of_le locks]
    exact ⟨fun field _ => inRange field, locks, text⟩
  · have size : CfgIntField.clHtableLocksPow2.InRange (cfg.int .clHtableSizePow2) :=
      inRange .clHtableSizePow2
    have reduced : cfg.reduceLocks =
        cfg.storeInt .clHtableLocksPow2 (cfg.int .clHtableSizePow2) :=
      if_pos (UInt64.not_le.mp locks)
    rw [reduced]
    refine ⟨fun field _ => ?_, ?_, text⟩
    · by_cases same : field = .clHtableLocksPow2
      · subst same
        rw [storeInt_self, CfgIntField.narrow_of_inRange size]
        exact size
      · rw [cfg.storeInt_of_ne same]
        exact inRange field
    · rw [storeInt_self, CfgIntField.narrow_of_inRange size, cfg.storeInt_of_ne (by decide)]
      exact UInt64.le_refl _

section Load

variable {File : Type} (json : JsonC File)

theorem loadable_loadCfg (cfgFile : Option File) : (loadCfg json cfgFile).Loadable := by
  unfold loadCfg
  split
  · exact loadable_getDefaultCfg
  · rename_i cfgJson _
    exact ServCfg.loadable_reduceLocks (ldInt_inRange cfgJson) (ldStr_text cfgJson)

theorem loadCfg_maxFilesizeB (cfgFile : Option File) :
    200 ≤ (loadCfg json cfgFile).int .maxFilesizeB := by
  unfold loadCfg
  split
  · decide
  · rename_i cfgJson _
    rw [ServCfg.reduceLocks_int _ (by decide)]
    exact (ldInt_inRange cfgJson .maxFilesizeB).1

end Load

/-! ### What the commands change -/

theorem handleGenericFlagChange_flag {flag : UInt64} {tokens : List Bytes} {arg : Int}
    (accepted : handleGenericFlagChange flag tokens = some arg) : arg = 0 ∨ arg = 1 := by
  unfold handleGenericFlagChange at accepted
  cases present : tokens[1]? with
  | none =>
    rw [present] at accepted
    cases accepted
  | some token =>
    simp only [present, Option.bind_eq_bind, Option.bind_some] at accepted
    split at accepted
    · cases accepted
    · rename_i valid
      split at accepted
      · cases accepted
      · obtain rfl := Option.some.inj accepted
        have := not_or.mp valid
        omega

/-- A flag command stores 0 or 1, or nothing. -/
theorem handleCtrlFlag_cases (field : CfgIntField) (cfg : ServCfg) (tokens : List Bytes) :
    handleCtrlFlag field cfg tokens = cfg ∨
      ∃ value : UInt64, value ≤ 1 ∧ handleCtrlFlag field cfg tokens = cfg.storeInt field value := by
  unfold handleCtrlFlag
  split
  · exact .inl rfl
  · rename_i arg accepted
    refine .inr ⟨_, ?_, rfl⟩
    obtain rfl | rfl := handleGenericFlagChange_flag accepted
    · decide
    · decide

/-- The flags that the commands change are checked against 0 and 1 when they are loaded. -/
theorem loadable_handleCtrlFlag {field : CfgIntField} {cfg : ServCfg} (loadable : cfg.Loadable)
    (tokens : List Bytes) (bounds : field.columns.min = 0 ∧ field.columns.max = 1) :
    (handleCtrlFlag field cfg tokens).Loadable := by
  obtain same | ⟨value, small, stored⟩ := handleCtrlFlag_cases field cfg tokens
  · rw [same]
    exact loadable
  · have inRange : field.InRange value := by
      rw [CfgIntField.InRange, bounds.1, bounds.2]
      exact ⟨UInt64.zero_le, small⟩
    rw [stored]
    refine loadable.storeInt (fun _ => inRange) ?_ ?_
    · rintro rfl
      exact absurd bounds.1 (by decide)
    · rintro rfl
      exact absurd bounds.1 (by decide)

theorem handleCtrlFlag_maxFilesizeB {field : CfgIntField} (different : field ≠ .maxFilesizeB)
    (cfg : ServCfg) (tokens : List Bytes) :
    (handleCtrlFlag field cfg tokens).int .maxFilesizeB = cfg.int .maxFilesizeB := by
  obtain same | ⟨value, -, stored⟩ := handleCtrlFlag_cases field cfg tokens
  · rw [same]
  · rw [stored, cfg.storeInt_of_ne different.symm]

theorem loadable_ctrlProcessCmd {cfg : ServCfg} (loadable : cfg.Loadable) (tokens : List Bytes) :
    (ctrlProcessCmd cfg tokens).Loadable := by
  unfold ctrlProcessCmd
  split
  · exact loadable_handleCtrlFlag loadable tokens ⟨rfl, rfl⟩
  · unfold handleCtrlFilesize
    split
    · exact loadable
    · exact loadable.storeInt (fun different => absurd rfl different) (by decide) (by decide)
  · exact loadable_handleCtrlFlag loadable tokens ⟨rfl, rfl⟩
  · exact loadable_handleCtrlFlag loadable tokens ⟨rfl, rfl⟩
  · exact loadable

theorem loadable_ctrlProcessCmds {cfg : ServCfg} (loadable : cfg.Loadable)
    (lines : List (List Bytes)) : (ctrlProcessCmds cfg lines).Loadable := by
  induction lines generalizing cfg with
  | nil => exact loadable
  | cons tokens lines inductionHypothesis =>
    exact inductionHypothesis (loadable_ctrlProcessCmd loadable tokens)

/-- The number that a command line stores in `max_filesize_b`, if it is a `filesize` command whose
argument is accepted. -/
def filesizeStored (tokens : List Bytes) : Option UInt64 :=
  if commandOf tokens = some .filesize then filesizeArg tokens else none

theorem ctrlProcessCmd_maxFilesizeB (cfg : ServCfg) (tokens : List Bytes) :
    (ctrlProcessCmd cfg tokens).int .maxFilesizeB =
      (filesizeStored tokens).getD (cfg.int .maxFilesizeB) := by
  have unchanged {cmd : Option Cmd} (named : commandOf tokens = cmd)
      (other : cmd ≠ some .filesize) :
      (filesizeStored tokens).getD (cfg.int .maxFilesizeB) = cfg.int .maxFilesizeB := by
    rw [filesizeStored, if_neg (named ▸ other), Option.getD_none]
  unfold ctrlProcessCmd
  split
  · rename_i named
    rw [unchanged named (by decide)]
    exact handleCtrlFlag_maxFilesizeB (by decide) cfg tokens
  · rename_i named
    rw [filesizeStored, if_pos named, handleCtrlFilesize]
    cases filesizeArg tokens with
    | none => rfl
    | some arg =>
      rw [Option.getD_some, ServCfg.storeInt_self]
      exact CfgIntField.narrow_of_lt arg.toNat_lt
  · rename_i named
    rw [unchanged named (by decide)]
    exact handleCtrlFlag_maxFilesizeB (by decide) cfg tokens
  · rename_i named
    rw [unchanged named (by decide)]
    exact handleCtrlFlag_maxFilesizeB (by decide) cfg tokens
  · rename_i notFilesize _ _
    exact (unchanged rfl notFilesize).symm

/-- After any commands, `max_filesize_b` is what the last accepted `filesize` stored, or what it was
before. -/
theorem ctrlProcessCmds_maxFilesizeB (cfg : ServCfg) (lines : List (List Bytes)) :
    (ctrlProcessCmds cfg lines).int .maxFilesizeB =
      ((lines.filterMap filesizeStored).getLast?).getD (cfg.int .maxFilesizeB) := by
  induction lines using List.reverseRecOn with
  | nil => rfl
  | append_singleton lines tokens inductionHypothesis =>
    rw [ctrlProcessCmds] at inductionHypothesis ⊢
    rw [List.foldl_append, List.foldl_cons, List.foldl_nil, ctrlProcessCmd_maxFilesizeB,
      List.filterMap_append, inductionHypothesis]
    cases stored : filesizeStored tokens with
    | none => simp [stored]
    | some size => simp [stored]

/-! ### A restart -/

/-- Every field has the same value in two configurations. -/
def ServCfg.SameSettings (cfg other : ServCfg) : Prop :=
  (∀ field, cfg.int field = other.int field) ∧ ∀ field, cfg.str field = other.str field

/-- What `load_cfg` makes of an integer that `save_cfg` wrote: the conversion to `int64_t` and back
keeps all 64 bits. -/
theorem ldInt_int {cfgJson : JsonObject} {field : CfgIntField} {value : UInt64}
    (written : cfgJson field.columns.name = some (.int value.toInt64)) :
    ldInt cfgJson field = if field.InRange value then value else field.columns.default := by
  have read : (cfgJson field.columns.name).bind JsonValue.integral = some value.toInt64 := by
    rw [written]
    rfl
  rw [ldInt, read]
  show (if value.toInt64.toUInt64 < _ ∨ _ < value.toInt64.toUInt64 then _ else _) = _
  rw [UInt64.toUInt64_toInt64]
  by_cases inRange : field.InRange value
  · have accepted : ¬ (value < field.columns.min ∨ field.columns.max < value) :=
      not_or.mpr ⟨UInt64.not_lt.mpr inRange.1, UInt64.not_lt.mpr inRange.2⟩
    rw [if_neg accepted, if_pos inRange, CfgIntField.narrow_of_inRange inRange]
  · have refused : value < field.columns.min ∨ field.columns.max < value := by
      by_contra accepted
      obtain ⟨low, high⟩ := not_or.mp accepted
      exact inRange ⟨UInt64.not_lt.mp low, UInt64.not_lt.mp high⟩
    rw [if_pos refused, if_neg inRange, CfgIntField.narrow_of_inRange field.inRange_default]

/-- A string that was copied into its array comes back as the same array. -/
theorem ldStr_string {cfgJson : JsonObject} {field : CfgStrField} {text : Bytes}
    (fits : (cString text).length < field.columns.max)
    (written : cfgJson field.columns.name =
      some (.string (cString (strncpy field.columns.max text)))) :
    ldStr cfgJson field = strncpy field.columns.max text := by
  have kept : cString (strncpy field.columns.max text) = cString text := by
    rw [cString_strncpy, List.take_of_length_le (Nat.le_of_lt fits)]
  have read : (cfgJson field.columns.name).bind JsonValue.text = some (cString text) := by
    rw [written, kept]
    rfl
  rw [ldStr, read]
  show (if _ < (cString text).length then _ else strncpy _ (cString text)) = _
  rw [if_neg (by omega), strncpy, strncpy, cString_eq_self (cString_clean text)]

theorem cfgMembers_nodup (cfg : ServCfg) : ((cfgMembers cfg).map Prod.fst).Nodup := by
  have names : (cfgMembers cfg).map Prod.fst =
      cfgIntFields.map (fun field => field.columns.name) ++
        cfgStrFields.map (fun field => field.columns.name) := by
    rw [cfgMembers, List.map_append, List.map_map, List.map_map]
    rfl
  rw [names]
  decide

theorem cfgMembers_writable (cfg : ServCfg) : ∀ member ∈ cfgMembers cfg, member.2.Writable := by
  intro member present
  obtain integer | string := List.mem_append.mp present
  · obtain ⟨field, -, rfl⟩ := List.mem_map.mp integer
    trivial
  · obtain ⟨field, -, rfl⟩ := List.mem_map.mp string
    exact cString_clean (cfg.str field)

theorem stInt_mem (cfg : ServCfg) (field : CfgIntField) : stInt cfg field ∈ cfgMembers cfg := by
  have listed : field ∈ cfgIntFields := by cases field <;> decide
  exact List.mem_append_left _ (List.mem_map_of_mem listed)

theorem stStr_mem (cfg : ServCfg) (field : CfgStrField) : stStr cfg field ∈ cfgMembers cfg := by
  have listed : field ∈ cfgStrFields := by cases field <;> simp [cfgStrFields]
  exact List.mem_append_right _ (List.mem_map_of_mem listed)

/-- What a restart makes of a configuration. -/
def ServCfg.restarted (cfg : ServCfg) : ServCfg :=
  if 200 ≤ cfg.int .maxFilesizeB then cfg
  else cfg.storeInt .maxFilesizeB CfgIntField.maxFilesizeB.columns.default

theorem ServCfg.restarted_int {cfg : ServCfg} (loadable : cfg.Loadable) (field : CfgIntField) :
    cfg.restarted.int field =
      if field.InRange (cfg.int field) then cfg.int field else field.columns.default := by
  unfold restarted
  by_cases filesize : field = .maxFilesizeB
  · subst filesize
    by_cases large : 200 ≤ cfg.int .maxFilesizeB
    · rw [if_pos large, if_pos ((CfgIntField.inRange_maxFilesizeB _).mpr large)]
    · rw [if_neg large, if_neg fun inRange => large ((CfgIntField.inRange_maxFilesizeB _).mp inRange),
        storeInt_self, CfgIntField.narrow_of_inRange (CfgIntField.inRange_default _)]
  · rw [if_pos (loadable.inRange field filesize)]
    split
    · rfl
    · exact cfg.storeInt_of_ne filesize _

theorem ServCfg.restarted_str (cfg : ServCfg) : cfg.restarted.str = cfg.str := by
  unfold restarted
  split
  · rfl
  · rfl

section Restart

variable {File : Type} {json : JsonC File}

/-- Saving a configuration and loading the file replaces a `max_filesize_b` that is too small by its
default and keeps every other field. -/
theorem loadCfg_saveCfg (readsBack : json.ReadsBack) {cfg : ServCfg} (loadable : cfg.Loadable) :
    loadCfg json (some (saveCfg json cfg)) = cfg.restarted := by
  obtain ⟨cfgJson, opened, members⟩ :=
    readsBack (cfgMembers cfg) (cfgMembers_nodup cfg) (cfgMembers_writable cfg)
  have ints : ldInt cfgJson = cfg.restarted.int := by
    funext field
    rw [ldInt_int (members _ (stInt_mem cfg field)), cfg.restarted_int loadable]
  have strs : ldStr cfgJson = cfg.restarted.str := by
    funext field
    obtain ⟨text, fits, copied⟩ := loadable.text field
    have written := members _ (stStr_mem cfg field)
    rw [stStr, copied] at written
    rw [ldStr_string fits written, cfg.restarted_str, copied]
  have locks : cfg.restarted.int .clHtableLocksPow2 ≤ cfg.restarted.int .clHtableSizePow2 := by
    rw [cfg.restarted_int loadable, cfg.restarted_int loadable,
      if_pos (loadable.inRange _ (by decide)), if_pos (loadable.inRange _ (by decide))]
    exact loadable.locks
  have read : (some (saveCfg json cfg)).bind json.objectFromFile = some cfgJson := opened
  rw [loadCfg, read]
  show ServCfg.reduceLocks { int := ldInt cfgJson, str := ldStr cfgJson } = cfg.restarted
  rw [ints, strs]
  exact ServCfg.reduceLocks_of_le locks

/-- The settings come back exactly when `max_filesize_b` is not below its minimum. -/
theorem ServCfg.sameSettings_restarted_iff (cfg : ServCfg) :
    cfg.restarted.SameSettings cfg ↔ 200 ≤ cfg.int .maxFilesizeB := by
  unfold restarted
  by_cases large : 200 ≤ cfg.int .maxFilesizeB
  · rw [if_pos large]
    exact iff_of_true ⟨fun _ => rfl, fun _ => rfl⟩ large
  · rw [if_neg large]
    refine iff_of_false (fun same => large ?_) large
    rw [← same.1 .maxFilesizeB, storeInt_self]
    decide

/-- Every setting survives a restart exactly if no `filesize` command was accepted or the last one
that was stored a number of at least 200. -/
theorem settings_survive_restart_iff (readsBack : json.ReadsBack) (cfgFile : Option File)
    (lines : List (List Bytes)) :
    (loadCfg json (some (saveCfg json (ctrlProcessCmds (loadCfg json cfgFile) lines)))).SameSettings
        (ctrlProcessCmds (loadCfg json cfgFile) lines) ↔
      ∀ size, (lines.filterMap filesizeStored).getLast? = some size → 200 ≤ size := by
  have loadable := loadable_ctrlProcessCmds (loadable_loadCfg json cfgFile) lines
  rw [loadCfg_saveCfg readsBack loadable, ServCfg.sameSettings_restarted_iff,
    ctrlProcessCmds_maxFilesizeB]
  cases last : (lines.filterMap filesizeStored).getLast? with
  | none =>
    rw [Option.getD_none]
    refine iff_of_true (loadCfg_maxFilesizeB json cfgFile) fun size stored => ?_
    cases stored
  | some size =>
    rw [Option.getD_some]
    exact ⟨fun large _ stored => Option.some.inj stored ▸ large, fun large => large size rfl⟩

end Restart

/-- Under names that differ, looking up the name of a member finds the member. -/
theorem find?_member {members : List (String × JsonValue)} (nodup : (members.map Prod.fst).Nodup)
    {member : String × JsonValue} (present : member ∈ members) :
    members.find? (fun other => other.1 = member.1) = some member := by
  induction members with
  | nil => cases present
  | cons first members inductionHypothesis =>
    rw [List.map_cons, List.nodup_cons] at nodup
    obtain rfl | later := List.mem_cons.mp present
    · exact List.find?_cons_of_pos (by simp)
    · have different : first.1 ≠ member.1 := fun same =>
        nodup.1 (same ▸ List.mem_map_of_mem later)
      rw [List.find?_cons_of_neg (by simpa using different)]
      exact inductionHypothesis nodup.2 later

/-- Files that hold the members of an object themselves. -/
def memberJson : JsonC (List (String × JsonValue)) where
  objectFromFile file := some fun name => (file.find? fun member => member.1 = name).map Prod.snd
  objectToFileExt members := members

theorem memberJson_readsBack : memberJson.ReadsBack := by
  intro members nodup _
  refine ⟨_, rfl, fun member present => ?_⟩
  show (members.find? fun other => other.1 = member.1).map Prod.snd = some member.2
  rw [find?_member nodup present]
  rfl

theorem settings_survive_restart_iff_largest :
    (loadCfg memberJson (some (saveCfg memberJson (ctrlProcessCmds (loadCfg memberJson none)
        [[ofLiteral "filesize", ofLiteral "100"], [ofLiteral "filetransfers", ofLiteral "0"],
          [ofLiteral "filesize", ofLiteral "18446744073709551615"]])))).SameSettings
      (ctrlProcessCmds (loadCfg memberJson none)
        [[ofLiteral "filesize", ofLiteral "100"], [ofLiteral "filetransfers", ofLiteral "0"],
          [ofLiteral "filesize", ofLiteral "18446744073709551615"]]) := by
  refine (settings_survive_restart_iff memberJson_readsBack none _).mpr fun size stored => ?_
  have last : some size = some 18446744073709551615 := by
    rw [← stored]
    decide
  obtain rfl := Option.some.inj last
  decide

/-- `filesize 100` is accepted, and after the restart the limit is the default of 4 MiB. -/
theorem small_filesize_lost :
    ¬ ∀ (File : Type) (json : JsonC File), json.ReadsBack →
      ∀ (cfgFile : Option File) (lines : List (List Bytes)),
        (loadCfg json (some (saveCfg json
          (ctrlProcessCmds (loadCfg json cfgFile) lines)))).SameSettings
          (ctrlProcessCmds (loadCfg json cfgFile) lines) := by
  intro survives
  have same := (survives _ memberJson memberJson_readsBack none
    [[ofLiteral "filesize", ofLiteral "100"]]).1 .maxFilesizeB
  have before : (ctrlProcessCmds (loadCfg memberJson none)
      [[ofLiteral "filesize", ofLiteral "100"]]).int .maxFilesizeB = 100 := by decide
  have after : (loadCfg memberJson (some (saveCfg memberJson
      (ctrlProcessCmds (loadCfg memberJson none)
        [[ofLiteral "filesize", ofLiteral "100"]])))).int .maxFilesizeB = 4194304 := by decide
  rw [before, after] at same
  exact absurd same (by decide)

end Lwmsg
