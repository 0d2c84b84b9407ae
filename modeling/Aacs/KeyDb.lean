import Aacs.Error
import Aacs.Proc
import Aacs.Text
import Mathlib.Data.Finmap

/-!
# The key database text

A database is read line by line. A row that begins with a bar is a record of one
of ten kinds; any other row pairs a disc id with its keys. A row that cannot be
read goes to the report and the rest is read on.

An offset is at most the length of its text, below half of the address space, so
that adding a character's size to one stays in range; offsets are naturals here.
-/

open Text Outcome

structure Vuk where
  bytes : Bytes 16
  deriving DecidableEq

structure KeyDbEntry where
  discId : Bytes 20
  vuk : Vuk
  label : Option (List Char)
  unitKeys : List (UInt16 × Bytes 16)
  deriving DecidableEq

structure DeviceKeyRecord where
  deviceKey : Bytes 16
  deviceNode : Bytes 2
  keyUv : Bytes 4
  keyUMaskShift : UInt8
  comment : Option (List Char)
  deriving DecidableEq

structure ProcessingKey where
  processingKey : Bytes 16
  comment : Option (List Char)
  deriving DecidableEq

structure HostCertRecord where
  hostPrivKey : Bytes 20
  hostCert : List UInt8
  comment : Option (List Char)
  deriving DecidableEq

structure DriveCertRecord where
  drivePrivKey : Bytes 20
  driveCert : List UInt8
  comment : Option (List Char)
  deriving DecidableEq

/-- What the rows below a disc id gave for it. -/
structure DiscRecords where
  discId : Bytes 20
  vid : Option (Bytes 16) := none
  vuk : Option Vuk := none
  mek : Option (Bytes 16) := none
  titleKeys : List (Bytes 16) := []
  kcd : Option (List UInt8) := none
  label : Option (List Char) := none
  deriving DecidableEq

structure KeyDb where
  byDiscId : Finmap (fun _ : Bytes 20 => KeyDbEntry) := ∅
  deviceKeys : List DeviceKeyRecord := []
  processingKeys : List ProcessingKey := []
  hostCerts : List HostCertRecord := []
  driveCerts : List DriveCertRecord := []
  discRecords : Finmap (fun _ : Bytes 20 => DiscRecords) := ∅

/-- The reason is kept as the error whose display text the code stores. -/
structure SkippedLine where
  lineNumber : Nat
  snippet : List Char
  reason : AacsError
  deriving DecidableEq

structure ParseReport where
  skipped : List SkippedLine := []
  deriving DecidableEq

namespace KeyDb

/-- What a row reads and writes: the database and the disc id it is scoped to. -/
structure Rows where
  db : KeyDb := {}
  currentDiscid : Option (Bytes 20) := none

def truncateExcerpt (snippet : List Char) (maxBytes : Nat) : Result (List Char) :=
  if utf8Len snippet ≤ maxBytes then .ok snippet
  else
    let fitting := (charIndices 0 snippet).takeWhile fun p => p.1 + p.2.utf8Size ≤ maxBytes
    sliceTo snippet ((fitting.getLast?.map fun p => p.1 + p.2.utf8Size).getD 0)

def makeLegacyErr (snippet : List Char) : Result AacsError := do
  let excerpt ← truncateExcerpt snippet 80
  return .keyDbParseError excerpt

/-- The text is `msg` with the quoted excerpt behind it. -/
def headerErr (snippet : List Char) (msg : String) : Result AacsError := do
  let excerpt ← truncateExcerpt snippet 80
  return .headerParseError msg excerpt

/-- Without the leading `0x`, if there is one. -/
def hexBody (s : List Char) : Option (List Char) :=
  (stripStart ['0', 'x'] s).or (stripStart ['0', 'X'] s)

def stripHexPrefix (s : List Char) : List Char := (hexBody s).getD s

/-- The two decoders of the other rows differ in their length alone. -/
def parseHexArrayLegacy (n : Nat) (text : List Char) : Result (Bytes n) :=
  if utf8Len text ≠ 2 * n then fail (makeLegacyErr text)
  else do
    let out ← (List.range n).mapM fun i => do
      let pair ← slice text (i * 2) (i * 2 + 2)
      okOrElse ((fromStrRadix 16 256 pair).map UInt8.ofNat) (makeLegacyErr text)
    copyFrom n out

def parseHexArray20Legacy (text : List Char) : Result (Bytes 20) := parseHexArrayLegacy 20 text

def parseHexArray16Legacy (text : List Char) : Result (Bytes 16) := parseHexArrayLegacy 16 text

/-- `None` is the error here and in the decoder below. -/
def hexDigit (b : UInt8) : Outcome Unit UInt8 :=
  if 48 ≤ b ∧ b ≤ 57 then subU8 b 48
  else if 97 ≤ b ∧ b ≤ 102 then do addU8 (← subU8 b 97) 10
  else if 65 ≤ b ∧ b ≤ 70 then do addU8 (← subU8 b 65) 10
  else .err ()

/-- One turn of the decoder's loop. -/
def hexPair (b : List UInt8) (i : Nat) : Outcome Unit UInt8 := do
  let hi ← hexDigit (← index b i)
  let lo ← hexDigit (← index b (i + 1))
  return (hi <<< 4) ||| lo

def parseHexBytes (hex : List Char) : Outcome Unit (List UInt8) :=
  if utf8Len hex % 2 ≠ 0 then .err ()
  else
    let b := utf8Bytes hex
    (List.range ((b.length + 1) / 2)).mapM fun k => hexPair b (2 * k)

/-- The two decoders of the records differ in the test of the length. -/
def parseHexField (value : List Char) (fieldName : String) (bad : Nat → Bool)
    (lengthMsg : Nat → String) :
    Outcome String (List UInt8) := do
  let stripped ← okOr (hexBody (trim value)) (fieldName ++ ": missing 0x prefix")
  refuseIf (bad (utf8Len stripped)) (lengthMsg (utf8Len stripped))
  (parseHexBytes stripped).mapErr fun _ => .ok (fieldName ++ ": non-hex character")

def parseHexFixed (value : List Char) (expectedLen : Nat) (fieldName : String) :
    Outcome String (List UInt8) :=
  parseHexField value fieldName (· ≠ expectedLen) fun n =>
    fieldName ++ ": expected " ++ toString expectedLen ++ " hex chars, got " ++ toString n

def parseHexVar (value : List Char) (fieldName : String) : Outcome String (List UInt8) :=
  parseHexField value fieldName (fun n => n = 0 || n % 2 ≠ 0) fun n =>
    fieldName ++ ": hex length must be a positive even number, got " ++ toString n

def flagWords : List Char := ['D', 'M', 'I', 'V', 'U', 'd', 'm', 'i', 'v', 'u']

def isFlagWord (s : List Char) : Result Bool :=
  if utf8Len s = 1 then do
    let b ← index (utf8Bytes s) 0
    return (flagWords.map Char.toUInt8).contains b
  else .ok false

def headAndValue (ptok : List Char) : Result (List Char × List Char) :=
  match find isWhitespace ptok with
  | some idx => do
    let candidate ← sliceTo ptok idx
    if ← isFlagWord candidate then
      return (candidate, trim (← sliceFrom ptok idx))
    else return ([], ptok)
  | none => do
    if ← isFlagWord ptok then return (ptok, []) else return ([], ptok)

/-- The fields a row has given so far, and the flag its next value belongs to. -/
structure LegacyFields where
  vukBytes : Option (Bytes 16) := none
  unitKeys : List (UInt16 × Bytes 16) := []
  labelParts : List (List Char) := []
  currentFlag : Option Char := none

/-- `<n>-0x<key>`; one that cannot be read is passed over. -/
def unitKey (value : List Char) : Result (Option (UInt16 × Bytes 16)) :=
  match splitOnce '-' value with
  | none => .ok none
  | some (idStr, keyStr) => do
    let id := (fromStrRadix 10 65536 (trim idStr)).map UInt16.ofNat
    let key ← (parseHexArray16Legacy (stripHexPrefix (trim keyStr))).attempt
    return id.bind fun id => key.map fun key => (id, key)

/-- A value of the `V` flag; one of another length is passed over. -/
def vukValue (value : List Char) : Result (Option (Bytes 16)) :=
  let raw := stripHexPrefix value
  if utf8Len raw = 32 then do return some (← parseHexArray16Legacy raw) else .ok none

def legacyValue (f : LegacyFields) (value : List Char) : Result LegacyFields :=
  match f.currentFlag with
  | some 'V' => do
    let vuk ← vukValue value
    return { f with vukBytes := vuk.or f.vukBytes, currentFlag := none }
  | some 'U' => do
    let key ← unitKey value
    return { f with unitKeys := f.unitKeys ++ key.toList }
  | some _ => .ok { f with currentFlag := none }
  | none => .ok { f with labelParts := f.labelParts ++ [value] }

def legacyToken (f : LegacyFields) (ptok : List Char) : Result LegacyFields :=
  if ptok = [] then .ok f
  else do
    let (head, value) ← headAndValue ptok
    let f := if head ≠ [] then { f with currentFlag := head.head?.map Char.toUpper } else f
    if value = [] then return f else legacyValue f value

def parseLegacyLine (line : List Char) : Result KeyDbEntry :=
  match splitOnce '=' line with
  | none => fail (makeLegacyErr line)
  | some (discIdText, rhs) => do
    let discId ← parseHexArray20Legacy (stripHexPrefix (trim discIdText))
    let f ← ((split '|' rhs).map trim).foldlM legacyToken {}
    let vukBytes ← okOrElse f.vukBytes (makeLegacyErr line)
    return {
      discId := discId
      vuk := ⟨vukBytes⟩
      label := if f.labelParts = [] then none else some (join " | ".toList f.labelParts)
      unitKeys := f.unitKeys }

def pipeTokenize (body : List Char) : List (List Char) := (split '|' body).map trim

def splitNamed (field : List Char) : Result (List Char × List Char) :=
  match find isWhitespace field with
  | some idx => do
    let head := trim (← sliceTo field idx)
    let rest := trim (← sliceFrom field idx)
    return if (hexBody head).isSome then ([], trim field) else (head, rest)
  | none => .ok ([], trim field)

def findNamed (name : String) : List (List Char) → Result (Option (List Char))
  | [] => .ok none
  | tok :: tokens => do
    let (n, v) ← splitNamed tok
    if n ≠ [] ∧ eqIgnoreAsciiCase n name.toList then return some v else findNamed name tokens

def positionalValues (tokens : List (List Char)) : Result (List (List Char)) := do
  let split ← tokens.mapM splitNamed
  return split.filterMap fun p => if p.1 = [] ∧ p.2 ≠ [] then some p.2 else none

/-- `find_named(..).ok_or_else(..)`, as the records that need a field call it. -/
def requireNamed (leader name : String) (fields : List (List Char)) (body : List Char) :
    Result (List Char) := do
  okOrElse (← findNamed name fields) (headerErr body (leader ++ ": missing " ++ name ++ " field"))

def requireDiscid (currentDiscid : Option (Bytes 20)) (leader : String) (body : List Char) :
    Result (Bytes 20) :=
  okOrElse currentDiscid (headerErr body (leader ++ ": must be preceded by a `| DISCID |` row"))

def positionalOrNamed (fields : List (List Char)) (name : String) (body : List Char) :
    Result (List Char) := do
  match ← findNamed name fields with
  | some v => return v
  | none =>
    let positionals ← positionalValues fields
    if positionals.length = 1 then expect positionals[0]?
    else fail (headerErr body (name ++ ": expected `" ++ name ++ " 0xVALUE` or `0xVALUE`, got " ++
      toString positionals.length ++ " positionals + no named match"))

/-- `db.disc_records.entry(did).or_insert_with(..)`, and a change of what is there. -/
def updateDisc (db : KeyDb) (did : Bytes 20) (f : DiscRecords → DiscRecords) : KeyDb :=
  { db with discRecords :=
    db.discRecords.insert did (f ((db.discRecords.lookup did).getD { discId := did })) }

variable (fields : List (List Char)) (comment : Option (List Char)) (body : List Char)

/-- What `parse_dk` reads before it writes; so for the records below. -/
def readDk : Result DeviceKeyRecord := do
  let dkHex ← requireNamed "DK" "DEVICE_KEY" fields body
  let nodeHex ← requireNamed "DK" "DEVICE_NODE" fields body
  let uvHex ← requireNamed "DK" "KEY_UV" fields body
  let shiftHex ← requireNamed "DK" "KEY_U_MASK_SHIFT" fields body
  let dk ← (parseHexFixed dkHex 32 "DEVICE_KEY").mapErr (headerErr body)
  let node ← (parseHexFixed nodeHex 4 "DEVICE_NODE").mapErr (headerErr body)
  let uv ← (parseHexFixed uvHex 8 "KEY_UV").mapErr (headerErr body)
  let shift ← (parseHexFixed shiftHex 2 "KEY_U_MASK_SHIFT").mapErr (headerErr body)
  let deviceKey ← copyFrom 16 dk
  let deviceNode ← copyFrom 2 node
  let keyUv ← copyFrom 4 uv
  let keyUMaskShift ← index shift 0
  return { deviceKey, deviceNode, keyUv, keyUMaskShift, comment }

def parseDk : Proc Rows AacsError Unit := do
  let record ← Proc.lift (readDk fields comment body)
  Proc.modify fun s => { s with db := { s.db with deviceKeys := s.db.deviceKeys ++ [record] } }

def readPk : Result ProcessingKey := do
  let positionals ← positionalValues fields
  if positionals.length ≠ 1 then
    fail (headerErr body
      ("PK: expected exactly 1 positional value, got " ++ toString positionals.length))
  else
    let value ← expect positionals[0]?
    let pk ← (parseHexFixed value 32 "PROCESSING_KEY").mapErr (headerErr body)
    let processingKey ← copyFrom 16 pk
    return { processingKey, comment }

def parsePk : Proc Rows AacsError Unit := do
  let record ← Proc.lift (readPk fields comment body)
  Proc.modify fun s =>
    { s with db := { s.db with processingKeys := s.db.processingKeys ++ [record] } }

/-- A certificate of four bytes or more states its own length. -/
def checkHostCertLength (certBytes : List UInt8) : Result Unit :=
  if certBytes.length ≥ 4 then do
    let declared ← indexU16 certBytes 2
    if declared.toNat ≠ certBytes.length then
      fail (headerErr body ("HC: HOST_CERT internal length field " ++ toString declared.toNat ++
        " != buffer length " ++ toString certBytes.length))
    else return ()
  else .ok ()

def readHc : Result HostCertRecord := do
  let privHex ← requireNamed "HC" "HOST_PRIV_KEY" fields body
  let certHex ← requireNamed "HC" "HOST_CERT" fields body
  let privBytes ← (parseHexFixed privHex 40 "HOST_PRIV_KEY").mapErr (headerErr body)
  let hostCert ← (parseHexVar certHex "HOST_CERT").mapErr (headerErr body)
  checkHostCertLength body hostCert
  let hostPrivKey ← copyFrom 20 privBytes
  return { hostPrivKey, hostCert, comment }

def parseHc : Proc Rows AacsError Unit := do
  let record ← Proc.lift (readHc fields comment body)
  Proc.modify fun s => { s with db := { s.db with hostCerts := s.db.hostCerts ++ [record] } }

def readDc : Result DriveCertRecord := do
  let privHex ← requireNamed "DC" "DRIVE_PRIV_KEY" fields body
  let certHex ← requireNamed "DC" "DRIVE_CERT" fields body
  let privBytes ← (parseHexFixed privHex 40 "DRIVE_PRIV_KEY").mapErr (headerErr body)
  let driveCert ← (parseHexVar certHex "DRIVE_CERT").mapErr (headerErr body)
  let drivePrivKey ← copyFrom 20 privBytes
  return { drivePrivKey, driveCert, comment }

def parseDc : Proc Rows AacsError Unit := do
  let record ← Proc.lift (readDc fields comment body)
  Proc.modify fun s => { s with db := { s.db with driveCerts := s.db.driveCerts ++ [record] } }

def readDiscid : Result (Bytes 20 × Option (List Char)) := do
  let positionals ← positionalValues fields
  if positionals = [] then fail (headerErr body "DISCID: missing disc-id positional value")
  else
    let value ← expect positionals[0]?
    let idBytes ← (parseHexFixed value 40 "DISCID").mapErr (headerErr body)
    let discId ← copyFrom 20 idBytes let label :=
  if positionals.length > 1 then some (join " | ".toList (positionals.drop 1)) else none
    return (discId, label)

def parseDiscid : Proc Rows AacsError Unit := do
  let (discId, label) ← Proc.lift (readDiscid fields body)
  Proc.modify fun s => {
    db := updateDisc s.db discId fun rec => { rec with label := (rec.label.or label).or comment }
    currentDiscid := some discId }

/-- The value of a row that belongs to the current disc. -/
def readScoped {α : Type} (leader : String) (read : List Char → Outcome String α) : Result α := do
  let value ← positionalOrNamed fields leader body
  (read value).mapErr (headerErr body)

/-- The rows that belong to the current disc: each reads one value and stores it. -/
def parseScoped {α : Type} (leader : String) (read : List Char → Outcome String α)
    (put : α → DiscRecords → DiscRecords) : Proc Rows AacsError Unit := do
  let s ← Proc.get
  let (did, v) ← Proc.lift do
    let did ← requireDiscid s.currentDiscid leader body
    let v ← readScoped fields body leader read
    return (did, v)
  Proc.modify fun s => { s with db := updateDisc s.db did (put v) }

/-- A key of sixteen bytes. -/
def readKey (name : String) (value : List Char) : Outcome String (Bytes 16) := do
  copyFrom 16 (← parseHexFixed value 32 name)

def parseVid : Proc Rows AacsError Unit :=
  parseScoped fields body "VID" (readKey "VID") fun vid rec => { rec with vid := some vid }

def parseVuk : Proc Rows AacsError Unit :=
  parseScoped fields body "VUK" (readKey "VUK") fun v rec => { rec with vuk := some ⟨v⟩ }

def parseMek : Proc Rows AacsError Unit :=
  parseScoped fields body "MEK" (readKey "MEK") fun mek rec => { rec with mek := some mek }

def parseTk : Proc Rows AacsError Unit :=
  parseScoped fields body "TK" (readKey "TK") fun tk rec =>
    { rec with titleKeys := rec.titleKeys ++ [tk] }

def parseKcd : Proc Rows AacsError Unit :=
  parseScoped fields body "KCD" (parseHexVar · "KCD") fun bytes rec =>
    { rec with kcd := some bytes }

def dispatch (leader : String) : Proc Rows AacsError Unit :=
  match leader with
  | "DK" => parseDk fields comment body
  | "PK" => parsePk fields comment body
  | "HC" => parseHc fields comment body
  | "DC" => parseDc fields comment body
  | "DISCID" => parseDiscid fields comment body
  | "VID" => parseVid fields body
  | "VUK" => parseVuk fields body
  | "MEK" => parseMek fields body
  | "TK" => parseTk fields body
  | "KCD" => parseKcd fields body
  | other => Proc.lift (fail (headerErr body ("unrecognised record leader `" ++ other ++ "`")))

def parsePipeRecord : Proc Rows AacsError Unit :=
  let tokensFull := pipeTokenize body
  if tokensFull.head? ≠ some [] then
    Proc.lift (fail (headerErr body "line must start with `|` (no leader `|` found)"))
  else
    match tokensFull.filter (· ≠ []) with
    | [] => Proc.lift (fail (headerErr body "empty record"))
    | leader :: fields => dispatch fields comment body (String.ofList (toAsciiUppercase leader))

/-- The row and the comment of a line. -/
def splitComment (raw : List Char) : Result (List Char × Option (List Char)) :=
  match find (· = ';') raw with
  | some i => do
    let body ← sliceTo raw i
    let comment ← sliceFrom raw (i + 1)
    return (body, some (trim comment))
  | none => .ok (raw, none)

def parseRow (body : List Char) (comment : Option (List Char)) : Proc Rows AacsError Unit :=
  if body.head? = some '|' then parsePipeRecord comment body
  else do
    let entry ← Proc.lift (parseLegacyLine body)
    Proc.modify fun s =>
      { s with db := { s.db with byDiscId := s.db.byDiscId.insert entry.discId entry } }

/-- A row that ends with an error is reported, with what it wrote before it. -/
def parseLine (s : Rows × ParseReport) (line : List Char × Nat) : Result (Rows × ParseReport) := do
  let (body, comment) ← splitComment line.1
  let body := trim body
  if body = [] then return s
  else match parseRow body (comment.filter (· ≠ [])) s.1 with
    | (.ok (), rows) => return (rows, s.2)
    | (.err e, rows) =>
      let snippet ← truncateExcerpt body 80 return (rows,
        { skipped := s.2.skipped ++ [{ lineNumber := line.2 + 1, snippet, reason := e }] })
    | (.panic, _) => .panic

def parseWithReport (text : List Char) : Result (KeyDb × ParseReport) := do
  let (rows, report) ← (lines text).zipIdx.foldlM parseLine ({}, {})
  return (rows.db, report)

def parse (text : List Char) : Result KeyDb := do
  let (db, _) ← parseWithReport text
  return db

end KeyDb
