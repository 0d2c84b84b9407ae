import Aacs.KeyDbSafety

/-!
# What a row says

A row is read without a look at the database, and what it says is then stored:
`Row` is what it can say, `Row.store` what that does. Every handler refines this:
it does what its row says or leaves everything as it was.
-/

open Text Outcome

namespace KeyDb

/-- A value of the current disc. -/
inductive DiscValue where
  | vid (key : Bytes 16)
  | vuk (key : Vuk)
  | mek (key : Bytes 16)
  | tk (key : Bytes 16)
  | kcd (bytes : List UInt8)
  deriving DecidableEq

def DiscValue.put (v : DiscValue) (rec : DiscRecords) : DiscRecords :=
  match v with
  | .vid key => { rec with vid := some key }
  | .vuk key => { rec with vuk := some key }
  | .mek key => { rec with mek := some key }
  | .tk key => { rec with titleKeys := rec.titleKeys ++ [key] }
  | .kcd bytes => { rec with kcd := some bytes }

inductive Row where
  | entry (e : KeyDbEntry)
  | deviceKey (record : DeviceKeyRecord)
  | processingKey (record : ProcessingKey)
  | hostCert (record : HostCertRecord)
  | driveCert (record : DriveCertRecord)
  | discid (id : Bytes 20) (label comment : Option (List Char))
  | value (v : DiscValue)
  deriving DecidableEq

def DiscValue.leader : DiscValue → String
  | .vid _ => "VID"
  | .vuk _ => "VUK"
  | .mek _ => "MEK"
  | .tk _ => "TK"
  | .kcd _ => "KCD"

/-- A row of the first form has no leader. -/
def Row.leader : Row → Option String
  | .entry _ => none
  | .deviceKey _ => some "DK"
  | .processingKey _ => some "PK"
  | .hostCert _ => some "HC"
  | .driveCert _ => some "DC"
  | .discid _ _ _ => some "DISCID"
  | .value v => some v.leader

/-- A value needs a disc id above it; nothing else can fail. -/
def Row.store (s : Rows) (row : Row) : Option Rows :=
  match row with
  | .entry e => some { s with db := { s.db with byDiscId := s.db.byDiscId.insert e.discId e } }
  | .deviceKey record =>
    some { s with db := { s.db with deviceKeys := s.db.deviceKeys ++ [record] } }
  | .processingKey record =>
    some { s with db := { s.db with processingKeys := s.db.processingKeys ++ [record] } }
  | .hostCert record => some { s with db := { s.db with hostCerts := s.db.hostCerts ++ [record] } }
  | .driveCert record =>
    some { s with db := { s.db with driveCerts := s.db.driveCerts ++ [record] } }
  | .discid id label comment => some {
      db := updateDisc s.db id fun rec => { rec with label := (rec.label.or label).or comment }
      currentDiscid := some id }
  | .value v => s.currentDiscid.map fun did => { s with db := updateDisc s.db did v.put }

theorem Row.store_value (s : Rows) (v : DiscValue) : (Row.value v).store s =
    s.currentDiscid.map fun did => { s with db := updateDisc s.db did v.put } := rfl

/-- The row of a record with this leader. -/
def readRecord (fields : List (List Char)) (comment : Option (List Char)) (body : List Char)
    (leader : String) :
    Result Row :=
  match leader with
  | "DK" => Row.deviceKey <$> readDk fields comment body
  | "PK" => Row.processingKey <$> readPk fields comment body
  | "HC" => Row.hostCert <$> readHc fields comment body
  | "DC" => Row.driveCert <$> readDc fields comment body
  | "DISCID" => (fun p => Row.discid p.1 p.2 comment) <$> readDiscid fields body
  | "VID" => (Row.value ∘ .vid) <$> readScoped fields body "VID" (readKey "VID")
  | "VUK" => (fun v => Row.value (.vuk ⟨v⟩)) <$> readScoped fields body "VUK" (readKey "VUK")
  | "MEK" => (Row.value ∘ .mek) <$> readScoped fields body "MEK" (readKey "MEK")
  | "TK" => (Row.value ∘ .tk) <$> readScoped fields body "TK" (readKey "TK")
  | "KCD" => (Row.value ∘ .kcd) <$> readScoped fields body "KCD" (parseHexVar · "KCD")
  | other => fail (headerErr body ("unrecognised record leader `" ++ other ++ "`"))

/-- The leader of a record, in upper case, and the fields behind it. -/
def recordTokens (body : List Char) : Result (String × List (List Char)) :=
  if (pipeTokenize body).head? ≠ some [] then
    fail (headerErr body "line must start with `|` (no leader `|` found)")
  else
    match (pipeTokenize body).filter (· ≠ []) with
    | [] => fail (headerErr body "empty record")
    | leader :: fields => .ok (String.ofList (toAsciiUppercase leader), fields)

def readRow (body : List Char) (comment : Option (List Char)) : Result Row :=
  if body.head? = some '|' then do
    let (leader, fields) ← recordTokens body
    readRecord fields comment body leader
  else Row.entry <$> parseLegacyLine body

/-- A handler that stores what was read, or ends with an error and changes nothing. -/
def Does (p : Proc Rows AacsError Unit) (read : Result Row) : Prop := ∀ s : Rows,
  match read with
  | .ok row =>
    match row.store s with
    | some s' => p s = (.ok (), s')
    | none => ∃ e, p s = (.err e, s)
  | .err _ => ∃ e, p s = (.err e, s)
  | .panic => p s = (.panic, s)

/-- A handler that reads and then writes. -/
theorem does_modify {α : Type} (o : Result α) {write : α → Rows → Rows} {row : α → Row}
    (h : ∀ a s, (row a).store s = some (write a s)) :
    Does (Proc.lift o >>= fun a => Proc.modify (write a)) (row <$> o) := by
  intro s
  cases o with
  | ok a =>
    rw [map_ok]
    dsimp only
    rw [h a s]
    rfl
  | err e => exact ⟨e, rfl⟩
  | panic => rfl

theorem does_fail {e e' : Result AacsError} (he : Returns e) (he' : Returns e') :
    Does (Proc.lift (fail e)) (fail e') := by
  intro s
  have herr : ∃ d, (fail e : Result Unit) = .err d := by
    cases e with
    | ok d => exact ⟨d, rfl⟩
    | err d => exact ⟨d, rfl⟩
    | panic => exact absurd rfl he
  obtain ⟨d, hd⟩ := herr
  cases e' with
  | ok d' => exact ⟨d, by rw [hd]; rfl⟩
  | err d' => exact ⟨d, by rw [hd]; rfl⟩
  | panic => exact absurd rfl he'

section

variable (fields : List (List Char)) (comment : Option (List Char)) (body : List Char)

theorem requireDiscid_none (leader : String) : ∃ e, requireDiscid none leader body = .err e :=
  (returns_requireDiscid none leader body).exists_err fun a h => by
    obtain ⟨t, ht⟩ := truncateExcerpt_eq_ok body 80
    simp [requireDiscid, headerErr, ht] at h

/-- The handlers of the scoped rows: the disc id is asked for first, and neither order leaves a
trace. -/
theorem does_parseScoped {α : Type} {leader : String} {read : List Char → Outcome String α}
    {put : α → DiscRecords → DiscRecords} {row : α → DiscValue}
    (hread : ∀ value, Returns (read value)) (hput : ∀ a, put a = (row a).put) :
    Does (parseScoped fields body leader read put)
      ((fun a => Row.value (row a)) <$> readScoped fields body leader read) := by
  have hreturns := returns_readScoped fields body leader hread
  rintro ⟨db, _ | did⟩
  · obtain ⟨e, he⟩ := requireDiscid_none body leader
    rw [parseScoped, Proc.get_bind, he, bind_err]
    cases hvalue : readScoped fields body leader read with
    | ok a => exact ⟨e, rfl⟩
    | err e' => exact ⟨e, rfl⟩
    | panic => exact absurd hvalue hreturns
  · have hdid : requireDiscid (some did) leader body = .ok did := rfl
    rw [parseScoped, Proc.get_bind, hdid, bind_ok]
    cases hvalue : readScoped fields body leader read with
    | ok a =>
      rw [map_ok]
      dsimp only
      rw [Row.store_value, ← hput]
      rfl
    | err e => exact ⟨e, rfl⟩
    | panic => exact absurd hvalue hreturns

theorem does_dispatch (leader : String) :
    Does (dispatch fields comment body leader) (readRecord fields comment body leader) := by
  have herr : ∀ msg, Does (Proc.lift (fail (headerErr body msg))) (fail (headerErr body msg)) :=
    fun msg =>
    does_fail (returns_headerErr body msg) (returns_headerErr body msg)
  unfold dispatch
  split
  · exact does_modify (readDk fields comment body) fun _ _ => rfl
  · exact does_modify (readPk fields comment body) fun _ _ => rfl
  · exact does_modify (readHc fields comment body) fun _ _ => rfl
  · exact does_modify (readDc fields comment body) fun _ _ => rfl
  · exact does_modify (readDiscid fields body) fun _ _ => rfl
  · exact does_parseScoped fields body (returns_readKey "VID") fun _ => rfl
  · exact does_parseScoped fields body (returns_readKey "VUK") fun _ => rfl
  · exact does_parseScoped fields body (returns_readKey "MEK") fun _ => rfl
  · exact does_parseScoped fields body (returns_readKey "TK") fun _ => rfl
  · exact does_parseScoped fields body (fun value => returns_parseHexVar value "KCD") fun _ => rfl
  · unfold readRecord
    split
    all_goals first | contradiction | exact herr _

theorem does_parsePipeRecord : Does (parsePipeRecord comment body) (do
    let (leader, fields) ← recordTokens body
    readRecord fields comment body leader) := by
  have herr : ∀ msg, Does (Proc.lift (fail (headerErr body msg)))
      ((fail (headerErr body msg) : Result (String × List (List Char))) >>= fun p =>
        readRecord p.2 comment body p.1) := by
    intro msg
    obtain ⟨t, ht⟩ := truncateExcerpt_eq_ok body 80
    rw [headerErr, ht]
    exact does_fail (returns_ok _) (returns_ok _)
  unfold parsePipeRecord recordTokens
  dsimp only
  split
  · exact herr _
  · cases (pipeTokenize body).filter (· ≠ []) with
    | nil => exact herr _
    | cons leader fields => exact does_dispatch fields comment body _

theorem does_parseRow : Does (parseRow body comment) (readRow body comment) := by
  unfold parseRow readRow
  split
  · exact does_parsePipeRecord comment body
  · exact does_modify _ fun _ _ => rfl

end

theorem Does.atomic {p : Proc Rows AacsError Unit} {read : Result Row} (h : Does p read) :
    p.Atomic := by
  intro s hfail
  have hs := h s
  cases read with
  | ok row =>
    dsimp only at hs
    cases hstore : row.store s with
    | some s' =>
      rw [hstore] at hs
      exact absurd (congrArg Prod.fst hs) (hfail ())
    | none =>
      rw [hstore] at hs
      obtain ⟨e, he⟩ := hs
      exact congrArg Prod.snd he
  | err e' =>
    obtain ⟨e, he⟩ := hs
    exact congrArg Prod.snd he
  | panic => exact congrArg Prod.snd hs

end KeyDb
