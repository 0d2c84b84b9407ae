import Aacs.KeyDbFormat

/-!
# Texts of records

A text of records, one a line, is read without a report, and the database holds
the records: keys and certificates in order, and for each disc the last of its
identifiers and keys, all its title keys and its first label or comment.
-/

open Text Outcome

namespace KeyDb

def Row.deviceKey? : Row → Option DeviceKeyRecord
  | .deviceKey record => some record
  | _ => none

def Row.processingKey? : Row → Option ProcessingKey
  | .processingKey record => some record
  | _ => none

def Row.hostCert? : Row → Option HostCertRecord
  | .hostCert record => some record
  | _ => none

def Row.driveCert? : Row → Option DriveCertRecord
  | .driveCert record => some record
  | _ => none

def Row.discid? : Row → Option (Bytes 20)
  | .discid id _ _ => some id
  | _ => none

/-- The label a row offers for a disc: its own, or else its comment. -/
def Row.labelFor (id : Bytes 20) : Row → Option (List Char)
  | .discid id' label comment => if id' = id then label.or comment else none
  | _ => none

def DiscValue.vid? : DiscValue → Option (Bytes 16)
  | .vid key => some key
  | _ => none

def DiscValue.vuk? : DiscValue → Option Vuk
  | .vuk key => some key
  | _ => none

def DiscValue.mek? : DiscValue → Option (Bytes 16)
  | .mek key => some key
  | _ => none

def DiscValue.tk? : DiscValue → Option (Bytes 16)
  | .tk key => some key
  | _ => none

def DiscValue.kcd? : DiscValue → Option (List UInt8)
  | .kcd bytes => some bytes
  | _ => none

def Row.valueFor (id : Bytes 20) (scope : Option (Bytes 20)) : Row → Option DiscValue
  | .value v => if scope = some id then some v else none
  | _ => none

/-- The values of a disc, from a place that belongs to a disc or to none. -/
def valuesFrom (id : Bytes 20) (scope : Option (Bytes 20)) : List Row → List DiscValue
  | [] => []
  | row :: rows => (row.valueFor id scope).toList ++ valuesFrom id (row.discid?.or scope) rows

/-- The records of a disc. -/
def discOf (rows : List Row) (id : Bytes 20) : DiscRecords :=
  let values := valuesFrom id none rows
  { discId := id
    vid := (values.filterMap DiscValue.vid?).getLast?
    vuk := (values.filterMap DiscValue.vuk?).getLast?
    mek := (values.filterMap DiscValue.mek?).getLast?
    titleKeys := values.filterMap DiscValue.tk?
    kcd := (values.filterMap DiscValue.kcd?).getLast?
    label := (rows.filterMap (Row.labelFor id)).head? }

/-- The database holds these records and no others. -/
structure HoldsRecords (db : KeyDb) (rows : List Row) : Prop where
  byDiscId : db.byDiscId = ∅
  deviceKeys : db.deviceKeys = rows.filterMap Row.deviceKey?
  processingKeys : db.processingKeys = rows.filterMap Row.processingKey?
  hostCerts : db.hostCerts = rows.filterMap Row.hostCert?
  driveCerts : db.driveCerts = rows.filterMap Row.driveCert?
  discRecords : ∀ id, db.discRecords.lookup id =
    if id ∈ rows.filterMap Row.discid? then some (discOf rows id) else none

/-- Every value stands below a disc id. -/
def ValuesScoped (rows : List Row) : Prop :=
  ∀ (i : Nat) (v : DiscValue), rows[i]? = some (.value v) → (rows.take i).filterMap Row.discid? ≠ []

/-- The disc a place belongs to, behind some rows. -/
def scopeAfter (rows : List Row) : Option (Bytes 20) := (rows.filterMap Row.discid?).getLast?

theorem scopeAfter_cons (row : Row) (rows : List Row) :
    scopeAfter (row :: rows) = (scopeAfter rows).or row.discid? := by
  rw [scopeAfter, scopeAfter]
  cases h : row.discid? with
  | none => rw [List.filterMap_cons_none h, Option.or_none]
  | some id => rw [List.filterMap_cons_some h, List.getLast?_cons, Option.or_some]

theorem scopeAfter_concat (row : Row) (rows : List Row) :
    scopeAfter (rows ++ [row]) = row.discid?.or (scopeAfter rows) := by
  rw [scopeAfter, scopeAfter, List.filterMap_append, List.getLast?_append]
  cases h : row.discid? <;> simp [h]

theorem valuesFrom_concat (id : Bytes 20) (scope : Option (Bytes 20)) (rows : List Row)
    (row : Row) :
    valuesFrom id scope (rows ++ [row]) =
      valuesFrom id scope rows ++ (row.valueFor id ((scopeAfter rows).or scope)).toList := by
  induction rows generalizing scope with
  | nil => simp [valuesFrom, scopeAfter]
  | cons r rows ih =>
    rw [List.cons_append, valuesFrom, valuesFrom, ih, scopeAfter_cons, Option.or_assoc,
      List.append_assoc]

/-- A row changes what a disc holds as its value, or its label, does. -/
theorem discOf_concat (rows : List Row) (row : Row) (id : Bytes 20) : discOf (rows ++ [row]) id =
    match row with
    | .discid id' label comment =>
      if id' = id then { discOf rows id with label := ((discOf rows id).label.or label).or comment }
      else discOf rows id
    | .value v => if scopeAfter rows = some id then v.put (discOf rows id) else discOf rows id
    | _ => discOf rows id := by
  rw [discOf, valuesFrom_concat, Option.or_none]
  simp only [List.filterMap_append]
  cases row with
  | discid id' label comment =>
    by_cases hid : id' = id
    · have hlabel : [Row.discid id' label comment].filterMap (Row.labelFor id) =
          (label.or comment).toList := by
        cases hor : label.or comment <;> simp [Row.labelFor, hid, hor]
      rw [hlabel, List.head?_append, Option.head?_toList, ← Option.or_assoc]
      simp [hid, Row.valueFor, discOf]
    · simp [hid, Row.valueFor, Row.labelFor, discOf]
  | value v =>
    by_cases hscope : scopeAfter rows = some id
    · cases v <;> simp [hscope, Row.valueFor, Row.labelFor, discOf, DiscValue.put, DiscValue.vid?,
        DiscValue.vuk?, DiscValue.mek?, DiscValue.tk?, DiscValue.kcd?]
    · simp [hscope, Row.valueFor, Row.labelFor, discOf]
  | _ => simp [Row.valueFor, Row.labelFor, discOf]

theorem filterMap_concat {α : Type} (f : Row → Option α) (rows : List Row) (row : Row) :
    (rows ++ [row]).filterMap f = rows.filterMap f ++ (f row).toList := by
  rw [List.filterMap_append]
  cases h : f row <;> simp [h]

theorem lookup_updateDisc (db : KeyDb) (did id : Bytes 20) (f : DiscRecords → DiscRecords) :
    (updateDisc db did f).discRecords.lookup id =
      if id = did then some (f ((db.discRecords.lookup did).getD { discId := did }))
        else db.discRecords.lookup id := by
  rw [updateDisc]
  by_cases hid : id = did
  · rw [if_pos hid, hid, Finmap.lookup_insert]
  · rw [if_neg hid, Finmap.lookup_insert_of_ne _ hid]

/-- The keys and the certificates are the only records outside the discs. -/
theorem lists_of_store {s s' : Rows} {row : Row} (hrecord : row.leader ≠ none)
    (hstore : row.store s = some s') :
    s'.db.byDiscId = s.db.byDiscId ∧
    s'.db.deviceKeys = s.db.deviceKeys ++ row.deviceKey?.toList ∧
    s'.db.processingKeys = s.db.processingKeys ++ row.processingKey?.toList ∧
    s'.db.hostCerts = s.db.hostCerts ++ row.hostCert?.toList ∧
    s'.db.driveCerts = s.db.driveCerts ++ row.driveCert?.toList := by
  cases row with
  | entry e => exact absurd rfl hrecord
  | value v =>
    obtain ⟨did, -, rfl⟩ := Option.map_eq_some_iff.mp hstore
    simp [updateDisc, Row.deviceKey?, Row.processingKey?, Row.hostCert?, Row.driveCert?]
  | discid id label comment =>
    cases hstore
    simp [updateDisc, Row.deviceKey?, Row.processingKey?, Row.hostCert?, Row.driveCert?]
  | _ =>
    cases hstore
    simp [Row.deviceKey?, Row.processingKey?, Row.hostCert?, Row.driveCert?]

/-- What a disc holds, when there is nothing yet too. -/
def discHeld (db : KeyDb) (id : Bytes 20) : DiscRecords :=
  (db.discRecords.lookup id).getD { discId := id }

theorem discHeld_updateDisc (db : KeyDb) (did id : Bytes 20) (f : DiscRecords → DiscRecords) :
    discHeld (updateDisc db did f) id = if did = id then f
      (discHeld db id) else discHeld db id := by
  rw [discHeld, discHeld, lookup_updateDisc]
  by_cases hid : did = id
  · rw [if_pos hid, if_pos hid.symm, hid, Option.getD_some]
  · rw [if_neg hid, if_neg (Ne.symm hid)]

/-- What the rows so far left behind. -/
structure Held (s : Rows) (rows : List Row) : Prop where
  byDiscId : s.db.byDiscId = ∅
  deviceKeys : s.db.deviceKeys = rows.filterMap Row.deviceKey?
  processingKeys : s.db.processingKeys = rows.filterMap Row.processingKey?
  hostCerts : s.db.hostCerts = rows.filterMap Row.hostCert?
  driveCerts : s.db.driveCerts = rows.filterMap Row.driveCert?
  discs : ∀ id, discHeld s.db id = discOf rows id
  discids : ∀ id, (s.db.discRecords.lookup id).isSome ↔ id ∈ rows.filterMap Row.discid?
  scope : s.currentDiscid = scopeAfter rows

theorem Held.nil : Held {} [] := ⟨rfl, rfl, rfl, rfl, rfl, fun _ => rfl, by simp, rfl⟩

theorem Held.disc {s s' : Rows} {rows : List Row} {row : Row} (h : Held s rows)
    (hstore : row.store s = some s')
    (id : Bytes 20) : discHeld s'.db id = discOf (rows ++ [row]) id := by
  rw [discOf_concat, ← h.discs id]
  cases row with
  | value v =>
    obtain ⟨did, hdid, rfl⟩ := Option.map_eq_some_iff.mp hstore
    rw [h.scope] at hdid
    dsimp only
    rw [discHeld_updateDisc, hdid]
    by_cases hid : did = id <;> simp [hid]
  | discid id' label comment =>
    cases hstore
    dsimp only
    rw [discHeld_updateDisc]
  | _ =>
    cases hstore
    rfl

/-- A value is stored on the disc in force, which has its record already. -/
theorem Held.discid {s s' : Rows} {rows : List Row} {row : Row} (h : Held s rows)
    (hstore : row.store s = some s') (id : Bytes 20) :
    (s'.db.discRecords.lookup id).isSome ↔ id ∈ (rows ++ [row]).filterMap Row.discid? := by
  rw [filterMap_concat, List.mem_append, ← h.discids id]
  cases row with
  | value v =>
    obtain ⟨did, hdid, rfl⟩ := Option.map_eq_some_iff.mp hstore
    have hsome : (s.db.discRecords.lookup did).isSome :=
      (h.discids did).mpr (List.mem_of_getLast? (h.scope.symm.trans hdid))
    dsimp only
    rw [lookup_updateDisc]
    split
    · next hid =>
      rw [hid]
      simpa [Row.discid?] using hsome
    · simp [Row.discid?]
  | discid id' label comment =>
    cases hstore
    dsimp only
    rw [lookup_updateDisc]
    by_cases hid : id = id' <;> simp [hid, Row.discid?]
  | _ =>
    cases hstore
    simp [Row.discid?]

/-- One row is stored. -/
theorem Held.store {s s' : Rows} {rows : List Row} {row : Row} (h : Held s rows)
    (hrecord : row.leader ≠ none) (hstore : row.store s = some s') : Held s' (rows ++ [row]) := by
  obtain ⟨hentry, hdk, hpk, hhc, hdc⟩ := lists_of_store hrecord hstore
  refine ⟨hentry.trans h.byDiscId, ?_, ?_, ?_, ?_, h.disc hstore, h.discid hstore, ?_⟩
  · rw [hdk, h.deviceKeys, filterMap_concat]
  · rw [hpk, h.processingKeys, filterMap_concat]
  · rw [hhc, h.hostCerts, filterMap_concat]
  · rw [hdc, h.driveCerts, filterMap_concat]
  · rw [scopeAfter_concat, ← h.scope]
    cases row with
    | value v =>
      obtain ⟨did, -, rfl⟩ := Option.map_eq_some_iff.mp hstore
      rfl
    | _ =>
      cases hstore
      rfl

theorem Held.records {s : Rows} {rows : List Row} (h : Held s rows) : HoldsRecords s.db rows := by
  refine ⟨h.byDiscId, h.deviceKeys, h.processingKeys, h.hostCerts, h.driveCerts, fun id => ?_⟩
  rw [← h.discs id, discHeld]
  split
  · next hid =>
    obtain ⟨rec, hrec⟩ := Option.isSome_iff_exists.mp ((h.discids id).mpr hid)
    rw [hrec, Option.getD_some]
  · next hid =>
    rw [← h.discids id, Bool.not_eq_true, Option.isSome_eq_false_iff,
      Option.isNone_iff_eq_none] at hid
    exact hid

theorem ValuesScoped.init {rows : List Row} {row : Row} (h : ValuesScoped (rows ++ [row])) :
    ValuesScoped rows := by
  intro i v hv
  have hi : i < rows.length := (List.getElem?_eq_some_iff.mp hv).1
  have hscope := h i v (by rw [List.getElem?_append_left hi, hv])
  rwa [List.take_append_of_le_length hi.le] at hscope

/-- Rows with their values below disc ids are all stored. -/
theorem held_of_scoped {rows : List Row} (hrecords : ∀ row ∈ rows, row.leader ≠ none)
    (hscoped : ValuesScoped rows) :
    ∃ s, rows.foldlM Row.store {} = some s ∧ Held s rows := by
  induction rows using List.reverseRecOn with
  | nil => exact ⟨{}, rfl, Held.nil⟩
  | append_singleton rows row ih =>
    obtain ⟨s, hs, hheld⟩ := ih (fun r hr => hrecords r (List.mem_append_left _ hr)) hscoped.init
    have hstore : ∃ s', row.store s = some s' := by
      cases row with
      | value v =>
        have hscope := hscoped rows.length v List.getElem?_concat_length
        rw [List.take_left, ← List.getLast?_isSome, ← scopeAfter, ← hheld.scope] at hscope
        obtain ⟨did, hdid⟩ := Option.isSome_iff_exists.mp hscope
        exact ⟨_, by rw [Row.store_value, hdid]; rfl⟩
      | _ => exact ⟨_, rfl⟩
    obtain ⟨s', hs'⟩ := hstore
    refine ⟨s', ?_, hheld.store (hrecords row (by simp)) hs'⟩
    rw [List.foldlM_append, hs]
    simp [hs']

/-- The lines of a text, with or without a line end behind the last. -/
def JoinsLines (raws : List (List Char)) (text : List Char) : Prop :=
  text = (raws.map (· ++ ['\n'])).flatten ∨ text = ['\n'].intercalate raws

/-- The lines are found again, up to a carriage return behind them. -/
theorem rowOf_lines {raws : List (List Char)} {text : List Char} (h : JoinsLines raws text)
    (hraws : ∀ raw ∈ raws, raw ≠ [] ∧ '\n' ∉ raw) : (lines text).map rowOf = raws.map rowOf := by
  have hstrip : rowOf ∘ stripCarriageReturn = rowOf := funext rowOf_stripCarriageReturn
  rcases h with rfl | rfl
  · have hsegs : Segmented (raws.map (· ++ ['\n'])) := by
      induction raws with
      | nil => exact .nil
      | cons raw raws ih =>
        obtain ⟨hraw, hraws⟩ := List.forall_mem_cons.mp hraws
        exact .cons hraw.2 (ih hraws)
    have hline : stripLineEnd ∘ (· ++ ['\n']) = stripCarriageReturn :=
      funext stripLineEnd_terminated
    rw [lines_flatten hsegs, List.map_map, List.map_map, Function.comp_assoc, hline, hstrip]
  · by_cases hnil : raws = []
    · rw [hnil]
      rfl
    · have hsplit : split '\n' (['\n'].intercalate raws) = raws :=
        List.splitOn_intercalate '\n' (fun raw hraw => (hraws raw hraw).2) hnil
      obtain ⟨init, last, rfl⟩ := (List.eq_nil_or_concat' raws).resolve_left hnil
      have hlast : last ≠ [] := (hraws last (by simp)).1
      rw [lines, hsplit]
      simp [hstrip, hlast]

/-- The loop stores the rows of some lines and reports none. -/
theorem loop_of_rows {raws : List (List Char)} {rows : List Row}
    (h : raws.map rowOf = rows.map some) {s s' : Rows}
    (hstore : rows.foldlM Row.store s = some s') (report : ParseReport) (k : Nat) :
    (raws.zipIdx k).foldlM parseLine (s, report) = .ok (s', report) := by
  induction raws generalizing rows s k with
  | nil =>
    rw [List.map_nil, eq_comm, List.map_eq_nil_iff] at h
    rw [h] at hstore
    cases hstore
    rfl
  | cons raw raws ih =>
    cases rows with
    | nil => cases h
    | cons row rows =>
      rw [List.map_cons, List.map_cons] at h
      obtain ⟨hrow, hrest⟩ := List.cons.inj h
      rw [List.foldlM_cons] at hstore
      obtain ⟨t, ht, hstore⟩ := Option.bind_eq_some_iff.mp hstore
      have hline : storeLine s raw = some t := by rw [storeLine, hrow, Option.bind_some, ht]
      rw [List.zipIdx_cons, List.foldlM_cons, parseLine_of_store hline, bind_ok]
      exact ih hrest hstore (k + 1)

theorem renders_line {row : Row} {raw : List Char} (h : Renders row raw) :
    raw ≠ [] ∧ '\n' ∉ raw := by
  obtain ⟨leader, word, toks, comment, body, rest, hleader, hword, hfields, hbarred,
    hcomment, rfl⟩ := h
  have hwordToken := hword.isToken (isName_leader hleader)
  obtain ⟨-, hnewline, hbar, -⟩ :=
    hbarred.cells (List.forall_mem_cons.mpr ⟨hwordToken, hfields.isToken⟩) nofun
  refine ⟨fun hnil => ?_, fun hc => ?_⟩
  · rw [(List.append_eq_nil_iff.mp hnil).1] at hbar
    cases hbar
  · rcases List.mem_append.mp hc with hc | hc
    · exact hnewline hc
    · rcases hcomment with ⟨rfl, -⟩ | ⟨text, htext, rfl, -⟩
      · cases hc
      · simp [htext] at hc

theorem rowOf_of_rendered {rows : List Row} {raws : List (List Char)}
    (h : List.Forall₂ Renders rows raws)
    (hne : ∀ row ∈ rows, row.NotEmpty) : raws.map rowOf = rows.map some := by
  induction h with
  | nil => rfl
  | cons hline _ ih =>
    obtain ⟨hrow, hne⟩ := List.forall_mem_cons.mp hne
    rw [List.map_cons, List.map_cons, rowOf_of_renders hline hrow, ih hne]

theorem forall_of_rendered {rows : List Row} {raws : List (List Char)}
    (h : List.Forall₂ Renders rows raws) :
    (∀ row ∈ rows, row.leader ≠ none) ∧ ∀ raw ∈ raws, raw ≠ [] ∧ '\n' ∉ raw := by
  induction h with
  | nil => simp
  | cons hline _ ih =>
    have hleader := hline
    obtain ⟨leader, word, toks, comment, body, rest, hleader, -⟩ := hleader
    exact ⟨List.forall_mem_cons.mpr ⟨by simp [hleader], ih.1⟩,
      List.forall_mem_cons.mpr ⟨renders_line hline, ih.2⟩⟩

/-- A text that renders some records is read without a report, and they are what it holds. -/
theorem parseWithReport_rendered {rows : List Row} {raws : List (List Char)} {text : List Char}
    (hrender : List.Forall₂ Renders rows raws) (hscoped : ValuesScoped rows)
    (htext : JoinsLines raws text) (hne : ∀ row ∈ rows, row.NotEmpty) :
    ∃ db, parseWithReport text = .ok (db, {}) ∧ HoldsRecords db rows := by
  obtain ⟨hrecords, hraws⟩ := forall_of_rendered hrender
  obtain ⟨s, hstore, hheld⟩ := held_of_scoped hrecords hscoped
  have hlines : (lines text).map rowOf = rows.map some := by
    rw [rowOf_lines htext hraws, rowOf_of_rendered hrender hne]
  refine ⟨s.db, ?_, hheld.records⟩
  rw [parseWithReport, loop_of_rows hlines hstore {} 0]
  rfl

/-- The digits of some bytes, in small letters. -/
def hexText (bs : List UInt8) : List Char :=
  bs.flatMap fun b => [Nat.digitChar (b.toNat / 16), Nat.digitChar (b.toNat % 16)]

theorem spells_hexText (bs : List UInt8) : Spells bs (hexText bs) := by
  induction bs with
  | nil => exact .nil
  | cons b bs ih =>
    have hdigit : ∀ n < 16, toDigit 16 (Nat.digitChar n) = some n := by decide
    have hb := b.toNat_lt
    exact .cons (hdigit _ (by omega)) (hdigit _ (Nat.mod_lt _ (by decide))) ih

theorem literal_hexText (bs : List UInt8) : Literal bs ('0' :: 'x' :: hexText bs) :=
  ⟨'x', hexText bs, .inl rfl, rfl, spells_hexText bs⟩

/-- Tokens between bars, without blanks and without a closing bar. -/
def barRow (toks : List (List Char)) : List Char := ['|'].intercalate ([] :: toks)

theorem barred_barRow (toks : List (List Char)) : Barred toks (barRow toks) := by
  have hblank : Blank [] := fun c hc => by cases hc
  refine ⟨[], toks, [], hblank, ?_, .inl rfl, by rw [barRow, List.append_nil]⟩
  exact List.forall₂_same.mpr fun tok _ => ⟨[], [], hblank, hblank, by simp⟩

/-- A disc with a label and a comment, and its volume id. -/
def movieRows : List Row :=
  [.discid (Bytes.zero 20) (some "Movie".toList) (some "note".toList),
    .value (.vid (Bytes.zero 16))]

def movieLines : List (List Char) :=
  [barRow ["DISCID".toList, '0' :: 'x' :: hexText (Bytes.zero 20).toList, "Movie".toList] ++ ';' ::
    "note".toList, barRow ["VID".toList, '0' :: 'x' :: hexText (Bytes.zero 16).toList]]

theorem parseWithReport_rendered_movie :
    ∃ db, parseWithReport (movieLines.map (· ++ ['\n'])).flatten = .ok
      (db, {}) ∧ HoldsRecords db movieRows := by
  have hlabel : ∀ l ∈ some "Movie".toList, l ≠ [] ∧ ∀ c ∈ l, Plain c := by
    simp [Plain, isWhitespace]
  have hdiscid : Renders _ _ := ⟨"DISCID", "DISCID".toList, _, some "note".toList, _, _, rfl, rfl,
    .discid (literal_hexText (Bytes.zero 20).toList) hlabel, barred_barRow _,
    .inr ⟨"note".toList, by simp, rfl, rfl⟩, rfl⟩
  have hvid : Renders _ _ := ⟨"VID", "VID".toList, _, none, _, _, rfl, rfl,
    .value (v := .vid (Bytes.zero 16)) (.inl (literal_hexText (Bytes.zero 16).toList)),
    barred_barRow _, .inl ⟨rfl, rfl⟩, (List.append_nil _).symm⟩
  have hscoped : ValuesScoped movieRows := by
    intro i v hv
    rcases i with _ | _ | i
    · cases hv
    · exact List.cons_ne_nil _ _
    · cases hv
  exact parseWithReport_rendered (.cons hdiscid (.cons hvid .nil)) hscoped (.inl rfl)
    (by simp [movieRows, Row.NotEmpty])

/-- A drive certificate without a byte. -/
def emptyCertRow : DriveCertRecord :=
  { drivePrivKey := Bytes.zero 20, driveCert := [], comment := none }

def emptyCertLine : List Char :=
  barRow ["DC".toList, "DRIVE_PRIV_KEY ".toList ++ '0' :: 'x' :: hexText (Bytes.zero 20).toList,
    "DRIVE_CERT 0x".toList]

/-- A literal without digits is refused, so not every text of records is read without a report. -/
theorem emptyCert_reported : ¬∀ rows raws text, List.Forall₂ Renders rows raws → ValuesScoped rows →
    JoinsLines raws text → ∃ db, parseWithReport text = .ok (db, {}) ∧ HoldsRecords db rows := by
  intro hread
  have hgap : Blank [' '] := by simp [Blank, isWhitespace]
  have hfields : NamedFields (driveCertFields emptyCertRow) _ := ⟨_, List.Perm.refl _,
    .cons ⟨"DRIVE_PRIV_KEY".toList, [' '], _, rfl, by simp, hgap, literal_hexText _, rfl⟩
      (.cons ⟨"DRIVE_CERT".toList, [' '], _, rfl, by simp, hgap, literal_hexText [], rfl⟩ .nil)⟩
  have hline : Renders _ _ :=
    ⟨"DC", "DC".toList, _, none, _, _, rfl, rfl, .driveCert hfields, barred_barRow _,
    .inl ⟨rfl, rfl⟩, rfl⟩
  have hscoped : ValuesScoped [Row.driveCert emptyCertRow] := by
    intro i v hv
    rcases i with _ | i
    · cases hv
    · cases hv
  obtain ⟨db, hdb, -⟩ := hread _ _ emptyCertLine (.cons hline .nil) hscoped (.inr (by rfl))
  have hnumbers : (fun p : KeyDb × ParseReport => p.2.skipped.map (·.lineNumber))
    <$> parseWithReport emptyCertLine =
      .ok [1] := by rfl
  rw [hdb, map_ok, ok.injEq] at hnumbers
  cases hnumbers

end KeyDb
