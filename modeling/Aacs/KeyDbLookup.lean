import Aacs.KeyDbRoundTrip
import Aacs.KeyDbSkips

/-!
# What a database answers

Whatever a text holds, the database read from it is what its readable rows say together:
for a disc the last row of the first form, the last of its identifiers and keys below its
`DISCID` rows, and for two texts one behind the other the answers of both.
-/

open Text Outcome

namespace KeyDb

def entryForDisc (db : KeyDb) (discId : Bytes 20) : Option KeyDbEntry := db.byDiscId.lookup discId

def discRecord (db : KeyDb) (discId : Bytes 20) : Option DiscRecords := db.discRecords.lookup discId

/-- The rows of the first form come before the records below a disc id. -/
def vukForDisc (db : KeyDb) (discId : Bytes 20) : Option Vuk :=
  match db.byDiscId.lookup discId with
  | some e => some e.vuk
  | none => (db.discRecords.lookup discId).bind DiscRecords.vuk

/-- The entry a row gives for a disc. -/
def Row.entryFor (id : Bytes 20) : Row → Option KeyDbEntry
  | .entry e => if e.discId = id then some e else none
  | _ => none

/-- The rows of some lines that can be read. -/
def readRows (raws : List (List Char)) : List Row := raws.filterMap rowOf

theorem readRows_concat (raws : List (List Char)) (raw : List Char) :
    readRows (raws ++ [raw]) = readRows raws ++ (rowOf raw).toList := by
  rw [readRows, readRows, List.filterMap_append]
  cases h : rowOf raw <;> simp [h]

/-- Without the rows of the first form. -/
def recordsOnly (s : Rows) : Rows := { s with db := { s.db with byDiscId := ∅ } }

theorem store_recordsOnly {s s' : Rows} {row : Row} (hrecord : row.leader ≠ none)
    (h : row.store s = some s') :
    row.store (recordsOnly s) = some (recordsOnly s') := by
  cases row with
  | entry e => exact absurd rfl hrecord
  | value v =>
    obtain ⟨did, hdid, rfl⟩ := Option.map_eq_some_iff.mp h
    have hscope : (recordsOnly s).currentDiscid = s.currentDiscid := rfl
    rw [Row.store_value, hscope, hdid]
    rfl
  | _ =>
    cases h
    rfl

/-- A row of the first form, and a value above every disc id, add nothing to the records. -/
theorem Held.skip {s : Rows} {rows : List Row} {row : Row} (h : Held s rows)
    (hrow : (∃ e, row = .entry e) ∨ (∃ v, row = .value v) ∧ s.currentDiscid = none) :
    Held s (rows ++ [row]) := by
  have hlists : row.deviceKey? = none ∧ row.processingKey? = none ∧ row.hostCert? = none ∧
    row.driveCert? = none ∧
      row.discid? = none := by
    obtain ⟨e, rfl⟩ | ⟨⟨v, rfl⟩, -⟩ := hrow
    · exact ⟨rfl, rfl, rfl, rfl, rfl⟩
    · exact ⟨rfl, rfl, rfl, rfl, rfl⟩
  have hdisc (id : Bytes 20) : discOf (rows ++ [row]) id = discOf rows id := by
    rw [discOf_concat, ← h.scope]
    obtain ⟨e, rfl⟩ | ⟨⟨v, rfl⟩, hnone⟩ := hrow
    · rfl
    · rw [hnone]
      rfl
  obtain ⟨hdk, hpk, hhc, hdc, hid⟩ := hlists
  refine ⟨h.byDiscId, ?_, ?_, ?_, ?_, fun id => ?_, fun id => ?_, ?_⟩
  · rw [filterMap_concat, hdk, Option.toList_none, List.append_nil, h.deviceKeys]
  · rw [filterMap_concat, hpk, Option.toList_none, List.append_nil, h.processingKeys]
  · rw [filterMap_concat, hhc, Option.toList_none, List.append_nil, h.hostCerts]
  · rw [filterMap_concat, hdc, Option.toList_none, List.append_nil, h.driveCerts]
  · rw [hdisc, h.discs id]
  · rw [filterMap_concat, hid, Option.toList_none, List.append_nil, h.discids id]
  · rw [scopeAfter_concat, hid, Option.none_or, h.scope]

/-- The records a run holds are those of its readable rows: only a value above every disc id is
not stored. -/
theorem held_run (raws : List (List Char)) : Held (recordsOnly (run raws)) (readRows raws) := by
  induction raws using List.reverseRecOn with
  | nil => exact Held.nil
  | append_singleton raws raw ih =>
    rw [readRows_concat, run_concat, runLine, storeLine]
    cases hrow : rowOf raw with
    | none =>
      rw [Option.bind_none, Option.getD_none, Option.toList_none, List.append_nil]
      exact ih
    | some row =>
      rw [Option.bind_some, Option.toList_some]
      cases hstore : row.store (run raws) with
      | none =>
        have hskip : (∃ v, row = .value v) ∧ (run raws).currentDiscid = none := by
          cases row with
          | value v => exact ⟨⟨v, rfl⟩, Option.map_eq_none_iff.mp hstore⟩
          | _ => cases hstore
        exact ih.skip (.inr hskip)
      | some s' =>
        rw [Option.getD_some]
        by_cases hrecord : row.leader = none
        · cases row with
          | entry e =>
            cases hstore
            exact ih.skip (.inl ⟨e, rfl⟩)
          | _ => cases hrecord
        · exact ih.store hrecord (store_recordsOnly hrecord hstore)

theorem entryForDisc_store {s s' : Rows} {row : Row} (h : row.store s = some s') (id : Bytes 20) :
    s'.db.entryForDisc id = (row.entryFor id).or (s.db.entryForDisc id) := by
  cases row with
  | entry e =>
    cases h
    rw [entryForDisc, entryForDisc, Row.entryFor]
    by_cases hid : e.discId = id
    · rw [if_pos hid, hid, Finmap.lookup_insert, Option.some_or]
    · rw [if_neg hid, Finmap.lookup_insert_of_ne _ (Ne.symm hid), Option.none_or]
  | value v =>
    obtain ⟨did, -, rfl⟩ := Option.map_eq_some_iff.mp h
    rfl
  | _ =>
    cases h
    rfl

/-- The entry of a disc is that of its last row of the first form. -/
theorem entryForDisc_run (raws : List (List Char)) (id : Bytes 20) :
    (run raws).db.entryForDisc id = ((readRows raws).filterMap (Row.entryFor id)).getLast? := by
  induction raws using List.reverseRecOn with
  | nil => rfl
  | append_singleton raws raw ih =>
    rw [readRows_concat, run_concat, runLine, storeLine, List.filterMap_append,
      List.getLast?_append, ← ih]
    cases hrow : rowOf raw with
    | none => rfl
    | some row =>
      have hlast : ([row].filterMap (Row.entryFor id)).getLast? = row.entryFor id := by
        cases h : row.entryFor id <;> simp [h]
      rw [Option.bind_some, Option.toList_some, hlast]
      cases hstore : row.store (run raws) with
      | some s' => rw [Option.getD_some, entryForDisc_store hstore]
      | none =>
        cases row with
        | value v => rfl
        | _ => cases hstore

/-- The database is what the rows say: nothing lost, nothing added. -/
structure Reflects (db : KeyDb) (rows : List Row) : Prop where
  deviceKeys : db.deviceKeys = rows.filterMap Row.deviceKey?
  processingKeys : db.processingKeys = rows.filterMap Row.processingKey?
  hostCerts : db.hostCerts = rows.filterMap Row.hostCert?
  driveCerts : db.driveCerts = rows.filterMap Row.driveCert?
  entries : ∀ id, db.entryForDisc id = (rows.filterMap (Row.entryFor id)).getLast?
  discs : ∀ id ∈ rows.filterMap Row.discid?, db.discRecord id = some (discOf rows id)
  others : ∀ id ∉ rows.filterMap Row.discid?, db.discRecord id = none

theorem reflects_run (raws : List (List Char)) : Reflects (run raws).db (readRows raws) := by
  have hheld := held_run raws
  refine ⟨hheld.deviceKeys, hheld.processingKeys, hheld.hostCerts, hheld.driveCerts,
    entryForDisc_run raws, fun id hid => ?_, fun id hid => ?_⟩
  · obtain ⟨rec, hrec⟩ := Option.isSome_iff_exists.mp ((hheld.discids id).mpr hid)
    have hdisc := hheld.discs id
    rw [discHeld, hrec, Option.getD_some] at hdisc
    rw [← hdisc]
    exact hrec
  · rw [← hheld.discids id, Bool.not_eq_true, Option.isSome_eq_false_iff,
      Option.isNone_iff_eq_none] at hid
    exact hid

/-- The volume unique key that some rows give for a disc. -/
def vukOf (rows : List Row) (id : Bytes 20) : Option Vuk :=
  ((rows.filterMap (Row.entryFor id)).getLast?.map KeyDbEntry.vuk).or
    ((valuesFrom id none rows).filterMap DiscValue.vuk?).getLast?

theorem valuesFrom_of_not_mem {id : Bytes 20} {scope : Option (Bytes 20)} {rows : List Row}
    (hscope : scope ≠ some id)
    (h : id ∉ rows.filterMap Row.discid?) : valuesFrom id scope rows = [] := by
  induction rows generalizing scope with
  | nil => rfl
  | cons row rows ih =>
    have hrow : row.discid? ≠ some id :=
      fun hid => h (List.mem_filterMap.mpr ⟨row, List.mem_cons_self, hid⟩)
    have hrows : id ∉ rows.filterMap Row.discid? := by
      intro hid
      obtain ⟨r, hr, hrid⟩ := List.mem_filterMap.mp hid
      exact h (List.mem_filterMap.mpr ⟨r, List.mem_cons_of_mem _ hr, hrid⟩)
    have hvalue : row.valueFor id scope = none := by
      cases row with
      | value v => exact if_neg hscope
      | _ => rfl
    have hnext : row.discid?.or scope ≠ some id := by
      cases hid : row.discid? with
      | none => rwa [Option.none_or]
      | some did =>
        rw [Option.some_or, ← hid]
        exact hrow
    rw [valuesFrom, hvalue, ih hnext hrows]
    rfl

/-- The key below a disc id is the last one that stands there. -/
theorem Reflects.vuk_discRecord {db : KeyDb} {rows : List Row} (h : Reflects db rows)
    (id : Bytes 20) :
    (db.discRecord id).bind DiscRecords.vuk =
    ((valuesFrom id none rows).filterMap DiscValue.vuk?).getLast? := by
  by_cases hid : id ∈ rows.filterMap Row.discid?
  · rw [h.discs id hid]
    rfl
  · rw [h.others id hid, valuesFrom_of_not_mem (Option.some_ne_none id).symm hid]
    rfl

theorem Reflects.vukForDisc {db : KeyDb} {rows : List Row} (h : Reflects db rows) (id : Bytes 20) :
    db.vukForDisc id = vukOf rows id := by
  have hentry : db.byDiscId.lookup id = _ := h.entries id
  rw [KeyDb.vukForDisc, vukOf, hentry, ← h.vuk_discRecord]
  cases (rows.filterMap (Row.entryFor id)).getLast? with
  | some e => rfl
  | none => rfl

theorem reflects_of_parse {text : List Char} {db : KeyDb} {report : ParseReport}
    (h : parseWithReport text = .ok (db, report)) : Reflects db (readRows (lines text)) := by
  obtain ⟨rfl, -⟩ := parseWithReport_runs h
  exact reflects_run (lines text)

/-- Every text that is read: the database is what its readable rows say, and answers so. -/
theorem parseWithReport_reflects {text : List Char} {db : KeyDb} {report : ParseReport}
    (h : parseWithReport text = .ok (db, report)) :
    Reflects db (readRows (lines text)) ∧ ∀ id, db.vukForDisc id = vukOf
      (readRows (lines text)) id := by
  have hreflects := reflects_of_parse h
  exact ⟨hreflects, hreflects.vukForDisc⟩

/-- A disc with a key of either form. -/
def twiceText : List Char :=
  "| DISCID | 0x0000000000000000000000000000000000000001\n".toList ++
    "| VUK | 0x00000000000000000000000000000002\n".toList ++
    "0x0000000000000000000000000000000000000001 = Movie".toList ++
    " | V | 0x00000000000000000000000000000003\n".toList ++
    "| VUK | 0x00000000000000000000000000000004\n".toList

set_option maxRecDepth 2000 in
theorem ascii_twiceText : Ascii twiceText := by
  have hall : twiceText.all (fun c => c.utf8Size = 1) = true := by rfl
  exact fun c hc => of_decide_eq_true (List.all_eq_true.mp hall c hc)

set_option maxRecDepth 2000 in
theorem parseWithReport_reflects_twice : ∃ db report, parseWithReport twiceText = .ok (db, report) ∧
    db.vukForDisc (Bytes.ofNat 20 1) = some ⟨Bytes.ofNat 16 3⟩ := by
  obtain ⟨db, report, h⟩ := parseWithReport_of_ascii ascii_twiceText
  refine ⟨db, report, h, ((parseWithReport_reflects h).2 _).trans ?_⟩
  rfl

/-- One text behind the other has the rows of both. -/
theorem readRows_append (text text' : List Char) :
    readRows (lines (text ++ '\n' :: text')) = readRows (lines text) ++ readRows (lines text') := by
  have hrows (raws : List (List Char)) : readRows raws = (raws.map rowOf).filterMap id := by
    rw [readRows, List.filterMap_map]
    rfl
  have hblank : rowOf [] = none := rfl
  obtain ⟨front, hlines, hfront⟩ := exists_lines_append rowOf_stripCarriageReturn text text'
  rw [hlines, readRows, List.filterMap_append, ← readRows, ← readRows, hrows front,
    hrows (lines text)]
  rcases hfront with hfront | hfront
  · rw [hfront]
  · rw [hfront, List.filterMap_append, hblank]
    simp

/-- Two texts that are read are read one behind the other. -/
theorem exists_parseWithReport_append {text text' : List Char} {out out' : KeyDb × ParseReport}
    (h : parseWithReport text = .ok out) (h' : parseWithReport text' = .ok out') :
    ∃ merged, parseWithReport (text ++ '\n' :: text') = .ok merged := by
  have hread {raws : List (List Char)} : (∃ s, raws.zipIdx.foldlM parseLine ({}, {}) = .ok s) ↔
      ∀ fields ∈ raws.map lineFields, ∀ field ∈ fields, PairsCut field = true := by
    rw [parseLines_eq_ok, List.forall_mem_map]
  have htext := hread.mp ((exists_parseWithReport_iff text).mp ⟨out, h⟩)
  have htext' := hread.mp ((exists_parseWithReport_iff text').mp ⟨out', h'⟩)
  have hblank : ∀ field ∈ lineFields [], PairsCut field = true := List.forall_mem_nil _
  obtain ⟨front, hlines, hfront⟩ := exists_lines_append lineFields_stripCarriageReturn text text'
  rw [exists_parseWithReport_iff, hlines, hread, List.map_append]
  rcases hfront with hfront | hfront
  · rw [hfront]
    exact List.forall_mem_append.mpr ⟨htext, htext'⟩
  · rw [hfront]
    refine List.forall_mem_append.mpr ⟨List.forall_mem_append.mpr ⟨htext, ?_⟩, htext'⟩
    exact List.forall_mem_singleton.mpr hblank

theorem ValuesScoped.tail {row : Row} {rows : List Row} (h : ValuesScoped (row :: rows))
    (hid : row.discid? = none) :
    ValuesScoped rows := by
  intro i v hv
  have hscope := h (i + 1) v hv
  rwa [List.take_succ_cons, List.filterMap_cons_none hid] at hscope

/-- With every value below a disc id, the disc before the first does not matter. -/
theorem valuesFrom_scoped {rows : List Row} (h : ValuesScoped rows) (id : Bytes 20)
    (scope : Option (Bytes 20)) :
    valuesFrom id scope rows = valuesFrom id none rows := by
  induction rows with
  | nil => rfl
  | cons row rows ih =>
    have hvalue (scope : Option (Bytes 20)) : row.valueFor id scope = none := by
      cases row with
      | value v => exact absurd rfl (h 0 v rfl)
      | _ => rfl
    rw [valuesFrom, valuesFrom, hvalue, hvalue]
    cases hid : row.discid? with
    | some did => rfl
    | none => rw [Option.none_or, Option.none_or, ih (h.tail hid)]

theorem valuesFrom_append (id : Bytes 20) (scope : Option (Bytes 20)) (rows rows' : List Row) :
    valuesFrom id scope (rows ++ rows') =
      valuesFrom id scope rows ++ valuesFrom id ((scopeAfter rows).or scope) rows' := by
  induction rows generalizing scope with
  | nil => rfl
  | cons row rows ih =>
    rw [List.cons_append, valuesFrom, valuesFrom, ih, scopeAfter_cons, Option.or_assoc,
      List.append_assoc]

/-- A database behind another is read when both are: its rows of the first form win over those
before, and any row of that form over the keys below a disc id, whichever text they stand in. -/
theorem vukForDisc_append {text text' : List Char} {db db' : KeyDb} {report report' : ParseReport}
    (h : parseWithReport text = .ok (db, report)) (h' : parseWithReport text' = .ok (db', report'))
    (hscoped : ValuesScoped (readRows (lines text'))) :
    ∃ merged report'', parseWithReport (text ++ '\n' :: text') = .ok (merged, report'') ∧
      ∀ id, merged.vukForDisc id =
        (((db'.entryForDisc id).or (db.entryForDisc id)).map KeyDbEntry.vuk).or
        (((db'.discRecord id).bind DiscRecords.vuk).or ((db.discRecord id).bind DiscRecords.vuk)) :=
  by
  obtain ⟨⟨merged, report''⟩, hmerged⟩ := exists_parseWithReport_append h h'
  refine ⟨merged, report'', hmerged, ?_⟩
  intro id
  have hreflects := reflects_of_parse h
  have hreflects' := reflects_of_parse h'
  rw [(reflects_of_parse hmerged).vukForDisc id, readRows_append, vukOf, valuesFrom_append,
    valuesFrom_scoped hscoped, List.filterMap_append, List.filterMap_append, List.getLast?_append,
    List.getLast?_append, hreflects.entries,
    hreflects'.entries, hreflects.vuk_discRecord, hreflects'.vuk_discRecord]

/-- A later database with one row. -/
def laterText : List Char :=
  "0x0000000000000000000000000000000000000001 = Movie".toList ++
    " | V | 0x00000000000000000000000000000005".toList

theorem ascii_laterText : Ascii laterText := by
  have hall : laterText.all (fun c => c.utf8Size = 1) = true := by rfl
  exact fun c hc => of_decide_eq_true (List.all_eq_true.mp hall c hc)

theorem vukForDisc_append_twice : ∃ db db' merged report report' report'',
    parseWithReport twiceText = .ok (db, report) ∧ parseWithReport laterText = .ok (db', report') ∧
    parseWithReport (twiceText ++ '\n' :: laterText) = .ok (merged, report'') ∧
    merged.vukForDisc (Bytes.ofNat 20 1) =
      (((db'.entryForDisc (Bytes.ofNat 20 1)).or (db.entryForDisc (Bytes.ofNat 20 1))).map
        KeyDbEntry.vuk).or (((db'.discRecord (Bytes.ofNat 20 1)).bind DiscRecords.vuk).or
          ((db.discRecord (Bytes.ofNat 20 1)).bind DiscRecords.vuk)) := by
  have hscoped : ValuesScoped (readRows (lines laterText)) := by
    have hrows : readRows (lines laterText) =
        [.entry ⟨Bytes.ofNat 20 1, ⟨Bytes.ofNat 16 5⟩, some "Movie".toList, []⟩] := by rfl
    rw [hrows]
    intro i v hv
    cases i with
    | zero => cases hv
    | succ i => cases hv
  obtain ⟨db, report, h⟩ := parseWithReport_of_ascii ascii_twiceText
  obtain ⟨db', report', h'⟩ := parseWithReport_of_ascii ascii_laterText
  obtain ⟨merged, report'', h'', hlookup⟩ := vukForDisc_append h h' hscoped
  exact ⟨db, db', merged, report, report', report'', h, h', h'', hlookup _⟩

end KeyDb
