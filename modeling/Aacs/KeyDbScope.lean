import Aacs.KeyDbSkips

/-!
# The disc a value belongs to

A value belongs to the disc of the `DISCID` row above it. A `DISCID` row that
cannot be read leaves the earlier disc in force, so a value below it is stored
for that disc.
-/

open Text Outcome

namespace KeyDb

/-- The leader of a line, if its row is a record. -/
def leaderOf (raw : List Char) : Option String :=
  if (lineBody raw).head? = some '|' then
    match recordTokens (lineBody raw) with
    | .ok (leader, _) => some leader
    | _ => none
  else none

def scopedLeaders : List String := ["VID", "VUK", "MEK", "TK", "KCD"]

theorem leader_of_readRecord {fields : List (List Char)} {comment : Option (List Char)}
    {body : List Char}
    {leader : String} {row : Row} (h : readRecord fields comment body leader = .ok row) :
    row.leader = some leader := by
  have hmap : ∀ {α : Type} {f : α → Row} {o : Result α}, f <$> o = .ok row → ∃ a, row = f a := by
    intro α f o ho
    cases o with
    | ok a => exact ⟨a, (Outcome.ok.inj ho).symm⟩
    | err e => cases ho
    | panic => cases ho
  unfold readRecord at h
  split at h
  case h_11 =>
    obtain ⟨t, ht⟩ := truncateExcerpt_eq_ok body 80
    simp [headerErr, ht] at h
  all_goals
    obtain ⟨a, rfl⟩ := hmap h
    rfl

/-- A row that was read is of the kind its leader names. -/
theorem leaderOf_eq {raw : List Char} {row : Row} (h : rowOf raw = some row) :
    leaderOf raw = row.leader := by
  unfold rowOf at h
  split at h
  · cases h
  · split at h
    · next row' hread =>
      cases h
      unfold readRow at hread
      unfold leaderOf
      split at hread
      · next hbar =>
        rw [if_pos hbar]
        obtain ⟨⟨leader, fields⟩, htokens, hread⟩ := bind_eq_ok.mp hread
        rw [htokens]
        exact (leader_of_readRecord hread).symm
      · next hbar =>
        rw [if_neg hbar]
        cases hentry : parseLegacyLine (lineBody raw) with
        | ok e =>
          rw [hentry, map_ok] at hread
          cases hread
          rfl
        | err e =>
          rw [hentry] at hread
          cases hread
        | panic =>
          rw [hentry] at hread
          cases hread
    · cases h

theorem leaderOf_of_discidOf {raw : List Char} {id : Bytes 20} (h : discidOf raw = some id) :
    leaderOf raw = some "DISCID" := by
  unfold discidOf at h
  split at h
  · next hrow => exact leaderOf_eq hrow
  · cases h

theorem DiscValue.leader_mem (v : DiscValue) : v.leader ∈ scopedLeaders := by
  cases v <;> simp [DiscValue.leader, scopedLeaders]

/-- A row with a scoped leader holds a value. -/
theorem value_of_leader {raw : List Char} {row : Row} {leader : String}
    (hrow : rowOf raw = some row)
    (hleader : leaderOf raw = some leader) (hscoped : leader ∈ scopedLeaders) :
    ∃ v, row = .value v := by
  rw [leaderOf_eq hrow] at hleader
  cases row with
  | value v => exact ⟨v, rfl⟩
  | entry e => cases hleader
  | _ =>
    cases hleader
    simp [scopedLeaders] at hscoped

/-- The nearest `DISCID` row, well-formed or not. -/
def discidAbove (earlier : List (List Char)) : Option (List Char) :=
  (earlier.filter fun r => leaderOf r = some "DISCID").getLast?

def DiscValue.HeldBy (v : DiscValue) (rec : DiscRecords) : Prop :=
  match v with
  | .vid key => rec.vid = some key
  | .vuk key => rec.vuk = some key
  | .mek key => rec.mek = some key
  | .tk key => key ∈ rec.titleKeys
  | .kcd bytes => rec.kcd = some bytes

/-- The database holds the value for the disc. -/
def Stores (db : KeyDb) (id : Bytes 20) (v : DiscValue) : Prop :=
  ∃ rec, db.discRecords.lookup id = some rec ∧ v.HeldBy rec

theorem heldBy_put {rec : DiscRecords} {v w : DiscValue} (h : v.HeldBy (w.put rec)) :
    v.HeldBy rec ∨ w = v := by
  cases w <;> cases v <;> simp_all [DiscValue.put, DiscValue.HeldBy, eq_comm]

/-- An update gives a disc only what it puts into its records. -/
theorem stores_updateDisc {db : KeyDb} {did id : Bytes 20} {f : DiscRecords → DiscRecords}
    {v : DiscValue} {p : Prop}
    (hf : ∀ rec, v.HeldBy (f rec) → v.HeldBy rec ∨ p) (h : Stores (updateDisc db did f) id v) :
    Stores db id v ∨ did = id ∧ p := by
  obtain ⟨rec, hrec, hhas⟩ := h
  rw [updateDisc] at hrec
  by_cases hid : id = did
  · subst hid
    rw [Finmap.lookup_insert] at hrec
    cases hrec
    rcases hf _ hhas with hhas | hp
    · cases hlookup : db.discRecords.lookup id with
      | none =>
        rw [hlookup, Option.getD_none] at hhas
        cases v <;> simp [DiscValue.HeldBy] at hhas
      | some rec =>
        rw [hlookup, Option.getD_some] at hhas
        exact .inl ⟨rec, hlookup, hhas⟩
    · exact .inr ⟨rfl, hp⟩
  · rw [Finmap.lookup_insert_of_ne _ hid] at hrec
    exact .inl ⟨rec, hrec, hhas⟩

/-- A line stores at most its own value, and that for the disc in force. -/
theorem stores_runLine {s : Rows} {raw : List Char} {id : Bytes 20} {v : DiscValue}
    (h : Stores (runLine s raw).db id v) :
    Stores s.db id v ∨ rowOf raw = some (.value v) ∧ s.currentDiscid = some id := by
  rw [runLine, storeLine] at h
  cases hrow : rowOf raw with
  | none =>
    rw [hrow] at h
    exact .inl h
  | some row =>
    rw [hrow, Option.bind_some] at h
    cases row with
    | discid did label comment =>
      have hlabel : ∀ rec : DiscRecords,
        v.HeldBy { rec with label := (rec.label.or label).or comment } →
          v.HeldBy rec ∨ False := fun rec hrec => .inl (by cases v <;> exact hrec)
      exact (stores_updateDisc hlabel h).imp_right fun hfalse => hfalse.2.elim
    | value w =>
      rw [Row.store_value] at h
      cases hid : s.currentDiscid with
      | none =>
        rw [hid] at h
        exact .inl h
      | some did =>
        rw [hid, Option.map_some, Option.getD_some] at h
        rcases stores_updateDisc (fun rec => heldBy_put) h with h | ⟨rfl, rfl⟩
        · exact .inl h
        · exact .inr ⟨rfl, rfl⟩
    | _ => exact .inl h

/-- Every value stored is that of a line, below a disc id in force there. -/
theorem stores_run {raws : List (List Char)} {id : Bytes 20} {v : DiscValue}
    (h : Stores (run raws).db id v) :
    ∃ i raw, raws[i]? = some raw ∧ rowOf raw = some (.value v) ∧
      (run (raws.take i)).currentDiscid = some id := by
  induction raws using List.reverseRecOn with
  | nil =>
    obtain ⟨rec, hrec, -⟩ := h
    cases hrec
  | append_singleton raws raw ih =>
    rw [run_concat] at h
    refine (@exists_line_concat raws raw fun _ earlier r =>
      rowOf r = some (.value v) ∧ (run earlier).currentDiscid = some id).mpr ?_
    exact (stores_runLine h).imp_left ih

/-- A line stands below a `DISCID` row that is not well-formed, and below no other since. -/
def BelowMalformed (earlier : List (List Char)) : Prop :=
  ∃ r, discidAbove earlier = some r ∧ discidOf r = none

/-- A line stands below a well-formed `DISCID` row of the disc, and below no other since. -/
def BelowDisc (earlier : List (List Char)) (id : Bytes 20) : Prop :=
  ∃ r, discidAbove earlier = some r ∧ discidOf r = some id

/-- Every value belongs to the disc it stands below, and below a malformed `DISCID` row none is
read. -/
structure ScopesKept (raws : List (List Char)) (db : KeyDb) (skipped : List Nat) : Prop where
  origin : ∀ id v, Stores db id v →
    ∃ i raw, raws[i]? = some raw ∧ rowOf raw = some (.value v) ∧ BelowDisc (raws.take i) id
  rejected : ∀ i raw leader, raws[i]? = some raw → leaderOf raw = some leader →
    leader ∈ scopedLeaders → BelowMalformed (raws.take i) → i + 1 ∈ skipped

/-- No well-formed value stands below a malformed `DISCID` row that stands below a well-formed one.
-/
def NoStaleValue (raws : List (List Char)) : Prop :=
  ∀ i raw v, raws[i]? = some raw → rowOf raw = some (.value v) → BelowMalformed (raws.take i) →
    ∀ r ∈ raws.take i, discidOf r = none

theorem discidAbove_concat (earlier : List (List Char)) (raw : List Char) :
    discidAbove (earlier ++ [raw]) =
    if leaderOf raw = some "DISCID" then some raw else discidAbove earlier := by
  rw [discidAbove, List.filter_append]
  by_cases h : leaderOf raw = some "DISCID" <;> simp [h, discidAbove]

/-- Below a disc id either the nearest `DISCID` row is malformed, or it names the disc. -/
theorem below_cases {earlier : List (List Char)} {id : Bytes 20}
    (h : (run earlier).currentDiscid = some id) :
    BelowMalformed earlier ∨ BelowDisc earlier id := by
  induction earlier using List.reverseRecOn with
  | nil => cases h
  | append_singleton earlier raw ih =>
    rw [BelowMalformed, BelowDisc, discidAbove_concat]
    rw [run_concat, runLine_currentDiscid] at h
    cases hid : discidOf raw with
    | some did =>
      rw [hid, Option.some_or] at h
      rw [if_pos (leaderOf_of_discidOf hid)]
      exact .inr ⟨raw, rfl, by rw [hid, h]⟩
    | none =>
      rw [hid, Option.none_or] at h
      split
      · exact .inl ⟨raw, rfl, hid⟩
      · exact ih h

/-- The scopes of a text are kept exactly when no value in it is stale. -/
theorem scopesKept_iff {text : List Char} {db : KeyDb} {report : ParseReport}
    (h : parseWithReport text = .ok (db, report)) :
    ScopesKept (lines text) db (report.skipped.map (·.lineNumber)) ↔ NoStaleValue (lines text) := by
  obtain ⟨rfl, hreports⟩ := parseWithReport_runs h
  generalize lines text = raws at hreports
  constructor
  · intro hkept i raw v hraw hrow hbelow r hr
    have hleader : leaderOf raw = some v.leader := leaderOf_eq hrow
    have hmem := hkept.rejected i raw v.leader hraw hleader v.leader_mem hbelow
    obtain ⟨j, raw', hij, hraw', -, hrejected⟩ := (hreports.mem_iff _).mp hmem
    obtain rfl : i = j := by omega
    rw [hraw] at hraw'
    cases hraw'
    by_contra hid
    exact hrejected ⟨.value v, hrow, fun _ => ⟨r, hr, Option.isSome_iff_ne_none.mpr hid⟩⟩
  · intro hstale
    refine ⟨fun id v hstores => ?_, fun i raw leader hraw hleader hscoped hbelow => ?_⟩
    · obtain ⟨i, raw, hraw, hrow, hcurrent⟩ := stores_run hstores
      refine ⟨i, raw, hraw, hrow, (below_cases hcurrent).resolve_left fun hbelow => ?_⟩
      have hsome : (run (raws.take i)).currentDiscid.isSome := by rw [hcurrent]; rfl
      obtain ⟨r, hr, hid⟩ := isSome_currentDiscid.mp hsome
      rw [hstale i raw v hraw hrow hbelow r hr] at hid
      cases hid
    · refine (hreports.mem_iff _).mpr ⟨i, raw, rfl, hraw, fun hnil => ?_, ?_⟩
      · simp [leaderOf, hnil] at hleader
      · rintro ⟨row, hrow, hvalue⟩
        obtain ⟨v, rfl⟩ := value_of_leader hrow hleader hscoped
        obtain ⟨r, hr, hid⟩ := hvalue ⟨v, rfl⟩
        rw [hstale i raw v hraw hrow hbelow r hr] at hid
        cases hid

/-- A disc id, a malformed one and a volume id. -/
def staleText : List Char :=
  "| DISCID | 0x0000000000000000000000000000000000000001\n".toList ++
    "| DISCID | 0x02\n".toList ++
    "| VID | 0x00000000000000000000000000000003\n".toList

theorem ascii_staleText : Ascii staleText := by
  have hall : staleText.all (fun c => c.utf8Size = 1) = true := by rfl
  exact fun c hc => of_decide_eq_true (List.all_eq_true.mp hall c hc)

theorem scopesKept_iff_stale : ∃ db report, parseWithReport staleText = .ok (db, report) ∧
    (ScopesKept (lines staleText) db (report.skipped.map (·.lineNumber)) ↔
      NoStaleValue (lines staleText)) := by
  obtain ⟨db, report, h⟩ := parseWithReport_of_ascii ascii_staleText
  exact ⟨db, report, h, scopesKept_iff h⟩

/-- The volume id below the malformed row is stored for the disc above it. -/
theorem staleText_scope_lost : ¬∀ text db report, parseWithReport text = .ok (db, report) →
    ScopesKept (lines text) db (report.skipped.map (·.lineNumber)) := by
  intro hkept
  obtain ⟨db, report, h⟩ := parseWithReport_of_ascii ascii_staleText
  have hnumbers : (fun p : KeyDb × ParseReport => p.2.skipped.map (·.lineNumber))
    <$> parseWithReport staleText =
      .ok [2] := by rfl
  rw [h, map_ok, ok.injEq] at hnumbers
  have hmem :=
    (hkept staleText db report h).rejected 2 _ "VID" rfl (by rfl) (by simp [scopedLeaders])
    ⟨"| DISCID | 0x02".toList, by rfl, by rfl⟩
  rw [hnumbers] at hmem
  simp at hmem

end KeyDb
