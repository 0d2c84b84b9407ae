import Aacs.KeyDbRun

/-!
# Rejected lines

In a text of one-byte characters every field is cut between characters, so the
text is read whatever its lines hold. A rejected line leaves no trace: without
it the text has the same run.
-/

open Text Outcome

namespace Text

/-- Every character is one byte wide. -/
def Ascii (s : List Char) : Prop := ∀ c ∈ s, c.utf8Size = 1

variable {s t : List Char}

theorem Ascii.sublist (hs : Ascii s) (h : t.Sublist s) : Ascii t := fun c hc => hs c (h.subset hc)

theorem Ascii.utf8Len (hs : Ascii s) : utf8Len s = s.length := by
  induction s with
  | nil => rfl
  | cons c s ih =>
    obtain ⟨hc, hs⟩ := List.forall_mem_cons.mp hs
    rw [utf8Len_cons, hc, ih hs, List.length_cons, Nat.add_comm]

theorem trim_sublist (s : List Char) : (trim s).Sublist s :=
  (List.rdropWhile_prefix _ _).sublist.trans (List.dropWhile_sublist _)

theorem split_sublist {c : Char} (h : t ∈ split c s) : t.Sublist s := by
  induction s generalizing t with
  | nil =>
    rw [split, List.splitOn_nil] at h
    rw [List.mem_singleton.mp h]
  | cons d s ih =>
    rw [split, List.splitOn_cons_eq_if_modifyHead, ← split] at h
    split at h
    · rcases List.mem_cons.mp h with rfl | h
      · exact List.nil_sublist _
      · exact (ih h).cons d
    · generalize split c s = pieces at h ih
      cases pieces with
      | nil => cases h
      | cons piece pieces =>
        rcases List.mem_cons.mp h with rfl | h
        · exact (ih List.mem_cons_self).cons_cons d
        · exact (ih (List.mem_cons_of_mem piece h)).cons d

theorem splitOnce_sublist {c : Char} {a b : List Char} (h : splitOnce c s = some (a, b)) :
    a.Sublist s ∧ b.Sublist s := by
  induction s generalizing a b with
  | nil => cases h
  | cons d s ih =>
    rw [splitOnce] at h
    split at h
    · cases h
      exact ⟨List.nil_sublist _, List.sublist_cons_self d s⟩
    · obtain ⟨⟨a', b'⟩, hab, hp⟩ := Option.map_eq_some_iff.mp h
      cases hp
      obtain ⟨ha, hb⟩ := ih hab
      exact ⟨ha.cons_cons d, hb.cons d⟩

theorem stripLineEnd_sublist (seg : List Char) : (stripLineEnd seg).Sublist seg := by
  have hstrip : ∀ a, (stripCarriageReturn a).Sublist a := fun a => by
    unfold stripCarriageReturn
    split
    · exact List.dropLast_sublist a
    · exact List.Sublist.refl a
  unfold stripLineEnd
  split
  · exact (hstrip _).trans (List.dropLast_sublist seg)
  · exact List.Sublist.refl seg

theorem lines_sublist (h : t ∈ lines s) : t.Sublist s := by
  rw [lines_eq] at h
  obtain ⟨seg, hseg, rfl⟩ := List.mem_map.mp h
  have hsub : seg.Sublist (segments s).flatten := List.sublist_flatten_of_mem hseg
  rw [flatten_segments] at hsub
  exact (stripLineEnd_sublist seg).trans hsub

end Text

namespace KeyDb

theorem stripHexPrefix_sublist (s : List Char) : (stripHexPrefix s).Sublist s := by
  have hstrip : ∀ {t a}, stripStart t s = some a → a.Sublist s := fun {t a} h => by
    rw [stripStart] at h
    split at h
    · cases h
      exact List.drop_sublist _ s
    · cases h
  rw [stripHexPrefix, hexBody]
  cases h1 : stripStart ['0', 'x'] s with
  | some a => exact hstrip h1
  | none =>
    cases h2 : stripStart ['0', 'X'] s with
    | some a => exact hstrip h2
    | none => exact List.Sublist.refl s

theorem pairsCut_of_ascii {s : List Char} (hs : Ascii s) (heven : s.length % 2 = 0) :
    PairsCut s = true := by
  induction s using hexPairs.induct with
  | case1 => rfl
  | case2 c => cases heven
  | case3 c d s ih =>
    obtain ⟨hc, hs⟩ := List.forall_mem_cons.mp hs
    obtain ⟨hd, hs⟩ := List.forall_mem_cons.mp hs
    have hrest := ih hs (by rw [List.length_cons, List.length_cons] at heven; omega)
    simp [PairsCut, hc, hd, hrest]

theorem flagSplit_sublist (ptok : List Char) : (flagSplit ptok).2.Sublist ptok := by
  unfold flagSplit
  dsimp only
  split
  · exact (trim_sublist _).trans (List.dropWhile_sublist _)
  · exact List.Sublist.refl ptok

/-- A key field has 32 of the characters of its value. -/
theorem keyField_of_some {flag : Option Char} {value key : List Char}
    (h : keyField flag value = some key) :
    utf8Len key = 32 ∧ key.Sublist value := by
  obtain ⟨hkey, hlen⟩ := Option.filter_eq_some_iff.mp h
  refine ⟨of_decide_eq_true hlen, ?_⟩
  split at hkey
  · cases hkey
    exact stripHexPrefix_sublist value
  · obtain ⟨p, hp, rfl⟩ := Option.map_eq_some_iff.mp hkey
    exact (stripHexPrefix_sublist _).trans ((trim_sublist p.2).trans (splitOnce_sublist hp).2)
  · cases hkey

theorem keyFields_of_mem {flag : Option Char} {tokens : List (List Char)} {field : List Char}
    (h : field ∈ keyFields flag tokens) :
    utf8Len field = 32 ∧ ∃ ptok ∈ tokens, field.Sublist ptok := by
  induction tokens generalizing flag with
  | nil => cases h
  | cons ptok rest ih =>
    have hrest : ∀ {flag}, field ∈ keyFields flag rest → utf8Len field = 32 ∧ ∃ p ∈ ptok :: rest,
        field.Sublist p :=
      fun h => by
        obtain ⟨hlen, p, hp, hsub⟩ := ih h
        exact ⟨hlen, p, List.mem_cons_of_mem ptok hp, hsub⟩
    rw [keyFields] at h
    dsimp only at h
    rw [← flagAt] at h
    generalize flagAt flag (flagSplit ptok).1 = flag at h
    split at h
    · exact hrest h
    · split at h
      · exact hrest h
      · next key hkey =>
        rcases List.mem_cons.mp h with rfl | h
        · obtain ⟨hlen, hsub⟩ := keyField_of_some hkey
          exact ⟨hlen, ptok, List.mem_cons_self, hsub.trans (flagSplit_sublist ptok)⟩
        · split at h
          · cases h
          · exact hrest h

/-- The fields of a line have an even number of its characters. -/
theorem lineFields_of_mem {raw field : List Char} (h : field ∈ lineFields raw) :
    utf8Len field % 2 = 0 ∧ field.Sublist raw := by
  have hbody : (trim (raw.takeWhile fun c => !decide (c = ';'))).Sublist raw :=
    (trim_sublist _).trans (List.takeWhile_sublist _)
  unfold lineFields at h
  dsimp only at h
  generalize trim (raw.takeWhile fun c => !decide (c = ';')) = body at h hbody
  split at h
  · cases h
  · unfold rowFields at h
    split at h
    · cases h
    · next idText rhs hsplit =>
      obtain ⟨hid, hrhs⟩ := splitOnce_sublist hsplit
      dsimp only at h
      split at h
      · next hlen =>
        rcases List.mem_cons.mp h with rfl | h
        · exact ⟨by rw [hlen], (stripHexPrefix_sublist _).trans
            ((trim_sublist _).trans (hid.trans hbody))⟩
        · split at h
          · cases h
          · obtain ⟨hlen, ptok, hptok, hsub⟩ := keyFields_of_mem h
            obtain ⟨piece, hpiece, rfl⟩ := List.mem_map.mp hptok
            refine ⟨by rw [hlen], hsub.trans ((trim_sublist piece).trans ?_)⟩
            exact (split_sublist hpiece).trans (hrhs.trans hbody)
      · cases h

/-- A text of one-byte characters is read. -/
theorem parseWithReport_of_ascii {text : List Char} (hascii : Ascii text) :
    ∃ db report, parseWithReport text = .ok (db, report) := by
  obtain ⟨⟨s, report⟩, hs⟩ := (foldlM_eq_ok parseLine_eq_ok (lines text).zipIdx ({}, {})).mpr <| by
    rintro ⟨raw, i⟩ hline field hfield
    obtain ⟨heven, hsub⟩ := lineFields_of_mem hfield
    have hfieldAscii : Ascii field :=
      (hascii.sublist (lines_sublist (List.fst_mem_of_mem_zipIdx hline))).sublist hsub
    exact pairsCut_of_ascii hfieldAscii (by rw [← hfieldAscii.utf8Len, heven])
  exact ⟨s.db, report, by rw [parseWithReport, hs]; rfl⟩

/-- What is left when the lines of these numbers are left out. -/
def keepLines (dropped : List Nat) (raws : List (List Char)) : List (List Char) :=
  ((raws.zipIdx 1).filter fun p => p.2 ∉ dropped).map Prod.fst

/-- The text without the lines of these numbers. -/
def deleteLines (dropped : List Nat) (text : List Char) : List Char :=
  (keepLines dropped (segments text)).flatten

theorem keepLines_sublist (dropped : List Nat) (raws : List (List Char)) :
    (keepLines dropped raws).Sublist raws := by
  have hsub := (List.filter_sublist (p := fun p : List Char × Nat => decide (p.2 ∉ dropped))
    (l := raws.zipIdx 1)).map Prod.fst
  rwa [List.zipIdx_map_fst] at hsub

theorem deleteLines_sublist (dropped : List Nat) (text : List Char) :
    (deleteLines dropped text).Sublist text := by
  have hsub := (keepLines_sublist dropped (segments text)).flatten
  rwa [flatten_segments] at hsub

theorem keepLines_map (dropped : List Nat) (f : List Char → List Char) (raws : List (List Char)) :
    (keepLines dropped raws).map f = keepLines dropped (raws.map f) := by
  rw [keepLines, keepLines, List.zipIdx_map, List.filter_map, List.map_map, List.map_map]
  rfl

/-- The lines that are left are the lines of the text that is left. -/
theorem lines_deleteLines (dropped : List Nat) (text : List Char) :
    lines (deleteLines dropped text) = keepLines dropped (lines text) := by
  have hsegs := (segmented_segments text).sublist (keepLines_sublist dropped (segments text))
  rw [deleteLines, lines_flatten hsegs, keepLines_map, ← lines_eq]

theorem keepLines_concat (dropped : List Nat) (raws : List (List Char)) (raw : List Char) :
    keepLines dropped (raws ++ [raw]) =
      keepLines dropped raws ++ if raws.length + 1 ∈ dropped then [] else [raw] := by
  rw [keepLines, List.zipIdx_append, List.filter_append, List.map_append, ← keepLines,
    List.zipIdx_singleton]
  by_cases h : raws.length + 1 ∈ dropped <;> simp [h, Nat.add_comm 1]

/-- The run is the same without lines that it rejects. -/
theorem run_keepLines {dropped : List Nat} {raws : List (List Char)}
    (h : ∀ i raw, raws[i]? = some raw → i + 1 ∈ dropped → Rejected (raws.take i) raw) :
    run (keepLines dropped raws) = run raws := by
  induction raws using List.reverseRecOn with
  | nil => rfl
  | append_singleton raws raw ih =>
    have hinit := ih fun i r hr hi => by
      have hlt : i < raws.length := (List.getElem?_eq_some_iff.mp hr).1
      have hrej := h i r (by rw [List.getElem?_append_left hlt, hr]) hi
      rwa [List.take_append_of_le_length hlt.le] at hrej
    rw [keepLines_concat, run_concat]
    split
    · next hmem =>
      have hrej := h raws.length raw List.getElem?_concat_length hmem
      rw [List.take_left, rejected_iff] at hrej
      rw [List.append_nil, hinit, runLine, hrej.2, Option.getD_none]
    · rw [run_concat, hinit]

/-- Every text of one-byte characters is read. Its report has each line that holds a row
that is not stored, and without any of these lines the database is the same. -/
theorem parseWithReport_atomic {text : List Char} (hascii : Ascii text) :
    ∃ db report, parseWithReport text = .ok (db, report) ∧
      db = (run (lines text)).db ∧
      Reports (lines text) (report.skipped.map (·.lineNumber)) ∧
      ∀ dropped : List Nat, (∀ n ∈ dropped, n ∈ report.skipped.map (·.lineNumber)) →
        ∃ report', parseWithReport (deleteLines dropped text) = .ok (db, report') := by
  obtain ⟨db, report, hparse⟩ := parseWithReport_of_ascii hascii
  obtain ⟨rfl, hreports⟩ := parseWithReport_runs hparse
  refine ⟨_, report, hparse, rfl, hreports, fun dropped hdropped => ?_⟩
  obtain ⟨db', report', hparse'⟩ :=
    parseWithReport_of_ascii (hascii.sublist (deleteLines_sublist dropped text))
  obtain ⟨rfl, -⟩ := parseWithReport_runs hparse'
  refine ⟨report', ?_⟩
  rw [hparse', lines_deleteLines, run_keepLines]
  intro i raw hraw hi
  obtain ⟨j, r, hij, hr, hrej⟩ := (hreports.mem_iff (i + 1)).mp (hdropped _ hi)
  obtain rfl : i = j := by omega
  rw [hraw] at hr
  cases hr
  exact hrej

/-- A disc id without digits and a title. -/
def badLines : List Char := "| DISCID |\nTitle ; no key\n".toList

theorem parseWithReport_atomic_badLines : ∃ db report, parseWithReport badLines = .ok (db, report) ∧
    db = (run (lines badLines)).db ∧
    Reports (lines badLines) (report.skipped.map (·.lineNumber)) ∧
    ∀ dropped : List Nat, (∀ n ∈ dropped, n ∈ report.skipped.map (·.lineNumber)) →
      ∃ report', parseWithReport (deleteLines dropped badLines) = .ok (db, report') := by
  have hall : badLines.all (fun c => c.utf8Size = 1) = true := by rfl
  exact parseWithReport_atomic fun c hc => of_decide_eq_true (List.all_eq_true.mp hall c hc)

end KeyDb
