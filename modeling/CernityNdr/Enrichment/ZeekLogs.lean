import CernityNdr.Framework.Conversion
import CernityNdr.Framework.Joining
import CernityNdr.Framework.Text

/-! # Zeek Logs

    The model of the readers of Zeek's tab-separated logs
    (`services/zeek-central/enrich.py` and `parse_notice_tsv` of
    `services/zeek-notice/promote_notice.py`), of the summaries that are made of
    the rows, and of the indicators that are taken from the summaries.

    * `parseLines_table`: the rows of a log that nothing breaks.
    * `unforged_iff`: the tables whose text is read back. -/

namespace ZeekLogs

open Text
open Json (Dict)

/-! ### Rows -/

/-- The cells of a row by name, where the last of a name counts. -/
abbrev Row := List (String × String)

/-- `row.get(name)`. -/
def Row.get? (r : Row) (name : String) : Option String :=
  (r.reverse.find? fun m => m.1 = name).map Prod.snd

/-- `line.split("\t")`. -/
def split (line : List Char) : List String := (line.splitOn '\t').map String.ofList

/-- The line is skipped: it starts with `#`, or `strip` leaves nothing. -/
def Skipped (line : List Char) : Prop := line.head? = some '#' ∨ strip line = []

instance (line : List Char) : Decidable (Skipped line) := inferInstanceAs (Decidable (_ ∨ _))

/-- The loop over the lines. `headless` is what a line yields when no field is
    named. -/
def parseLines (headless : List Row) : List String → List (List Char) → List Row
  | _, [] => []
  | fields, line :: rest =>
    if "#fields".toList <+: line then parseLines headless (split line).tail rest
    else if Skipped line then parseLines headless fields rest
    else if fields = [] then headless ++ parseLines headless fields rest
    else fields.zip (split line) :: parseLines headless fields rest

/-- `parse_zeek_tsv`: a line before the fields is an empty row. -/
def parseZeekTsv (text : List Char) : List Row := parseLines [[]] [] (splitlines text)

/-- `parse_notice_tsv`: such a line is skipped. -/
def parseNoticeTsv (text : List Char) : List Row := parseLines [] [] (splitlines text)

/-! ### Summaries -/

/-- `_v(r.get(key))`: Zeek's markers of an unset cell are `None`. -/
def v (r : Row) (key : String) : Option String :=
  (r.get? key).filter fun s => s ∉ ["", "-", "(empty)"]

def orNull : Option String → Json
  | none => .null
  | some s => .str s

/-- `counts[key] = counts.get(key, 0) + 1` for each of the keys. -/
def tally (keys : List String) : Dict :=
  keys.foldl (fun d key => d.set key
    (match d.get key with
    | .int n => .int (n + 1)
    | _ => .int 1)) []

/-- `sorted(set(xs))`. -/
def unique (xs : List String) : Json := .arr ((sortedTexts xs.toFinset).map .str)

/-- `details[:50]`. -/
def details (rows : List Row) (detail : Row → Dict) : Json := .arr ((rows.map fun r => .obj (detail r)).take 50)

/-- `r.get(key, "-") or "-"`. -/
def orDash (r : Row) (key : String) : String :=
  let s := (r.get? key).getD "-"
  if s = "" then "-" else s

/-- `summarize_conn_log`, of the rows. -/
def summarizeConn (rows : List Row) : Dict :=
  [("connections", .int rows.length),
   ("services", .obj (tally (rows.map fun r => orDash r "service"))),
   ("protocols", .obj (tally (rows.map fun r => orDash r "proto")))]

variable (lower : String → String)

/-- `summarize_ssl`. -/
def summarizeSsl (rows : List Row) : Dict :=
  [("tls_connections", .int rows.length),
   ("unique_ja3", unique (rows.filterMap fun r => v r "ja3")),
   ("unique_ja4", unique (rows.filterMap fun r => v r "ja4")),
   ("unique_ja4s", unique (rows.filterMap fun r => v r "ja4s")),
   ("server_names", unique (rows.filterMap fun r => v r "server_name")),
   ("validation_failures",
      .int (rows.countP fun r => (v r "validation_status").any fun vs => lower vs ≠ "ok")),
   ("details", details rows fun r =>
      [("server_name", orNull (v r "server_name")), ("ja3", orNull (v r "ja3")),
       ("ja3s", orNull (v r "ja3s")), ("ja4", orNull (v r "ja4")), ("ja4s", orNull (v r "ja4s")),
       ("version", orNull (v r "version")),
       ("validation_status", orNull (v r "validation_status")),
       ("subject", orNull (v r "subject")), ("issuer", orNull (v r "issuer"))])]

/-- The subject and the issuer of the certificate are the same. -/
def selfSigned (r : Row) : Bool :=
  match v r "certificate.subject", v r "certificate.issuer" with
  | some subj, some iss => subj = iss
  | _, _ => false

/-- `summarize_x509`. -/
def summarizeX509 (rows : List Row) : Dict :=
  [("certificates", .int rows.length),
   ("self_signed", .int (rows.countP selfSigned)),
   ("details", details rows fun r =>
      [("subject", orNull (v r "certificate.subject")),
       ("issuer", orNull (v r "certificate.issuer")), ("self_signed", .bool (selfSigned r)),
       ("ja4x", orNull (v r "ja4x")),
       ("not_valid_before", orNull (v r "certificate.not_valid_before")),
       ("not_valid_after", orNull (v r "certificate.not_valid_after")),
       ("san", orNull (v r "san.dns"))])]

/-- `summarize_http`. -/
def summarizeHttp (rows : List Row) : Dict :=
  [("http_requests", .int rows.length),
   ("unique_ja4h", unique (rows.filterMap fun r => v r "ja4h")),
   ("details", details rows fun r =>
      [("host", orNull (v r "host")), ("uri", orNull (v r "uri")),
       ("method", orNull (v r "method")), ("user_agent", orNull (v r "user_agent")),
       ("status_code", orNull (v r "status_code")), ("ja4h", orNull (v r "ja4h"))])]

/-- `summarize_ssh`. -/
def summarizeSsh (rows : List Row) : Dict :=
  [("ssh_sessions", .int rows.length),
   ("unique_ja4ssh", unique (rows.filterMap fun r => v r "ja4ssh")),
   ("details", details rows fun r =>
      [("client", orNull (v r "client")), ("server", orNull (v r "server")),
       ("auth_success", orNull (v r "auth_success")), ("ja4ssh", orNull (v r "ja4ssh"))])]

/-- `summarize_files`. -/
def summarizeFiles (rows : List Row) : Dict :=
  [("files", .int rows.length),
   ("hashes", unique (rows.flatMap fun r => ["sha256", "sha1", "md5"].filterMap (v r))),
   ("details", details rows fun r =>
      [("mime_type", orNull (v r "mime_type")),
       ("filename", orNull ((v r "filename").or (v r "extracted"))),
       ("source", orNull (v r "source")), ("seen_bytes", orNull (v r "seen_bytes")),
       ("md5", orNull (v r "md5")), ("sha1", orNull (v r "sha1")),
       ("sha256", orNull (v r "sha256"))])]

/-- `summarize_smb`. -/
def summarizeSmb (rows : List Row) : Dict :=
  [("smb_events", .int rows.length),
   ("details", details rows fun r =>
      [("action", orNull (v r "action")), ("path", orNull (v r "path")),
       ("name", orNull (v r "name")), ("share_type", orNull (v r "share_type"))])]

/-- The cipher names RC4 or DES. -/
def weakCipher (ci : String) : Bool :=
  "rc4".toList <:+: (lower ci).toList || "des".toList <:+: (lower ci).toList

/-- `summarize_kerberos`. -/
def summarizeKerberos (rows : List Row) : Dict :=
  let tgs := rows.countP fun r => v r "request_type" = some "TGS"
  let spns := (rows.filterMap fun r => v r "service").toFinset.card
  [("kerberos_events", .int rows.length), ("tgs_requests", .int tgs), ("distinct_spns", .int spns),
   ("weak_encryption", .int (rows.countP fun r => (v r "cipher").any (weakCipher lower))),
   ("kerberoast_suspected", .bool (8 ≤ tgs && 8 ≤ spns)),
   ("details", details rows fun r =>
      [("request_type", orNull (v r "request_type")), ("client", orNull (v r "client")),
       ("service", orNull (v r "service")), ("success", orNull (v r "success")),
       ("error_msg", orNull (v r "error_msg")), ("cipher", orNull (v r "cipher"))])]

/-- `_LOGS`. -/
inductive Log
  | conn | ssl | x509 | http | ssh | files | smbFiles | smbMapping | kerberos
deriving DecidableEq, Repr

def Log.key : Log → String
  | conn => "conn"
  | ssl => "ssl"
  | x509 => "x509"
  | http => "http"
  | ssh => "ssh"
  | files => "files"
  | smbFiles => "smb_files"
  | smbMapping => "smb_mapping"
  | kerberos => "kerberos"

/-- The summary of the rows of a log. -/
def Log.summary : Log → List Row → Dict
  | conn => summarizeConn
  | ssl => summarizeSsl lower
  | x509 => summarizeX509
  | http => summarizeHttp
  | ssh => summarizeSsh
  | files => summarizeFiles
  | smbFiles | smbMapping => summarizeSmb
  | kerberos => summarizeKerberos lower

/-- What `run_zeek` does with the text of a log. -/
def Log.summarize (log : Log) (text : List Char) : Dict := log.summary lower (parseZeekTsv text)

/-- `summary.get(log, {}).get(key)`. -/
def field (summary : Dict) (log key : String) : Json :=
  match summary.get? log with
  | some (.obj d) => Dict.get d key
  | _ => .null

/-- `extract_iocs`. -/
def extractIocs (summary : Dict) : Dict :=
  ([("file_hashes", field summary "files" "hashes"),
    ("ja3", field summary "ssl" "unique_ja3"),
    ("ja4", field summary "ssl" "unique_ja4"),
    ("ja4s", field summary "ssl" "unique_ja4s"),
    ("ja4h", field summary "http" "unique_ja4h"),
    ("ja4ssh", field summary "ssh" "unique_ja4ssh"),
    ("self_signed_certs", field summary "x509" "self_signed")].filter fun m => m.2.truthy) ++
  if (field summary "kerberos" "kerberoast_suspected").truthy then
    [("kerberoast_suspected", .bool true)] else []

/-! ### Tables -/

/-- A line of cells with tabs between them. -/
def line (cells : List String) : List Char := ['\t'].intercalate (cells.map String.toList)

/-- A cell or a name that the format can hold. -/
def Plain (s : String) : Prop := '\t' ∉ s.toList ∧ '\n' ∉ s.toList ∧ '\r' ∉ s.toList

instance (s : String) : Decidable (Plain s) := inferInstanceAs (Decidable (_ ∧ _))

/-- What a log holds. -/
structure Table where
  names : List String
  rows : List (List String)
  names_ne : names ≠ []
  /-- There is a cell for every name. -/
  width : ∀ row ∈ rows, row.length = names.length
  plain_names : ∀ s ∈ names, Plain s
  plain_cells : ∀ row ∈ rows, ∀ s ∈ row, Plain s
  /-- No first cell starts with `#`. -/
  no_hash : ∀ row ∈ rows, ∀ first ∈ row.head?, first.toList.head? ≠ some '#'
  /-- No row is blank, that is, white space for `str.strip`. -/
  no_blank : ∀ row ∈ rows, strip (line row) ≠ []

/-- The text of a log. -/
def Table.text (t : Table) : List Char := unlines (line ("#fields" :: t.names) :: t.rows.map line)

/-- The rows of the table, by name. -/
def Table.dicts (t : Table) : List Row := t.rows.map t.names.zip

/-- The row has the cells under their names, and nothing else. -/
structure IsRow (names cells : List String) (r : Row) : Prop where
  cells : ∀ m ∈ names.zip cells, r.get? m.1 = some m.2
  names : ∀ m ∈ r, m.1 ∈ names

/-- The text of the table is read as the table. -/
structure Unforged (t : Table) : Prop where
  zeek : List.Forall₂ (IsRow t.names) t.rows (parseZeekTsv t.text)
  notice : List.Forall₂ (IsRow t.names) t.rows (parseNoticeTsv t.text)
  /-- The counts of a summary are those of the table. -/
  summaries : ∀ (lower : String → String) (log : Log),
    log.summarize lower t.text = log.summary lower t.dicts
  iocs : ∀ (lower : String → String) (log : Log),
    extractIocs [(log.key, .obj (log.summarize lower t.text))] =
      extractIocs [(log.key, .obj (log.summary lower t.dicts))]

/-- Nothing in the text breaks a line but the ends of the lines, and a name that
    comes twice has the same cell twice. -/
structure Table.Clean (t : Table) : Prop where
  names : ∀ s ∈ t.names, Unbroken s.toList
  cells : ∀ row ∈ t.rows, ∀ s ∈ row, Unbroken s.toList
  same : ∀ row ∈ t.rows, ∀ m ∈ t.names.zip row, ∀ m' ∈ t.names.zip row, m.1 = m'.1 → m.2 = m'.2

/-- A table without rows in which what follows the first break of the names is
    skipped. -/
def Table.Quiet (t : Table) : Prop :=
  t.rows = [] ∧ ∀ l ∈ (splitlines (line t.names ++ ['\n'])).tail, Skipped l

/-! ### Lines of cells -/

theorem split_line {cells : List String} (hne : cells ≠ []) (h : ∀ s ∈ cells, Plain s) :
    split (line cells) = cells := by
  have htab : ∀ f ∈ cells.map String.toList, '\t' ∉ f := by
    intro f hf
    obtain ⟨s, hs, rfl⟩ := List.mem_map.mp hf
    exact (h s hs).1
  rw [split, line, Joining.splitOn_intercalate htab (by simpa using hne), List.map_map]
  exact List.map_id'' (fun s => String.ofList_toList) cells

theorem line_cons_cons (s s' : String) (cells : List String) :
    line (s :: s' :: cells) = s.toList ++ '\t' :: line (s' :: cells) := by
  simp [line, List.intercalate_cons_cons]

/-- The characters of a line are those of its cells and the tabs. -/
theorem unbroken_line {cells : List String} (h : ∀ s ∈ cells, Unbroken s.toList) :
    Unbroken (line cells) := by
  induction cells with
  | nil => exact unbroken_nil
  | cons s cells ih =>
    obtain ⟨hs, hcells⟩ := List.forall_mem_cons.mp h
    cases cells with
    | nil => simpa [line] using hs
    | cons s' cells =>
      rw [line_cons_cons]
      intro c hc
      rcases List.mem_append.mp hc with hc | hc
      · exact hs c hc
      · exact (ih hcells).cons rfl c hc

/-- The first character of a line is that of its first cell, or a tab. -/
theorem head?_line {s : String} {cells : List String} (h : (line (s :: cells)).head? = some '#') :
    s.toList.head? = some '#' := by
  cases cells with
  | nil => simpa [line] using h
  | cons s' cells =>
    rw [line_cons_cons] at h
    cases hs : s.toList with
    | nil =>
      rw [hs] at h
      cases h
    | cons c cs =>
      rw [hs] at h
      exact h

theorem prefix_header {names : List String} (hne : names ≠ []) :
    line ("#fields" :: names) = "#fields\t".toList ++ line names := by
  obtain ⟨s, names, rfl⟩ := List.exists_cons_of_ne_nil hne
  rw [line_cons_cons]
  rfl

/-- What is split holds no break. -/
theorem unbroken_split {l : List Char} (h : Unbroken l) : ∀ s ∈ split l, Unbroken s.toList := by
  intro s hs
  obtain ⟨f, hf, rfl⟩ := List.mem_map.mp hs
  rw [String.toList_ofList]
  intro c hc
  have hpart := Joining.subset_intercalate (c := '\t') hf hc
  rw [List.intercalate_splitOn] at hpart
  exact h c hpart

/-! ### Rows that are read -/

variable {headless : List Row} {fields : List String} {ls : List (List Char)}

theorem parseLines_cons_header {l : List Char} (h : "#fields".toList <+: l)
    (rest : List (List Char)) :
    parseLines headless fields (l :: rest) = parseLines headless (split l).tail rest := by
  rw [parseLines, if_pos h]

/-- A line with cells is a row. -/
theorem parseLines_cons_row {l : List Char} (hfields : fields ≠ []) (h : ¬ Skipped l)
    (rest : List (List Char)) :
    parseLines headless fields (l :: rest) =
      fields.zip (split l) :: parseLines headless fields rest := by
  have hheader : ¬ "#fields".toList <+: l := by
    rintro ⟨post, rfl⟩
    exact h (Or.inl rfl)
  rw [parseLines, if_neg hheader, if_neg h, if_neg hfields]

/-- Nothing that is read holds a break. -/
theorem unbroken_parseLines (hheadless : ∀ r ∈ headless, r = []) (hfields : ∀ s ∈ fields, Unbroken s.toList)
    (hls : ∀ l ∈ ls, Unbroken l) :
    ∀ r ∈ parseLines headless fields ls, ∀ m ∈ r, Unbroken m.1.toList ∧ Unbroken m.2.toList := by
  induction ls generalizing fields with
  | nil => simp [parseLines]
  | cons l ls ih =>
    obtain ⟨hl, hls⟩ := List.forall_mem_cons.mp hls
    have hrest := ih hfields hls
    rw [parseLines]
    split
    · exact ih (fun s hs => unbroken_split hl s (List.mem_of_mem_tail hs)) hls
    · split
      · exact hrest
      · split
        · intro r hr
          rcases List.mem_append.mp hr with hr | hr
          · rw [hheadless r hr]
            simp
          · exact hrest r hr
        · intro r hr
          rcases List.mem_cons.mp hr with rfl | hr
          · intro m hm
            obtain ⟨hname, hcell⟩ := List.of_mem_zip hm
            exact ⟨hfields _ hname, unbroken_split hl _ hcell⟩
          · exact hrest r hr

/-- No row is read when all lines are skipped. -/
theorem parseLines_of_skipped (h : ∀ l ∈ ls, Skipped l) : parseLines headless fields ls = [] := by
  induction ls generalizing fields with
  | nil => rfl
  | cons l ls ih =>
    obtain ⟨hl, hls⟩ := List.forall_mem_cons.mp h
    rw [parseLines]
    split
    · exact ih hls
    · exact ih hls

/-- The enrichment reads a row for every line that is not skipped. -/
theorem skipped_of_parseLines (h : parseLines [[]] fields ls = []) : ∀ l ∈ ls, Skipped l := by
  induction ls generalizing fields with
  | nil => simp
  | cons l ls ih =>
    rw [parseLines] at h
    split at h
    · next hheader =>
      obtain ⟨post, rfl⟩ := hheader
      exact List.forall_mem_cons.mpr ⟨Or.inl rfl, ih h⟩
    · split at h
      · next hskip => exact List.forall_mem_cons.mpr ⟨hskip, ih h⟩
      · split at h <;> cases h

/-! ### Tables that are read back -/

variable {t : Table}

theorem not_skipped {row : List String} (hrow : row ∈ t.rows) : ¬ Skipped (line row) := by
  rintro (h | h)
  · cases row with
    | nil => cases h
    | cons s row => exact t.no_hash _ hrow s rfl (head?_line h)
  · exact t.no_blank row hrow h

theorem row_ne {row : List String} (hrow : row ∈ t.rows) : row ≠ [] := by
  rintro rfl
  exact t.names_ne (List.length_eq_zero_iff.mp (t.width [] hrow).symm)

/-- The names of the header are the fields. -/
theorem split_header (t : Table) : (split (line ("#fields" :: t.names))).tail = t.names := by
  rw [split_line (by simp) (List.forall_mem_cons.mpr ⟨by decide, t.plain_names⟩)]
  rfl

/-- **The rows** of a log that nothing breaks. -/
theorem parseLines_table (h : t.Clean) :
    parseLines headless [] (splitlines t.text) = t.dicts := by
  have hlines : ∀ l ∈ line ("#fields" :: t.names) :: t.rows.map line, Unbroken l := by
    rw [List.forall_mem_cons, List.forall_mem_map]
    refine ⟨unbroken_line (List.forall_mem_cons.mpr ⟨by simp [Unbroken, isLineBreak], h.names⟩), ?_⟩
    exact fun row hrow => unbroken_line (h.cells row hrow)
  have hheader : "#fields".toList <+: line ("#fields" :: t.names) :=
    ⟨'\t' :: line t.names, by rw [prefix_header t.names_ne]; rfl⟩
  rw [Table.text, splitlines_unlines hlines, parseLines_cons_header hheader, split_header,
    Table.dicts]
  -- one row for every line
  have hrows : ∀ rows ⊆ t.rows,
      parseLines headless t.names (rows.map line) = rows.map t.names.zip := by
    intro rows
    induction rows with
    | nil => exact fun _ => rfl
    | cons row rows ih =>
      intro hsub
      obtain ⟨hrow, hrest⟩ := List.cons_subset.mp hsub
      rw [List.map_cons, parseLines_cons_row t.names_ne (not_skipped hrow), ih hrest,
        split_line (row_ne hrow) (t.plain_cells row hrow)]
      rfl
  exact hrows t.rows (List.Subset.refl _)

theorem isRow_zip (h : t.Clean) {row : List String} (hrow : row ∈ t.rows) :
    IsRow t.names row (t.names.zip row) where
  cells := by
    intro m hm
    have hfind : ((t.names.zip row).reverse.find? fun m' => m'.1 = m.1).isSome := by
      rw [List.find?_isSome]
      exact ⟨m, List.mem_reverse.mpr hm, by simp⟩
    obtain ⟨m', hm'⟩ := Option.isSome_iff_exists.mp hfind
    have hname : m'.1 = m.1 := by simpa using List.find?_some hm'
    have hmem := List.mem_reverse.mp (List.mem_of_find?_eq_some hm')
    rw [Row.get?, hm', Option.map_some, h.same row hrow m' hmem m hm hname]
  names m hm := (List.of_mem_zip hm).1

theorem forall₂_dicts (h : t.Clean) : List.Forall₂ (IsRow t.names) t.rows t.dicts := by
  rw [Table.dicts, List.forall₂_map_right_iff, List.forall₂_same]
  exact fun row hrow => isRow_zip h hrow

theorem unforged_of_parse (hzeek : parseZeekTsv t.text = t.dicts)
    (hrows : List.Forall₂ (IsRow t.names) t.rows t.dicts)
    (hnotice : parseNoticeTsv t.text = t.dicts) : Unforged t where
  zeek := hzeek ▸ hrows
  notice := hnotice ▸ hrows
  summaries lower log := by rw [Log.summarize, hzeek]
  iocs lower log := by rw [Log.summarize, hzeek]

theorem unforged_of_clean (h : t.Clean) : Unforged t :=
  unforged_of_parse (parseLines_table h) (forall₂_dicts h) (parseLines_table h)

/-! ### Tables that are not -/

/-- What is read holds no break, so neither does what it says. -/
theorem clean_of_unforged (h : Unforged t) (hne : t.rows ≠ []) : t.Clean := by
  have hfree : ∀ r ∈ parseZeekTsv t.text, ∀ m ∈ r, Unbroken m.1.toList ∧ Unbroken m.2.toList :=
    unbroken_parseLines (by simp) (by simp) fun l hl => unbroken_of_mem hl
  have hrow : ∀ row ∈ t.rows, ∃ r ∈ parseZeekTsv t.text, IsRow t.names row r := by
    intro row hrow
    obtain ⟨i, hi, rfl⟩ := List.mem_iff_getElem.mp hrow
    have hi' : i < (parseZeekTsv t.text).length := h.zeek.length_eq ▸ hi
    exact ⟨_, List.getElem_mem hi', h.zeek.get hi hi'⟩
  have hpair : ∀ row ∈ t.rows, ∀ m ∈ t.names.zip row,
      Unbroken m.1.toList ∧ Unbroken m.2.toList := by
    intro row hmem m hm
    obtain ⟨r, hr, hisRow⟩ := hrow row hmem
    obtain ⟨m', hfind, hm'⟩ := Option.map_eq_some_iff.mp (hisRow.cells m hm)
    have hname : m'.1 = m.1 := by simpa using List.find?_some hfind
    have hm'r := List.mem_reverse.mp (List.mem_of_find?_eq_some hfind)
    rw [← hname, ← hm']
    exact hfree r hr m' hm'r
  refine ⟨?_, ?_, ?_⟩
  · intro s hs
    obtain ⟨row, hmem⟩ := List.exists_mem_of_ne_nil _ hne
    obtain ⟨i, hi, rfl⟩ := List.mem_iff_getElem.mp hs
    have hi' : i < row.length := by rw [t.width row hmem]; exact hi
    exact (hpair row hmem (t.names[i], row[i]) (List.mem_iff_getElem.mpr
      ⟨i, by simp [hi, hi'], by simp⟩)).1
  · intro row hmem s hs
    obtain ⟨i, hi, rfl⟩ := List.mem_iff_getElem.mp hs
    have hi' : i < t.names.length := by rw [← t.width row hmem]; exact hi
    exact (hpair row hmem (t.names[i], row[i]) (List.mem_iff_getElem.mpr
      ⟨i, by simp [hi, hi'], by simp⟩)).2
  · intro row hmem m hm m' hm' hname
    obtain ⟨r, -, hisRow⟩ := hrow row hmem
    have hcell := hisRow.cells m hm
    rw [hname, hisRow.cells m' hm'] at hcell
    exact (Option.some.inj hcell).symm

/-- What is read of a table without rows. -/
theorem splitlines_empty (h : t.rows = []) :
    splitlines t.text =
      ("#fields\t".toList ++ (splitlines (line t.names ++ ['\n'])).head?.getD []) ::
        (splitlines (line t.names ++ ['\n'])).tail := by
  have htext : t.text = "#fields\t".toList ++ (line t.names ++ ['\n']) := by
    rw [Table.text, h, List.map_nil, unlines_cons, prefix_header t.names_ne, List.append_assoc]
    rfl
  rw [htext, splitlines_append (by simp [Unbroken, isLineBreak]) (by simp)]

theorem parseLines_empty (h : t.rows = []) : ∃ fields, parseLines headless [] (splitlines t.text) =
    parseLines headless fields (splitlines (line t.names ++ ['\n'])).tail := by
  rw [splitlines_empty h]
  exact ⟨_, parseLines_cons_header ⟨'\t' :: _, rfl⟩ _⟩

theorem unforged_of_quiet (h : t.Quiet) : Unforged t := by
  have hparse (headless : List Row) : parseLines headless [] (splitlines t.text) = t.dicts := by
    obtain ⟨fields, hfields⟩ := @parseLines_empty headless _ h.1
    rw [hfields, parseLines_of_skipped h.2, Table.dicts, h.1]
    rfl
  refine unforged_of_parse (hparse _) ?_ (hparse _)
  rw [Table.dicts, h.1]
  exact List.Forall₂.nil

/-- **A table** is read back exactly when its names and cells hold no character
    at which `splitlines` breaks, or it has no rows and what follows the first
    break of its names is skipped. -/
theorem unforged_iff (t : Table) : Unforged t ↔ t.Clean ∨ t.Quiet := by
  constructor
  · intro h
    by_cases hrows : t.rows = []
    · refine Or.inr ⟨hrows, ?_⟩
      have hzeek := h.zeek
      rw [hrows, List.forall₂_nil_left_iff] at hzeek
      obtain ⟨fields, hfields⟩ := @parseLines_empty [[]] _ hrows
      exact skipped_of_parseLines (hfields.symm.trans hzeek)
    · exact Or.inl (clean_of_unforged h hrows)
  · rintro (h | h)
    · exact unforged_of_clean h
    · exact unforged_of_quiet h

/-- One connection, whose server name holds a form feed. -/
def sampleTable : Table where
  names := ["service", "server_name"]
  rows := [["tls", "a\x0cb"]]
  names_ne := by decide
  width := by decide
  plain_names := by decide
  plain_cells := by decide
  no_hash := by decide
  no_blank := by decide

/-- The name that a peer chose becomes a second connection. -/
theorem formFeed_forges_row : ¬ Unforged sampleTable := by
  intro h
  have hlength := h.zeek.length_eq
  revert hlength
  decide +kernel

end ZeekLogs
