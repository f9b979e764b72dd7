/-
# Bundles

A bundle is an archive with one export for each session of a request. The name of an entry is
made from the pattern of the request, made safe as a file name, given the extension of the
format and made unique in the bundle. All entries are in one folder.

Whatever a request has for names and patterns, no entry of the archive leaves the folder, and
no two entries are the same.
-/

import TraceMux.Base.UniqueName
import TraceMux.Core.SessionName
import TraceMux.Server.StoredZip

namespace TraceMux.Server.Bundle

open Base TraceMux.Core Core.SessionName Server.ExportApi
  TraceMux.Server.StoredZip List

/-- The pattern in force without one. -/
def defaultPattern : Text :=
  "tracemux-".toList ++ placeholder "sid" ++ ['.'] ++ placeholder "ext"

/-- The placeholders in the order in which they are replaced, with their values. -/
def substitutions (sid source timestamp : Text) (format : ExportFormat) : List (String × Text) :=
  [("sid", sid), ("source", source), ("timestamp", timestamp), ("format", format.label.toList),
    ("ext", format.extension.toList)]

def renderBundleEntryFilename (pattern : Option String) (sid : Uuid) (sourceName : Option String)
    (format : ExportFormat) (timestampMs : ℕ) : Text :=
  let source := (nonBlank sourceName).getD "source".toList
  let template := (nonBlank pattern).getD defaultPattern
  let rendered := substitute
    (substitutions sid.hyphenated source (timestampToken timestampMs) format) template
  withExtension format (sanitizeFilename rendered)

/-- One above the largest number behind a name. -/
def numberLimit : ℕ := 10000

def uniqueZipEntryName (name : Text) (used : List Text) :
    Except ExportApiError (Text × List Text) :=
  match UniqueName.unique numberLimit used (StoredZipWriter.withSlashes name) with
  | some free => .ok (free, free :: used)
  | none => .error ⟨.badRequest, "E-1001", "too many duplicate export filenames"⟩

/-- What the disk does while a bundle is written. -/
structure Disk where
  /-- Why the archive cannot be created, if it cannot. -/
  opening : Option String
  faults : Faults
  /-- What is read from the file of a job, once for the checksum and once to be copied, if so
  many jobs came before it and the exporter wrote these bytes. -/
  reading : ℕ → Bytes → Opened × Opened

section Writing

variable (disk : Disk) (world : World) (format : ExportFormat) (timezone : Option String)
  (filenamePattern : Option String) (timestampMs : ℕ)

def appendJob (state : StoredZipWriter × List Text) (job : BundleExportJob) :
    Except ExportApiError (StoredZipWriter × List Text) := do
  let body ← (exportOne world format job.sessionDir timezone job.encoding).mapError exporterError
  let filename :=
    renderBundleEntryFilename filenamePattern job.sid job.sourceName format timestampMs
  let (entryName, used) ← uniqueZipEntryName filename state.2
  let (checking, copying) := disk.reading state.2.length body
  let zip ← state.1.appendFileFromPath disk.faults
    (bundleBaseName format timestampMs ++ '/' :: entryName) checking copying
  return (zip, used)

def createBundleZip (jobs : List BundleExportJob) : Except ExportApiError Bytes := do
  let zip ← StoredZipWriter.create disk.opening
  let (zip, _) ← jobs.foldlM
    (appendJob disk world format timezone filenamePattern timestampMs) (zip, [])
  zip.finish disk.faults

end Writing

/-- What a request finds outside, with bundles written to a disk. -/
def bundling (world : World) (disk : Disk) : World :=
  { world with
    createBundleZip := fun jobs format timezone filenamePattern timestampMs =>
      createBundleZip disk world format timezone filenamePattern timestampMs jobs }

def isControl (c : Char) : Bool := c.toNat < 32 || (127 ≤ c.toNat && c.toNat < 160)

/-- A component of a path that names something inside the directory it is in. -/
structure SafeComponent (component : Text) : Prop where
  ne_nil : component ≠ []
  ne_dot : component ≠ ['.']
  ne_dots : component ≠ ['.', '.']
  chars : ∀ c ∈ component, c ≠ '/' ∧ c ≠ '\\' ∧ isControl c = false

def Valid (s : Text) : Prop := ∀ c ∈ s, isInvalid c = false

variable {s name : Text} {c : Char}

theorem valid_of_all (h : (s.all fun c => !isInvalid c) = true) : Valid s := by
  intro c hc
  exact (Bool.not_eq_true' _).mp (all_eq_true.mp h c hc)

theorem Valid.append {t : Text} (hs : Valid s) (ht : Valid t) : Valid (s ++ t) :=
  forall_mem_append.mpr ⟨hs, ht⟩

theorem Valid.cons (hc : isInvalid c = false) (hs : Valid s) : Valid (c :: s) :=
  forall_mem_cons.mpr ⟨hc, hs⟩

theorem Valid.chars (hs : Valid s) : ∀ c ∈ s, c ≠ '/' ∧ c ≠ '\\' ∧ isControl c = false := by
  intro c hc
  have hvalid := hs c hc
  rw [isInvalid, Bool.or_assoc, Bool.or_eq_false_iff, decide_eq_false_iff_not] at hvalid
  refine ⟨?_, ?_, hvalid.2⟩
  · rintro rfl
    exact hvalid.1 (by decide)
  · rintro rfl
    exact hvalid.1 (by decide)

theorem withSlashes_eq_self (h : '\\' ∉ name) : StoredZipWriter.withSlashes name = name := by
  have hkeep : ∀ c ∈ name, (if c = '\\' then '/' else c) = c := by
    intro c hc
    refine if_neg ?_
    rintro rfl
    exact h hc
  exact (map_congr_left hkeep).trans (map_id name)

theorem Valid.backslash_not_mem (hs : Valid s) : '\\' ∉ s :=
  fun hmem => (hs.chars _ hmem).2.1 rfl

theorem valid_sanitizeFrom (s : Text) (previousSpace : Bool) :
    Valid (sanitizeFrom previousSpace s) := by
  induction s generalizing previousSpace with
  | nil => exact nofun
  | cons c s ih =>
    rw [sanitizeFrom]
    split
    · exact .cons (by decide) (ih false)
    · next hvalid =>
      split
      · split
        · exact ih true
        · exact .cons (by decide) (ih true)
      · exact .cons (Bool.eq_false_of_not_eq_true hvalid) (ih false)

theorem mem_of_mem_trim (h : c ∈ Text.trim s) : c ∈ s :=
  (dropWhile_suffix _).subset ((List.rdropWhile_prefix _ _).subset h)

theorem sanitizeFilename_spec (value : Text) :
    Valid (sanitizeFilename value) ∧ sanitizeFilename value ≠ [] ∧
      (sanitizeFilename value).getLast? ≠ some '.' := by
  unfold sanitizeFilename
  dsimp only
  split
  · exact ⟨valid_of_all (by decide), by decide, by decide⟩
  · next hne =>
    have hne' : (Text.trim (sanitizeFrom false value)).rdropWhile (· = '.') ≠ [] := fun hnil =>
      hne (isEmpty_iff.mpr hnil)
    refine ⟨?_, hne', ?_⟩
    · intro c hc
      exact valid_sanitizeFrom value false c
        (mem_of_mem_trim ((List.rdropWhile_prefix _ _).subset hc))
    · intro hlast
      have hdot := rdropWhile_last_not _ _ hne'
      rw [getLast?_eq_some_getLast hne', Option.some.injEq] at hlast
      exact hdot (decide_eq_true hlast)

/-- A name with an extension is safe too, and longer than the two names of directories. -/
structure EntryName (name : Text) : Prop where
  valid : Valid name
  long : 2 < name.length

theorem EntryName.safeComponent (h : EntryName name) : SafeComponent name where
  ne_nil := by
    rintro rfl
    exact absurd h.long (by decide)
  ne_dot := by
    rintro rfl
    exact absurd h.long (by decide)
  ne_dots := by
    rintro rfl
    exact absurd h.long (by decide)
  chars := h.valid.chars

variable (format : ExportFormat) (timestampMs : ℕ)

theorem entryName_withExtension {filename : Text} (h : Valid filename) :
    EntryName (withExtension format filename) := by
  have hext : Valid ('.' :: format.extension.toList) := by
    cases format <;> exact valid_of_all (by decide)
  have hlong : 2 < ('.' :: format.extension.toList).length := by
    cases format <;> decide
  unfold withExtension
  dsimp only
  split
  · next hends =>
    have hle := (isSuffixOf_iff_suffix.mp hends).length_le
    rw [toAsciiLowercase, length_map] at hle
    exact ⟨h, Nat.lt_of_lt_of_le hlong hle⟩
  · refine ⟨h.append hext, ?_⟩
    rw [length_append]
    exact Nat.lt_add_left _ hlong

theorem isInvalid_of_isAlphanum (h : c.isAlphanum = true) : isInvalid c = false := by
  have hmem : c ∉ ['<', '>', ':', '"', '/', '\\', '|', '?', '*'] := by
    intro hmem
    have hnone : (['<', '>', ':', '"', '/', '\\', '|', '?', '*'].all fun c =>
        !c.isAlphanum) = true := by decide
    have hother := all_eq_true.mp hnone c hmem
    rw [h] at hother
    cases hother
  have hcode := Text.toNat_of_isAlphanum h
  rw [isInvalid, decide_eq_false hmem, decide_eq_false (by omega),
    Bool.and_eq_false_iff.mpr (.inl (decide_eq_false (by omega)))]
  rfl

theorem EntryName.numbered (h : EntryName name) (index : ℕ) :
    EntryName (UniqueName.numbered name index) := by
  have hsplit := UniqueName.splitName_append name
  have hparts : Valid ((UniqueName.splitName name).1 ++ (UniqueName.splitName name).2) := by
    rw [hsplit]
    exact h.valid
  obtain ⟨hstem, hext⟩ := forall_mem_append.mp hparts
  have hdigits : Valid (Text.ofNat index) := by
    intro c hc
    have hdigit := Text.isDigit_of_mem_ofNat hc
    exact isInvalid_of_isAlphanum (by rw [Char.isAlphanum, hdigit, Bool.or_true])
  refine ⟨Valid.append hstem (.cons (by decide) (Valid.append hdigits hext)), ?_⟩
  have hlength := congrArg length hsplit
  have hlong := h.long
  rw [length_append] at hlength
  rw [UniqueName.numbered, length_append, length_cons, length_append]
  omega

theorem entryName_render (pattern : Option String) (sid : Uuid) (sourceName : Option String)
    (format : ExportFormat) (timestampMs : ℕ) :
    EntryName (renderBundleEntryFilename pattern sid sourceName format timestampMs) :=
  entryName_withExtension format (sanitizeFilename_spec _).1

theorem valid_bundleBaseName : Valid (bundleBaseName format timestampMs) := by
  unfold bundleBaseName
  exact (sanitizeFilename_spec _).1

theorem safeComponent_bundleBaseName : SafeComponent (bundleBaseName format timestampMs) := by
  have hvalid := valid_bundleBaseName format timestampMs
  unfold bundleBaseName at hvalid ⊢
  obtain ⟨-, hne, hlast⟩ := sanitizeFilename_spec ("tracemux-all-".toList ++
    timestampToken timestampMs ++ '-' :: format.label.toList)
  refine ⟨hne, fun hdot => ?_, fun hdots => ?_, hvalid.chars⟩
  · rw [hdot] at hlast
    exact hlast rfl
  · rw [hdots] at hlast
    exact hlast rfl

section Entries

variable {disk : Disk} {world : World} {format} {timezone : Option String}
  {filenamePattern : Option String} {timestampMs}

variable {state state' : StoredZipWriter × List Text} {members : List Zip.Member}
  {jobs : List BundleExportJob}

theorem appendJob_eq_ok {job : BundleExportJob}
    (h : appendJob disk world format timezone filenamePattern timestampMs state job = .ok state')
    (hzip : state.1.Holds members) :
    ∃ free member, UniqueName.unique numberLimit state.2 (renderBundleEntryFilename
        filenamePattern job.sid job.sourceName format timestampMs) = some free ∧
      member.name = bundleBaseName format timestampMs ++ '/' :: free ∧
      state'.1.Holds (members ++ [member]) ∧ state'.2 = free :: state.2 := by
  unfold appendJob at h
  obtain ⟨body, -, h⟩ := exists_of_bind_eq_ok h
  obtain ⟨⟨free, used⟩, hfree, h⟩ := exists_of_bind_eq_ok h
  obtain ⟨zip, happend, h⟩ := exists_of_bind_eq_ok h
  cases h
  have hentry := entryName_render filenamePattern job.sid job.sourceName format timestampMs
  have hunique : UniqueName.unique numberLimit state.2 (renderBundleEntryFilename
      filenamePattern job.sid job.sourceName format timestampMs) = some free ∧
        used = free :: state.2 := by
    unfold uniqueZipEntryName at hfree
    rw [withSlashes_eq_self hentry.valid.backslash_not_mem] at hfree
    split at hfree
    · next hfound =>
      cases hfree
      exact ⟨hfound, rfl⟩
    · cases hfree
  have hname : '\\' ∉ bundleBaseName format timestampMs ++ '/' :: free := by
    have hvalid : Valid free := by
      obtain ⟨-, rfl | ⟨index, rfl⟩⟩ := UniqueName.unique_eq_some hunique.1
      · exact hentry.valid
      · exact (hentry.numbered index).valid
    rw [mem_append, mem_cons, not_or, not_or]
    exact ⟨(valid_bundleBaseName format timestampMs).backslash_not_mem, by decide,
      hvalid.backslash_not_mem⟩
  obtain ⟨checked, hchecked⟩ := exists_reads (disk.reading state.2.length body).1
  obtain ⟨copied, hcopied⟩ := exists_reads (disk.reading state.2.length body).2
  refine ⟨free, _, hunique.1, ?_, hzip.append hchecked hcopied happend, hunique.2⟩
  exact withSlashes_eq_self hname

/-- Jobs give their entries names one after the other. -/
theorem foldlM_appendJob_eq_ok
    (h : jobs.foldlM (appendJob disk world format timezone filenamePattern timestampMs) state =
      .ok state') (hzip : state.1.Holds members) :
    ∃ given later, UniqueName.assign numberLimit state.2 (jobs.map fun job =>
        renderBundleEntryFilename filenamePattern job.sid job.sourceName format timestampMs) =
          some given ∧
      later.map Zip.Member.name =
        given.map (fun name => bundleBaseName format timestampMs ++ '/' :: name) ∧
      state'.1.Holds (members ++ later) := by
  induction jobs generalizing state members with
  | nil =>
    cases h
    refine ⟨[], [], rfl, rfl, ?_⟩
    rw [append_nil]
    exact hzip
  | cons job jobs ih =>
    obtain ⟨mid, hfirst, hrest⟩ := exists_of_bind_eq_ok h
    obtain ⟨free, member, hfree, hname, hmid, hused⟩ := appendJob_eq_ok hfirst hzip
    obtain ⟨given, later, hgiven, hnames, hend⟩ := ih hrest hmid
    refine ⟨free :: given, member :: later, ?_, ?_, ?_⟩
    · rw [map_cons, UniqueName.assign, hfree, Option.bind_some, ← hused, hgiven]
      rfl
    · rw [map_cons, map_cons, hname, hnames]
    · rw [append_assoc] at hend
      exact hend

end Entries

variable {lib : Libraries} {state : ExportRouteState} {world : World} {disk : Disk}

theorem exportBundle_eq_ok {request : ExportBundleTicketRequest} {artifact : ExportArtifact}
    (h : exportBundle lib state (bundling world disk) request = .ok artifact) :
    ∃ format jobs given, ExportFormat.parse request.format = .ok format ∧
      List.Forall₂ (fun entry job => bundleJob lib state world entry = .ok job)
        request.entries jobs ∧
      UniqueName.assign numberLimit [] (jobs.map fun job =>
        renderBundleEntryFilename request.filenamePattern job.sid job.sourceName format
          (request.timestampMs.getD (systemTimeMs world.systemTime))) = some given ∧
      Zip.readNames artifact.body = some (given.map fun name => bundleBaseName format
        (request.timestampMs.getD (systemTimeMs world.systemTime)) ++ '/' :: name) := by
  unfold exportBundle at h
  obtain ⟨-, -, h⟩ := exists_of_bind_eq_ok h
  obtain ⟨format, hformat, h⟩ := exists_of_bind_eq_ok h
  obtain ⟨jobs, hjobs, h⟩ := exists_of_bind_eq_ok h
  obtain ⟨body, hbody, h⟩ := exists_of_bind_eq_ok h
  obtain rfl := Except.ok.inj h
  have hzip := artifactBody_eq_ok hbody
  obtain ⟨zip, hcreate, hzip⟩ := exists_of_bind_eq_ok hzip
  obtain ⟨state, happended, hzip⟩ := exists_of_bind_eq_ok hzip
  obtain ⟨given, later, hgiven, hnames, hend⟩ :=
    foldlM_appendJob_eq_ok happended (StoredZipWriter.holds_create hcreate)
  rw [nil_append] at hend
  obtain ⟨hbody, hfits⟩ := hend.finish hzip
  refine ⟨format, jobs, given, hformat, forall₂_of_mapM_eq_ok hjobs, hgiven, ?_⟩
  show Zip.readNames body = _
  rw [hbody, Zip.readNames_archive hfits, hnames]
  rfl

/-- The entries of a bundle are distinct, one for each session, and each is a safe file name in
a folder with a safe name. -/
theorem exportBundle_safe {request : ExportBundleTicketRequest} {artifact : ExportArtifact}
    (h : exportBundle lib state (bundling world disk) request = .ok artifact) :
    ∃ names, Zip.readNames artifact.body = some names ∧
      names.length = request.entries.length ∧ names.Nodup ∧
      ∀ name ∈ names, ∃ folder file, name = folder ++ '/' :: file ∧
        SafeComponent folder ∧ SafeComponent file := by
  obtain ⟨format, jobs, given, -, hjobs, hgiven, hnames⟩ := exportBundle_eq_ok h
  refine ⟨_, hnames, ?_, ?_, ?_⟩
  · rw [length_map, UniqueName.length_of_assign hgiven, length_map, hjobs.length_eq]
  · refine (UniqueName.nodup_of_assign hgiven).1.map ?_
    intro name name' heq
    exact cons_injective (append_cancel_left heq)
  · have hentries : ∀ file ∈ given, EntryName file := by
      refine UniqueName.forall_of_assign (fun file index hfile => hfile.numbered index) ?_ hgiven
      intro asked hasked
      obtain ⟨job, -, rfl⟩ := mem_map.mp hasked
      exact entryName_render _ job.sid job.sourceName format _
    intro name hname
    obtain ⟨file, hfile, rfl⟩ := mem_map.mp hname
    exact ⟨_, file, rfl, safeComponent_bundleBaseName format _, (hentries file hfile).safeComponent⟩

def oneByte : World where
  sessionDirForSid _ := some "/sessions/a"
  sessionRoot := none
  pathExists _ := true
  canonicalize path := .ok path
  isFile _ := true
  exportRows _ _ _ _ := .ok [97]
  exportPackets _ _ := .ok []
  createBundleZip _ _ _ _ _ := .ok []
  systemTime := 0

def soundDisk : Disk where
  opening := none
  faults _ := none
  reading _ body := (.ok [.ok body], .ok [.ok body])

/-- A bundle of one session twice, under a name that would lead out of the folder. -/
theorem exportBundle_safe_twice :
    ∃ artifact, exportBundle ⟨⟨fun _ => none, fun _ _ => false⟩, fun _ => .ok 0⟩ {}
        (bundling oneByte soundDisk)
        { entries := [⟨"a", none, none⟩, ⟨"a", none, none⟩], filenamePattern := some "../x" } =
          .ok artifact ∧
      ∃ names, Zip.readNames artifact.body = some names ∧ names.length = 2 ∧ names.Nodup ∧
        ∀ name ∈ names, ∃ folder file, name = folder ++ '/' :: file ∧
          SafeComponent folder ∧ SafeComponent file := by
  have hbundle : exportBundle ⟨⟨fun _ => none, fun _ _ => false⟩, fun _ => .ok 0⟩ {}
      (bundling oneByte soundDisk)
      { entries := [⟨"a", none, none⟩, ⟨"a", none, none⟩], filenamePattern := some "../x" } =
        .ok _ := rfl
  exact ⟨_, hbundle, exportBundle_safe hbundle⟩

end TraceMux.Server.Bundle
