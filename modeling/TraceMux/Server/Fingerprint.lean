/-
# The store of pinned certificates

A client pins the fingerprint of a server's certificate when it first meets the server, and
from then on accepts this fingerprint only, until another is forced on it. The pins are kept in
memory and saved to a file as a whole whenever one changes.

A pin goes into memory before the file is written, and stays there when the write fails. Such a
pin is lost when the store is opened again, although it may have been accepted in between. We
follow the store through calls, failing writes and reopening, with a record of what it
answered, and say exactly which runs keep the promise of a pin store.

The file is written in place: a write that fails half way leaves the beginning of the new
content. What is left of a JSON object without its end cannot be read.
-/

import TraceMux.Base.Transition
import TraceMux.Core.ErrorId
import TraceMux.Server.PinFile

namespace TraceMux.Server.Fingerprint

open Base Base.Transition TraceMux.Core List

inductive FingerprintError
  | io (path source : String)
  | json (reason : String)
  | schema (got : String)
  | mismatch (host pinned got : String)
  deriving DecidableEq, Repr

def fingerprintDer (sha256 : Bytes → Bytes) (certDer : Bytes) : String :=
  String.ofList ("sha256:".toList ++
    (sha256 certDer).flatMap fun b => Text.hexDigits 2 b.toNat)

/-- Where a store is kept. -/
structure Place where
  path : String
  /-- The directory of the file, unless it is the current one. -/
  parent : Option String
  deriving DecidableEq, Repr

/-- Ways in which writing the file fails, with what the system says. -/
inductive SaveFault
  | parent (source : String)
  | create (source : String)
  /-- The content is cut: at most so many bytes are written, and never all. -/
  | write (count : ℕ) (source : String)
  deriving DecidableEq, Repr

/-- Whether a save fails. Without a directory to make, making it does not fail. -/
def Place.fails (place : Place) : Option SaveFault → Bool
  | none => false
  | some (.parent _) => place.parent.isSome
  | some (.create _) => true
  | some (.write _ _) => true

def save (codec : PinCodec) (place : Place) (fault : Option SaveFault) (file : PinFile)
    (disk : Option Bytes) : Except FingerprintError Unit × Option Bytes :=
  let bytes := codec.toVecPretty file
  match fault, place.parent with
  | some (.parent source), some parent => (.error (.io parent source), disk)
  | some (.create source), _ => (.error (.io place.path source), disk)
  | some (.write count source), _ =>
    (.error (.io place.path source), some (bytes.take (min count (bytes.length - 1))))
  | _, _ => (.ok (), some bytes)

/-- Open a store; `readError` is why the file cannot be read, if it cannot. -/
def openStore (codec : PinCodec) (place : Place) (readError : Option String)
    (disk : Option Bytes) : Except FingerprintError PinFile :=
  match disk with
  | none => .ok .empty
  | some bytes =>
    match readError with
    | some source => .error (.io place.path source)
    | none =>
      match codec.fromSlice bytes with
      | .error reason => .error (.json reason)
      | .ok file => if file.schema = schema then .ok file else .error (.schema file.schema)

inductive PinOutcome
  | pinned
  | matched
  deriving DecidableEq, Repr

/-- Pin a fingerprint in memory. -/
def PinFile.insert (file : PinFile) (host fp : String) : PinFile :=
  { file with pins := file.pins.insert host fp }

/-- Verify a certificate, or trust it when it is the first of its host: the outcome, the pins
in memory and the file. -/
def verifyOrPin (codec : PinCodec) (sha256 : Bytes → Bytes) (place : Place)
    (fault : Option SaveFault) (host : String) (certDer : Bytes) (file : PinFile)
    (disk : Option Bytes) : Except FingerprintError PinOutcome × PinFile × Option Bytes :=
  let fp := fingerprintDer sha256 certDer
  match file.pins[host]? with
  | some pinned =>
    if pinned = fp then (.ok .matched, file, disk)
    else (.error (.mismatch host pinned fp), file, disk)
  | none =>
    let saved := save codec place fault (file.insert host fp) disk
    (saved.1.map fun _ => .pinned, file.insert host fp, saved.2)

def forcePin (codec : PinCodec) (place : Place) (fault : Option SaveFault) (host fp : String)
    (file : PinFile) (disk : Option Bytes) :
    Except FingerprintError Unit × PinFile × Option Bytes :=
  let saved := save codec place fault (file.insert host fp) disk
  (saved.1, file.insert host fp, saved.2)

inductive Call
  /-- A certificate was accepted, as pinned or as matched. -/
  | accepted (host fp : String)
  | forced (host : String)
  /-- The call returned an error; the pins in memory before and after. -/
  | failed (before after : PinFile)

/-- A file of pins, perhaps opened, with the calls so far. -/
structure Client where
  disk : Option Bytes
  store : Option PinFile
  calls : List Call

def Client.new (disk : Option Bytes) : Client := ⟨disk, none, []⟩

/-- What a client does. -/
inductive Action
  | open (readError : Option String)
  | close
  | verifyOrPin (host : String) (certDer : Bytes) (fault : Option SaveFault)
  | forcePin (host fp : String) (fault : Option SaveFault)
  deriving DecidableEq, Repr

def step (codec : PinCodec) (sha256 : Bytes → Bytes) (place : Place) (c : Client) :
    Action → Option Client
  | .open readError =>
    match c.store with
    | some _ => none
    | none =>
      match openStore codec place readError c.disk with
      | .ok file => some { c with store := some file }
      | .error _ => some c
  | .close =>
    match c.store with
    | none => none
    | some _ => some { c with store := none }
  | .verifyOrPin host certDer fault =>
    match c.store with
    | none => none
    | some file =>
      match verifyOrPin codec sha256 place fault host certDer file c.disk with
      | (.ok _, file', disk) =>
        some ⟨disk, some file', c.calls ++ [.accepted host (fingerprintDer sha256 certDer)]⟩
      | (.error _, file', disk) => some ⟨disk, some file', c.calls ++ [.failed file file']⟩
  | .forcePin host fp fault =>
    match c.store with
    | none => none
    | some file =>
      match forcePin codec place fault host fp file c.disk with
      | (.ok _, file', disk) => some ⟨disk, some file', c.calls ++ [.forced host]⟩
      | (.error _, file', disk) => some ⟨disk, some file', c.calls ++ [.failed file file']⟩

/-- The fingerprints a store accepts for a host: the pinned one, or any before the first. -/
def PinFile.accepts (file : PinFile) (host fp : String) : Bool :=
  match file.pins[host]? with
  | none => true
  | some pinned => pinned = fp

/-- A fingerprint was accepted for a host, and none has been forced since. -/
def Promised (calls : List Call) (host fp : String) : Prop :=
  ∃ before after, calls = before ++ .accepted host fp :: after ∧ .forced host ∉ after

/-- The answers of a store that keeps its promises. -/
structure Trusted (calls : List Call) : Prop where
  /-- After a fingerprint was accepted for a host, no other is until one is forced. -/
  consistent : ∀ before after host fp fp', calls = before ++ .accepted host fp' :: after →
    Promised before host fp → fp' = fp
  /-- A call that returns an error changes nothing in what is accepted. -/
  harmless : ∀ before after, .failed before after ∈ calls →
    ∀ host fp, after.accepts host fp = before.accepts host fp

def SavesNewPins (place : Place) (c : Client) : Action → Prop
  | .verifyOrPin host _ fault =>
    ∀ file, c.store = some file → file.pins[host]? = none → place.fails fault = false
  | .forcePin host fp fault =>
    ∀ file, c.store = some file → file.pins[host]? ≠ some fp → place.fails fault = false
  | _ => True

instance (place : Place) (c : Client) : (a : Action) → Decidable (SavesNewPins place c a)
  | .verifyOrPin host _ fault =>
    inferInstanceAs (Decidable (∀ file ∈ c.store,
      file.pins[host]? = none → place.fails fault = false))
  | .forcePin host fp fault =>
    inferInstanceAs (Decidable (∀ file ∈ c.store,
      file.pins[host]? ≠ some fp → place.fails fault = false))
  | .open _ => .isTrue trivial
  | .close => .isTrue trivial

variable {calls : List Call} {host : String} {call : Call} {fp : String} {a : Action}

/-- A call among those so far and one more is the last, or one of those so far. -/
theorem split_concat {before after : List Call} {other : Call}
    (h : calls ++ [call] = before ++ other :: after) :
    (calls = before ∧ call = other) ∨
      ∃ init, after = init ++ [call] ∧ calls = before ++ other :: init := by
  rcases eq_nil_or_concat after with rfl | ⟨init, last, rfl⟩
  · obtain ⟨rfl, hlast⟩ := append_inj' h rfl
    exact .inl ⟨rfl, singleton_inj.mp hlast⟩
  · rw [concat_eq_append, ← cons_append, ← append_assoc] at h
    obtain ⟨rfl, hlast⟩ := append_inj' h rfl
    rw [concat_eq_append, singleton_inj.mp hlast]
    exact .inr ⟨init, rfl, rfl⟩

theorem promised_concat (h : Promised (calls ++ [call]) host fp) :
    call = .accepted host fp ∨ (Promised calls host fp ∧ call ≠ .forced host) := by
  obtain ⟨before, after, hcalls, hforced⟩ := h
  rcases split_concat hcalls with ⟨-, hlast⟩ | ⟨init, rfl, hinit⟩
  · exact .inl hlast
  · rw [mem_append, mem_singleton, not_or] at hforced
    exact .inr ⟨⟨before, init, hinit, hforced.1⟩, fun heq => hforced.2 heq.symm⟩

theorem trusted_nil : Trusted [] where
  consistent before after host fp fp' hcalls := by
    have := congrArg length hcalls
    simp at this
  harmless _ _ h := by cases h

theorem Trusted.concat (h : Trusted calls)
    (haccepted : ∀ host fp fp', call = .accepted host fp' → Promised calls host fp → fp' = fp)
    (hfailed : ∀ before after, call = .failed before after →
      ∀ host fp, after.accepts host fp = before.accepts host fp) : Trusted (calls ++ [call]) where
  consistent before after host fp fp' hcalls hpromised := by
    rcases split_concat hcalls with ⟨rfl, hlast⟩ | ⟨init, -, hinit⟩
    · exact haccepted host fp fp' hlast hpromised
    · exact h.consistent before init host fp fp' hinit hpromised
  harmless before after hmem := by
    rcases mem_append.mp hmem with hold | hnew
    · exact h.harmless before after hold
    · exact hfailed before after (mem_singleton.mp hnew).symm

section

variable {codec : PinCodec} {place : Place} {fault : Option SaveFault} {file : PinFile}
  {disk : Option Bytes}

theorem getElem?_insert (file : PinFile) (host fp other : String) :
    (file.insert host fp).pins[other]? =
      if host = other then some fp else file.pins[other]? := by
  show (file.pins.insert host fp)[other]? = _
  rw [Std.ExtTreeMap.getElem?_insert]
  simp only [Std.compare_eq_iff_eq]

theorem insert_of_getElem? (h : file.pins[host]? = some fp) : file.insert host fp = file := by
  have hpins : file.pins.insert host fp = file.pins := by
    apply Std.ExtTreeMap.ext_getElem?
    intro other
    have hget := getElem?_insert file host fp other
    split at hget
    · next heq =>
      subst heq
      exact hget.trans h.symm
    · exact hget
  rw [PinFile.insert, hpins]

theorem save_of_not_fails (h : place.fails fault = false) :
    save codec place fault file disk = (.ok (), some (codec.toVecPretty file)) := by
  cases fault with
  | none => rfl
  | some fault =>
    cases fault with
    | parent source =>
      have hparent : place.parent = none := by simpa [Place.fails] using h
      simp only [save, hparent]
    | create source => cases h
    | write count source => cases h

/-- A save that fails leaves the file alone, or a beginning of the new one. -/
theorem save_of_fails (codec : PinCodec) (file : PinFile) (disk : Option Bytes)
    (h : place.fails fault = true) :
    ∃ e disk', save codec place fault file disk = (.error e, disk') ∧
      (disk' = disk ∨ ∃ n, disk' = some ((codec.toVecPretty file).take n)) := by
  cases fault with
  | none => cases h
  | some fault =>
    cases fault with
    | parent source =>
      obtain ⟨parent, hparent⟩ := Option.isSome_iff_exists.mp h
      exact ⟨.io parent source, disk, by simp only [save, hparent], .inl rfl⟩
    | create source => exact ⟨.io place.path source, disk, rfl, .inl rfl⟩
    | write count source => exact ⟨.io place.path source, _, rfl, .inr ⟨_, rfl⟩⟩

end

inductive Stepped (codec : PinCodec) (sha256 : Bytes → Bytes) (place : Place) (c : Client) :
    Action → Client → Prop
  | opened {readError : Option String} {file : PinFile}
      (hopen : openStore codec place readError c.disk = .ok file) :
      Stepped codec sha256 place c (.open readError) { c with store := some file }
  | unopened (readError : Option String) : Stepped codec sha256 place c (.open readError) c
  | closed : Stepped codec sha256 place c .close { c with store := none }
  | matched {host : String} {certDer : Bytes} {fault : Option SaveFault} {file : PinFile}
      (hstore : c.store = some file)
      (hpin : file.pins[host]? = some (fingerprintDer sha256 certDer)) :
      Stepped codec sha256 place c (.verifyOrPin host certDer fault)
        ⟨c.disk, some file, c.calls ++ [.accepted host (fingerprintDer sha256 certDer)]⟩
  | mismatched {host : String} {certDer : Bytes} {fault : Option SaveFault} {file : PinFile}
      (hstore : c.store = some file) :
      Stepped codec sha256 place c (.verifyOrPin host certDer fault)
        ⟨c.disk, some file, c.calls ++ [.failed file file]⟩
  | pinned {host : String} {certDer : Bytes} {fault : Option SaveFault} {file : PinFile}
      (hstore : c.store = some file) (hpin : file.pins[host]? = none) :
      Stepped codec sha256 place c (.verifyOrPin host certDer fault)
        ⟨some (codec.toVecPretty (file.insert host (fingerprintDer sha256 certDer))),
          some (file.insert host (fingerprintDer sha256 certDer)),
          c.calls ++ [.accepted host (fingerprintDer sha256 certDer)]⟩
  | forced {host fp : String} {fault : Option SaveFault} {file : PinFile}
      (hstore : c.store = some file) :
      Stepped codec sha256 place c (.forcePin host fp fault)
        ⟨some (codec.toVecPretty (file.insert host fp)), some (file.insert host fp),
          c.calls ++ [.forced host]⟩
  | unsaved {a : Action} {host fp : String} {file : PinFile} {disk : Option Bytes}
      (hstore : c.store = some file)
      (ha : (∃ certDer fault, a = .verifyOrPin host certDer fault ∧
          fp = fingerprintDer sha256 certDer ∧ file.pins[host]? = none ∧
          place.fails fault = true) ∨
        ∃ fault, a = .forcePin host fp fault ∧ place.fails fault = true)
      (hdisk : disk = c.disk ∨
        ∃ n, disk = some ((codec.toVecPretty (file.insert host fp)).take n)) :
      Stepped codec sha256 place c a
        ⟨disk, some (file.insert host fp), c.calls ++ [.failed file (file.insert host fp)]⟩

variable {codec : PinCodec} {sha256 : Bytes → Bytes} {place : Place} {c c' : Client}

theorem stepped_of_step (h : step codec sha256 place c a = some c') :
    Stepped codec sha256 place c a c' := by
  cases a with
  | «open» readError =>
    simp only [step] at h
    split at h
    · cases h
    · split at h
      · next file hopen =>
        cases h
        exact .opened hopen
      · cases h
        exact .unopened readError
  | close =>
    simp only [step] at h
    split at h
    · cases h
    · cases h
      exact .closed
  | verifyOrPin host certDer fault =>
    simp only [step] at h
    split at h
    · cases h
    · next file hstore =>
      cases hpin : file.pins[host]? with
      | some pinned =>
        by_cases heq : pinned = fingerprintDer sha256 certDer
        · subst heq
          simp only [verifyOrPin, hpin, if_true] at h
          cases h
          exact .matched hstore hpin
        · simp only [verifyOrPin, hpin, if_neg heq] at h
          cases h
          exact .mismatched hstore
      | none =>
        cases hfails : place.fails fault with
        | false =>
          simp only [verifyOrPin, hpin, save_of_not_fails hfails, Except.map] at h
          cases h
          exact .pinned hstore hpin
        | true =>
          obtain ⟨e, disk, hsave, hdisk⟩ := save_of_fails codec
            (file.insert host (fingerprintDer sha256 certDer)) c.disk hfails
          simp only [verifyOrPin, hpin, hsave, Except.map] at h
          cases h
          exact .unsaved hstore (.inl ⟨certDer, fault, rfl, rfl, hpin, hfails⟩) hdisk
  | forcePin host fp fault =>
    simp only [step] at h
    split at h
    · cases h
    · next file hstore =>
      cases hfails : place.fails fault with
      | false =>
        simp only [forcePin, save_of_not_fails hfails] at h
        cases h
        exact .forced hstore
      | true =>
        obtain ⟨e, disk, hsave, hdisk⟩ := save_of_fails codec (file.insert host fp) c.disk hfails
        simp only [forcePin, hsave] at h
        cases h
        exact .unsaved hstore (.inr ⟨fault, rfl, hfails⟩) hdisk

variable {file : PinFile}

/-- The pins of the open store, or those that opening it would find. -/
def Client.Holds (codec : PinCodec) (place : Place) (c : Client) (file : PinFile) : Prop :=
  c.store = some file ∨ openStore codec place none c.disk = .ok file

/-- The invariant of runs in which new pins are saved. -/
structure Kept (codec : PinCodec) (place : Place) (c : Client) : Prop where
  trusted : Trusted c.calls
  current : ∀ file, c.store = some file → file.schema = schema
  /-- A file that can be read has the pins of the open store. -/
  saved : ∀ file file', c.store = some file → openStore codec place none c.disk = .ok file' →
    file' = file
  promised : ∀ host fp, Promised c.calls host fp → ∀ file, c.Holds codec place file →
    file.pins[host]? = some fp

theorem kept_new (codec : PinCodec) (place : Place) (disk : Option Bytes) :
    Kept codec place (.new disk) where
  trusted := trusted_nil
  current _ h := by cases h
  saved _ _ h := by cases h
  promised host fp h := by
    obtain ⟨before, after, hcalls, -⟩ := h
    exact absurd hcalls (by simp [Client.new])

theorem kept_of_store {disk : Option Bytes} (htrusted : Trusted calls)
    (hcurrent : file.schema = schema)
    (hsaved : ∀ file', openStore codec place none disk = .ok file' → file' = file)
    (hpromised : ∀ host fp, Promised calls host fp → file.pins[host]? = some fp) :
    Kept codec place ⟨disk, some file, calls⟩ := by
  refine ⟨htrusted, ?_, ?_, ?_⟩
  · intro file' hfile'
    cases hfile'
    exact hcurrent
  · intro file' file'' hfile' hopen
    cases hfile'
    exact hsaved file'' hopen
  · intro host fp hpromise file' hholds
    rcases hholds with hfile' | hopen
    · cases hfile'
      exact hpromised host fp hpromise
    · rw [hsaved file' hopen]
      exact hpromised host fp hpromise

section

variable (hkept : Kept codec place c)
include hkept

/-- A fingerprint is accepted that is pinned. -/
theorem Kept.accepted (hstore : c.store = some file)
    (hpin : ∀ fp', file.pins[host]? = some fp' → fp = fp') :
    Trusted (c.calls ++ [.accepted host fp]) := by
  apply hkept.trusted.concat
  · intro host' fp' fp'' hcall hpromised
    cases hcall
    exact hpin fp' (hkept.promised host fp' hpromised file (.inl hstore))
  · intro before after hcall
    cases hcall

theorem Kept.failed (file : PinFile) : Trusted (c.calls ++ [.failed file file]) := by
  apply hkept.trusted.concat
  · intro host fp fp' hcall
    cases hcall
  · intro before after hcall host fp
    cases hcall
    rfl

theorem Kept.unchanged (hstore : c.store = some file) {disk : Option Bytes}
    (htrusted : Trusted (c.calls ++ [call]))
    (hdisk : ∀ file', openStore codec place none disk = .ok file' → file' = file)
    (hcall : ∀ host fp, call = .accepted host fp → file.pins[host]? = some fp) :
    Kept codec place ⟨disk, some file, c.calls ++ [call]⟩ := by
  apply kept_of_store htrusted (hkept.current file hstore) hdisk
  intro host fp hpromised
  rcases promised_concat hpromised with hlast | ⟨hold, -⟩
  · exact hcall host fp hlast
  · exact hkept.promised host fp hold file (.inl hstore)

/-- A call pins a host for which nothing is promised, and saves the pins. -/
theorem Kept.inserted (hcodec : codec.Lawful) (hstore : c.store = some file)
    (htrusted : Trusted (c.calls ++ [call]))
    (hcall : ∀ host' fp', call = .accepted host' fp' → host' = host ∧ fp' = fp)
    (hhost : ∀ fp', Promised c.calls host fp' → call = .forced host) :
    Kept codec place
      ⟨some (codec.toVecPretty (file.insert host fp)), some (file.insert host fp),
        c.calls ++ [call]⟩ := by
  have hcurrent : (file.insert host fp).schema = schema := hkept.current file hstore
  apply kept_of_store htrusted hcurrent
  · intro file' hopen
    rw [openStore, hcodec.fromSlice_toVecPretty] at hopen
    simp only [if_pos hcurrent] at hopen
    exact (Except.ok.inj hopen).symm
  · intro host' fp' hpromised
    rcases promised_concat hpromised with hlast | ⟨hold, hnot⟩
    · obtain ⟨rfl, rfl⟩ := hcall host' fp' hlast
      rw [getElem?_insert, if_pos rfl]
    · have hne : host ≠ host' := by
        rintro rfl
        exact hnot (hhost fp' hold)
      rw [getElem?_insert, if_neg hne]
      exact hkept.promised host' fp' hold file (.inl hstore)

theorem Kept.step (hcodec : codec.Lawful) (hguard : SavesNewPins place c a)
    (hstep : step codec sha256 place c a = some c') : Kept codec place c' := by
  cases stepped_of_step hstep with
  | @opened readError file hopen =>
    -- A store that opens is the one in the file.
    obtain ⟨hopen, hschema⟩ : openStore codec place none c.disk = .ok file ∧
        file.schema = schema := by
      unfold openStore at hopen ⊢
      cases hdisk : c.disk with
      | none =>
        rw [hdisk] at hopen
        cases hopen
        exact ⟨rfl, rfl⟩
      | some bytes =>
        rw [hdisk] at hopen
        cases readError with
        | some source => cases hopen
        | none =>
          refine ⟨hopen, ?_⟩
          dsimp only at hopen
          split at hopen
          · cases hopen
          · split at hopen
            · next hschema =>
              cases hopen
              exact hschema
            · cases hopen
    apply kept_of_store hkept.trusted hschema
    · intro file' hopen'
      exact Except.ok.inj (hopen'.symm.trans hopen)
    · intro host fp hpromised
      exact hkept.promised host fp hpromised file (.inr hopen)
  | unopened readError => exact hkept
  | closed =>
    refine ⟨hkept.trusted, ?_, ?_, ?_⟩
    · intro file hfile
      cases hfile
    · intro file file' hfile
      cases hfile
    · intro host fp hpromised file hholds
      exact hkept.promised host fp hpromised file (hholds.imp_left (by intro h; cases h))
  | @matched host certDer fault file hstore hpin =>
    apply hkept.unchanged hstore
    · apply hkept.accepted hstore
      intro fp' hfp'
      exact Option.some.inj (hpin.symm.trans hfp')
    · exact fun file' hopen => hkept.saved file file' hstore hopen
    · intro host' fp' hcall
      cases hcall
      exact hpin
  | @mismatched host certDer fault file hstore =>
    apply hkept.unchanged hstore (hkept.failed file)
    · exact fun file' hopen => hkept.saved file file' hstore hopen
    · intro host' fp' hcall
      cases hcall
  | @pinned host certDer fault file hstore hpin =>
    apply hkept.inserted hcodec hstore
    · apply hkept.accepted hstore
      intro fp' hfp'
      rw [hpin] at hfp'
      cases hfp'
    · intro host' fp' hcall
      cases hcall
      exact ⟨rfl, rfl⟩
    · intro fp' hpromised
      rw [hkept.promised host fp' hpromised file (.inl hstore)] at hpin
      cases hpin
  | @forced host fp fault file hstore =>
    apply hkept.inserted hcodec hstore
    · apply hkept.trusted.concat
      · intro host' fp' fp'' hcall
        cases hcall
      · intro before after hcall
        cases hcall
    · intro host' fp' hcall
      cases hcall
    · exact fun _ _ => rfl
  | @unsaved _ host fp file disk hstore ha hdisk =>
    -- Of the saves that fail, the guard leaves those of a pin that is there already.
    have hpin : file.pins[host]? = some fp := by
      by_contra hnew
      rcases ha with ⟨certDer, fault, rfl, -, hnone, hfails⟩ | ⟨fault, rfl, hfails⟩
      · rw [hguard file hstore hnone] at hfails
        cases hfails
      · rw [hguard file hstore hnew] at hfails
        cases hfails
    rw [insert_of_getElem? hpin] at hdisk ⊢
    apply hkept.unchanged hstore (hkept.failed file)
    · intro file' hopen
      rcases hdisk with rfl | ⟨n, rfl⟩
      · exact hkept.saved file file' hstore hopen
      · by_cases hn : n < (codec.toVecPretty file).length
        · obtain ⟨reason, herror⟩ := hcodec.fromSlice_take file n hn
          simp only [openStore, herror] at hopen
          cases hopen
        · rw [take_of_length_le (Nat.le_of_not_lt hn)] at hopen
          simp only [openStore, hcodec.fromSlice_toVecPretty] at hopen
          split at hopen
          · cases hopen
            rfl
          · cases hopen
    · intro host' fp' hcall
      cases hcall

end

end TraceMux.Server.Fingerprint
